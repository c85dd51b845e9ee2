import CodeHealth.Proofs.Refactor.Check
import CodeHealth.Proofs.Tree.Parse

/-!
# Preserved signatures

The signature under a name is that of the first public function with this qualified name. The check
of the signatures passes exactly when each name keeps its signature, so a later function of the same
name, such as a setter beside its getter, may be lost unseen.
-/

namespace CodeHealth

variable {ast : SourceTree} {before after : List Signature} {name : String}

/-! ## Signatures of a tree -/

/-- Adds the signature of a function whose name has none yet. -/
def addSignature (found : List Signature) (f : FunctionDef) : List Signature :=
  if found.any fun s => s.name == f.qualifiedName then found
  else found ++ [⟨f.qualifiedName, f.parameters⟩]

/-- The first public function with a qualified name. -/
def SourceTree.firstPublic? (ast : SourceTree) (name : String) : Option FunctionDef :=
  ast.publicFunctions.find? fun f => f.qualifiedName == name

namespace RiskCheck

theorem parametersOf_addSignature (found : List Signature) (f : FunctionDef) (name : String) :
    parametersOf (addSignature found f) name =
      (parametersOf found name).or
        (if f.qualifiedName == name then some f.parameters else none) := by
  unfold addSignature
  split
  · rename_i hany
    obtain ⟨s, hs, hname⟩ := List.any_eq_true.mp hany
    by_cases heq : f.qualifiedName = name
    · have hsome : (parametersOf found name).isSome = true :=
        isSome_parametersOf_iff.mpr (List.mem_map.mpr ⟨s, hs, (beq_iff_eq.mp hname).trans heq⟩)
      rw [Option.or_of_isSome hsome]
    · simp [heq]
  · unfold parametersOf
    rw [List.find?_append, Option.map_or, List.find?_singleton]
    split <;> rfl

theorem parametersOf_foldl_addSignature (fs : List FunctionDef) (found : List Signature)
    (name : String) :
    parametersOf (fs.foldl addSignature found) name =
      (parametersOf found name).or
        ((fs.find? fun f => f.qualifiedName == name).map FunctionDef.parameters) := by
  induction fs generalizing found with
  | nil => simp
  | cons f fs ih =>
      rw [List.foldl_cons, ih, parametersOf_addSignature, Option.or_assoc, List.find?_cons]
      cases f.qualifiedName == name <;> simp

theorem parametersOf_publicSignatures (ast : SourceTree) (name : String) :
    parametersOf ast.publicSignatures name =
      (ast.firstPublic? name).map FunctionDef.parameters :=
  parametersOf_foldl_addSignature ast.publicFunctions [] name

/-! ## Comparison -/

/-- The check passes exactly when the first public function of each name has a counterpart with its
parameters that is the first of that name. -/
theorem signatures_pass_iff (input : RiskInput) :
    (signatures.layer input).status = .pass ↔
      ∀ name f, input.old.firstPublic? name = some f →
        ∃ g, input.new.firstPublic? name = some g ∧ g.parameters = f.parameters := by
  have hlayer : (signatures.layer input).status =
      (compareSignatures input.old.publicSignatures input.new.publicSignatures).status := rfl
  rw [hlayer, status_compareSignatures_eq_pass_iff]
  simp only [parametersOf_publicSignatures, Option.isSome_map]
  refine forall_congr' fun name => ?_
  cases hfirst : input.old.firstPublic? name with
  | none => simp
  | some f => simp

end RiskCheck

/-! ## Functions -/

theorem FunctionDef.name_eq_of_qualifiedName_eq {f g : FunctionDef}
    (hclass : g.className = f.className) (h : g.qualifiedName = f.qualifiedName) :
    g.name = f.name := by
  unfold qualifiedName at h
  rw [hclass] at h
  split at h
  · rename_i c _
    split at h
    · exact h
    · have hlists := congrArg String.toList h
      simp only [String.toList_append] at hlists
      exact String.toList_inj.mp (List.append_cancel_left hlists)
  · exact h

theorem SourceTree.of_firstPublic?_eq_some {f : FunctionDef} (h : ast.firstPublic? name = some f) :
    f ∈ ast.publicFunctions ∧ f.qualifiedName = name :=
  ⟨List.mem_of_find?_eq_some h, by simpa using List.find?_some h⟩

theorem SourceTree.exists_firstPublic? {f : FunctionDef} (hf : f ∈ ast.publicFunctions) :
    ∃ e, ast.firstPublic? f.qualifiedName = some e := by
  rw [← Option.isSome_iff_exists]
  unfold firstPublic?
  rw [List.find?_isSome]
  exact ⟨f, hf, beq_self_eq_true _⟩

/-- Where the signatures are preserved, every public function has a counterpart with its class, name
and parameters, unless the first function of its qualified name has other parameters, or the first
one of this name in the new code is in another class. -/
theorem exists_counterpart_of_signatures_pass (input : RiskInput)
    (hpass : (RiskCheck.signatures.layer input).status = .pass) {f : FunctionDef}
    (hf : f ∈ input.old.publicFunctions)
    (hfirst : ∀ e, input.old.firstPublic? f.qualifiedName = some e → e.parameters = f.parameters)
    (hclass : ∀ g, input.new.firstPublic? f.qualifiedName = some g → g.className = f.className) :
    ∃ g ∈ input.new.publicFunctions, g.className = f.className ∧ g.name = f.name ∧
      g.parameters = f.parameters := by
  obtain ⟨e, he⟩ := SourceTree.exists_firstPublic? hf
  obtain ⟨g, hg, hparameters⟩ := (RiskCheck.signatures_pass_iff input).mp hpass _ e he
  obtain ⟨hmem, hname⟩ := SourceTree.of_firstPublic?_eq_some hg
  have hsame := hclass g hg
  exact ⟨g, hmem, hsame, FunctionDef.name_eq_of_qualifiedName_eq hsame hname,
    hparameters.trans (hfirst e he)⟩

/-- An accessor named `x` in a class body: its keyword, its parameter if any, and an empty body. -/
def accessorNode (keyword : String) (start : Nat) (parameters : List (Tree GrammarNode)) :
    Tree GrammarNode :=
  let list := start + 5
  let body := list + 2 + parameters.length
  grammarNode "method_definition" (some "member") start (body + 2)
    [grammarToken keyword start (start + 3),
      grammarNode "property_identifier" (some "name") (start + 4) list [],
      grammarNode "formal_parameters" (some "parameters") list body
        (grammarToken "(" list (list + 1) :: parameters ++ [grammarToken ")" (body - 1) body]),
      grammarNode "statement_block" (some "body") body (body + 2)
        [grammarToken "\x7b" body (body + 1), grammarToken "\x7d" (body + 1) (body + 2)]]

/-- The tree of a class `A` with the given members, which ends at a byte offset. -/
def classTree (stop : Nat) (members : List (Tree GrammarNode)) : GrammarTree where
  root := grammarNode "program" none 0 stop [grammarNode "class_declaration" none 0 stop
    [grammarToken "class" 0 5, grammarNode "identifier" (some "name") 6 7 [],
      grammarNode "class_body" (some "body") 7 stop
        (grammarToken "\x7b" 7 8 :: members ++ [grammarToken "\x7d" (stop - 1) stop])]]
  hasError := false

/-- The source of a getter and a setter. -/
def accessors : SourceTree :=
  .ofGrammar defaultNodeBudget "class A\x7bget x()\x7b\x7d set x(v)\x7b\x7d\x7d" "a.js" .javascript
    (classTree 29 [accessorNode "get" 8 [], accessorNode "set" 18
      [grammarNode "identifier" none 24 25 []]])

/-- The source of the getter alone. -/
def getter : SourceTree :=
  .ofGrammar defaultNodeBudget "class A\x7bget x()\x7b\x7d\x7d" "a.js" .javascript
    (classTree 18 [accessorNode "get" 8 []])

def settingRequest : VerificationRequest :=
  { oldCode := accessors.source, newCode := getter.source, language := "javascript"
    filePath := "a.js", issueId := none, issueType := none, explanation := "", confidence := none }

theorem getter_has_counterpart :
    (RiskCheck.signatures.layer ⟨settingRequest, {}, accessors, getter, []⟩).status = .pass ∧
      ∃ f ∈ accessors.publicFunctions, f.parameters = [] ∧
        ∃ g ∈ getter.publicFunctions, g.className = f.className ∧ g.name = f.name ∧
          g.parameters = f.parameters := by
  have hpass : (RiskCheck.signatures.layer ⟨settingRequest, {}, accessors, getter, []⟩).status =
      .pass := by decide +kernel
  obtain ⟨f, hf⟩ : ∃ f, accessors.firstPublic? "A.x" = some f :=
    Option.isSome_iff_exists.mp (by decide +kernel)
  obtain ⟨hmem, hname⟩ := SourceTree.of_firstPublic?_eq_some hf
  have hparameters : (accessors.firstPublic? "A.x").map FunctionDef.parameters = some [] := by
    decide +kernel
  rw [hf] at hparameters
  have hold : ∀ f ∈ accessors.publicFunctions, f.className = some "A" := by decide +kernel
  have hnew : ∀ g ∈ getter.publicFunctions, g.className = some "A" := by decide +kernel
  refine ⟨hpass, f, hmem, Option.some.inj hparameters, ?_⟩
  refine exists_counterpart_of_signatures_pass ⟨settingRequest, {}, accessors, getter, []⟩ hpass
    hmem (fun e he => ?_) fun g hg =>
      (hnew g (SourceTree.of_firstPublic?_eq_some hg).1).trans (hold f hmem).symm
  rw [hname] at he
  rw [Option.some.inj (he.symm.trans hf)]

/-- A setter can be lost with all signatures preserved. -/
theorem lost_setter_passes :
    (RiskCheck.signatures.layer ⟨settingRequest, {}, accessors, getter, []⟩).status = .pass ∧
      ∃ f ∈ accessors.publicFunctions, f.parameters = ["v"] ∧
        ¬ ∃ g ∈ getter.publicFunctions, g.className = f.className ∧ g.name = f.name ∧
          g.parameters = f.parameters := by
  constructor <;> decide +kernel

end CodeHealth
