import CodeHealth.Proofs.Code.Scope
import CodeHealth.Proofs.Refactor.Signature

/-!
# Variadic parameters

A parameter is listed by the first identifier in it. It is variadic if this identifier lies below a
splat, and its name bears the stars of the splat exactly if the parameter itself is the splat: an
annotated one, whose splat is inside the parameter, is listed like any other parameter.
-/

namespace CodeHealth

open CodeHealth.Tree

variable {ast : SourceTree} {f : FunctionDef} {p : Tree SyntaxNode}

def dictionarySplatKinds : List String :=
  ["dictionary_splat_pattern"]

def listSplatKinds : List String :=
  ["list_splat_pattern", "rest_pattern"]

/-! ## First identifiers -/

namespace Tree

/-- The name that an identifier gives to the parameter that it is in. -/
def identifierName? (t : Tree SyntaxNode) : Option String :=
  if t.kind == "identifier" || t.kind == "shorthand_property_identifier_pattern" then
    t.nonEmptyText?
  else none

/-- The first identifier in a parameter, at its place in it. -/
def firstIdentifier? (p : Tree SyntaxNode) : Option (Tree (Spot SyntaxNode)) :=
  ((p.spots []).reach Spot.isError fun _ => false).find? fun s =>
    s.label.tree.identifierName?.isSome

/-- The first identifier in a parameter lies below a node of one of the kinds, which may be the
parameter itself. -/
def liesUnder (p : Tree SyntaxNode) (kinds : List String) : Bool :=
  p.firstIdentifier?.any fun s =>
    (p.nearest? (fun n => kinds.contains n.kind) s.label.path).isSome

theorem findSome?_eq_bind_find? {α β : Type} (g : α → Option β) (l : List α) :
    l.findSome? g = (l.find? fun a => (g a).isSome).bind g := by
  induction l with
  | nil => rfl
  | cons a l ih =>
      rw [List.findSome?_cons, List.find?_cons]
      cases h : g a with
      | none => exact ih
      | some b => exact h.symm

theorem parameterIdentifier?_eq (p : Tree SyntaxNode) :
    p.parameterIdentifier? = p.firstIdentifier?.bind fun s => s.label.tree.identifierName? := by
  unfold parameterIdentifier? firstIdentifier? walk
  rw [← map_tree_reach_spots (·.isError) (fun _ => false) [] p, List.findSome?_map,
    findSome?_eq_bind_find?]
  rfl

theorem liesUnder_of_parameterIdentifier?_eq_none (h : p.parameterIdentifier? = none)
    (kinds : List String) : p.liesUnder kinds = false := by
  unfold liesUnder
  cases hfirst : p.firstIdentifier? with
  | none => rfl
  | some s =>
      have hname := List.find?_some hfirst
      rw [parameterIdentifier?_eq, hfirst, Option.bind_some] at h
      rw [h] at hname
      exact nomatch hname

/-- The first identifier stands at its place in the parameter, and has a text. -/
theorem of_firstIdentifier?_eq_some {s : Tree (Spot SyntaxNode)} (h : p.firstIdentifier? = some s) :
    p.at? s.label.path = some s.label.tree ∧ s.label.tree.label.text.isSome = true := by
  have hroot : IsSpotOf p (p.spots []) := isSpotOf_spots rfl
  have hspot : IsSpotOf p s :=
    hroot.of_mem_subtrees (mem_subtrees_of_mem_reach (List.mem_of_find?_eq_some h))
  refine ⟨hspot.at?_path, ?_⟩
  have hsome := List.find?_some h
  obtain ⟨name, hname⟩ := Option.isSome_iff_exists.mp hsome
  unfold identifierName? at hname
  split at hname
  · obtain ⟨htext, -⟩ := Option.filter_eq_some_iff.mp hname
    rw [htext, Option.isSome_some]
  · exact nomatch hname

/-- In a parameter without a text the first identifier lies below the parameter itself. -/
theorem liesUnder_kind (htext : p.label.text = none) {kinds : List String}
    (hkind : kinds.contains p.kind = true) :
    p.liesUnder kinds = p.parameterIdentifier?.isSome := by
  cases hname : p.parameterIdentifier? with
  | none => exact liesUnder_of_parameterIdentifier?_eq_none hname kinds
  | some name =>
      rw [parameterIdentifier?_eq] at hname
      obtain ⟨s, hfirst, -⟩ := Option.bind_eq_some_iff.mp hname
      obtain ⟨hat, hsome⟩ := of_firstIdentifier?_eq_some hfirst
      unfold liesUnder
      rw [hfirst, Option.any_some, Option.isSome_some]
      apply isSome_nearest?_of_root hkind
      intro hroot
      rw [hroot, at?_nil] at hat
      rw [← Option.some.inj hat, htext] at hsome
      exact nomatch hsome

/-- Nothing lies above the only node of a tree. -/
theorem liesUnder_of_children_eq_nil (hleaf : p.children = []) (kinds : List String) :
    p.liesUnder kinds = false := by
  unfold liesUnder
  cases hfirst : p.firstIdentifier? with
  | none => rfl
  | some s =>
      obtain ⟨hat, -⟩ := of_firstIdentifier?_eq_some hfirst
      cases hpath : s.label.path with
      | nil => rw [Option.any_some, hpath, nearest?_nil, Option.isSome_none]
      | cons i path =>
          rw [hpath, at?_cons, hleaf] at hat
          exact nomatch hat

end Tree

/-! ## Entries -/

/-- A parameter of a function. It stands in the list of parameters, or alone in place of one. -/
structure ParameterEntry where
  node : Tree SyntaxNode
  listed : Bool

namespace ParameterEntry

/-- The name that is listed for a parameter. -/
def name (e : ParameterEntry) : String :=
  if e.listed then e.node.parameterName else e.node.nonEmptyText?.getD e.node.kind

/-- The name without the stars that are put in front of it. -/
def bareName (e : ParameterEntry) : String :=
  if e.listed then e.node.label.text.getD (e.node.parameterIdentifier?.getD e.node.kind)
  else e.node.nonEmptyText?.getD e.node.kind

/-- The name begins with two stars if the first identifier lies below a splat of a dictionary, with
a single one if it lies below a splat of a list, and else with none. -/
def ShowsStars (e : ParameterEntry) : Prop :=
  Text.startsWith e.name "**" = e.node.liesUnder dictionarySplatKinds ∧
    (Text.startsWith e.name "*" && !Text.startsWith e.name "**") =
      e.node.liesUnder listSplatKinds

/-- A listed parameter is a splat of one of the kinds itself. -/
def isSplat (e : ParameterEntry) (kinds : List String) : Bool :=
  e.listed && kinds.contains e.node.kind

/-- The first identifier lies below a splat of a kind only if the parameter itself is one. -/
def StarsAreOwn (e : ParameterEntry) : Prop :=
  (e.node.liesUnder dictionarySplatKinds = true → e.isSplat dictionarySplatKinds = true) ∧
    (e.node.liesUnder listSplatKinds = true → e.isSplat listSplatKinds = true)

instance (e : ParameterEntry) : Decidable e.ShowsStars :=
  inferInstanceAs (Decidable (_ ∧ _))

instance (e : ParameterEntry) : Decidable e.StarsAreOwn :=
  inferInstanceAs (Decidable (_ ∧ _))

variable {e : ParameterEntry}

/-- The stars that are put in front of a name. -/
def stars (e : ParameterEntry) : String :=
  if e.isSplat dictionarySplatKinds && e.node.liesUnder dictionarySplatKinds then "**"
  else if e.isSplat listSplatKinds && e.node.liesUnder listSplatKinds then "*"
  else ""

theorem stars_eq_empty (h : e.listed = true → ∀ kinds, e.node.liesUnder kinds = false) :
    e.stars = "" := by
  have hnone (kinds : List String) : (e.isSplat kinds && e.node.liesUnder kinds) = false := by
    unfold isSplat
    cases hlisted : e.listed with
    | false => rfl
    | true => rw [h hlisted, Bool.and_false]
  unfold stars
  rw [hnone, hnone]
  rfl

/-- A listed parameter with an identifier below itself bears the stars of its own kind. -/
theorem stars_eq_of_listed (hlisted : e.listed = true) (htext : e.node.label.text = none)
    (hname : e.node.parameterIdentifier?.isSome = true) :
    e.stars = if dictionarySplatKinds.contains e.node.kind then "**"
      else if listSplatKinds.contains e.node.kind then "*" else "" := by
  have hown (kinds : List String) :
      (e.isSplat kinds && e.node.liesUnder kinds) = kinds.contains e.node.kind := by
    unfold isSplat
    rw [hlisted, Bool.true_and]
    cases hkind : kinds.contains e.node.kind with
    | false => rfl
    | true => rw [liesUnder_kind htext hkind, hname, Bool.true_and]
  unfold stars
  rw [hown, hown]

theorem name_eq (htext : e.node.label.text = none ∨ e.node.children = []) :
    e.name = e.stars ++ e.bareName := by
  cases hlisted : e.listed with
  | false =>
      rw [stars_eq_empty (fun h => Bool.noConfusion (hlisted.symm.trans h)), String.empty_append]
      unfold name bareName
      rw [hlisted]
      rfl
  | true =>
      unfold name bareName parameterName
      rw [hlisted, if_pos rfl, if_pos rfl]
      cases hown : e.node.label.text with
      | some text =>
          rw [hown] at htext
          have hleaf := htext.resolve_left (by simp)
          rw [stars_eq_empty fun _ => liesUnder_of_children_eq_nil hleaf, String.empty_append]
          rfl
      | none =>
          cases hname : e.node.parameterIdentifier? with
          | none =>
              rw [stars_eq_empty fun _ => liesUnder_of_parameterIdentifier?_eq_none hname,
                String.empty_append]
              rfl
          | some name =>
              rw [stars_eq_of_listed hlisted hown (by rw [hname, Option.isSome_some])]
              unfold dictionarySplatKinds listSplatKinds
              simp only [List.contains_cons, List.contains_nil, Bool.or_false]
              split
              · rfl
              · split
                · rfl
                · exact String.empty_append.symm

theorem startsWith_two {name : String} (h : Text.startsWith name "*" = false) :
    Text.startsWith name "**" = false := by
  rw [← Bool.not_eq_true] at h ⊢
  intro htwo
  have hone : "*".toList <+: "**".toList := ⟨['*'], rfl⟩
  exact h (List.isPrefixOf_iff_prefix.mpr (hone.trans (List.isPrefixOf_iff_prefix.mp htwo)))

theorem startsWith_append (head name : String) : Text.startsWith (head ++ name) head = true := by
  unfold Text.startsWith
  rw [String.toList_append, List.isPrefixOf_iff_prefix]
  exact List.prefix_append _ _

/-- The stars at the front of a name are those of the parameter's own kind. -/
theorem startsWith_name (hplain : Text.startsWith e.bareName "*" = false)
    (htext : e.node.label.text = none ∨ e.node.children = []) :
    Text.startsWith e.name "**" =
        (e.isSplat dictionarySplatKinds && e.node.liesUnder dictionarySplatKinds) ∧
      (Text.startsWith e.name "*" && !Text.startsWith e.name "**") =
        (!(e.isSplat dictionarySplatKinds && e.node.liesUnder dictionarySplatKinds) &&
          (e.isSplat listSplatKinds && e.node.liesUnder listSplatKinds)) := by
  have hone : Text.startsWith ("*" ++ e.bareName) "**" = Text.startsWith e.bareName "*" := by
    unfold Text.startsWith
    rw [String.toList_append]
    rfl
  rw [name_eq htext]
  unfold stars
  split
  · rename_i hdictionary
    rw [startsWith_append, hdictionary]
    simp
  · rename_i hdictionary
    rw [Bool.not_eq_true] at hdictionary
    split
    · rename_i hlist
      rw [startsWith_append, hone, hplain, hdictionary, hlist]
      simp
    · rename_i hlist
      rw [Bool.not_eq_true] at hlist
      rw [String.empty_append, hplain, startsWith_two hplain, hdictionary, hlist]
      simp

theorem isSplat_list_of_dictionary (h : e.isSplat dictionarySplatKinds = true) :
    e.isSplat listSplatKinds = false := by
  unfold isSplat at h ⊢
  have hkind := (Bool.and_eq_true_iff.mp h).2
  rw [List.mem_singleton.mp (List.contains_iff_mem.mp hkind)]
  exact Bool.and_false _

/-- The name of a parameter shows its stars exactly if they are those of its own kind. -/
theorem showsStars_iff (hplain : Text.startsWith e.bareName "*" = false)
    (htext : e.node.label.text = none ∨ e.node.children = []) :
    e.ShowsStars ↔ e.StarsAreOwn := by
  obtain ⟨htwo, hone⟩ := startsWith_name hplain htext
  have hexclusive : e.isSplat dictionarySplatKinds = true → e.isSplat listSplatKinds = false :=
    isSplat_list_of_dictionary
  unfold ShowsStars StarsAreOwn
  rw [hone, htwo]
  -- what remains is about four truth values, of which the first two exclude each other
  revert hexclusive
  generalize e.isSplat dictionarySplatKinds = ownTwo, e.isSplat listSplatKinds = ownOne,
    e.node.liesUnder dictionarySplatKinds = two, e.node.liesUnder listSplatKinds = one
  revert ownTwo ownOne two one
  decide

end ParameterEntry

/-! ## Parameters of a function -/

/-- Drops the receiver at the front of a method's parameters. -/
def dropReceiverEntry (entries : List ParameterEntry) : List ParameterEntry :=
  match entries with
  | first :: rest => if first.name == "self" || first.name == "cls" then rest else entries
  | [] => []

/-- The parameters of a function, without the receiver of a Python method. -/
def Tree.parameterEntries (t : Tree SyntaxNode) (language : Language) (isMethod : Bool) :
    List ParameterEntry :=
  match t.childByField? "parameters" with
  | none =>
    match t.childByField? "parameter" with
    | some single => [⟨single, false⟩]
    | none => []
  | some list =>
    let entries := (list.namedChildren.filter fun p =>
      !(parameterMarkers.contains p.kind || p.label.isError)).map (⟨·, true⟩)
    if language == .python && isMethod then dropReceiverEntry entries else entries

theorem map_name_dropReceiverEntry (entries : List ParameterEntry) :
    (dropReceiverEntry entries).map (·.name) = dropReceiver (entries.map (·.name)) := by
  cases entries with
  | nil => rfl
  | cons first rest =>
      unfold dropReceiverEntry dropReceiver
      rw [List.map_cons]
      dsimp only
      split <;> rfl

theorem map_name_parameterEntries (t : Tree SyntaxNode) (language : Language) (isMethod : Bool) :
    (t.parameterEntries language isMethod).map (·.name) =
      t.parameterNames language isMethod := by
  unfold parameterEntries parameterNames
  cases t.childByField? "parameters" with
  | none => cases t.childByField? "parameter" <;> rfl
  | some list =>
      dsimp only
      split
      · rw [map_name_dropReceiverEntry, List.map_map]
        rfl
      · rw [List.map_map]
        rfl

theorem mem_of_mem_dropReceiverEntry {entries : List ParameterEntry} {e : ParameterEntry}
    (he : e ∈ dropReceiverEntry entries) : e ∈ entries := by
  unfold dropReceiverEntry at he
  split at he
  · split at he
    · exact List.mem_cons_of_mem _ he
    · exact he
  · exact he

theorem node_mem_subtrees_of_mem_parameterEntries {t : Tree SyntaxNode} {language : Language}
    {isMethod : Bool} {e : ParameterEntry} (he : e ∈ t.parameterEntries language isMethod) :
    e.node ∈ t.subtrees := by
  unfold parameterEntries at he
  split at he
  · split at he
    · rename_i single hsingle
      rw [List.mem_singleton.mp he]
      exact child_mem_subtrees (List.mem_of_find?_eq_some hsingle)
    · exact absurd he List.not_mem_nil
  · rename_i list hlist
    have hlisted : e ∈ (list.namedChildren.filter fun p =>
        !(parameterMarkers.contains p.kind || p.label.isError)).map (⟨·, true⟩) := by
      dsimp only at he
      split at he
      · exact mem_of_mem_dropReceiverEntry he
      · exact he
    obtain ⟨p, hp, rfl⟩ := List.mem_map.mp hlisted
    exact subtrees_trans (child_mem_subtrees (List.mem_of_mem_filter (List.mem_of_mem_filter hp)))
      (child_mem_subtrees (List.mem_of_find?_eq_some hlist))

namespace FunctionDef

/-- The parameters of a function in a tree of a language. -/
def entries (f : FunctionDef) (language : Language) : List ParameterEntry :=
  f.node.parameterEntries language f.className.isSome

/-- For each parameter whether it is variadic by name and by position. -/
def variadics (f : FunctionDef) (language : Language) : List (Bool × Bool) :=
  (f.entries language).map fun e =>
    (e.node.liesUnder dictionarySplatKinds, e.node.liesUnder listSplatKinds)

theorem parameters_eq (hf : f ∈ ast.functions) :
    f.parameters = (f.entries ast.language).map (·.name) :=
  (parameters_of_mem_functions hf).trans (map_name_parameterEntries _ _ _).symm

end FunctionDef

/-- What a name tells of its parameter. -/
def readStars (name : String) : Bool × Bool :=
  (Text.startsWith name "**", Text.startsWith name "*" && !Text.startsWith name "**")

theorem FunctionDef.variadics_eq (hf : f ∈ ast.functions)
    (hshows : ∀ e ∈ f.entries ast.language, e.ShowsStars) :
    f.variadics ast.language = f.parameters.map readStars := by
  rw [parameters_eq hf, List.map_map]
  apply List.map_congr_left
  intro e he
  exact (Prod.ext (hshows e he).1 (hshows e he).2).symm

/-- Only leaves have texts, and no parameter has a name that begins with a star of its own. -/
structure SourceTree.NamesPlainly (ast : SourceTree) : Prop where
  leaf : ∀ u ∈ ast.root.subtrees, u.label.text = none ∨ u.children = []
  plain : ∀ f ∈ ast.functions, ∀ e ∈ f.entries ast.language,
    Text.startsWith e.bareName "*" = false

theorem SourceTree.NamesPlainly.showsStars_iff (h : ast.NamesPlainly) (hf : f ∈ ast.functions)
    {e : ParameterEntry} (he : e ∈ f.entries ast.language) : e.ShowsStars ↔ e.StarsAreOwn :=
  ParameterEntry.showsStars_iff (h.plain f hf e he) (h.leaf e.node
    (subtrees_trans (node_mem_subtrees_of_mem_parameterEntries he)
      (node_mem_subtrees_of_mem_functions hf)))

/-- A name shows the stars of its parameter exactly if the first identifier lies below no splat but
the parameter itself. Functions with such parameters that have the same names for them agree on
which are variadic. -/
theorem parameters_showStars_iff (old new : SourceTree) (hold : old.NamesPlainly)
    (hnew : new.NamesPlainly) :
    (∀ f ∈ old.functions, f.parameters = (f.entries old.language).map (·.name) ∧
      ∀ e ∈ f.entries old.language, e.ShowsStars ↔ e.StarsAreOwn) ∧
    ∀ f ∈ old.functions, ∀ g ∈ new.functions, (∀ e ∈ f.entries old.language, e.StarsAreOwn) →
      (∀ e ∈ g.entries new.language, e.StarsAreOwn) → f.parameters = g.parameters →
        f.variadics old.language = g.variadics new.language := by
  refine ⟨fun f hf => ⟨FunctionDef.parameters_eq hf, fun e he => hold.showsStars_iff hf he⟩, ?_⟩
  intro f hf g hg hfown hgown hsame
  rw [FunctionDef.variadics_eq hf fun e he => (hold.showsStars_iff hf he).mpr (hfown e he),
    FunctionDef.variadics_eq hg fun e he => (hnew.showsStars_iff hg he).mpr (hgown e he), hsame]

/-- The tree of a function `f` of some parameters, whose list is closed at a byte offset. Its body
is `pass`. -/
def functionOf (text : String) (close : Nat) (parameters : List (Tree GrammarNode)) : SourceTree :=
  .ofGrammar defaultNodeBudget text "a.py" .python
    { root := grammarNode "module" none 0 (close + 6)
        [grammarNode "function_definition" none 0 (close + 6)
          [grammarToken "def" 0 3, grammarNode "identifier" (some "name") 4 5 [],
            grammarNode "parameters" (some "parameters") 5 (close + 1)
              (grammarToken "(" 5 6 :: parameters ++ [grammarToken ")" close (close + 1)]),
            grammarToken ":" (close + 1) (close + 2),
            grammarNode "block" (some "body") (close + 2) (close + 6)
              [grammarNode "pass_statement" none (close + 2) (close + 6)
                [grammarToken "pass" (close + 2) (close + 6)]]]]
      hasError := false }

/-- A splat of an identifier of one character. -/
def splatNode (kind stars : String) (start : Nat) : Tree GrammarNode :=
  let name := start + stars.length
  grammarNode kind none start (name + 1)
    [grammarToken stars start name, grammarNode "identifier" none name (name + 1) []]

/-- A parameter of type `int`. -/
def annotatedNode (start colon : Nat) (parameter : Tree GrammarNode) : Tree GrammarNode :=
  grammarNode "typed_parameter" none start (colon + 4)
    [parameter, grammarToken ":" colon (colon + 1),
      grammarNode "type" (some "type") (colon + 1) (colon + 4)
        [grammarNode "identifier" none (colon + 1) (colon + 4) []]]

/-- A function of three parameters, of which two are variadic. -/
def starredFunction : SourceTree :=
  functionOf "def f(x,*b,**c):pass" 14
    [grammarNode "identifier" none 6 7 [], grammarToken "," 7 8,
      splatNode "list_splat_pattern" "*" 8, grammarToken "," 10 11,
      splatNode "dictionary_splat_pattern" "**" 11]

/-- The same function with an annotation at its first parameter. -/
def annotatedFirst : SourceTree :=
  functionOf "def f(x:int,*b,**c):pass" 18
    [annotatedNode 6 7 (grammarNode "identifier" none 6 7 []), grammarToken "," 11 12,
      splatNode "list_splat_pattern" "*" 12, grammarToken "," 14 15,
      splatNode "dictionary_splat_pattern" "**" 15]

theorem starredFunction_showsStars :
    starredFunction.NamesPlainly ∧ annotatedFirst.NamesPlainly ∧
      starredFunction.functions.map FunctionDef.parameters = [["x", "*b", "**c"]] ∧
      (∀ f ∈ starredFunction.functions, ∀ e ∈ f.entries .python, e.ShowsStars) ∧
      ∀ f ∈ starredFunction.functions, ∀ g ∈ annotatedFirst.functions,
        f.parameters = g.parameters ∧ f.variadics .python = g.variadics .python := by
  have hold : starredFunction.NamesPlainly :=
    ⟨fun _ hu => text_eq_none_or_children_eq_nil hu, by decide +kernel⟩
  have hnew : annotatedFirst.NamesPlainly :=
    ⟨fun _ hu => text_eq_none_or_children_eq_nil hu, by decide +kernel⟩
  have holdOwn : ∀ f ∈ starredFunction.functions, ∀ e ∈ f.entries .python, e.StarsAreOwn := by
    decide +kernel
  have hnewOwn : ∀ f ∈ annotatedFirst.functions, ∀ e ∈ f.entries .python, e.StarsAreOwn := by
    decide +kernel
  have hparameters : ∀ f ∈ starredFunction.functions, ∀ g ∈ annotatedFirst.functions,
      f.parameters = g.parameters := by
    decide +kernel
  obtain ⟨hshows, hsame⟩ := parameters_showStars_iff starredFunction annotatedFirst hold hnew
  exact ⟨hold, hnew, by decide +kernel,
    fun f hf e he => ((hshows f hf).2 e he).mpr (holdOwn f hf e he),
    fun f hf g hg => ⟨hparameters f hf g hg,
      hsame f hf g hg (holdOwn f hf) (hnewOwn g hg) (hparameters f hf g hg)⟩⟩

/-- A function of an annotated variadic parameter. -/
def annotatedSplat : SourceTree :=
  functionOf "def f(*a:int):pass" 12 [annotatedNode 6 8 (splatNode "list_splat_pattern" "*" 6)]

/-- A function of an annotated parameter. -/
def annotatedFunction : SourceTree :=
  functionOf "def f(a:int):pass" 11 [annotatedNode 6 7 (grammarNode "identifier" none 6 7 [])]

def splatRequest : VerificationRequest :=
  { oldCode := annotatedSplat.source, newCode := annotatedFunction.source, language := "python"
    filePath := "a.py", issueId := none, issueType := none, explanation := "", confidence := none }

/-- The star of an annotated parameter is lost, also for the check of the signatures. -/
theorem annotatedSplat_losesStar :
    (∃ f ∈ annotatedSplat.functions, f.parameters = ["a"] ∧
      ∃ e ∈ f.entries .python, e.node.children ≠ [] ∧ e.node.liesUnder listSplatKinds = true ∧
        ¬ e.ShowsStars) ∧
      (RiskCheck.signatures.layer
        ⟨splatRequest, {}, annotatedSplat, annotatedFunction, []⟩).status = .pass ∧
      ∃ f ∈ annotatedSplat.functions, ∃ g ∈ annotatedFunction.functions,
        f.parameters = g.parameters ∧ f.variadics .python ≠ g.variadics .python :=
  ⟨by decide +kernel, by decide +kernel, by decide +kernel⟩

end CodeHealth
