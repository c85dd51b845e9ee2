import CodeHealth.Proofs.Refactor.Outcome

/-!
# Candidates without code

A candidate without code is refused where the old code has a token that is read, one with no
malformed node on the way down to it. Tokens in malformed parts are not read: a candidate that
deletes them and nothing else may be verified.
-/

namespace CodeHealth

open CodeHealth.Tree

variable {grammar : Grammar} {options : Options} {checks : List RiskCheck}
  {request : VerificationRequest} {ast : SourceTree}

namespace Tree

/-- Whether a subtree is a token of code. -/
def isCodeToken (t : Tree SyntaxNode) : Bool :=
  t.isToken && !commentKinds.contains t.kind

/-- The second tree stands in the first, and no node on the way down to it is malformed. -/
inductive Reads : Tree SyntaxNode → Tree SyntaxNode → Prop
  | here {t : Tree SyntaxNode} (hsound : t.label.isError = false) : Reads t t
  | inside {t c u : Tree SyntaxNode} (hsound : t.label.isError = false) (hc : c ∈ t.children)
      (hu : Reads c u) : Reads t u

theorem mem_walk_node {a : SyntaxNode} {cs : List (Tree SyntaxNode)} {u : Tree SyntaxNode} :
    u ∈ (node a cs).walk ↔ a.isError = false ∧ (u = node a cs ∨ ∃ c ∈ cs, u ∈ c.walk) := by
  unfold walk
  rw [reach, if_neg Bool.false_ne_true, reachAll_eq_flatMap]
  cases ha : a.isError <;> simp

theorem mem_walk_iff {t u : Tree SyntaxNode} : u ∈ t.walk ↔ Reads t u := by
  constructor
  · intro hu
    induction t with
    | node a cs ih =>
        obtain ⟨hsound, rfl | ⟨c, hc, hu⟩⟩ := mem_walk_node.mp hu
        · exact .here hsound
        · exact .inside hsound hc (ih c hc hu)
  · intro hu
    induction hu with
    | @here t hsound =>
        cases t with
        | node a cs => exact mem_walk_node.mpr ⟨hsound, .inl rfl⟩
    | @inside t c u hsound hc _ ih =>
        cases t with
        | node a cs => exact mem_walk_node.mpr ⟨hsound, .inr ⟨c, hc, ih⟩⟩

end Tree

namespace SourceTree

/-- Some token below the root is code, be it in a malformed part or not. The root alone is the tree
of a blank text. -/
def HoldsCode (ast : SourceTree) : Prop :=
  ast.root.children ≠ [] ∧ ∃ u ∈ ast.root.subtrees, u.isCodeToken = true

/-- Some token below the root is code that is read. -/
def ReadsCode (ast : SourceTree) : Prop :=
  ast.root.children ≠ [] ∧ ∃ u, Reads ast.root u ∧ u.isCodeToken = true

instance (ast : SourceTree) : Decidable ast.HoldsCode :=
  inferInstanceAs (Decidable (_ ∧ _))

theorem ReadsCode.holdsCode (h : ast.ReadsCode) : ast.HoldsCode := by
  obtain ⟨hroot, u, hu, hcode⟩ := h
  exact ⟨hroot, u, mem_subtrees_of_mem_reach (mem_walk_iff.mpr hu), hcode⟩

theorem hasCode_iff : ast.hasCode = true ↔ ast.ReadsCode := by
  have htokens : ast.root.tokens ≠ [] ↔ ∃ u ∈ ast.root.walk, u.isCodeToken = true := by
    unfold tokens
    rw [ne_eq, List.filter_eq_nil_iff]
    simp [isCodeToken]
  unfold hasCode ReadsCode
  rw [Bool.and_eq_true, Bool.not_eq_true', Bool.not_eq_true', List.isEmpty_eq_false_iff,
    List.isEmpty_eq_false_iff, htokens]
  simp only [mem_walk_iff]

end SourceTree

namespace Verification

/-- Texts that were read and not refused are compared. -/
theorem Outcome.head?_layers {trees : Trees} {changes : List LineChange}
    {layers : List ValidationLayer}
    (h : Outcome grammar options checks request changes layers)
    (htrees : checkSyntax grammar (start options request) = .ok trees) :
    layers.head? = some ⟨"syntax", .pass, "refactored code parses cleanly"⟩ := by
  cases h with
  | refused hrefused => exact nomatch htrees.symm.trans hrefused
  | unaligned => rfl
  | scored => rfl

theorem Outcome.of_refused {detail : String} {changes : List LineChange}
    {layers : List ValidationLayer}
    (h : Outcome grammar options checks request changes layers)
    (htrees : checkSyntax grammar (start options request) = .error detail) :
    changes = [] ∧ layers = [⟨"syntax", .fail, detail⟩] := by
  cases h with
  | refused hrefused =>
      obtain rfl := Except.error.inj (htrees.symm.trans hrefused)
      exact ⟨rfl, rfl⟩
  | unaligned hread => exact nomatch htrees.symm.trans hread
  | scored hread => exact nomatch htrees.symm.trans hread

end Verification

/-- A candidate without code is refused as empty exactly where the old code has code that is read,
and then it gets no trust. -/
theorem verify_without_code (grammar : Grammar) (options : Options) (checks : List RiskCheck)
    (request : VerificationRequest) {old new : SourceTree}
    (hold : parse grammar options.maxAstNodes request.oldCode (some request.language)
      request.filePath = .ok old)
    (hnew : parseStrict grammar options.maxAstNodes (Fence.strip request.newCode)
      (some request.language) request.filePath = .ok new)
    (hnone : ¬ new.HoldsCode) :
    ∃ s, verify grammar options checks request = .ok s ∧
      (s.layers = [⟨"syntax", .fail, "refactored code is empty"⟩] ↔ old.ReadsCode) ∧
      (old.ReadsCode → s.badge = .failed ∧ s.confidence = 0 ∧ s.changes = []) := by
  have hempty : new.hasCode = false := by
    rw [← Bool.not_eq_true, SourceTree.hasCode_iff]
    exact fun h => hnone h.holdsCode
  have hsyntax := Verification.checkSyntax_eq hold hnew
  rw [hempty] at hsyntax
  obtain ⟨v, -, -, hverify, houtcome, hgraded, -⟩ := verify_outcome grammar options checks request
  refine ⟨v.suggestion, hverify, ⟨fun hlayers => ?_, fun hcode => ?_⟩, fun hcode => ?_⟩
  · rw [← SourceTree.hasCode_iff]
    by_contra hread
    have hread : old.hasCode = false := by simpa using hread
    rw [hread] at hsyntax
    have hhead := houtcome.head?_layers hsyntax
    rw [hlayers] at hhead
    exact nomatch hhead
  · rw [SourceTree.hasCode_iff.mpr hcode] at hsyntax
    exact (houtcome.of_refused hsyntax).2
  · rw [SourceTree.hasCode_iff.mpr hcode] at hsyntax
    obtain ⟨hchanges, hlayers⟩ := houtcome.of_refused hsyntax
    have hbadge : v.suggestion.badge = .failed := by
      rw [hgraded.failed_iff, hlayers]
      exact ⟨_, List.mem_singleton_self _, rfl⟩
    refine ⟨hbadge, ?_, hchanges⟩
    rw [hgraded.confidence_eq, hbadge]
    cases request.confidence <;> simp [Badge.confidence]

/-- The tree of `x = = 2`: only the second mark is malformed. -/
def doubledTree : GrammarTree where
  root := grammarNode "module" none 0 8 [grammarNode "expression_statement" none 0 7
    [grammarNode "assignment" none 0 7
      [grammarNode "identifier" (some "left") 0 1 [], grammarToken "=" 2 3,
        grammarNode "ERROR" none 4 5 [grammarToken "=" 4 5],
        grammarNode "integer" (some "right") 6 7 []]]]
  hasError := true

/-- The tree of `x = (`: all of it is malformed. -/
def openTree : GrammarTree where
  root := grammarNode "module" none 0 6 [grammarNode "ERROR" none 0 5
    [grammarNode "identifier" none 0 1 [], grammarToken "=" 2 3, grammarToken "(" 4 5]]
  hasError := true

/-- The tree of `# gone`. -/
def goneTree : GrammarTree where
  root := grammarNode "module" none 0 7 [grammarNode "comment" none 0 6 []]
  hasError := false

/-- Reads `# gone`, and any other text as the given tree. -/
def goneGrammar (tree : GrammarTree) : Grammar :=
  fun _ text => .ok (if text == "# gone\n" then goneTree else tree)

/-- A request to replace a text by `# gone`. -/
def goneRequest (text : String) : VerificationRequest :=
  { oldCode := text, newCode := "# gone\n", language := "python", filePath := "a.py"
    issueId := none, issueType := none, explanation := "", confidence := none }

/-- The tree of a text of Python code. -/
def pythonTree (text : String) (tree : GrammarTree) : SourceTree :=
  .ofGrammar defaultNodeBudget text "a.py" .python tree

theorem doubled_without_code_failed :
    (pythonTree "x = = 2\n" doubledTree).ReadsCode ∧
      ¬ (pythonTree "# gone\n" goneTree).HoldsCode ∧
      ∃ s, verify (goneGrammar doubledTree) {} RiskCheck.standard (goneRequest "x = = 2\n") =
        .ok s ∧ s.badge = .failed := by
  have hreads : (pythonTree "x = = 2\n" doubledTree).ReadsCode :=
    SourceTree.hasCode_iff.mp (by decide +kernel)
  have hnone : ¬ (pythonTree "# gone\n" goneTree).HoldsCode := by decide +kernel
  obtain ⟨s, hs, -, hfailed⟩ := verify_without_code (goneGrammar doubledTree) {}
    RiskCheck.standard (goneRequest "x = = 2\n") rfl rfl hnone
  exact ⟨hreads, hnone, s, hs, (hfailed hreads).1⟩

/-- Malformed code can be deleted with full trust. -/
theorem open_without_code_verified :
    (pythonTree "x = (\n" openTree).HoldsCode ∧ ¬ (pythonTree "# gone\n" goneTree).HoldsCode ∧
      (parse (goneGrammar openTree) defaultNodeBudget "x = (\n" (some "python") "a.py" =
          .ok (pythonTree "x = (\n" openTree)) ∧
      (parseStrict (goneGrammar openTree) defaultNodeBudget "# gone\n" (some "python") "a.py" =
          .ok (pythonTree "# gone\n" goneTree)) ∧
      ∃ s, verify (goneGrammar openTree) {} RiskCheck.standard (goneRequest "x = (\n") = .ok s ∧
        s.badge = .verified ∧ s.confidence = 95 := by
  have hverified : ((verify (goneGrammar openTree) {} RiskCheck.standard
      (goneRequest "x = (\n")).toOption.map fun s => (s.badge, s.confidence)) =
        some (.verified, 95) := by decide +kernel
  obtain ⟨s, hs, hsuggestion⟩ := Option.map_eq_some_iff.mp hverified
  obtain ⟨hbadge, hconfidence⟩ := Prod.mk.inj hsuggestion
  exact ⟨by decide +kernel, by decide +kernel, rfl, rfl, s, toOption_eq_some_iff.mp hs, hbadge,
    hconfidence⟩

end CodeHealth
