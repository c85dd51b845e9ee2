import CodeHealth.Proofs.Detector.Finding
import CodeHealth.Proofs.Number.Rounding
import Mathlib.Algebra.BigOperators.Ring.Finset
import Mathlib.Algebra.Order.BigOperators.Group.List

/-!
# Statements that cannot be reached

In each block the statements after the first terminator cannot be reached, and one issue reports
them. What stands in a block as a statement may be malformed, or a comment of another kind, and is
reported and counted all the same. Without such nodes the issues are those of the proper statements,
and only then.
-/

namespace CodeHealth.DeadCode

open CodeHealth.Tree

variable {root : Tree SyntaxNode} {ast : SourceTree} {ss : List (Tree SyntaxNode)}
  {listed : Tree SyntaxNode → List (Tree SyntaxNode)} {issues : List Issue}

/-! ## Unreachable statements -/

/-- A well-formed node that is no comment of any kind. -/
def isProper (s : Tree SyntaxNode) : Bool :=
  !s.label.isError && !commentKinds.contains s.kind

/-- The statements of a block that are well-formed. -/
def properStatements (block : Tree SyntaxNode) : List (Tree SyntaxNode) :=
  block.namedChildren.filter isProper

/-- A block goes on after the statement. -/
def goesOn (s : Tree SyntaxNode) : Bool :=
  !terminatorKinds.contains s.kind

/-- The first terminator of some statements and those after it. -/
def fromTerminator (ss : List (Tree SyntaxNode)) : List (Tree SyntaxNode) :=
  ss.dropWhile goesOn

/-- The statements after the first terminator. -/
def afterTerminator (ss : List (Tree SyntaxNode)) : List (Tree SyntaxNode) :=
  (fromTerminator ss).tail

/-- The blocks that a walk reaches. -/
def blocks (root : Tree SyntaxNode) : List (Tree SyntaxNode) :=
  root.walk.filter fun t => blockKinds.contains t.kind

/-- The statements that cannot be reached, block by block, where a block has some. -/
def unreachableRests (listed : Tree SyntaxNode → List (Tree SyntaxNode)) (root : Tree SyntaxNode) :
    List (List (Tree SyntaxNode)) :=
  ((blocks root).map fun block => afterTerminator (listed block)).filter fun rest => !rest.isEmpty

/-- The issue reports some statements: it has their number, and goes from the first to the last of
them. As of every issue its range does not end before it starts. -/
structure ReportsRest (rest : List (Tree SyntaxNode)) (issue : Issue) : Prop where
  lineStart : rest.head?.map (·.label.startLine) = some issue.lineStart
  lineEnd : rest.getLast?.map (fun s => max issue.lineStart s.label.endLine) = some issue.lineEnd
  metadata : issue.metadata =
    .complexity "unreachable statements" (Number.nearest rest.length) 0 []

/-- The issues report the unreachable statements of one block each, and of every block that has
some. -/
def ReportsRests (listed : Tree SyntaxNode → List (Tree SyntaxNode)) (root : Tree SyntaxNode)
    (issues : List Issue) : Prop :=
  ∃ rests, rests.Perm (unreachableRests listed root) ∧ List.Forall₂ ReportsRest rests issues

/-- The issue is about unreachable statements, and not about a local variable. -/
def isUnreachableReport (issue : Issue) : Bool :=
  match issue.metadata with
  | .complexity metric _ _ _ => metric == "unreachable statements"
  | _ => false

/-- In each block that goes on after its first terminator, this one and all that is taken for a
statement after it is proper. -/
def LeavesProperly (root : Tree SyntaxNode) : Prop :=
  ∀ block ∈ blocks root, afterTerminator (statements block) ≠ [] →
    ∀ s ∈ fromTerminator (statements block), isProper s = true

/-! ## What is reported -/

theorem unreachable?_eq (ss : List (Tree SyntaxNode)) :
    unreachable? ss =
      match fromTerminator ss with
      | t :: first :: others => some ⟨t, first, others⟩
      | _ => none := by
  unfold fromTerminator
  fun_induction unreachable? ss with
  | case1 s next rest hterminator =>
      rw [List.dropWhile_cons_of_neg (by simpa [goesOn] using hterminator)]
  | case2 s next rest hgoes ih =>
      rw [List.dropWhile_cons_of_pos (by simpa [goesOn] using hgoes)]
      exact ih
  | case3 ss hshort =>
      -- at most one statement is left, which no other follows
      rcases ss with _ | ⟨s, _ | ⟨next, rest⟩⟩
      · rfl
      · rw [List.dropWhile_cons]
        cases goesOn s <;> rfl
      · exact absurd rfl (hshort s next rest)

/-- The blocks with unreachable statements are those whose statements are reported. -/
theorem unreachableRests_statements (root : Tree SyntaxNode) :
    unreachableRests statements root =
      ((blocks root).filterMap fun block => unreachable? (statements block)).map
        fun u => u.first :: u.others := by
  unfold unreachableRests
  induction blocks root with
  | nil => rfl
  | cons block rest ih =>
      rw [List.map_cons, List.filter_cons, List.filterMap_cons, ih, unreachable?_eq,
        afterTerminator]
      rcases fromTerminator (statements block) with _ | ⟨t, _ | ⟨first, others⟩⟩ <;> rfl

theorem reportsRest_issue (ast : SourceTree) (u : Unreachable) :
    ReportsRest (u.first :: u.others) ((unreachableFinding u).issue ast) where
  lineStart := rfl
  lineEnd := by
    rw [List.getLast?_cons]
    rfl
  metadata := rfl

/-- The issues on unreachable statements among all that are found. -/
theorem filter_isUnreachableReport (ast : SourceTree) :
    ((findings ast).map (Finding.issue · ast)).filter isUnreachableReport =
      (unreachableFindings ast.root).map (Finding.issue · ast) := by
  rw [findings, List.map_append, List.filter_append]
  have hunreachable : ∀ i ∈ (unreachableFindings ast.root).map (Finding.issue · ast),
      isUnreachableReport i = true := by
    intro i hi
    obtain ⟨found, hfound, rfl⟩ := List.mem_map.mp hi
    obtain ⟨u, -, rfl⟩ := List.mem_map.mp hfound
    rfl
  have hlocals : ∀ i ∈ (ast.functions.flatMap fun f =>
      (unusedLocals f).map (unusedFinding ast f)).map (Finding.issue · ast),
      ¬ isUnreachableReport i = true := by
    intro i hi
    obtain ⟨found, hfound, rfl⟩ := List.mem_map.mp hi
    obtain ⟨f, -, hfound⟩ := List.mem_flatMap.mp hfound
    obtain ⟨l, -, rfl⟩ := List.mem_map.mp hfound
    exact Bool.not_eq_true _ ▸ rfl
  rw [List.filter_eq_self.mpr hunreachable, List.filter_eq_nil_iff.mpr hlocals, List.append_nil]

theorem reportsRests_statements (ast : SourceTree) :
    ReportsRests statements ast.root
      ((unreachableFindings ast.root).map (Finding.issue · ast)) := by
  refine ⟨_, List.Perm.refl _, ?_⟩
  rw [unreachableRests_statements, unreachableFindings, List.map_map, List.forall₂_map_left_iff,
    List.forall₂_map_right_iff, ← blocks, List.forall₂_same]
  exact fun u _ => reportsRest_issue ast u

/-! ## Proper statements -/

theorem properStatements_eq (block : Tree SyntaxNode) :
    properStatements block = (statements block).filter isProper := by
  rw [properStatements, statements, List.filter_filter]
  refine List.filter_congr fun s _ => ?_
  by_cases hcomment : s.kind = "comment"
  · have hkind : "comment" ∈ commentKinds := by decide
    simp [isProper, hcomment, hkind]
  · simp [hcomment]

theorem fromTerminator_filter_sublist (p : Tree SyntaxNode → Bool) (ss : List (Tree SyntaxNode)) :
    (fromTerminator (ss.filter p)).Sublist (fromTerminator ss) := by
  induction ss with
  | nil => exact List.Sublist.refl _
  | cons s rest ih =>
      unfold fromTerminator at ih ⊢
      cases hgoes : goesOn s with
      | true =>
          rw [List.dropWhile_cons_of_pos hgoes, List.filter_cons]
          split
          · rw [List.dropWhile_cons_of_pos hgoes]
            exact ih
          · exact ih
      | false =>
          rw [List.dropWhile_cons_of_neg (hgoes ▸ Bool.false_ne_true)]
          exact (List.dropWhile_sublist _).trans List.filter_sublist

theorem length_afterTerminator_filter_le (p : Tree SyntaxNode → Bool)
    (ss : List (Tree SyntaxNode)) :
    (afterTerminator (ss.filter p)).length ≤ (afterTerminator ss).length :=
  (fromTerminator_filter_sublist p ss).tail.length_le

/-- If as many statements follow the first terminator among the proper ones as among all, then all
of them are proper, and so is the terminator. -/
theorem forall_of_length_afterTerminator_filter {p : Tree SyntaxNode → Bool}
    (h : (afterTerminator (ss.filter p)).length = (afterTerminator ss).length)
    (hne : afterTerminator ss ≠ []) : ∀ s ∈ fromTerminator ss, p s = true := by
  have hpos := List.length_pos_iff.mpr hne
  unfold afterTerminator at h hpos
  rw [List.length_tail, List.length_tail] at h
  rw [List.length_tail] at hpos
  have heq : fromTerminator (ss.filter p) = fromTerminator ss :=
    (fromTerminator_filter_sublist p ss).eq_of_length (by omega)
  intro s hs
  rw [← heq] at hs
  exact (List.mem_filter.mp ((List.dropWhile_sublist _).subset hs)).2

theorem fromTerminator_filter {p : Tree SyntaxNode → Bool}
    (h : ∀ s ∈ fromTerminator ss, p s = true) :
    fromTerminator (ss.filter p) = fromTerminator ss := by
  induction ss with
  | nil => rfl
  | cons s rest ih =>
      unfold fromTerminator at h ih ⊢
      cases hgoes : goesOn s with
      | true =>
          rw [List.dropWhile_cons_of_pos hgoes] at h ⊢
          rw [List.filter_cons]
          split
          · rw [List.dropWhile_cons_of_pos hgoes]
            exact ih h
          · exact ih h
      | false =>
          rw [List.dropWhile_cons_of_neg (hgoes ▸ Bool.false_ne_true)] at h
          rw [List.filter_eq_self.mpr h]

/-- What follows the first terminator stays if that and all that follows is proper. -/
theorem afterTerminator_filter {p : Tree SyntaxNode → Bool}
    (h : afterTerminator ss ≠ [] → ∀ s ∈ fromTerminator ss, p s = true) :
    afterTerminator (ss.filter p) = afterTerminator ss := by
  by_cases hne : afterTerminator ss = []
  · have hle := length_afterTerminator_filter_le p ss
    rw [hne] at hle ⊢
    exact List.eq_nil_of_length_eq_zero (Nat.le_zero.mp hle)
  · rw [afterTerminator, fromTerminator_filter (h hne), afterTerminator]

/-! ## Numbers of statements -/

/-- The number that an issue reports. -/
def reported (issue : Issue) : Rat :=
  match issue.metadata with
  | .complexity _ value _ _ => value
  | _ => 0

theorem sum_length_unreachableRests (listed : Tree SyntaxNode → List (Tree SyntaxNode))
    (root : Tree SyntaxNode) : ((unreachableRests listed root).map List.length).sum =
      ((blocks root).map fun block => (afterTerminator (listed block)).length).sum := by
  rw [unreachableRests, ← List.length_flatten, List.flatten_filter_not_isEmpty,
    List.length_flatten, List.map_map]
  rfl

/-- The issues report together how many statements cannot be reached, as long as the numbers are
exact. -/
theorem sum_reported (hsmall : ∀ rest ∈ unreachableRests listed root, rest.length < 2 ^ 53)
    (h : ReportsRests listed root issues) :
    (issues.map reported).sum =
      (((blocks root).map fun block => (afterTerminator (listed block)).length).sum : Nat) := by
  obtain ⟨rests, hperm, hreports⟩ := h
  have hreported : issues.map reported = rests.map fun rest => (rest.length : Rat) := by
    have hsmall : ∀ rest ∈ rests, rest.length < 2 ^ 53 :=
      fun rest hrest => hsmall rest (hperm.subset hrest)
    clear hperm
    induction hreports with
    | nil => rfl
    | cons hreport _ ih =>
        rw [List.forall_mem_cons] at hsmall
        rw [List.map_cons, List.map_cons, ih hsmall.2, reported, hreport.metadata]
        exact congrArg (· :: _) (Number.nearest_natCast hsmall.1)
  rw [hreported, (hperm.map _).sum_eq, ← sum_length_unreachableRests, Nat.cast_list_sum,
    List.map_map]
  rfl

/-- In no block there are more unreachable statements than children. -/
theorem length_lt_of_mem_unreachableRests {bound : Nat}
    (hlisted : ∀ block, (listed block).Sublist block.children)
    (hsmall : ∀ u ∈ root.subtrees, u.children.length < bound) {rest : List (Tree SyntaxNode)}
    (hrest : rest ∈ unreachableRests listed root) : rest.length < bound := by
  obtain ⟨block, hblock, rfl⟩ := List.mem_map.mp (List.mem_of_mem_filter hrest)
  have hsub : (afterTerminator (listed block)).Sublist block.children :=
    ((List.tail_sublist _).trans (List.dropWhile_sublist _)).trans (hlisted block)
  exact hsub.length_le.trans_lt
    (hsmall block (mem_subtrees_of_mem_reach (List.mem_of_mem_filter hblock)))

/-- If the issues report the proper statements too, then nothing else is unreachable. -/
theorem leavesProperly_of_reportsRests
    (hsmall : ∀ u ∈ root.subtrees, u.children.length < 2 ^ 53)
    (hall : ReportsRests statements root issues)
    (hproper : ReportsRests properStatements root issues) : LeavesProperly root := by
  have hsum := sum_reported (fun rest => length_lt_of_mem_unreachableRests
    (fun block => List.filter_sublist.trans List.filter_sublist) hsmall) hall
  rw [sum_reported (fun rest => length_lt_of_mem_unreachableRests
    (fun block => List.filter_sublist.trans List.filter_sublist) hsmall) hproper,
    Nat.cast_inj] at hsum
  intro block hblock hne
  apply forall_of_length_afterTerminator_filter ?_ hne
  rw [← properStatements_eq]
  have hle : ∀ b ∈ blocks root,
      (afterTerminator (properStatements b)).length ≤ (afterTerminator (statements b)).length := by
    intro b _
    rw [properStatements_eq]
    exact length_afterTerminator_filter_le isProper (statements b)
  by_contra hlength
  have hlt := List.sum_lt_sum _ _ hle ⟨block, hblock, (hle block hblock).lt_of_ne hlength⟩
  exact absurd hsum hlt.ne

theorem reportsRests_properStatements (hproper : LeavesProperly root)
    (h : ReportsRests statements root issues) : ReportsRests properStatements root issues := by
  have hrests : unreachableRests properStatements root = unreachableRests statements root := by
    unfold unreachableRests
    refine congrArg (List.filter _) (List.map_congr_left fun block hblock => ?_)
    rw [properStatements_eq]
    exact afterTerminator_filter (hproper block hblock)
  unfold ReportsRests at h ⊢
  rwa [hrests]

/-- The issues on unreachable statements are those of the blocks that a walk reaches, where all
counts as a statement that has a name and is not of the one kind `comment`. They are those of the
proper statements exactly if nothing else stands in such a place, up to numbers that are exact. -/
theorem detect_reportsRests (ast : SourceTree) (context : FileContext) :
    ∃ issues, detector.detect ast context = .ok issues ∧
      ReportsRests statements ast.root (issues.filter isUnreachableReport) ∧
      (LeavesProperly ast.root →
        ReportsRests properStatements ast.root (issues.filter isUnreachableReport)) ∧
      ((∀ u ∈ ast.root.subtrees, u.children.length < 2 ^ 53) →
        ReportsRests properStatements ast.root (issues.filter isUnreachableReport) →
          LeavesProperly ast.root) := by
  refine ⟨_, rfl, ?_⟩
  rw [filter_isUnreachableReport]
  have hall := reportsRests_statements ast
  exact ⟨hall, fun hproper => reportsRests_properStatements hproper hall,
    fun hsmall => leavesProperly_of_reportsRests hsmall hall⟩

/-- An arrow function whose block has one node after its return statement. -/
def arrowReturning (text : String) (last : Tree GrammarNode) : SourceTree :=
  .ofGrammar defaultNodeBudget text "a.js" .javascript
    { root := grammarNode "program" none 0 13
        [grammarNode "expression_statement" none 0 13
          [grammarNode "arrow_function" none 0 13
            [grammarNode "identifier" (some "parameter") 0 1 [],
              grammarToken "=>" 1 3,
              grammarNode "statement_block" (some "body") 3 13
                [grammarToken "\x7b" 3 4,
                  grammarNode "return_statement" none 4 11
                    [grammarToken "return" 4 10, grammarToken ";" 10 11],
                  last,
                  grammarToken "\x7d" 12 13]]]]
      hasError := last.label.kind == "ERROR" }

/-- A statement after the return statement. -/
def returnThenName : SourceTree :=
  arrowReturning "x=>\x7breturn;x\x7d"
    (grammarNode "expression_statement" none 11 12 [grammarNode "identifier" none 11 12 []])

/-- A stray bracket after the return statement. -/
def returnThenBracket : SourceTree :=
  arrowReturning "x=>\x7breturn;)\x7d" (grammarNode "ERROR" none 11 12 [grammarToken ")" 11 12])

theorem returnThenName_reported :
    ∃ issues, detector.detect returnThenName ⟨"p", "a.js", .javascript, {}⟩ = .ok issues ∧
      (issues.filter isUnreachableReport).length = 1 ∧
      LeavesProperly returnThenName.root ∧
      ReportsRests properStatements returnThenName.root (issues.filter isUnreachableReport) := by
  have hsmall : ∀ u ∈ returnThenName.root.subtrees, u.children.length < 2 ^ 53 := by decide +kernel
  have hleaves : LeavesProperly returnThenName.root := by
    unfold LeavesProperly
    decide +kernel
  obtain ⟨issues, hissues, -, hproper, hconverse⟩ :=
    detect_reportsRests returnThenName ⟨"p", "a.js", .javascript, {}⟩
  have hreports := hproper hleaves
  refine ⟨issues, hissues, ?_, hconverse hsmall hreports, hreports⟩
  obtain ⟨rests, hperm, hall⟩ := hreports
  rw [← hall.length_eq, hperm.length_eq]
  decide +kernel

/-- The bracket is reported, although it is malformed and nothing else follows. -/
theorem returnThenBracket_reported :
    unreachableRests properStatements returnThenBracket.root = [] ∧
      ∃ issues, detector.detect returnThenBracket ⟨"p", "a.js", .javascript, {}⟩ = .ok issues ∧
        (issues.filter isUnreachableReport).length = 1 ∧
        ¬ ReportsRests properStatements returnThenBracket.root
          (issues.filter isUnreachableReport) := by
  have hnone : unreachableRests properStatements returnThenBracket.root = [] := by decide +kernel
  have hone : (unreachableFindings returnThenBracket.root).length = 1 := by decide +kernel
  refine ⟨hnone, _, rfl, ?_, ?_⟩
  · rw [filter_isUnreachableReport, List.length_map, hone]
  · rintro ⟨rests, hperm, hreports⟩
    have hlength := hreports.length_eq
    rw [hperm.length_eq, hnone, filter_isUnreachableReport, List.length_map, hone] at hlength
    exact absurd hlength (by decide)

end CodeHealth.DeadCode
