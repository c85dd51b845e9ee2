import CodeHealth.Proofs.Sorting
import CodeHealth.Proofs.Tree.Subtree
import CodeHealth.Refactor.Change
import Mathlib.Data.List.Perm.Subperm
import Mathlib.Data.List.Sort

/-!
# Line units

The tokens of a tree are its leaves that cover some bytes and have a text. Each line on which a
token starts has one unit, and the units stand in the order of their lines.
-/

namespace CodeHealth

open CodeHealth.Tree

/-! ## Tokens -/

/-- The text of a leaf as a token. A leaf that covers no bytes or has no text is none. -/
def SyntaxNode.token? (n : SyntaxNode) : Option String :=
  if n.isEmpty then none else n.text.filter fun s => s != ""

theorem collect_tokenStep_leaf (depth : Nat) (n : SyntaxNode) :
    (Tree.node n []).collect tokenStep depth =
      (n.token?.map fun text => ⟨n.startLine, depth, text⟩).toList := by
  have hstep : tokenStep depth (.node n []) =
      ((n.token?.map fun text => (⟨n.startLine, depth, text⟩ : PlacedToken)).toList, none) := by
    unfold tokenStep SyntaxNode.token?
    cases htext : n.text with
    | none => simp [children, label, htext]
    | some text =>
        by_cases hempty : n.isEmpty = true
        · simp [children, label, htext, hempty]
        · by_cases hblank : text = "" <;>
            simp [children, label, htext, hempty, hblank, Option.filter]
  rw [collect, hstep, List.append_nil]

theorem collect_tokenStep_inner (depth : Nat) (n : SyntaxNode) {cs : List (Tree SyntaxNode)}
    (hcs : cs ≠ []) :
    (Tree.node n cs).collect tokenStep depth = cs.flatMap (collect tokenStep
      (if scopeKinds.contains n.kind then depth + 1 else depth)) := by
  have hstep : tokenStep depth (.node n cs) =
      ([], some (if scopeKinds.contains n.kind then depth + 1 else depth)) := by
    unfold tokenStep
    simp [children, hcs, kind, label]
  rw [collect, hstep, List.nil_append]
  exact collectAll_eq_flatMap tokenStep _ cs

theorem exists_mem_collect_tokenStep_iff {root : Tree SyntaxNode} {depth line : Nat}
    {text : String} :
    (∃ t ∈ root.collect tokenStep depth, t.line = line ∧ t.text = text) ↔
      ∃ u ∈ root.subtrees, u.children = [] ∧ u.label.token? = some text ∧
        u.label.startLine = line := by
  induction root generalizing depth with
  | node n cs ih =>
      by_cases hcs : cs = []
      · subst hcs
        have hsub : ∀ u, u ∈ (Tree.node n []).subtrees ↔ u = Tree.node n [] := by
          intro u
          simp [mem_subtrees_node]
        rw [collect_tokenStep_leaf]
        simp only [hsub, exists_eq_left, Option.mem_toList, Option.map_eq_some_iff, label,
          children, true_and]
        constructor
        · rintro ⟨t, ⟨text', htoken, rfl⟩, hline, rfl⟩
          exact ⟨htoken, hline⟩
        · rintro ⟨htoken, hline⟩
          exact ⟨_, ⟨text, htoken, rfl⟩, hline, rfl⟩
      · rw [collect_tokenStep_inner depth n hcs]
        constructor
        · rintro ⟨t, ht, hplace⟩
          obtain ⟨c, hc, ht⟩ := List.mem_flatMap.mp ht
          obtain ⟨u, hu, hleaf⟩ := (ih c hc).mp ⟨t, ht, hplace⟩
          exact ⟨u, mem_subtrees_node.mpr (Or.inr ⟨c, hc, hu⟩), hleaf⟩
        · rintro ⟨u, hu, hleaf, hplace⟩
          rcases mem_subtrees_node.mp hu with rfl | ⟨c, hc, hu⟩
          · exact absurd hleaf hcs
          · obtain ⟨t, ht, hplace⟩ := (ih c hc).mpr ⟨u, hu, hleaf, hplace⟩
            exact ⟨t, List.mem_flatMap.mpr ⟨c, hc, ht⟩, hplace⟩

/-! ## Lines -/

/-- The lines on which tokens start, in order. -/
def unitLines (tokens : List PlacedToken) : List Nat :=
  ((tokens.map PlacedToken.line).eraseDups).mergeSort

theorem mem_unitLines {tokens : List PlacedToken} {line : Nat} :
    line ∈ unitLines tokens ↔ ∃ t ∈ tokens, t.line = line := by
  simp [unitLines, List.mem_mergeSort, List.mem_eraseDups]

theorem pairwise_unitLines (tokens : List PlacedToken) :
    (unitLines tokens).Pairwise (· < ·) :=
  pairwise_lt_mergeSort_eraseDups _

/-- Tokens that start on lines of their own are already in order. -/
theorem unitLines_eq_map {tokens : List PlacedToken}
    (h : (tokens.map PlacedToken.line).Pairwise (· < ·)) :
    unitLines tokens = tokens.map PlacedToken.line := by
  apply (pairwise_unitLines tokens).eq_of_mem_iff h
  intro line
  rw [mem_unitLines, List.mem_map]

theorem filter_line_eq {tokens : List PlacedToken}
    (h : (tokens.map PlacedToken.line).Pairwise (· < ·)) {t : PlacedToken} (ht : t ∈ tokens) :
    tokens.filter (fun t' => t'.line == t.line) = [t] := by
  induction tokens with
  | nil => exact absurd ht List.not_mem_nil
  | cons a tokens ih =>
      rw [List.map_cons, List.pairwise_cons] at h
      rcases List.mem_cons.mp ht with rfl | ht
      · have hlater : tokens.filter (fun t' => t'.line == t.line) = [] := by
          rw [List.filter_eq_nil_iff]
          intro u hu
          have hlt := h.1 u.line (List.mem_map_of_mem hu)
          simp only [beq_iff_eq]
          omega
        rw [List.filter_cons_of_pos (by simp), hlater]
      · have hlt := h.1 t.line (List.mem_map_of_mem ht)
        rw [List.filter_cons_of_neg (by simp only [beq_iff_eq]; omega)]
        exact ih h.2 ht

theorem lineUnits_eq_map {root : Tree SyntaxNode}
    (h : ((placedTokens root).map PlacedToken.line).Pairwise (· < ·)) :
    lineUnits root = (placedTokens root).map fun t => ⟨t.line, t.depth, [t.text]⟩ := by
  have hunits : lineUnits root =
      (unitLines (placedTokens root)).map (unitOf (placedTokens root)) := rfl
  rw [hunits, unitLines_eq_map h, List.map_map]
  apply List.map_congr_left
  intro t ht
  simp only [Function.comp_apply, unitOf, filter_line_eq h ht]
  rfl

theorem length_lineUnits_le (root : Tree SyntaxNode) :
    (lineUnits root).length ≤ (placedTokens root).length := by
  have hsub : unitLines (placedTokens root) ⊆ (placedTokens root).map PlacedToken.line := by
    intro line hline
    exact List.mem_map.mpr (mem_unitLines.mp hline)
  have hnodup := (pairwise_unitLines (placedTokens root)).imp Nat.ne_of_lt
  have hle := (List.Nodup.subperm hnodup hsub).length_le
  rw [List.length_map] at hle
  exact Nat.le_trans (Nat.le_of_eq (List.length_map _)) hle

theorem length_lineUnits_add_le {old new : Tree SyntaxNode} {budget : Int}
    (h : ((placedTokens old).length + (placedTokens new).length : Nat) ≤ budget) :
    ((lineUnits old).length + (lineUnits new).length : Nat) ≤ budget := by
  have hold := length_lineUnits_le old
  have hnew := length_lineUnits_le new
  omega

theorem map_line_lineUnits (root : Tree SyntaxNode) :
    (lineUnits root).map LineUnit.line = unitLines (placedTokens root) :=
  List.map_map.trans (List.map_id _)

theorem pairwise_line_lineUnits (root : Tree SyntaxNode) :
    ((lineUnits root).map LineUnit.line).Pairwise (· < ·) := by
  rw [map_line_lineUnits]
  exact pairwise_unitLines _

/-- What a unit is compared by. -/
def LineUnit.key (u : LineUnit) : Nat × List String :=
  (u.depth, u.tokens)

theorem LineUnit.same_iff {a b : LineUnit} : a.same b = true ↔ a.key = b.key := by
  simp [LineUnit.same, LineUnit.key]

end CodeHealth
