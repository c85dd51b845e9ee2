import CodeHealth.Code.Metric
import CodeHealth.Proofs.Tree.Place
import Mathlib.Algebra.GroupWithZero.Nat

/-!
# Nesting and the cost of reading

Both measures of a function are told by its nodes alone: how deep control structures are nested is
the most of them on one way down into it, and what it costs to read is a sum over its nodes, each
charged by its kind, its parent and the nodes above it.
-/

namespace CodeHealth.Tree

variable {t u : Tree SyntaxNode} {parent : Option (Tree SyntaxNode)} {path : List Nat}

/-! ## Levels of nesting -/

/-- A node that is passed on the way down into a function: it is well-formed, and below the function
where the way begins it is no function. -/
def isPassed (t : Tree SyntaxNode) (parent : Option (Tree SyntaxNode)) : Bool :=
  !t.label.isError && !(parent.isSome && t.label.isFunction)

/-- All nodes on the way down to a place are passed. -/
def isOpenWay (t : Tree SyntaxNode) (path : List Nat) : Bool :=
  path.inits.all (t.holdsAt isPassed)

/-- The number of control structures on the way down to a place. -/
def levelsAt (t : Tree SyntaxNode) (path : List Nat) : Nat :=
  path.inits.countP (t.holdsAt opensNesting)

/-- The most control structures on one open way. -/
def deepestLevel (t : Tree SyntaxNode) : Nat :=
  ((t.places.filter t.isOpenWay).map t.levelsAt).foldl max 0

/-! ## The cost of reading -/

/-- A node that is read with the function around it: it is no other function, unless a small one. -/
def isRead (t : Tree SyntaxNode) : Bool :=
  t.label.named && !t.label.isError && !(t.label.isFunction && !nestedScopeKinds.contains t.kind)

/-- A node that costs one and the nesting around it. -/
def isNestingCharged (t : Tree SyntaxNode) (parent : Option (Tree SyntaxNode)) : Bool :=
  cognitiveNestedKinds.contains t.kind && !t.isElseIf parent

/-- A node that costs one at any nesting. -/
def isFlatCharged (t : Tree SyntaxNode) (parent : Option (Tree SyntaxNode)) : Bool :=
  t.isElseIf parent || t.kind == "elif_clause" || t.isPlainElse parent || t.isLogicalOperator

/-- A node that raises the nesting below it: one that is charged by it, or a small function that is
not charged at all. -/
def raisesNesting (t : Tree SyntaxNode) (parent : Option (Tree SyntaxNode)) : Bool :=
  t.isNestingCharged parent || (nestedScopeKinds.contains t.kind && !t.isFlatCharged parent)

/-- The nodes between a function and a place in it that raise the nesting. -/
def nestingAt (t : Tree SyntaxNode) (path : List Nat) : Nat :=
  path.inits.dropLast.tail.countP (t.holdsAt raisesNesting)

/-- The places below a function to which all nodes on the way are read with it. -/
def readPlaces (t : Tree SyntaxNode) : List (List Nat) :=
  t.places.filter fun path => !path.isEmpty && path.inits.tail.all (t.holdsAt fun u _ => u.isRead)

/-- What the nodes of a function cost together. -/
def readingCost (t : Tree SyntaxNode) : Nat :=
  ((t.readPlaces.filter (t.holdsAt isNestingCharged)).map fun path => 1 + t.nestingAt path).sum +
    t.readPlaces.countP (t.holdsAt isFlatCharged)

/-! ## What is charged -/

/-- No control structure is charged flatly, unless it follows an `else`. -/
theorem isFlatCharged_of_isNestingCharged (h : t.isNestingCharged parent = true) :
    t.isFlatCharged parent = false := by
  have hkinds : ∀ kind ∈ cognitiveNestedKinds, kind ≠ "elif_clause" ∧ kind ≠ "else_clause" ∧
      kind ≠ "boolean_operator" ∧ kind ≠ "binary_expression" := by
    decide
  unfold isNestingCharged at h
  rw [Bool.and_eq_true, Bool.not_eq_true', List.contains_iff_mem] at h
  obtain ⟨helif, helse, hboolean, hbinary⟩ := hkinds t.kind h.1
  simp [isFlatCharged, isPlainElse, isLogicalOperator, isLogicalBinary, h.2, helif, helse,
    hboolean, hbinary]

/-- An `else` neither joins conditions nor is it a small function. -/
theorem of_kind_eq_else (h : (t.kind == "else_clause") = true) :
    t.isLogicalOperator = false ∧ nestedScopeKinds.contains t.kind = false := by
  unfold isLogicalOperator isLogicalBinary
  rw [beq_iff_eq.mp h]
  exact ⟨rfl, by decide⟩

theorem cognitiveStep_of_not_isRead (level : Level) (h : t.isRead = false) :
    cognitiveStep level t = ([], none) := by
  unfold isRead at h
  unfold cognitiveStep
  cases herror : t.label.isError <;> cases hnamed : t.label.named <;> simp_all

/-- A node that is read is charged by its kind, and raises the nesting below it or not. -/
theorem cognitiveStep_of_isRead (level : Level) (h : t.isRead = true) :
    cognitiveStep level t =
      (if t.isNestingCharged level.parent then [1 + level.depth]
        else if t.isFlatCharged level.parent then [1] else [],
        some ⟨if t.raisesNesting level.parent then level.depth + 1 else level.depth, some t⟩) := by
  unfold isRead at h
  rw [Bool.and_eq_true, Bool.and_eq_true, Bool.not_eq_true', Bool.not_eq_true'] at h
  obtain ⟨⟨hnamed, herror⟩, hfunction⟩ := h
  unfold cognitiveStep raisesNesting isFlatCharged isNestingCharged
  rw [hnamed, herror, hfunction]
  cases helseIf : t.isElseIf level.parent with
  | true => simp
  | false =>
      cases hnested : cognitiveNestedKinds.contains t.kind with
      | true => simp
      | false =>
          cases helif : t.kind == "elif_clause" || t.isPlainElse level.parent with
          | true => simp [helif]
          | false =>
              cases helse : t.kind == "else_clause" with
              | true =>
                  obtain ⟨hlogical, hscope⟩ := of_kind_eq_else helse
                  simpa [helif, hlogical] using hscope
              | false =>
                  cases hlogical : t.isLogicalOperator <;>
                    cases hscope : nestedScopeKinds.contains t.kind <;> simp [helif]

/-- What is found at some places, each charged in at most one way. -/
theorem sum_flatMap_charged {places : List (List Nat)} {nested flat : List Nat → Bool}
    {depth : List Nat → Nat} (hdisjoint : ∀ path ∈ places, nested path = true → flat path = false) :
    (places.flatMap fun path =>
        if nested path then [1 + depth path] else if flat path then [1] else []).sum =
      ((places.filter nested).map fun path => 1 + depth path).sum + places.countP flat := by
  induction places with
  | nil => rfl
  | cons path rest ih =>
      rw [List.forall_mem_cons] at hdisjoint
      rw [List.flatMap_cons, List.sum_append, ih hdisjoint.2, List.filter_cons, List.countP_cons]
      cases hnested : nested path with
      | true =>
          rw [hdisjoint.1 hnested]
          simp
          omega
      | false =>
          cases flat path <;> simp
          omega

theorem nestingAt_concat (t : Tree SyntaxNode) (i j : Nat) (path : List Nat) :
    t.nestingAt (i :: path ++ [j]) =
      if t.holdsAt raisesNesting (i :: path) then t.nestingAt (i :: path) + 1
      else t.nestingAt (i :: path) := by
  unfold nestingAt
  rw [dropLast_inits_concat, dropLast_inits_cons, List.cons_append, List.tail_cons, List.tail_cons,
    List.countP_append, List.countP_singleton]
  split <;> rfl

theorem readPlaces_eq (t : Tree SyntaxNode) :
    t.readPlaces = (placesBelow 0 t.children).filter fun path =>
      path.inits.tail.all (t.holdsAt fun u _ => u.isRead) := by
  cases t with
  | node a cs =>
      rw [readPlaces, places_node, List.filter_cons_of_neg (by simp)]
      apply List.filter_congr
      intro path hpath
      obtain ⟨i, q, c, rfl, -, -⟩ := mem_placesBelow.mp hpath
      rfl

/-- The nesting around a place below a function, and the node above it. -/
def readingLevel (t : Tree SyntaxNode) (path : List Nat) : Level :=
  ⟨t.nestingAt path, t.parentAt? path⟩

/-- What each node that is read finds is found at its place. -/
theorem collectAll_cognitiveStep (t : Tree SyntaxNode) :
    collectAll cognitiveStep ⟨0, some t⟩ t.children =
      t.readPlaces.flatMap fun path =>
        if t.holdsAt isNestingCharged path then [1 + t.nestingAt path]
        else if t.holdsAt isFlatCharged path then [1] else [] := by
  have hstep : ∀ i path u, t.at? (i :: path) = some u → ∀ j,
      (cognitiveStep (t.readingLevel (i :: path)) u).2 =
        if t.holdsAt (fun u _ => u.isRead) (i :: path) then
          some (t.readingLevel (i :: path ++ [j])) else none := by
    intro i path u hu j
    rw [readingLevel, readingLevel, nestingAt_concat, parentAt?_concat, hu, holdsAt_eq hu,
      holdsAt_eq hu]
    cases hread : u.isRead with
    | true => rw [cognitiveStep_of_isRead _ hread, if_pos rfl]
    | false => rw [cognitiveStep_of_not_isRead _ hread, if_neg Bool.false_ne_true]
  have hroot : ∀ i, t.readingLevel [i] = ⟨0, some t⟩ := fun _ => rfl
  rw [collectAll_eq_flatMap_places hroot hstep, readPlaces_eq, flatMap_filter]
  apply List.flatMap_congr
  intro path hpath
  obtain ⟨i, q, c, rfl, hc, hq⟩ := mem_placesBelow.mp hpath
  obtain ⟨u, hu⟩ := mem_places_iff.mp hq
  have hu : t.at? (i :: q) = some u := by rw [at?_cons, hc, Option.bind_some, hu]
  rw [inits_tail_cons, List.all_append, List.all_cons, List.all_nil, Bool.and_true, foundAt, hu,
    holdsAt_eq hu, holdsAt_eq hu, holdsAt_eq hu, Option.elim_some]
  cases hread : u.isRead with
  | true =>
      rw [cognitiveStep_of_isRead _ hread, Bool.and_true]
      rfl
  | false =>
      rw [cognitiveStep_of_not_isRead _ hread, Bool.and_false, ite_self]
      rfl

theorem cognitiveComplexity_eq_readingCost (t : Tree SyntaxNode) :
    t.cognitiveComplexity = t.readingCost := by
  have hdisjoint : ∀ path ∈ t.readPlaces, t.holdsAt isNestingCharged path = true →
      t.holdsAt isFlatCharged path = false := by
    intro path _ h
    obtain ⟨u, hu, hcharged⟩ := (Option.any_eq_true _ _).mp h
    rw [holdsAt_eq hu, isFlatCharged_of_isNestingCharged hcharged]
  rw [readingCost, ← sum_flatMap_charged hdisjoint, ← collectAll_cognitiveStep]
  rfl

/-! ## Levels -/

theorem nestingStep_of_isPassed {level : Level} (h : t.isPassed level.parent = true) :
    nestingStep level t =
      (if t.opensNesting level.parent then [level.depth + 1] else [],
        some ⟨if t.opensNesting level.parent then level.depth + 1 else level.depth, some t⟩) := by
  unfold isPassed at h
  unfold nestingStep
  rw [← Bool.not_or, Bool.not_eq_true'] at h
  rw [h, if_neg Bool.false_ne_true]
  split <;> rfl

theorem nestingStep_of_not_isPassed {level : Level} (h : t.isPassed level.parent = false) :
    nestingStep level t = ([], none) := by
  unfold isPassed at h
  unfold nestingStep
  rw [← Bool.not_or, Bool.not_eq_false'] at h
  rw [if_pos h]

/-- The control structures around a place. -/
def levelsAbove (t : Tree SyntaxNode) (path : List Nat) : Nat :=
  path.inits.dropLast.countP (t.holdsAt opensNesting)

theorem levelsAbove_concat (t : Tree SyntaxNode) (path : List Nat) (i : Nat) :
    t.levelsAbove (path ++ [i]) = t.levelsAt path := by
  rw [levelsAbove, dropLast_inits_concat, ← inits_eq_dropLast_concat, levelsAt]

theorem levelsAt_eq (t : Tree SyntaxNode) (path : List Nat) :
    t.levelsAt path =
      if t.holdsAt opensNesting path then t.levelsAbove path + 1 else t.levelsAbove path := by
  rw [levelsAt, inits_eq_dropLast_concat, List.countP_append, List.countP_singleton, levelsAbove]
  split <;> rfl

/-- What each node on an open way finds is found at its place. -/
theorem collect_nestingStep (t : Tree SyntaxNode) :
    t.collect nestingStep ⟨0, none⟩ =
      ((t.places.filter t.isOpenWay).filter (t.holdsAt opensNesting)).map t.levelsAt := by
  have hstep : t.HandsDown nestingStep (fun path => ⟨t.levelsAbove path, t.parentAt? path⟩)
      (t.holdsAt isPassed) := by
    intro path u hu i
    dsimp only
    rw [levelsAbove_concat, levelsAt_eq, parentAt?_concat, hu, holdsAt_eq hu, holdsAt_eq hu]
    cases hpassed : u.isPassed (t.parentAt? path) with
    | true => rw [nestingStep_of_isPassed hpassed, if_pos rfl]
    | false => rw [nestingStep_of_not_isPassed hpassed, if_neg Bool.false_ne_true]
  have hroot : (⟨t.levelsAbove [], t.parentAt? []⟩ : Level) = ⟨0, none⟩ := rfl
  rw [collect_eq_flatMap_places hroot hstep, List.filter_filter, List.map_eq_flatMap,
    flatMap_filter]
  apply List.flatMap_congr
  intro path hpath
  obtain ⟨u, hu⟩ := mem_places_iff.mp hpath
  rw [isOpenWay, all_inits, foundAt, hu, Option.elim_some, holdsAt_eq hu, holdsAt_eq hu,
    levelsAt_eq, holdsAt_eq hu]
  cases hpassed : u.isPassed (t.parentAt? path) with
  | true =>
      rw [nestingStep_of_isPassed hpassed]
      cases path.inits.dropLast.all (t.holdsAt isPassed) <;>
        cases u.opensNesting (t.parentAt? path) <;> rfl
  | false =>
      rw [nestingStep_of_not_isPassed hpassed]
      simp

theorem foldl_max_le_iff {l : List Nat} {a n : Nat} :
    l.foldl max a ≤ n ↔ a ≤ n ∧ ∀ x ∈ l, x ≤ n := by
  induction l generalizing a with
  | nil => simp
  | cons x l ih => rw [List.foldl_cons, ih, Nat.max_le, and_assoc, List.forall_mem_cons]

theorem isOpenWay_of_concat {i : Nat} (h : t.isOpenWay (path ++ [i]) = true) :
    t.isOpenWay path = true := by
  rw [isOpenWay, inits_concat, List.all_append, Bool.and_eq_true] at h
  exact h.1

/-- Where some control structures are on an open way, the last of them opens as many levels. -/
theorem exists_opensNesting_of_isOpenWay (hplace : path ∈ t.places)
    (hway : t.isOpenWay path = true) (hpos : t.levelsAt path ≠ 0) :
    ∃ above ∈ (t.places.filter t.isOpenWay).filter (t.holdsAt opensNesting),
      t.levelsAt above = t.levelsAt path := by
  induction path using List.reverseRecOn with
  | nil =>
      have hopens : t.holdsAt opensNesting [] = true := by
        by_contra hopens
        rw [levelsAt_eq, if_neg hopens] at hpos
        exact hpos rfl
      exact ⟨[], List.mem_filter.mpr ⟨List.mem_filter.mpr ⟨hplace, hway⟩, hopens⟩, rfl⟩
  | append_singleton path i ih =>
      by_cases hopens : t.holdsAt opensNesting (path ++ [i]) = true
      · exact ⟨_, List.mem_filter.mpr ⟨List.mem_filter.mpr ⟨hplace, hway⟩, hopens⟩, rfl⟩
      · rw [levelsAt_eq, if_neg hopens, levelsAbove_concat] at hpos ⊢
        obtain ⟨u, hu⟩ := mem_places_iff.mp hplace
        obtain ⟨p, hp, -⟩ := exists_at?_of_concat hu
        exact ih (mem_places_iff.mpr ⟨p, hp⟩) (isOpenWay_of_concat hway) hpos

theorem maxNestingDepth_eq_deepestLevel (t : Tree SyntaxNode) :
    t.maxNestingDepth = t.deepestLevel := by
  rw [maxNestingDepth, collect_nestingStep, deepestLevel]
  apply Nat.le_antisymm
  · have hbound := (foldl_max_le_iff.mp
      (Nat.le_refl (((t.places.filter t.isOpenWay).map t.levelsAt).foldl max 0))).2
    refine foldl_max_le_iff.mpr ⟨Nat.zero_le _, fun n hn => hbound n ?_⟩
    exact (List.filter_sublist.map t.levelsAt).subset hn
  · have hbound := (foldl_max_le_iff.mp (Nat.le_refl ((((t.places.filter t.isOpenWay).filter
      (t.holdsAt opensNesting)).map t.levelsAt).foldl max 0))).2
    refine foldl_max_le_iff.mpr ⟨Nat.zero_le _, fun n hn => ?_⟩
    obtain ⟨path, hpath, rfl⟩ := List.mem_map.mp hn
    obtain ⟨hplace, hway⟩ := List.mem_filter.mp hpath
    by_cases hpos : t.levelsAt path = 0
    · rw [hpos]
      exact Nat.zero_le _
    · obtain ⟨above, habove, hsame⟩ := exists_opensNesting_of_isOpenWay hplace hway hpos
      exact hsame ▸ hbound _ (List.mem_map_of_mem habove)

/-- Both measures of a function are told by its nodes: the cost of reading is the sum of what each
of them costs, and the nesting is the most control structures on one open way. -/
theorem cognitiveComplexity_eq_and_maxNestingDepth_eq (t : Tree SyntaxNode) :
    t.cognitiveComplexity = t.readingCost ∧ t.maxNestingDepth = t.deepestLevel :=
  ⟨t.cognitiveComplexity_eq_readingCost, t.maxNestingDepth_eq_deepestLevel⟩

end CodeHealth.Tree
