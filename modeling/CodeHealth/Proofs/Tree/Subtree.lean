import CodeHealth.Tree.Basic

/-!
# Subtrees

All subtrees of a tree, and that walks over it list some of them. Induction over a tree assumes the
property of every child.
-/

namespace CodeHealth.Tree

variable {α β σ : Type}

/-- What holds of a node if it holds of its children holds of every tree. -/
@[elab_as_elim, induction_eliminator]
theorem induction {motive : Tree α → Prop}
    (node : ∀ a cs, (∀ c ∈ cs, motive c) → motive (.node a cs)) : ∀ t, motive t
  | .node a cs => node a cs fun c _ => induction node c

/-! ## Lists of trees -/

theorem reachAll_eq_flatMap (skip stop : α → Bool) (ts : List (Tree α)) :
    reachAll skip stop ts = ts.flatMap (reach skip stop) := by
  induction ts with
  | nil => rfl
  | cons t ts ih => rw [reachAll, ih, List.flatMap_cons]

theorem collectAll_eq_flatMap (step : σ → Tree α → List β × Option σ) (s : σ)
    (ts : List (Tree α)) : collectAll step s ts = ts.flatMap (collect step s) := by
  induction ts with
  | nil => rfl
  | cons t ts ih => rw [collectAll, ih, List.flatMap_cons]

theorem mem_spotsAll {path : List Nat} {index : Nat} {ts : List (Tree α)} {u : Tree (Spot α)}
    (h : u ∈ spotsAll path index ts) : ∃ i, ∃ t ∈ ts, u = spots (path ++ [i]) t := by
  induction ts generalizing index with
  | nil => exact absurd h List.not_mem_nil
  | cons t ts ih =>
      rw [spotsAll, List.mem_cons] at h
      rcases h with rfl | h
      · exact ⟨index, t, List.mem_cons_self, rfl⟩
      · obtain ⟨i, t', ht', rfl⟩ := ih h
        exact ⟨i, t', List.mem_cons_of_mem _ ht', rfl⟩

/-! ## Subtrees -/

/-- All subtrees in pre-order. -/
def subtrees (t : Tree α) : List (Tree α) :=
  t.reach (fun _ => false) fun _ => false

theorem mem_subtrees_node {a : α} {cs : List (Tree α)} {u : Tree α} :
    u ∈ (node a cs).subtrees ↔ u = node a cs ∨ ∃ c ∈ cs, u ∈ c.subtrees := by
  simp [subtrees, reach, reachAll_eq_flatMap]

theorem self_mem_subtrees (t : Tree α) : t ∈ t.subtrees := by
  cases t with
  | node a cs => exact mem_subtrees_node.mpr (Or.inl rfl)

theorem child_mem_subtrees {t c : Tree α} (hc : c ∈ t.children) : c ∈ t.subtrees := by
  cases t with
  | node a cs => exact mem_subtrees_node.mpr (Or.inr ⟨c, hc, self_mem_subtrees c⟩)

theorem subtrees_trans {r t u : Tree α} (hu : u ∈ t.subtrees) (ht : t ∈ r.subtrees) :
    u ∈ r.subtrees := by
  induction r with
  | node a cs ih =>
      rcases mem_subtrees_node.mp ht with rfl | ⟨c, hc, ht⟩
      · exact hu
      · exact mem_subtrees_node.mpr (Or.inr ⟨c, hc, ih c hc ht⟩)

theorem mem_subtrees_of_mem_reach {skip stop : α → Bool} {t u : Tree α}
    (hu : u ∈ t.reach skip stop) : u ∈ t.subtrees := by
  induction t with
  | node a cs ih =>
      rw [reach] at hu
      split at hu
      · exact absurd hu List.not_mem_nil
      · rcases List.mem_cons.mp hu with rfl | hu
        · exact self_mem_subtrees _
        · split at hu
          · exact absurd hu List.not_mem_nil
          · rw [reachAll_eq_flatMap] at hu
            obtain ⟨c, hc, hu⟩ := List.mem_flatMap.mp hu
            exact mem_subtrees_node.mpr (Or.inr ⟨c, hc, ih c hc hu⟩)

theorem mem_collect_node {step : σ → Tree α → List β × Option σ} {s : σ} {a : α}
    {cs : List (Tree α)} {b : β} :
    b ∈ (node a cs).collect step s ↔
      b ∈ (step s (node a cs)).1 ∨
        ∃ s', (step s (node a cs)).2 = some s' ∧ ∃ c ∈ cs, b ∈ c.collect step s' := by
  rw [collect, List.mem_append]
  cases (step s (node a cs)).2 <;> simp [collectAll_eq_flatMap]

/-- Each collected value was found at a subtree. -/
theorem exists_step_of_mem_collect {step : σ → Tree α → List β × Option σ} {t : Tree α} {s : σ}
    {b : β} (hb : b ∈ t.collect step s) : ∃ u ∈ t.subtrees, ∃ s', b ∈ (step s' u).1 := by
  induction t generalizing s with
  | node a cs ih =>
      rcases mem_collect_node.mp hb with hb | ⟨s', -, c, hc, hb⟩
      · exact ⟨_, self_mem_subtrees _, s, hb⟩
      · obtain ⟨u, hu, s'', hb⟩ := ih c hc hb
        exact ⟨u, mem_subtrees_node.mpr (Or.inr ⟨c, hc, hu⟩), s'', hb⟩

theorem tree_mem_subtrees_of_mem_spots {t : Tree α} {path : List Nat} {u : Tree (Spot α)}
    (hu : u ∈ (t.spots path).subtrees) : u.label.tree ∈ t.subtrees := by
  induction t generalizing path with
  | node a cs ih =>
      rw [spots] at hu
      rcases mem_subtrees_node.mp hu with rfl | ⟨v, hv, hu⟩
      · exact self_mem_subtrees _
      · obtain ⟨i, c, hc, rfl⟩ := mem_spotsAll hv
        exact mem_subtrees_node.mpr (Or.inr ⟨c, hc, ih c hc hu⟩)

/-! ## The first nodes -/

theorem size_pos (t : Tree α) : 0 < t.size := by
  cases t
  rw [size]
  exact Nat.succ_pos _

mutual

theorem take_of_size_le : ∀ (t : Tree α) (count : Nat), t.size ≤ count → t.take count = t
  | .node a cs, count, h => by
      rw [size] at h
      rw [take, takeAll_of_sizeAll_le cs (count - 1) (by omega)]

theorem takeAll_of_sizeAll_le : ∀ (ts : List (Tree α)) (count : Nat), sizeAll ts ≤ count →
    takeAll count ts = ts
  | [], _, _ => rfl
  | t :: ts, count, h => by
      have hpos := size_pos t
      rw [sizeAll] at h
      have hcount : (count == 0) = false := by
        rw [beq_eq_false_iff_ne]
        omega
      rw [takeAll, hcount, take_of_size_le t count (by omega),
        takeAll_of_sizeAll_le ts (count - t.size) (by omega)]
      rfl

end

mutual

theorem size_take : ∀ (t : Tree α) (count : Nat), (t.take count).size = max 1 (min count t.size)
  | .node a cs, count => by
      rw [take, size, size, sizeAll_takeAll cs (count - 1)]
      omega

theorem sizeAll_takeAll : ∀ (ts : List (Tree α)) (count : Nat),
    sizeAll (takeAll count ts) = min count (sizeAll ts)
  | [], _ => by rw [takeAll, sizeAll, Nat.min_zero]
  | t :: ts, count => by
      have hpos := size_pos t
      rw [takeAll, sizeAll]
      split
      · rename_i hcount
        rw [beq_iff_eq.mp hcount, sizeAll, Nat.zero_min]
      · rename_i hcount
        have hcount : count ≠ 0 := by simpa using hcount
        rw [sizeAll, size_take t count, sizeAll_takeAll ts (count - t.size)]
        omega

end

/-- A count of zero keeps the root as well. -/
theorem take_congr (t : Tree α) {m n : Nat} (h : m - 1 = n - 1) : t.take m = t.take n := by
  cases t
  rw [take, take, h]

theorem mem_takeAll {count : Nat} {ts : List (Tree α)} {u : Tree α} (h : u ∈ takeAll count ts) :
    ∃ n, ∃ t ∈ ts, u = t.take n := by
  induction ts generalizing count with
  | nil => exact absurd h List.not_mem_nil
  | cons t ts ih =>
      rw [takeAll] at h
      split at h
      · exact absurd h List.not_mem_nil
      · rcases List.mem_cons.mp h with rfl | h
        · exact ⟨count, t, List.mem_cons_self, rfl⟩
        · obtain ⟨n, t', ht', rfl⟩ := ih h
          exact ⟨n, t', List.mem_cons_of_mem _ ht', rfl⟩

theorem exists_take_of_mem_take {t u : Tree α} {count : Nat} (hu : u ∈ (t.take count).subtrees) :
    ∃ v ∈ t.subtrees, ∃ n, u = v.take n := by
  induction t generalizing count with
  | node a cs ih =>
      rw [take] at hu
      rcases mem_subtrees_node.mp hu with rfl | ⟨v, hv, hu⟩
      · exact ⟨_, self_mem_subtrees _, count, by rw [take]⟩
      · obtain ⟨n, c, hc, rfl⟩ := mem_takeAll hv
        obtain ⟨w, hw, m, heq⟩ := ih c hc hu
        exact ⟨w, mem_subtrees_node.mpr (Or.inr ⟨c, hc, hw⟩), m, heq⟩

theorem label_take (t : Tree α) (count : Nat) : (t.take count).label = t.label := by
  cases t
  rw [take]
  rfl

theorem children_take (t : Tree α) (count : Nat) :
    (t.take count).children = takeAll (count - 1) t.children := by
  cases t
  rw [take]
  rfl

theorem exists_label_of_mem_take {t u : Tree α} {count : Nat}
    (hu : u ∈ (t.take count).subtrees) : ∃ v ∈ t.subtrees, u.label = v.label := by
  obtain ⟨v, hv, n, rfl⟩ := exists_take_of_mem_take hu
  exact ⟨v, hv, label_take v n⟩

/-! ## Ways down -/

/-- A subtree that is reached from a tree through nodes of a kind: all nodes on the way to it, but
not itself, are of that kind. -/
inductive Reaches (through : Tree α → Prop) : Tree α → Tree α → Prop where
  | here (t : Tree α) : Reaches through t t
  | step {t c u : Tree α} (ht : through t) (hc : c ∈ t.children) (hu : Reaches through c u) :
      Reaches through t u

variable {through : Tree α → Prop}

theorem Reaches.mem_subtrees {t u : Tree α} (h : Reaches through t u) : u ∈ t.subtrees := by
  induction h with
  | here t => exact self_mem_subtrees t
  | step _ hc _ ih => exact subtrees_trans ih (child_mem_subtrees hc)

theorem reaches_iff {t u : Tree α} :
    Reaches through t u ↔ u = t ∨ through t ∧ ∃ c ∈ t.children, Reaches through c u := by
  constructor
  · rintro (_ | ⟨ht, hc, hu⟩)
    · exact Or.inl rfl
    · exact Or.inr ⟨ht, _, hc, hu⟩
  · rintro (rfl | ⟨ht, c, hc, hu⟩)
    · exact .here _
    · exact .step ht hc hu

end CodeHealth.Tree
