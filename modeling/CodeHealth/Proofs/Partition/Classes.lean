import CodeHealth.Proofs.Partition.Union
import Mathlib.Data.List.Perm.Basic

/-!
# Classes of equal keys

The elements of a list that share a key, one class for each key in the order in which the keys
first appear. The sets of a partition are the classes of equal roots.
-/

namespace CodeHealth

variable {α κ : Type} [BEq κ] [LawfulBEq κ]

/-- The classes of a list by a key. -/
def classesBy (f : α → κ) (xs : List α) : List (List α) :=
  ((xs.map f).eraseDups).map fun k => xs.filter fun a => f a == k

theorem classesBy_cons (f : α → κ) (a : α) (xs : List α) :
    classesBy f (a :: xs) =
      (a :: xs.filter fun b => f b == f a) :: classesBy f (xs.filter fun b => !f b == f a) := by
  unfold classesBy
  rw [List.map_cons, List.eraseDups_cons, List.filter_map, List.map_cons]
  congr 1
  · simp
  · apply List.map_congr_left
    intro k hk
    -- a later key differs from the first one, so its class loses nothing
    have hne : f a ≠ k := by
      rintro rfl
      simp only [List.mem_eraseDups, List.mem_map, List.mem_filter] at hk
      grind
    rw [List.filter_cons_of_neg (by simpa using hne), List.filter_filter]
    apply List.filter_congr
    intro b _
    by_cases hb : f b = k
    · simp [hb, Ne.symm hne]
    · simp [hb]

omit [LawfulBEq κ] in
/-- What holds of the empty list, and of `a :: xs` if it does of the elements of `xs` with other
keys than `a`, holds of every list. -/
theorem classesBy_induction (f : α → κ) {P : List α → Prop} (nil : P [])
    (cons : ∀ a xs, P (xs.filter fun b => !f b == f a) → P (a :: xs)) (xs : List α) : P xs := by
  generalize hn : xs.length = n
  induction n using Nat.strongRecOn generalizing xs with
  | ind n ih =>
      cases xs with
      | nil => exact nil
      | cons a xs =>
          have hle := List.length_filter_le (fun b => !f b == f a) xs
          rw [List.length_cons] at hn
          exact cons a xs (ih _ (by omega) _ rfl)

theorem flatten_classesBy_perm (f : α → κ) (xs : List α) : (classesBy f xs).flatten.Perm xs := by
  induction xs using classesBy_induction f with
  | nil => exact List.Perm.refl _
  | cons a xs ih =>
      rw [classesBy_cons, List.flatten_cons, List.cons_append]
      exact ((ih.append_left _).trans (List.filter_append_perm _ xs)).cons a

theorem length_classesBy_le (f : α → κ) (xs : List α) :
    (classesBy f xs).length ≤ xs.length := by
  induction xs using classesBy_induction f with
  | nil => exact Nat.le_refl _
  | cons a xs ih =>
      have hle := List.length_filter_le (fun b => !f b == f a) xs
      rw [classesBy_cons, List.length_cons, List.length_cons]
      omega

theorem mem_classesBy {f : α → κ} {xs c : List α} :
    c ∈ classesBy f xs ↔ ∃ a ∈ xs, c = xs.filter fun b => f b == f a := by
  unfold classesBy
  simp only [List.mem_map, List.mem_eraseDups]
  grind

theorem mem_of_mem_classesBy {f : α → κ} {xs c : List α} (hc : c ∈ classesBy f xs) {a b : α}
    (ha : a ∈ c) : b ∈ c ↔ b ∈ xs ∧ f b = f a := by
  obtain ⟨r, -, rfl⟩ := mem_classesBy.mp hc
  rw [List.mem_filter, beq_iff_eq] at ha ⊢
  rw [ha.2]

theorem eq_of_mem_classesBy {f : α → κ} {xs c d : List α} (hc : c ∈ classesBy f xs)
    (hd : d ∈ classesBy f xs) {a b : α} (ha : a ∈ c) (hb : b ∈ d) (hab : f a = f b) : c = d := by
  obtain ⟨r, -, rfl⟩ := mem_classesBy.mp hc
  obtain ⟨t, -, rfl⟩ := mem_classesBy.mp hd
  rw [List.mem_filter, beq_iff_eq] at ha hb
  rw [← ha.2, ← hb.2, hab]

theorem sublist_of_mem_classesBy {f : α → κ} {xs c : List α} (hc : c ∈ classesBy f xs) :
    c.Sublist xs := by
  obtain ⟨r, -, rfl⟩ := mem_classesBy.mp hc
  exact List.filter_sublist

theorem ne_nil_of_mem_classesBy {f : α → κ} {xs c : List α} (hc : c ∈ classesBy f xs) :
    c ≠ [] := by
  obtain ⟨r, hr, rfl⟩ := mem_classesBy.mp hc
  exact List.ne_nil_of_mem (List.mem_filter.mpr ⟨hr, by simp⟩)

/-- The first elements of the classes stand in the order of the list. -/
theorem pairwise_head_classesBy {f : α → κ} {lt : α → α → Prop} {xs : List α}
    (h : xs.Pairwise lt) :
    (classesBy f xs).Pairwise fun c d => ∀ a ∈ c.head?, ∀ b ∈ d.head?, lt a b := by
  induction xs using classesBy_induction f with
  | nil => exact List.Pairwise.nil
  | cons a xs ih =>
      rw [List.pairwise_cons] at h
      rw [classesBy_cons, List.pairwise_cons]
      refine ⟨fun d hd x hx b hb => ?_, ih (h.2.filter _)⟩
      obtain rfl : a = x := by simpa using hx
      have hmem := (sublist_of_mem_classesBy hd).subset (List.mem_of_mem_head? hb)
      exact h.1 b (List.mem_of_mem_filter hmem)

theorem pairwise_ne_classesBy (f : α → κ) (xs : List α) :
    (classesBy f xs).Pairwise fun c d => ∀ a ∈ c, ∀ b ∈ d, f a ≠ f b := by
  induction xs using classesBy_induction f with
  | nil => exact List.Pairwise.nil
  | cons a xs ih =>
      rw [classesBy_cons, List.pairwise_cons]
      refine ⟨fun d hd x hx b hb => ?_, ih⟩
      have hb := (sublist_of_mem_classesBy hd).subset hb
      simp only [List.mem_cons, List.mem_filter, beq_iff_eq, Bool.not_eq_true',
        beq_eq_false_iff_ne] at hx hb
      grind

/-- Keys that tell the same elements apart give the same classes. -/
theorem classesBy_congr {μ : Type} [BEq μ] [LawfulBEq μ] {f : α → κ} {g : α → μ} {xs : List α}
    (h : ∀ a ∈ xs, ∀ b ∈ xs, f a = f b ↔ g a = g b) : classesBy f xs = classesBy g xs := by
  induction xs using classesBy_induction f with
  | nil => rfl
  | cons a xs ih =>
      have hkey : ∀ b ∈ xs, (f b == f a) = (g b == g a) := fun b hb => by
        have hab := h b (List.mem_cons_of_mem a hb) a List.mem_cons_self
        rw [Bool.eq_iff_iff, beq_iff_eq, beq_iff_eq, hab]
      have hrest : xs.filter (fun b => !f b == f a) = xs.filter fun b => !g b == g a :=
        List.filter_congr fun b hb => by rw [hkey b hb]
      rw [classesBy_cons, classesBy_cons, List.filter_congr hkey, ← hrest]
      congr 1
      exact ih fun b hb c hc => h b (List.mem_cons_of_mem a (List.mem_of_mem_filter hb)) c
        (List.mem_cons_of_mem a (List.mem_of_mem_filter hc))

namespace Partition

private theorem addToGroup_map (keys : List Nat) (f : Nat → Nat) (xs : List Nat) (i : Nat)
    (hkeys : ∀ k, k ∈ keys ↔ k ∈ xs.map f) :
    addToGroup (keys.map fun k => (k, xs.filter fun j => f j == k)) (f i) i =
      (keys ++ [f i].removeAll keys).map fun k => (k, (xs ++ [i]).filter fun j => f j == k) := by
  unfold addToGroup
  simp only [List.any_map, List.map_map, List.filter_append]
  by_cases hi : f i ∈ keys
  · have hany : keys.any ((fun g : Nat × List Nat => g.1 == f i) ∘
        fun k => (k, xs.filter fun j => f j == k)) = true := by
      simpa using hi
    have hnew : [f i].removeAll keys = [] := by simp [List.removeAll, hi]
    rw [if_pos hany, hnew, List.append_nil]
    apply List.map_congr_left
    intro k _
    by_cases hk : k = f i
    · simp [hk]
    · simp [hk, Ne.symm hk]
  · have hany : keys.any ((fun g : Nat × List Nat => g.1 == f i) ∘
        fun k => (k, xs.filter fun j => f j == k)) = false := by
      simpa using fun k hk (heq : k = f i) => hi (heq ▸ hk)
    have hnew : [f i].removeAll keys = [f i] := by simp [List.removeAll, hi]
    have hnone : xs.filter (fun j => f j == f i) = [] := by
      rw [List.filter_eq_nil_iff]
      intro j hj heq
      exact hi ((hkeys _).mpr (List.mem_map.mpr ⟨j, hj, by simpa using heq⟩))
    rw [if_neg (by rw [hany]; exact Bool.false_ne_true), hnew, List.map_append]
    congr 1
    · apply List.map_congr_left
      intro k hk
      have hne : f i ≠ k := fun heq => hi (heq ▸ hk)
      simp [hne]
    · simp [hnone]

private theorem foldl_addToGroup (f : Nat → Nat) (xs : List Nat) :
    xs.foldl (fun found i => addToGroup found (f i) i) [] =
      (xs.map f).eraseDups.map fun k => (k, xs.filter fun i => f i == k) := by
  induction xs using List.reverseRecOn with
  | nil => rfl
  | append_singleton xs i ih =>
      rw [List.foldl_append, ih, List.map_append, List.eraseDups_append, List.foldl_cons,
        List.foldl_nil, addToGroup_map _ f xs i fun k => List.mem_eraseDups]
      congr 2
      simp only [List.map_cons, List.map_nil, List.removeAll, List.elem_eq_mem,
        List.mem_eraseDups, List.filter_cons, List.filter_nil]
      split <;> simp [List.eraseDups_cons]

/-- Searches shorten links and leave the roots alone, so the numbers are grouped by the roots of
the partition that the search began with. -/
private theorem foldl_find {p : Partition} (xs : List Nat) (found : List (Nat × List Nat))
    (q : Partition) (h : p.Alike q) (hxs : ∀ i ∈ xs, i < p.size) :
    (xs.foldl
      (fun (found, p) i =>
        let (root, p) := p.find i
        (addToGroup found root i, p))
      (found, q)).1 = xs.foldl (fun found i => addToGroup found (p.root i) i) found := by
  induction xs generalizing found q with
  | nil => rfl
  | cons i xs ih =>
      rw [List.foldl_cons, List.foldl_cons]
      simp only [find, h.root i]
      apply ih _ _ (h.compress (hxs i List.mem_cons_self))
      exact fun j hj => hxs j (List.mem_cons_of_mem _ hj)

theorem Valid.groups_eq {p : Partition} (h : p.Valid) :
    p.groups.1 = classesBy p.root (List.range p.size) := by
  have hfold := foldl_find (List.range p.size) [] p (Alike.refl h) fun i hi =>
    List.mem_range.mp hi
  unfold groups classesBy
  dsimp only at hfold ⊢
  rw [hfold, foldl_addToGroup]
  simp

end Partition

end CodeHealth
