import Mathlib.Data.List.Nodup
import Mathlib.Order.Lattice

/-!
# Sorting by a key

Elements with different keys have one order only. A comparison by several keys in turn is the one
of their lexicographic order.
-/

namespace CodeHealth

/-- One key, and the other keys where it is equal. -/
theorem lt_or_eq_and_iff {α : Type} [LinearOrder α] [BEq α] [LawfulBEq α] {a b : α}
    [Decidable (a < b)] {rest : Bool} :
    (if a != b then decide (a < b) else rest) = true ↔ a < b ∨ a = b ∧ rest = true := by
  by_cases h : a = b
  · simp [h]
  · simp [h]

variable {α β : Type} [LinearOrder β] {key : α → β} {le : α → α → Bool}

theorem pairwise_mergeSort_key (hle : ∀ x y, le x y = true ↔ key x ≤ key y) (xs : List α) :
    (xs.mergeSort le).Pairwise fun x y => key x ≤ key y := by
  have hsorted : (xs.mergeSort le).Pairwise fun x y => le x y = true := by
    apply List.pairwise_mergeSort
    · intro x y z hxy hyz
      rw [hle] at hxy hyz ⊢
      exact le_trans hxy hyz
    · intro x y
      rw [Bool.or_eq_true, hle, hle]
      exact le_total (key x) (key y)
  exact hsorted.imp (hle _ _).mp

theorem eq_mergeSort (hle : ∀ x y, le x y = true ↔ key x ≤ key y) {xs ys : List α}
    (hkeys : (xs.map key).Nodup) (hsorted : ys.Pairwise fun x y => key x ≤ key y)
    (hperm : ys.Perm xs) : ys = xs.mergeSort le := by
  refine List.Perm.eq_of_pairwise (fun x y hx hy hxy hyx => ?_) hsorted
    (pairwise_mergeSort_key hle xs) (hperm.trans (List.mergeSort_perm xs le).symm)
  exact List.inj_on_of_nodup_map hkeys (hperm.mem_iff.mp hx) (List.mem_mergeSort.mp hy)
    (le_antisymm hxy hyx)

theorem mergeSort_eq_of_perm (hle : ∀ x y, le x y = true ↔ key x ≤ key y) {xs ys : List α}
    (hkeys : (xs.map key).Nodup) (hperm : xs.Perm ys) : xs.mergeSort le = ys.mergeSort le :=
  (eq_mergeSort hle hkeys (pairwise_mergeSort_key hle ys)
    ((List.mergeSort_perm ys le).trans hperm.symm)).symm

theorem filter_mergeSort (hle : ∀ x y, le x y = true ↔ key x ≤ key y) {xs : List α}
    (hkeys : (xs.map key).Nodup) (p : α → Bool) :
    (xs.mergeSort le).filter p = (xs.filter p).mergeSort le :=
  eq_mergeSort hle (hkeys.sublist (List.filter_sublist.map key))
    ((pairwise_mergeSort_key hle xs).filter p) ((List.mergeSort_perm xs le).filter p)

/-! ## Keys in order -/

theorem nodup_eraseDups {α : Type} [BEq α] [LawfulBEq α] : ∀ xs : List α, xs.eraseDups.Nodup
  | [] => by simp
  | x :: xs => by
      rw [List.eraseDups_cons, List.nodup_cons]
      exact ⟨by simp [List.mem_eraseDups], nodup_eraseDups (xs.filter fun b => !b == x)⟩
termination_by xs => xs.length
decreasing_by exact Nat.lt_succ_of_le (List.length_filter_le _ _)

/-- The numbers of a list, each once, in increasing order. -/
theorem pairwise_lt_mergeSort_eraseDups (xs : List Nat) :
    (xs.eraseDups.mergeSort).Pairwise (· < ·) := by
  have hsorted : (xs.eraseDups.mergeSort).Pairwise fun x y => id x ≤ id y :=
    pairwise_mergeSort_key (fun _ _ => decide_eq_true_iff) _
  have hnodup : (xs.eraseDups.mergeSort).Nodup :=
    (List.mergeSort_perm _ _).nodup_iff.mpr (nodup_eraseDups xs)
  exact hsorted.imp₂ (fun _ _ hle hne => Nat.lt_of_le_of_ne hle hne) hnodup

end CodeHealth
