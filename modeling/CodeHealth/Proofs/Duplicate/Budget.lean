import CodeHealth.Proofs.Duplicate.Comparison
import CodeHealth.Proofs.Duplicate.Report
import Mathlib.Data.Nat.Choose.Basic

/-!
# The comparison budget

Only comparisons of shapes and of words are counted, at most one for each pair.
-/

namespace CodeHealth

namespace Duplicates

open Linking

variable {blocks : List CodeBlock} {options : Options} {asts : List SourceTree} {s t : Linking}

theorem length_pairs {α : Type} (xs : List α) : (pairs xs).length = xs.length.choose 2 := by
  induction xs with
  | nil => rfl
  | cons x xs ih =>
      rw [pairs, List.length_append, List.length_map, ih, List.length_cons,
        Nat.choose_succ_succ' _ 1, Nat.choose_one_right]

/-- Within a budget for all candidates, each of them costs at most one comparison. -/
theorem compareAll_within {α : Type} {calls : α → List LinkCall} {budget : Int}
    (hs : s.exhausted = false) {xs : List α} (p : α → Bool)
    (hle : s.comparisons + xs.length ≤ budget) :
    (compareAll blocks budget calls (xs.filter p) s).exhausted = false ∧
      (compareAll blocks budget calls (xs.filter p) s).comparisons ≤
        s.comparisons + xs.length := by
  have hcompared := List.length_filter_le p xs
  have hdone : (compareAll blocks budget calls (xs.filter p) s).exhausted = false :=
    (exhausted_compareAll_iff _).mpr ⟨hs, Or.inr (by omega)⟩
  refine ⟨hdone, ?_⟩
  rw [compareAll_eq_follow _ hdone, comparisons_charge, comparisons_follow]
  omega

theorem nearPairs_within {candidates : List (List CodeBlock × List CodeBlock)}
    (hs : s.exhausted = false)
    (hle : s.comparisons + candidates.length ≤ options.maxDuplicateComparisons)
    (h : nearPairs blocks options candidates s = .ok t) :
    t.exhausted = false ∧ t.comparisons ≤ s.comparisons + candidates.length := by
  rw [eq_compareAll_of_nearPairs h]
  exact compareAll_within hs _ hle

theorem wordPairs_within (candidates : List (CodeBlock × CodeBlock)) (s : Linking)
    (hs : s.exhausted = false)
    (hle : s.comparisons + candidates.length ≤ options.maxDuplicateComparisons) :
    (wordPairs blocks options candidates s).exhausted = false := by
  rw [wordPairs_eq_compareAll]
  exact (compareAll_within hs _ hle).1

theorem length_pairs_buckets_le (key : CodeBlock → String) (blocks : List CodeBlock) :
    (pairs (buckets key blocks)).length ≤ blocks.length.choose 2 := by
  rw [length_pairs, buckets_eq_classesBy]
  exact Nat.choose_le_choose 2 (length_classesBy_le _ blocks)

theorem exhausted_nearPass_of_le (hs : s.exhausted = false)
    (hle : s.comparisons + blocks.length.choose 2 ≤ options.maxDuplicateComparisons)
    (h : nearPass blocks options s = .ok t) : t.exhausted = false := by
  have hbuckets := length_pairs_buckets_le CodeBlock.shapeKey blocks
  exact (nearPairs_within hs (by omega) h).1

/-- A budget for two comparisons of each pair of blocks lasts. -/
theorem exhausted_linkAll_of_le
    (hle : 2 * (blocks.length.choose 2 : Int) ≤ options.maxDuplicateComparisons)
    (h : linkAll blocks options = .ok t) : t.exhausted = false := by
  obtain ⟨hnear, rfl⟩ := linkAll_eq_ok_iff.mp h
  obtain ⟨hkept, hfree⟩ := keysLinked_spends_nothing blocks
  have hbuckets := length_pairs_buckets_le CodeBlock.shapeKey blocks
  obtain ⟨hdone, hspent⟩ := nearPairs_within hkept (by omega) hnear
  have hrest : (pairs (blocks.filter fun b =>
      ((shapesLinked blocks options).best? b.index).isNone)).length ≤ blocks.length.choose 2 := by
    rw [length_pairs]
    exact Nat.choose_le_choose 2 (List.length_filter_le _ _)
  exact wordPairs_within _ _ hdone (by omega)

/-- Without a budget a search does not get past the first two shapes that are compared. -/
theorem exhausted_linkAll_of_compared (h : linkAll blocks options = .ok t)
    (hbudget : options.maxDuplicateComparisons ≤ 0) {p : List CodeBlock × List CodeBlock}
    (hp : p ∈ pairs (buckets CodeBlock.shapeKey blocks))
    (hcompared : comparesShapes options.structuralThreshold p = true) : t.exhausted = true := by
  obtain ⟨hnear, rfl⟩ := linkAll_eq_ok_iff.mp h
  apply exhausted_wordPass
  rw [eq_compareAll_of_nearPairs hnear, ← Bool.not_eq_false, exhausted_compareAll_iff]
  rintro ⟨-, hnone⟩
  have hlength := List.length_pos_of_mem (List.mem_filter.mpr ⟨hp, hcompared⟩)
  have hfree := (keysLinked_spends_nothing blocks).2
  rw [← List.length_eq_zero_iff] at hnone
  omega

/-- With such a budget and a threshold that rates shapes, duplicates are found. -/
theorem exists_detect_of_le (hblocks : extractBlocks options asts = .ok blocks)
    (hrated : ¬ Unrated options.structuralThreshold)
    (hle : 2 * (blocks.length.choose 2 : Int) ≤ options.maxDuplicateComparisons)
    (projectId : String) :
    ∃ result, detect options projectId asts = .ok result ∧ result.budgetExhausted = false := by
  obtain ⟨s, hlinked⟩ := exists_linkAll_of_rated blocks hrated
  obtain ⟨result, hdetect, hbudget⟩ := exists_detect hblocks hlinked projectId
  exact ⟨result, hdetect, hbudget.trans (exhausted_linkAll_of_le hle hlinked)⟩

end Duplicates

end CodeHealth
