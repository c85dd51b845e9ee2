import CodeHealth.Alignment
import Mathlib.Data.List.Basic

/-!
# The longest common block

The table of run lengths holds the length of the common run at each pair of places, and the block
chosen from it is the first of the longest ones.
-/

namespace CodeHealth.Alignment

variable {α β : Type} {same : α → β → Bool}

/-- The length of the common run at the front of two sequences. -/
def commonRun (same : α → β → Bool) : List α → List β → Nat
  | a :: as, b :: bs => if same a b then commonRun same as bs + 1 else 0
  | _, _ => 0

theorem commonRun_nil_right (as : List α) : commonRun same as [] = 0 := by
  cases as <;> rfl

theorem commonRun_le_length (same : α → β → Bool) (as : List α) (bs : List β) :
    commonRun same as bs ≤ as.length := by
  induction as generalizing bs with
  | nil => simp [commonRun]
  | cons a as ih =>
      cases bs with
      | nil => simp [commonRun]
      | cons b bs =>
          have hle := ih bs
          rw [commonRun, List.length_cons]
          split <;> omega

theorem commonRun_le_length_right (same : α → β → Bool) (as : List α) (bs : List β) :
    commonRun same as bs ≤ bs.length := by
  induction as generalizing bs with
  | nil => simp [commonRun]
  | cons a as ih =>
      cases bs with
      | nil => simp [commonRun]
      | cons b bs =>
          have hle := ih bs
          rw [commonRun, List.length_cons]
          split <;> omega

/-- The elements of a common run correspond one to one. -/
theorem same_of_mem_zip_take {as : List α} {bs : List β} {n : Nat}
    (hn : n ≤ commonRun same as bs) {p : α × β} (hp : p ∈ (as.take n).zip (bs.take n)) :
    same p.1 p.2 = true := by
  induction n generalizing as bs with
  | zero => simp at hp
  | succ n ih =>
      cases as with
      | nil => simp at hp
      | cons a as =>
          cases bs with
          | nil => simp at hp
          | cons b bs =>
              rw [commonRun] at hn
              split at hn
              · rename_i hab
                rw [List.take_succ_cons, List.take_succ_cons, List.zip_cons_cons,
                  List.mem_cons] at hp
                rcases hp with rfl | hp
                · exact hab
                · exact ih (by omega) hp
              · omega

/-! ## The table of runs -/

private theorem getD_drop_one (next : List Nat) (j : Nat) :
    (next.drop 1).getD j 0 = next.getD (j + 1) 0 := by
  cases next <;> simp

private theorem runRow_eq (a : α) (as : List α) (bs : List β) (next : List Nat)
    (hnext : ∀ j, next.getD j 0 = commonRun same as (bs.drop j)) :
    runRow same a bs next =
      (List.range bs.length).map fun j => commonRun same (a :: as) (bs.drop j) := by
  induction bs generalizing next with
  | nil => rfl
  | cons b bs ih =>
      have hone : (next.drop 1).headD 0 = commonRun same as bs := by
        have hrun := hnext 1
        rw [List.drop_succ_cons, List.drop_zero] at hrun
        rw [← hrun]
        cases next with
        | nil => rfl
        | cons n next => cases next <;> rfl
      have htail := ih (next.drop 1) fun j => by
        rw [getD_drop_one, hnext (j + 1), List.drop_succ_cons]
      rw [runRow, hone, htail, List.length_cons, List.range_succ_eq_map, List.map_cons,
        List.map_map]
      rfl

/-- Each entry of the table is the length of the common run at its places. -/
theorem runRows_eq (as : List α) (bs : List β) :
    runRows same as bs = (List.range as.length).map fun i =>
      (List.range bs.length).map fun j => commonRun same (as.drop i) (bs.drop j) := by
  induction as with
  | nil => rfl
  | cons a as ih =>
      have hnext : ∀ j, ((runRows same as bs).headD []).getD j 0 =
          commonRun same as (bs.drop j) := by
        intro j
        rw [ih]
        cases as with
        | nil => simp [commonRun]
        | cons a' as =>
            rw [List.length_cons, List.range_succ_eq_map, List.map_cons, List.headD_cons,
              List.drop_zero]
            by_cases hj : j < bs.length
            · simp [hj]
            · have hnil : bs.drop j = [] := List.drop_eq_nil_of_le (by omega)
              simp [hnil, commonRun_nil_right, List.getElem?_eq_none (l := List.range bs.length)
                (i := j) (by simpa using hj)]
      rw [runRows, runRow_eq a as bs _ hnext, List.length_cons, List.range_succ_eq_map,
        List.map_cons, List.map_map, ih]
      rfl

/-- Every pair of places with the common run there, row by row. -/
def cells (same : α → β → Bool) (as : List α) (bs : List β) : List Block :=
  (List.range as.length).flatMap fun i =>
    (List.range bs.length).map fun j => ⟨i, j, commonRun same (as.drop i) (bs.drop j)⟩

/-- The longer of two blocks, and the first if neither is. -/
def longer (best block : Block) : Block :=
  if best.length < block.length then block else best

private theorem zipIdx_map_range {γ : Type} (f : Nat → γ) (n : Nat) :
    ((List.range n).map f).zipIdx = (List.range n).map fun i => (f i, i) := by
  apply List.ext_getElem <;> simp

theorem longestBlock_eq (as : List α) (bs : List β) :
    longestBlock same as bs = (cells same as bs).foldl longer ⟨0, 0, 0⟩ := by
  unfold longestBlock cells longerInRow
  rw [runRows_eq, List.foldl_flatMap, zipIdx_map_range, List.foldl_map]
  simp only [zipIdx_map_range, List.foldl_map]
  rfl

theorem mem_cells {as : List α} {bs : List β} {c : Block} :
    c ∈ cells same as bs ↔ c.first < as.length ∧ c.second < bs.length ∧
      c.length = commonRun same (as.drop c.first) (bs.drop c.second) := by
  unfold cells
  simp only [List.mem_flatMap, List.mem_map, List.mem_range]
  constructor
  · rintro ⟨i, hi, j, hj, rfl⟩
    exact ⟨hi, hj, rfl⟩
  · rintro ⟨hi, hj, hlen⟩
    exact ⟨c.first, hi, c.second, hj, by rw [← hlen]⟩

/-- The order of places: by the first sequence, then by the second. -/
def Block.Before (c d : Block) : Prop :=
  c.first < d.first ∨ (c.first = d.first ∧ c.second < d.second)

theorem pairwise_cells (as : List α) (bs : List β) :
    (cells same as bs).Pairwise Block.Before := by
  unfold cells
  rw [List.pairwise_flatMap]
  refine ⟨fun i _ => ?_, List.pairwise_lt_range.imp fun hlt c hc d hd => ?_⟩
  · rw [List.pairwise_map]
    exact List.pairwise_lt_range.imp fun hlt => Or.inr ⟨rfl, hlt⟩
  · obtain ⟨_, _, rfl⟩ := List.mem_map.mp hc
    obtain ⟨_, _, rfl⟩ := List.mem_map.mp hd
    exact Or.inl hlt

theorem length_le_longer (best c : Block) :
    best.length ≤ (longer best c).length ∧ c.length ≤ (longer best c).length := by
  unfold longer
  split <;> omega

theorem length_le_foldl_longer (blocks : List Block) (best : Block) :
    best.length ≤ (blocks.foldl longer best).length ∧
      ∀ c ∈ blocks, c.length ≤ (blocks.foldl longer best).length := by
  induction blocks generalizing best with
  | nil => simp
  | cons c blocks ih =>
      obtain ⟨hbest, hblocks⟩ := ih (longer best c)
      obtain ⟨hold, hnew⟩ := length_le_longer best c
      rw [List.foldl_cons]
      refine ⟨Nat.le_trans hold hbest, fun d hd => ?_⟩
      rcases List.mem_cons.mp hd with rfl | hd
      · exact Nat.le_trans hnew hbest
      · exact hblocks d hd

/-- Of blocks in order, the first of the longest is chosen if it is longer than what was there. -/
theorem foldl_longer_first {blocks : List Block} (hordered : blocks.Pairwise Block.Before)
    (best : Block) :
    blocks.foldl longer best = best ∨
      (blocks.foldl longer best ∈ blocks ∧ best.length < (blocks.foldl longer best).length ∧
        ∀ c ∈ blocks, c.length = (blocks.foldl longer best).length →
          c = blocks.foldl longer best ∨ (blocks.foldl longer best).Before c) := by
  induction blocks generalizing best with
  | nil => exact Or.inl rfl
  | cons c blocks ih =>
      rw [List.pairwise_cons] at hordered
      rw [List.foldl_cons]
      rcases ih hordered.2 (longer best c) with heq | ⟨hmem, hlt, hfirst⟩
      · rw [heq]
        by_cases hlt : best.length < c.length
        · rw [longer, if_pos hlt]
          refine Or.inr ⟨List.mem_cons_self, hlt, fun d hd _ => ?_⟩
          rcases List.mem_cons.mp hd with rfl | hd
          · exact Or.inl rfl
          · exact Or.inr (hordered.1 d hd)
        · exact Or.inl (if_neg hlt)
      · obtain ⟨hold, hnew⟩ := length_le_longer best c
        refine Or.inr
          ⟨List.mem_cons_of_mem _ hmem, Nat.lt_of_le_of_lt hold hlt, fun d hd hlen => ?_⟩
        rcases List.mem_cons.mp hd with rfl | hd
        · omega
        · exact hfirst d hd hlen

/-- The longest block: no common run is longer, and if there is one at all it is the run at its own
places and no equally long one comes before. -/
structure IsLongest (same : α → β → Bool) (as : List α) (bs : List β) (block : Block) : Prop where
  le_length : ∀ i < as.length, ∀ j < bs.length,
    commonRun same (as.drop i) (bs.drop j) ≤ block.length
  length_eq : block.length = commonRun same (as.drop block.first) (bs.drop block.second)
  first : 0 < block.length → ∀ i < as.length, ∀ j < bs.length,
    commonRun same (as.drop i) (bs.drop j) = block.length →
      block.first < i ∨ (block.first = i ∧ block.second ≤ j)

theorem isLongest_longestBlock (same : α → β → Bool) (as : List α) (bs : List β) :
    IsLongest same as bs (longestBlock same as bs) := by
  rw [longestBlock_eq]
  have hmax := (length_le_foldl_longer (cells same as bs) ⟨0, 0, 0⟩).2
  have hle : ∀ i < as.length, ∀ j < bs.length, commonRun same (as.drop i) (bs.drop j) ≤
      ((cells same as bs).foldl longer ⟨0, 0, 0⟩).length :=
    fun i hi j hj => hmax ⟨i, j, _⟩ (mem_cells.mpr ⟨hi, hj, rfl⟩)
  rcases foldl_longer_first (pairwise_cells as bs) ⟨0, 0, 0⟩ with heq | ⟨hmem, -, hfirst⟩
  · rw [heq] at hle ⊢
    refine ⟨hle, ?_, fun hpos => absurd hpos (Nat.lt_irrefl 0)⟩
    cases as with
    | nil => rfl
    | cons a as =>
        cases bs with
        | nil => rfl
        | cons b bs => exact (Nat.le_zero.mp (hle 0 (by simp) 0 (by simp))).symm
  · obtain ⟨hi, hj, hlen⟩ := mem_cells.mp hmem
    refine ⟨hle, hlen, fun _ i hi j hj hrun => ?_⟩
    rcases hfirst ⟨i, j, _⟩ (mem_cells.mpr ⟨hi, hj, rfl⟩) hrun with heq | hbefore
    · rw [← heq]
      exact Or.inr ⟨rfl, Nat.le_refl j⟩
    · exact hbefore.imp id fun h => ⟨h.1, Nat.le_of_lt h.2⟩

theorem IsLongest.first_add_length_le {as : List α} {bs : List β} {block : Block}
    (h : IsLongest same as bs block) (hpos : 0 < block.length) :
    block.first + block.length ≤ as.length ∧ block.second + block.length ≤ bs.length := by
  have hleft := commonRun_le_length same (as.drop block.first) (bs.drop block.second)
  have hright := commonRun_le_length_right same (as.drop block.first) (bs.drop block.second)
  rw [← h.length_eq, List.length_drop] at hleft hright
  omega

end CodeHealth.Alignment
