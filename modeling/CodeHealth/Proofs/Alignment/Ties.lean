import CodeHealth.Proofs.Alignment.Ratio

/-!
# Ties between longest blocks

An alignment takes the first of the longest common blocks, and which one is first depends on the
order of the sequences. If every choice among the longest blocks, here and on both sides, keeps
equally many elements, the ratio does not depend on the order.
-/

namespace CodeHealth.Alignment

variable {α β : Type} {same : α → β → Bool} {as : List α} {bs : List β} {n : Nat}

/-- A common block that none is longer than. There may be others of its length. -/
structure Longest (same : α → β → Bool) (as : List α) (bs : List β) (block : Block) : Prop where
  pos : 0 < block.length
  le_length : ∀ i < as.length, ∀ j < bs.length,
    commonRun same (as.drop i) (bs.drop j) ≤ block.length
  length_eq : block.length = commonRun same (as.drop block.first) (bs.drop block.second)

/-- The numbers of elements that alignments keep if they may take any of the longest blocks. -/
inductive Keeps (same : α → β → Bool) : List α → List β → Nat → Prop where
  | gap {as : List α} {bs : List β}
      (hnone : ∀ i < as.length, ∀ j < bs.length,
        commonRun same (as.drop i) (bs.drop j) = 0) : Keeps same as bs 0
  | block {as : List α} {bs : List β} {block : Block} {before after : Nat}
      (hlongest : Longest same as bs block)
      (hbefore : Keeps same (as.take block.first) (bs.take block.second) before)
      (hafter : Keeps same (as.drop (block.first + block.length))
        (bs.drop (block.second + block.length)) after) :
      Keeps same as bs (before + block.length + after)

/-- All choices among the longest blocks keep equally many elements. -/
def TiesAgree (same : α → β → Bool) (as : List α) (bs : List β) : Prop :=
  ∀ m n, Keeps same as bs m → Keeps same as bs n → m = n

/-! ## The choice of the first block -/

theorem IsLongest.longest {block : Block} (h : IsLongest same as bs block)
    (hpos : 0 < block.length) : Longest same as bs block :=
  ⟨hpos, h.le_length, h.length_eq⟩

theorem matched_append (steps steps' : List (Step α β)) :
    matched (steps ++ steps') = matched steps + matched steps' := by
  rw [← length_flatMap_kept, List.flatMap_append, List.length_append, length_flatMap_kept,
    length_flatMap_kept]

theorem matched_gap (as : List α) (bs : List β) : matched (gap as bs) = 0 := by
  unfold gap
  split <;> rfl

theorem keeps_alignWithin {depth : Nat} (hdepth : as.length ≤ depth) :
    Keeps same as bs (matched (alignWithin same depth as bs)) := by
  induction depth generalizing as bs with
  | zero =>
      obtain rfl := List.eq_nil_of_length_eq_zero (Nat.le_zero.mp hdepth)
      rw [alignWithin, matched_gap]
      exact .gap fun i hi => absurd hi (Nat.not_lt_zero i)
  | succ depth ih =>
      have hlongest := isLongest_longestBlock same as bs
      rw [alignWithin]
      generalize longestBlock same as bs = block at hlongest ⊢
      split
      · rename_i hzero
        rw [beq_iff_eq] at hzero
        rw [matched_gap]
        exact .gap fun i hi j hj => Nat.le_zero.mp (hzero ▸ hlongest.le_length i hi j hj)
      · rename_i hpos
        rw [beq_iff_eq] at hpos
        have hpos := Nat.pos_of_ne_zero hpos
        obtain ⟨hfirst, hsecond⟩ := hlongest.first_add_length_le hpos
        have htake : (as.take block.first).length ≤ depth := by
          rw [List.length_take]
          omega
        have hdrop : (as.drop (block.first + block.length)).length ≤ depth := by
          rw [List.length_drop]
          omega
        have hblock : (((as.drop block.first).take block.length).zip
            ((bs.drop block.second).take block.length)).length = block.length := by
          simp only [List.length_zip, List.length_take, List.length_drop]
          omega
        rw [matched_append]
        have hcons : ∀ pairs (steps : List (Step α β)),
            matched (.keep pairs :: steps) = pairs.length + matched steps := fun _ _ => rfl
        rw [hcons, hblock, ← Nat.add_assoc]
        exact .block (hlongest.longest hpos) (ih htake) (ih hdrop)

/-! ## The other order -/

theorem commonRun_swap (same : α → β → Bool) (as : List α) (bs : List β) :
    commonRun (fun b a => same a b) bs as = commonRun same as bs := by
  induction as generalizing bs with
  | nil => rw [commonRun_nil_right, commonRun.eq_def]
  | cons a as ih =>
      cases bs with
      | nil => rfl
      | cons b bs => rw [commonRun, commonRun, ih]

/-- A choice for two sequences is one for them in the other order. -/
theorem Keeps.swap (h : Keeps same as bs n) : Keeps (fun b a => same a b) bs as n := by
  induction h with
  | gap hnone =>
      refine .gap fun j hj i hi => ?_
      rw [commonRun_swap]
      exact hnone i hi j hj
  | @block as bs block before after hlongest _ _ hbefore hafter =>
      have hswap : Longest (fun b a => same a b) bs as
          ⟨block.second, block.first, block.length⟩ := by
        refine ⟨hlongest.pos, fun j hj i hi => ?_, ?_⟩
        · rw [commonRun_swap]
          exact hlongest.le_length i hi j hj
        · rw [commonRun_swap]
          exact hlongest.length_eq
      have hall := Keeps.block hswap hbefore hafter
      exact hall

section order

variable [DecidableEq α] {as bs : List α}

theorem keeps_matched_swap (as bs : List α) :
    Keeps (· == ·) as bs (matched (align (· == ·) bs as)) := by
  have hswap : (fun b a : α => a == b) = (· == ·) := by
    funext b a
    exact Bool.beq_comm
  have hkeeps : Keeps (· == ·) bs as (matched (align (· == ·) bs as)) :=
    keeps_alignWithin (Nat.le_refl bs.length)
  have hswapped := hkeeps.swap
  rwa [hswap] at hswapped

/-- If ties do not matter, neither does the order of the sequences. -/
theorem TiesAgree.ratio_comm (h : TiesAgree (· == ·) as bs) : ratio as bs = ratio bs as := by
  have hmatched : matched (align (· == ·) as bs) = matched (align (· == ·) bs as) :=
    h _ _ (keeps_alignWithin (Nat.le_refl as.length)) (keeps_matched_swap as bs)
  unfold ratio
  rw [hmatched, Nat.add_comm]

end order

/-! ## Parts of a sequence -/

theorem Longest.first_add_length_le {block : Block} (h : Longest same as bs block) :
    block.first + block.length ≤ as.length := by
  have hpos := h.pos
  have hle := commonRun_le_length same (as.drop block.first) (bs.drop block.second)
  rw [← h.length_eq, List.length_drop] at hle
  omega

theorem Keeps.le_length (h : Keeps same as bs n) : n ≤ as.length := by
  induction h with
  | gap => exact Nat.zero_le _
  | block hlongest _ _ hbefore hafter =>
      have hinside := hlongest.first_add_length_le
      rw [List.length_take] at hbefore
      rw [List.length_drop] at hafter
      omega

theorem length_le_commonRun_append [DecidableEq α] (as bs : List α) :
    as.length ≤ commonRun (· == ·) as (as ++ bs) := by
  induction as with
  | nil => exact Nat.zero_le _
  | cons a as ih => simpa [commonRun] using ih

/-- Ties do not matter if one sequence is a part of the other without gaps: it is kept as a
whole. -/
theorem tiesAgree_of_infix [DecidableEq α] {as bs : List α} (h : as.IsInfix bs) :
    TiesAgree (· == ·) as bs := by
  obtain ⟨left, right, rfl⟩ := h
  have hrun : as.length ≤ commonRun (· == ·) (as.drop 0)
      ((left ++ as ++ right).drop left.length) := by
    rw [List.drop_zero, List.append_assoc, List.drop_left]
    exact length_le_commonRun_append as right
  have hall : ∀ n, Keeps (· == ·) as (left ++ as ++ right) n → n = as.length := by
    intro n hn
    apply Nat.le_antisymm hn.le_length
    cases as with
    | nil => exact Nat.zero_le n
    | cons a as =>
        have hplace : left.length < (left ++ a :: as ++ right).length := by
          simp only [List.length_append, List.length_cons]
          omega
        cases hn with
        | gap hnone =>
            have := hnone 0 (by simp) left.length hplace
            omega
        | block hlongest =>
            have := hlongest.le_length 0 (by simp) left.length hplace
            omega
  exact fun m n hm hn => (hall m hm).trans (hall n hn).symm

end CodeHealth.Alignment
