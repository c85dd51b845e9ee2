import CodeHealth.Proofs.Alignment.LongestBlock
import CodeHealth.Proofs.Number.Rounding

/-!
# Aligned sequences

An alignment divides both sequences among its steps: no element is lost or repeated, and what is
kept corresponds one to one. So it keeps no more elements than either sequence has, and the share of
kept elements is at most one.
-/

namespace CodeHealth.Alignment

variable {α β : Type} {same : α → β → Bool}

/-! ## The sides of an alignment -/

/-- The elements of the first sequence in a step. -/
def Step.old : Step α β → List α
  | .keep pairs => pairs.map Prod.fst
  | .change old _ => old

/-- The elements of the second sequence in a step. -/
def Step.new : Step α β → List β
  | .keep pairs => pairs.map Prod.snd
  | .change _ new => new

/-- Whatever the step keeps corresponds. -/
def Step.Sound (same : α → β → Bool) : Step α β → Prop
  | .keep pairs => ∀ p ∈ pairs, same p.1 p.2 = true
  | .change _ _ => True

/-- The steps divide both sequences and keep only what corresponds. -/
structure Divides (same : α → β → Bool) (as : List α) (bs : List β) (steps : List (Step α β)) :
    Prop where
  old : steps.flatMap Step.old = as
  new : steps.flatMap Step.new = bs
  sound : ∀ step ∈ steps, step.Sound same

theorem divides_gap (same : α → β → Bool) (as : List α) (bs : List β) :
    Divides same as bs (gap as bs) := by
  unfold gap
  split
  · rename_i hempty
    rw [Bool.and_eq_true, List.isEmpty_iff, List.isEmpty_iff] at hempty
    exact ⟨hempty.1.symm, hempty.2.symm, by simp⟩
  · exact ⟨by simp [Step.old], by simp [Step.new], by simp [Step.Sound]⟩

theorem divides_keep {as : List α} {bs : List β} (hlength : as.length = bs.length)
    (hsame : ∀ p ∈ as.zip bs, same p.1 p.2 = true) :
    Divides same as bs [.keep (as.zip bs)] := by
  refine ⟨?_, ?_, by simpa [Step.Sound] using hsame⟩
  · simp [Step.old, List.map_fst_zip (Nat.le_of_eq hlength)]
  · simp [Step.new, List.map_snd_zip (Nat.le_of_eq hlength.symm)]

theorem Divides.append {as as' : List α} {bs bs' : List β} {steps steps' : List (Step α β)}
    (h : Divides same as bs steps) (h' : Divides same as' bs' steps') :
    Divides same (as ++ as') (bs ++ bs') (steps ++ steps') := by
  refine ⟨?_, ?_, fun step hstep => ?_⟩
  · rw [List.flatMap_append, h.old, h'.old]
  · rw [List.flatMap_append, h.new, h'.new]
  · rcases List.mem_append.mp hstep with hstep | hstep
    · exact h.sound step hstep
    · exact h'.sound step hstep

theorem divides_alignWithin (same : α → β → Bool) (depth : Nat) (as : List α) (bs : List β) :
    Divides same as bs (alignWithin same depth as bs) := by
  induction depth generalizing as bs with
  | zero => exact divides_gap same as bs
  | succ depth ih =>
      rw [alignWithin]
      split
      · exact divides_gap same as bs
      · rename_i hpos
        rw [beq_iff_eq] at hpos
        have hlongest := isLongest_longestBlock same as bs
        obtain ⟨hfirst, hsecond⟩ := hlongest.first_add_length_le (Nat.pos_of_ne_zero hpos)
        generalize longestBlock same as bs = block at hlongest hfirst hsecond ⊢
        have hkept : Divides same ((as.drop block.first).take block.length)
            ((bs.drop block.second).take block.length)
            [.keep (((as.drop block.first).take block.length).zip
              ((bs.drop block.second).take block.length))] := by
          apply divides_keep
          · simp only [List.length_take, List.length_drop]
            omega
          · exact fun p hp => same_of_mem_zip_take (Nat.le_of_eq hlongest.length_eq) hp
        -- the parts before, in and after the block make up each sequence
        have hall := (ih (as.take block.first) (bs.take block.second)).append
          (hkept.append (ih (as.drop (block.first + block.length))
            (bs.drop (block.second + block.length))))
        rw [← List.drop_drop, ← List.drop_drop, List.take_append_drop, List.take_append_drop,
          List.take_append_drop, List.take_append_drop] at hall
        rw [← List.drop_drop, ← List.drop_drop]
        exact hall

/-! ## The share of kept elements -/

theorem Step.common_le (step : Step α β) :
    step.common ≤ step.old.length ∧ step.common ≤ step.new.length := by
  cases step with
  | keep pairs => simp [Step.common, Step.old, Step.new]
  | change old new => simp [Step.common]

theorem Divides.matched_le {as : List α} {bs : List β} {steps : List (Step α β)}
    (h : Divides same as bs steps) : matched steps ≤ as.length ∧ matched steps ≤ bs.length := by
  rw [← h.old, ← h.new]
  clear h
  induction steps with
  | nil => simp [matched]
  | cons step steps ih =>
      obtain ⟨hold, hnew⟩ := step.common_le
      have hcons : matched (step :: steps) = step.common + matched steps := rfl
      rw [hcons, List.flatMap_cons, List.flatMap_cons, List.length_append, List.length_append]
      omega

theorem ratio_mem_unit [BEq α] (as bs : List α) : 0 ≤ ratio as bs ∧ ratio as bs ≤ 1 := by
  obtain ⟨hleft, hright⟩ := (divides_alignWithin (· == ·) as.length as bs).matched_le
  unfold ratio share
  split
  · exact ⟨rfl.le.trans' (by decide), le_refl 1⟩
  · apply Number.divide_mem_unit
    · exact_mod_cast Nat.zero_le _
    · have hle : 2 * matched (align (· == ·) as bs) ≤ as.length + bs.length := by
        unfold align
        omega
      exact_mod_cast hle

end CodeHealth.Alignment
