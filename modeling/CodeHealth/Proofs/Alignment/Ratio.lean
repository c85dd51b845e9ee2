import CodeHealth.Proofs.Alignment.Align
import CodeHealth.Proofs.Number.Order
import CodeHealth.Proofs.Tally.Overlap

/-!
# Bounds of the ratio

What an alignment keeps is part of both sequences, and in any order they share no more elements than
the shorter of them has. So the ratio is at most the quick one, and that at most the one of the
lengths. Only the ratio itself can depend on the order of the sequences.
-/

namespace CodeHealth.Alignment

variable {α β : Type}

/-! ## What an alignment keeps -/

/-- The elements of the first sequence that a step keeps. -/
def Step.kept : Step α β → List α
  | .keep pairs => pairs.map Prod.fst
  | .change _ _ => []

theorem length_flatMap_kept (steps : List (Step α β)) :
    (steps.flatMap Step.kept).length = matched steps := by
  induction steps with
  | nil => rfl
  | cons step steps ih =>
      have hcons : matched (step :: steps) = step.common + matched steps := rfl
      rw [List.flatMap_cons, List.length_append, ih, hcons]
      cases step <;> simp [Step.kept, Step.common]

theorem Step.kept_sublist_old (step : Step α β) : step.kept.Sublist step.old := by
  cases step with
  | keep pairs => exact List.Sublist.refl _
  | change old new => exact List.nil_sublist _

theorem Step.Sound.kept_sublist_new [DecidableEq α] {step : Step α α}
    (h : step.Sound (· == ·)) : step.kept.Sublist step.new := by
  cases step with
  | keep pairs =>
      have hsame : pairs.map Prod.fst = pairs.map Prod.snd :=
        List.map_congr_left fun p hp => beq_iff_eq.mp (h p hp)
      rw [Step.kept, Step.new, hsame]
  | change old new => exact List.nil_sublist _

theorem flatMap_sublist {f g : Step α β → List α} {steps : List (Step α β)}
    (h : ∀ step ∈ steps, (f step).Sublist (g step)) :
    (steps.flatMap f).Sublist (steps.flatMap g) := by
  induction steps with
  | nil => exact List.Sublist.refl _
  | cons step steps ih =>
      rw [List.flatMap_cons, List.flatMap_cons]
      exact (h step List.mem_cons_self).append (ih fun s hs => h s (List.mem_cons_of_mem _ hs))

/-- What an alignment keeps stands in both sequences in its order. -/
theorem Divides.exists_common [DecidableEq α] {as bs : List α} {steps : List (Step α α)}
    (h : Divides (· == ·) as bs steps) :
    ∃ common : List α, common.length = matched steps ∧ common.Sublist as ∧ common.Sublist bs := by
  refine ⟨steps.flatMap Step.kept, length_flatMap_kept steps, ?_, ?_⟩
  · rw [← h.old]
    exact flatMap_sublist fun step _ => step.kept_sublist_old
  · rw [← h.new]
    exact flatMap_sublist fun step hstep => (h.sound step hstep).kept_sublist_new

/-! ## Shares -/

theorem share_mono {common common' total : Nat} (h : common ≤ common') :
    share common total ≤ share common' total := by
  unfold share
  split
  · exact le_refl 1
  · apply Number.divide_mono
    · exact div_le_div_of_nonneg_right (by exact_mod_cast Nat.mul_le_mul_left 2 h)
        (Nat.cast_nonneg _)
    · exact div_nonneg (Nat.cast_nonneg _) (Nat.cast_nonneg _)

variable [DecidableEq α]

theorem ratio_le_quickRatio (as bs : List α) : ratio as bs ≤ quickRatio as bs := by
  obtain ⟨common, hlength, has, hbs⟩ :=
    (divides_alignWithin (· == ·) as.length as bs).exists_common
  have hle := Tally.length_le_total_inter has hbs
  rw [hlength] at hle
  unfold ratio quickRatio align
  apply share_mono
  omega

theorem quickRatio_le_lengthRatio (as bs : List α) : quickRatio as bs ≤ lengthRatio as bs := by
  have hle := ((Tally.proper_ofList as).total_bounds (Tally.proper_ofList bs)).1
  rw [Tally.total_ofList, Tally.total_ofList] at hle
  unfold quickRatio lengthRatio
  apply share_mono
  omega

/-! ## The other order -/

theorem quickRatio_comm (as bs : List α) : quickRatio as bs = quickRatio bs as := by
  unfold quickRatio
  rw [(Tally.proper_ofList as).total_inter_comm (Tally.proper_ofList bs), Nat.add_comm]

omit [DecidableEq α] in
theorem lengthRatio_comm (as bs : List α) : lengthRatio as bs = lengthRatio bs as := by
  unfold lengthRatio
  rw [Nat.min_comm, Nat.add_comm]

end CodeHealth.Alignment
