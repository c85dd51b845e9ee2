import CodeHealth.Proofs.Number.Exact
import CodeHealth.Score

/-!
# Laws of the quality score

A score does not depend on the order of the severities. Only a weight per file beyond every finite
number leaves a run without one, and with weights that 53 bits can count that takes more than
`2 ^ 970` issues.
-/

namespace CodeHealth

open Number

theorem Datum.of_mem_setMember {α : Type} {members : List (String × α)} {name : String}
    {value : α} {m : String × α} (h : m ∈ setMember members name value) :
    m ∈ members ∨ m.2 = value := by
  unfold setMember at h
  split at h
  · obtain ⟨old, hold, rfl⟩ := List.mem_map.mp h
    split
    · exact Or.inr rfl
    · exact Or.inl hold
  · rcases List.mem_append.mp h with hold | hnew
    · exact Or.inl hold
    · exact Or.inr (congrArg Prod.snd (List.mem_singleton.mp hnew))

namespace Scorer

variable {scorer : Scorer} {severities severities' : List Severity}
  {given weights : List (String × Int)} {bound : Int}

theorem weightedSum_perm (h : severities.Perm severities') :
    scorer.weightedSum severities = scorer.weightedSum severities' := by
  induction h with
  | nil => rfl
  | cons severity _ ih => exact congrArg (scorer.weight severity + ·) ih
  | swap => exact Int.add_left_comm _ _ _
  | trans _ _ ih ih' => exact ih.trans ih'

theorem score?_perm (h : severities.Perm severities') (files : Int) :
    scorer.score? severities files = scorer.score? severities' files := by
  rw [score?, score?, weightedSum_perm h]

/-! ## Bounds on weights -/

theorem abs_le_of_mem_foldl (hweights : ∀ w ∈ weights, |w.2| ≤ bound)
    (hgiven : ∀ w ∈ given, |w.2| ≤ bound) :
    ∀ w ∈ given.foldl (fun weights w => Datum.setMember weights w.1 w.2) weights,
      |w.2| ≤ bound := by
  induction given generalizing weights with
  | nil => exact hweights
  | cons first given ih =>
      refine ih (fun w hw => ?_) fun w hw => hgiven w (List.mem_cons_of_mem first hw)
      rcases Datum.of_mem_setMember hw with hold | hset
      · exact hweights w hold
      · rw [hset]
        exact hgiven first List.mem_cons_self

/-- A severity weighs nothing, or what is given for it, or its standard weight. -/
theorem abs_weight_ofWeights_le (hbound : 10 ≤ bound) (hgiven : ∀ w ∈ given, |w.2| ≤ bound)
    (severity : Severity) : |(ofWeights given).weight severity| ≤ bound := by
  have hstandard : ∀ w ∈ defaultSeverityWeights, |w.2| ≤ 10 := by decide
  have hall := abs_le_of_mem_foldl (fun w hw => (hstandard w hw).trans hbound) hgiven
  unfold weight
  cases hfound : (ofWeights given).weights.find? fun w => w.1 == severity.tag with
  | none =>
      rw [Option.map_none, Option.getD_none, abs_zero]
      omega
  | some w => exact hall w (List.mem_of_find?_eq_some hfound)

theorem abs_weightedSum_le (h : ∀ severity, |scorer.weight severity| ≤ bound)
    (severities : List Severity) :
    |scorer.weightedSum severities| ≤ severities.length * bound := by
  induction severities with
  | nil => simp [weightedSum]
  | cons severity rest ih =>
      have hfirst := h severity
      calc |scorer.weight severity + scorer.weightedSum rest|
          ≤ |scorer.weight severity| + |scorer.weightedSum rest| := abs_add_le _ _
        _ ≤ (severity :: rest).length * bound := by
            rw [List.length_cons, Nat.cast_succ, add_mul, one_mul]
            omega

/-! ## Scores -/

/-- A sum of weights within the finite numbers gives a score, for whatever number of files. -/
theorem exists_score?_of_abs_le
    (h : |(scorer.weightedSum severities : Rat)| ≤ power 2 1023) (files : Int) :
    ∃ score, scorer.score? severities files = some score := by
  have hfiles : (1 : Rat) ≤ (max 1 files : Int) := by
    exact_mod_cast le_max_left 1 files
  have hpenalty : |(scorer.weightedSum severities / (max 1 files : Int) : Rat)| ≤
      power 2 1023 := by
    rw [abs_div, abs_of_pos (a := ((max 1 files : Int) : Rat)) (by linarith),
      div_le_iff₀ (by linarith)]
    exact h.trans (le_mul_of_one_le_right (power_two_pos 1023).le hfiles)
  obtain ⟨penalty, hfinite⟩ := exists_finite?_of_abs_le hpenalty
  exact ⟨_, by rw [score?, hfinite, Option.map_some]⟩

/-- Weights that 53 bits can count have a finite sum over up to `2 ^ 970` issues. -/
theorem exists_score?_of_length_le (hgiven : ∀ w ∈ given, |w.2| ≤ 2 ^ 53)
    (hlength : severities.length ≤ 2 ^ 970) (files : Int) :
    ∃ score, (ofWeights given).score? severities files = some score := by
  have hsum := abs_weightedSum_le (abs_weight_ofWeights_le (by norm_num) hgiven) severities
  have hcount : (severities.length : Rat) ≤ power 2 970 := by
    rw [show power 2 970 = ((2 ^ 970 : Nat) : Rat) from power_two_natCast 970]
    exact Nat.cast_le.mpr hlength
  have hweight : power 2 53 = 2 ^ 53 := power_two_natCast 53
  apply exists_score?_of_abs_le
  calc |((ofWeights given).weightedSum severities : Rat)|
      ≤ severities.length * 2 ^ 53 := by exact_mod_cast hsum
    _ ≤ power 2 970 * power 2 53 := by
        rw [← hweight]
        exact mul_le_mul_of_nonneg_right hcount (power_two_pos 53).le
    _ = power 2 1023 := (power_two_add 970 53).symm

end Scorer

end CodeHealth
