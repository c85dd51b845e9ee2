import CodeHealth.Number.Rounding
import Mathlib.Algebra.Order.Field.Power
import Mathlib.Data.Rat.Floor
import Mathlib.Tactic.Linarith
import Mathlib.Tactic.Positivity

/-!
# Bounds of rounded numbers

Rounding never leaves a range between whole numbers. For 53-bit numbers this holds up to `2 ^ 53`,
since up to there the last bit divides every whole number.
-/

namespace CodeHealth.Number

variable {q : Rat} {n : Nat}

/-! ## Whole numbers -/

theorem le_roundHalfEven {a : Int} (h : (a : Rat) ≤ q) : a ≤ roundHalfEven q := by
  have hfloor : a ≤ q.floor := Rat.le_floor_iff.mpr h
  unfold roundHalfEven
  dsimp only
  split
  · exact hfloor
  · split
    · omega
    · split <;> omega

theorem roundHalfEven_le {b : Int} (h : q ≤ (b : Rat)) : roundHalfEven q ≤ b := by
  have hfloor : q.floor ≤ b := by
    have := Rat.floor_monotone h
    rwa [Rat.floor_intCast] at this
  unfold roundHalfEven
  dsimp only
  by_cases heq : q.floor = b
  · -- nothing is left beyond the bound
    have hrest : q - q.floor < 1 / 2 := by
      rw [heq]
      linarith
    rw [if_pos hrest]
    exact hfloor
  · split
    · exact hfloor
    · split
      · omega
      · split <;> omega

/-! ## Powers of two -/

theorem power_two_pos (e : Int) : 0 < power 2 e := by
  unfold power
  positivity

theorem power_two_add (a b : Int) : power 2 (a + b) = power 2 a * power 2 b := by
  unfold power
  rw [zpow_add₀ (by norm_num)]

theorem power_two_neg (e : Int) : power 2 (-e) = (power 2 e)⁻¹ := by
  unfold power
  rw [zpow_neg]

theorem power_two_natCast (n : Nat) : power 2 n = (2 ^ n : Nat) := by
  unfold power
  rw [zpow_natCast]
  push_cast
  rfl

theorem power_two_lt_iff {a b : Int} : power 2 a < power 2 b ↔ a < b := by
  unfold power
  exact zpow_lt_zpow_iff_right₀ (by norm_num)

/-- A positive number is at least the power of two of its magnitude. -/
theorem power_binaryExponent_le (hq : 0 < q) : power 2 (binaryExponent q) ≤ q := by
  unfold binaryExponent
  dsimp only
  split
  · assumption
  · have hnum : 0 < q.num := Rat.num_pos.mpr hq
    have hlow : (2 ^ q.num.natAbs.log2 : Nat) ≤ q.num.natAbs := Nat.log2_self_le (by omega)
    have hhigh : q.den < 2 ^ (q.den.log2 + 1) := Nat.lt_log2_self
    have hexp : (q.num.natAbs.log2 : Int) - (q.den.log2 : Int) - 1 =
        (q.num.natAbs.log2 : Int) + -((q.den.log2 + 1 : Nat) : Int) := by
      push_cast
      ring
    have hcast : ((q.num.natAbs : Nat) : Rat) = q.num := by
      rw [Nat.cast_natAbs, abs_of_pos hnum]
    calc power 2 ((q.num.natAbs.log2 : Int) - (q.den.log2 : Int) - 1)
        = ((2 ^ q.num.natAbs.log2 : Nat) : Rat) / ((2 ^ (q.den.log2 + 1) : Nat) : Rat) := by
          rw [hexp, power_two_add, power_two_natCast, power_two_neg, power_two_natCast,
            div_eq_mul_inv]
      _ ≤ (q.num.natAbs : Rat) / (q.den : Rat) := by
          apply div_le_div₀ (by positivity) (by exact_mod_cast hlow)
          · exact_mod_cast q.den_pos
          · exact_mod_cast hhigh.le
      _ = q := by rw [hcast, Rat.num_div_den]

/-- Up to `2 ^ 53` the last bit divides one. -/
theorem exists_natCast_mul_lastBit (hq : 0 < q) (h : q < 2 ^ 53) :
    ∃ k : Nat, (k : Rat) * lastBit q = 1 := by
  have hle := power_binaryExponent_le hq
  have hexp : binaryExponent q < 53 := by
    rw [← power_two_lt_iff]
    have h53 : power 2 53 = 2 ^ 53 := power_two_natCast 53
    rw [h53]
    exact hle.trans_lt h
  obtain ⟨e, he⟩ : ∃ e : Nat, max (binaryExponent q - 52) (-1074) = -(e : Int) :=
    ⟨(-(max (binaryExponent q - 52) (-1074))).toNat, by omega⟩
  refine ⟨2 ^ e, ?_⟩
  rw [lastBit, he, ← power_two_natCast, ← power_two_add]
  simp [power]

/-! ## 53-bit numbers -/

theorem nearest_of_pos (hq : 0 < q) :
    nearest q = roundHalfEven (q / lastBit q) * lastBit q := by
  unfold nearest
  rw [if_neg (by simpa using hq.ne'), Rat.abs_of_nonneg hq.le]

theorem nearest_nonneg (h : 0 ≤ q) : 0 ≤ nearest q := by
  rcases h.eq_or_lt with rfl | hq
  · exact le_refl 0
  · have hunit : 0 < lastBit q := power_two_pos _
    have hround : (0 : Int) ≤ roundHalfEven (q / lastBit q) := by
      apply le_roundHalfEven
      push_cast
      positivity
    rw [nearest_of_pos hq]
    exact mul_nonneg (by exact_mod_cast hround) hunit.le

theorem nearest_le (h : 0 ≤ q) (hle : q ≤ n) (hn : n < 2 ^ 53) : nearest q ≤ n := by
  rcases h.eq_or_lt with rfl | hq
  · exact hle
  · have hlt : q < 2 ^ 53 := hle.trans_lt (by exact_mod_cast hn)
    obtain ⟨k, hk⟩ := exists_natCast_mul_lastBit hq hlt
    have hunit : 0 < lastBit q := power_two_pos _
    have hround : roundHalfEven (q / lastBit q) ≤ (n * k : Nat) := by
      apply roundHalfEven_le
      rw [div_le_iff₀ hunit]
      push_cast
      rw [mul_assoc, hk, mul_one]
      exact hle
    have hcast : ((roundHalfEven (q / lastBit q) : Int) : Rat) ≤ n * k := by exact_mod_cast hround
    rw [nearest_of_pos hq]
    calc (roundHalfEven (q / lastBit q) : Rat) * lastBit q
        ≤ n * k * lastBit q := mul_le_mul_of_nonneg_right hcast hunit.le
      _ = n := by rw [mul_assoc, hk, mul_one]

/-- Whole numbers below `2 ^ 53` are kept. -/
theorem nearest_natCast (hn : n < 2 ^ 53) : nearest n = n := by
  apply le_antisymm (nearest_le (Nat.cast_nonneg n) le_rfl hn)
  rcases Nat.eq_zero_or_pos n with rfl | hpos
  · exact nearest_nonneg le_rfl
  · have hq : (0 : Rat) < n := by exact_mod_cast hpos
    obtain ⟨k, hk⟩ := exists_natCast_mul_lastBit hq (by exact_mod_cast hn)
    have hunit : 0 < lastBit n := power_two_pos _
    have hround : (n * k : Nat) ≤ roundHalfEven (n / lastBit n) := by
      apply le_roundHalfEven
      rw [le_div_iff₀ hunit]
      push_cast
      rw [mul_assoc, hk, mul_one]
    have hcast : (n * k : Rat) ≤ (roundHalfEven (n / lastBit n) : Int) := by exact_mod_cast hround
    rw [nearest_of_pos hq]
    calc (n : Rat) = n * k * lastBit n := by rw [mul_assoc, hk, mul_one]
      _ ≤ (roundHalfEven (n / lastBit n) : Rat) * lastBit n :=
        mul_le_mul_of_nonneg_right hcast hunit.le

/-- The share of a part in a whole is at most one. -/
theorem divide_mem_unit {a b : Rat} (ha : 0 ≤ a) (hab : a ≤ b) :
    0 ≤ divide a b ∧ divide a b ≤ 1 := by
  have hb : 0 ≤ b := ha.trans hab
  have hle : a / b ≤ (1 : Nat) := by
    rw [Nat.cast_one]
    exact div_le_one_of_le₀ hab hb
  have hnonneg : 0 ≤ a / b := div_nonneg ha hb
  refine ⟨nearest_nonneg hnonneg, ?_⟩
  have hnearest := nearest_le hnonneg hle (by norm_num)
  rwa [Nat.cast_one] at hnearest

theorem roundTo_mem_unit (places : Nat) (h : 0 ≤ q) (hle : q ≤ 1) :
    0 ≤ roundTo places q ∧ roundTo places q ≤ 1 := by
  have hpow : power 10 places = ((10 ^ places : Nat) : Rat) := by
    unfold power
    rw [zpow_natCast]
    push_cast
    rfl
  have hlow : (0 : Int) ≤ roundHalfEven (q * power 10 places) := by
    apply le_roundHalfEven
    rw [hpow]
    push_cast
    positivity
  have hhigh : roundHalfEven (q * power 10 places) ≤ (10 ^ places : Nat) := by
    apply roundHalfEven_le
    rw [hpow]
    exact_mod_cast mul_le_of_le_one_left (by positivity) hle
  rw [hpow] at hlow hhigh
  unfold roundTo
  rw [hpow]
  apply divide_mem_unit
  · exact_mod_cast hlow
  · exact_mod_cast hhigh

end CodeHealth.Number
