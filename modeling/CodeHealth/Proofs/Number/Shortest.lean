import CodeHealth.Number.Shortest
import CodeHealth.Proofs.Number.Exact
import Mathlib.Data.Nat.Digits.Defs

/-!
# Shortest decimals read back

Every finite 53-bit number has a decimal of at most 17 digits that is rounded to it, so the shortest
one is found, and rounding it gives the number back.
-/

namespace CodeHealth.Number

variable {q : Rat} {d : Decimal}

/-! ## Powers of ten -/

theorem power_ten_pos (e : Int) : 0 < power 10 e := by
  unfold power
  positivity

theorem power_ten_add (a b : Int) : power 10 (a + b) = power 10 a * power 10 b := by
  unfold power
  rw [zpow_add₀ (by norm_num)]

theorem power_ten_natCast (n : Nat) : power 10 n = (10 ^ n : Nat) := by
  unfold power
  rw [zpow_natCast]
  push_cast
  rfl

theorem power_ten_lt_iff {a b : Int} : power 10 a < power 10 b ↔ a < b := by
  unfold power
  exact zpow_lt_zpow_iff_right₀ (by norm_num)

theorem power_two_le_power_ten (n : Nat) : power 2 (3 * n : Nat) ≤ power 10 n := by
  rw [power_two_natCast, power_ten_natCast, pow_mul]
  exact_mod_cast Nat.pow_le_pow_left (by norm_num) n

theorem power_ten_le_power_two (n : Nat) : power 10 (-n) ≤ power 2 (-(3 * n : Nat)) := by
  unfold power
  rw [zpow_neg, zpow_neg]
  exact inv_anti₀ (power_two_pos _) (power_two_le_power_ten n)

/-! ## The magnitude -/

theorem lt_pow_length_toDigits (n : Nat) : n < 10 ^ (Nat.toDigits 10 n).length :=
  (Nat.length_toDigits_le_iff (by norm_num) Nat.length_toDigits_pos).mp le_rfl

theorem pow_length_toDigits_le {n : Nat} (hn : 0 < n) :
    10 ^ ((Nat.toDigits 10 n).length - 1) ≤ n := by
  by_contra hlt
  rcases Nat.eq_zero_or_pos ((Nat.toDigits 10 n).length - 1) with hzero | hpos
  · rw [hzero] at hlt
    omega
  · have hle := (Nat.length_toDigits_le_iff (by norm_num) hpos).mpr (not_le.mp hlt)
    omega

theorem power_decimalExponent_le (h : power 10 (-400) ≤ q) : power 10 (decimalExponent q) ≤ q := by
  unfold decimalExponent
  split
  · rename_i hone
    have hfloor : 1 ≤ q.floor := Rat.le_floor_iff.mpr (by exact_mod_cast hone)
    have hlength := Nat.length_toDigits_pos (b := 10) (n := q.floor.toNat)
    have hexp : ((Nat.toDigits 10 q.floor.toNat).length : Int) - 1 =
        ((Nat.toDigits 10 q.floor.toNat).length - 1 : Nat) := by omega
    have hnat := pow_length_toDigits_le (n := q.floor.toNat) (by omega)
    have hcast : ((q.floor.toNat : Nat) : Rat) = q.floor := by
      exact_mod_cast Int.toNat_of_nonneg (by omega)
    rw [hexp, power_ten_natCast]
    calc ((10 ^ ((Nat.toDigits 10 q.floor.toNat).length - 1) : Nat) : Rat)
        ≤ (q.floor.toNat : Nat) := by exact_mod_cast hnat
      _ = q.floor := hcast
      _ ≤ q := Rat.floor_le q
  · split
    · rename_i places hplaces
      have hone : 1 ≤ q * power 10 places := by simpa using List.find?_some hplaces
      have hpow := power_ten_pos places
      have hneg : power 10 (-places) = (power 10 places)⁻¹ := by
        unfold power
        rw [zpow_neg]
      rw [hneg, inv_le_iff_one_le_mul₀ hpow]
      exact hone
    · exact h

/-- Every positive 53-bit number has a magnitude that is found. -/
theorem power_le_of_nearest_eq_self (hkeep : nearest q = q) (hq : 0 < q) :
    power 10 (-400) ≤ q := by
  calc power 10 (-400) ≤ power 2 (-(3 * 400 : Nat)) := power_ten_le_power_two 400
    _ ≤ lastBit q := power_two_le_iff.mpr (by omega)
    _ ≤ q := lastBit_le hkeep hq

/-! ## Decimals that read back -/

theorem nearest_value_of_withDigits? {count : Nat} (h : withDigits? q count = some d) :
    nearest d.value = q := by
  have hfound := List.find?_some h
  exact eq_of_beq hfound

/-- Seventeen digits are enough. -/
theorem isSome_withDigits? (hkeep : nearest q = q) (hq : 0 < q) :
    (withDigits? q 17).isSome := by
  have hexp := power_decimalExponent_le (power_le_of_nearest_eq_self hkeep hq)
  obtain ⟨e, he⟩ : ∃ e, decimalExponent q = 16 + e := ⟨_, (add_sub_cancel 16 _).symm⟩
  have h16 : power 10 16 = 10 ^ 16 := power_ten_natCast 16
  rw [he, power_ten_add, h16] at hexp
  have hunit := power_ten_pos e
  have hnonneg : 0 ≤ roundHalfEven (q / power 10 e) :=
    le_roundHalfEven (by exact_mod_cast (div_pos hq hunit).le)
  have hcast : (((roundHalfEven (q / power 10 e)).toNat : Nat) : Rat) =
      roundHalfEven (q / power 10 e) := by
    exact_mod_cast Int.toNat_of_nonneg hnonneg
  unfold withDigits?
  dsimp only
  rw [he, show (16 + e - ((17 - 1 : Nat) : Int)) = e by omega, List.find?_isSome]
  refine ⟨_, List.mem_map_of_mem List.mem_cons_self, ?_⟩
  -- the nearer neighbour is at most half a unit of the last digit away
  have hclose := abs_roundHalfEven_mul_sub_le (q := q) hunit
  rw [beq_iff_eq]
  apply nearest_eq_of_close hkeep hq
  rw [Decimal.value, hcast]
  linarith

theorem Decimal.value_trimZeros (d : Decimal) (fuel : Nat) :
    (d.trimZeros fuel).value = d.value := by
  induction fuel generalizing d with
  | zero => rfl
  | succ fuel ih =>
      unfold Decimal.trimZeros
      split
      · rename_i h
        have hmod : d.digits % 10 = 0 := by
          simp only [Bool.and_eq_true, beq_iff_eq] at h
          exact h.2
        have hdigits : (d.digits : Rat) = (d.digits / 10 : Nat) * 10 := by
          exact_mod_cast (Nat.div_mul_cancel (Nat.dvd_of_mod_eq_zero hmod)).symm
        have hten : power 10 1 = 10 := by norm_num [power]
        rw [ih, Decimal.value, Decimal.value, power_ten_add, hten, hdigits]
        ring
      · rfl

/-- The shortest decimal of a positive 53-bit number is rounded to it. -/
theorem nearest_shortest (hkeep : nearest q = q) (hq : 0 < q) :
    nearest (shortest q).value = q := by
  obtain ⟨d, hd⟩ :
      ∃ d, ((List.range 17).findSome? fun fewer => withDigits? q (fewer + 1)) = some d :=
    Option.isSome_iff_exists.mp (List.findSome?_isSome_iff.mpr
      ⟨16, List.mem_range.mpr (by norm_num), isSome_withDigits? hkeep hq⟩)
  obtain ⟨fewer, -, hfewer⟩ := List.exists_of_findSome?_eq_some hd
  unfold shortest
  rw [hd]
  dsimp only
  rw [Decimal.value_trimZeros]
  exact nearest_value_of_withDigits? hfewer

end CodeHealth.Number
