import CodeHealth.Number.Literal
import CodeHealth.Proofs.Number.Rounding

/-!
# Rounding and order

A larger number is never rounded to a smaller one: not to a whole number, and not to a 53-bit number
either, even if the two numbers are rounded at different bits.
-/

namespace CodeHealth.Number

variable {p q : Rat}

/-! ## Whole numbers -/

theorem floor_le_roundHalfEven (q : Rat) : q.floor ≤ roundHalfEven q := by
  unfold roundHalfEven
  dsimp only
  split
  · exact le_refl _
  · split
    · omega
    · split <;> omega

theorem roundHalfEven_le_floor_succ (q : Rat) : roundHalfEven q ≤ q.floor + 1 := by
  unfold roundHalfEven
  dsimp only
  split
  · omega
  · split
    · exact le_refl _
    · split <;> omega

theorem roundHalfEven_mono (h : p ≤ q) : roundHalfEven p ≤ roundHalfEven q := by
  have hfloor := Rat.floor_monotone h
  rcases hfloor.lt_or_eq with hlt | heq
  · have hp := roundHalfEven_le_floor_succ p
    have hq := floor_le_roundHalfEven q
    omega
  · -- what is left beyond the same whole number decides
    have hrest : p - p.floor ≤ q - p.floor := by linarith
    unfold roundHalfEven
    simp only [← heq]
    split
    · split
      · exact le_refl _
      · split
        · omega
        · split <;> omega
    · rename_i hp
      rw [if_neg (fun hq => hp (hrest.trans_lt hq))]
      split
      · rename_i hp
        rw [if_pos (hp.trans_le hrest)]
      · split
        · split
          · omega
          · exact le_refl _
        · split <;> exact le_refl _

/-! ## Magnitudes -/

/-- A positive number is below the next power of two above its magnitude. -/
theorem lt_power_binaryExponent (hq : 0 < q) : q < power 2 (binaryExponent q + 1) := by
  have hnum : 0 < q.num := Rat.num_pos.mpr hq
  have hlow : (2 ^ q.den.log2 : Nat) ≤ q.den := Nat.log2_self_le q.den_pos.ne'
  have hhigh : q.num.natAbs < 2 ^ (q.num.natAbs.log2 + 1) := Nat.lt_log2_self
  have hcast : ((q.num.natAbs : Nat) : Rat) = q.num := by
    rw [Nat.cast_natAbs, abs_of_pos hnum]
  unfold binaryExponent
  dsimp only
  split
  · have hexp : (q.num.natAbs.log2 : Int) - (q.den.log2 : Int) + 1 =
        ((q.num.natAbs.log2 + 1 : Nat) : Int) + -(q.den.log2 : Int) := by
      push_cast
      ring
    calc q = (q.num.natAbs : Rat) / (q.den : Rat) := by rw [hcast, Rat.num_div_den]
      _ < ((2 ^ (q.num.natAbs.log2 + 1) : Nat) : Rat) / ((2 ^ q.den.log2 : Nat) : Rat) := by
          apply div_lt_div₀ (by exact_mod_cast hhigh) (by exact_mod_cast hlow)
          · positivity
          · positivity
      _ = power 2 ((q.num.natAbs.log2 : Int) - (q.den.log2 : Int) + 1) := by
          rw [hexp, power_two_add, power_two_natCast, power_two_neg, power_two_natCast,
            div_eq_mul_inv]
  · rename_i hlt
    rw [Int.sub_add_cancel]
    exact not_le.mp hlt

theorem binaryExponent_mono (hp : 0 < p) (h : p ≤ q) : binaryExponent p ≤ binaryExponent q := by
  have hlt : power 2 (binaryExponent p) < power 2 (binaryExponent q + 1) :=
    (power_binaryExponent_le hp).trans_lt (h.trans_lt (lt_power_binaryExponent (hp.trans_le h)))
  have := power_two_lt_iff.mp hlt
  omega

/-- Where the last bit is no larger than a power of two, rounding does not cross that power. -/
theorem exists_natCast_mul_power {a b : Int} (h : a ≤ b) :
    ∃ k : Int, power 2 b = k * power 2 a := by
  refine ⟨2 ^ (b - a).toNat, ?_⟩
  have hsplit : power 2 b = power 2 (b - a) * power 2 a := by
    rw [← power_two_add]
    congr 1
    omega
  have hnat : power 2 (b - a) = power 2 ((b - a).toNat : Int) := by
    congr 1
    omega
  rw [hsplit, hnat, power_two_natCast]
  push_cast
  rfl

/-! ## 53-bit numbers -/

theorem nearest_le_power {e : Int} (hq : 0 < q) (h : q ≤ power 2 e)
    (hbit : max (binaryExponent q - 52) (-1074) ≤ e) : nearest q ≤ power 2 e := by
  obtain ⟨k, hk⟩ := exists_natCast_mul_power hbit
  have hunit : 0 < lastBit q := power_two_pos _
  have hround : roundHalfEven (q / lastBit q) ≤ k := by
    apply roundHalfEven_le
    rw [div_le_iff₀ hunit]
    exact h.trans hk.le
  rw [nearest_of_pos hq, hk]
  exact mul_le_mul_of_nonneg_right (by exact_mod_cast hround) hunit.le

theorem power_le_nearest {e : Int} (hq : 0 < q) (h : power 2 e ≤ q)
    (hbit : max (binaryExponent q - 52) (-1074) ≤ e) : power 2 e ≤ nearest q := by
  obtain ⟨k, hk⟩ := exists_natCast_mul_power hbit
  have hunit : 0 < lastBit q := power_two_pos _
  have hround : k ≤ roundHalfEven (q / lastBit q) := by
    apply le_roundHalfEven
    rw [le_div_iff₀ hunit]
    exact hk.ge.trans h
  rw [nearest_of_pos hq, hk]
  exact mul_le_mul_of_nonneg_right (by exact_mod_cast hround) hunit.le

/-- A larger number is not rounded to a smaller one. -/
theorem nearest_mono (hp : 0 ≤ p) (h : p ≤ q) : nearest p ≤ nearest q := by
  rcases hp.eq_or_lt with rfl | hp
  · exact nearest_nonneg h
  have hq := hp.trans_le h
  have hexp := binaryExponent_mono hp h
  rcases (max_le_max_right (-1074) (Int.sub_le_sub_right hexp 52)).eq_or_lt with hsame | hbelow
  · -- both are rounded at the same bit
    have hbit : lastBit p = lastBit q := congrArg (power 2) hsame
    have hunit : 0 < lastBit q := power_two_pos _
    rw [nearest_of_pos hp, nearest_of_pos hq, hbit]
    apply mul_le_mul_of_nonneg_right _ hunit.le
    exact_mod_cast roundHalfEven_mono (div_le_div_of_nonneg_right h hunit.le)
  · -- a power of two lies between them
    have hlow := power_binaryExponent_le hq
    have hhigh : p ≤ power 2 (binaryExponent q) := by
      have hlt := lt_power_binaryExponent hp
      have hle : binaryExponent p + 1 ≤ binaryExponent q := by omega
      rcases hle.eq_or_lt with heq | hlt'
      · exact heq ▸ hlt.le
      · exact (hlt.trans (power_two_lt_iff.mpr hlt')).le
    exact (nearest_le_power hp hhigh (by omega)).trans (power_le_nearest hq hlow (by omega))

/-- A 53-bit number that a number reaches is reached by its rounded value, and where rounding alone
reaches it, it is met exactly. -/
theorem le_nearest_iff {t : Rat} (ht : nearest t = t) (hq : 0 ≤ q) (hpos : 0 ≤ t) :
    t ≤ nearest q ↔ t ≤ q ∨ nearest q = t := by
  constructor
  · intro h
    by_cases hle : t ≤ q
    · exact Or.inl hle
    · have hround := nearest_mono hq (not_le.mp hle).le
      rw [ht] at hround
      exact Or.inr (le_antisymm hround h)
  · rintro (h | h)
    · exact ht.ge.trans (nearest_mono hpos h)
    · exact h.ge

/-- The largest 53-bit number below one. -/
def belowOne : Rat :=
  (2 ^ 53 - 1) / 2 ^ 53

theorem nearest_belowOne : nearest belowOne = belowOne := by
  decide +kernel

/-- A proper fraction of a whole that 53 bits can count is not rounded up to one. -/
theorem divide_lt_one {a b : Int} (ha : 0 ≤ a) (hab : a < b) (hb : b ≤ 2 ^ 53) :
    divide a b < 1 := by
  have hpos : (0 : Rat) < b := by exact_mod_cast ha.trans_lt hab
  have hle : (a : Rat) / b ≤ belowOne := by
    have hnum : (a : Rat) ≤ b - 1 := by exact_mod_cast Int.le_sub_one_of_lt hab
    have hden : (b : Rat) ≤ 2 ^ 53 := by exact_mod_cast hb
    unfold belowOne
    rw [div_le_div_iff₀ hpos (by norm_num)]
    linarith
  have hround := nearest_mono (div_nonneg (by exact_mod_cast ha) hpos.le) hle
  rw [nearest_belowOne] at hround
  exact hround.trans_lt (by norm_num [belowOne])

theorem divide_mono {a b c d : Rat} (h : a / b ≤ c / d) (hnonneg : 0 ≤ a / b) :
    divide a b ≤ divide c d :=
  nearest_mono hnonneg h

/-! ## Readings -/

@[simp] theorem Reading.lt_finite_iff :
    (Reading.finite p).lt (.finite q) = true ↔ p < q :=
  decide_eq_true_iff

@[simp] theorem Reading.le_finite_iff :
    (Reading.finite p).le (.finite q) = true ↔ p ≤ q :=
  decide_eq_true_iff

/-- What is at most a number is not above a larger one. -/
theorem Reading.lt_eq_false_of_le {r : Reading} (h : r.le (.finite p) = true) (hle : p ≤ q) :
    (Reading.finite q).lt r = false := by
  cases r with
  | finite t => exact decide_eq_false (not_lt.mpr ((le_finite_iff.mp h).trans hle))
  | infinite negative => cases negative <;> first | rfl | exact nomatch h
  | undefined => exact nomatch h

end CodeHealth.Number
