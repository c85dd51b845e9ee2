import CodeHealth.Proofs.Number.Order

/-!
# Exact 53-bit numbers

The numbers that rounding to 53 bits keeps are the multiples of their own last bit. Every rounded
number is one, and whatever is close enough to one is rounded to it.
-/

namespace CodeHealth.Number

variable {p q : Rat}

/-! ## Whole numbers -/

theorem roundHalfEven_intCast (k : Int) : roundHalfEven k = k :=
  le_antisymm (roundHalfEven_le le_rfl) (le_roundHalfEven le_rfl)

theorem abs_roundHalfEven_sub_le (q : Rat) : |(roundHalfEven q : Rat) - q| ≤ 1 / 2 := by
  have hlow : (q.floor : Rat) ≤ q := Rat.floor_le q
  have hhigh : q < q.floor + 1 := by exact_mod_cast Rat.lt_floor_add_one q
  unfold roundHalfEven
  dsimp only
  rw [abs_le]
  split
  · constructor <;> linarith
  · split
    · push_cast
      constructor <;> linarith
    · split
      · constructor <;> linarith
      · push_cast
        constructor <;> linarith

/-- The nearest multiple of a unit is at most half a unit away. -/
theorem abs_roundHalfEven_mul_sub_le {unit : Rat} (hunit : 0 < unit) :
    |(roundHalfEven (q / unit) : Rat) * unit - q| ≤ unit / 2 := by
  have hsplit : (roundHalfEven (q / unit) : Rat) * unit - q =
      (roundHalfEven (q / unit) - q / unit) * unit := by
    rw [sub_mul, div_mul_cancel₀ _ hunit.ne']
  rw [hsplit, abs_mul, abs_of_pos hunit]
  have hhalf := mul_le_mul_of_nonneg_right (abs_roundHalfEven_sub_le (q / unit)) hunit.le
  linarith

/-- A number less than a half away from a whole number is rounded to it. -/
theorem roundHalfEven_eq_of_abs_sub_lt {k : Int} (h : |q - k| < 1 / 2) : roundHalfEven q = k := by
  have hround := abs_roundHalfEven_sub_le q
  have hclose : |((roundHalfEven q - k : Int) : Rat)| < 1 := by
    push_cast
    calc |(roundHalfEven q : Rat) - k| ≤ |(roundHalfEven q : Rat) - q| + |q - k| :=
          abs_sub_le _ _ _
      _ < 1 := by linarith
  have hint : |roundHalfEven q - k| < 1 := by exact_mod_cast hclose
  rw [Int.abs_lt_one_iff] at hint
  omega

/-! ## Magnitudes -/

/-- The magnitude of a number is the one power of two at or below it whose double is above it. -/
theorem binaryExponent_eq {e : Int} (hlow : power 2 e ≤ q) (hhigh : q < power 2 (e + 1)) :
    binaryExponent q = e := by
  have hq : 0 < q := (power_two_pos e).trans_le hlow
  have hbelow := power_two_lt_iff.mp ((power_binaryExponent_le hq).trans_lt hhigh)
  have habove := power_two_lt_iff.mp (hlow.trans_lt (lt_power_binaryExponent hq))
  omega

theorem power_two_le_iff {a b : Int} : power 2 a ≤ power 2 b ↔ a ≤ b := by
  rw [← not_lt, power_two_lt_iff, not_lt]

theorem power_two_succ (e : Int) : power 2 (e + 1) = 2 * power 2 e := by
  rw [add_comm, power_two_add]
  norm_num [power]

theorem lastBit_pos (q : Rat) : 0 < lastBit q :=
  power_two_pos _

/-- The last bit of a smaller number divides that of a larger one. -/
theorem exists_intCast_mul_lastBit (hp : 0 < p) (h : p ≤ q) :
    ∃ k : Int, lastBit q = k * lastBit p :=
  exists_natCast_mul_power
    (max_le_max_right (-1074) (Int.sub_le_sub_right (binaryExponent_mono hp h) 52))

theorem abs_eq_abs (q : Rat) : q.abs = |q| := by
  rcases le_total 0 q with h | h
  · rw [abs_of_nonneg h, Rat.abs_of_nonneg h]
  · rw [abs_of_nonpos h, Rat.abs_of_nonpos h]

/-! ## Numbers that rounding keeps -/

theorem nearest_zero : nearest 0 = 0 := rfl

theorem nearest_of_ne_zero (hq : q ≠ 0) :
    nearest q = roundHalfEven (q / lastBit q.abs) * lastBit q.abs := by
  unfold nearest
  rw [if_neg (by simpa using hq)]

/-- Rounding keeps the multiples of the last bit and nothing else. -/
theorem nearest_eq_self_iff : nearest q = q ↔ ∃ k : Int, q = k * lastBit q.abs := by
  have hunit : lastBit q.abs ≠ 0 := (lastBit_pos _).ne'
  by_cases hq : q = 0
  · subst hq
    exact ⟨fun _ => ⟨0, by simp⟩, fun _ => nearest_zero⟩
  · rw [nearest_of_ne_zero hq]
    constructor
    · intro h
      exact ⟨_, h.symm⟩
    · rintro ⟨k, hk⟩
      have hdiv : q / lastBit q.abs = k := by
        rw [div_eq_iff hunit]
        exact hk
      rw [hdiv, roundHalfEven_intCast, ← hk]

theorem nearest_neg_eq_self (h : nearest q = q) : nearest (-q) = -q := by
  obtain ⟨k, hk⟩ := nearest_eq_self_iff.mp h
  apply nearest_eq_self_iff.mpr
  refine ⟨-k, ?_⟩
  have habs : (-q).abs = q.abs := by
    rw [Rat.abs_neg]
  rw [habs, Int.cast_neg, neg_mul, ← hk]

/-- A power of two that is at most 53 bits below a number is a multiple of its last bit. -/
theorem exists_power_eq_mul_lastBit {m : Int} (hq : 0 < q) (h : q < power 2 (m + 53))
    (hm : -1074 ≤ m) : ∃ c : Int, power 2 m = c * lastBit q := by
  have hexp := power_two_lt_iff.mp ((power_binaryExponent_le hq).trans_lt h)
  exact exists_natCast_mul_power (by omega)

/-- Rounding keeps the multiples of a power of two that 53 bits can count. -/
theorem nearest_mul_power {k m : Int} (hk : |k| ≤ 2 ^ 53) (hm : -1074 ≤ m) :
    nearest (k * power 2 m) = k * power 2 m := by
  have hpow : 0 < power 2 m := power_two_pos m
  have habs : (k * power 2 m).abs = (|k| : Int) * power 2 m := by
    rw [abs_eq_abs, abs_mul, abs_of_pos hpow, Int.cast_abs]
  apply nearest_eq_self_iff.mpr
  rw [habs]
  rcases eq_or_ne k 0 with rfl | hzero
  · exact ⟨0, by simp⟩
  have hpos : 0 < ((|k| : Int) : Rat) * power 2 m :=
    mul_pos (by exact_mod_cast abs_pos.mpr hzero) hpow
  have h53 : power 2 53 = ((2 ^ 53 : Int) : Rat) := by
    rw [show (53 : Int) = (53 : Nat) from rfl, power_two_natCast]
    norm_num
  rcases hk.lt_or_eq with hlt | heq
  · obtain ⟨c, hc⟩ : ∃ c : Int, power 2 m = c * lastBit ((|k| : Int) * power 2 m) := by
      apply exists_power_eq_mul_lastBit hpos _ hm
      rw [add_comm m, power_two_add, h53]
      exact mul_lt_mul_of_pos_right (by exact_mod_cast hlt) hpow
    refine ⟨k * c, ?_⟩
    rw [Int.cast_mul, mul_assoc, ← hc]
  · -- the largest count is even, so it is a count of the next power
    obtain ⟨c, hc⟩ : ∃ c : Int, power 2 (m + 1) = c * lastBit ((|k| : Int) * power 2 m) := by
      apply exists_power_eq_mul_lastBit hpos _ (by omega)
      rw [heq, ← h53, ← power_two_add, power_two_lt_iff]
      omega
    obtain ⟨j, hj⟩ : ∃ j : Int, k = j * 2 := by
      rcases abs_eq (by norm_num) |>.mp heq with h | h
      · exact ⟨2 ^ 52, by omega⟩
      · exact ⟨-2 ^ 52, by omega⟩
    refine ⟨j * c, ?_⟩
    calc (k : Rat) * power 2 m = j * power 2 (m + 1) := by
          rw [hj, power_two_succ]
          push_cast
          ring
      _ = (j * c : Int) * lastBit ((|k| : Int) * power 2 m) := by
          rw [hc]
          push_cast
          ring

/-- A number is fewer than `2 ^ 53` of its last bits. -/
theorem lt_mul_lastBit (hq : 0 < q) : q < 2 ^ 53 * lastBit q := by
  have h53 : power 2 53 = 2 ^ 53 := power_two_natCast 53
  calc q < power 2 (binaryExponent q + 1) := lt_power_binaryExponent hq
    _ ≤ power 2 (53 + max (binaryExponent q - 52) (-1074)) := power_two_le_iff.mpr (by omega)
    _ = 2 ^ 53 * lastBit q := by rw [power_two_add, h53, lastBit]

/-- A rounded number is rounded to itself. -/
theorem nearest_nearest (q : Rat) : nearest (nearest q) = nearest q := by
  by_cases hq : q = 0
  · subst hq
    rfl
  · have hunit : 0 < lastBit q.abs := lastBit_pos _
    have hpos : 0 < |q| := abs_pos.mpr hq
    have hlt := lt_mul_lastBit hpos
    rw [← abs_eq_abs] at hlt
    have hbound : |q / lastBit q.abs| ≤ 2 ^ 53 := by
      rw [abs_div, abs_of_pos hunit, div_le_iff₀ hunit, ← abs_eq_abs]
      exact hlt.le
    obtain ⟨hlow, hhigh⟩ := abs_le.mp hbound
    have hround : |roundHalfEven (q / lastBit q.abs)| ≤ 2 ^ 53 := by
      apply abs_le.mpr
      constructor
      · exact le_roundHalfEven (by exact_mod_cast hlow)
      · exact roundHalfEven_le (by exact_mod_cast hhigh)
    rw [nearest_of_ne_zero hq, lastBit]
    exact nearest_mul_power hround (by omega)

/-! ## Numbers close to one that rounding keeps -/

/-- A number less than half its last bit away from a multiple of that bit is rounded to it. -/
theorem nearest_eq_of_abs_sub_lt (hp : 0 < p) (hmul : ∃ k : Int, q = k * lastBit p)
    (h : |p - q| * 2 < lastBit p) : nearest p = q := by
  have hunit : 0 < lastBit p := lastBit_pos p
  obtain ⟨k, rfl⟩ := hmul
  have hclose : |p / lastBit p - k| < 1 / 2 := by
    have hsub : p / lastBit p - k = (p - k * lastBit p) / lastBit p := by
      rw [sub_div, mul_div_cancel_right₀ _ hunit.ne']
    rw [hsub, abs_div, abs_of_pos hunit, div_lt_iff₀ hunit]
    linarith
  rw [nearest_of_pos hp, roundHalfEven_eq_of_abs_sub_lt hclose]

/-- A number that rounding keeps is a multiple of its last bit. -/
theorem exists_eq_mul_lastBit (h : nearest q = q) (hq : 0 < q) :
    ∃ k : Int, q = k * lastBit q := by
  have hmul := nearest_eq_self_iff.mp h
  rwa [Rat.abs_of_nonneg hq.le] at hmul

/-- Of two multiples of one number, the smaller is at least that number below the larger. -/
theorem add_le_of_mul_lt_mul {u : Rat} {j k : Int} (hu : 0 < u) (h : (j : Rat) * u < k * u) :
    (j : Rat) * u + u ≤ k * u := by
  have hlt : j < k := by exact_mod_cast lt_of_mul_lt_mul_right h hu.le
  have hle : (j : Rat) + 1 ≤ k := by exact_mod_cast hlt
  calc (j : Rat) * u + u = (j + 1) * u := by ring
    _ ≤ k * u := mul_le_mul_of_nonneg_right hle hu.le

theorem lastBit_le (hkeep : nearest q = q) (hq : 0 < q) : lastBit q ≤ q := by
  obtain ⟨k, hk⟩ := exists_eq_mul_lastBit hkeep hq
  have hstep : ((0 : Int) : Rat) * lastBit q + lastBit q ≤ k * lastBit q := by
    apply add_le_of_mul_lt_mul (lastBit_pos q)
    rw [← hk, Int.cast_zero, zero_mul]
    exact hq
  rwa [← hk, Int.cast_zero, zero_mul, zero_add] at hstep

/-- The last bit of a number that rounding keeps divides the power of two of its magnitude. -/
theorem exists_magnitude_eq_mul_lastBit (hkeep : nearest q = q) (hq : 0 < q) :
    ∃ k : Int, power 2 (binaryExponent q) = k * lastBit q := by
  have hlt := (lastBit_le hkeep hq).trans_lt (lt_power_binaryExponent hq)
  have hexp := power_two_lt_iff.mp hlt
  exact exists_natCast_mul_power (by omega)

theorem add_lastBit_le_power (hkeep : nearest q = q) (hq : 0 < q) :
    q + lastBit q ≤ power 2 (binaryExponent q + 1) := by
  obtain ⟨k, hk⟩ := exists_eq_mul_lastBit hkeep hq
  obtain ⟨c, hc⟩ := exists_magnitude_eq_mul_lastBit hkeep hq
  have htwice : power 2 (binaryExponent q + 1) = (2 * c : Int) * lastBit q := by
    rw [power_two_succ, hc]
    push_cast
    ring
  have hstep : (k : Rat) * lastBit q + lastBit q ≤ (2 * c : Int) * lastBit q := by
    apply add_le_of_mul_lt_mul (lastBit_pos q)
    rw [← hk, ← htwice]
    exact lt_power_binaryExponent hq
  rwa [← hk, ← htwice] at hstep

/-- A number is at most as many of its last bits as 53 bits can count below its magnitude. -/
theorem power_le_mul_lastBit {e : Int} {n : Nat} (h : e ≤ n + (binaryExponent q - 52)) :
    power 2 e ≤ 2 ^ n * lastBit q := by
  have hn : power 2 n = 2 ^ n := by
    rw [power_two_natCast]
    push_cast
    rfl
  rw [← hn, lastBit, ← power_two_add, power_two_le_iff]
  omega

/-- A number with a smaller one of a lower magnitude within its last bit is a power of two. -/
theorem eq_power_of_lt_power (hkeep : nearest q = q) (hq : 0 < q)
    (hless : p < power 2 (binaryExponent q)) (hnear : q - p < lastBit q) :
    q = power 2 (binaryExponent q) := by
  obtain ⟨k, hk⟩ := exists_eq_mul_lastBit hkeep hq
  obtain ⟨c, hc⟩ := exists_magnitude_eq_mul_lastBit hkeep hq
  by_contra hne
  have hlt := lt_of_le_of_ne (power_binaryExponent_le hq) (Ne.symm hne)
  have hgap : (c : Rat) * lastBit q + lastBit q ≤ k * lastBit q :=
    add_le_of_mul_lt_mul (lastBit_pos q) (by rwa [← hk, ← hc])
  rw [← hk, ← hc] at hgap
  linarith

/-- Whatever agrees with a 53-bit number in its first 16 decimal digits is rounded to it. -/
theorem nearest_eq_of_close (hkeep : nearest q = q) (hq : 0 < q)
    (h : |p - q| * (2 * 10 ^ 16) ≤ q) : nearest p = q := by
  have hlow := power_binaryExponent_le hq
  have hhigh := lt_power_binaryExponent hq
  have hstep := add_lastBit_le_power hkeep hq
  have hbit : power 2 (binaryExponent q) ≤ 2 ^ 52 * lastBit q :=
    power_le_mul_lastBit (by push_cast; omega)
  rw [power_two_succ] at hhigh
  have hnear := abs_nonneg (p - q)
  have hupper := le_abs_self (p - q)
  have hlower := neg_abs_le (p - q)
  have hp : 0 < p := by linarith
  rcases le_or_gt (power 2 (binaryExponent q)) p with hsame | hless
  · -- the two numbers have one last bit
    have hexp : binaryExponent p = binaryExponent q := binaryExponent_eq hsame (by linarith)
    have hlast : lastBit p = lastBit q := by rw [lastBit, lastBit, hexp]
    apply nearest_eq_of_abs_sub_lt hp
    · rw [hlast]
      exact exists_eq_mul_lastBit hkeep hq
    · rw [hlast]
      linarith
  · -- the last bit of the other number is half as large
    have heq := eq_power_of_lt_power hkeep hq hless (by linarith)
    have hexp : binaryExponent p = binaryExponent q - 1 := by
      apply binaryExponent_eq
      · have hhalf := power_two_succ (binaryExponent q - 1)
        rw [sub_add_cancel] at hhalf
        linarith
      · rwa [sub_add_cancel]
    have hbit' : power 2 (binaryExponent q) ≤ 2 ^ 53 * lastBit p :=
      power_le_mul_lastBit (by push_cast; omega)
    apply nearest_eq_of_abs_sub_lt hp
    · obtain ⟨k, hk⟩ := exists_eq_mul_lastBit hkeep hq
      obtain ⟨j, hj⟩ := exists_intCast_mul_lastBit hp (hless.le.trans hlow)
      refine ⟨k * j, ?_⟩
      rw [Int.cast_mul, mul_assoc, ← hj]
      exact hk
    · linarith

/-! ## Finite numbers -/

theorem nearest_power {e : Int} (he : -1074 ≤ e) : nearest (power 2 e) = power 2 e := by
  have h := nearest_mul_power (k := 1) (by norm_num) he
  rwa [Int.cast_one, one_mul] at h

theorem lt_power_of_nearest_lt {e : Int} (he : -1074 ≤ e) (h : nearest p < power 2 e) :
    p < power 2 e := by
  by_contra hle
  have hmono := nearest_mono (power_two_pos e).le (not_lt.mp hle)
  rw [nearest_power he] at hmono
  exact absurd h (not_lt.mpr hmono)

/-- What is less than half the smallest 53-bit number is rounded to zero. -/
theorem nearest_eq_zero_of_lt (hp : 0 < p) (h : p < power 2 (-1075)) : nearest p = 0 := by
  have hbit : power 2 (-1075 + 1) ≤ lastBit p := power_two_le_iff.mpr (by omega)
  rw [power_two_succ] at hbit
  apply nearest_eq_of_abs_sub_lt hp ⟨0, by simp⟩
  rw [sub_zero, abs_of_pos hp]
  linarith

/-- A finite 53-bit number. -/
structure IsFloat (q : Rat) : Prop where
  nearest_eq : nearest q = q
  abs_lt : |q| < power 2 1024

theorem isFloat_natCast {n : Nat} (hn : n < 2 ^ 53) : IsFloat n where
  nearest_eq := nearest_natCast hn
  abs_lt := by
    have h53 : power 2 53 = (2 ^ 53 : Nat) := power_two_natCast 53
    calc |(n : Rat)| = n := abs_of_nonneg (Nat.cast_nonneg n)
      _ < power 2 53 := by
          rw [h53]
          exact_mod_cast hn
      _ < power 2 1024 := power_two_lt_iff.mpr (by norm_num)

theorem isFloat_zero : IsFloat 0 :=
  isFloat_natCast (n := 0) (by norm_num)

theorem isFloat_one : IsFloat 1 := by
  simpa using isFloat_natCast (n := 1) (by norm_num)

theorem IsFloat.neg (h : IsFloat q) : IsFloat (-q) where
  nearest_eq := nearest_neg_eq_self h.nearest_eq
  abs_lt := by
    rw [abs_neg]
    exact h.abs_lt

/-- A number has a finite 53-bit number for it exactly if its nearest one is finite. -/
theorem finite?_eq_some_iff {r : Rat} : finite? q = some r ↔ nearest q = r ∧ IsFloat r := by
  unfold finite?
  dsimp only
  rw [abs_eq_abs]
  split
  · rename_i hbound
    rw [Option.some.injEq]
    refine ⟨fun h => ⟨h, ?_⟩, And.left⟩
    exact h ▸ ⟨nearest_nearest q, hbound⟩
  · rename_i hbound
    refine ⟨nofun, ?_⟩
    rintro ⟨rfl, hfloat⟩
    exact absurd hfloat.abs_lt hbound

theorem isFloat_intCast {n : Int} (h : n.natAbs < 2 ^ 53) : IsFloat n := by
  have hmagnitude : IsFloat (n.natAbs : Rat) := isFloat_natCast h
  obtain ⟨k, rfl | rfl⟩ := n.eq_nat_or_neg
  · simpa using hmagnitude
  · simpa using hmagnitude.neg

/-- A small integer is a 53-bit number itself. -/
theorem finite?_intCast {n : Int} (h : n.natAbs < 2 ^ 53) : finite? n = some (n : Rat) :=
  finite?_eq_some_iff.mpr ⟨(isFloat_intCast h).nearest_eq, isFloat_intCast h⟩

theorem finite?_eq_none_iff : finite? q = none ↔ power 2 1024 ≤ |nearest q| := by
  unfold finite?
  dsimp only
  rw [abs_eq_abs, ite_eq_right_iff, ← not_lt]
  exact imp_congr_right fun _ => iff_false_intro nofun

/-- Rounding moves a number by at most half its last bit, so it does not double its magnitude. -/
theorem abs_nearest_lt_power {e : Int} (he : -1074 ≤ e) (h : |q| ≤ power 2 e) :
    |nearest q| < power 2 (e + 1) := by
  have hpower := power_two_pos e
  rw [power_two_succ]
  by_cases hq : q = 0
  · subst hq
    rw [nearest_zero, abs_zero]
    linarith
  · have hexp := power_two_le_iff.mp ((power_binaryExponent_le (abs_pos.mpr hq)).trans h)
    have hbit : lastBit q.abs ≤ power 2 e := by
      rw [abs_eq_abs]
      exact power_two_le_iff.mpr (by omega)
    have hround : |nearest q - q| ≤ lastBit q.abs / 2 := by
      rw [nearest_of_ne_zero hq]
      exact abs_roundHalfEven_mul_sub_le (lastBit_pos _)
    have hsplit := abs_sub_le (nearest q) q 0
    rw [sub_zero, sub_zero] at hsplit
    linarith

theorem exists_finite?_of_abs_le (h : |q| ≤ power 2 1023) : ∃ r, finite? q = some r := by
  have hlt := abs_nearest_lt_power (by norm_num) h
  cases hfinite : finite? q with
  | some r => exact ⟨r, rfl⟩
  | none => exact absurd hlt (not_lt.mpr (finite?_eq_none_iff.mp hfinite))

end CodeHealth.Number
