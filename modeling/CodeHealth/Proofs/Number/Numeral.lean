import CodeHealth.Number.Literal
import CodeHealth.Proofs.Number.Shortest
import Mathlib.Tactic.IntervalCases

/-!
# Decimal literals

A decimal literal as its digits and its exponent: its text is read as its value, and every decimal
is laid out as such a literal with the same value.
-/

namespace CodeHealth.Number

/-! ## Digits -/

theorem takeWhile_append_stop {α : Type} {p : α → Bool} {as rest : List α} (has : ∀ a ∈ as, p a)
    (hrest : ∀ a ∈ rest.head?, p a = false) : (as ++ rest).takeWhile p = as := by
  rw [List.takeWhile_append_of_pos has]
  cases rest with
  | nil => simp
  | cons a rest =>
      have ha := hrest a rfl
      simp [ha]

theorem dropWhile_append_stop {α : Type} {p : α → Bool} {as rest : List α} (has : ∀ a ∈ as, p a)
    (hrest : ∀ a ∈ rest.head?, p a = false) : (as ++ rest).dropWhile p = rest := by
  rw [List.dropWhile_append_of_pos has]
  cases rest with
  | nil => simp
  | cons a rest =>
      have ha := hrest a rfl
      simp [ha]

theorem digitOf_of_isDigit {c : Char} (h : c.isDigit) : digitOf c = c.toNat - '0'.toNat := by
  unfold digitOf
  rw [if_pos h]
  rfl

theorem digitOf_lt_of_isDigit {c : Char} (h : c.isDigit) : digitOf c < 10 := by
  rw [digitOf_of_isDigit h]
  simp only [Char.isDigit, Bool.and_eq_true, decide_eq_true_eq] at h
  have hc : c.toNat ≤ 57 := h.2
  have h0 : '0'.toNat = 48 := rfl
  omega

theorem readDigits?_ten {cs : List Char} (hne : cs ≠ []) (h : ∀ c ∈ cs, c.isDigit) :
    readDigits? 10 cs = some (Nat.ofDigitChars 10 cs 0) := by
  have hany : cs.any (fun c => decide (10 ≤ digitOf c)) = false := by
    rw [List.any_eq_false]
    intro c hc
    have := digitOf_lt_of_isDigit (h c hc)
    simpa using this
  have hempty : cs.isEmpty = false := by simpa using hne
  unfold readDigits?
  rw [hempty, hany, Nat.ofDigitChars_eq_foldl]
  refine congrArg some (List.foldl_ext _ _ _ fun n c hc => ?_)
  rw [digitOf_of_isDigit (h c hc), Nat.mul_comm]

theorem isDigit_of_mem_toDigits {n : Nat} : ∀ c ∈ Nat.toDigits 10 n, c.isDigit :=
  fun _ hc => Nat.isDigit_of_mem_toDigits (by norm_num) (by norm_num) hc

/-- The digits of a positive number do not start with a zero. -/
theorem head?_toDigits_ne {n : Nat} (hn : 0 < n) : (Nat.toDigits 10 n).head? ≠ some '0' := by
  induction n using Nat.strong_induction_on with
  | _ n ih =>
      rcases lt_or_ge n 10 with hlt | hge
      · rw [Nat.toDigits_of_lt_base hlt]
        interval_cases n <;> decide
      · rw [Nat.toDigits_of_base_le (by norm_num) hge,
          List.head?_append_of_ne_nil _ Nat.toDigits_ne_nil]
        exact ih _ (by omega) (by omega)

theorem head?_toDigits {n : Nat} (h : (Nat.toDigits 10 n).head? = some '0') :
    Nat.toDigits 10 n = ['0'] := by
  rcases Nat.eq_zero_or_pos n with rfl | hn
  · rfl
  · exact absurd h (head?_toDigits_ne hn)

/-! ## Literals -/

/-- A decimal literal: the digits before and after its point, and its exponent. The digits before
the point have no needless zero, and a literal without a point has an exponent. -/
structure Numeral where
  whole : List Char
  places : List Char
  exponent : Option Int
  whole_ne_nil : whole ≠ []
  isDigit : ∀ c ∈ whole ++ places, c.isDigit
  plain : whole.head? = some '0' → whole = ['0']
  marked : places ≠ [] ∨ exponent.isSome

namespace Numeral

/-- The point and the digits after it. -/
def fraction (n : Numeral) : List Char :=
  if n.places.isEmpty then [] else '.' :: n.places

/-- The exponent with its mark and its sign. -/
def scale (n : Numeral) : List Char :=
  match n.exponent with
  | none => []
  | some e => 'e' :: (if 0 ≤ e then '+' else '-') :: Nat.toDigits 10 e.natAbs

def chars (n : Numeral) : List Char :=
  n.whole ++ n.fraction ++ n.scale

/-- All digits as one number. -/
def digits (n : Numeral) : Nat :=
  Nat.ofDigitChars 10 (n.whole ++ n.places) 0

/-- The exponent of the last digit. -/
def lastExponent (n : Numeral) : Int :=
  n.exponent.getD 0 - n.places.length

/-- The exponent beyond the first digit. -/
def magnitude (n : Numeral) : Int :=
  n.exponent.getD 0 + n.whole.length

def value (n : Numeral) : Rat :=
  n.digits * power 10 n.lastExponent

/-- Zero with one place. -/
def zero : Numeral where
  whole := ['0']
  places := ['0']
  exponent := none
  whole_ne_nil := List.cons_ne_nil _ _
  isDigit c hc := by
    obtain rfl : c = '0' := by simpa using hc
    rfl
  plain _ := rfl
  marked := Or.inl (List.cons_ne_nil _ _)

theorem head?_scale (n : Numeral) : ∀ c ∈ n.scale.head?, c = 'e' := by
  unfold scale
  split <;> simp

/-- What follows the digits before the point is no digit. -/
theorem head?_fraction_append (n : Numeral) {rest : List Char}
    (hrest : ∀ c ∈ rest.head?, c.isDigit = false) :
    ∀ c ∈ (n.fraction ++ (n.scale ++ rest)).head?, c.isDigit = false := by
  unfold fraction scale
  split <;> split <;> simp_all

theorem isDigit_of_mem_whole (n : Numeral) : ∀ c ∈ n.whole, c.isDigit :=
  fun c hc => n.isDigit c (List.mem_append_left _ hc)

theorem isDigit_of_mem_places (n : Numeral) : ∀ c ∈ n.places, c.isDigit :=
  fun c hc => n.isDigit c (List.mem_append_right _ hc)

theorem readExponent?_scale (e : Int) :
    readExponent? ((if 0 ≤ e then '+' else '-') :: Nat.toDigits 10 e.natAbs) = some e := by
  have hread := readDigits?_ten (Nat.toDigits_ne_nil (n := e.natAbs)) isDigit_of_mem_toDigits
  rw [Nat.ofDigitChars_ten_toDigits] at hread
  unfold readExponent?
  split_ifs with h
  · simp only [splitSign, hread]
    exact congrArg some (show (e.natAbs : Int) = e by omega)
  · simp only [splitSign, hread]
    exact congrArg some (show -(e.natAbs : Int) = e by omega)

/-- The text of a literal is read as its digits with their exponent. -/
theorem readUnsigned?_chars (n : Numeral) :
    readUnsigned? n.chars = some (scaled n.digits (n.whole ++ n.places).length n.lastExponent) := by
  have hne : n.whole ++ n.places ≠ [] := by simp [n.whole_ne_nil]
  have hdigits := readDigits?_ten hne n.isDigit
  have hwhole : n.chars.takeWhile Char.isDigit = n.whole := by
    unfold chars
    rw [List.append_assoc, ← List.append_nil n.scale]
    exact takeWhile_append_stop n.isDigit_of_mem_whole (n.head?_fraction_append (by simp))
  have hrest : n.chars.drop n.whole.length = n.fraction ++ n.scale := by
    unfold chars
    rw [List.append_assoc, List.drop_left]
  have hnone (he : n.exponent = none) : n.scale = [] := by simp [scale, he]
  have hsome {e : Int} (he : n.exponent = some e) :
      n.scale = 'e' :: (if 0 ≤ e then '+' else '-') :: Nat.toDigits 10 e.natAbs := by
    simp [scale, he]
  have hstop : ∀ c ∈ n.scale.head?, c.isDigit = false := fun c hc => n.head?_scale c hc ▸ rfl
  unfold readUnsigned?
  dsimp only
  rw [hwhole, hrest]
  -- a text without a point goes on with its exponent
  cases hp : n.places with
  | nil =>
      have hfraction : n.fraction = [] := by simp [fraction, hp]
      rw [hp] at hdigits
      cases he : n.exponent with
      | none => simpa [hp, he] using n.marked
      | some e =>
          rw [hfraction, hsome he, List.nil_append]
          simp only [List.cons.injEq, false_and, Char.reduceEq, imp_false, not_false_eq_true,
            implies_true]
          rw [hdigits, if_pos (by decide), readExponent?_scale, digits, lastExponent, hp, he]
          rfl
  | cons c cs =>
      have hfraction : n.fraction = '.' :: n.places := by simp [fraction, hp]
      rw [hfraction, List.cons_append, ← hp]
      simp only []
      rw [takeWhile_append_stop n.isDigit_of_mem_places hstop,
        dropWhile_append_stop n.isDigit_of_mem_places hstop, hdigits]
      cases he : n.exponent with
      | none =>
          rw [hnone he, digits, lastExponent, he]
          rfl
      | some e =>
          rw [hsome he]
          dsimp only
          rw [if_pos (by decide), readExponent?_scale, digits, lastExponent, he]
          rfl

theorem lastExponent_add_length (n : Numeral) :
    n.lastExponent + (n.whole ++ n.places).length = n.magnitude := by
  rw [lastExponent, magnitude, List.length_append]
  push_cast
  ring

/-- A literal whose value is rounded to a positive number is read as that number. -/
theorem scaled_digits (n : Numeral) {q : Rat} (hq : IsFloat q) (hpos : 0 < q)
    (hvalue : nearest n.value = q) (hlow : -400 ≤ n.magnitude) (hhigh : n.magnitude ≤ 400) :
    scaled n.digits (n.whole ++ n.places).length n.lastExponent = .finite q := by
  have hdigits : n.digits ≠ 0 := by
    intro hzero
    rw [value, hzero, Nat.cast_zero, zero_mul] at hvalue
    exact hpos.ne hvalue
  have hfinite : finite? n.value = some q := finite?_eq_some_iff.mpr ⟨hvalue, hq⟩
  unfold scaled
  rw [n.lastExponent_add_length, if_neg (by simpa using hdigits), if_neg (by omega),
    if_neg (by omega), ← value, hfinite]

end Numeral

/-! ## Layouts -/

namespace Decimal

variable (d : Decimal)

/-- The exponent of the first digit. -/
def leading : Int :=
  d.exponent + ((Nat.toDigits 10 d.digits).length - 1 : Nat)

variable {d}

theorem value_lt : d.value < power 10 (d.leading + 1) := by
  have hlength := Nat.length_toDigits_pos (b := 10) (n := d.digits)
  have hexp : d.leading + 1 = ((Nat.toDigits 10 d.digits).length : Nat) + d.exponent := by
    unfold leading
    omega
  rw [hexp, power_ten_add, power_ten_natCast, value]
  exact mul_lt_mul_of_pos_right (by exact_mod_cast lt_pow_length_toDigits d.digits)
    (power_ten_pos _)

theorem le_value (h : 0 < d.digits) : power 10 d.leading ≤ d.value := by
  rw [leading, add_comm, power_ten_add, power_ten_natCast, value]
  exact mul_le_mul_of_nonneg_right (by exact_mod_cast pow_length_toDigits_le h)
    (power_ten_pos _).le

end Decimal

/-- A literal stands for a decimal: it has its value, and its first digit that counts is the first
of the decimal or comes after the point. -/
structure Numeral.Denotes (n : Numeral) (d : Decimal) : Prop where
  value_eq : n.value = d.value
  magnitude : n.magnitude = 1 ∨ n.magnitude = d.leading + 1

namespace Numeral

variable {d : Decimal}

/-- The digits, the zeros up to the point and one place that is zero. -/
theorem exists_integral (hd : 0 < d.digits) (h : 0 ≤ d.exponent) :
    ∃ n : Numeral, n.Denotes d ∧ n.chars =
      Nat.toDigits 10 d.digits ++ List.replicate d.exponent.toNat '0' ++ ['.', '0'] := by
  have hne : Nat.toDigits 10 d.digits ≠ [] := Nat.toDigits_ne_nil
  have hlength := Nat.length_toDigits_pos (b := 10) (n := d.digits)
  refine ⟨⟨Nat.toDigits 10 d.digits ++ List.replicate d.exponent.toNat '0', ['0'], none,
    by simp [hne], ?_, ?_, Or.inl (by simp)⟩, ⟨?_, Or.inr ?_⟩, ?_⟩
  · intro c hc
    simp only [List.mem_append, List.mem_replicate, List.mem_singleton] at hc
    rcases hc with (hc | ⟨-, rfl⟩) | rfl
    · exact isDigit_of_mem_toDigits c hc
    · rfl
    · rfl
  · intro hhead
    rw [List.head?_append_of_ne_nil _ hne] at hhead
    exact absurd hhead (head?_toDigits_ne hd)
  · have hexp : power 10 d.exponent = (10 ^ d.exponent.toNat : Nat) := by
      rw [← power_ten_natCast, Int.toNat_of_nonneg h]
    have hplace : power 10 (0 - 1) = 1 / 10 := by norm_num [power]
    simp only [value, Numeral.digits, lastExponent, Nat.ofDigitChars_append,
      Nat.ofDigitChars_ten_toDigits, Nat.ofDigitChars_replicate_zero, Nat.ofDigitChars_cons,
      Nat.ofDigitChars_nil, Option.getD_none, List.length_singleton, Nat.cast_one, hplace,
      Decimal.value, hexp]
    push_cast
    ring
  · simp only [magnitude, Decimal.leading, Option.getD_none, List.length_append,
      List.length_replicate]
    omega
  · simp [chars, fraction, scale]

/-- The digits with a point among them. -/
theorem exists_pointed (hd : 0 < d.digits) (h : d.exponent < 0) (hlead : 0 ≤ d.leading) :
    ∃ n : Numeral, n.Denotes d ∧ n.chars =
      (Nat.toDigits 10 d.digits).take (d.leading.toNat + 1) ++
        '.' :: (Nat.toDigits 10 d.digits).drop (d.leading.toNat + 1) := by
  have hlength := Nat.length_toDigits_pos (b := 10) (n := d.digits)
  have hshort : d.leading.toNat + 1 < (Nat.toDigits 10 d.digits).length := by
    unfold Decimal.leading at hlead ⊢
    omega
  have hplaces : (Nat.toDigits 10 d.digits).drop (d.leading.toNat + 1) ≠ [] := by
    simpa using hshort
  refine ⟨⟨(Nat.toDigits 10 d.digits).take (d.leading.toNat + 1),
    (Nat.toDigits 10 d.digits).drop (d.leading.toNat + 1), none,
    by simp, ?_, ?_, Or.inl hplaces⟩, ⟨?_, Or.inr ?_⟩, ?_⟩
  · rw [List.take_append_drop]
    exact isDigit_of_mem_toDigits
  · intro hhead
    rw [List.head?_take, if_neg (by omega)] at hhead
    exact absurd hhead (head?_toDigits_ne hd)
  · have hexp : d.leading - (Nat.toDigits 10 d.digits).length + 1 = d.exponent := by
      unfold Decimal.leading
      omega
    simp only [value, Numeral.digits, lastExponent, List.take_append_drop,
      Nat.ofDigitChars_ten_toDigits, Option.getD_none, List.length_drop, Decimal.value]
    congr 2
    omega
  · simp only [magnitude, Option.getD_none, List.length_take]
    omega
  · have hempty : ((Nat.toDigits 10 d.digits).drop (d.leading.toNat + 1)).isEmpty = false := by
      simpa using hshort
    simp [chars, fraction, scale, hempty]

/-- Zeros after the point and then the digits. -/
theorem exists_small (hlead : d.leading < 0) :
    ∃ n : Numeral, n.Denotes d ∧ n.chars =
      '0' :: '.' :: List.replicate (-d.leading - 1).toNat '0' ++ Nat.toDigits 10 d.digits := by
  have hlength := Nat.length_toDigits_pos (b := 10) (n := d.digits)
  refine ⟨⟨['0'], List.replicate (-d.leading - 1).toNat '0' ++ Nat.toDigits 10 d.digits, none,
    by simp, ?_, fun _ => rfl, Or.inl (by simp)⟩, ⟨?_, Or.inl rfl⟩, ?_⟩
  · intro c hc
    simp only [List.mem_append, List.mem_replicate, List.mem_singleton] at hc
    rcases hc with rfl | ⟨-, rfl⟩ | hc
    · rfl
    · rfl
    · exact isDigit_of_mem_toDigits c hc
  · have hdigits : Nat.ofDigitChars 10 (['0'] ++ (List.replicate (-d.leading - 1).toNat '0' ++
        Nat.toDigits 10 d.digits)) 0 = d.digits := by
      rw [List.singleton_append, Nat.ofDigitChars_cons, Nat.ofDigitChars_append,
        Nat.ofDigitChars_replicate_zero]
      exact Nat.ofDigitChars_ten_toDigits
    rw [value, Numeral.digits, hdigits, Decimal.value, lastExponent]
    congr 2
    simp only [Option.getD_none, List.length_append, List.length_replicate]
    unfold Decimal.leading at hlead ⊢
    omega
  · simp [chars, fraction, scale]

/-- The first digit, a point before the others, and the exponent. -/
theorem exists_scaled {c : Char} {cs : List Char} (h : Nat.toDigits 10 d.digits = c :: cs) :
    ∃ n : Numeral, n.Denotes d ∧ n.chars =
      c :: (if cs.isEmpty then [] else '.' :: cs) ++
        'e' :: (if 0 ≤ d.leading then '+' else '-') :: Nat.toDigits 10 d.leading.natAbs := by
  have hlead : d.leading = d.exponent + cs.length := by
    unfold Decimal.leading
    rw [h]
    rfl
  refine ⟨⟨[c], cs, some d.leading, by simp, ?_, ?_, Or.inr rfl⟩, ⟨?_, Or.inr ?_⟩, ?_⟩
  · rw [List.singleton_append, ← h]
    exact isDigit_of_mem_toDigits
  · rintro ⟨⟩
    rfl
  · have hdigits : Nat.ofDigitChars 10 ([c] ++ cs) 0 = d.digits := by
      rw [List.singleton_append, ← h, Nat.ofDigitChars_ten_toDigits]
    rw [value, Numeral.digits, hdigits, Decimal.value, lastExponent]
    congr 2
    simp only [Option.getD_some]
    omega
  · simp [magnitude]
  · simp [chars, fraction, scale]

/-- Every layout of a decimal is the text of a literal that stands for it. -/
theorem exists_write (hd : 0 < d.digits) :
    ∃ n : Numeral, n.Denotes d ∧ n.chars = (jsonLayout.write d).toList := by
  obtain ⟨c, cs, hdigits⟩ : ∃ c cs, Nat.toDigits 10 d.digits = c :: cs :=
    List.exists_cons_of_ne_nil Nat.toDigits_ne_nil
  unfold Layout.write
  dsimp only
  rw [← Decimal.leading]
  split_ifs with hpoint hexp hlead hlead
  · obtain ⟨n, hn, hchars⟩ := exists_integral hd hexp
    exact ⟨n, hn, hchars.trans (by simp [zeros])⟩
  · obtain ⟨n, hn, hchars⟩ := exists_pointed hd (not_le.mp hexp) hlead
    exact ⟨n, hn, hchars.trans (by simp)⟩
  · obtain ⟨n, hn, hchars⟩ := exists_small (not_le.mp hlead)
    exact ⟨n, hn, hchars.trans (by simp [zeros])⟩
  · obtain ⟨n, hn, hchars⟩ := exists_scaled hdigits
    refine ⟨n, hn, hchars.trans ?_⟩
    have habs : d.leading.natAbs = d.leading.toNat := by omega
    rw [hdigits, habs, if_pos hlead, Nat.toString_eq_ofList_toDigits]
    cases cs <;> simp [jsonLayout]
  · obtain ⟨n, hn, hchars⟩ := exists_scaled hdigits
    refine ⟨n, hn, hchars.trans ?_⟩
    have habs : d.leading.natAbs = (-d.leading).toNat := by omega
    rw [hdigits, habs, if_neg hlead, Nat.toString_eq_ofList_toDigits]
    cases cs <;> simp [jsonLayout]

end Numeral

/-! ## Texts of 53-bit numbers -/

section Shortest

variable {q : Rat} (hq : IsFloat q) (hpos : 0 < q)
include hq hpos

theorem digits_shortest_pos : 0 < (shortest q).digits := by
  have hround := nearest_shortest hq.nearest_eq hpos
  apply Nat.pos_of_ne_zero
  intro hzero
  rw [Decimal.value, hzero, Nat.cast_zero, zero_mul] at hround
  exact hpos.ne hround

theorem leading_shortest_mem :
    -400 < (shortest q).leading + 1 ∧ (shortest q).leading < 400 := by
  have hround := nearest_shortest hq.nearest_eq hpos
  have hvalue : 0 < (shortest q).value := mul_pos
    (by exact_mod_cast digits_shortest_pos hq hpos) (power_ten_pos _)
  constructor
  · rw [← power_ten_lt_iff]
    have hleast : power 2 (-1075) ≤ (shortest q).value := by
      by_contra hlt
      rw [nearest_eq_zero_of_lt hvalue (not_le.mp hlt)] at hround
      exact hpos.ne hround
    calc power 10 (-400) ≤ power 2 (-(3 * 400 : Nat)) := power_ten_le_power_two 400
      _ ≤ power 2 (-1075) := power_two_le_iff.mpr (by norm_num)
      _ ≤ (shortest q).value := hleast
      _ < power 10 ((shortest q).leading + 1) := Decimal.value_lt
  · rw [← power_ten_lt_iff]
    have hmost : (shortest q).value < power 2 1024 := by
      apply lt_power_of_nearest_lt (by norm_num)
      rw [hround, ← abs_of_pos hpos]
      exact hq.abs_lt
    calc power 10 (shortest q).leading ≤ (shortest q).value :=
          Decimal.le_value (digits_shortest_pos hq hpos)
      _ < power 2 1024 := hmost
      _ ≤ power 2 (3 * 400 : Nat) := power_two_le_iff.mpr (by norm_num)
      _ ≤ power 10 400 := power_two_le_power_ten 400

/-- The text of a positive 53-bit number is a literal that is read as that number. -/
theorem exists_numeral_shortest :
    ∃ n : Numeral, n.chars = (jsonLayout.write (shortest q)).toList ∧
      readUnsigned? n.chars = some (.finite q) := by
  obtain ⟨n, hn, hchars⟩ := Numeral.exists_write (digits_shortest_pos hq hpos)
  refine ⟨n, hchars, ?_⟩
  have hround : nearest n.value = q := by
    rw [hn.value_eq]
    exact nearest_shortest hq.nearest_eq hpos
  obtain ⟨hlow, hhigh⟩ := leading_shortest_mem hq hpos
  rw [n.readUnsigned?_chars]
  have hmagnitude := hn.magnitude
  exact congrArg some (n.scaled_digits hq hpos hround (by omega) (by omega))

end Shortest

/-! ## Values of literals -/

section Values

variable {q : Rat} {cs : List Char}

theorem isFloat_of_scaled {digits count : Nat} {exponent : Int}
    (h : scaled digits count exponent = .finite q) : IsFloat q := by
  unfold scaled at h
  split_ifs at h with hzero hlarge hsmall
  · exact Reading.finite.inj h ▸ isFloat_zero
  · exact Reading.finite.inj h ▸ isFloat_zero
  · split at h
    · rename_i r hfinite
      exact Reading.finite.inj h ▸ (finite?_eq_some_iff.mp hfinite).2
    · exact nomatch h

theorem isFloat_of_readUnsigned? (h : readUnsigned? cs = some (.finite q)) : IsFloat q := by
  unfold readUnsigned? at h
  dsimp only at h
  split at h
  · exact isFloat_of_scaled (Option.some.inj h)
  · exact nomatch h

theorem isFloat_of_readDecimal? (h : readDecimal? cs = some (.finite q)) : IsFloat q := by
  unfold readDecimal? at h
  generalize splitSign (plainForm cs) = parts at h
  dsimp only at h
  split at h
  · exact nomatch h
  split at h
  · exact nomatch h
  obtain ⟨r, hr, h⟩ := Option.map_eq_some_iff.mp h
  split at h
  · -- a minus sign turns the finite readings into finite ones
    cases r with
    | finite p => exact Reading.finite.inj h ▸ (isFloat_of_readUnsigned? hr).neg
    | infinite negative => exact nomatch h
    | undefined => exact nomatch h
  · exact isFloat_of_readUnsigned? (h ▸ hr)

end Values

end CodeHealth.Number
