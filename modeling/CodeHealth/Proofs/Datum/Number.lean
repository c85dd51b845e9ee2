import CodeHealth.Datum.Printer
import CodeHealth.Datum.Reader
import CodeHealth.Proofs.Number.Numeral

/-!
# Numbers in texts of values

The text of an integer or of a 53-bit number is read back as that number, wherever a value ends.
-/

namespace CodeHealth.Datum

open Number

/-- What may follow a value: the end, a comma or a closing bracket. -/
def Stops (rest : List Char) : Prop :=
  ∀ c ∈ rest.head?, c = ',' ∨ c = ']' ∨ c = '\x7d'

theorem stops_nil : Stops [] :=
  fun _ hc => nomatch hc

theorem stops_cons {c : Char} {rest : List Char} (h : c = ',' ∨ c = ']' ∨ c = '\x7d') :
    Stops (c :: rest) := by
  rintro _ ⟨⟩
  exact h

variable {rest : List Char} {q : Rat}

theorem Stops.isDigit_eq_false (h : Stops rest) : ∀ c ∈ rest.head?, c.isDigit = false := by
  intro c hc
  rcases h c hc with rfl | rfl | rfl <;> rfl

/-- The sign in front of a number. -/
def signChars (negative : Bool) : List Char :=
  if negative then ['-'] else []

theorem splitMinus_append {c : Char} (negative : Bool) (hc : c.isDigit) (cs : List Char) :
    splitMinus (signChars negative ++ c :: cs) = (negative, c :: cs) := by
  cases negative with
  | false =>
      have hne : c ≠ '-' := by
        rintro rfl
        exact absurd hc (by decide)
      simp [signChars, splitMinus, hne]
  | true => rfl

/-- A character that a number starts with. -/
def leadsNumber (c : Char) : Bool :=
  c == '-' || c.isDigit

theorem exists_signChars_cons (negative : Bool) {cs : List Char} (hne : cs ≠ [])
    (h : ∀ c ∈ cs, c.isDigit) (rest : List Char) :
    ∃ c tail, signChars negative ++ cs ++ rest = c :: tail ∧ leadsNumber c := by
  obtain ⟨c, cs, rfl⟩ := List.exists_cons_of_ne_nil hne
  cases negative with
  | false => exact ⟨c, cs ++ rest, rfl, by simp [leadsNumber, h c List.mem_cons_self]⟩
  | true => exact ⟨'-', c :: cs ++ rest, rfl, rfl⟩

theorem takePlaces_of_stops (h : Stops rest) : takePlaces rest = [] := by
  cases rest with
  | nil => rfl
  | cons c cs => rcases h c rfl with rfl | rfl | rfl <;> rfl

theorem takeExponent_of_stops (h : Stops rest) : takeExponent rest = [] := by
  cases rest with
  | nil => rfl
  | cons c cs => rcases h c rfl with rfl | rfl | rfl <;> rfl

theorem takePlaces_fraction (n : Numeral) (h : Stops rest) :
    takePlaces (n.fraction ++ (n.scale ++ rest)) = n.fraction := by
  have hstop : ∀ c ∈ (n.scale ++ rest).head?, c.isDigit = false := by
    unfold Numeral.scale
    split
    · exact h.isDigit_eq_false
    · rintro _ ⟨⟩
      rfl
  unfold Numeral.fraction
  split_ifs with hplaces
  · rw [List.nil_append]
    unfold Numeral.scale
    split
    · exact takePlaces_of_stops h
    · rfl
  · simp only [List.cons_append, takePlaces]
    rw [takeWhile_append_stop n.isDigit_of_mem_places hstop, if_neg hplaces]

theorem takeExponent_signed {sign : Char} (h : sign = '+' ∨ sign = '-') (cs : List Char) :
    takeExponent ('e' :: sign :: cs) =
      if (cs.takeWhile Char.isDigit).isEmpty then []
      else 'e' :: sign :: cs.takeWhile Char.isDigit := by
  rcases h with rfl | rfl <;> rfl

theorem takeExponent_scale (n : Numeral) (h : Stops rest) :
    takeExponent (n.scale ++ rest) = n.scale := by
  unfold Numeral.scale
  split
  · exact takeExponent_of_stops h
  · rename_i e he
    have hsign : (if 0 ≤ e then '+' else '-') = '+' ∨ (if 0 ≤ e then '+' else '-') = '-' := by
      split <;> simp
    rw [List.cons_append, List.cons_append, takeExponent_signed hsign,
      takeWhile_append_stop isDigit_of_mem_toDigits h.isDigit_eq_false,
      if_neg (by simp [Nat.toDigits_ne_nil])]

theorem readPlainDigits?_eq {cs : List Char} (hne : cs ≠ []) (h : ∀ c ∈ cs, c.isDigit)
    (hplain : cs.head? = some '0' → cs = ['0']) :
    readPlainDigits? cs = some (Nat.ofDigitChars 10 cs 0) := by
  have hall : cs.all Char.isDigit = true := List.all_eq_true.mpr h
  unfold readPlainDigits?
  split
  · exact absurd (hplain rfl) (by simp)
  · rw [if_pos hall, readDigits?_ten hne h]

theorem readNumber_chars {n : Numeral} (h : readUnsigned? n.chars = some (.finite q))
    (negative : Bool) (hrest : Stops rest) :
    readNumber (signChars negative ++ n.chars ++ rest) =
      some (.float (if negative then -q else q), rest) := by
  obtain ⟨c, cs, hwhole⟩ := List.exists_cons_of_ne_nil n.whole_ne_nil
  have hc : c.isDigit := n.isDigit_of_mem_whole c (hwhole ▸ List.mem_cons_self)
  have hchars : n.chars ++ rest = n.whole ++ (n.fraction ++ (n.scale ++ rest)) := by
    rw [Numeral.chars, List.append_assoc, List.append_assoc]
  have hsplit : splitMinus (signChars negative ++ n.chars ++ rest) =
      (negative, n.whole ++ (n.fraction ++ (n.scale ++ rest))) := by
    rw [List.append_assoc, hchars, hwhole]
    exact splitMinus_append negative hc _
  have htake := takeWhile_append_stop n.isDigit_of_mem_whole
    (n.head?_fraction_append hrest.isDigit_eq_false)
  have hmarked : (n.fraction.isEmpty && n.scale.isEmpty) = false := by
    unfold Numeral.fraction Numeral.scale
    cases hplaces : n.places with
    | nil =>
        cases hexp : n.exponent with
        | none => simpa [hplaces, hexp] using n.marked
        | some e => rfl
    | cons c cs => rfl
  unfold readNumber
  rw [hsplit]
  dsimp only
  rw [htake, List.drop_left, takePlaces_fraction n hrest, List.drop_left,
    takeExponent_scale n hrest, List.drop_left,
    readPlainDigits?_eq n.whole_ne_nil n.isDigit_of_mem_whole n.plain]
  dsimp only
  rw [hmarked, ← Numeral.chars, h]
  rfl

theorem toList_toString (n : Int) :
    (toString n).toList = signChars (n < 0) ++ Nat.toDigits 10 n.natAbs := by
  cases n with
  | ofNat m =>
      have h : toString (Int.ofNat m) = toString m := rfl
      have hneg : ¬ Int.ofNat m < 0 := not_lt.mpr (Int.natCast_nonneg m)
      rw [h, Nat.toString_eq_ofList_toDigits, String.toList_ofList]
      simp [signChars]
  | negSucc m =>
      have h : toString (Int.negSucc m) = "-" ++ toString (m + 1) := rfl
      rw [h, Nat.toString_eq_ofList_toDigits, String.toList_append, String.toList_ofList]
      simp [signChars]

/-- The text of an integer is read back. -/
theorem readNumber_toString (n : Int) (hrest : Stops rest) :
    readNumber ((toString n).toList ++ rest) = some (.int n, rest) := by
  have hne : Nat.toDigits 10 n.natAbs ≠ [] := Nat.toDigits_ne_nil
  obtain ⟨c, cs, hdigits⟩ := List.exists_cons_of_ne_nil hne
  have hc : c.isDigit := isDigit_of_mem_toDigits c (hdigits ▸ List.mem_cons_self)
  have hsplit : splitMinus ((toString n).toList ++ rest) =
      (decide (n < 0), Nat.toDigits 10 n.natAbs ++ rest) := by
    rw [toList_toString, List.append_assoc, hdigits]
    exact splitMinus_append _ hc _
  unfold readNumber
  rw [hsplit]
  dsimp only
  rw [takeWhile_append_stop isDigit_of_mem_toDigits hrest.isDigit_eq_false, List.drop_left,
    takePlaces_of_stops hrest, List.length_nil, List.drop_zero, takeExponent_of_stops hrest,
    readPlainDigits?_eq hne isDigit_of_mem_toDigits head?_toDigits, Nat.ofDigitChars_ten_toDigits]
  have hvalue : (if decide (n < 0) = true then -(n.natAbs : Int) else n.natAbs) = n := by
    split
    · rename_i hneg
      have hneg' := of_decide_eq_true hneg
      omega
    · rename_i hneg
      have hneg' := not_lt.mp (mt decide_eq_true hneg)
      omega
  simp only [List.isEmpty_nil, Bool.and_self, if_true, hvalue, List.length_nil, List.drop_zero]

theorem exists_toString_cons (n : Int) :
    ∃ c cs, (toString n).toList = c :: cs ∧ leadsNumber c := by
  have h := exists_signChars_cons (n < 0) (Nat.toDigits_ne_nil (n := n.natAbs) (b := 10))
    isDigit_of_mem_toDigits []
  rwa [List.append_nil, ← toList_toString] at h

/-- The text of a 53-bit number is a sign and a literal that is read as its magnitude. -/
theorem exists_numeral_text (hq : IsFloat q) :
    ∃ (negative : Bool) (n : Numeral) (p : Rat), (text q).toList = signChars negative ++ n.chars ∧
      readUnsigned? n.chars = some (.finite p) ∧ (if negative then -p else p) = q := by
  unfold text
  split_ifs with hzero hneg
  · exact ⟨false, Numeral.zero, 0, rfl, rfl, (eq_of_beq hzero).symm⟩
  · obtain ⟨n, hchars, hread⟩ := exists_numeral_shortest hq.neg (neg_pos.mpr hneg)
    exact ⟨true, n, -q, by simp [signChars, hchars], hread, neg_neg q⟩
  · have hpos : 0 < q := lt_of_le_of_ne (not_lt.mp hneg) (Ne.symm (by simpa using hzero))
    obtain ⟨n, hchars, hread⟩ := exists_numeral_shortest hq hpos
    exact ⟨false, n, q, by simp [signChars, hchars], hread, rfl⟩

/-- The text of a 53-bit number is read back. -/
theorem readNumber_text (hq : IsFloat q) (hrest : Stops rest) :
    readNumber ((text q).toList ++ rest) = some (.float q, rest) := by
  obtain ⟨negative, n, p, htext, hread, rfl⟩ := exists_numeral_text hq
  rw [htext, readNumber_chars hread negative hrest]

theorem exists_text_cons (hq : IsFloat q) :
    ∃ c cs, (text q).toList = c :: cs ∧ leadsNumber c := by
  obtain ⟨negative, n, -, htext, -, -⟩ := exists_numeral_text hq
  rw [htext, Numeral.chars, List.append_assoc, ← List.append_assoc]
  exact exists_signChars_cons negative n.whole_ne_nil n.isDigit_of_mem_whole _

end CodeHealth.Datum
