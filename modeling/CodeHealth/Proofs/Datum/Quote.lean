import CodeHealth.Datum.Printer
import CodeHealth.Datum.Reader
import Mathlib.Tactic.IntervalCases
import Mathlib.Tactic.SplitIfs

/-!
# Texts in quotes

A text in quotes is read back: each character from its escape, and then the closing quote. The
escape of a control character has four digits, and two such escapes in a row are no surrogates.
-/

namespace CodeHealth.Datum

/-! ## Escapes -/

/-- How a character is written: as it is, as a backslash and a mark, or by its number. -/
inductive Escape (c : Char) : List Char → Prop where
  | plain (hmin : 32 ≤ c.toNat) (hquote : c ≠ '"') (hslash : c ≠ '\\') : Escape c [c]
  | marked (mark : Char) (hmark : mark ≠ 'u')
      (hread : ∀ rest, readEscape (mark :: rest) = some (c, rest)) : Escape c ['\\', mark]
  | numbered (hmax : c.toNat < 32) :
      Escape c ['\\', 'u', '0', '0', hexDigit (c.toNat / 16), hexDigit c.toNat]

theorem escape_escapeChar (c : Char) : Escape c (escapeChar c) := by
  unfold escapeChar
  split_ifs with h1 h2 h3 h4 h5 h6 h7 h8
  · obtain rfl := eq_of_beq h1
    exact .marked '"' (by decide) fun _ => rfl
  · obtain rfl := eq_of_beq h2
    exact .marked '\\' (by decide) fun _ => rfl
  · obtain rfl := eq_of_beq h3
    exact .marked 'n' (by decide) fun _ => rfl
  · obtain rfl := eq_of_beq h4
    exact .marked 'r' (by decide) fun _ => rfl
  · obtain rfl := eq_of_beq h5
    exact .marked 't' (by decide) fun _ => rfl
  · have hc : c = '\x08' := Char.toNat_inj.mp (eq_of_beq h6)
    subst hc
    exact .marked 'b' (by decide) fun _ => rfl
  · have hc : c = '\x0c' := Char.toNat_inj.mp (eq_of_beq h7)
    subst hc
    exact .marked 'f' (by decide) fun _ => rfl
  · exact .numbered h8
  · exact .plain (by omega) (by simpa using h1) (by simpa using h2)

theorem readUnit_numbered {n : Nat} (hn : n < 32) (rest : List Char) :
    readUnit ('0' :: '0' :: hexDigit (n / 16) :: hexDigit n :: rest) = some (n, rest) := by
  interval_cases n <;> rfl

/-- After what could be the first of two surrogates, an escape by number can be read. -/
def UnitsReadable (cs : List Char) : Prop :=
  ∀ more, cs = '\\' :: 'u' :: more → ∃ n rest, readUnit more = some (n, rest)

theorem readEscape_numbered {c : Char} (hc : c.toNat < 32) {rest : List Char}
    (h : UnitsReadable rest) :
    readEscape ('u' :: '0' :: '0' :: hexDigit (c.toNat / 16) :: hexDigit c.toNat :: rest) =
      some (c, rest) := by
  have hunit := readUnit_numbered hc rest
  have hplain : (0xd800 ≤ c.toNat && c.toNat < 0xe000) = false := by
    rw [Bool.and_eq_false_iff]
    exact Or.inl (decide_eq_false (by omega))
  simp only [readEscape, hunit, Option.bind_eq_bind, Option.bind_some]
  split
  · rename_i more
    obtain ⟨n, tail, hn⟩ := h more rfl
    have hpair : (0xd800 ≤ c.toNat && c.toNat < 0xdc00 && 0xdc00 ≤ n && n < 0xe000) = false := by
      have hlow : decide (0xd800 ≤ c.toNat) = false := decide_eq_false (by omega)
      simp [hlow]
    rw [hn]
    dsimp only
    rw [hpair, hplain]
    exact congrArg (fun c => some (c, _)) (Char.ofNat_toNat c)
  · rw [hplain]
    exact congrArg (fun c => some (c, _)) (Char.ofNat_toNat c)

/-- After the escapes of some characters and a quote, or between them, no surrogate is cut off. -/
theorem unitsReadable_flatMap (cs rest : List Char) :
    UnitsReadable (cs.flatMap escapeChar ++ '"' :: rest) := by
  cases cs with
  | nil => exact fun more h => nomatch h
  | cons c cs =>
      intro more h
      rw [List.flatMap_cons, List.append_assoc] at h
      have hescape := escape_escapeChar c
      generalize escapeChar c = es at hescape h
      cases hescape with
      | plain hmin hquote hslash => exact absurd (List.cons.inj h).1 hslash
      | marked mark hmark hread => exact absurd (List.cons.inj (List.cons.inj h).2).1 hmark
      | numbered hmax =>
          obtain rfl := (List.cons.inj (List.cons.inj h).2).2
          exact ⟨_, _, readUnit_numbered hmax _⟩

/-! ## Quoted texts -/

theorem readChars_escapeChar {fuel : Nat} {done rest : List Char} {c : Char}
    (h : UnitsReadable rest) :
    readChars (fuel + 1) done (escapeChar c ++ rest) = readChars fuel (c :: done) rest := by
  have hescape := escape_escapeChar c
  generalize escapeChar c = es at hescape ⊢
  cases hescape with
  | plain hmin hquote hslash => simp [readChars, Nat.not_lt.mpr hmin]
  | marked mark hmark hread => simp [readChars, hread]
  | numbered hmax => simp [readChars, readEscape_numbered hmax h]

theorem readChars_flatMap {fuel : Nat} {done cs rest : List Char} (h : cs.length < fuel) :
    readChars fuel done (cs.flatMap escapeChar ++ '"' :: rest) =
      some (String.ofList (done.reverse ++ cs), rest) := by
  induction cs generalizing fuel done with
  | nil =>
      obtain ⟨fuel, rfl⟩ := Nat.exists_eq_add_one_of_ne_zero (Nat.ne_of_gt h)
      simp [readChars]
  | cons c cs ih =>
      obtain ⟨fuel, rfl⟩ := Nat.exists_eq_add_one_of_ne_zero (Nat.ne_zero_of_lt h)
      rw [List.flatMap_cons, List.append_assoc,
        readChars_escapeChar (unitsReadable_flatMap cs rest), ih (by simpa using h)]
      simp

theorem length_le_length_flatMap (cs : List Char) :
    cs.length ≤ (cs.flatMap escapeChar).length := by
  induction cs with
  | nil => exact Nat.le_refl _
  | cons c cs ih =>
      have hc : 1 ≤ (escapeChar c).length := by
        have hescape := escape_escapeChar c
        generalize escapeChar c = es at hescape ⊢
        cases hescape <;> simp
      simp only [List.flatMap_cons, List.length_append, List.length_cons]
      omega

/-- A text in quotes is read back, whatever follows it. -/
theorem readChars_quote (s : String) (rest : List Char) :
    ∃ body, (quote s).toList ++ rest = '"' :: body ∧
      readChars (body.length + 1) [] body = some (s, rest) := by
  refine ⟨s.toList.flatMap escapeChar ++ '"' :: rest, by simp [quote], ?_⟩
  have hlength := length_le_length_flatMap s.toList
  rw [readChars_flatMap (by simp only [List.length_append]; omega)]
  simp

end CodeHealth.Datum
