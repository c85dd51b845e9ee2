import CodeHealth.Proofs.Pattern.Lead
import CodeHealth.Proofs.Security.Rule
import CodeHealth.Security.Scanner

/-!
# Assigned names

The rule for credentials in assignments starts its matches at the word for the credential. A search
that takes the name in front of that word along finds the same.
-/

namespace CodeHealth.Security

open Pattern

variable {c d : Char} {s : String}

/-! ## Characters of names -/

/-- The characters that names in settings consist of. -/
def isNameChar (c : Char) : Bool :=
  Text.isWordChar c || ".-".toList.contains c

theorem isNameChar_of_isAlphanum (h : c.isAlphanum = true) : isNameChar c = true := by
  have hascii : c.toNat < 128 := Nat.lt_of_le_of_lt (code_of_isAlphanum h).2 (by decide)
  unfold isNameChar Text.isWordChar Text.isAlphanumeric
  rw [if_pos hascii, h, Bool.or_true, Bool.true_or]

theorem isAlphanum_of_toLower (h : d.toLower.isAlphanum = true) : d.isAlphanum = true := by
  unfold Char.toLower at h
  split at h
  · rename_i hcapital
    exact isAlphanum_of_isUpper (decide_eq_true hcapital)
  · exact h

theorem isNameChar_of_sameLetter (hc : c.toLower.isAlphanum = true)
    (h : sameLetter c d = true) : isNameChar d = true := by
  rcases Bool.or_eq_true_iff.mp h with h | h
  · rw [beq_iff_eq] at h
    exact isNameChar_of_isAlphanum (isAlphanum_of_toLower (h ▸ hc))
  · split at h
    · rcases Bool.or_eq_true_iff.mp h with h | h
      · rw [beq_iff_eq.mp h]
        decide +kernel
      · rw [beq_iff_eq.mp h]
        decide +kernel
    · rw [beq_iff_eq.mp h]
      decide +kernel
    · rw [beq_iff_eq.mp h]
      decide +kernel
    · exact nomatch h

theorem isNameChar_eq_false_of_isBlank (h : Text.isBlank c = true) : isNameChar c = false := by
  have hcodes : ∀ code ∈ Text.blankCodes, isNameChar (Char.ofNat code) = false := by
    decide +kernel
  have hcode := hcodes c.toNat (List.contains_iff_mem.mp (Bool.and_eq_true_iff.mp h).2)
  rwa [Char.ofNat_toNat] at hcode

/-! ## Words for credentials -/

/-- A text of letters and digits, with at least one of them. -/
def isWordText (s : String) : Bool :=
  !s.toList.isEmpty && s.toList.all fun c => c.toLower.isAlphanum

theorem isWord_litAnyCase (h : isWordText s = true) : IsWord isNameChar (litAnyCase s) := by
  obtain ⟨hne, hall⟩ := Bool.and_eq_true_iff.mp h
  rw [Bool.not_eq_true', List.isEmpty_eq_false_iff] at hne
  exact
    { isPlain := isPlain_litAnyCase s
      advances := advances_litAnyCase hne
      consumes := consumes_litAnyCase fun c hc _ =>
        isNameChar_of_sameLetter (List.all_eq_true.mp hall c hc) }

theorem isWord_credentialWord : IsWord isNameChar credentialWord := by
  have htexts : ["password", "passwd", "pwd", "secret", "api", "key", "apikey", "access", "token",
      "auth", "private", "client"].all isWordText = true := by
    decide +kernel
  have hword := fun s hs => isWord_litAnyCase (List.all_eq_true.mp htexts s hs)
  have hlink : ∀ c, "_-".toList.contains c = true → isNameChar c = true := by
    intro c hc
    have hlinks : "_-".toList.all isNameChar = true := by
      decide +kernel
    exact List.all_eq_true.mp hlinks c (List.contains_iff_mem.mp hc)
  have hjoin : ∀ {first second}, IsWord isNameChar first → IsWord isNameChar second →
      IsWord isNameChar (first ++ opt (among "_-") ++ second) := fun hfirst hsecond =>
    hfirst.join hlink hsecond
  apply IsWord.oneOf (List.cons_ne_nil _ _)
  simp [hword, hjoin]

/-! ## Assignments -/

/-- Behind the word an assignment goes on with a quote, a blank or a sign. -/
theorem beginsWith_sign (pattern : Pattern) :
    (opt (among "\"'") ++ (star blank ++ (among ":=" ++ pattern))).BeginsWith
      fun c => isNameChar c = false := by
  have hamong : ∀ s : String, (s.toList.all fun c => !isNameChar c) = true →
      (among s).BeginsWith fun c => isNameChar c = false := by
    intro s hs
    apply (beginsWith_char _).imp
    intro c hc
    have hmem := List.all_eq_true.mp hs c (List.contains_iff_mem.mp hc)
    rwa [Bool.not_eq_true'] at hmem
  have hblank : blank.BeginsWith fun c => isNameChar c = false :=
    (beginsWith_char Text.isBlank).imp fun _ => isNameChar_eq_false_of_isBlank
  exact (hamong _ (by decide)).iterate_append
    (hblank.iterate_append ((hamong _ (by decide)).append pattern))

theorem endsAlike_credentialAssignment : EndsAlike isNameChar credentialAssignment.pattern := by
  apply (isWord_credentialWord.endsAlike_append (beginsWith_sign (star blank ++
    (.capture "q" (among "\"'\x60") ++
      (.capture "value" (atLeast 4 (solidExcept "\"'\x60")) ++ .again "q"))))).congr
  intro p
  simp only [credentialAssignment, ends_append_assoc]

/-- The rule, with the whole name as a part of its matches. -/
def namedAssignment : LiteralRule :=
  { credentialAssignment with pattern := lead isNameChar credentialAssignment.pattern }

/-- The name in front of the word for a credential changes no match of the rule. -/
theorem findAll_namedAssignment (cs : List Char) :
    namedAssignment.pattern.findAll cs = credentialAssignment.pattern.findAll cs :=
  endsAlike_credentialAssignment.findFrom_lead 0 none cs

theorem hit?_namedAssignment (line : String) :
    namedAssignment.hit? line = credentialAssignment.hit? line := by
  have hsearch : namedAssignment.pattern.search? line.toList =
      credentialAssignment.pattern.search? line.toList := by
    rw [← head?_findAll, ← head?_findAll, findAll_namedAssignment]
  unfold LiteralRule.hit?
  rw [hsearch]
  rfl

end CodeHealth.Security
