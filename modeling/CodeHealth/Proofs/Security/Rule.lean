import CodeHealth.Proofs.Pattern.Capture
import CodeHealth.Security.Rule

/-!
# Values of the literal rules

What a rule for credentials or secrets captures as its value holds no blanks.
-/

namespace CodeHealth.Security

open Pattern

variable {c : Char} {s name : String} {A : Char → Prop}

/-- A character that is no white space. -/
def Solid (c : Char) : Prop :=
  Text.isBlank c = false

/-- A text without white space. -/
def isSolidText (s : String) : Bool :=
  s.toList.all fun c => !Text.isBlank c

theorem solid_of_mem (hs : isSolidText s = true) (hc : c ∈ s.toList) : Solid c := by
  have hsolid := List.all_eq_true.mp hs c hc
  rwa [Bool.not_eq_true'] at hsolid

theorem solid_of_lt (hlow : 0x20 < c.toNat) (hhigh : c.toNat < 0x85) : Solid c := by
  unfold Solid Text.isBlank
  have hcode : (decide (c.toNat ≤ 0x20) || decide (0x85 ≤ c.toNat)) = false := by
    rw [Bool.or_eq_false_iff, decide_eq_false_iff_not, decide_eq_false_iff_not]
    omega
  rw [hcode, Bool.false_and]

theorem isAlphanum_of_isUpper (h : c.isUpper = true) : c.isAlphanum = true :=
  Bool.or_eq_true_iff.mpr (.inl (Bool.or_eq_true_iff.mpr (.inl h)))

theorem isAlphanum_of_isDigit (h : c.isDigit = true) : c.isAlphanum = true :=
  Bool.or_eq_true_iff.mpr (.inr h)

/-- The ASCII letters and digits lie from zero to the small z. -/
theorem code_of_isAlphanum (h : c.isAlphanum = true) : 0x30 ≤ c.toNat ∧ c.toNat ≤ 0x7a := by
  have hrange : ∀ low high : Char, low.val ≤ c.val ∧ c.val ≤ high.val →
      low.toNat ≤ c.toNat ∧ c.toNat ≤ high.toNat := fun low high h =>
    ⟨UInt32.le_iff_toNat_le.mp h.1, UInt32.le_iff_toNat_le.mp h.2⟩
  rcases Bool.or_eq_true_iff.mp h with hletter | hdigit
  · rcases Bool.or_eq_true_iff.mp hletter with hcapital | hsmall
    · obtain ⟨hlow, hhigh⟩ := hrange 'A' 'Z' (of_decide_eq_true hcapital)
      exact ⟨Nat.le_trans (by decide) hlow, Nat.le_trans hhigh (by decide)⟩
    · obtain ⟨hlow, hhigh⟩ := Bool.and_eq_true_iff.mp hsmall
      obtain ⟨hlow, hhigh⟩ := hrange 'a' 'z' ⟨of_decide_eq_true hlow, of_decide_eq_true hhigh⟩
      exact ⟨Nat.le_trans (by decide) hlow, hhigh⟩
  · obtain ⟨hlow, hhigh⟩ := Bool.and_eq_true_iff.mp hdigit
    obtain ⟨hlow, hhigh⟩ := hrange '0' '9' ⟨of_decide_eq_true hlow, of_decide_eq_true hhigh⟩
    exact ⟨hlow, Nat.le_trans hhigh (by decide)⟩

theorem solid_of_isAlphanum (h : c.isAlphanum = true) : Solid c := by
  obtain ⟨hlow, hhigh⟩ := code_of_isAlphanum h
  apply solid_of_lt <;> omega

theorem consumes_solidExcept (s : String) : (solidExcept s).Consumes Solid := by
  intro c hc
  rw [Bool.and_eq_true, Bool.not_eq_true'] at hc
  exact hc.1

theorem consumes_alnumOr (hs : isSolidText s = true) : (alnumOr s).Consumes Solid := by
  intro c hc
  rcases Bool.or_eq_true_iff.mp hc with halnum | hother
  · exact solid_of_isAlphanum halnum
  · exact solid_of_mem hs (List.contains_iff_mem.mp hother)

theorem consumes_capitalOrDigit : capitalOrDigit.Consumes Solid := by
  intro c hc
  rcases Bool.or_eq_true_iff.mp hc with hcapital | hdigit
  · exact solid_of_isAlphanum (isAlphanum_of_isUpper hcapital)
  · exact solid_of_isAlphanum (isAlphanum_of_isDigit hdigit)

theorem consumes_among (hs : isSolidText s = true) : (among s).Consumes Solid :=
  fun _ hc => solid_of_mem hs (List.contains_iff_mem.mp hc)

theorem consumes_solid_lit (hs : isSolidText s = true) : (lit s).Consumes Solid :=
  consumes_lit fun _ => solid_of_mem hs

theorem capturesOnly_capitalOrDigit : capitalOrDigit.CapturesOnly name A :=
  trivial

/-- The value of a credential or a secret is captured without blanks. -/
theorem capturesOnly_solid_of_mem :
    ∀ rule ∈ literalRules, rule.family.isConfidential = true →
      rule.pattern.CapturesOnly "value" Solid := by
  intro rule hrule hconfidential
  simp only [literalRules, List.mem_cons, List.not_mem_nil, or_false] at hrule
  rcases hrule with rfl | rfl | rfl | rfl | rfl | rfl | rfl | rfl | hopen
  · simp [credentialAssignment, credentialWord, oneOf, CapturesOnly, Consumes, opt,
      Pattern.star, blank, atLeast, consumes_solidExcept]
  · simp [configCredential, credentialWord, oneOf, CapturesOnly, Consumes, opt,
      Pattern.star, plus, blank, wordOr, atLeast, consumes_solidExcept]
  · simp [databaseUrl, oneOf, CapturesOnly, Consumes, opt, plus, consumes_solidExcept]
  · have hakia : (lit "AKIA").Consumes Solid := consumes_solid_lit (by decide)
    have hasia : (lit "ASIA").Consumes Solid := consumes_solid_lit (by decide)
    simp [awsAccessKey, oneOf, CapturesOnly, Consumes, between, hakia, hasia,
      consumes_capitalOrDigit, capturesOnly_capitalOrDigit]
  · simp [privateKeyBlock, oneOf, CapturesOnly, opt]
  · have hhead : (lit "eyJ").Consumes Solid := consumes_solid_lit (by decide)
    have hclaims : (lit ".eyJ").Consumes Solid := consumes_solid_lit (by decide)
    have hdot : (lit ".").Consumes Solid := consumes_solid_lit (by decide)
    have hcode : (alnumOr "_-").Consumes Solid := consumes_alnumOr (by decide)
    simp [jsonWebToken, CapturesOnly, Consumes, atLeast, hhead, hclaims, hdot, hcode]
  · have hhead : (lit "gh").Consumes Solid := consumes_solid_lit (by decide)
    have hkind : (among "pousr").Consumes Solid := consumes_among (by decide)
    have hmark : (lit "_").Consumes Solid := consumes_solid_lit (by decide)
    have hcode : (alnumOr "").Consumes Solid := consumes_alnumOr (by decide)
    simp [githubToken, CapturesOnly, Consumes, atLeast, hhead, hkind, hmark, hcode]
  · have hhead : (lit "xox").Consumes Solid := consumes_solid_lit (by decide)
    have hkind : (among "baprs").Consumes Solid := consumes_among (by decide)
    have hmark : (lit "-").Consumes Solid := consumes_solid_lit (by decide)
    have hcode : (alnumOr "-").Consumes Solid := consumes_alnumOr (by decide)
    simp [slackToken, CapturesOnly, Consumes, atLeast, hhead, hkind, hmark, hcode]
  · -- the other rules are for values that may be shown
    rcases hopen with rfl | rfl | rfl | rfl | rfl | rfl <;> exact nomatch hconfidential

end CodeHealth.Security
