import CodeHealth.Proofs.Pattern.Capture
import CodeHealth.Proofs.Security.Mask
import CodeHealth.Proofs.Security.Scan

/-!
# Hits

The value of a hit is a part of its line, and that of a credential or a secret is no blank text and
holds no blanks. The line is shown as it is, except that a credential or a secret is masked wherever
it is found from left to right.
-/

namespace CodeHealth.Security

open Pattern

variable {A : Char → Prop} {rule : LiteralRule} {line value shown : String} {hit : Hit}

/-! ## Quotes -/

theorem isSuffix_dropMark (cs : List Char) : dropMark cs <:+ cs := by
  unfold dropMark
  dsimp only
  split
  · exact List.drop_suffix _ _
  · exact List.suffix_refl _

theorem isInfix_dropQuotes (cs : List Char) : dropQuotes cs <:+: cs := by
  unfold dropQuotes
  split
  · rename_i first second rest
    split
    · have hfront : (second :: rest).dropLast <+: second :: rest := List.dropLast_prefix _
      exact hfront.isInfix.trans (List.suffix_cons first _).isInfix
    · exact List.infix_refl _
  · exact List.infix_refl _

theorem isInfix_stripQuotes (s : String) : (stripQuotes s).toList <:+: s.toList := by
  unfold stripQuotes
  rw [String.toList_ofList]
  exact (isInfix_dropQuotes _).trans ((isSuffix_dropMark _).isInfix.trans (Text.isInfix_trim _))

/-! ## Values -/

theorem exists_search_of_hit? (h : rule.hit? line = some hit) :
    (∃ place, rule.pattern.search? line.toList = some place ∧ hit.value = valueOf place) ∧
      (rule.family.isConfidential = true → hit.value.any isPlaceholder = false) := by
  unfold LiteralRule.hit? at h
  split at h
  · exact nomatch h
  · rename_i place hplace
    dsimp only at h
    split at h
    · exact nomatch h
    · rename_i hshown
      obtain rfl := Option.some.inj h
      refine ⟨⟨place, hplace, rfl⟩, fun hconfidential => ?_⟩
      rw [hconfidential, Bool.true_and] at hshown
      exact Bool.not_eq_true _ ▸ hshown

/-- The value of a hit is a part of the line, of characters that the pattern can capture. -/
theorem value_of_hit? (hpattern : rule.pattern.CapturesOnly "value" A)
    (h : rule.hit? line = some hit) (hvalue : hit.value = some value) :
    value.toList <:+: line.toList ∧ ∀ c ∈ value.toList, A c := by
  obtain ⟨⟨place, hplace, hplaceValue⟩, -⟩ := exists_search_of_hit? h
  obtain ⟨text, htext, hstrip⟩ := Option.map_eq_some_iff.mp (hplaceValue.symm.trans hvalue)
  obtain ⟨hpart, hsatisfies⟩ := captured_of_search? hpattern hplace htext
  have hinside : value.toList <:+: text := by
    rw [← hstrip]
    have hquotes := isInfix_stripQuotes (String.ofList text)
    rwa [String.toList_ofList] at hquotes
  exact ⟨hinside.trans hpart, fun c hc => hsatisfies c (hinside.subset hc)⟩

theorem isInfix_of_hit? (h : rule.hit? line = some hit) (hvalue : hit.value = some value) :
    value.toList <:+: line.toList :=
  (value_of_hit? (capturesOnly_true "value" rule.pattern) h hvalue).1

theorem value_ne_nil_of_hit? (hconfidential : rule.family.isConfidential = true)
    (h : rule.hit? line = some hit) (hvalue : hit.value = some value) : value.toList ≠ [] := by
  have hplaceholder := (exists_search_of_hit? h).2 hconfidential
  rw [hvalue, Option.any_some] at hplaceholder
  unfold isPlaceholder at hplaceholder
  intro hnil
  rw [hnil, Bool.or_eq_false_iff] at hplaceholder
  exact Bool.noConfusion hplaceholder.2

/-! ## Redaction -/

theorem redact_self (line : String) (value : Option String) : redact line value value = line := by
  cases value with
  | none => rfl
  | some value => simp [redact]

theorem toList_redact_mask (hvalue : value.toList ≠ []) :
    (redact line (some value) (some (maskValue value))).toList =
      Text.replaceFrom value.toList (maskValue value).toList 0 line.toList := by
  have hlength : (maskValue value).toList.length = value.toList.length := by
    rw [toList_maskValue, length_starred (length_maskMarks _)]
  have hvalue' : value ≠ "" := fun h => hvalue (String.toList_eq_nil_iff.mpr h)
  have hmask : maskValue value ≠ "" := by
    intro hempty
    rw [hempty] at hlength
    exact hvalue (List.length_eq_zero_iff.mp hlength.symm)
  unfold redact
  dsimp only
  split
  · exact String.toList_ofList
  · rename_i hsame
    have hsame : value = maskValue value := by simpa [hvalue', hmask] using hsame
    rw [← hsame, Text.replaceFrom_self hvalue]
    rfl

/-- Which characters of the line a hit of the rule hides. -/
def LiteralRule.marks (rule : LiteralRule) (line : String) (hit : Hit) : List Bool :=
  match rule.family.isConfidential, hit.value with
  | true, some value => marksFrom value.toList 0 line.toList
  | _, _ => List.replicate line.toList.length false

theorem toList_redact_shownValue (h : rule.hit? line = some hit) :
    (rule.marks line hit).length = line.toList.length ∧
      (redact line hit.value (rule.shownValue hit)).toList =
        starred (rule.marks line hit) line.toList := by
  unfold LiteralRule.marks LiteralRule.shownValue
  cases hconfidential : rule.family.isConfidential with
  | false =>
      refine ⟨List.length_replicate, ?_⟩
      rw [starred_false, if_neg Bool.false_ne_true, redact_self]
  | true =>
      cases hvalue : hit.value with
      | none =>
          refine ⟨List.length_replicate, ?_⟩
          rw [starred_false]
          rfl
      | some value =>
          have hne := value_ne_nil_of_hit? hconfidential h hvalue
          obtain ⟨hlength, hmasked⟩ := replaceFrom_starred hne 0 line.toList
          refine ⟨hlength, ?_⟩
          rw [if_pos rfl, Option.map_some, toList_redact_mask hne, toList_maskValue, hmasked]
          rfl

/-- What is shown as the value can be read in the line as it is shown. -/
theorem isInfix_redact_of_shownValue (h : rule.hit? line = some hit)
    (hshown : rule.shownValue hit = some shown) :
    shown.toList <:+: (redact line hit.value (rule.shownValue hit)).toList := by
  unfold LiteralRule.shownValue at hshown ⊢
  split at hshown
  · rename_i hconfidential
    obtain ⟨value, hvalue, rfl⟩ := Option.map_eq_some_iff.mp hshown
    have hne := value_ne_nil_of_hit? hconfidential h hvalue
    rw [if_pos hconfidential, hvalue, Option.map_some, toList_redact_mask hne]
    exact Text.infix_replaceFrom hne (isInfix_of_hit? h hvalue)
  · rename_i hopen
    rw [if_neg hopen, redact_self]
    exact isInfix_of_hit? h hshown

end CodeHealth.Security
