import CodeHealth.Proofs.Refactor.Findings
import CodeHealth.Proofs.Tree.Config
import CodeHealth.Refactor.Suggest

/-!
# Asking for a suggestion

A generator is asked at most once, and only for a type of issue that is not excluded and a known
language. Whatever it answers, there is either no candidate, and this is said, or the suggestion that
its verification ends with.
-/

namespace CodeHealth

variable {grammar : Grammar} {options : Options} {generator : Generator} {issue : Issue}
  {oldCode tag : String} {language : Option String}

/-! ## Languages -/

theorem Language.tag_ofTag (tag : String) : (ofTag tag).tag = tag := by
  unfold ofTag
  split <;> rfl

/-- No language is given. -/
def NotGiven (language : Option String) : Prop :=
  language = none ∨ language = some ""

/-- No language is given, and the path of the issue does not tell one. -/
def LanguageUnknown (issue : Issue) (language : Option String) : Prop :=
  NotGiven language ∧ Language.detect? issue.filePath = none

/-- The tag of the language in which the code of an issue is read. -/
inductive ReadsIn (issue : Issue) (language : Option String) : String → Prop
  | given {tag : String} (h : language = some tag) (hne : tag ≠ "") : ReadsIn issue language tag
  | detected {found : Language} (h : NotGiven language)
      (hpath : Language.detect? issue.filePath = some found) : ReadsIn issue language found.tag

theorem suggestLanguage?_of_notGiven (h : NotGiven language) :
    suggestLanguage? issue language = (Language.detect? issue.filePath).map Language.tag := by
  rcases h with rfl | rfl <;> rfl

theorem suggestLanguage?_of_given (hne : tag ≠ "") :
    suggestLanguage? issue (some tag) = some tag := by
  unfold suggestLanguage? Language.resolve?
  dsimp only
  rw [if_neg (by simpa using hne), Option.map_some, Language.tag_ofTag]

theorem notGiven_or (language : Option String) :
    NotGiven language ∨ ∃ tag, language = some tag ∧ tag ≠ "" := by
  cases language with
  | none => exact .inl (.inl rfl)
  | some tag =>
      by_cases htag : tag = ""
      · exact .inl (.inr (congrArg some htag))
      · exact .inr ⟨tag, rfl, htag⟩

theorem languageUnknown_of_none (h : suggestLanguage? issue language = none) :
    LanguageUnknown issue language := by
  rcases notGiven_or language with hnone | ⟨tag, rfl, hne⟩
  · rw [suggestLanguage?_of_notGiven hnone, Option.map_eq_none_iff] at h
    exact ⟨hnone, h⟩
  · exact nomatch h.symm.trans (suggestLanguage?_of_given hne)

theorem readsIn_of_some (h : suggestLanguage? issue language = some tag) :
    ReadsIn issue language tag ∧ ¬ LanguageUnknown issue language := by
  rcases notGiven_or language with hnone | ⟨given, rfl, hne⟩
  · rw [suggestLanguage?_of_notGiven hnone, Option.map_eq_some_iff] at h
    obtain ⟨found, hfound, rfl⟩ := h
    exact ⟨.detected hnone hfound, fun hunknown => nomatch hfound.symm.trans hunknown.2⟩
  · rw [suggestLanguage?_of_given hne] at h
    obtain rfl := Option.some.inj h
    refine ⟨.given rfl hne, ?_⟩
    rintro ⟨hnone | hempty, -⟩
    · exact nomatch hnone
    · exact hne (Option.some.inj hempty)

/-! ## Answers -/

/-- What the generator is asked for an issue. -/
def Issue.call (issue : Issue) (oldCode : String) : GeneratorCall :=
  ⟨oldCode, issue.type, issue.context⟩

/-- The generator answers with a text that is not blank. -/
structure Generator.Answers (generator : Generator) (call : GeneratorCall) (candidate : String) :
    Prop where
  answer_eq : generator call = .ok (some candidate)
  filled : ∃ c ∈ candidate.toList, Text.isBlank c = false

/-- The generator fails or answers with something else than a text that is not blank. -/
def Generator.Fails (generator : Generator) (call : GeneratorCall) : Prop :=
  (∃ message, generator call = .error message) ∨
    ∃ output, generator call = .ok output ∧
      ∀ text, output = some text → ∀ c ∈ text.toList, Text.isBlank c = true

theorem Generator.Answers.not_fails {call : GeneratorCall} {candidate : String}
    (h : generator.Answers call candidate) : ¬ generator.Fails call := by
  obtain ⟨hanswer, c, hc, hfilled⟩ := h
  rintro (⟨message, herror⟩ | ⟨output, houtput, hblank⟩)
  · exact nomatch hanswer.symm.trans herror
  · obtain rfl := Except.ok.inj (hanswer.symm.trans houtput)
    exact absurd (hfilled.symm.trans (hblank candidate rfl c hc)) (by decide)

/-- A stripped text is empty exactly if it is blank. -/
theorem strip_beq_empty_iff {text : String} :
    (Text.strip text == "") = true ↔ ∀ c ∈ text.toList, Text.isBlank c = true := by
  rw [Config.strip_beq_empty, Config.isFilled]
  simp

/-! ## Outcomes -/

/-- The generator must not be asked. -/
def Unasked (options : Options) (issue : Issue) (language : Option String) : Prop :=
  issue.type.tag ∈ options.excludedTypes ∨ LanguageUnknown issue language

/-- How the search for a suggestion may end. -/
inductive Suggests (grammar : Grammar) (options : Options) (generator : Generator) (issue : Issue)
    (oldCode : String) (language : Option String) : SuggestOutcome → Prop
  | unasked (reason : String) (h : Unasked options issue language) :
      Suggests grammar options generator issue oldCode language
        ⟨[], .error (.unavailable ⟨issue.type, reason⟩)⟩
  | unanswered (reason : String) (hasked : ¬ Unasked options issue language)
      (h : generator.Fails (issue.call oldCode)) :
      Suggests grammar options generator issue oldCode language
        ⟨[issue.call oldCode], .error (.unavailable ⟨issue.type, reason⟩)⟩
  | verified {candidate tag : String} {s : Suggestion} (hasked : ¬ Unasked options issue language)
      (hanswer : generator.Answers (issue.call oldCode) candidate)
      (hreads : ReadsIn issue language tag)
      (hverify : verify grammar options RiskCheck.standard
        (candidateRequest issue oldCode candidate tag) = .ok s) :
      Suggests grammar options generator issue oldCode language ⟨[issue.call oldCode], .ok s⟩

theorem suggests (grammar : Grammar) (options : Options) (generator : Generator) (issue : Issue)
    (oldCode : String) (language : Option String) :
    Suggests grammar options generator issue oldCode language
      (suggest grammar options generator issue oldCode language) := by
  unfold suggest
  dsimp only
  split
  · rename_i hexcluded
    exact .unasked _ (.inl (List.contains_iff_mem.mp hexcluded))
  · rename_i hallowed
    split
    · rename_i hnone
      exact .unasked _ (.inr (languageUnknown_of_none hnone))
    · rename_i tag htag
      obtain ⟨hreads, hknown⟩ := readsIn_of_some htag
      have hasked : ¬ Unasked options issue language :=
        fun h => h.elim (fun hmem => hallowed (List.contains_iff_mem.mpr hmem)) hknown
      split
      · rename_i message herror
        exact .unanswered _ hasked (.inl ⟨message, herror⟩)
      · rename_i hnothing
        exact .unanswered _ hasked (.inr ⟨none, hnothing, nofun⟩)
      · rename_i candidate hcandidate
        split
        · rename_i hblank
          refine .unanswered _ hasked (.inr ⟨some candidate, hcandidate, ?_⟩)
          rintro text ⟨⟩
          exact strip_beq_empty_iff.mp hblank
        · rename_i hfilled
          have hanswer : generator.Answers (issue.call oldCode) candidate := by
            refine ⟨hcandidate, ?_⟩
            by_contra hblank
            apply hfilled
            rw [strip_beq_empty_iff]
            intro c hc
            by_contra hc'
            exact hblank ⟨c, hc, Bool.eq_false_iff.mpr hc'⟩
          have hverify := verify_eq_suggestion grammar options RiskCheck.standard
            (candidateRequest issue oldCode candidate tag)
          rw [hverify]
          exact .verified hasked hanswer hreads hverify

/-- A suggestion that waits for a review of what an issue says on its code. -/
structure Suggestion.IsFor (s : Suggestion) (issue : Issue) (oldCode : String) : Prop where
  status_eq : s.status = .pending
  issueId_eq : s.issueId = issue.id
  issueType_eq : s.issueType = some issue.type
  filePath_eq : s.filePath = some issue.filePath
  explanation_eq : s.explanation = issue.recommendation
  oldCode_eq : s.oldCode = oldCode

theorem isFor_of_verify {checks : List RiskCheck} {candidate : String} {s : Suggestion}
    (h : verify grammar options checks (candidateRequest issue oldCode candidate tag) = .ok s) :
    s.IsFor issue oldCode := by
  rw [verify_eq_suggestion] at h
  obtain rfl := Except.ok.inj h
  exact ⟨rfl, rfl, rfl, rfl, rfl, rfl⟩

/-- There is no candidate exactly if the type of the issue is excluded, its language is unknown, or
the generator does not answer with a text that is not blank. It is asked unless one of the first two
holds, and once only. In all other cases the answer is the suggestion that the verification of its
text ends with, for the issue and the code it was asked for. -/
theorem suggest_outcome (grammar : Grammar) (options : Options) (generator : Generator)
    (issue : Issue) (oldCode : String) (language : Option String) :
    ((∃ e, (suggest grammar options generator issue oldCode language).answer =
        .error (.unavailable e)) ↔
      issue.type.tag ∈ options.excludedTypes ∨ LanguageUnknown issue language ∨
        generator.Fails (issue.call oldCode)) ∧
    ((suggest grammar options generator issue oldCode language).calls = [] ↔
      issue.type.tag ∈ options.excludedTypes ∨ LanguageUnknown issue language) ∧
    (issue.type.tag ∉ options.excludedTypes → ¬ LanguageUnknown issue language →
        ¬ generator.Fails (issue.call oldCode) →
      ∃ candidate tag s, generator.Answers (issue.call oldCode) candidate ∧
        ReadsIn issue language tag ∧
        verify grammar options RiskCheck.standard
          (candidateRequest issue oldCode candidate tag) = .ok s ∧
        suggest grammar options generator issue oldCode language =
          ⟨[issue.call oldCode], .ok s⟩ ∧
        s.IsFor issue oldCode) := by
  have hends := suggests grammar options generator issue oldCode language
  generalize suggest grammar options generator issue oldCode language = outcome at hends ⊢
  rw [← or_assoc]
  cases hends with
  | unasked reason h =>
      refine ⟨iff_of_true ⟨_, rfl⟩ (.inl h), iff_of_true rfl h, fun hallowed hknown => ?_⟩
      exact absurd h (not_or.mpr ⟨hallowed, hknown⟩)
  | unanswered reason hasked h =>
      exact ⟨iff_of_true ⟨_, rfl⟩ (.inr h), iff_of_false (List.cons_ne_nil _ _) hasked,
        fun _ _ hanswers => absurd h hanswers⟩
  | @verified candidate tag s hasked hanswer hreads hverify =>
      refine ⟨iff_of_false ?_ ?_, iff_of_false (List.cons_ne_nil _ _) hasked, fun _ _ _ => ?_⟩
      · rintro ⟨e, he⟩
        exact nomatch he
      · exact not_or.mpr ⟨hasked, hanswer.not_fails⟩
      · exact ⟨candidate, tag, s, hanswer, hreads, hverify, rfl, isFor_of_verify hverify⟩

/-- A credential on the first line of settings. -/
def settingIssue : Issue :=
  { id := some "1", type := .hardcodedCredentials, severity := .critical, confidence := 90
    filePath := "app.conf", lineStart := 1, lineEnd := 1, functionName := none, className := none
    description := "Hardcoded credential on line 1"
    recommendation := IssueType.hardcodedCredentials.recommendation
    codeExcerpt := "", duplicateGroupId := none
    metadata := .security "config-credential" none false, status := .pending }

theorem answered_setting_outcome :
    settingIssue.type.tag ∉ ({} : Options).excludedTypes ∧
    ¬ LanguageUnknown settingIssue none ∧
    ¬ Generator.Fails (fun _ => .ok (some "a=1\n")) (settingIssue.call "password=abcd\n") ∧
    ∃ s, suggest (fun _ _ => .error "") {} (fun _ => .ok (some "a=1\n")) settingIssue
        "password=abcd\n" none = ⟨[settingIssue.call "password=abcd\n"], .ok s⟩ ∧
      s.IsFor settingIssue "password=abcd\n" := by
  have hallowed : settingIssue.type.tag ∉ ({} : Options).excludedTypes := by decide
  have hknown : ¬ LanguageUnknown settingIssue none := by
    rintro ⟨-, hnone⟩
    exact absurd hnone (by decide)
  have hanswer : Generator.Answers (fun _ => .ok (some "a=1\n"))
      (settingIssue.call "password=abcd\n") "a=1\n" := ⟨rfl, 'a', by decide, by decide⟩
  obtain ⟨-, -, hsuggests⟩ := suggest_outcome (fun _ _ => .error "") {}
    (fun _ => .ok (some "a=1\n")) settingIssue "password=abcd\n" none
  obtain ⟨-, -, s, -, -, -, hs, hfor⟩ := hsuggests hallowed hknown hanswer.not_fails
  exact ⟨hallowed, hknown, hanswer.not_fails, s, hs, hfor⟩

end CodeHealth
