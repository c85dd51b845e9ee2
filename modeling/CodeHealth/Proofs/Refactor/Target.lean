import CodeHealth.Proofs.Detector.Failure
import CodeHealth.Proofs.Refactor.Exposure
import CodeHealth.Proofs.Refactor.Signature

/-!
# The target of a candidate

Whether a candidate makes its issue less is measured by the detectors. So the check fails exactly
where a detector fails on one of the texts, and otherwise it at most warns.
-/

namespace CodeHealth

variable {grammar : Grammar} {budget : Int} {text path : String} {hint : Option String}
  {language : Option Language} {ast : SourceTree} {options : Options} {context : FileContext}
  {type : IssueType}

/-- No detector can measure issues of the type in the tree. -/
def Unmeasurable (type : IssueType) (ast : SourceTree) (options : Options) : Prop :=
  type = .godClass ∧ GodClass.Unreportable ast options ∨
    type = .magicNumber ∧ MagicNumber.HasUndefined ast.root ∨
    type = .featureEnvy ∧ FeatureEnvy.Unreportable ast options

/-! ## Measures -/

namespace RiskCheck

theorem find?_detector {d : Detector} (hd : d ∈ defaultDetectors) (htype : type ∈ d.issueTypes)
    {language : Language} (happlies : d.appliesTo language = true) :
    (defaultDetectors.find? fun d => d.issueTypes.contains type && d.appliesTo language) =
      some d := by
  have hsome : (defaultDetectors.find? fun d =>
      d.issueTypes.contains type && d.appliesTo language).isSome := by
    rw [List.find?_isSome]
    exact ⟨d, hd, by rw [List.contains_iff_mem.mpr htype, happlies]; rfl⟩
  obtain ⟨found, hfound⟩ := Option.isSome_iff_exists.mp hsome
  have htold := List.find?_some hfound
  rw [Bool.and_eq_true, List.contains_iff_mem] at htold
  rw [hfound, eq_of_mem_issueTypes (List.mem_of_find?_eq_some hfound) hd htold.1 htype]

theorem failure?_of_measureType {e : DetectorError}
    (h : measureType defaultDetectors type ast context = .error e) :
    ∃ d ∈ defaultDetectors, type ∈ d.issueTypes ∧ d.measure? = none ∧
      d.failure? ast context = some ⟨d.name, context.path, e⟩ := by
  unfold measureType at h
  split at h
  · exact nomatch h
  · rename_i d hfind
    split at h
    · exact nomatch h
    · rename_i hmeasure
      have htold := List.find?_some hfind
      rw [Bool.and_eq_true, List.contains_iff_mem] at htold
      exact ⟨d, List.mem_of_find?_eq_some hfind, htold.1, hmeasure,
        Detector.failure?_eq_some_iff.mpr ⟨htold.2, e, map_eq_error_iff.mp h, rfl⟩⟩

theorem measureType_of_failure? {d : Detector} (hd : d ∈ defaultDetectors)
    (htype : type ∈ d.issueTypes) (hmeasure : d.measure? = none) {f : DetectorFailure}
    (h : d.failure? ast context = some f) :
    ∃ e, measureType defaultDetectors type ast context = .error e := by
  obtain ⟨happlies, e, hdetect, -⟩ := Detector.failure?_eq_some_iff.mp h
  refine ⟨e, ?_⟩
  unfold measureType
  rw [find?_detector hd htype happlies]
  simp only [hmeasure, hdetect]
  rfl

/-- Issues of a type can be measured unless the detector of this type fails. -/
theorem exists_measureType_error_iff (h : parseAs grammar budget text language path = .ok ast) :
    (∃ e, measureType defaultDetectors type ast context = .error e) ↔
      Unmeasurable type ast context.options := by
  constructor
  · rintro ⟨e, herror⟩
    obtain ⟨d, hd, htype, hmeasure, hfailure⟩ := failure?_of_measureType herror
    rcases Detector.cases_of_failure? hd hmeasure hfailure with rfl | rfl | rfl
    · obtain ⟨e, ⟨hlimit, hlarge⟩, -⟩ := (GodClass.failure?_eq_some_iff h).mp hfailure
      have hsome : (GodClass.limitFailure? context.options).isSome := by rw [hlimit]; rfl
      exact Or.inl ⟨List.mem_singleton.mp htype, GodClass.isSome_limitFailure?_iff.mp hsome, hlarge⟩
    · obtain ⟨-, hundefined⟩ := (MagicNumber.failure?_eq_some_iff h).mp hfailure
      exact Or.inr (Or.inl ⟨List.mem_singleton.mp htype, hundefined⟩)
    · obtain ⟨-, hlimit⟩ := (FeatureEnvy.failure?_eq_some_iff h).mp hfailure
      exact Or.inr (Or.inr ⟨List.mem_singleton.mp htype, hlimit⟩)
  · rintro (⟨rfl, hlimit, hlarge⟩ | ⟨rfl, hundefined⟩ | ⟨rfl, hlimit⟩)
    · obtain ⟨e, he⟩ := Option.isSome_iff_exists.mp (GodClass.isSome_limitFailure?_iff.mpr hlimit)
      exact measureType_of_failure? (d := GodClass.detector)
        (by simp [defaultDetectors, structuralDetectors]) List.mem_cons_self rfl
        ((GodClass.failure?_eq_some_iff h).mpr ⟨e, ⟨he, hlarge⟩, rfl⟩)
    · exact measureType_of_failure? (d := MagicNumber.detector)
        (by simp [defaultDetectors, structuralDetectors]) List.mem_cons_self rfl
        ((MagicNumber.failure?_eq_some_iff h).mpr ⟨rfl, hundefined⟩)
    · exact measureType_of_failure? (d := FeatureEnvy.detector)
        (by simp [defaultDetectors, structuralDetectors]) List.mem_cons_self rfl
        ((FeatureEnvy.failure?_eq_some_iff h).mpr ⟨rfl, hlimit⟩)

theorem measureType_eq_none_iff {detectors : List Detector} :
    measureType detectors type ast context = .ok none ↔
      (detectors.find? fun d => d.issueTypes.contains type && d.appliesTo ast.language) =
        none := by
  unfold measureType
  split
  · rename_i hnone
    exact ⟨fun _ => hnone, fun _ => rfl⟩
  · rename_i d hsome
    rw [hsome]
    split
    · exact ⟨nofun, nofun⟩
    · refine ⟨fun h => ?_, nofun⟩
      obtain ⟨issues, -, hcount⟩ := map_eq_ok_iff.mp h
      exact nomatch hcount

/-- What is not measured in one text is not measured in another one of the same language. -/
theorem measureType_eq_none {other : SourceTree} (hlanguage : ast.language = other.language)
    (h : measureType defaultDetectors type ast context = .ok none) :
    measureType defaultDetectors type other context = .ok none := by
  rw [measureType_eq_none_iff] at h ⊢
  rwa [← hlanguage]

/-! ## The check -/

theorem status_layer_eq_fail_iff {check : RiskCheck} {input : RiskInput} :
    (check.layer input).status = .fail ↔
      (∃ message, check.run input = .error message) ∨
        ∃ verdict, check.run input = .ok verdict ∧ verdict.status = .fail := by
  unfold layer
  cases check.run input <;> simp

theorem status_compareMeasures_ne_fail (type : IssueType) (before after : Option Nat) :
    (compareMeasures type before after).status ≠ .fail := by
  unfold compareMeasures
  split
  · split <;> exact nofun
  · exact nofun

theorem status_compareFunctions_ne_fail (before after : Nat) :
    (compareFunctions before after).status ≠ .fail := by
  unfold compareFunctions
  split <;> exact nofun

/-- The verdict on an issue that is measured in both texts, if anything is measured at all. -/
def compareMeasured (type : IssueType) (before after : Except DetectorError (Option Nat)) :
    Except String Verdict :=
  (before.mapError DetectorError.message).bind fun before =>
    if before.isNone then .ok (compareMeasures type none none)
    else (after.mapError DetectorError.message).map (compareMeasures type before)

theorem run_issueTarget {input : RiskInput} (htype : input.request.issueType = some type)
    (hchanges : input.changes ≠ []) (hother : type ≠ .duplicateCode) :
    issueTarget.run input =
      compareMeasured type (measureType defaultDetectors type input.old input.fileContext)
        (measureType defaultDetectors type input.new input.fileContext) := by
  have hsome : input.changes.isEmpty = false := by simpa using hchanges
  have htype' : (type == .duplicateCode) = false := by simpa using hother
  unfold issueTarget
  simp only [htype, hsome, htype', Bool.false_eq_true, if_false]
  rfl

/-- A failed measure fails the check, and nothing else does. -/
theorem compareMeasured_fails_iff {before after : Except DetectorError (Option Nat)}
    (hnone : before = .ok none → after = .ok none) :
    ((∃ message, compareMeasured type before after = .error message) ∨
        ∃ verdict, compareMeasured type before after = .ok verdict ∧ verdict.status = .fail) ↔
      (∃ e, before = .error e) ∨ ∃ e, after = .error e := by
  have hnever := status_compareMeasures_ne_fail type
  unfold compareMeasured
  cases before with
  | error e => simp [Except.mapError, Except.bind]
  | ok b =>
      cases b with
      | none => simp [hnone rfl, Except.mapError, Except.bind, hnever]
      | some b =>
          cases after <;> simp [Except.mapError, Except.bind, Except.map, hnever]

/-- The check of the target fails exactly if the code changes and the issues that it is for cannot
be measured in one of the texts. -/
theorem issueTarget_fail_iff {input : RiskInput} {oldText newText : String} {newBudget : Int}
    (hold : parseAs grammar budget oldText language path = .ok input.old)
    (hnew : parseAs grammar newBudget newText language path = .ok input.new) :
    (issueTarget.layer input).status = .fail ↔
      input.changes ≠ [] ∧ ∃ type, input.request.issueType = some type ∧
        (Unmeasurable type input.old input.options ∨
          Unmeasurable type input.new input.options) := by
  have hlanguage : input.old.language = input.new.language :=
    Option.some.inj ((language_of_parseAs hold).symm.trans (language_of_parseAs hnew))
  have hmeasured : ∀ type,
      ((∃ e, measureType defaultDetectors type input.old input.fileContext = .error e) ∨
          ∃ e, measureType defaultDetectors type input.new input.fileContext = .error e) ↔
        Unmeasurable type input.old input.options ∨ Unmeasurable type input.new input.options :=
    fun type => or_congr (exists_measureType_error_iff hold) (exists_measureType_error_iff hnew)
  rw [status_layer_eq_fail_iff]
  cases htype : input.request.issueType with
  | none =>
      unfold issueTarget
      simp [htype]
  | some type =>
      by_cases hchanges : input.changes = []
      · unfold issueTarget
        simp [htype, hchanges]
      · by_cases hduplicate : type = .duplicateCode
        · subst hduplicate
          have hnever : ¬ Unmeasurable .duplicateCode input.old input.options ∧
              ¬ Unmeasurable .duplicateCode input.new input.options := by
            simp [Unmeasurable]
          unfold issueTarget
          simp [htype, hchanges, hnever, status_compareFunctions_ne_fail]
        · rw [run_issueTarget htype hchanges hduplicate,
            compareMeasured_fails_iff (measureType_eq_none hlanguage), hmeasured type]
          simp [hchanges]

end RiskCheck

/-! ## Verifications -/

/-- The changed texts of a request cannot both be measured for its issue. -/
def Verification.TargetUnmeasurable (grammar : Grammar) (options : Options)
    (request : VerificationRequest) : Prop :=
  ∃ trees changes, checkSyntax grammar (start options request) = .ok trees ∧
    computeChanges trees.old trees.new options.maxDiffUnits = .ok changes ∧ changes ≠ [] ∧
      ∃ type, request.issueType = some type ∧
        (Unmeasurable type trees.old options ∨ Unmeasurable type trees.new options)

theorem ScoredRun.issueTarget_fail_iff (r : ScoredRun) :
    (RiskCheck.issueTarget.layer r.input).status = .fail ↔
      Verification.TargetUnmeasurable r.grammar r.options r.request := by
  obtain ⟨hold, hnew, -⟩ := Verification.of_checkSyntax r.checkSyntax_eq
  have hcheck : (RiskCheck.issueTarget.layer r.input).status = .fail ↔ _ :=
    RiskCheck.issueTarget_fail_iff hold (parse_of_parseStrict hnew)
  rw [hcheck]
  constructor
  · rintro ⟨hchanges, hfails⟩
    exact ⟨r.trees, r.changes, r.checkSyntax_eq, r.computeChanges_eq, hchanges, hfails⟩
  · rintro ⟨trees, changes, htrees, hchanges, hne, hfails⟩
    obtain rfl := Except.ok.inj (r.checkSyntax_eq.symm.trans htrees)
    obtain rfl := Except.ok.inj (r.computeChanges_eq.symm.trans hchanges)
    exact ⟨hne, hfails⟩

/-- A verification by the standard checks ends with a failed layer of the target exactly if its
changed texts cannot both be measured: the issue is a large class while a class of one of them
exceeds a limit and one limit is zero or beyond every 53-bit number, or it is a magic number while
one of them has a literal without a name that is read as the undefined number, or it is feature envy
while a method of one of them is reported and the limit is beyond every 53-bit number. -/
theorem target_fails_iff (grammar : Grammar) (options : Options) (request : VerificationRequest) :
    ∃ s, verify grammar options RiskCheck.standard request = .ok s ∧
      ((∃ l ∈ s.layers, l.name = "issue_target" ∧ l.status = .fail) ↔
        Verification.TargetUnmeasurable grammar options request) := by
  obtain ⟨v, -, -, hverify, houtcome, -, -⟩ :=
    verify_outcome grammar options RiskCheck.standard request
  refine ⟨v.suggestion, hverify, ?_⟩
  have hsyntax : "syntax" ≠ "issue_target" := by decide
  have hstructure : "structure" ≠ "issue_target" := by decide
  generalize hchanges : v.suggestion.changes = changes at houtcome
  generalize hlayers : v.suggestion.layers = layers at houtcome
  cases houtcome with
  | refused htrees =>
      constructor
      · rintro ⟨l, hl, hname, -⟩
        rw [List.mem_singleton.mp hl] at hname
        exact absurd hname hsyntax
      · rintro ⟨trees, -, hread, -⟩
        exact nomatch htrees.symm.trans hread
  | unaligned htrees herror =>
      constructor
      · rintro ⟨l, hl, hname, -⟩
        rcases List.mem_pair.mp hl with rfl | rfl
        · exact absurd hname hsyntax
        · exact absurd hname hstructure
      · rintro ⟨trees, changes, hread, hok, -⟩
        obtain rfl := Except.ok.inj (htrees.symm.trans hread)
        exact nomatch herror.symm.trans hok
  | @scored trees changes risks htrees hlines hok hrisks =>
      let r : ScoredRun := ⟨grammar, options, request, trees, changes, htrees, hok⟩
      have hmem : RiskCheck.issueTarget ∈ RiskCheck.standard := by simp [RiskCheck.standard]
      have hiff := (r.exists_failed_iff hmem).trans r.issueTarget_fail_iff
      rw [← hlayers, ← hiff]
      constructor
      · exact fun hfails => ⟨v.suggestion, hverify, hfails⟩
      · rintro ⟨s, hs, hfails⟩
        rwa [Except.ok.inj (hverify.symm.trans hs)]

/-! ## A limit of zero -/

/-- A request to make a class smaller by another name. -/
def renamedClassRequest : VerificationRequest :=
  { oldCode := "class A\x7b\x7d", newCode := "class B\x7b\x7d", language := "javascript"
    filePath := "a.js", issueId := none, issueType := some .godClass, explanation := ""
    confidence := none }

/-- The class under a name. -/
def namedClass (text : String) : SourceTree :=
  .ofGrammar 500000 text "a.js" .javascript (classTree 9 [])

def renamedClassRun : ScoredRun where
  grammar := fun _ _ => .ok (classTree 9 [])
  options := { maxClassLines := 0 }
  request := renamedClassRequest
  trees := ⟨namedClass "class A\x7b\x7d", namedClass "class B\x7b\x7d"⟩
  changes := _
  checkSyntax_eq := by
    have hnew : parseStrict (fun _ _ => .ok (classTree 9 [])) ({} : Options).maxAstNodes
        (Fence.strip "class B\x7b\x7d") (some "javascript") "a.js" =
          .ok (namedClass "class B\x7b\x7d") := rfl
    have hsyntax : Verification.checkSyntax (fun _ _ => .ok (classTree 9 []))
        (.start { maxClassLines := 0 } renamedClassRequest) = _ :=
      Verification.checkSyntax_eq rfl hnew
    exact hsyntax
  computeChanges_eq := computeChanges_of_le (by decide +kernel)

/-- A rename is only unrelated to its target, but with a limit of zero it fails. -/
theorem renamed_class_fails :
    ∃ s, verify (fun _ _ => .ok (classTree 9 [])) { maxClassLines := 0 } RiskCheck.standard
        renamedClassRequest = .ok s ∧
      ∃ l ∈ s.layers, l.name = "issue_target" ∧ l.status = .fail := by
  have hmem : RiskCheck.issueTarget ∈ RiskCheck.standard := by simp [RiskCheck.standard]
  exact (renamedClassRun.exists_failed_iff hmem).mpr (by decide +kernel)

end CodeHealth
