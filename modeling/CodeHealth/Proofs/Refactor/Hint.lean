import CodeHealth.Proofs.Refactor.Findings
import CodeHealth.Proofs.Refactor.Introduced
import CodeHealth.Proofs.Refactor.Target
import CodeHealth.Proofs.Security.Scope
import CodeHealth.Proofs.Text.Separator

/-!
# The hinted language

A request may leave its language out where the path tells it. Its texts are read alike then, but the
scan takes them for code. So a verification comes to the same end for code, and for settings exactly
if none of the rules that are not for every file matters.
-/

namespace CodeHealth

variable {language other : Language} {ast : SourceTree} {context : FileContext}

/-! ## Detected languages -/

theorem Language.isSupported_of_detect? {path : String} (h : detect? path = some language) :
    language.isSupported = true := by
  unfold detect? ofExtension? at h
  dsimp only at h
  repeat' split at h
  all_goals first | cases h; rfl | cases h

theorem Language.ofTag_tag (h : language.isSupported = true) : ofTag language.tag = language := by
  cases language with
  | other tag => exact nomatch h
  | _ => rfl

theorem Language.resolve?_tag (h : language.isSupported = true) (path : String) :
    resolve? (some language.tag) path = some language := by
  cases language with
  | other tag => exact nomatch h
  | _ => rfl

namespace RiskCheck

open Security

/-! ## Secrets without a hint -/

/-- The secrets of a text, each where it is found. -/
theorem secrets_exposure (ast : SourceTree) (context : FileContext) :
    (exposure {} ast context).secrets = (ast.lines.zipIdx 1).flatMap fun entry =>
      (literalRules.filter fun rule => rule.inScope context.language).filterMap fun rule =>
        (rule.hit? entry.1).bind fun hit =>
          secretTrace? ((rule.finding context.options entry.2 entry.1 hit).issue ast) := by
  unfold exposure
  dsimp only
  rw [List.filterMap_append, filterMap_secretTrace?_checkLoggingCalls, List.append_nil]
  unfold Scanner.scanLines lineFindings
  dsimp only
  rw [List.filterMap_flatMap]
  simp only [List.filterMap_map, List.filterMap_filterMap, Option.bind_map]
  rfl

/-- No literal rule finds a logging call. -/
theorem logging_exposure (ast : SourceTree) (context : FileContext) :
    (exposure {} ast context).logging =
      (({} : Scanner).checkLoggingCalls ast context).filterMap loggingTrace? := by
  have hnone : (({} : Scanner).scanLines ast context).filterMap loggingTrace? = [] := by
    rw [List.filterMap_eq_nil_iff]
    intro i hi
    obtain ⟨r, rfl⟩ := mem_scanLines_iff.mp hi
    have htype : (r.issue.type == .unsafeLogging) = false :=
      beq_eq_false_iff_ne.mpr (type_ne_unsafeLogging r.rule_mem)
    unfold loggingTrace?
    split
    · rw [htype]
      rfl
    · rfl
  unfold exposure
  dsimp only
  rw [List.filterMap_append, hnone, List.nil_append]

theorem rule_of_secretTrace? {rule : LiteralRule} {options : Options} {number : Nat} {line : String}
    {hit : Hit} {t : Trace}
    (h : secretTrace? ((rule.finding options number line hit).issue ast) = some t) :
    t.print.rule = rule.id ∧
      (rule.type = .hardcodedCredentials ∨ rule.type = .hardcodedSecrets) := by
  unfold secretTrace? LiteralRule.finding Finding.issue at h
  dsimp only at h
  split at h
  · rename_i htype
    obtain rfl := Option.some.inj h
    exact ⟨rfl, by simpa using htype⟩
  · exact nomatch h

/-- Not what only the rule for settings finds. -/
def isGeneral (p : Fingerprint) : Bool :=
  p.rule != configCredential.id

/-- Taken for code, settings keep all secrets but those that only the rule for settings finds. -/
theorem exposure_other (ast : SourceTree) (context : FileContext) (tag : String) :
    exposure {} ast { context with language := .other tag } =
      (exposure {} ast { context with language := .config }).keeping isGeneral := by
  have hsecrets : (exposure {} ast { context with language := .other tag }).secrets =
      (exposure {} ast { context with language := .config }).secrets.filter fun t =>
        isGeneral t.print := by
    rw [secrets_exposure, secrets_exposure, List.filter_flatMap]
    refine congrArg (List.flatMap · _) (funext fun entry => ?_)
    rw [List.filter_filterMap, List.filterMap_filter, List.filterMap_filter]
    refine List.filterMap_congr fun rule hrule => ?_
    cases hhit : (rule.hit? entry.1).bind fun hit =>
        secretTrace? ((rule.finding context.options entry.2 entry.1 hit).issue ast) with
    | none =>
        simp
    | some t =>
        obtain ⟨hit, -, ht⟩ := Option.bind_eq_some_iff.mp hhit
        obtain ⟨hid, htype⟩ := rule_of_secretTrace? ht
        rw [LiteralRule.inScope_other, LiteralRule.inScope_config, Option.filter_some]
        rcases scope_of_mem hrule with hscope | rfl | ⟨-, hother⟩
        · have hgeneral : isGeneral t.print = true := by
            unfold isGeneral
            rw [hid, bne_iff_ne]
            exact id_ne_of_scope_ne hrule (by rw [hscope]; exact nofun)
          rw [hscope, hgeneral]
          rfl
        · have hspecial : isGeneral t.print = false := by
            unfold isGeneral
            rw [hid, bne_self_eq_false]
          rw [hspecial]
          rfl
        · -- the rules for code alone leave no trace
          rcases htype with htype | htype <;> rcases hother with hother | hother <;>
            exact nomatch htype.symm.trans hother
  have hlogging : (exposure {} ast { context with language := .other tag }).logging =
      (exposure {} ast { context with language := .config }).logging := by
    rw [logging_exposure, logging_exposure]
    rfl
  unfold Exposure.keeping
  rw [← hsecrets, ← hlogging]

/-- The secrets of a line that only the rule for settings finds. -/
def settingPrints (line : String) : List Fingerprint :=
  (linePrints .config line).filter fun p => p.rule == configCredential.id

/-- Whether a language is hinted matters to the verdict on settings exactly if something that only
the rule for settings finds comes in. -/
theorem compareExposure_other_eq_iff (old new : SourceTree) (context : FileContext)
    (tag : String) :
    compareExposure (exposure {} old { context with language := .other tag })
          (exposure {} new { context with language := .other tag }) =
        compareExposure (exposure {} old { context with language := .config })
          (exposure {} new { context with language := .config }) ↔
      (new.lines.flatMap settingPrints).Subperm (old.lines.flatMap settingPrints) := by
  have hprints : ∀ lines : List String, lines.flatMap settingPrints =
      (lines.flatMap (linePrints .config)).filter fun p => p.rule == configCredential.id := by
    intro lines
    rw [List.filter_flatMap]
    rfl
  have hcount : ∀ p : Fingerprint, p.rule = configCredential.id → ∀ lines : List String,
      (lines.flatMap settingPrints).count p = (lines.flatMap (linePrints .config)).count p := by
    intro p hp lines
    rw [hprints]
    exact List.count_filter (p := fun q : Fingerprint => q.rule == configCredential.id)
      (beq_iff_eq.mpr hp)
  rw [exposure_other, exposure_other, compareExposure_keeping_eq_iff, List.subperm_ext_iff]
  simp only [mem_introduced_iff, map_print_secrets_exposure, isGeneral, bne_iff_ne]
  constructor
  · intro h p hp
    rw [hprints, List.mem_filter, beq_iff_eq] at hp
    rw [hcount p hp.2, hcount p hp.2]
    exact Nat.le_of_not_lt fun hlt => h p hlt hp.2
  · intro h p hlt hp
    have hmem : p ∈ new.lines.flatMap settingPrints := by
      rw [hprints, List.mem_filter, beq_iff_eq]
      exact ⟨List.count_pos_iff.mp (Nat.zero_lt_of_lt hlt), hp⟩
    have hle := h p hmem
    rw [hcount p hp, hcount p hp] at hle
    exact Nat.not_le_of_lt hlt hle

/-! ## The target without a hint -/

/-- How many issues of a type the scan reports in settings. -/
theorem countP_scan (hast : ast.language = .config) (context : FileContext)
    (hall : context.options.scanTestFiles = true) (type : IssueType) :
    (({} : Scanner).scan ast context).countP (fun i => i.type == type) =
      (checkSensitiveFile ast context).countP (fun i => i.type == type) +
        (ast.lines.map (hitCount context.language type)).sum := by
  unfold Scanner.scan
  rw [hall, hast, Bool.not_true, Bool.and_false, if_neg Bool.false_ne_true, List.countP_append,
    List.countP_append, countP_scanLines]
  rfl

/-- Only the scan measures settings. -/
theorem measureType_config (hast : ast.language = .config) (type : IssueType) :
    measureType defaultDetectors type ast context =
      .ok (if type.isSecurity then
        some ((({} : Scanner).scan ast context).countP fun i => i.type == type) else none) := by
  split
  · rename_i htype
    have hmem : ({} : Scanner).detector ∈ defaultDetectors :=
      List.mem_append_right _ (List.mem_singleton_self _)
    have htypes : type ∈ ({} : Scanner).detector.issueTypes :=
      List.mem_filter.mpr ⟨IssueType.mem_all type, htype⟩
    unfold measureType
    rw [hast, find?_detector hmem htypes rfl]
    rfl
  · rename_i htype
    rw [measureType_eq_none_iff, List.find?_eq_none]
    intro d hd htold
    rw [hast, Bool.and_eq_true, List.contains_iff_mem] at htold
    rcases List.mem_append.mp hd with hd | hd
    · have hcode : ∀ d ∈ structuralDetectors, d.appliesTo .config = false := by decide
      exact absurd ((hcode d hd).symm.trans htold.2) (by decide)
    · rw [List.mem_singleton.mp hd] at htold
      exact htype (List.mem_filter.mp htold.1).2

/-- Two numbers can be read off a text where a space stands behind the first one. -/
theorem numbers_inj {b a b' a' : Nat} (front middle back : String)
    (h : front ++ toString b ++ (" " ++ middle) ++ toString a ++ back =
      front ++ toString b' ++ (" " ++ middle) ++ toString a' ++ back) : b = b' ∧ a = a' := by
  have hspace : ∀ n : Nat, ' ' ∉ (toString n).toList := Text.not_mem_toList_repr (by decide)
  have hlist := congrArg String.toList h
  have hone : " ".toList = [' '] := rfl
  simp only [String.toList_append, hone, List.append_assoc, List.cons_append, List.nil_append,
    List.append_cancel_left_eq] at hlist
  obtain ⟨hb, hrest⟩ := Text.eq_of_append_cons_eq (hspace b) (hspace b') hlist
  rw [List.append_cancel_left_eq, List.append_cancel_right_eq] at hrest
  exact ⟨Text.toString_nat_inj hb, Text.toString_nat_inj hrest⟩

theorem compareMeasures_inj {type : IssueType} {b a b' a' : Nat}
    (h : compareMeasures type (some b) (some a) = compareMeasures type (some b') (some a')) :
    b = b' ∧ a = a' := by
  unfold compareMeasures at h
  dsimp only at h
  split at h <;> split at h
  · exact numbers_inj (type.tag ++ " reduced from ") "to " ""
      (congrArg (fun v => v.detail ++ "") h)
  · exact nomatch congrArg Verdict.status h
  · exact nomatch congrArg Verdict.status h
  · exact numbers_inj (type.tag ++ " not reduced (") "-> " ")" (congrArg Verdict.detail h)

theorem exists_compareMeasured {old new : SourceTree} (hold : old.language = .config)
    (hnew : new.language = .config) (context : FileContext) (type : IssueType) :
    ∃ verdict, compareMeasured type (measureType defaultDetectors type old context)
      (measureType defaultDetectors type new context) = .ok verdict := by
  rw [measureType_config hold, measureType_config hnew]
  split <;> exact ⟨_, rfl⟩

/-- What is measured in settings is compared alike with and without the hint exactly if no rule for
some files reports an issue of the type. -/
theorem compareMeasured_other_eq_iff {old new : SourceTree} (hold : old.language = .config)
    (hnew : new.language = .config) (context : FileContext)
    (hall : context.options.scanTestFiles = true) (type : IssueType) (tag : String) :
    compareMeasured type
          (measureType defaultDetectors type old { context with language := .other tag })
          (measureType defaultDetectors type new { context with language := .other tag }) =
        compareMeasured type
          (measureType defaultDetectors type old { context with language := .config })
          (measureType defaultDetectors type new { context with language := .config }) ↔
      ¬ ScopedHit type (old.lines ++ new.lines) := by
  have hmeasure : ∀ (ast : SourceTree) (language : Language), ast.language = .config →
      measureType defaultDetectors type ast { context with language } =
        .ok (if type.isSecurity then
          some ((checkSensitiveFile ast context).countP (fun i => i.type == type) +
            (ast.lines.map (hitCount language type)).sum) else none) := by
    intro ast language hast
    rw [measureType_config hast, countP_scan hast { context with language } hall]
    rfl
  simp only [hmeasure _ _ hold, hmeasure _ _ hnew]
  -- the verdict names both numbers, so it is the same only if they are
  by_cases htype : type.isSecurity = true
  · simp only [htype, if_true]
    rw [scopedHit_append, not_or, ← sum_hitCount_eq_iff tag, ← sum_hitCount_eq_iff tag]
    constructor
    · intro h
      obtain ⟨hbefore, hafter⟩ := compareMeasures_inj (Except.ok.inj h)
      exact ⟨Nat.add_left_cancel hbefore, Nat.add_left_cancel hafter⟩
    · rintro ⟨hbefore, hafter⟩
      rw [hbefore, hafter]
  · simp only [htype]
    exact iff_of_true rfl fun hhit => htype hhit.isSecurity

/-! ## Layers -/

variable {request : VerificationRequest} {options : Options} {old new : SourceTree}
  {changes : List LineChange}

theorem exposure_congr (ast : SourceTree) (context : FileContext)
    (h : (language == .config) = (other == .config)) :
    exposure {} ast { context with language } =
      exposure {} ast { context with language := other } := by
  unfold exposure
  rw [Scanner.scanLines_congr h]
  rfl

theorem measureType_congr (type : IssueType) (ast : SourceTree) (context : FileContext)
    (h : (language == .config) = (other == .config)) :
    measureType defaultDetectors type ast { context with language } =
      measureType defaultDetectors type ast { context with language := other } := by
  unfold measureType
  split
  · rfl
  · rename_i d hfind
    have hdetect := detect_congr ast context (List.mem_of_find?_eq_some hfind) h
    simp only [hdetect]

theorem layer_eq_iff_of_ok {check : RiskCheck} {input input' : RiskInput} {v v' : Verdict}
    (h : check.run input = .ok v) (h' : check.run input' = .ok v') :
    check.layer input = check.layer input' ↔ v = v' := by
  cases v
  cases v'
  unfold layer
  rw [h, h', ValidationLayer.mk.injEq, Verdict.mk.injEq, eq_self, true_and]

/-- The hint matters to a check only as far as it is that of settings. -/
theorem layer_congr {check : RiskCheck} (hcheck : check ∈ standard) {hint hint' : String}
    (h : (Language.ofTag hint == .config) = (Language.ofTag hint' == .config)) :
    check.layer ⟨{ request with language := hint }, options, old, new, changes⟩ =
      check.layer ⟨{ request with language := hint' }, options, old, new, changes⟩ := by
  let context := RiskInput.fileContext ⟨request, options, old, new, changes⟩
  simp only [standard, List.mem_cons, List.not_mem_nil, or_false] at hcheck
  rcases hcheck with rfl | rfl | rfl | rfl | rfl | rfl
  · rfl
  · refine (layer_eq_iff_of_ok rfl rfl).mpr ?_
    exact congrArg₂ compareExposure (exposure_congr old context h) (exposure_congr new context h)
  · rfl
  · rfl
  · rfl
  · have hmeasure : ∀ type ast, measureType defaultDetectors type ast (RiskInput.fileContext
          ⟨{ request with language := hint }, options, old, new, changes⟩) =
        measureType defaultDetectors type ast (RiskInput.fileContext
          ⟨{ request with language := hint' }, options, old, new, changes⟩) :=
      fun type ast => measureType_congr type ast context h
    unfold layer issueTarget
    simp only [hmeasure]

theorem security_layer_eq_iff :
    security.layer ⟨{ request with language := "" }, options, old, new, changes⟩ =
        security.layer ⟨{ request with language := "config" }, options, old, new, changes⟩ ↔
      (new.lines.flatMap settingPrints).Subperm (old.lines.flatMap settingPrints) :=
  (layer_eq_iff_of_ok rfl rfl).trans (compareExposure_other_eq_iff old new
    (RiskInput.fileContext ⟨request, options, old, new, changes⟩) "")

theorem issueTarget_layer_eq_iff_of_type (hold : old.language = .config)
    (hnew : new.language = .config) {type : IssueType} (htype : request.issueType = some type)
    (hchanges : changes ≠ []) (hother : type ≠ .duplicateCode) :
    issueTarget.layer ⟨{ request with language := "" }, options, old, new, changes⟩ =
        issueTarget.layer ⟨{ request with language := "config" }, options, old, new, changes⟩ ↔
      ¬ ScopedHit type (old.lines ++ new.lines) := by
  let context := RiskInput.fileContext ⟨request, options, old, new, changes⟩
  have hrun : ∀ hint : String, issueTarget.run
        ⟨{ request with language := hint }, options, old, new, changes⟩ =
      compareMeasured type
        (measureType defaultDetectors type old { context with language := .ofTag hint })
        (measureType defaultDetectors type new { context with language := .ofTag hint }) :=
    fun hint => run_issueTarget htype hchanges hother
  obtain ⟨verdict, hverdict⟩ := exists_compareMeasured hold hnew
    { context with language := .ofTag "" } type
  obtain ⟨hinted, hhinted⟩ := exists_compareMeasured hold hnew
    { context with language := .ofTag "config" } type
  rw [layer_eq_iff_of_ok ((hrun "").trans hverdict) ((hrun "config").trans hhinted),
    ← compareMeasured_other_eq_iff hold hnew context rfl type ""]
  constructor
  · rintro rfl
    exact hverdict.trans hhinted.symm
  · exact fun h => Except.ok.inj (hverdict.symm.trans (h.trans hhinted))

/-- The verdict on the issues of a type in settings is the same with and without the hint exactly if
no rule for some files reports one of them. -/
theorem issueTarget_layer_eq_iff (hold : old.language = .config) (hnew : new.language = .config) :
    issueTarget.layer ⟨{ request with language := "" }, options, old, new, changes⟩ =
        issueTarget.layer ⟨{ request with language := "config" }, options, old, new, changes⟩ ↔
      ¬ (changes ≠ [] ∧ ∃ type, request.issueType = some type ∧
        ScopedHit type (old.lines ++ new.lines)) := by
  rcases Option.eq_none_or_eq_some request.issueType with htype | ⟨type, htype⟩
  · refine iff_of_true ?_ (by simp [htype])
    unfold layer issueTarget
    simp only [htype]
  · by_cases hchanges : changes = []
    · refine iff_of_true ?_ (by simp [hchanges])
      unfold layer issueTarget
      simp only [htype, hchanges, List.isEmpty_nil, if_true]
    · by_cases hduplicate : type = .duplicateCode
      · refine iff_of_true ?_ ?_
        · unfold layer issueTarget
          simp only [htype, hduplicate]
          rfl
        · rintro ⟨-, _, hsome, hhit⟩
          rw [← Option.some.inj (htype.symm.trans hsome), hduplicate] at hhit
          exact nomatch hhit.isSecurity
      · rw [issueTarget_layer_eq_iff_of_type hold hnew htype hchanges hduplicate]
        simp [htype, hchanges]

/-- The other checks do not look at the hint. -/
theorem map_layer_eq_iff (hint hint' : String) :
    (standard.map fun check =>
          check.layer ⟨{ request with language := hint }, options, old, new, changes⟩) =
        (standard.map fun check =>
          check.layer ⟨{ request with language := hint' }, options, old, new, changes⟩) ↔
      security.layer ⟨{ request with language := hint }, options, old, new, changes⟩ =
          security.layer ⟨{ request with language := hint' }, options, old, new, changes⟩ ∧
        issueTarget.layer ⟨{ request with language := hint }, options, old, new, changes⟩ =
          issueTarget.layer ⟨{ request with language := hint' }, options, old, new, changes⟩ := by
  simp only [standard, List.map_cons, List.map_nil, List.cons.injEq]
  constructor
  · rintro ⟨-, hsecurity, -, -, -, htarget, -⟩
    exact ⟨hsecurity, htarget⟩
  · rintro ⟨hsecurity, htarget⟩
    exact ⟨rfl, hsecurity, rfl, rfl, rfl, htarget, trivial⟩

end RiskCheck

namespace Verification

open RiskCheck

variable {grammar : Grammar} {options : Options} {request : VerificationRequest}

/-! ## Verifications -/

/-- What is found in settings depends on the hint: the rule for settings finds a secret that comes in,
or a rule that is not for every file reports one of the issues that are to become less. -/
def HintMatters (grammar : Grammar) (options : Options) (request : VerificationRequest) : Prop :=
  ∃ trees changes,
    checkSyntax grammar (start options { request with language := "config" }) = .ok trees ∧
    computeChanges trees.old trees.new options.maxDiffUnits = .ok changes ∧
      (¬ (trees.new.lines.flatMap settingPrints).Subperm (trees.old.lines.flatMap settingPrints) ∨
        changes ≠ [] ∧ ∃ type, request.issueType = some type ∧
          Security.ScopedHit type (trees.old.lines ++ trees.new.lines))

/-- The texts are read alike with and without the hint. -/
theorem checkSyntax_tag (request : VerificationRequest)
    (h : Language.detect? request.filePath = some language) :
    checkSyntax grammar (start options { request with language := "" }) =
      checkSyntax grammar (start options { request with language := language.tag }) := by
  have hresolve : Language.resolve? (some "") request.filePath =
      Language.resolve? (some language.tag) request.filePath := by
    rw [Language.resolve?_tag (Language.isSupported_of_detect? h)]
    exact h
  unfold checkSyntax readTrees start parseStrict parse
  dsimp only
  rw [hresolve]

theorem language_of_checkSyntax {trees : Trees}
    (h : checkSyntax grammar (start options { request with language := "config" }) = .ok trees) :
    trees.old.language = .config ∧ trees.new.language = .config := by
  obtain ⟨hold, hnew, -⟩ := of_checkSyntax h
  exact ⟨(Option.some.inj (language_of_parseAs hold)).symm,
    (Option.some.inj (language_of_parseAs (parse_of_parseStrict hnew))).symm⟩

theorem verify_language_eq_iff (hint hint' : String) :
    verify grammar options standard { request with language := hint } =
        verify grammar options standard { request with language := hint' } ↔
      findings grammar options standard { request with language := hint } =
        findings grammar options standard { request with language := hint' } := by
  rw [verify_eq_suggestion, verify_eq_suggestion]
  constructor
  · intro h
    have hsuggestion := Except.ok.inj h
    exact Findings.ext (congrArg Suggestion.changes hsuggestion)
      (congrArg Suggestion.layers hsuggestion)
  · intro h
    rw [h]
    rfl

theorem treeFindings_eq_iff {trees : Trees} {changes : List LineChange}
    (h : computeChanges trees.old trees.new options.maxDiffUnits = .ok changes)
    (hint hint' : String) :
    treeFindings options standard { request with language := hint } trees =
        treeFindings options standard { request with language := hint' } trees ↔
      (standard.map fun check => check.layer
          ⟨{ request with language := hint }, options, trees.old, trees.new, changes⟩) =
        standard.map fun check => check.layer
          ⟨{ request with language := hint' }, options, trees.old, trees.new, changes⟩ := by
  unfold treeFindings
  rw [h]
  dsimp only
  rw [Findings.mk.injEq, eq_self, true_and, List.append_cancel_left_eq]

/-- In settings the hint is needed exactly if it matters. -/
theorem findings_config_eq_iff (h : Language.detect? request.filePath = some .config) :
    findings grammar options standard { request with language := "" } =
        findings grammar options standard { request with language := "config" } ↔
      ¬ HintMatters grammar options request := by
  have hread : checkSyntax grammar (start options { request with language := "" }) =
      checkSyntax grammar (start options { request with language := "config" }) :=
    checkSyntax_tag request h
  unfold findings
  rw [hread]
  cases htrees : checkSyntax grammar (start options { request with language := "config" }) with
  | error detail =>
      refine iff_of_true rfl ?_
      rintro ⟨trees, changes, hok, -⟩
      exact nomatch htrees.symm.trans hok
  | ok trees =>
      dsimp only
      cases hchanges : computeChanges trees.old trees.new options.maxDiffUnits with
      | error e =>
          refine iff_of_true ?_ ?_
          · unfold treeFindings
            rw [hchanges]
          · rintro ⟨other, changes, hok, hcomputed, -⟩
            obtain rfl := Except.ok.inj (htrees.symm.trans hok)
            exact nomatch hchanges.symm.trans hcomputed
      | ok changes =>
          obtain ⟨hold, hnew⟩ := language_of_checkSyntax htrees
          rw [treeFindings_eq_iff hchanges, map_layer_eq_iff, security_layer_eq_iff,
            issueTarget_layer_eq_iff hold hnew]
          constructor
          · rintro ⟨hsecrets, htarget⟩ ⟨other, changes', hok, hcomputed, hmatters⟩
            obtain rfl := Except.ok.inj (htrees.symm.trans hok)
            obtain rfl := Except.ok.inj (hchanges.symm.trans hcomputed)
            exact hmatters.elim (fun hnone => hnone hsecrets) htarget
          · intro hmatters
            by_contra hneither
            apply hmatters
            refine ⟨trees, changes, htrees, hchanges, ?_⟩
            rwa [not_and_or, not_not] at hneither

/-- In code the hint is never needed. -/
theorem findings_code (h : Language.detect? request.filePath = some language)
    (hcode : language ≠ .config) :
    findings grammar options standard { request with language := "" } =
      findings grammar options standard { request with language := language.tag } := by
  have hconfig : (Language.ofTag "" == .config) = (Language.ofTag language.tag == .config) := by
    rw [Language.ofTag_tag (Language.isSupported_of_detect? h), beq_eq_false_iff_ne.mpr hcode]
    rfl
  have htrees : ∀ trees,
      treeFindings options standard { request with language := "" } trees =
        treeFindings options standard { request with language := language.tag } trees := by
    intro trees
    unfold treeFindings
    simp only [List.map_congr_left fun check hcheck => layer_congr hcheck hconfig]
  unfold findings
  rw [checkSyntax_tag request h]
  simp only [htrees]

end Verification

/-- A request without a language for a file whose language its path tells is verified like the
request with this language, unless the file holds settings and the hint matters: a secret comes in
that only the rule for settings finds, or the issues to become less are reported by a rule that is
not for every file. -/
theorem verify_unhinted_eq_iff (grammar : Grammar) (options : Options)
    (request : VerificationRequest) (language : Language)
    (h : Language.detect? request.filePath = some language) :
    verify grammar options RiskCheck.standard { request with language := "" } =
        verify grammar options RiskCheck.standard { request with language := language.tag } ↔
      ¬ (language = .config ∧ Verification.HintMatters grammar options request) := by
  rw [Verification.verify_language_eq_iff]
  by_cases hconfig : language = .config
  · subst hconfig
    rw [and_iff_right rfl]
    exact Verification.findings_config_eq_iff h
  · exact iff_of_true (Verification.findings_code h hconfig) fun hboth => hconfig hboth.1

/-- Settings without secrets are verified alike with and without the hint. -/
theorem unhinted_settings_verify_alike :
    Language.detect? "app.conf" = some .config ∧
    verify (fun _ _ => .error "") {} RiskCheck.standard
        { settingsRequest "a=1\n" "a=2\n" with language := "" } =
      verify (fun _ _ => .error "") {} RiskCheck.standard
        { settingsRequest "a=1\n" "a=2\n" with language := "config" } := by
  have hpath : Language.detect? "app.conf" = some .config := by decide
  refine ⟨hpath,
    (verify_unhinted_eq_iff _ _ (settingsRequest "a=1\n" "a=2\n") .config hpath).mpr ?_⟩
  rintro ⟨-, trees, changes, hread, -, hmatters⟩
  let r : ScoredRun := settingsRun "a=1\n" "a=2\n" (by decide +kernel) (by decide +kernel)
  obtain rfl := Except.ok.inj (r.checkSyntax_eq.symm.trans hread)
  rcases hmatters with hcomes | ⟨-, type, htype, -⟩
  · exact hcomes (by decide +kernel)
  · exact nomatch htype

/-- A request to add a password to settings. -/
def addedPassword : VerificationRequest :=
  settingsRequest "a=1\n" "a=1\npassword=Qx7tR2Qx7t\n"

def addedPasswordRun : ScoredRun :=
  settingsRun "a=1\n" "a=1\npassword=Qx7tR2Qx7t\n" (by decide +kernel) (by decide +kernel)

/-- The run without the hint. -/
def unhintedPasswordRun : ScoredRun :=
  { addedPasswordRun with
    request := { addedPassword with language := "" }
    checkSyntax_eq := (Verification.checkSyntax_tag addedPassword
      (show Language.detect? addedPassword.filePath = some .config by decide)).trans
        addedPasswordRun.checkSyntax_eq }

/-- A password in settings is let in where the path alone tells that they are settings. -/
theorem unhinted_password_passes :
    Language.detect? addedPassword.filePath = some .config ∧
    ∃ s s', verify (fun _ _ => .error "") {} RiskCheck.standard
          { addedPassword with language := "" } = .ok s ∧
        verify (fun _ _ => .error "") {} RiskCheck.standard
          { addedPassword with language := "config" } = .ok s' ∧
        s.badge = .verified ∧ s'.badge = .failed := by
  obtain ⟨s, hs, hlayers, hgraded⟩ := unhintedPasswordRun.exists_suggestion
  have hfails : addedPasswordRun.FailsSecurity :=
    addedPasswordRun.failsSecurity_iff.mpr (by decide +kernel)
  obtain ⟨s', hs', hbadge⟩ := ScoredRun.earns_failed_of_failsSecurity hfails
  refine ⟨by decide, s, s', hs, hs', ?_, hbadge⟩
  rw [hgraded.verified_iff, hlayers]
  decide +kernel

end CodeHealth
