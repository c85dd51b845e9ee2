import CodeHealth.Proofs.Detector.Finding
import CodeHealth.Proofs.Detector.Literal
import CodeHealth.Proofs.Detector.Order
import CodeHealth.Proofs.Number.Exact

/-!
# Failing detectors

On a parsed tree three kinds of standard detectors can fail. The literal detector fails where a
literal is read as the undefined number. The class detector fails where a class exceeds a limit
while a limit is zero. And whoever compares a count with a limit fails on a finding if the limit is
beyond every 53-bit number. Nothing that the other detectors report depends on it.
-/

namespace CodeHealth

open CodeHealth.Tree

variable {grammar : Grammar} {budget : Int} {text path : String} {language : Option Language}
  {ast : SourceTree} {options : Options} {context : FileContext} {e : DetectorError}

/-! ## Findings with measures -/

theorem measured_eq_error_iff {metric : String} {value threshold : Int}
    {extra : List (String × Rat)} : Metadata.measured metric value threshold extra = .error e ↔
      Number.finite? threshold = none ∧ e = .invalidMetric "threshold" threshold := by
  unfold Metadata.measured
  cases Number.finite? threshold with
  | some limit => simp
  | none => simp [eq_comm]

/-- Where the findings of all places fail alike, their issues fail as soon as there is a place. -/
theorem issuesAt_eq_error_iff {α : Type} {find : α → Except DetectorError Finding}
    {fails : DetectorError → Prop} (hfind : ∀ place e, find place = .error e ↔ fails e)
    {places : List α} :
    issuesAt ast find places = .error e ↔ fails e ∧ ∃ place, place ∈ places := by
  unfold issuesAt
  constructor
  · intro h
    obtain ⟨place, hplace, herror⟩ := exists_of_mapM_eq_error h
    exact ⟨(hfind place e).mp (map_eq_error_iff.mp herror), place, hplace⟩
  · rintro ⟨hfails, place, hplace⟩
    have honly : ∀ p ∈ places, ∀ e', (find p).map (Finding.issue · ast) = .error e' → e' = e := by
      intro p _ e' herror
      have herror : find p = .error e' := map_eq_error_iff.mp herror
      rw [(hfind p e).mpr hfails] at herror
      exact (Except.error.inj herror).symm
    exact (mapM_eq_error_iff honly).mpr
      ⟨rfl, place, hplace, map_eq_error_iff.mpr ((hfind place e).mpr hfails)⟩

namespace FunctionMetric

theorem finding_eq_error_iff {m : FunctionMetric} {threshold : Int} {f : FunctionDef} :
    m.finding threshold f = .error e ↔
      Number.finite? threshold = none ∧ e = .invalidMetric "threshold" threshold := by
  unfold finding
  rw [bind_pure_eq_error_iff, measured_eq_error_iff]

theorem exists_issues_eq_ok {m : FunctionMetric} (ast : SourceTree)
    (h : (Number.finite? (m.threshold options)).isSome) :
    ∃ issues, m.issues ast options = .ok issues := by
  cases hissues : m.issues ast options with
  | ok issues => exact ⟨issues, rfl⟩
  | error e =>
      obtain ⟨⟨hnone, -⟩, -⟩ :=
        (issuesAt_eq_error_iff fun _ _ => finding_eq_error_iff).mp hissues
      rw [hnone] at h
      exact nomatch h

end FunctionMetric

/-! ## Large classes -/

namespace GodClass

/-- Some class exceeds a limit. -/
def HasLarge (ast : SourceTree) (options : Options) : Prop :=
  ∃ c ∈ ast.classes, options.maxClassLines < c.node.codeLineCount ∨
    options.maxClassMethods < c.methods.length

/-- Some class exceeds a limit while one of the limits is zero. -/
def HasUndefinedRatio (ast : SourceTree) (options : Options) : Prop :=
  (options.maxClassLines = 0 ∨ options.maxClassMethods = 0) ∧ HasLarge ast options

/-- How limits fail that a class exceeds, if they do. -/
def limitFailure? (options : Options) : Option DetectorError :=
  if options.maxClassLines = 0 ∨ options.maxClassMethods = 0 then some .divisionByZero
  else if (Number.finite? options.maxClassMethods).isNone then some .overflow
  else if (Number.finite? options.maxClassLines).isNone then
    some (.invalidMetric "threshold" options.maxClassLines)
  else none

theorem exceeds_iff {c : ClassDef} : exceeds options (sizeOf c) = true ↔
    options.maxClassLines < c.node.codeLineCount ∨ options.maxClassMethods < c.methods.length := by
  rw [exceeds, Bool.or_eq_true, decide_eq_true_iff, decide_eq_true_iff]
  rfl

theorem ratio_eq_error_iff {size : Size} : ratio options size = .error e ↔
    (options.maxClassLines = 0 ∨ options.maxClassMethods = 0) ∧ e = .divisionByZero := by
  have hzero : (options.maxClassLines == 0 || options.maxClassMethods == 0) = true ↔
      options.maxClassLines = 0 ∨ options.maxClassMethods = 0 := by
    rw [Bool.or_eq_true, beq_iff_eq, beq_iff_eq]
  unfold ratio
  by_cases h : options.maxClassLines = 0 ∨ options.maxClassMethods = 0
  · rw [if_pos (hzero.mpr h), Except.error.injEq]
    exact ⟨fun heq => ⟨h, heq.symm⟩, fun heq => heq.2.symm⟩
  · rw [if_neg fun htrue => h (hzero.mp htrue)]
    exact ⟨nofun, fun heq => absurd heq.1 h⟩

/-- Whether the finding of a class fails depends on the limits alone. -/
theorem finding_eq_error_iff {c : ClassDef} :
    finding options c = .error e ↔ limitFailure? options = some e := by
  unfold finding limitFailure?
  dsimp only
  cases hratio : ratio options (sizeOf c) with
  | error e' =>
      obtain ⟨hzero, rfl⟩ := ratio_eq_error_iff.mp hratio
      rw [if_pos hzero, Option.some.injEq]
      show (Except.error .divisionByZero : Except DetectorError Finding) = .error e ↔ _
      rw [Except.error.injEq]
  | ok quotient =>
      have hzero : ¬ (options.maxClassLines = 0 ∨ options.maxClassMethods = 0) := by
        intro h
        have herror : ratio options (sizeOf c) = .error .divisionByZero :=
          ratio_eq_error_iff.mpr ⟨h, rfl⟩
        exact nomatch hratio.symm.trans herror
      rw [if_neg hzero]
      unfold toDecimal Metadata.measured
      cases Number.finite? options.maxClassMethods <;>
        cases Number.finite? options.maxClassLines <;> simp [bind, Except.bind, pure, Except.pure]

theorem issues_eq_error_iff :
    issues ast options = .error e ↔ limitFailure? options = some e ∧ HasLarge ast options := by
  unfold issues HasLarge
  rw [issuesAt_eq_error_iff fun _ _ => finding_eq_error_iff]
  simp only [List.mem_filter, exceeds_iff]

/-- A class exceeds a limit while one of the limits cannot be reported: it is zero or beyond every
53-bit number. -/
def Unreportable (ast : SourceTree) (options : Options) : Prop :=
  (∃ limit ∈ [options.maxClassLines, options.maxClassMethods],
      limit = 0 ∨ Number.finite? limit = none) ∧ HasLarge ast options

theorem isSome_limitFailure?_iff : (limitFailure? options).isSome = true ↔
    ∃ limit ∈ [options.maxClassLines, options.maxClassMethods],
      limit = 0 ∨ Number.finite? limit = none := by
  simp only [List.mem_cons, List.not_mem_nil, or_false, exists_eq_or_imp, exists_eq_left]
  unfold limitFailure?
  split
  · simp only [Option.isSome_some]
    tauto
  · split
    · simp_all
    · split <;> simp_all

end GodClass

/-! ## Methods that use another object -/

namespace FeatureEnvy

theorem finding_eq_error_iff {minimum : Int} {envy : Envy} : finding minimum envy = .error e ↔
    Number.finite? minimum = none ∧ e = .invalidMetric "threshold" minimum := by
  unfold finding
  rw [bind_pure_eq_error_iff, measured_eq_error_iff]

/-- A method uses another object more than its own, often enough for a limit that cannot be
reported. -/
def Unreportable (ast : SourceTree) (options : Options) : Prop :=
  Number.finite? options.featureEnvyMinAccesses = none ∧ ∃ f ∈ ast.functions,
    (envy? (importedNames ast.root) options.featureEnvyMinAccesses f).isSome = true

theorem issues_eq_error_iff : issues ast options = .error e ↔
    e = .invalidMetric "threshold" options.featureEnvyMinAccesses ∧
      Unreportable ast options := by
  unfold issues Unreportable
  dsimp only
  rw [issuesAt_eq_error_iff fun _ _ => finding_eq_error_iff]
  simp only [List.mem_filterMap, Option.isSome_iff_exists]
  tauto

end FeatureEnvy

/-! ## Settings -/

namespace Config

theorem kind_readLine_mem (line : String) :
    (readLine line).kind ∈ ["comment", "section", "pair", "line"] := by
  unfold readLine
  dsimp only
  split
  · simp
  · split
    · simp
    · split <;> simp

theorem kind_mem_of_mem_document {u : Tree SyntaxNode} (hu : u ∈ (document text).subtrees) :
    u.kind ∈ ["document", "comment", "section", "pair", "line"] := by
  rcases cases_of_mem_document hu with rfl | ⟨i, offset, line, rfl, -, -⟩
  · exact List.mem_cons_self
  · exact List.mem_cons_of_mem _ (kind_readLine_mem line)

theorem not_isDefinition_of_mem_document {u : Tree SyntaxNode}
    (hu : u ∈ (document text).subtrees) :
    u.label.isFunction = false ∧ u.label.isClass = false := by
  have hnone : ∀ kind ∈ ["document", "comment", "section", "pair", "line"],
      functionKinds.contains kind = false ∧ classKinds.contains kind = false := by decide
  obtain ⟨hfunction, hclass⟩ := hnone u.label.kind (kind_mem_of_mem_document hu)
  rw [SyntaxNode.isFunction, SyntaxNode.isClass, hfunction, hclass, Bool.and_false]
  exact ⟨rfl, rfl⟩

theorem not_mem_functions (f : FunctionDef) : f ∉ (parseConfig text path).functions := by
  intro hf
  have hnode : f.node ∈ (document text).subtrees := node_mem_subtrees_of_mem_functions hf
  obtain ⟨u, -, scope, hstep⟩ := exists_step_of_mem_collect hf
  obtain ⟨hfunction, -, heq, -, -⟩ := of_mem_functionStep hstep
  rw [← heq, (not_isDefinition_of_mem_document hnode).1] at hfunction
  exact nomatch hfunction

theorem not_mem_classes (c : ClassDef) : c ∉ (parseConfig text path).classes := by
  intro hc
  obtain ⟨⟨node, index⟩, hnode, -⟩ := List.mem_map.mp hc
  obtain ⟨hwalk, hclass⟩ := List.mem_filter.mp (List.fst_mem_of_mem_zipIdx hnode)
  have hdocument : node ∈ (document text).subtrees := mem_subtrees_of_mem_reach hwalk
  rw [(not_isDefinition_of_mem_document hdocument).2] at hclass
  exact nomatch hclass

theorem not_hasUndefined : ¬ MagicNumber.HasUndefined (document text) := by
  rintro ⟨leaf, literal, hreach, hliteral, -, -⟩
  have hnone : ∀ kind ∈ ["document", "comment", "section", "pair", "line"],
      kind ∉ MagicNumber.numberKinds := by decide
  exact hnone leaf.kind (kind_mem_of_mem_document hreach.mem_subtrees) hliteral.kind

end Config

/-! ## Failures -/

/-- The failure of a detector on a tree that it understands. -/
def Detector.failure? (d : Detector) (ast : SourceTree) (context : FileContext) :
    Option DetectorFailure :=
  if d.appliesTo ast.language then
    match d.detect ast context with
    | .ok _ => none
    | .error e => some ⟨d.name, context.path, e⟩
  else none

theorem failures_runDetectors (detectors : List Detector) (ast : SourceTree)
    (context : FileContext) :
    (runDetectors detectors ast context).failures =
      detectors.filterMap fun d => d.failure? ast context := by
  unfold runDetectors outcomes
  dsimp only
  rw [List.filterMap_map, List.filterMap_filter]
  rfl

theorem Detector.failure?_of_detect {d : Detector} {issues : List Issue}
    (h : d.detect ast context = .ok issues) : d.failure? ast context = none := by
  unfold Detector.failure?
  rw [h]
  split <;> rfl

theorem Detector.failure?_eq_some_iff {d : Detector} {f : DetectorFailure} :
    d.failure? ast context = some f ↔
      d.appliesTo ast.language = true ∧
        ∃ e, d.detect ast context = .error e ∧ f = ⟨d.name, context.path, e⟩ := by
  unfold Detector.failure?
  cases d.appliesTo ast.language <;> cases d.detect ast context <;> simp [eq_comm]

theorem names_failures_sublist (detectors : List Detector) :
    ((detectors.filterMap fun d => d.failure? ast context).map DetectorFailure.detector).Sublist
      (detectors.map Detector.name) := by
  induction detectors with
  | nil => exact .slnil
  | cons d detectors ih =>
      rw [List.filterMap_cons]
      cases hfailure : d.failure? ast context with
      | none => exact ih.cons d.name
      | some f =>
          obtain ⟨-, e, -, rfl⟩ := Detector.failure?_eq_some_iff.mp hfailure
          exact ih.cons_cons d.name

theorem language_mem_codeLanguages (h : parseAs grammar budget text language path = .ok ast)
    (hconfig : ast ≠ parseConfig text path) : codeLanguages.contains ast.language = true := by
  rcases parseAs_cases h with ⟨-, rfl⟩ | ⟨code, tree, -, hcode, -, rfl⟩
  · exact absurd rfl hconfig
  · show codeLanguages.contains code = true
    cases code <;> first | rfl | exact nomatch hcode

/-- A detector for code that finds nothing to fail on in settings fails wherever it finds it. -/
theorem Detector.failure?_eq_some_iff_of_code {d : Detector} {f : DetectorFailure}
    (h : parseAs grammar budget text language path = .ok ast) (hcode : d.languages = codeLanguages)
    (hconfig : ast = parseConfig text path → ∀ e, d.detect ast context ≠ .error e) :
    d.failure? ast context = some f ↔
      ∃ e, d.detect ast context = .error e ∧ f = ⟨d.name, context.path, e⟩ := by
  rw [Detector.failure?_eq_some_iff, and_iff_right_of_imp]
  rintro ⟨e, herror, -⟩
  rw [Detector.appliesTo, hcode]
  exact language_mem_codeLanguages h fun heq => hconfig heq e herror

theorem GodClass.failure?_eq_some_iff (h : parseAs grammar budget text language path = .ok ast)
    {f : DetectorFailure} : GodClass.detector.failure? ast context = some f ↔
      ∃ e, (limitFailure? context.options = some e ∧ HasLarge ast context.options) ∧
        f = ⟨"god_class", context.path, e⟩ := by
  rw [Detector.failure?_eq_some_iff_of_code h rfl]
  · exact exists_congr fun e => and_congr_left' issues_eq_error_iff
  · rintro rfl e herror
    obtain ⟨-, c, hc, -⟩ := issues_eq_error_iff.mp herror
    exact Config.not_mem_classes c hc

theorem MagicNumber.failure?_eq_some_iff (h : parseAs grammar budget text language path = .ok ast)
    {f : DetectorFailure} : MagicNumber.detector.failure? ast context = some f ↔
      f = ⟨"magic_number", context.path, .notANumber⟩ ∧ HasUndefined ast.root := by
  have hdetect : ∀ e, MagicNumber.detector.detect ast context = .error e ↔
      e = .notANumber ∧ HasUndefined ast.root := fun e => issues_eq_error_iff h
  rw [Detector.failure?_eq_some_iff_of_code h rfl]
  · simp only [hdetect, and_assoc, exists_eq_left]
    exact and_comm
  · rintro rfl e herror
    exact Config.not_hasUndefined ((hdetect e).mp herror).2

theorem FeatureEnvy.failure?_eq_some_iff (h : parseAs grammar budget text language path = .ok ast)
    {f : DetectorFailure} : FeatureEnvy.detector.failure? ast context = some f ↔
      f = ⟨"feature_envy", context.path,
        .invalidMetric "threshold" context.options.featureEnvyMinAccesses⟩ ∧
          Unreportable ast context.options := by
  have hdetect : ∀ e, FeatureEnvy.detector.detect ast context = .error e ↔
      e = .invalidMetric "threshold" context.options.featureEnvyMinAccesses ∧
        Unreportable ast context.options := fun e => issues_eq_error_iff
  rw [Detector.failure?_eq_some_iff_of_code h rfl]
  · simp only [hdetect, and_assoc, exists_eq_left]
    exact and_comm
  · rintro rfl e herror
    obtain ⟨-, -, f, hf, -⟩ := (hdetect e).mp herror
    exact Config.not_mem_functions f hf

/-- Of the standard detectors that do not measure function by function, three can fail. -/
theorem Detector.cases_of_failure? {d : Detector} (hd : d ∈ defaultDetectors)
    (hmeasure : d.measure? = none) {f : DetectorFailure}
    (h : d.failure? ast context = some f) :
    d = GodClass.detector ∨ d = MagicNumber.detector ∨ d = FeatureEnvy.detector := by
  have hdead : DeadCode.detector.failure? ast context = none := Detector.failure?_of_detect rfl
  have hsecurity : ({} : Security.Scanner).detector.failure? ast context = none :=
    Detector.failure?_of_detect rfl
  rcases List.mem_append.mp hd with hd | hd
  · simp only [structuralDetectors, List.mem_cons, List.not_mem_nil, or_false] at hd
    rcases hd with rfl | rfl | rfl | rfl | rfl | rfl | rfl | rfl | rfl
    · cases hmeasure
    · exact Or.inl rfl
    · cases hmeasure
    · cases hmeasure
    · cases hmeasure
    · cases hmeasure
    · exact Or.inr (Or.inl rfl)
    · cases hdead.symm.trans h
    · exact Or.inr (Or.inr rfl)
  · rw [List.mem_singleton.mp hd] at h
    cases hsecurity.symm.trans h

/-! ## Limits that can be reported -/

namespace Limits

/-- The limits that findings report beside their counts. -/
def reported (l : Limits) : List Int :=
  [l.maxMethodLines, l.maxClassLines, l.maxClassMethods, l.maxNestingDepth, l.maxParameters,
    l.maxCyclomaticComplexity, l.maxCognitiveComplexity, l.featureEnvyMinAccesses]

/-- There is a finite number for every limit that is reported. -/
def Reportable (l : Limits) : Prop :=
  ∀ limit ∈ l.reported, (Number.finite? limit).isSome = true

theorem reportable_of_natAbs_lt {l : Limits}
    (h : ∀ limit ∈ l.reported, limit.natAbs < 2 ^ 53) : l.Reportable := by
  intro limit hlimit
  rw [Number.finite?_intCast (h limit hlimit)]
  rfl

theorem Reportable.ne_none {l : Limits} (h : l.Reportable) {limit : Int}
    (hlimit : limit ∈ l.reported) : Number.finite? limit ≠ none :=
  Option.isSome_iff_ne_none.mp (h limit hlimit)

end Limits

theorem GodClass.limitFailure?_eq_some_iff (h : options.toLimits.Reportable) :
    limitFailure? options = some e ↔
      e = .divisionByZero ∧ (options.maxClassLines = 0 ∨ options.maxClassMethods = 0) := by
  have hlines : Number.finite? options.maxClassLines ≠ none :=
    h.ne_none (by simp [Limits.reported])
  have hmethods : Number.finite? options.maxClassMethods ≠ none :=
    h.ne_none (by simp [Limits.reported])
  unfold limitFailure?
  simp only [Option.isNone_iff_eq_none, hlines, hmethods, if_false]
  split
  · rename_i hzero
    rw [Option.some.injEq]
    exact ⟨fun heq => ⟨heq.symm, hzero⟩, fun heq => heq.1.symm⟩
  · rename_i hzero
    exact ⟨nofun, fun heq => absurd heq.2 hzero⟩

/-- With limits that can be reported, two of the standard detectors can fail. -/
theorem failures_defaultDetectors (ast : SourceTree)
    (h : context.options.toLimits.Reportable) :
    (runDetectors defaultDetectors ast context).failures =
      [GodClass.detector, MagicNumber.detector].filterMap fun d => d.failure? ast context := by
  have hmetric : ∀ m : FunctionMetric, m.threshold context.options ∈ context.options.reported →
      m.detector.failure? ast context = none := by
    intro m hm
    obtain ⟨issues, hissues⟩ := m.exists_issues_eq_ok ast (h _ hm)
    exact Detector.failure?_of_detect hissues
  have hdead : DeadCode.detector.failure? ast context = none := Detector.failure?_of_detect rfl
  have hsecurity : ({} : Security.Scanner).detector.failure? ast context = none :=
    Detector.failure?_of_detect rfl
  have henvy : FeatureEnvy.detector.failure? ast context = none := by
    rw [Option.eq_none_iff_forall_ne_some]
    intro f hf
    obtain ⟨-, e, herror, -⟩ := Detector.failure?_eq_some_iff.mp hf
    obtain ⟨-, hnone, -⟩ := FeatureEnvy.issues_eq_error_iff.mp herror
    exact h.ne_none (by simp [Limits.reported]) hnone
  rw [failures_runDetectors, defaultDetectors, structuralDetectors]
  simp only [List.cons_append, List.nil_append, List.filterMap_cons, List.filterMap_nil, hdead,
    henvy, hsecurity]
  rw [hmetric, hmetric, hmetric, hmetric, hmetric]
  all_goals simp [Limits.reported, FunctionMetric.longMethod, FunctionMetric.deepNesting,
    FunctionMetric.longParameterList, FunctionMetric.highComplexity,
    FunctionMetric.cognitiveComplexity]

/-- With limits that can be reported, a run of the standard detectors on a parsed tree records a
failure of the class detector exactly if some class exceeds a limit while one is zero, of the
literal detector exactly if some literal without a name is read as the undefined number, and no
other one. With any limits, what each detector reports is what it reports alone, and its findings
pass the checks of a record. -/
theorem failure_iff (h : parseAs grammar budget text language path = .ok ast)
    (context : FileContext) :
    (context.options.toLimits.Reportable →
      ((runDetectors defaultDetectors ast context).failures.map DetectorFailure.detector).Sublist
          ["god_class", "magic_number"] ∧
        ∀ f, f ∈ (runDetectors defaultDetectors ast context).failures ↔
          (f = ⟨"god_class", context.path, .divisionByZero⟩ ∧
              GodClass.HasUndefinedRatio ast context.options) ∨
            f = ⟨"magic_number", context.path, .notANumber⟩ ∧
              MagicNumber.HasUndefined ast.root) ∧
      (∀ d ∈ defaultDetectors,
        (runDetectors defaultDetectors ast context).issues.filter
            (fun i => d.issueTypes.contains i.type) =
          (runDetectors [d] ast context).issues) ∧
      ∀ d ∈ defaultDetectors, ∀ issues, d.detect ast context = .ok issues →
        ∀ i ∈ issues, i.IsFitting ast := by
  have hlines : ast.InLines := fun _ hu => within_of_parseAs h hu
  refine ⟨fun hlimits => ⟨?_, fun f => ?_⟩, fun d hd => filter_issues_runDetectors hd,
    fun d hd issues hdetect => findsFitting_of_mem_defaultDetectors hd ast context issues hlines
      hdetect⟩
  · rw [failures_defaultDetectors ast hlimits]
    exact names_failures_sublist _
  · rw [failures_defaultDetectors ast hlimits, List.mem_filterMap]
    have hclass : GodClass.detector.failure? ast context = some f ↔
        f = ⟨"god_class", context.path, .divisionByZero⟩ ∧
          GodClass.HasUndefinedRatio ast context.options := by
      rw [GodClass.failure?_eq_some_iff h]
      simp only [GodClass.limitFailure?_eq_some_iff hlimits, and_assoc, exists_eq_left]
      unfold GodClass.HasUndefinedRatio
      tauto
    simp only [List.mem_cons, List.not_mem_nil, or_false, exists_eq_or_imp, exists_eq_left,
      hclass, MagicNumber.failure?_eq_some_iff h]

/-- The tree of a class without a body and a literal without a value. -/
def valuelessTree : GrammarTree where
  root := grammarNode "program" none 0 9
    [grammarNode "class_declaration" none 0 5 [], grammarNode "number" none 6 9 []]
  hasError := false

def valuelessAst : SourceTree :=
  .ofGrammar 9 "class NaN" "a.js" .javascript valuelessTree

theorem both_fail :
    let context : FileContext := ⟨"p", "a.js", .javascript, { maxClassLines := 0 }⟩
    parseAs (fun _ _ => .ok valuelessTree) 9 "class NaN" (some .javascript) "a.js" =
        .ok valuelessAst ∧
      ∀ name ∈ ["god_class", "magic_number"],
        ∃ f ∈ (runDetectors defaultDetectors valuelessAst context).failures, f.detector = name := by
  have hparse : parseAs (fun _ _ => .ok valuelessTree) 9 "class NaN" (some .javascript) "a.js" =
      .ok valuelessAst := rfl
  have hratio : GodClass.HasUndefinedRatio valuelessAst { maxClassLines := 0 } := by
    refine ⟨Or.inl rfl, ?_⟩
    unfold GodClass.HasLarge
    decide +kernel
  have hundefined : MagicNumber.HasUndefined valuelessAst.root := by
    have hlength : 1 < valuelessAst.root.children.length := by decide
    have hkind : "number" ∈ MagicNumber.numberKinds := by decide
    refine ⟨valuelessAst.root.children[1], "NaN", .step ⟨rfl, by decide, rfl⟩
      (List.getElem_mem hlength) (.here _), ⟨rfl, hkind, rfl⟩, rfl, ?_⟩
    unfold MagicNumber.IsUndefined
    decide
  have hlimits : ({ maxClassLines := 0 } : Options).toLimits.Reportable :=
    Limits.reportable_of_natAbs_lt (by decide)
  obtain ⟨hfailures, -⟩ := failure_iff hparse ⟨"p", "a.js", .javascript, { maxClassLines := 0 }⟩
  obtain ⟨-, hfailure⟩ := hfailures hlimits
  refine ⟨hparse, ?_⟩
  simp only [List.mem_cons, List.not_mem_nil, or_false, forall_eq_or_imp, forall_eq]
  exact ⟨⟨_, (hfailure _).mpr (Or.inl ⟨rfl, hratio⟩), rfl⟩,
    ⟨_, (hfailure _).mpr (Or.inr ⟨rfl, hundefined⟩), rfl⟩⟩

end CodeHealth
