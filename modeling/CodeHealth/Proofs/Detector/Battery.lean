import CodeHealth.Detector.Battery
import CodeHealth.Proofs.Except
import CodeHealth.Proofs.Issue.Merge
import CodeHealth.Proofs.Security.Scan

/-!
# What detectors report

A standard detector reports findings of the types it declares, in the file of the tree. None of them
reports a duplicate.
-/

namespace CodeHealth

variable {ast : SourceTree} {context : FileContext} {i : Issue}

/-- A detector reports what it declares, in the file of the tree. -/
def Detector.IsFaithful (d : Detector) : Prop :=
  ∀ ast context issues, d.detect ast context = .ok issues →
    ∀ i ∈ issues, i.filePath = ast.path ∧ i.type ∈ d.issueTypes

/-! ## Structural detectors -/

theorem exists_of_mem_issuesAt {α : Type} {find : α → Except DetectorError Finding}
    {places : List α} {issues : List Issue} (h : issuesAt ast find places = .ok issues)
    (hi : i ∈ issues) : ∃ place ∈ places, ∃ f, find place = .ok f ∧ i = f.issue ast := by
  obtain ⟨k, hk⟩ := List.mem_iff_getElem?.mp hi
  obtain ⟨place, hplace, hissue⟩ := exists_getElem?_of_mapM h hk
  obtain ⟨f, hf, rfl⟩ := map_eq_ok_iff.mp hissue
  exact ⟨place, List.mem_of_getElem? hplace, f, hf, rfl⟩

/-- A finding with measures is what is built from them. -/
theorem exists_measured_of_eq_ok {metric : String} {value threshold : Int}
    {extra : List (String × Rat)} {build : Metadata → Finding} {f : Finding}
    (h : (do return build (← Metadata.measured metric value threshold extra)) = .ok f) :
    ∃ limit, f = build (.complexity metric (Number.nearest value) limit extra) := by
  obtain ⟨metadata, hmetadata, hbuild⟩ := bind_eq_ok_iff.mp h
  obtain rfl := Except.ok.inj hbuild
  unfold Metadata.measured at hmetadata
  split at hmetadata
  · exact ⟨_, by rw [← Except.ok.inj hmetadata]⟩
  · exact nomatch hmetadata

theorem FunctionMetric.isFaithful (m : FunctionMetric) : m.detector.IsFaithful := by
  intro ast context issues h i hi
  obtain ⟨f, -, found, hfound, rfl⟩ := exists_of_mem_issuesAt h hi
  obtain ⟨limit, rfl⟩ := exists_measured_of_eq_ok hfound
  exact ⟨rfl, List.mem_singleton.mpr rfl⟩

theorem GodClass.isFaithful : GodClass.detector.IsFaithful := by
  intro ast context issues h i hi
  obtain ⟨c, -, found, hfound, rfl⟩ := exists_of_mem_issuesAt h hi
  obtain ⟨ratio, -, hfound⟩ := bind_eq_ok_iff.mp hfound
  obtain ⟨mostMethods, -, hfound⟩ := bind_eq_ok_iff.mp hfound
  obtain ⟨limit, rfl⟩ := exists_measured_of_eq_ok hfound
  exact ⟨rfl, List.mem_singleton.mpr rfl⟩

theorem MagicNumber.isFaithful : MagicNumber.detector.IsFaithful := by
  intro ast context issues h i hi
  obtain ⟨literals, -, rfl⟩ := map_eq_ok_iff.mp h
  obtain ⟨line, -, rfl⟩ := List.mem_map.mp hi
  exact ⟨rfl, List.mem_singleton.mpr rfl⟩

theorem DeadCode.type_of_mem_findings {f : Finding} (hf : f ∈ DeadCode.findings ast) :
    f.type = .deadCode := by
  rcases List.mem_append.mp hf with hunreachable | hunused
  · obtain ⟨u, -, rfl⟩ := List.mem_map.mp hunreachable
    rfl
  · obtain ⟨function, -, hunused⟩ := List.mem_flatMap.mp hunused
    obtain ⟨l, -, rfl⟩ := List.mem_map.mp hunused
    rfl

theorem DeadCode.isFaithful : DeadCode.detector.IsFaithful := by
  intro ast context issues h i hi
  obtain rfl := Except.ok.inj h
  obtain ⟨f, hf, rfl⟩ := List.mem_map.mp hi
  exact ⟨rfl, List.mem_singleton.mpr (DeadCode.type_of_mem_findings hf)⟩

theorem FeatureEnvy.isFaithful : FeatureEnvy.detector.IsFaithful := by
  intro ast context issues h i hi
  obtain ⟨e, -, found, hfound, rfl⟩ := exists_of_mem_issuesAt h hi
  obtain ⟨limit, rfl⟩ := exists_measured_of_eq_ok hfound
  exact ⟨rfl, List.mem_singleton.mpr rfl⟩

/-! ## The security scan -/

namespace Security

/-- A finding of the security scan in a file. -/
def IsSecurityIn (ast : SourceTree) (i : Issue) : Prop :=
  i.filePath = ast.path ∧ i.type.isSecurity = true

theorem isSecurityIn_of_mem_checkSensitiveFile (hi : i ∈ checkSensitiveFile ast context) :
    IsSecurityIn ast i := by
  unfold checkSensitiveFile at hi
  dsimp only at hi
  split at hi
  · exact absurd hi List.not_mem_nil
  · split at hi
    · exact absurd hi List.not_mem_nil
    · rw [List.mem_singleton.mp hi]
      exact ⟨rfl, rfl⟩

theorem isSecurityIn_of_mem_scanLines {scanner : Scanner}
    (hrules : ∀ rule ∈ scanner.rules, rule.type.isSecurity = true)
    (hi : i ∈ scanner.scanLines ast context) : IsSecurityIn ast i := by
  obtain ⟨r, rfl⟩ := mem_scanLines_iff.mp hi
  exact ⟨rfl, hrules r.rule r.rule_mem⟩

theorem isSecurityIn_of_mem_checkLoggingCalls {scanner : Scanner}
    (hi : i ∈ scanner.checkLoggingCalls ast context) : IsSecurityIn ast i := by
  obtain ⟨hpath, htype⟩ := of_mem_checkLoggingCalls hi
  refine ⟨hpath, ?_⟩
  rw [htype]
  rfl

theorem isSecurityIn_of_mem_scan {scanner : Scanner}
    (hrules : ∀ rule ∈ scanner.rules, rule.type.isSecurity = true)
    (hi : i ∈ scanner.scan ast context) : IsSecurityIn ast i := by
  unfold Scanner.scan at hi
  rcases List.mem_append.mp hi with hfile | hi
  · exact isSecurityIn_of_mem_checkSensitiveFile hfile
  · split at hi
    · exact absurd hi List.not_mem_nil
    · rcases List.mem_append.mp hi with hline | hi
      · exact isSecurityIn_of_mem_scanLines hrules hline
      · split at hi
        · exact isSecurityIn_of_mem_checkLoggingCalls hi
        · exact absurd hi List.not_mem_nil

theorem Scanner.isFaithful {scanner : Scanner}
    (hrules : ∀ rule ∈ scanner.rules, rule.type.isSecurity = true) :
    scanner.detector.IsFaithful := by
  intro ast context issues h i hi
  obtain rfl := Except.ok.inj h
  obtain ⟨hpath, htype⟩ := isSecurityIn_of_mem_scan hrules hi
  exact ⟨hpath, List.mem_filter.mpr ⟨i.type.mem_all, htype⟩⟩

theorem isSecurity_of_mem_literalRules :
    ∀ rule ∈ literalRules, rule.type.isSecurity = true := by
  decide

end Security

/-! ## The standard detectors -/

theorem isFaithful_of_mem_defaultDetectors {d : Detector} (hd : d ∈ defaultDetectors) :
    d.IsFaithful := by
  rcases List.mem_append.mp hd with hd | hd
  · simp only [structuralDetectors, List.mem_cons, List.not_mem_nil, or_false] at hd
    rcases hd with rfl | rfl | rfl | rfl | rfl | rfl | rfl | rfl | rfl
    · exact FunctionMetric.isFaithful _
    · exact GodClass.isFaithful
    · exact FunctionMetric.isFaithful _
    · exact FunctionMetric.isFaithful _
    · exact FunctionMetric.isFaithful _
    · exact FunctionMetric.isFaithful _
    · exact MagicNumber.isFaithful
    · exact DeadCode.isFaithful
    · exact FeatureEnvy.isFaithful
  · rw [List.mem_singleton.mp hd]
    exact Security.Scanner.isFaithful Security.isSecurity_of_mem_literalRules

theorem duplicateCode_not_mem_issueTypes :
    ∀ d ∈ defaultDetectors, .duplicateCode ∉ d.issueTypes := by
  decide

theorem exists_of_mem_runDetectors {detectors : List Detector}
    (hi : i ∈ (runDetectors detectors ast context).issues) :
    ∃ d ∈ detectors, ∃ issues, d.detect ast context = .ok issues ∧
      ∃ found ∈ issues, i = found.withStableId context.projectId := by
  unfold runDetectors outcomes at hi
  obtain ⟨batch, hbatch, found, hfound, rfl⟩ := Issue.exists_of_mem_mergeIssues hi
  obtain ⟨⟨d, answer⟩, hanswer, hok⟩ := List.mem_filterMap.mp hbatch
  obtain ⟨_, hd, heq⟩ := List.mem_map.mp hanswer
  obtain ⟨rfl, rfl⟩ := Prod.mk.inj heq
  exact ⟨_, List.mem_of_mem_filter hd, batch, toOption_eq_some_iff.mp hok, found, hfound, rfl⟩

theorem of_mem_runDetectors (hi : i ∈ (runDetectors defaultDetectors ast context).issues) :
    i.filePath = ast.path ∧ i.type ≠ .duplicateCode ∧
      i.id = some (i.stableId context.projectId) := by
  obtain ⟨d, hd, issues, hdetect, found, hfound, rfl⟩ := exists_of_mem_runDetectors hi
  obtain ⟨hpath, htype⟩ := isFaithful_of_mem_defaultDetectors hd ast context issues hdetect found
    hfound
  refine ⟨hpath, ?_, rfl⟩
  intro hduplicate
  have hdeclared : found.type = .duplicateCode := hduplicate
  rw [hdeclared] at htype
  exact duplicateCode_not_mem_issueTypes d hd htype

end CodeHealth
