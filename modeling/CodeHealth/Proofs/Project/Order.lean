import CodeHealth.Proofs.Project.Identity
import CodeHealth.Proofs.Project.Schedule
import CodeHealth.Proofs.Sorting
import Mathlib.Data.String.Basic

/-!
# Reports in any order

All uncancelled runs over the same files give one report, in whatever order the files are given and
the steps of the passes happen.
-/

namespace CodeHealth.Analyzer

variable {a : Analyzer} {s t t' : AnalysisState} {first : TreeStore}
  {files files' : List SourceFile} {outcomes outcomes' : List FileOutcome}

/-! ## Reports -/

/-- Reports that differ at most in the order of the skipped files. -/
structure SameReport (report report' : AnalysisReport) : Prop where
  projectId : report.projectId = report'.projectId
  issues : report.issues = report'.issues
  duplicateGroups : report.duplicateGroups = report'.duplicateGroups
  analyzedFiles : report.analyzedFiles = report'.analyzedFiles
  partialFiles : report.partialFiles = report'.partialFiles
  skippedFiles : report.skippedFiles.Perm report'.skippedFiles
  detectorFailures : report.detectorFailures = report'.detectorFailures
  isCancelled : report.isCancelled = report'.isCancelled
  qualityScore : report.qualityScore = report'.qualityScore

theorem Settled.nodup_path (h : a.Settled first files outcomes t)
    (hpaths : (files.map SourceFile.path).Nodup) : (outcomes.map FileOutcome.path).Nodup := by
  apply (h.outcomes.map FileOutcome.path).nodup_iff.mpr
  rwa [List.map_map, show FileOutcome.path ∘ a.outcomeOf first = SourceFile.path from
    funext (a.path_outcomeOf first)]

theorem Settled.duplicates_eq (h : a.Settled first files outcomes t)
    (h' : a.Settled first files' outcomes' t') (hfiles : files.Perm files')
    {sorted : List FileOutcome} (hsorted : sorted.Perm outcomes) :
    a.duplicates t ((sorted.filter FileOutcome.isAnalyzed).map FileOutcome.path) =
      a.duplicates t' ((sorted.filter FileOutcome.isAnalyzed).map FileOutcome.path) := by
  have htrees : ((sorted.filter FileOutcome.isAnalyzed).map FileOutcome.path).filterMap
      (t.store.get? a.projectId) =
        ((sorted.filter FileOutcome.isAnalyzed).map FileOutcome.path).filterMap
          (t'.store.get? a.projectId) := by
    apply List.filterMap_congr
    intro path hpath
    obtain ⟨outcome, houtcome, rfl⟩ := List.mem_map.mp hpath
    obtain ⟨hmem, hanalyzed⟩ := List.mem_filter.mp houtcome
    obtain ⟨f, hf, rfl⟩ := List.mem_map.mp (h.outcomes.mem_iff.mp (hsorted.mem_iff.mp hmem))
    obtain ⟨tree, htree⟩ := exists_treeOf_of_isAnalyzed hanalyzed
    rw [path_outcomeOf, h.stored f hf tree htree, h'.stored f (hfiles.mem_iff.mp hf) tree htree]
  unfold duplicates
  rw [h.uncancelled, h'.uncancelled, htrees]

theorem Settled.exists_reportOn {report : AnalysisReport} {skipped : List SkippedFile}
    (h : a.Settled first (files.filter SourceFile.isSupported) outcomes t)
    (h' : a.Settled first (files'.filter SourceFile.isSupported) outcomes' t')
    (hfiles : files.Perm files') (hpaths : (files.map SourceFile.path).Nodup)
    (hreport : a.reportOn files skipped outcomes t = .ok report) :
    ∃ report', a.reportOn files' skipped outcomes' t' = .ok report' ∧
      SameReport report' report := by
  have hsupported := hfiles.filter SourceFile.isSupported
  have hperm : outcomes.Perm outcomes' :=
    h.outcomes.trans ((hsupported.map _).trans h'.outcomes.symm)
  have hnodup := h.nodup_path (hpaths.sublist (List.filter_sublist.map _))
  have hsorted : (outcomes.mergeSort fun x y => x.path ≤ y.path) =
      outcomes'.mergeSort fun x y => x.path ≤ y.path :=
    mergeSort_eq_of_perm (fun _ _ => decide_eq_true_iff) hnodup hperm
  obtain ⟨found, score, hfound, hscore, rfl⟩ := reportOn_eq_ok_iff.mp hreport
  rw [h.duplicates_eq h' hsupported (List.mergeSort_perm outcomes _)] at hfound
  refine ⟨_, reportOn_eq_ok_iff.mpr ⟨found, score, ?_, ?_, rfl⟩, ?_⟩
  · rw [← hsorted]
    exact hfound
  · rw [← hsorted]
    exact hscore
  · rw [← hsorted]
    refine ⟨rfl, rfl, rfl, rfl, rfl, ?_, rfl, ?_, rfl⟩
    · exact (((hfiles.symm.filter _).map _).append_left skipped).append_right _
    · exact h'.uncancelled.trans h.uncancelled.symm

/-! ## Any order -/

theorem returns_of_analyze {report : AnalysisReport} {skipped : List SkippedFile}
    (h : a.analyze s files skipped = .ok (report, t)) : a.Returns s files skipped (.ok report) :=
  ⟨_, _, completes_analyzeFiles a s _, (analyze_eq_ok_iff.mp h).1.symm⟩

theorem isCancelled_reportOn {report : AnalysisReport} {skipped : List SkippedFile}
    (h : a.reportOn files skipped outcomes t = .ok report) :
    report.isCancelled = t.isCancelled := by
  obtain ⟨found, score, -, -, rfl⟩ := reportOn_eq_ok_iff.mp h
  rfl

/-- If one run over files with different paths returns a report and is not cancelled, then so does
every run over them, in any order of the files and of the steps of the passes, and the reports
differ at most in the order of the skipped files. -/
theorem sameReport_of_returns {report : AnalysisReport} {skipped : List SkippedFile}
    (hpaths : (files.map SourceFile.path).Nodup)
    (hreturns : a.Returns s files skipped (.ok report)) (huncancelled : report.isCancelled = false)
    (hfiles : files.Perm files') :
    (∃ report' t, a.analyze s files' skipped = .ok (report', t) ∧ SameReport report' report) ∧
      (∀ result, a.Returns s files' skipped result →
        ∃ report', result = .ok report' ∧ SameReport report' report) ∧
      ∀ w, a.Steps (.start s (files'.filter SourceFile.isSupported)) w →
        ∃ outcomes t, a.Steps w ⟨[], outcomes, t⟩ := by
  have hsupported := hfiles.filter SourceFile.isSupported
  have hnodup : ((files.filter SourceFile.isSupported).map SourceFile.path).Nodup :=
    hpaths.sublist (List.filter_sublist.map _)
  obtain ⟨outcomes, t, hcomplete, hreport⟩ := hreturns
  have ht : t.isCancelled = false :=
    (isCancelled_reportOn hreport.symm).symm.trans huncancelled
  obtain ⟨hiff, hsettled⟩ := hcomplete.settled_iff hnodup
  obtain ⟨hs, hstops⟩ := hiff.mp ht
  -- a pass cancels the run or not whatever the order, so the other runs are settled too
  have hall : ∀ result, a.Returns s files' skipped result →
      ∃ report', result = .ok report' ∧ SameReport report' report := by
    rintro result ⟨outcomes', t', hcomplete', rfl⟩
    obtain ⟨hiff', hsettled'⟩ :=
      hcomplete'.settled_iff ((hsupported.map SourceFile.path).nodup_iff.mp hnodup)
    have ht' : t'.isCancelled = false :=
      hiff'.mpr ⟨hs, fun f hf => hstops f (hsupported.mem_iff.mpr hf)⟩
    exact (hsettled ht).exists_reportOn (hsettled' ht') hfiles hpaths hreport.symm
  refine ⟨?_, hall, fun w _ => exists_steps_end a w⟩
  obtain ⟨report', hreport', hsame⟩ := hall _ ⟨_, _, completes_analyzeFiles a s _, rfl⟩
  exact ⟨report', _, analyze_eq_ok_iff.mpr ⟨hreport', rfl⟩, hsame⟩

theorem arrows_reversed_sameReport :
    ∃ report t report' t', (arrowAnalyzer 9).analyze freshState arrowFiles [] = .ok (report, t) ∧
      (arrowAnalyzer 9).analyze freshState arrowFiles.reverse [] = .ok (report', t') ∧
      SameReport report' report := by
  obtain ⟨report, t, hreport⟩ := exists_analyze_arrows
  have huncancelled : report.isCancelled = false :=
    isCancelled_reportOn (analyze_eq_ok_iff.mp hreport).1
  obtain ⟨⟨report', t', hreport', hsame⟩, -⟩ := sameReport_of_returns (by decide)
    (returns_of_analyze hreport) huncancelled (List.reverse_perm arrowFiles).symm
  exact ⟨report, t, report', t', hreport, hreport', hsame⟩

end CodeHealth.Analyzer
