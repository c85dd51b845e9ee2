import CodeHealth.Proofs.Detector.Finding
import CodeHealth.Proofs.Issue.Winner
import CodeHealth.Proofs.Project.Cancellation

/-!
# What a report accounts for

Each file that was given is analysed or skipped, once, whenever the run is cancelled. Every issue
lies on lines of an analysed file.
-/

namespace CodeHealth

open Duplicates

/-- The issue lies on lines of a text under a path. -/
structure Issue.LiesOn (i : Issue) (path text : String) : Prop where
  path : i.filePath = path
  lineStart_pos : 1 ≤ i.lineStart
  inOrder : i.lineStart ≤ i.lineEnd
  lineEnd_le : i.lineEnd ≤ (Text.linesOf text).length

theorem Issue.IsFitting.liesOn {ast : SourceTree} {i : Issue} (h : i.IsFitting ast) :
    i.LiesOn ast.path ast.source := by
  obtain ⟨f, hf, rfl⟩ := h
  exact ⟨rfl, hf.lineStart_pos, Nat.le_max_left _ _,
    Nat.max_le.mpr ⟨hf.lineStart_le, hf.lineEnd_le⟩⟩

theorem Issue.LiesOn.withStableId {i : Issue} {path text : String} (h : i.LiesOn path text)
    (projectId : String) : (i.withStableId projectId).LiesOn path text :=
  ⟨h.path, h.lineStart_pos, h.inOrder, h.lineEnd_le⟩

theorem Duplicates.liesOn_of_detect {options : Options} {projectId : String}
    {asts : List SourceTree} {result : Result} (h : detect options projectId asts = .ok result)
    (hparse : ∀ ast ∈ asts, ast.IsParse) (hlines : ∀ ast ∈ asts, ast.InLines) {i : Issue}
    (hi : i ∈ result.issues) : ∃ ast ∈ asts, i.LiesOn ast.path ast.source := by
  obtain ⟨ast, hast, hcode, f, hf, hpath, hstart, hend⟩ := exists_function_of_issue h hi
  have hnode := node_mem_subtrees_of_mem_functions hf
  obtain ⟨hpos, hle⟩ := (hparse ast hast).lines hcode hnode
  refine ⟨ast, hast, hpath, ?_, ?_, ?_⟩
  · rw [hstart]
    exact hpos
  · rw [hstart, hend]
    exact hle
  · rw [hend]
    exact (hlines ast hast f.node hnode).endLine_le

/-- What a report owes to the files it was made for. -/
structure AnalysisReport.Accounts (report : AnalysisReport) (files : List SourceFile)
    (skipped : List SkippedFile) : Prop where
  listed : (report.analyzedFiles ++ report.skippedFiles.map SkippedFile.path).Perm
    (files.map SourceFile.path ++ skipped.map SkippedFile.path)
  partialFiles : report.partialFiles.Sublist report.analyzedFiles
  issues : ∀ i ∈ report.issues, ∃ f ∈ files, f.path ∈ report.analyzedFiles ∧
    i.LiesOn f.path f.text
  sorted : report.issues.Pairwise fun i j => i.place ≤ j.place
  cancelled : report.isCancelled = true →
    report.duplicateGroups = [] ∧ ∀ i ∈ report.issues, i.type ≠ .duplicateCode

/-! ## Outcomes -/

namespace FileOutcome

theorem perm_paths (outcomes : List FileOutcome) :
    ((outcomes.filter isAnalyzed).map path ++
      (outcomes.filterMap skipped?).map SkippedFile.path).Perm (outcomes.map path) := by
  induction outcomes with
  | nil => exact .refl _
  | cons outcome outcomes ih =>
      cases outcome with
      | analyzed => exact ih.cons _
      | unsupported | cancelled | failed => exact List.perm_middle.trans (ih.cons _)

theorem sublist_partial (outcomes : List FileOutcome) :
    ((outcomes.filter isPartial).map path).Sublist ((outcomes.filter isAnalyzed).map path) :=
  (List.monotone_filter_right outcomes fun _ => Analyzer.isAnalyzed_of_isPartial).map path

end FileOutcome

namespace Analyzer

variable {a : Analyzer} {s t : AnalysisState} {f : SourceFile} {files : List SourceFile}
  {outcomes : List FileOutcome} {skipped : List SkippedFile} {report : AnalysisReport}

theorem liesOn_of_mem_detected (hdetectors : a.detectors = defaultDetectors) {tree : SourceTree}
    (htree : a.treeOf .empty f = .ok tree) {i : Issue} (hi : i ∈ (a.detected f.path tree).issues) :
    i.LiesOn f.path f.text := by
  unfold detected at hi
  rw [hdetectors] at hi
  obtain ⟨d, hd, issues, hdetect, found, hfound, rfl⟩ := exists_of_mem_runDetectors hi
  have hlines : tree.InLines := fun u hu => within_of_parseAs htree hu
  have hlies := (findsFitting_of_mem_defaultDetectors hd tree _ issues hlines hdetect found
    hfound).liesOn
  rw [path_of_parseAs htree, source_of_parseAs htree] at hlies
  exact hlies.withStableId _

/-! ## Complete runs -/

/-- The tree that is stored for an analysed file is the one that is read for it. -/
theorem Closed.exists_file_of_stored (h : a.Closed .empty files outcomes t) {path : String}
    (hpath : path ∈ (outcomes.filter FileOutcome.isAnalyzed).map FileOutcome.path)
    {ast : SourceTree} (hast : t.store.get? a.projectId path = some ast) :
    ∃ f ∈ files, f.path = path ∧ a.treeOf .empty f = .ok ast := by
  obtain ⟨outcome, houtcome, rfl⟩ := List.mem_map.mp hpath
  obtain ⟨hmem, hanalyzed⟩ := List.mem_filter.mp houtcome
  obtain ⟨f, hf, tree, heq, htree, hstored, -⟩ := h.exists_tree hmem hanalyzed
  rw [← heq] at hstored
  obtain rfl := Option.some.inj (hstored.symm.trans hast)
  exact ⟨f, hf, heq.symm, htree⟩

theorem Closed.liesOn_of_finding (h : a.Closed .empty files outcomes t)
    (hdetectors : a.detectors = defaultDetectors) {i : Issue}
    (hi : i ∈ outcomes.flatMap FileOutcome.issues) :
    ∃ f ∈ files, f.path ∈ (outcomes.filter FileOutcome.isAnalyzed).map FileOutcome.path ∧
      i.type ≠ .duplicateCode ∧ i.LiesOn f.path f.text := by
  obtain ⟨outcome, houtcome, hi⟩ := List.mem_flatMap.mp hi
  have hanalyzed : outcome.isAnalyzed = true := by
    rw [← Bool.not_eq_false]
    intro hskipped
    rw [issues_of_not_isAnalyzed hskipped] at hi
    exact absurd hi List.not_mem_nil
  obtain ⟨f, hf, tree, hpath, htree, -, hissues⟩ := h.exists_tree houtcome hanalyzed
  rw [hissues] at hi
  refine ⟨f, hf, ?_, ?_, liesOn_of_mem_detected hdetectors htree hi⟩
  · rw [← hpath]
    exact List.mem_map_of_mem (List.mem_filter.mpr ⟨houtcome, hanalyzed⟩)
  · unfold detected at hi
    rw [hdetectors] at hi
    exact (of_mem_runDetectors hi).2.1

theorem Closed.liesOn_of_duplicate (h : a.Closed .empty files outcomes t)
    (hgrammar : a.grammar.Ordered) {found : Duplicates.Result} (hfound : a.duplicates t
      ((outcomes.filter FileOutcome.isAnalyzed).map FileOutcome.path) = .ok found) {i : Issue}
    (hi : i ∈ found.issues) :
    ∃ f ∈ files, f.path ∈ (outcomes.filter FileOutcome.isAnalyzed).map FileOutcome.path ∧
      i.LiesOn f.path f.text := by
  unfold duplicates at hfound
  split at hfound
  · obtain rfl := Except.ok.inj hfound
    exact absurd hi List.not_mem_nil
  · have hread : ∀ ast ∈ ((outcomes.filter FileOutcome.isAnalyzed).map
        FileOutcome.path).filterMap (t.store.get? a.projectId),
        ∃ f ∈ files, f.path ∈ (outcomes.filter FileOutcome.isAnalyzed).map FileOutcome.path ∧
          a.treeOf .empty f = .ok ast := by
      intro ast hast
      obtain ⟨path, hpath, hstored⟩ := List.mem_filterMap.mp hast
      obtain ⟨f, hf, rfl, htree⟩ := h.exists_file_of_stored hpath hstored
      exact ⟨f, hf, hpath, htree⟩
    obtain ⟨ast, hast, hlies⟩ := liesOn_of_detect hfound
      (fun ast hast =>
        have ⟨_, _, _, htree⟩ := hread ast hast
        ⟨a.grammar, hgrammar, _, _, _, _, htree⟩)
      (fun ast hast u hu =>
        have ⟨_, _, _, htree⟩ := hread ast hast
        within_of_parseAs htree hu) hi
    obtain ⟨f, hf, hpath, htree⟩ := hread ast hast
    rw [path_of_parseAs htree, source_of_parseAs htree] at hlies
    exact ⟨f, hf, hpath, hlies⟩

/-! ## Reports -/

theorem Closed.perm_files {first : TreeStore}
    (h : a.Closed first (files.filter SourceFile.isSupported) outcomes t) :
    ((outcomes.filter FileOutcome.isAnalyzed).map FileOutcome.path ++
      (skipped ++ ((files.filter fun f => !f.isSupported).map fun f =>
          SkippedFile.mk f.path "unsupported language") ++
        outcomes.filterMap FileOutcome.skipped?).map SkippedFile.path).Perm
      (files.map SourceFile.path ++ skipped.map SkippedFile.path) := by
  have hsupported := (FileOutcome.perm_paths outcomes).trans h.paths
  have hfiles := (List.filter_append_perm SourceFile.isSupported files).map SourceFile.path
  have hunsupported : ((files.filter fun f => !f.isSupported).map fun f =>
      SkippedFile.mk f.path "unsupported language").map SkippedFile.path =
        (files.filter fun f => !f.isSupported).map SourceFile.path := by
    rw [List.map_map]
    rfl
  rw [List.map_append, List.map_append, hunsupported]
  rw [List.map_append] at hfiles
  rw [List.perm_iff_count] at hsupported hfiles ⊢
  intro path
  have hcount := hsupported path
  have hall := hfiles path
  simp only [List.count_append] at hcount hall ⊢
  omega

theorem Closed.accounts (h : a.Closed .empty (files.filter SourceFile.isSupported) outcomes t)
    (hdetectors : a.detectors = defaultDetectors) (hgrammar : a.grammar.Ordered)
    (hreport : a.reportOn files skipped outcomes t = .ok report) :
    report.Accounts files skipped := by
  obtain ⟨found, score, hfound, -, rfl⟩ := reportOn_eq_ok_iff.mp hreport
  have hsorted : (outcomes.mergeSort fun x y => x.path ≤ y.path).Perm outcomes :=
    List.mergeSort_perm outcomes _
  have hclosed := h.of_perm hsorted
  have hplace : ∀ i j : Issue, i.comesBefore j = true ↔ i.place ≤ j.place :=
    fun _ _ => Issue.comesBefore_iff
  refine ⟨hclosed.perm_files, FileOutcome.sublist_partial _, ?_,
    pairwise_mergeSort_key hplace _, ?_⟩
  · intro i hi
    rcases mem_allIssues.mp hi with hi | hi
    · obtain ⟨f, hf, hpath, -, hlies⟩ := hclosed.liesOn_of_finding hdetectors hi
      exact ⟨f, List.mem_of_mem_filter hf, hpath, hlies⟩
    · obtain ⟨f, hf, hpath, hlies⟩ := hclosed.liesOn_of_duplicate hgrammar hfound hi
      exact ⟨f, List.mem_of_mem_filter hf, hpath, hlies⟩
  · intro hcancelled
    have hcancelled : t.isCancelled = true := hcancelled
    unfold duplicates at hfound
    rw [if_pos hcancelled] at hfound
    obtain rfl := Except.ok.inj hfound
    refine ⟨rfl, fun i hi => ?_⟩
    rcases mem_allIssues.mp hi with hi | hi
    · obtain ⟨f, -, -, htype, -⟩ := hclosed.liesOn_of_finding hdetectors hi
      exact htype
    · exact absurd hi List.not_mem_nil

theorem Closed.of_cancelled {first : TreeStore}
    (h : a.Closed first (files.filter SourceFile.isSupported) outcomes t)
    (hpaths : (files.map SourceFile.path).Nodup)
    (hreport : a.reportOn files skipped outcomes t = .ok report) {path : String}
    (hmem : .cancelled path ∈ outcomes) :
    ⟨path, "cancelled before start"⟩ ∈ report.skippedFiles ∧ path ∉ report.analyzedFiles := by
  obtain ⟨found, score, -, -, rfl⟩ := reportOn_eq_ok_iff.mp hreport
  constructor
  · apply List.mem_append_right
    exact List.mem_filterMap.mpr ⟨_, List.mem_mergeSort.mpr hmem, rfl⟩
  · intro hanalyzed
    obtain ⟨outcome, houtcome, hpath⟩ := List.mem_map.mp hanalyzed
    obtain ⟨houtcome, hanalyzed⟩ := List.mem_filter.mp houtcome
    have hnodup : (outcomes.map FileOutcome.path).Nodup :=
      h.paths.nodup_iff.mpr (hpaths.sublist (List.filter_sublist.map _))
    obtain rfl := List.inj_on_of_nodup_map hnodup (List.mem_mergeSort.mp houtcome) hmem hpath
    exact nomatch hanalyzed

/-- A report of the standard detectors on files with different paths, read into a fresh store,
accounts for each file, whenever the run was cancelled and in whatever order its passes took their
steps. A file whose pass had not begun when the run was cancelled is skipped. -/
theorem accounts_of_reports (a : Analyzer) (s : AnalysisState) (files : List SourceFile)
    (skipped : List SkippedFile) (hdetectors : a.detectors = defaultDetectors)
    (hgrammar : a.grammar.Ordered) (hstore : s.store = .empty)
    (hpaths : (files.map SourceFile.path).Nodup) :
    (∀ report, a.Reports s files skipped (.ok report) → report.Accounts files skipped) ∧
      (∀ report t, a.analyze s files skipped = .ok (report, t) →
        a.Reports s files skipped (.ok report)) ∧
      ∀ w finished outcomes t report, a.Events (.start s (files.filter SourceFile.isSupported)) w →
        w.state.isCancelled = true → a.Events w ⟨[], finished, t⟩ → outcomes.Perm finished →
        a.reportOn files skipped outcomes t = .ok report →
        report.isCancelled = true ∧ ∀ f, .waiting f ∈ w.passes →
          ⟨f.path, "cancelled before start"⟩ ∈ report.skippedFiles ∧
            f.path ∉ report.analyzedFiles := by
  have hsupported : ((files.filter SourceFile.isSupported).map SourceFile.path).Nodup :=
    hpaths.sublist (List.filter_sublist.map _)
  refine ⟨?_, fun report t h => reports_of_returns (returns_of_analyze h), ?_⟩
  · rintro report ⟨outcomes, t, hends, hreport⟩
    have hclosed := hends.closed hsupported
    rw [hstore] at hclosed
    exact hclosed.accounts hdetectors hgrammar hreport.symm
  · intro w finished outcomes t report hbefore hcancelled hafter hperm hreport
    have hclosed := Ends.closed ⟨finished, hbefore.trans hafter, hperm⟩ hsupported
    refine ⟨(isCancelled_reportOn hreport).trans (isCancelled_of_events hafter hcancelled),
      fun f hwaits => hclosed.of_cancelled hpaths hreport (hperm.mem_iff.mpr ?_)⟩
    rcases leftOut_of_events hafter hcancelled hwaits with hwaits | hdone
    · exact absurd hwaits List.not_mem_nil
    · exact hdone

/-! ## A run that is cancelled -/

/-- Reads as `arrowAnalyzer`, and cancels the run while it is at work on `a.js`. -/
def stoppingAnalyzer : Analyzer :=
  { arrowAnalyzer 9 with stopsAt := fun path => path == "a.js" }

theorem comparedTrees_stopping : stoppingAnalyzer.comparedTrees freshState arrowFiles = [] := by
  have hrun : stoppingAnalyzer.analyzeFiles freshState
      (arrowFiles.filter SourceFile.isSupported) = (_, ⟨_, true⟩) := rfl
  unfold comparedTrees
  rw [hrun]
  rfl

theorem ownIssues_stopping : stoppingAnalyzer.ownIssues freshState arrowFiles = [] := by
  rw [← List.isEmpty_iff]
  decide +kernel

theorem exists_analyze_stopping :
    ∃ report t, stoppingAnalyzer.analyze freshState arrowFiles [] = .ok (report, t) := by
  have hblocks : extractBlocks stoppingAnalyzer.options
      (stoppingAnalyzer.comparedTrees freshState arrowFiles) = .ok [] := by
    rw [comparedTrees_stopping]
    exact extractBlocks_nil _
  refine exists_analyze hblocks (not_unrated_finite _) (by decide) ?_ []
  rw [ownIssues_stopping]
  exact Nat.zero_le _

/-- The other file is skipped. -/
theorem stopping_accounts :
    ∃ report t, stoppingAnalyzer.analyze freshState arrowFiles [] = .ok (report, t) ∧
      t.isCancelled = true ∧ report.analyzedFiles = ["a.js"] ∧ report.Accounts arrowFiles [] := by
  obtain ⟨report, t, hreport⟩ := exists_analyze_stopping
  obtain ⟨haccounts, hreports, -⟩ := accounts_of_reports stoppingAnalyzer freshState arrowFiles []
    rfl (arrowAnalyzer_ordered 9) rfl (by decide)
  refine ⟨report, t, hreport, ?_, ?_, haccounts report (hreports report t hreport)⟩
  · rw [← (analyze_eq_ok_iff.mp hreport).2]
    rfl
  · obtain ⟨found, -, hcovers⟩ := covers_of_analyze hreport
    exact List.perm_singleton.mp hcovers.analyzed

end Analyzer

end CodeHealth
