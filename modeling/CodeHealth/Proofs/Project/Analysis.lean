import CodeHealth.Detector.Battery
import CodeHealth.Project.Analysis
import CodeHealth.Proofs.Duplicate.Record
import CodeHealth.Proofs.Project.Store
import CodeHealth.Proofs.Score

/-!
# Runs over a project

A run gives a report unless a body that is compared for duplication was cut off, a confidence cannot
be scaled, or the weights leave no score. A file whose tree was cut off is listed as partial, and
the records of the duplicates are valid.
-/

namespace CodeHealth.Analyzer

variable {P : String → SourceTree → Prop} {a : Analyzer} {s s' : AnalysisState}
  {files : List SourceFile} {skipped : List SkippedFile} {outcomes : List FileOutcome}
  {report : AnalysisReport}

/-! ## The files of a run -/

/-- The files that are read and the tree found for each, in their order. -/
def readings (a : Analyzer) : AnalysisState → List SourceFile → List (SourceFile × SourceTree)
  | _, [] => []
  | s, f :: fs =>
    let rest := a.readings (a.analyzeFile s f).2 fs
    if s.isCancelled then rest
    else
      match s.store.getOrParse a.grammar a.options.maxAstNodes a.projectId f with
      | .ok (found, _) => (f, found.tree) :: rest
      | .error _ => rest

/-- What the detectors find in the tree of a file. -/
def detected (a : Analyzer) (path : String) (tree : SourceTree) : DetectionResult :=
  runDetectors a.detectors tree ⟨a.projectId, path, tree.language, a.options⟩

/-- A file is read, or it is left out and changes nothing. -/
theorem analyzeFile_cases (a : Analyzer) (s : AnalysisState) (f : SourceFile) :
    (∃ found store,
        s.store.getOrParse a.grammar a.options.maxAstNodes a.projectId f = .ok (found, store) ∧
        a.analyzeFile s f =
          (.analyzed f.path found.tree.hasErrors (a.detected f.path found.tree).issues
            (a.detected f.path found.tree).failures, ⟨store, a.stopsAt f.path⟩) ∧
        ∀ fs, a.readings s (f :: fs) =
          (f, found.tree) :: a.readings ⟨store, a.stopsAt f.path⟩ fs) ∨
      ((a.analyzeFile s f).1.isAnalyzed = false ∧ (a.analyzeFile s f).2 = s ∧
        ∀ fs, a.readings s (f :: fs) = a.readings s fs) := by
  by_cases hs : s.isCancelled = true
  · have hstep : a.analyzeFile s f = (.cancelled f.path, s) := by
      unfold analyzeFile
      rw [if_pos hs]
    refine Or.inr ⟨by rw [hstep]; rfl, by rw [hstep], fun fs => ?_⟩
    rw [readings, hstep, if_pos hs]
  · cases hfound : s.store.getOrParse a.grammar a.options.maxAstNodes a.projectId f with
    | error e =>
        have hstep : (a.analyzeFile s f).1.isAnalyzed = false ∧ (a.analyzeFile s f).2 = s := by
          unfold analyzeFile
          rw [if_neg hs, hfound]
          cases e <;> exact ⟨rfl, rfl⟩
        refine Or.inr ⟨hstep.1, hstep.2, fun fs => ?_⟩
        rw [readings, hstep.2, if_neg hs, hfound]
    | ok result =>
        obtain ⟨found, store⟩ := result
        have hstep : a.analyzeFile s f =
            (.analyzed f.path found.tree.hasErrors (a.detected f.path found.tree).issues
              (a.detected f.path found.tree).failures, ⟨store, a.stopsAt f.path⟩) := by
          unfold analyzeFile
          rw [if_neg hs, hfound]
          rfl
        refine Or.inl ⟨found, store, rfl, hstep, fun fs => ?_⟩
        rw [readings, hstep, if_neg hs, hfound]

theorem isAnalyzed_of_isPartial {outcome : FileOutcome} (h : outcome.isPartial = true) :
    outcome.isAnalyzed = true := by
  cases outcome with
  | analyzed => rfl
  | unsupported | cancelled | failed => exact nomatch h

/-- What a run lists as analysed and as partial are the files that it read. -/
theorem paths_analyzeFiles (a : Analyzer) (s : AnalysisState) (fs : List SourceFile) :
    ((a.analyzeFiles s fs).1.filter FileOutcome.isAnalyzed).map FileOutcome.path =
        (a.readings s fs).map (fun p => p.1.path) ∧
      ((a.analyzeFiles s fs).1.filter FileOutcome.isPartial).map FileOutcome.path =
        ((a.readings s fs).filter fun p => p.2.hasErrors).map fun p => p.1.path := by
  induction fs generalizing s with
  | nil => exact ⟨rfl, rfl⟩
  | cons f fs ih =>
      obtain ⟨hanalyzed, hpartial⟩ := ih (a.analyzeFile s f).2
      simp only [analyzeFiles]
      rcases a.analyzeFile_cases s f with
        ⟨found, store, -, hstep, hread⟩ | ⟨hskipped, hstate, hread⟩
      · rw [hstep] at hanalyzed hpartial ⊢
        rw [hread]
        refine ⟨congrArg (f.path :: ·) hanalyzed, ?_⟩
        by_cases herrors : found.tree.hasErrors = true
        · rw [List.filter_cons_of_pos (by exact herrors),
            List.filter_cons_of_pos (by exact herrors)]
          exact congrArg (f.path :: ·) hpartial
        · rw [List.filter_cons_of_neg (by exact herrors),
            List.filter_cons_of_neg (by exact herrors)]
          exact hpartial
      · have hwhole : ¬ (a.analyzeFile s f).1.isPartial = true := fun h => by
          rw [isAnalyzed_of_isPartial h] at hskipped
          exact nomatch hskipped
        rw [hstate] at hanalyzed hpartial ⊢
        rw [hread, List.filter_cons_of_neg (by simp [hskipped]), List.filter_cons_of_neg hwhole]
        exact ⟨hanalyzed, hpartial⟩

theorem all_analyzeFile {f : SourceFile} (h : s.store.All P)
    (hparse : ∀ tree, parseAs a.grammar a.options.maxAstNodes f.text f.language f.path = .ok tree →
      P f.path tree) :
    (a.analyzeFile s f).2.store.All P := by
  rcases a.analyzeFile_cases s f with ⟨found, store, hfound, hstep, -⟩ | ⟨-, hstate, -⟩
  · rw [hstep]
    exact (h.of_getOrParse hparse hfound).2
  · rwa [hstate]

/-- The trees that are searched for duplicates: after a cancellation none are. -/
def comparedTrees (a : Analyzer) (s : AnalysisState) (files : List SourceFile) :
    List SourceTree :=
  let (outcomes, s) := a.analyzeFiles s (files.filter SourceFile.isSupported)
  if s.isCancelled then []
  else (((outcomes.mergeSort fun x y => x.path ≤ y.path).filter FileOutcome.isAnalyzed).map
    FileOutcome.path).filterMap (s.store.get? a.projectId)

theorem duplicates_eq_detect :
    a.duplicates (a.analyzeFiles s (files.filter SourceFile.isSupported)).2
        ((((a.analyzeFiles s (files.filter SourceFile.isSupported)).1.mergeSort
          fun x y => x.path ≤ y.path).filter FileOutcome.isAnalyzed).map FileOutcome.path) =
      Duplicates.detect a.options a.projectId (a.comparedTrees s files) := by
  unfold duplicates comparedTrees
  dsimp only
  split
  · rw [Duplicates.detect_nil]
  · rfl

/-! ## Reports -/

/-- What the detectors find in the files of a run. -/
def ownIssues (a : Analyzer) (s : AnalysisState) (files : List SourceFile) : List Issue :=
  (a.analyzeFiles s (files.filter SourceFile.isSupported)).1.flatMap FileOutcome.issues

/-- What a report lists after a run: the files that were read, those of them whose tree is cut off
or malformed, the findings of the detectors, and the duplicates that were found. -/
structure Covers (a : Analyzer) (s : AnalysisState) (files : List SourceFile)
    (report : AnalysisReport) (found : Duplicates.Result) : Prop where
  analyzed : report.analyzedFiles.Perm
    ((a.readings s (files.filter SourceFile.isSupported)).map fun p => p.1.path)
  incomplete : report.partialFiles.Perm
    (((a.readings s (files.filter SourceFile.isSupported)).filter fun p => p.2.hasErrors).map
      fun p => p.1.path)
  groups : report.duplicateGroups = found.groups
  issues : report.issues.Perm (a.ownIssues s files ++ found.issues)

theorem allIssues_perm {outcomes sorted : List FileOutcome} (h : sorted.Perm outcomes)
    (found : Duplicates.Result) :
    (allIssues sorted found).Perm (outcomes.flatMap FileOutcome.issues ++ found.issues) :=
  (List.mergeSort_perm _ _).trans ((h.flatMap_right _).append_right _)

theorem mem_allIssues {found : Duplicates.Result} {i : Issue} :
    i ∈ allIssues outcomes found ↔ i ∈ outcomes.flatMap FileOutcome.issues ∨ i ∈ found.issues := by
  rw [allIssues, List.mem_mergeSort, List.mem_append]

/-- A report needs the duplicates and a score, and nothing else can fail. -/
theorem reportOn_eq_ok_iff :
    a.reportOn files skipped outcomes s = .ok report ↔
      ∃ found score,
        a.duplicates s (((outcomes.mergeSort fun x y => x.path ≤ y.path).filter
          FileOutcome.isAnalyzed).map FileOutcome.path) = .ok found ∧
        a.score (allIssues (outcomes.mergeSort fun x y => x.path ≤ y.path) found)
          (((outcomes.mergeSort fun x y => x.path ≤ y.path).filter
            FileOutcome.isAnalyzed).map FileOutcome.path).length = .ok score ∧
        a.assemble files skipped (outcomes.mergeSort fun x y => x.path ≤ y.path) s.isCancelled
          found score = report := by
  unfold reportOn
  simp only [bind_eq_ok_iff, mapError_eq_ok_iff, pure, Except.pure, Except.ok.injEq,
    exists_and_left]

theorem analyze_eq_ok_iff :
    a.analyze s files skipped = .ok (report, s') ↔
      a.reportOn files skipped (a.analyzeFiles s (files.filter SourceFile.isSupported)).1
          (a.analyzeFiles s (files.filter SourceFile.isSupported)).2 = .ok report ∧
        (a.analyzeFiles s (files.filter SourceFile.isSupported)).2 = s' := by
  unfold analyze
  simp [map_eq_ok_iff]

theorem map_fst_analyze (a : Analyzer) (s : AnalysisState) (files : List SourceFile)
    (skipped : List SkippedFile) :
    (a.analyze s files skipped).map Prod.fst =
      a.reportOn files skipped (a.analyzeFiles s (files.filter SourceFile.isSupported)).1
        (a.analyzeFiles s (files.filter SourceFile.isSupported)).2 := by
  unfold analyze
  dsimp only
  cases a.reportOn files skipped _ _ <;> rfl

/-- A run reports what it read and the duplicates it found. -/
theorem covers_of_analyze (h : a.analyze s files skipped = .ok (report, s')) :
    ∃ found, Duplicates.detect a.options a.projectId (a.comparedTrees s files) = .ok found ∧
      a.Covers s files report found := by
  obtain ⟨hanalyzed, hpartial⟩ :=
    paths_analyzeFiles a s (files.filter SourceFile.isSupported)
  obtain ⟨hreport, -⟩ := analyze_eq_ok_iff.mp h
  obtain ⟨found, score, hfound, -, rfl⟩ := reportOn_eq_ok_iff.mp hreport
  rw [duplicates_eq_detect] at hfound
  have hsorted := List.mergeSort_perm
    (a.analyzeFiles s (files.filter SourceFile.isSupported)).1 fun x y => x.path ≤ y.path
  refine ⟨found, hfound, ?_, ?_, rfl, allIssues_perm hsorted found⟩
  · rw [← hanalyzed]
    exact (hsorted.filter _).map _
  · rw [← hpartial]
    exact (hsorted.filter _).map _

/-! ## Scores -/

theorem score_perm {issues issues' : List Issue} (h : issues.Perm issues') (count : Nat) :
    a.score issues count = a.score issues' count := by
  unfold score
  rw [Scorer.score?_perm (h.map Issue.severity)]

/-- There is a score for what the detectors and the search for duplicates have found. -/
def HasScore (a : Analyzer) (s : AnalysisState) (files : List SourceFile)
    (found : Duplicates.Result) : Prop :=
  ∃ score, a.score (a.ownIssues s files ++ found.issues)
    (a.readings s (files.filter SourceFile.isSupported)).length = .ok score

/-- Weights that 53 bits can count always leave a score, up to `2 ^ 970` issues. -/
theorem hasScore_of_length_le {found : Duplicates.Result}
    (hweights : ∀ w ∈ a.options.severityWeights, |w.2| ≤ 2 ^ 53)
    (hlength : (a.ownIssues s files ++ found.issues).length ≤ 2 ^ 970) :
    a.HasScore s files found := by
  rw [← List.length_map Issue.severity] at hlength
  obtain ⟨score, hscore⟩ := Scorer.exists_score?_of_length_le hweights hlength
    (a.readings s (files.filter SourceFile.isSupported)).length
  refine ⟨score, ?_⟩
  unfold Analyzer.score
  rw [hscore]

/-- The score is that of what was found, however the outcomes are sorted. -/
theorem score_sorted (a : Analyzer) (s : AnalysisState) (files : List SourceFile)
    (found : Duplicates.Result) {sorted : List FileOutcome}
    (h : sorted.Perm (a.analyzeFiles s (files.filter SourceFile.isSupported)).1) :
    a.score (allIssues sorted found)
        ((sorted.filter FileOutcome.isAnalyzed).map FileOutcome.path).length =
      a.score (a.ownIssues s files ++ found.issues)
        (a.readings s (files.filter SourceFile.isSupported)).length := by
  have hread := congrArg List.length
    (paths_analyzeFiles a s (files.filter SourceFile.isSupported)).1
  have hcount := ((h.filter FileOutcome.isAnalyzed).map FileOutcome.path).length_eq
  rw [hcount, hread, List.length_map]
  exact score_perm (allIssues_perm h found) _

/-- A run fails only in the search for duplicates or for want of a score. -/
theorem exists_analyze_iff (a : Analyzer) (s : AnalysisState) (files : List SourceFile)
    (skipped : List SkippedFile) :
    (∃ report s', a.analyze s files skipped = .ok (report, s')) ↔
      ∃ found, Duplicates.detect a.options a.projectId (a.comparedTrees s files) = .ok found ∧
        a.HasScore s files found := by
  constructor
  · rintro ⟨report, s', h⟩
    obtain ⟨found, score, hfound, hscore, -⟩ :=
      reportOn_eq_ok_iff.mp (analyze_eq_ok_iff.mp h).1
    rw [duplicates_eq_detect] at hfound
    rw [score_sorted a s files found (List.mergeSort_perm _ _)] at hscore
    exact ⟨found, hfound, score, hscore⟩
  · rintro ⟨found, hfound, score, hscore⟩
    rw [← duplicates_eq_detect] at hfound
    rw [← score_sorted a s files found (List.mergeSort_perm _ _)] at hscore
    exact ⟨_, _, analyze_eq_ok_iff.mpr
      ⟨reportOn_eq_ok_iff.mpr ⟨found, score, hfound, hscore, rfl⟩, rfl⟩⟩

/-- Whole bodies, a threshold that rates and weights that 53 bits can count are enough for a report,
up to `2 ^ 970` findings and blocks. -/
theorem exists_analyze {blocks : List CodeBlock}
    (hblocks : extractBlocks a.options (a.comparedTrees s files) = .ok blocks)
    (hrated : ¬ Duplicates.Unrated a.options.structuralThreshold)
    (hweights : ∀ w ∈ a.options.severityWeights, |w.2| ≤ 2 ^ 53)
    (hlength : (a.ownIssues s files).length + blocks.length ≤ 2 ^ 970)
    (skipped : List SkippedFile) :
    ∃ report s', a.analyze s files skipped = .ok (report, s') := by
  obtain ⟨t, hlinked⟩ := Duplicates.exists_linkAll_of_rated blocks hrated
  obtain ⟨found, hfound, -⟩ := Duplicates.exists_detect hblocks hlinked a.projectId
  have hissues := Duplicates.length_issues_le hblocks hfound
  have htotal : (a.ownIssues s files ++ found.issues).length ≤ 2 ^ 970 := by
    rw [List.length_append]
    exact (Nat.add_le_add_left hissues _).trans hlength
  exact (exists_analyze_iff a s files skipped).mpr
    ⟨found, hfound, hasScore_of_length_le hweights htotal⟩

/-- Reads every text as `x=>(y)`, up to a number of nodes. -/
def arrowAnalyzer (budget : Int) : Analyzer where
  projectId := "p"
  options := { anySize with maxAstNodes := budget }
  detectors := defaultDetectors
  grammar := fun _ _ => .ok arrowTree
  stopsAt := fun _ => false

def arrowFile (path : String) : SourceFile := ⟨path, some .javascript, "x=>(y)"⟩

def arrowAst (budget : Int) (path : String) : SourceTree :=
  .ofGrammar budget "x=>(y)" path .javascript arrowTree

def freshState : AnalysisState := ⟨.empty, false⟩

theorem arrowAnalyzer_ordered (budget : Int) : (arrowAnalyzer budget).grammar.Ordered := by
  intro language text tree htree
  obtain rfl := Except.ok.inj htree
  decide

/-- The body of `x=>(y)`. -/
def arrowBlock (index : Nat) (path : String) : CodeBlock :=
  { index, path, functionName := "<anonymous>", className := none, startLine := 1, endLine := 1
    startByte := 3, endByte := 6, lineCount := 1, tokens := ["(", "y", ")"]
    shape := ["parenthesized_expression@0", "(@1", "identifier@1", ")@1"], lexicon := [("y", 1)]
    excerpt := "x=>(y)" }

end CodeHealth.Analyzer
