import CodeHealth.Detector.Battery
import CodeHealth.Duplicate.Report
import CodeHealth.Project.Store
import CodeHealth.Score

/-!
# Analysis of a project

Each file is read and handed to the detectors. When all files are done the duplicates among them are
found and everything is put into one report. After a cancellation no further file is started.
-/

namespace CodeHealth

/-- What came of one file. -/
inductive FileOutcome where
  | analyzed (path : String) (isPartial : Bool) (issues : List Issue)
      (failures : List DetectorFailure)
  | unsupported (path : String)
  | cancelled (path : String)
  | failed (path : String) (reason : String)

namespace FileOutcome

def path : FileOutcome → String
  | .analyzed path .. => path
  | .unsupported path => path
  | .cancelled path => path
  | .failed path _ => path

def issues : FileOutcome → List Issue
  | .analyzed _ _ issues _ => issues
  | _ => []

def failures : FileOutcome → List DetectorFailure
  | .analyzed _ _ _ failures => failures
  | _ => []

def isAnalyzed : FileOutcome → Bool
  | .analyzed .. => true
  | _ => false

def isPartial : FileOutcome → Bool
  | .analyzed _ part _ _ => part
  | _ => false

/-- The record of a file that was not analysed. -/
def skipped? : FileOutcome → Option SkippedFile
  | .analyzed .. => none
  | .unsupported path => some ⟨path, "unsupported language"⟩
  | .cancelled path => some ⟨path, "cancelled before start"⟩
  | .failed path reason => some ⟨path, s!"parse failure: {reason}"⟩

end FileOutcome

/-- What one run found. -/
structure AnalysisReport where
  projectId : String
  issues : List Issue
  duplicateGroups : List DuplicateGroup
  analyzedFiles : List String
  partialFiles : List String
  skippedFiles : List SkippedFile
  detectorFailures : List DetectorFailure
  isCancelled : Bool
  qualityScore : Rat

/-- Why there is no report. -/
inductive AnalysisError where
  | duplicates (e : DuplicateError)
  | scoreOverflow
  deriving DecidableEq

/-- The class of the error and its message. -/
def AnalysisError.shown : AnalysisError → String × String
  | .duplicates e => e.shown
  | .scoreOverflow => ("OverflowError", "integer division result too large for a float")

/-- What the runs over a project share: what they run with, and for which files a detector asks to
stop. -/
structure Analyzer where
  projectId : String
  options : Options
  detectors : List Detector
  grammar : Grammar
  stopsAt : String → Bool

/-- What a run leaves to the next: the stored trees, and whether it was cancelled. -/
structure AnalysisState where
  store : TreeStore
  isCancelled : Bool

namespace Analyzer

/-- Reads one file and runs the detectors over it. -/
def analyzeFile (a : Analyzer) (s : AnalysisState) (f : SourceFile) :
    FileOutcome × AnalysisState :=
  if s.isCancelled then (.cancelled f.path, s)
  else
    match s.store.getOrParse a.grammar a.options.maxAstNodes a.projectId f with
    | .error (.unsupported _ _) => (.unsupported f.path, s)
    | .error e => (.failed f.path e.message, s)
    | .ok (found, store) =>
      let context : FileContext := ⟨a.projectId, f.path, found.tree.language, a.options⟩
      let result := runDetectors a.detectors found.tree context
      (.analyzed f.path found.tree.hasErrors result.issues result.failures,
        ⟨store, a.stopsAt f.path⟩)

/-- Works through some files in their order. -/
def analyzeFiles (a : Analyzer) : AnalysisState → List SourceFile →
    List FileOutcome × AnalysisState
  | s, [] => ([], s)
  | s, f :: fs =>
    let (outcome, s) := a.analyzeFile s f
    let (outcomes, s) := a.analyzeFiles s fs
    (outcome :: outcomes, s)

/-- The duplicates among the analysed files; after a cancellation none are looked for. -/
def duplicates (a : Analyzer) (s : AnalysisState) (paths : List String) :
    Except DuplicateError Duplicates.Result :=
  if s.isCancelled then .ok ⟨[], [], 0, false⟩
  else Duplicates.detect a.options a.projectId (paths.filterMap (s.store.get? a.projectId))

/-- The quality score of some issues found in some files. -/
def score (a : Analyzer) (issues : List Issue) (files : Nat) : Except AnalysisError Rat :=
  match (Scorer.ofWeights a.options.severityWeights).score? (issues.map Issue.severity) files with
  | some score => .ok score
  | none => .error .scoreOverflow

/-- The findings in some files and the duplicates among them, sorted. -/
def allIssues (outcomes : List FileOutcome) (found : Duplicates.Result) : List Issue :=
  (outcomes.flatMap FileOutcome.issues ++ found.issues).mergeSort Issue.comesBefore

/-- The report on some outcomes with the duplicates among the files and a score. -/
def assemble (a : Analyzer) (files : List SourceFile) (skipped : List SkippedFile)
    (outcomes : List FileOutcome) (isCancelled : Bool) (found : Duplicates.Result) (score : Rat) :
    AnalysisReport :=
  let unsupported := (files.filter fun f => !f.isSupported).map fun f =>
    SkippedFile.mk f.path "unsupported language"
  { projectId := a.projectId
    issues := allIssues outcomes found
    duplicateGroups := found.groups
    analyzedFiles := (outcomes.filter FileOutcome.isAnalyzed).map FileOutcome.path
    partialFiles := (outcomes.filter FileOutcome.isPartial).map FileOutcome.path
    skippedFiles := skipped ++ unsupported ++ outcomes.filterMap FileOutcome.skipped?
    detectorFailures := outcomes.flatMap FileOutcome.failures
    isCancelled := isCancelled
    qualityScore := score }

/-- The report on some files once the passes over the supported ones are over. -/
def reportOn (a : Analyzer) (files : List SourceFile) (skipped : List SkippedFile)
    (outcomes : List FileOutcome) (s : AnalysisState) : Except AnalysisError AnalysisReport := do
  let outcomes := outcomes.mergeSort fun x y => x.path ≤ y.path
  let analyzed := (outcomes.filter FileOutcome.isAnalyzed).map FileOutcome.path
  let found ← (a.duplicates s analyzed).mapError .duplicates
  let score ← a.score (allIssues outcomes found) analyzed.length
  return a.assemble files skipped outcomes s.isCancelled found score

/-- Analyses some files, besides those that were skipped before. -/
def analyze (a : Analyzer) (s : AnalysisState) (files : List SourceFile)
    (skipped : List SkippedFile) : Except AnalysisError (AnalysisReport × AnalysisState) :=
  let (outcomes, s) := a.analyzeFiles s (files.filter SourceFile.isSupported)
  (a.reportOn files skipped outcomes s).map fun report => (report, s)

/-- Analyses the files of a checkout. -/
def analyzeCheckout (a : Analyzer) (s : AnalysisState) (raw : List Checkout.RawFile) :
    Except AnalysisError (AnalysisReport × AnalysisState) :=
  let collected := Checkout.collect raw
  a.analyze s collected.files collected.skipped

end Analyzer

end CodeHealth
