import CodeHealth.Detector.Complexity
import CodeHealth.Detector.DeadCode
import CodeHealth.Detector.FeatureEnvy
import CodeHealth.Detector.GodClass
import CodeHealth.Detector.MagicNumber
import CodeHealth.Issue.Merge
import CodeHealth.Security.Scanner

/-!
# Running detectors

Every detector that understands a file is run on its tree. One that fails is recorded and does not
keep the others from being heard.
-/

namespace CodeHealth

/-- The detectors that look at the structure of code. -/
def structuralDetectors : List Detector :=
  [FunctionMetric.longMethod.detector, GodClass.detector, FunctionMetric.deepNesting.detector,
    FunctionMetric.longParameterList.detector, FunctionMetric.highComplexity.detector,
    FunctionMetric.cognitiveComplexity.detector, MagicNumber.detector, DeadCode.detector,
    FeatureEnvy.detector]

/-- The structural detectors and the security scan. -/
def defaultDetectors : List Detector :=
  structuralDetectors ++ [({} : Security.Scanner).detector]

/-- A detector that failed on a file. -/
structure DetectorFailure where
  detector : String
  path : String
  error : DetectorError

def DetectorFailure.message (f : DetectorFailure) : String :=
  s!"Detector '{f.detector}' failed on '{f.path}': {f.error.shown}"

/-- What the detectors found in one file. -/
structure DetectionResult where
  path : String
  issues : List Issue
  failures : List DetectorFailure

/-- What the detectors that understand a tree answer, in their order. -/
def outcomes (detectors : List Detector) (ast : SourceTree) (context : FileContext) :
    List (Detector × Except DetectorError (List Issue)) :=
  (detectors.filter fun d => d.appliesTo ast.language).map fun d => (d, d.detect ast context)

/-- Runs the detectors on a tree and merges what they find. -/
def runDetectors (detectors : List Detector) (ast : SourceTree) (context : FileContext) :
    DetectionResult :=
  let answers := outcomes detectors ast context
  { path := context.path
    issues := mergeIssues context.projectId (answers.filterMap fun a => a.2.toOption)
    failures := answers.filterMap fun a =>
      match a.2 with
      | .ok _ => none
      | .error e => some ⟨a.1.name, context.path, e⟩ }

end CodeHealth
