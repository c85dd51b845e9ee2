import CodeHealth.Project.Schedule

/-!
# Cancelled runs

A run can be cancelled from outside at any moment. The passes that have begun go on to their end,
and no other pass begins.
-/

namespace CodeHealth

def Workload.cancel (w : Workload) : Workload :=
  { w with state := { w.state with isCancelled := true } }

namespace Analyzer

/-- What happens in a run: a pass takes a step, or somebody cancels the run. -/
inductive Event (a : Analyzer) : Workload → Workload → Prop where
  | step {w w' : Workload} (h : a.Step w w') : Event a w w'
  | cancel (w : Workload) : Event a w w.cancel

abbrev Events (a : Analyzer) : Workload → Workload → Prop :=
  Relation.ReflTransGen a.Event

/-- A run over some files that may be cancelled, up to the end of all passes. Their outcomes are
handed on in any order. -/
def Ends (a : Analyzer) (s : AnalysisState) (files : List SourceFile)
    (outcomes : List FileOutcome) (t : AnalysisState) : Prop :=
  ∃ finished, a.Events (.start s files) ⟨[], finished, t⟩ ∧ outcomes.Perm finished

/-- What a run over some files may return if it may be cancelled at any moment. -/
def Reports (a : Analyzer) (s : AnalysisState) (files : List SourceFile)
    (skipped : List SkippedFile) (result : Except AnalysisError AnalysisReport) : Prop :=
  ∃ outcomes t, a.Ends s (files.filter SourceFile.isSupported) outcomes t ∧
    result = a.reportOn files skipped outcomes t

end Analyzer

end CodeHealth
