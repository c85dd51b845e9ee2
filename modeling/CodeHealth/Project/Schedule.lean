import CodeHealth.Project.Analysis
import Mathlib.Logic.Relation

/-!
# Passes side by side

Several workers take up the files of a run. The pass over a file takes its stored tree, or reads and
stores one, and runs the detectors over it. Between the steps of one pass those of others may
happen, so all interleavings are considered. Different files have different keys in the store, so no
pass waits for another.
-/

namespace CodeHealth

/-- What comes of a file that has no tree. -/
def FileOutcome.ofError (path : String) : ParseError → FileOutcome
  | .unsupported _ _ => .unsupported path
  | e => .failed path e.message

/-- How far the pass over a file has come. -/
inductive Pass where
  | waiting (f : SourceFile)
  | looking (f : SourceFile)
  | storing (f : SourceFile) (tree : SourceTree)
  | inspecting (f : SourceFile) (tree : SourceTree)

def Pass.file : Pass → SourceFile
  | .waiting f => f
  | .looking f => f
  | .storing f _ => f
  | .inspecting f _ => f

/-- What comes of a step of a pass. -/
inductive Advance where
  | next (p : Pass)
  | done (outcome : FileOutcome)

/-- The passes of a run that are not over, and the outcomes of those that are in the order in which
they came. -/
structure Workload where
  passes : List Pass
  outcomes : List FileOutcome
  state : AnalysisState

def Workload.start (s : AnalysisState) (files : List SourceFile) : Workload :=
  ⟨files.map .waiting, [], s⟩

namespace Analyzer

def current? (a : Analyzer) (store : TreeStore) (f : SourceFile) : Option StoreEntry :=
  (store.entry? a.projectId f.path).filter fun e => TreeStore.StoreEntry.isCurrent e f

/-- One step of a pass. A pass that has begun is not stopped by a cancellation. -/
def advance (a : Analyzer) (s : AnalysisState) : Pass → Advance × AnalysisState
  | .waiting f =>
    if s.isCancelled then (.done (.cancelled f.path), s) else (.next (.looking f), s)
  | .looking f =>
    match a.current? s.store f with
    | some e =>
      (.next (.inspecting f e.tree), { s with store := { s.store with hits := s.store.hits + 1 } })
    | none =>
      match parseAs a.grammar a.options.maxAstNodes f.text f.language f.path with
      | .error e => (.done (.ofError f.path e), s)
      | .ok tree => (.next (.storing f tree), s)
  | .storing f tree =>
    let stored := s.store.insert
      ⟨a.projectId, f.path, tree, Digest.sha256Hex f.text, tree.language⟩
    (.next (.inspecting f tree), { s with store := { stored with misses := s.store.misses + 1 } })
  | .inspecting f tree =>
    let result := runDetectors a.detectors tree ⟨a.projectId, f.path, tree.language, a.options⟩
    (.done (.analyzed f.path tree.hasErrors result.issues result.failures),
      { s with isCancelled := s.isCancelled || a.stopsAt f.path })

/-- Any one of the passes takes a step. -/
inductive Step (a : Analyzer) : Workload → Workload → Prop where
  | next {passes rest : List Pass} {p q : Pass} {outcomes : List FileOutcome}
      {s t : AnalysisState} (hp : passes.Perm (p :: rest)) (h : a.advance s p = (.next q, t)) :
      Step a ⟨passes, outcomes, s⟩ ⟨q :: rest, outcomes, t⟩
  | done {passes rest : List Pass} {p : Pass} {outcome : FileOutcome}
      {outcomes : List FileOutcome} {s t : AnalysisState} (hp : passes.Perm (p :: rest))
      (h : a.advance s p = (.done outcome, t)) :
      Step a ⟨passes, outcomes, s⟩ ⟨rest, outcomes ++ [outcome], t⟩

abbrev Steps (a : Analyzer) : Workload → Workload → Prop :=
  Relation.ReflTransGen a.Step

/-- A run over some files up to the end of all passes. Their outcomes are handed on in any order. -/
def Completes (a : Analyzer) (s : AnalysisState) (files : List SourceFile)
    (outcomes : List FileOutcome) (t : AnalysisState) : Prop :=
  ∃ finished, a.Steps (.start s files) ⟨[], finished, t⟩ ∧ outcomes.Perm finished

/-- What a run over some files may return. -/
def Returns (a : Analyzer) (s : AnalysisState) (files : List SourceFile)
    (skipped : List SkippedFile) (result : Except AnalysisError AnalysisReport) : Prop :=
  ∃ outcomes t, a.Completes s (files.filter SourceFile.isSupported) outcomes t ∧
    result = a.reportOn files skipped outcomes t

end Analyzer

end CodeHealth
