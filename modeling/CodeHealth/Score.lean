import CodeHealth.Issue.Basic
import CodeHealth.Number.Rounding
import CodeHealth.Options

/-!
# Quality score

One hundred less the weight of the issues per file, never below zero, with one decimal.
-/

namespace CodeHealth

/-- Weights by severity tag. -/
structure Scorer where
  weights : List (String × Int)

/-- The standard weights, each replaced by a given one. -/
def Scorer.ofWeights (given : List (String × Int)) : Scorer :=
  ⟨given.foldl (fun weights w => Datum.setMember weights w.1 w.2) defaultSeverityWeights⟩

def Scorer.weight (scorer : Scorer) (severity : Severity) : Int :=
  ((scorer.weights.find? fun w => w.1 == severity.tag).map Prod.snd).getD 0

/-- The sum of the weights of some severities. -/
def Scorer.weightedSum (scorer : Scorer) (severities : List Severity) : Int :=
  severities.foldr (fun severity weight => scorer.weight severity + weight) 0

/-- The score of a run over some files. There is none if the weight per file is beyond every finite
53-bit number. -/
def Scorer.score? (scorer : Scorer) (severities : List Severity) (files : Int) : Option Rat :=
  (Number.finite? (scorer.weightedSum severities / (max 1 files : Int))).map fun penalty =>
    Number.roundTo 1 (Number.larger 0 (Number.nearest (100 - penalty)))

end CodeHealth
