import CodeHealth.Issue.Kind
import CodeHealth.Schema.Reader

/-!
# Options

The limits, thresholds and budgets that an analysis runs with.
-/

namespace CodeHealth

open Schema

/-- The limits that options and settings share. -/
structure Limits where
  maxMethodLines : Int := 40
  maxClassLines : Int := 300
  maxClassMethods : Int := 20
  maxNestingDepth : Int := 3
  maxParameters : Int := 4
  maxCyclomaticComplexity : Int := 8
  maxCognitiveComplexity : Int := 10
  featureEnvyMinAccesses : Int := 4
  duplicateMinLines : Int := 6
  duplicateMinTokens : Int := 20
  structuralThreshold : Number.Reading := .finite (Number.nearest (9 / 10))
  semanticThreshold : Number.Reading := .finite (3 / 4)
  maxDuplicateComparisons : Int := 250000
  scanTestFiles : Bool := false
  confidenceOverrides : List (String × Int) := []
  maxAstNodes : Int := 500000
  maxDiffUnits : Int := 20000
  fileWorkers : Int := 4
  detectorWorkers : Int := 1
  excludedTypes : List String := ["long_method"]
  deriving DecidableEq, Repr

namespace Limits

/-- Reads the limits of a record; `threshold` reads a similarity threshold, and anything but a list
of excluded types has the given fault. -/
def read (threshold : Reader Number.Reading) (excluded : FaultKind) (d : Datum) : Checked Limits :=
  let absent : Limits := {}
  Limits.mk <$> fieldOr d "max_method_lines" readInt absent.maxMethodLines
    <*> fieldOr d "max_class_lines" readInt absent.maxClassLines
    <*> fieldOr d "max_class_methods" readInt absent.maxClassMethods
    <*> fieldOr d "max_nesting_depth" readInt absent.maxNestingDepth
    <*> fieldOr d "max_parameters" readInt absent.maxParameters
    <*> fieldOr d "max_cyclomatic_complexity" readInt absent.maxCyclomaticComplexity
    <*> fieldOr d "max_cognitive_complexity" readInt absent.maxCognitiveComplexity
    <*> fieldOr d "feature_envy_min_accesses" readInt absent.featureEnvyMinAccesses
    <*> fieldOr d "duplicate_min_lines" readInt absent.duplicateMinLines
    <*> fieldOr d "duplicate_min_tokens" readInt absent.duplicateMinTokens
    <*> fieldOr d "structural_similarity_threshold" threshold absent.structuralThreshold
    <*> fieldOr d "semantic_similarity_threshold" threshold absent.semanticThreshold
    <*> fieldOr d "max_duplicate_comparisons" readInt absent.maxDuplicateComparisons
    <*> fieldOr d "scan_test_files_for_secrets" readBool absent.scanTestFiles
    <*> fieldOr d "security_confidence_overrides" (readMap readInt) absent.confidenceOverrides
    <*> fieldOr d "max_ast_nodes" readInt absent.maxAstNodes
    <*> fieldOr d "max_diff_units" readInt absent.maxDiffUnits
    <*> fieldOr d "file_workers" readInt absent.fileWorkers
    <*> fieldOr d "detector_workers" readInt absent.detectorWorkers
    <*> fieldOr d "refactoring_excluded_types" (readSequence excluded readText)
      absent.excludedTypes

/-- A threshold as a value. Only a finite one has a decimal. -/
def ofThreshold : Number.Reading → Datum
  | .finite q => .float q
  | _ => .null

/-- The members of the record. -/
def members (l : Limits) : List (String × Datum) :=
  [("max_method_lines", .int l.maxMethodLines), ("max_class_lines", .int l.maxClassLines),
    ("max_class_methods", .int l.maxClassMethods), ("max_nesting_depth", .int l.maxNestingDepth),
    ("max_parameters", .int l.maxParameters),
    ("max_cyclomatic_complexity", .int l.maxCyclomaticComplexity),
    ("max_cognitive_complexity", .int l.maxCognitiveComplexity),
    ("feature_envy_min_accesses", .int l.featureEnvyMinAccesses),
    ("duplicate_min_lines", .int l.duplicateMinLines),
    ("duplicate_min_tokens", .int l.duplicateMinTokens),
    ("structural_similarity_threshold", ofThreshold l.structuralThreshold),
    ("semantic_similarity_threshold", ofThreshold l.semanticThreshold),
    ("max_duplicate_comparisons", .int l.maxDuplicateComparisons),
    ("scan_test_files_for_secrets", .bool l.scanTestFiles),
    ("security_confidence_overrides", .ofCounts l.confidenceOverrides),
    ("max_ast_nodes", .int l.maxAstNodes), ("max_diff_units", .int l.maxDiffUnits),
    ("file_workers", .int l.fileWorkers), ("detector_workers", .int l.detectorWorkers),
    ("refactoring_excluded_types", .ofStrings l.excludedTypes)]

end Limits

/-- The weight of each severity where none is given. -/
def defaultSeverityWeights : List (String × Int) :=
  [("critical", 10), ("high", 5), ("medium", 2), ("low", 1)]

/-- What one analysis runs with. -/
structure Options extends Limits where
  severityWeights : List (String × Int) := defaultSeverityWeights
  deriving DecidableEq, Repr

namespace Options

/-- Reads options; whatever is absent has its default. -/
def read : Reader Options := readRecord .modelType fun d =>
  Options.mk <$> Limits.read readDecimal .tupleType d
    <*> fieldOr d "severity_weights" (readMap readInt) defaultSeverityWeights

def toDatum (o : Options) : Datum :=
  .object (o.toLimits.members ++ [("severity_weights", .ofCounts o.severityWeights)])

/-- The confidence of a rule family: the configured one or the given one, within 0 to 100. -/
def confidenceFor (o : Options) (family : String) (standard : Int) : Int :=
  let configured := (o.confidenceOverrides.find? fun c => c.1 == family).map Prod.snd
  max 0 (min 100 (configured.getD standard))

end Options

end CodeHealth
