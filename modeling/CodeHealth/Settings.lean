import CodeHealth.Datum.Reader
import CodeHealth.Options

/-!
# Settings

Settings from environment variables: names in any case under a common start, values as text, and
maps and lists in their text form. Odd settings are warned about.
-/

namespace CodeHealth

open Schema

/-- How much is logged. -/
inductive LogLevel where
  | debug
  | info
  | warning
  | error
  deriving DecidableEq, Repr

namespace LogLevel

def tag : LogLevel → String
  | .debug => "DEBUG"
  | .info => "INFO"
  | .warning => "WARNING"
  | .error => "ERROR"

def all : List LogLevel :=
  [.debug, .info, .warning, .error]

def ofTag? (tag : String) : Option LogLevel :=
  all.find? fun l => l.tag == tag

end LogLevel

structure Settings extends Limits where
  logLevel : LogLevel := .info
  weightCritical : Int := 10
  weightHigh : Int := 5
  weightMedium : Int := 2
  weightLow : Int := 1
  deriving DecidableEq, Repr

/-- Why there are no settings. -/
inductive SettingsError where
  | unreadable (field : String)
  | faulty (faults : List Fault)

namespace Settings

/-- The message of a value that is not in its text form. -/
def unreadableMessage (field : String) : String :=
  "error parsing value for field \"" ++ field ++ "\" from source \"EnvSettingsSource\""

/-- The fields whose values are plain texts. -/
def plainFields : List String :=
  ["log_level", "max_method_lines", "max_class_lines", "max_class_methods", "max_nesting_depth",
    "max_parameters", "max_cyclomatic_complexity", "max_cognitive_complexity",
    "feature_envy_min_accesses", "duplicate_min_lines", "duplicate_min_tokens",
    "structural_similarity_threshold", "semantic_similarity_threshold",
    "max_duplicate_comparisons", "scan_test_files_for_secrets", "max_ast_nodes",
    "max_diff_units", "file_workers", "detector_workers", "severity_weight_critical",
    "severity_weight_high", "severity_weight_medium", "severity_weight_low"]

/-- The fields whose values are in the text form of a map or a list. -/
def structuredFields : List String :=
  ["security_confidence_overrides", "refactoring_excluded_types"]

/-- The value of a field's variable. Of several names that differ in case only the last counts. -/
def valueOf? (env : List (String × String)) (field : String) : Option String :=
  (env.reverse.find? fun v => Text.lower v.1 == "codestruct_" ++ field).map Prod.snd

/-- The values of the structured fields that are set. -/
def structuredMembers (env : List (String × String)) :
    List String → Except SettingsError (List (String × Datum))
  | [] => .ok []
  | field :: fields =>
    match valueOf? env field with
    | none => structuredMembers env fields
    | some text =>
      match Datum.read? text with
      | none => .error (.unreadable field)
      | some d => (structuredMembers env fields).map ((field, d) :: ·)

/-- Reads settings from their values. -/
def read (d : Datum) : Checked Settings :=
  let absent : Settings := {}
  Settings.mk <$> Limits.read readShare .listType d
    <*> fieldOr d "log_level" (readTag LogLevel.ofTag? .literal) absent.logLevel
    <*> fieldOr d "severity_weight_critical" readInt absent.weightCritical
    <*> fieldOr d "severity_weight_high" readInt absent.weightHigh
    <*> fieldOr d "severity_weight_medium" readInt absent.weightMedium
    <*> fieldOr d "severity_weight_low" readInt absent.weightLow

/-- The settings of some environment variables. -/
def ofEnvironment (env : List (String × String)) : Except SettingsError Settings := do
  let plain := plainFields.filterMap fun field =>
    (valueOf? env field).map fun text => (field, Datum.str text)
  let structured ← structuredMembers env structuredFields
  match read (.object (plain ++ structured)) with
  | .valid settings => .ok settings
  | .faulty faults => .error (.faulty faults)

/-- The warnings about settings that make an analysis behave oddly. -/
def warnings (s : Settings) : List String :=
  let found :=
    (if s.structuralThreshold.lt s.semanticThreshold then
      ["CODESTRUCT_SEMANTIC_SIMILARITY_THRESHOLD is above the structural threshold; " ++
        "the semantic pass will rarely add new duplicate groups."]
    else []) ++
    (if s.fileWorkers < 1 then
      ["CODESTRUCT_FILE_WORKERS < 1, falling back to a single worker."]
    else []) ++
    (if s.maxAstNodes < 1000 then
      ["CODESTRUCT_MAX_AST_NODES is very low; most files will parse as truncated."]
    else [])
  found.map ("CONFIG WARNING: " ++ ·)

def toDatum (s : Settings) : Datum :=
  .object (s.toLimits.members ++
    [("log_level", .str s.logLevel.tag), ("severity_weight_critical", .int s.weightCritical),
      ("severity_weight_high", .int s.weightHigh),
      ("severity_weight_medium", .int s.weightMedium),
      ("severity_weight_low", .int s.weightLow)])

end Settings

/-- The options that settings stand for; there is at least one worker of each kind. -/
def Options.ofSettings (s : Settings) : Options :=
  { s.toLimits with
    fileWorkers := max 1 s.fileWorkers
    detectorWorkers := max 1 s.detectorWorkers
    severityWeights :=
      [("critical", s.weightCritical), ("high", s.weightHigh), ("medium", s.weightMedium),
        ("low", s.weightLow)] }

/-- The capital letter that a small letter of a level name stands for. -/
private def levelCapital (c : Char) : Char :=
  if c == 'ı' then 'I' else if c == 'ſ' then 'S' else c.toUpper

/-- The number of a named log level. Where no name is given the level of the settings counts, and
an unknown name stands for 20. -/
def logLevelNumber (name : Option String) (standard : LogLevel) : Nat :=
  let wanted := (name.filter (· != "")).getD standard.tag
  match String.ofList (wanted.toList.map levelCapital) with
  | "CRITICAL" | "FATAL" => 50
  | "ERROR" => 40
  | "WARNING" | "WARN" => 30
  | "INFO" => 20
  | "DEBUG" => 10
  | "NOTSET" => 0
  | _ => 20

end CodeHealth
