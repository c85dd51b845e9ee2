/-!
# Kinds and severities of issues

The closed set of findings, how severe a finding is, and how strongly two blocks match.
-/

namespace CodeHealth

/-- What a finding is about. -/
inductive IssueType where
  | longMethod
  | godClass
  | deepNesting
  | longParameterList
  | highComplexity
  | cognitiveComplexity
  | duplicateCode
  | magicNumber
  | deadCode
  | featureEnvy
  | hardcodedCredentials
  | hardcodedSecrets
  | sensitiveFile
  | unsafeLogging
  | weakEncryption
  | hardcodedValues
  deriving DecidableEq, Repr

namespace IssueType

def tag : IssueType → String
  | .longMethod => "long_method"
  | .godClass => "god_class"
  | .deepNesting => "deep_nesting"
  | .longParameterList => "long_parameter_list"
  | .highComplexity => "high_complexity"
  | .cognitiveComplexity => "cognitive_complexity"
  | .duplicateCode => "duplicate_code"
  | .magicNumber => "magic_number"
  | .deadCode => "dead_code"
  | .featureEnvy => "feature_envy"
  | .hardcodedCredentials => "hardcoded_credentials"
  | .hardcodedSecrets => "hardcoded_secrets"
  | .sensitiveFile => "sensitive_file"
  | .unsafeLogging => "unsafe_logging"
  | .weakEncryption => "weak_encryption"
  | .hardcodedValues => "hardcoded_values"

def all : List IssueType :=
  [.longMethod, .godClass, .deepNesting, .longParameterList, .highComplexity,
    .cognitiveComplexity, .duplicateCode, .magicNumber, .deadCode, .featureEnvy,
    .hardcodedCredentials, .hardcodedSecrets, .sensitiveFile, .unsafeLogging, .weakEncryption,
    .hardcodedValues]

def ofTag? (tag : String) : Option IssueType :=
  all.find? fun t => t.tag == tag

/-- A finding of the security scan. -/
def isSecurity : IssueType → Bool
  | .hardcodedCredentials | .hardcodedSecrets | .sensitiveFile | .unsafeLogging
  | .weakEncryption | .hardcodedValues => true
  | _ => false

/-- What to do about a finding. -/
def recommendation : IssueType → String
  | .longMethod => "Extract cohesive blocks into well-named helper functions."
  | .godClass => "Split the class along its responsibilities into smaller collaborators."
  | .deepNesting =>
    "Use guard clauses or extract nested blocks to flatten the control flow."
  | .longParameterList => "Group related parameters into a parameter object or dataclass."
  | .highComplexity => "Break the function into smaller functions with fewer branches."
  | .cognitiveComplexity =>
    "Simplify nested conditionals and boolean logic so the flow reads top to bottom."
  | .duplicateCode =>
    "Extract the shared logic into one function and call it from each location."
  | .magicNumber => "Replace the literal with a named constant."
  | .deadCode => "Remove code that can never run or whose result is never used."
  | .featureEnvy => "Move the behaviour to the class whose data it uses."
  | .hardcodedCredentials =>
    "Load credentials from environment variables or a secret manager."
  | .hardcodedSecrets => "Revoke the secret and load it from a secret manager."
  | .sensitiveFile => "Remove the file from version control and add it to .gitignore."
  | .unsafeLogging =>
    "Do not log credentials; log a masked value or an identifier instead."
  | .weakEncryption => "Use a modern algorithm (SHA-256 or better, AES-GCM, secrets module)."
  | .hardcodedValues => "Move environment-specific values to configuration."

end IssueType

/-- How severe a finding is. -/
inductive Severity where
  | critical
  | high
  | medium
  | low
  deriving DecidableEq, Repr

namespace Severity

def tag : Severity → String
  | .critical => "critical"
  | .high => "high"
  | .medium => "medium"
  | .low => "low"

/-- From the most to the least severe. -/
def all : List Severity :=
  [.critical, .high, .medium, .low]

def ofTag? (tag : String) : Option Severity :=
  all.find? fun s => s.tag == tag

def rank : Severity → Nat
  | .low => 1
  | .medium => 2
  | .high => 3
  | .critical => 4

end Severity

/-- How two blocks of code match. -/
inductive MatchType where
  | exact
  | structural
  | semantic
  deriving DecidableEq, Repr

namespace MatchType

def tag : MatchType → String
  | .exact => "exact"
  | .structural => "structural"
  | .semantic => "semantic"

def all : List MatchType :=
  [.exact, .structural, .semantic]

def ofTag? (tag : String) : Option MatchType :=
  all.find? fun m => m.tag == tag

def rank : MatchType → Nat
  | .semantic => 1
  | .structural => 2
  | .exact => 3

end MatchType

end CodeHealth
