import CodeHealth.Code.Function
import CodeHealth.Issue.Build
import CodeHealth.Text.Printable

/-!
# Detectors

A detector finds issues in one source tree, or fails. Some measure one number per function and
report those above a threshold.
-/

namespace CodeHealth

/-- Why a detector failed. An integer beyond every finite 53-bit number can neither be converted nor
fill a field of the measures. -/
inductive DetectorError where
  | divisionByZero
  | notANumber
  | overflow
  | invalidMetric (field : String) (value : Int)
  | scripted (message : String)

/-- A long text with its middle left out. -/
private def shortened (s : String) : String :=
  let cs := s.toList
  if 50 < cs.length then String.ofList (cs.take 25 ++ "...".toList ++ cs.drop (cs.length - 24)) else s

/-- What went wrong. A link to the manual at the end of a fault in a field is left out. -/
def DetectorError.message : DetectorError → String
  | .divisionByZero => "division by zero"
  | .notANumber => "cannot convert float NaN to integer"
  | .overflow => "int too large to convert to float"
  | .invalidMetric field value =>
    s!"1 validation error for ComplexityMetrics\n{field}\n  Input should be a valid number " ++
      s!"[type=float_type, input_value={shortened (toString value)}, input_type=int]"
  | .scripted message => message

private def hexCode (code width : Nat) : List Char :=
  let digits := Nat.toDigits 16 code
  List.replicate (width - digits.length) '0' ++ digits

/-- A character inside the given quotes. -/
def escapeIn (mark c : Char) : List Char :=
  if c == mark || c == '\\' then ['\\', c]
  else if c == '\n' then ['\\', 'n']
  else if c == '\r' then ['\\', 'r']
  else if c == '\t' then ['\\', 't']
  else if Text.isPrintable c then [c]
  else if c.toNat < 0x100 then '\\' :: 'x' :: hexCode c.toNat 2
  else if c.toNat < 0x10000 then '\\' :: 'u' :: hexCode c.toNat 4
  else '\\' :: 'U' :: hexCode c.toNat 8

/-- A text in quotes on one line: in double quotes if it holds single quotes only, otherwise in
single ones. -/
def quoted (s : String) : String :=
  let cs := s.toList
  let mark := if cs.contains '\'' && !cs.contains '"' then '"' else '\''
  String.ofList (mark :: cs.flatMap (escapeIn mark) ++ [mark])

/-- An error as it is shown in a report: its class and its message, or a fault in a field as it
is. -/
def DetectorError.shown (e : DetectorError) : String :=
  let withClass (kind : String) := kind ++ "(" ++ quoted e.message ++ ")"
  match e with
  | .divisionByZero => withClass "ZeroDivisionError"
  | .notANumber => withClass "ValueError"
  | .overflow => withClass "OverflowError"
  | .invalidMetric _ _ => e.message
  | .scripted _ => withClass "RuntimeError"

/-- An integer as a 53-bit number. -/
def toDecimal (n : Int) : Except DetectorError Rat :=
  match Number.finite? n with
  | some q => .ok q
  | none => .error .overflow

/-- The measures of a finding: a count that is compared with a threshold, and further numbers. -/
def Metadata.measured (metric : String) (value threshold : Int)
    (extra : List (String × Rat)) : Except DetectorError Metadata :=
  match Number.finite? threshold with
  | some limit => .ok (.complexity metric (Number.nearest value) limit extra)
  | none => .error (.invalidMetric "threshold" threshold)

/-- The issues of what is found in some places. A failure in one of them is one of all. -/
def issuesAt {α : Type} (ast : SourceTree) (find : α → Except DetectorError Finding)
    (places : List α) : Except DetectorError (List Issue) :=
  places.mapM fun place => (find place).map (Finding.issue · ast)

structure Detector where
  name : String
  issueTypes : List IssueType
  languages : List Language
  /-- The number per function that is compared with a threshold, if that is how it works. -/
  measure? : Option (FunctionDef → Nat)
  detect : SourceTree → FileContext → Except DetectorError (List Issue)

/-- The languages of code. -/
def codeLanguages : List Language :=
  [.python, .javascript, .typescript, .tsx]

/-- Whether a detector understands a language. -/
def Detector.appliesTo (d : Detector) (language : Language) : Bool :=
  d.languages.contains language

end CodeHealth
