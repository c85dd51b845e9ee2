import CodeHealth.Code.Metric
import CodeHealth.Detector.Battery
import CodeHealth.Refactor.Record
import CodeHealth.Refactor.Signature
import CodeHealth.Text.Order

/-!
# Risk checks

Each check compares the old code with a candidate for new code in one respect and gives one
verdict.
-/

namespace CodeHealth

/-- What the checks compare. -/
structure RiskInput where
  request : VerificationRequest
  options : Options
  old : SourceTree
  new : SourceTree
  changes : List LineChange

/-- What a check has to say. -/
structure Verdict where
  status : LayerStatus
  detail : String
  deriving DecidableEq, Repr

/-- A named check. It gives a verdict or fails with a message. -/
structure RiskCheck where
  name : String
  run : RiskInput → Except String Verdict

/-- The layer of a check. One that fails counts against the candidate. -/
def RiskCheck.layer (check : RiskCheck) (input : RiskInput) : ValidationLayer :=
  match check.run input with
  | .ok verdict => ⟨check.name, verdict.status, verdict.detail⟩
  | .error message => ⟨check.name, .fail, s!"check crashed: {message}"⟩

/-- What the detectors are told; secrets are looked for in every file. -/
def RiskInput.fileContext (input : RiskInput) : FileContext :=
  { projectId := "verification"
    path := input.request.filePath
    language := .ofTag input.request.language
    options := { input.options with scanTestFiles := true } }

namespace RiskCheck

def parametersOf (signatures : List Signature) (name : String) : Option (List String) :=
  (signatures.find? fun s => s.name == name).map Signature.parameters

/-- A signature that changed, before and after. -/
private def describeChange (before after : List Signature) (name : String) : String :=
  let shown (signatures : List Signature) :=
    String.intercalate ", " ((parametersOf signatures name).getD [])
  s!"{name}({shown before}) -> ({shown after})"

/-- Compares the signatures of two texts. -/
def compareSignatures (before after : List Signature) : Verdict :=
  let names := before.map Signature.name
  let kept := fun name => (parametersOf after name).isSome
  let removed := Text.sorted (names.filter fun name => !kept name)
  let changed := Text.sorted (names.filter fun name =>
    kept name && parametersOf before name != parametersOf after name)
  if removed.isEmpty && changed.isEmpty then
    ⟨.pass, s!"{before.length} public signatures preserved"⟩
  else
    ⟨.fail, String.intercalate "; "
      (removed.map (s!"removed {·}") ++ changed.map (describeChange before after))⟩

/-- No public signature is lost or changed. -/
def signatures : RiskCheck :=
  { name := "signatures"
    run := fun input =>
      .ok (compareSignatures input.old.publicSignatures input.new.publicSignatures) }

/-- What identifies a finding independent of its line: its type, its rule and the value found. -/
structure Fingerprint where
  type : String
  rule : String
  value : String
  deriving DecidableEq, Repr

/-- The order of fingerprints, the first difference first. -/
def Fingerprint.le (a b : Fingerprint) : Bool :=
  if a.type != b.type then a.type < b.type
  else if a.rule != b.rule then a.rule < b.rule
  else a.value ≤ b.value

/-- A fingerprint with the line of its finding. -/
structure Trace where
  print : Fingerprint
  line : Nat

/-- The trace of a secret, told by its masked value or else by its line's text. -/
def secretTrace? (issue : Issue) : Option Trace :=
  match issue.metadata with
  | .security rule masked _ =>
    if issue.type == .hardcodedCredentials || issue.type == .hardcodedSecrets then
      let value :=
        match masked with
        | some m => if m == "" then Text.strip issue.codeExcerpt else m
        | none => Text.strip issue.codeExcerpt
      some ⟨⟨issue.type.tag, rule, value⟩, issue.lineStart⟩
    else none
  | _ => none

/-- The trace of a logging call. -/
def loggingTrace? (issue : Issue) : Option Trace :=
  match issue.metadata with
  | .security rule _ derived =>
    if issue.type == .unsafeLogging then
      some ⟨⟨issue.type.tag, rule, if derived then "derived" else "by name"⟩, issue.lineStart⟩
    else none
  | _ => none

/-- The traces of the secrets and of the logging calls in a text. -/
structure Exposure where
  secrets : List Trace
  logging : List Trace

def exposure (scanner : Security.Scanner) (ast : SourceTree) (context : FileContext) : Exposure :=
  let issues := scanner.scanLines ast context ++ scanner.checkLoggingCalls ast context
  ⟨issues.filterMap secretTrace?, issues.filterMap loggingTrace?⟩

/-- The fingerprints that occur more often in the second list than in the first. -/
def introduced (old new : List Trace) : List Fingerprint :=
  ((Tally.ofList (new.map Trace.print)).diff (Tally.ofList (old.map Trace.print))).map Prod.fst
    |>.mergeSort Fingerprint.le

/-- The line where a fingerprint is first found. -/
def firstLine (traces : List Trace) (print : Fingerprint) : Nat :=
  ((traces.find? fun t => t.print == print).map Trace.line).getD 0

/-- Compares the secrets and the logging calls of two texts. -/
def compareExposure (old new : Exposure) : Verdict :=
  let secrets := introduced old.secrets new.secrets
  let leaks := introduced old.logging new.logging
  if !secrets.isEmpty then
    ⟨.fail, "new hardcoded secret introduced: " ++ String.intercalate ", "
      (secrets.map fun p => s!"{p.rule} on line {firstLine new.secrets p}")⟩
  else if !leaks.isEmpty then
    ⟨.warning, "new logging of sensitive values on line(s) " ++ String.intercalate ", "
      (leaks.map fun p => toString (firstLine new.logging p))⟩
  else ⟨.pass, "no new secrets or sensitive logging"⟩

/-- No secret comes in, and no logging of one. -/
def security : RiskCheck :=
  { name := "security"
    run := fun input =>
      let context := input.fileContext
      .ok (compareExposure (exposure {} input.old context)
        (exposure {} input.new context)) }

/-- The code does not branch more than before. -/
def complexity : RiskCheck :=
  { name := "complexity"
    run := fun input =>
      let before := input.old.root.allDecisionPoints + 1
      let after := input.new.root.allDecisionPoints + 1
      .ok (if before < after then
        ⟨.warning, s!"cyclomatic complexity rose from {before} to {after}"⟩
      else ⟨.pass, s!"cyclomatic complexity {before} -> {after}"⟩) }

/-- Errors are handled and guarded against as before. -/
def errorHandling : RiskCheck :=
  { name := "error_handling"
    run := fun input =>
      let count (ast : SourceTree) (kinds : List String) := ast.root.countKinds kinds
      let handlersBefore := count input.old errorHandlerKinds
      let handlersAfter := count input.new errorHandlerKinds
      let guardsBefore := count input.old guardKinds
      let guardsAfter := count input.new guardKinds
      .ok (if handlersAfter < handlersBefore then
        ⟨.fail, s!"error handlers dropped from {handlersBefore} to {handlersAfter}"⟩
      else if guardsAfter < guardsBefore then
        ⟨.warning, s!"raise/throw/assert guards dropped from {guardsBefore} to {guardsAfter}"⟩
      else ⟨.pass, s!"{handlersAfter} error handlers and {guardsAfter} guards kept"⟩) }

/-- Code outside the text is still called. -/
def calls : RiskCheck :=
  { name := "calls"
    run := fun input =>
      let before := input.old.externalCalls
      let after := input.new.externalCalls ++ input.new.definedNames
      let dropped := Text.sorted (before.filter fun name => !after.contains name)
      .ok (if dropped.isEmpty then ⟨.pass, s!"{before.length} external calls kept"⟩
      else
        ⟨.warning, "external calls no longer made: " ++ String.intercalate ", " dropped⟩) }

/-- What the first detector for a type of issue measures in a tree: the largest value of a function
if it compares one, and otherwise the number of its issues. -/
def measureType (detectors : List Detector) (type : IssueType) (ast : SourceTree)
    (context : FileContext) : Except DetectorError (Option Nat) :=
  match detectors.find? fun d => d.issueTypes.contains type && d.appliesTo ast.language with
  | none => .ok none
  | some d =>
    match d.measure? with
    | some measure => .ok (some ((ast.functions.map measure).foldl max 0))
    | none =>
      (d.detect ast context).map fun issues => some (issues.countP fun i => i.type == type)

/-- Compares what is measured before and after. -/
def compareMeasures (type : IssueType) (before after : Option Nat) : Verdict :=
  match before, after with
  | some b, some a =>
    if a < b then ⟨.pass, s!"{type.tag} reduced from {b} to {a}"⟩
    else ⟨.warning, s!"{type.tag} not reduced ({b} -> {a})"⟩
  | _, _ => ⟨.pass, s!"no check for {type.tag}"⟩

/-- The verdict on extracted code. -/
def compareFunctions (before after : Nat) : Verdict :=
  if before < after then
    ⟨.pass, s!"shared code extracted into {after - before} new function(s)"⟩
  else ⟨.warning, "no shared function extracted"⟩

/-- The issue that the candidate is for has become less. -/
def issueTarget : RiskCheck :=
  { name := "issue_target"
    run := fun input =>
      match input.request.issueType with
      | none => .ok ⟨.pass, "no target issue"⟩
      | some type =>
        if input.changes.isEmpty then .ok ⟨.pass, "code unchanged"⟩
        else if type == .duplicateCode then
          .ok (compareFunctions input.old.functions.length
            input.new.functions.length)
        else
          let measure (ast : SourceTree) :=
            (measureType defaultDetectors type ast input.fileContext).mapError
              DetectorError.message
          (measure input.old).bind fun before =>
            if before.isNone then .ok (compareMeasures type none none)
            else (measure input.new).map (compareMeasures type before) }

/-- The checks of every verification. -/
def standard : List RiskCheck :=
  [signatures, security, complexity, errorHandling, calls, issueTarget]

end RiskCheck

end CodeHealth
