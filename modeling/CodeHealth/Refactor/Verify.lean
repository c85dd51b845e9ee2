import CodeHealth.Refactor.Change
import CodeHealth.Refactor.Check
import CodeHealth.Refactor.Fence
import CodeHealth.Tally
import CodeHealth.Tree.Parse

/-!
# Verification

A candidate goes through the states of a verification: its syntax is checked, its structure is
compared with that of the old code, its risk is scored, and it gets its badge. Each step adds
layers, and a failed step leads to the badge at once.
-/

namespace CodeHealth

/-- How far a verification has come. -/
inductive VerificationState where
  | received
  | syntaxChecked
  | structureCompared
  | riskScored
  | badged
  deriving DecidableEq, Repr

namespace VerificationState

def tag : VerificationState → String
  | .received => "received"
  | .syntaxChecked => "syntax_checked"
  | .structureCompared => "structure_compared"
  | .riskScored => "risk_scored"
  | .badged => "badged"

def all : List VerificationState :=
  [.received, .syntaxChecked, .structureCompared, .riskScored, .badged]

def ofTag? (tag : String) : Option VerificationState :=
  all.find? fun s => s.tag == tag

/-- Whether a verification may go from one state to the other. -/
def allows : VerificationState → VerificationState → Bool
  | .received, .syntaxChecked => true
  | .syntaxChecked, .structureCompared => true
  | .structureCompared, .riskScored => true
  | .badged, .badged => false
  | _, .badged => true
  | _, _ => false

/-- Goes on to a state, or names the transition that is not allowed. -/
def advance (current new : VerificationState) : Except TransitionError VerificationState :=
  if current.allows new then .ok new else .error ⟨"verification", current.tag, new.tag⟩

end VerificationState

/-- Whether a text holds a token that is no comment. -/
def SourceTree.hasCode (ast : SourceTree) : Bool :=
  !ast.root.children.isEmpty && !ast.root.tokens.isEmpty

/-- What the verification of one candidate has found so far. -/
structure Verification where
  request : VerificationRequest
  options : Options
  newCode : String
  state : VerificationState
  changes : List LineChange
  layers : List ValidationLayer

namespace Verification

def start (options : Options) (request : VerificationRequest) : Verification :=
  { request, options, newCode := Fence.strip request.newCode
    state := .received, changes := [], layers := [] }

def addLayer (v : Verification) (name : String) (status : LayerStatus) (detail : String) :
    Verification :=
  { v with layers := v.layers ++ [⟨name, status, detail⟩] }

def advance (v : Verification) (new : VerificationState) : Except TransitionError Verification :=
  (v.state.advance new).map fun state => { v with state }

/-- The trees of the old code and of the candidate. -/
structure Trees where
  old : SourceTree
  new : SourceTree

/-- Reads both texts; the candidate has to be free of errors. -/
def readTrees (grammar : Grammar) (v : Verification) : Except ParseError Trees := do
  let budget := v.options.maxAstNodes
  let r := v.request
  let old ← parse grammar budget r.oldCode (some r.language) r.filePath
  let new ← parseStrict grammar budget v.newCode (some r.language) r.filePath
  return ⟨old, new⟩

/-- What is said of a text that cannot be read. -/
def syntaxDetail : ParseError → String
  | .grammar reason => s!"parser error: {reason}"
  | e => e.message

/-- The trees of both texts, or why the candidate is refused. -/
def checkSyntax (grammar : Grammar) (v : Verification) : Except String Trees :=
  match readTrees grammar v with
  | .error e => .error (syntaxDetail e)
  | .ok trees =>
    if trees.old.hasCode && !trees.new.hasCode then
      .error "refactored code is empty"
    else .ok trees

/-- How many changes there are of each type. -/
def describeChanges (changes : List LineChange) : String :=
  if changes.isEmpty then "no changes"
  else
    String.intercalate ", " (ChangeType.all.filterMap fun type =>
      let count := changes.countP fun c => c.type == type
      if count == 0 then none else some s!"{count} {type.tag}")

/-- The layers of all checks. -/
def scoreRisk (checks : List RiskCheck) (v : Verification) (trees : Trees) :
    List ValidationLayer :=
  checks.map fun check =>
    check.layer ⟨v.request, v.options, trees.old, trees.new, v.changes⟩

/-- The steps after the texts could be read. -/
def compare (checks : List RiskCheck) (v : Verification) (trees : Trees) :
    Except TransitionError Verification :=
  match computeChanges trees.old trees.new v.options.maxDiffUnits with
  | .error e => .ok (v.addLayer "structure" .fail s!"diff budget exceeded: {e.message}")
  | .ok changes => do
    let v := { v with changes }.addLayer "structure" .pass (describeChanges changes)
    let v ← v.advance .structureCompared
    let v := { v with layers := v.layers ++ scoreRisk checks v trees }
    v.advance .riskScored

/-- Every step of a verification. -/
def run (grammar : Grammar) (checks : List RiskCheck) (v : Verification) :
    Except TransitionError Verification := do
  let v ←
    match checkSyntax grammar v with
    | .error detail => .ok (v.addLayer "syntax" .fail detail)
    | .ok trees => do
      let v := v.addLayer "syntax" .pass "refactored code parses cleanly"
      let v ← v.advance .syntaxChecked
      v.compare checks trees
  v.advance .badged

/-- The badge that the layers earn. -/
def badge (v : Verification) : Badge :=
  .ofStatuses (v.layers.map ValidationLayer.status)

/-- The confidence in the candidate: that of the badge, and no more than was asked for. -/
def confidence (v : Verification) : Nat :=
  match v.request.confidence with
  | some most => min v.badge.confidence most
  | none => v.badge.confidence

/-- The suggestion at the end of a verification. -/
def suggestion (v : Verification) : Suggestion :=
  { issueId := v.request.issueId
    issueType := v.request.issueType
    filePath := some v.request.filePath
    oldCode := v.request.oldCode
    newCode := v.newCode
    explanation := v.request.explanation
    confidence := v.confidence
    changes := v.changes
    isVerified := v.badge == .verified
    badge := v.badge
    layers := v.layers
    status := .pending }

end Verification

/-- Verifies a candidate. -/
def verify (grammar : Grammar) (options : Options) (checks : List RiskCheck)
    (request : VerificationRequest) : Except TransitionError Suggestion :=
  ((Verification.start options request).run grammar checks).map Verification.suggestion

end CodeHealth
