import CodeHealth.Refactor.Verify

/-!
# Suggestions

A generator outside is asked for new code in place of that of an issue, and what it answers is
verified.
-/

namespace CodeHealth

/-- What a generator is asked. -/
structure GeneratorCall where
  oldCode : String
  issueType : IssueType
  context : Datum

/-- A generator answers with a text, with something else, or with a failure. -/
abbrev Generator := GeneratorCall → Except String (Option String)

/-- There is no candidate for an issue. -/
structure GeneratorUnavailable where
  issueType : IssueType
  reason : String
  deriving DecidableEq, Repr

def GeneratorUnavailable.message (e : GeneratorUnavailable) : String :=
  s!"No refactoring candidate for {e.issueType.tag}: {e.reason}"

/-- Why no suggestion is made. -/
inductive SuggestError where
  | unavailable (error : GeneratorUnavailable)
  | transition (error : TransitionError)

/-- The answer to an issue, and what the generator was asked for it. -/
structure SuggestOutcome where
  calls : List GeneratorCall
  answer : Except SuggestError Suggestion

/-- The language in which the code of an issue is read. -/
def suggestLanguage? (issue : Issue) (language : Option String) : Option String :=
  (Language.resolve? language issue.filePath).map Language.tag

/-- The request to verify a candidate for an issue. -/
def candidateRequest (issue : Issue) (oldCode candidate language : String) :
    VerificationRequest :=
  { oldCode
    newCode := candidate
    language
    filePath := issue.filePath
    issueId := issue.id
    issueType := some issue.type
    explanation := issue.recommendation
    confidence := none }

/-- Asks for a candidate for the code of an issue and verifies it. Excluded types of issues and
unknown languages are refused without asking. -/
def suggest (grammar : Grammar) (options : Options) (generator : Generator) (issue : Issue)
    (oldCode : String) (language : Option String) : SuggestOutcome :=
  let unavailable (reason : String) : Except SuggestError Suggestion :=
    .error (.unavailable ⟨issue.type, reason⟩)
  if options.excludedTypes.contains issue.type.tag then
    ⟨[], unavailable "automatic refactoring is disabled for this issue type"⟩
  else
    match suggestLanguage? issue language with
    | none => ⟨[], unavailable s!"unknown language for {issue.filePath}"⟩
    | some language =>
      let call : GeneratorCall := ⟨oldCode, issue.type, issue.context⟩
      match generator call with
      | .error message => ⟨[call], unavailable message⟩
      | .ok none => ⟨[call], unavailable "generator returned no code"⟩
      | .ok (some candidate) =>
        if Text.strip candidate == "" then ⟨[call], unavailable "generator returned no code"⟩
        else
          ⟨[call],
            (verify grammar options RiskCheck.standard
              (candidateRequest issue oldCode candidate language)).mapError .transition⟩

end CodeHealth
