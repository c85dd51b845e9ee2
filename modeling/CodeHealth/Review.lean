/-!
# Review

The review status of a record. A pending record is accepted or rejected once, and then stays so.
-/

namespace CodeHealth

/-- Where a record stands in the review. -/
inductive ReviewStatus where
  | pending
  | accepted
  | rejected
  deriving DecidableEq, Repr

namespace ReviewStatus

def tag : ReviewStatus → String
  | .pending => "pending"
  | .accepted => "accepted"
  | .rejected => "rejected"

def all : List ReviewStatus :=
  [.pending, .accepted, .rejected]

def ofTag? (tag : String) : Option ReviewStatus :=
  all.find? fun s => s.tag == tag

/-- Whether a review may move a record from one status to the other. -/
def allows : ReviewStatus → ReviewStatus → Bool
  | .pending, .accepted => true
  | .pending, .rejected => true
  | _, _ => false

end ReviewStatus

/-- A transition that a state machine does not allow. -/
structure TransitionError where
  machine : String
  current : String
  new : String
  deriving DecidableEq, Repr

def TransitionError.message (e : TransitionError) : String :=
  s!"Invalid {e.machine} transition: '{e.current}' -> '{e.new}'"

/-- Moves a status on, or names the transition that is not allowed. -/
def ReviewStatus.move (machine : String) (current new : ReviewStatus) :
    Except TransitionError ReviewStatus :=
  if current.allows new then .ok new else .error ⟨machine, current.tag, new.tag⟩

end CodeHealth
