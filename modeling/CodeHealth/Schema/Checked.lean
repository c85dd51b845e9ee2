/-!
# Checked values

The outcome of checking input: a value, or every fault with its place. Combining two outcomes keeps
the faults of both.
-/

namespace CodeHealth.Schema

/-- What is wrong with a value. -/
inductive FaultKind where
  | missing
  | intType
  | intParsing
  | intFromFloat
  | floatType
  | floatParsing
  | boolType
  | boolParsing
  | stringType
  | listType
  | tupleType
  | dictType
  | modelType
  | modelAttributesType
  | enumeration
  | literal
  | tooSmall
  | tooLarge
  | inconsistent
  | unionTagMissing
  | unionTagInvalid
  deriving DecidableEq, Repr

def FaultKind.tag : FaultKind → String
  | .missing => "missing"
  | .intType => "int_type"
  | .intParsing => "int_parsing"
  | .intFromFloat => "int_from_float"
  | .floatType => "float_type"
  | .floatParsing => "float_parsing"
  | .boolType => "bool_type"
  | .boolParsing => "bool_parsing"
  | .stringType => "string_type"
  | .listType => "list_type"
  | .tupleType => "tuple_type"
  | .dictType => "dict_type"
  | .modelType => "model_type"
  | .modelAttributesType => "model_attributes_type"
  | .enumeration => "enum"
  | .literal => "literal_error"
  | .tooSmall => "greater_than_equal"
  | .tooLarge => "less_than_equal"
  | .inconsistent => "value_error"
  | .unionTagMissing => "union_tag_not_found"
  | .unionTagInvalid => "union_tag_invalid"

/-- A fault at a place; the place is the way of member names and indices to it. -/
structure Fault where
  place : List String
  kind : FaultKind
  deriving DecidableEq, Repr

/-- The place with dots between its parts. -/
def Fault.location (f : Fault) : String :=
  String.intercalate "." f.place

/-- A value, or the faults that were found instead. -/
inductive Checked (α : Type) where
  | valid (value : α)
  | faulty (faults : List Fault)

namespace Checked

variable {α β : Type}

def map (f : α → β) : Checked α → Checked β
  | .valid a => .valid (f a)
  | .faulty faults => .faulty faults

/-- Applies a checked function to a checked value. -/
def apply (f : Checked (α → β)) (a : Checked α) : Checked β :=
  match f, a with
  | .valid f, .valid a => .valid (f a)
  | .valid _, .faulty faults => .faulty faults
  | .faulty faults, .valid _ => .faulty faults
  | .faulty first, .faulty second => .faulty (first ++ second)

instance : Functor Checked := ⟨map, fun a => map fun _ => a⟩

instance : Applicative Checked where
  pure := .valid
  seq f a := apply f (a ())

/-- A single fault at the place itself. -/
def fault (kind : FaultKind) : Checked α :=
  .faulty [⟨[], kind⟩]

/-- Moves faults below a part of the place. -/
def under (part : String) : Checked α → Checked α
  | .valid a => .valid a
  | .faulty faults => .faulty (faults.map fun f => { f with place := part :: f.place })

/-- Adds a condition on a valid value. -/
def require (condition : α → Bool) (kind : FaultKind) : Checked α → Checked α
  | .valid a => if condition a then .valid a else fault kind
  | .faulty faults => .faulty faults

/-- Goes on with a valid value. -/
def andThen (c : Checked α) (f : α → Checked β) : Checked β :=
  match c with
  | .valid a => f a
  | .faulty faults => .faulty faults

/-- The values of a list, or all of its faults. -/
def sequence : List (Checked α) → Checked (List α)
  | [] => .valid []
  | c :: cs => apply (c.map List.cons) (sequence cs)

end Checked

end CodeHealth.Schema
