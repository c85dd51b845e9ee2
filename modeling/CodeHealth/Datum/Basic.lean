/-!
# Data values

Null, booleans, numbers, texts, lists and objects. Integers and decimals are told apart, and the
members of an object keep their order.
-/

namespace CodeHealth

inductive Datum where
  | null
  | bool (value : Bool)
  | int (value : Int)
  | float (value : Rat)
  | str (value : String)
  | list (items : List Datum)
  | object (members : List (String × Datum))

namespace Datum

instance : Inhabited Datum := ⟨.null⟩

/-- The value of an object's member. -/
def get? (name : String) : Datum → Option Datum
  | .object members => (members.find? fun m => m.1 == name).map Prod.snd
  | _ => none

/-- Sets a member: in place if its name is there, otherwise at the end. -/
def setMember (members : List (String × α)) (name : String) (value : α) : List (String × α) :=
  if members.any fun m => m.1 == name then
    members.map fun m => if m.1 == name then (m.1, value) else m
  else members ++ [(name, value)]

/-- A text, or null where there is none. -/
def ofOption (value : Option String) : Datum :=
  match value with
  | some s => .str s
  | none => .null

/-- A list of texts. -/
def ofStrings (texts : List String) : Datum :=
  .list (texts.map .str)

/-- An object of whole numbers. -/
def ofCounts (counts : List (String × Int)) : Datum :=
  .object (counts.map fun c => (c.1, .int c.2))

/-- A natural number. -/
def ofNat (n : Nat) : Datum :=
  .int n

end Datum

end CodeHealth
