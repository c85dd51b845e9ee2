import CodeHealth.Text.Alphanumeric
import CodeHealth.Text.Blank
import CodeHealth.Text.Digit

/-!
# Text patterns

Patterns over characters with named captures, and the places where they can end, the preferred one
first. A search takes the earliest start and there the first ending.
-/

namespace CodeHealth

/-- A pattern. A repetition goes on as long as it can; the body of an unbounded one consumes at
least one character. -/
inductive Pattern where
  | empty
  | char (accepts : Char → Bool)
  | seq (first second : Pattern)
  | alt (first second : Pattern)
  | iterate (least : Nat) (most : Option Nat) (body : Pattern)
  | capture (name : String) (body : Pattern)
  | again (name : String)
  | notAhead (body : Pattern)
  | wordEdge
  | atStart
  | atEnd

namespace Pattern

/-- A captured part of a text: the rest of the text at its start and at its end. -/
structure Capture where
  name : String
  start : List Char
  stop : List Char

/-- The captured characters. -/
def Capture.text (c : Capture) : List Char :=
  c.start.take (c.start.length - c.stop.length)

/-- A place in a text: the character before it, the rest after it, and the captures so far, the
latest first. -/
structure Place where
  before : Option Char
  rest : List Char
  captures : List Capture

/-- The place at the start of a text. -/
def Place.ofText (cs : List Char) : Place :=
  ⟨none, cs, []⟩

/-- The latest capture of a name. -/
def Place.captured? (p : Place) (name : String) : Option (List Char) :=
  (p.captures.find? fun c => c.name == name).map Capture.text

/-- Moves over one accepted character. -/
def Place.next (p : Place) (accepts : Char → Bool) : List Place :=
  match p.rest with
  | [] => []
  | c :: cs => if accepts c then [⟨some c, cs, p.captures⟩] else []

/-- Moves over the given characters. -/
def Place.over (p : Place) : List Char → List Place
  | [] => [p]
  | c :: cs =>
    match p.rest with
    | d :: rest => if c == d then Place.over ⟨some d, rest, p.captures⟩ cs else []
    | [] => []

/-- Whether a word begins or ends at the place. -/
def Place.isWordEdge (p : Place) : Bool :=
  p.before.any Text.isWordChar != p.rest.head?.any Text.isWordChar

/-- Whether the place is at the end of the text or before a line feed that ends it. -/
def Place.isEnd (p : Place) : Bool :=
  match p.rest with
  | [] => true
  | [c] => c == '\n'
  | _ => false

/-- The places after exactly `n` steps. -/
def exactly (step : Place → List Place) : Nat → Place → List Place
  | 0, p => [p]
  | n + 1, p => (step p).flatMap (exactly step n)

/-- The places after at most as many steps as the list is long, more steps first, in front of
`others`. -/
def mostFirst {γ : Type} (step : Place → List Place) : List γ → Place → List Place → List Place
  | [], p, others => p :: others
  | _ :: left, p, others => (step p).foldr (fun q acc => mostFirst step left q acc) (p :: others)

/-- The places where a match that starts at `p` can end, the preferred one first. -/
def ends : Pattern → Place → List Place
  | .empty, p => [p]
  | .char accepts, p => p.next accepts
  | .seq first second, p => (first.ends p).flatMap fun q => second.ends q
  | .alt first second, p => first.ends p ++ second.ends p
  | .iterate least most body, p =>
    (exactly (fun q => body.ends q) least p).flatMap fun q =>
      match most with
      | some m => mostFirst (fun r => body.ends r) (List.replicate (m - least) ()) q []
      | none => mostFirst (fun r => body.ends r) q.rest q []
  | .capture name body, p =>
    (body.ends p).map fun q => { q with captures := ⟨name, p.rest, q.rest⟩ :: q.captures }
  | .again name, p =>
    match p.captured? name with
    | some text => p.over text
    | none => []
  | .notAhead body, p => if (body.ends p).isEmpty then [p] else []
  | .wordEdge, p => if p.isWordEdge then [p] else []
  | .atStart, p => if p.before.isNone then [p] else []
  | .atEnd, p => if p.isEnd then [p] else []

/-- The first ending of a match that starts where the text starts. -/
def matchStart? (pattern : Pattern) (cs : List Char) : Option Place :=
  (pattern.ends (Place.ofText cs)).head?

/-- The first ending of a match that starts at `before` and `rest` or later. -/
def searchFrom? (pattern : Pattern) (before : Option Char) : List Char → Option Place
  | [] => (pattern.ends ⟨before, [], []⟩).head?
  | c :: cs =>
    match (pattern.ends ⟨before, c :: cs, []⟩).head? with
    | some p => some p
    | none => searchFrom? pattern (some c) cs

/-- The first ending of the earliest match. -/
def search? (pattern : Pattern) (cs : List Char) : Option Place :=
  searchFrom? pattern none cs

/-- Whether a match starts where the text starts. -/
def matchesStart (pattern : Pattern) (s : String) : Bool :=
  (pattern.matchStart? s.toList).isSome

/-- Whether the text has a match. -/
def occursIn (pattern : Pattern) (s : String) : Bool :=
  (pattern.search? s.toList).isSome

instance : Append Pattern := ⟨.seq⟩

/-- The given characters. -/
def lit (s : String) : Pattern :=
  s.toList.foldr (fun c rest => .seq (.char (· == c)) rest) .empty

/-- The characters that differ from an ASCII letter in case only. -/
def sameLetter (c d : Char) : Bool :=
  c.toLower == d.toLower ||
    match c.toLower with
    | 'i' => d == 'İ' || d == 'ı'
    | 'k' => d == '\u212a'
    | 's' => d == 'ſ'
    | _ => false

/-- The given ASCII characters in any case. -/
def litAnyCase (s : String) : Pattern :=
  s.toList.foldr (fun c rest => .seq (.char (sameLetter c)) rest) .empty

/-- The first of some patterns that leads to a match. -/
def oneOf : List Pattern → Pattern
  | [] => .notAhead .empty
  | [p] => p
  | p :: ps => .alt p (oneOf ps)

/-- One of the given characters. -/
def among (s : String) : Pattern :=
  .char fun c => s.toList.contains c

/-- None of the given characters. -/
def noneOf (s : String) : Pattern :=
  .char fun c => !s.toList.contains c

/-- A character that is neither blank nor one of the given ones. -/
def solidExcept (s : String) : Pattern :=
  .char fun c => !Text.isBlank c && !s.toList.contains c

def blank : Pattern := .char Text.isBlank
def digit : Pattern := .char Text.isDigit
def anyOnLine : Pattern := .char (· != '\n')

/-- A word character or one of the given ones. -/
def wordOr (s : String) : Pattern :=
  .char fun c => Text.isWordChar c || s.toList.contains c

/-- An ASCII letter or digit or one of the given characters. -/
def alnumOr (s : String) : Pattern :=
  .char fun c => c.isAlphanum || s.toList.contains c

def opt (p : Pattern) : Pattern := .iterate 0 (some 1) p
def star (p : Pattern) : Pattern := .iterate 0 none p
def plus (p : Pattern) : Pattern := .iterate 1 none p
def atLeast (n : Nat) (p : Pattern) : Pattern := .iterate n none p
def between (least most : Nat) (p : Pattern) : Pattern := .iterate least (some most) p

end Pattern

end CodeHealth
