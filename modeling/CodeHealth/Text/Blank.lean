/-!
# Blanks and line breaks

White space of every script, trimming, and the split of a text into lines at line feeds.
-/

namespace CodeHealth.Text

/-- The code points that count as white space. -/
def blankCodes : List Nat :=
  [0x20, 0x9, 0xa, 0xb, 0xc, 0xd, 0x1c, 0x1d, 0x1e, 0x1f, 0x85, 0xa0, 0x1680, 0x2000, 0x2001,
    0x2002, 0x2003, 0x2004, 0x2005, 0x2006, 0x2007, 0x2008, 0x2009, 0x200a, 0x2028, 0x2029,
    0x202f, 0x205f, 0x3000]

/-- White space of any script. -/
def isBlank (c : Char) : Bool :=
  (c.toNat ≤ 0x20 || 0x85 ≤ c.toNat) && blankCodes.contains c.toNat

/-- Drops the longest end of characters that satisfy `p`. -/
def dropEndWhile (p : Char → Bool) (cs : List Char) : List Char :=
  (cs.reverse.dropWhile p).reverse

/-- Drops the blanks at the end. -/
def trimEnd (cs : List Char) : List Char :=
  dropEndWhile isBlank cs

/-- Drops the blanks at both ends. -/
def trim (cs : List Char) : List Char :=
  trimEnd (cs.dropWhile isBlank)

/-- Drops the blanks at both ends of a text. -/
def strip (s : String) : String :=
  String.ofList (trim s.toList)

/-- Removes every blank. -/
def removeBlanks (s : String) : String :=
  String.ofList (s.toList.filter fun c => !isBlank c)

/-- Splits at every `sep`; there is one part more than separators. -/
def splitAt (sep : Char) (cs : List Char) : List (List Char) :=
  cs.foldr
    (fun c parts =>
      if c == sep then [] :: parts
      else
        match parts with
        | [] => [[c]]
        | part :: rest => (c :: part) :: rest)
    [[]]

/-- The parts of a text between the separators. -/
def splitOnChar (sep : Char) (s : String) : List String :=
  (splitAt sep s.toList).map String.ofList

/-- The line without the carriage returns at its end. -/
def dropReturns (cs : List Char) : List Char :=
  dropEndWhile (· == '\r') cs

/-- The lines of a text, split at line feeds only, without carriage returns at their ends. -/
def linesOf (s : String) : List String :=
  (splitAt '\n' s.toList).map fun line => String.ofList (dropReturns line)

/-- Writes every line ending, `\r\n`, `\r` or `\n`, as one line feed. -/
def unifyBreaks (s : String) : String :=
  String.ofList
    (s.toList.foldr
      (fun c (after : List Char × Bool) =>
        if c == '\r' then (if after.2 then after.1 else '\n' :: after.1, false)
        else (c :: after.1, c == '\n'))
      ([], false)).1

end CodeHealth.Text
