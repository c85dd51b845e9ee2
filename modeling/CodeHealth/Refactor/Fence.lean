import CodeHealth.Text.Alphanumeric
import CodeHealth.Text.Blank

/-!
# Code fences

A candidate may come inside a fence: three backticks with a tag and a line break in front, and three
backticks behind.
-/

namespace CodeHealth.Fence

/-- The mark at both ends of a fence. -/
def mark : List Char := ['\x60', '\x60', '\x60']

/-- A character of the tag after the opening mark. -/
def isTagChar (c : Char) : Bool :=
  Text.isWordChar c || c == '+' || c == '-'

/-- The text after a prefix. -/
def after? (head cs : List Char) : Option (List Char) :=
  if head.isPrefixOf cs then some (cs.drop head.length) else none

/-- The text before a suffix. -/
def before? (tail cs : List Char) : Option (List Char) :=
  if tail.isSuffixOf cs then some (cs.take (cs.length - tail.length)) else none

/-- The text after the last line feed among the blanks in front. -/
def afterBreak? (cs : List Char) : Option (List Char) :=
  let blanks := cs.takeWhile Text.isBlank
  if blanks.contains '\n' then
    some ((blanks.reverse.takeWhile (· != '\n')).reverse ++ cs.drop blanks.length)
  else none

/-- The text inside a fence, without the blanks in front of the closing mark. -/
def body? (cs : List Char) : Option (List Char) := do
  let tagged ← after? mark (cs.dropWhile Text.isBlank)
  let inner ← afterBreak? (tagged.dropWhile isTagChar)
  let body ← before? mark (Text.trimEnd inner)
  return Text.trimEnd body

/-- Takes a candidate out of its fence and ends it with a line feed. A candidate without a fence
stays as it is. -/
def strip (s : String) : String :=
  match body? s.toList with
  | some body => String.ofList (body ++ ['\n'])
  | none => s

end CodeHealth.Fence
