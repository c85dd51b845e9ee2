import CodeHealth.Text.Blank

/-!
# Paths

A path is read as its components between slashes; empty components and single dots do not count.
-/

namespace CodeHealth.Path

/-- The components of a path. -/
def components (path : String) : List String :=
  (Text.splitOnChar '/' path).filter fun part => part != "" && part != "."

/-- The last component, or the empty text. -/
def fileName (path : String) : String :=
  (components path).getLast?.getD ""

/-- The ending of a file name from its last dot on. There is none if that dot is the first or the
last character. -/
def extension (name : String) : String :=
  let backwards := name.toList.reverse
  let tail := backwards.takeWhile (· != '.')
  match backwards.drop tail.length with
  | _ :: _ :: _ => if tail.isEmpty then "" else String.ofList ('.' :: tail.reverse)
  | _ => ""

end CodeHealth.Path
