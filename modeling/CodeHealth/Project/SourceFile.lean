import CodeHealth.Language
import CodeHealth.Text.Bytes

/-!
# Source files

The files of a project, and which files of a checkout are read: those that are not in a directory of
generated or foreign files, not too large, and valid UTF-8.
-/

namespace CodeHealth

/-- A file under analysis. Its path and its text are sequences of Unicode scalar values, so that no
lone surrogate stands in them. -/
structure SourceFile where
  path : String
  language : Option Language
  text : String
  deriving DecidableEq, Repr

namespace SourceFile

/-- A file in the hinted language, or in the one that its path stands for. -/
def ofText (path text : String) (hint : Option String) : SourceFile :=
  ⟨path, Language.resolve? hint path, text⟩

/-- Whether there is a reader for the file. -/
def isSupported (f : SourceFile) : Bool :=
  f.language.any Language.isSupported

end SourceFile

/-- A file that is recorded but not analysed. -/
structure SkippedFile where
  path : String
  reason : String
  deriving DecidableEq, Repr

namespace Checkout

/-- The directories whose files are not read. -/
def excludedDirectories : List String :=
  [".git", "node_modules", "dist", "build", ".next", "__pycache__", ".venv", "venv", ".tox",
    ".mypy_cache", ".pytest_cache"]

/-- The size beyond which a file is not read. -/
def maxFileBytes : Nat := 2 * 1024 * 1024

/-- A file on disk below the root of a checkout. -/
structure RawFile where
  path : String
  bytes : ByteArray

/-- The order of component lists, the first difference first. -/
def componentsLe : List String → List String → Bool
  | [], _ => true
  | _ :: _, [] => false
  | a :: as, b :: bs => if a != b then a < b else componentsLe as bs

/-- The order in which the files of a checkout are read. -/
def RawFile.le (a b : RawFile) : Bool :=
  componentsLe (Path.components a.path) (Path.components b.path)

/-- Whether a file stands in no excluded directory. -/
def RawFile.isIncluded (f : RawFile) : Bool :=
  !(Path.components f.path).dropLast.any excludedDirectories.contains

/-- Reads a file, or says why it is skipped. -/
def readFile (f : RawFile) : Except SkippedFile SourceFile :=
  let path := String.intercalate "/" (Path.components f.path)
  if maxFileBytes < f.bytes.size then .error ⟨path, "file too large"⟩
  else
    match String.fromUTF8? f.bytes with
    | none => .error ⟨path, "not valid UTF-8 text"⟩
    | some text => .ok (.ofText path (Text.unifyBreaks text) none)

/-- The files of a checkout that could be read and those that could not. -/
structure Collected where
  files : List SourceFile
  skipped : List SkippedFile

/-- Reads the files of a checkout in the order of their paths. -/
def collect (raw : List RawFile) : Collected :=
  let read := ((raw.mergeSort RawFile.le).filter RawFile.isIncluded).map readFile
  { files := read.filterMap Except.toOption
    skipped := read.filterMap fun
      | .ok _ => none
      | .error s => some s }

end Checkout

end CodeHealth
