import CodeHealth.Path
import CodeHealth.Text.Case
import CodeHealth.Text.Substring

/-!
# Languages

The languages that can be read, how a path tells the language of a file, and which paths belong to
tests.
-/

namespace CodeHealth

/-- A language by its tag. No reader exists for the tags under `other`. -/
inductive Language where
  | python
  | javascript
  | typescript
  | tsx
  | config
  | other (tag : String)
  deriving DecidableEq, Repr

namespace Language

def ofTag (tag : String) : Language :=
  match tag with
  | "python" => .python
  | "javascript" => .javascript
  | "typescript" => .typescript
  | "tsx" => .tsx
  | "config" => .config
  | _ => .other tag

def tag : Language → String
  | .python => "python"
  | .javascript => "javascript"
  | .typescript => "typescript"
  | .tsx => "tsx"
  | .config => "config"
  | .other tag => tag

/-- A programming language, read with a grammar. -/
def isCode : Language → Bool
  | .python | .javascript | .typescript | .tsx => true
  | .config | .other _ => false

/-- Whether files of the language can be read. -/
def isSupported (language : Language) : Bool :=
  language.isCode || language == .config

/-- The language of a file name ending in small letters. -/
def ofExtension? (ending : String) : Option Language :=
  if [".py", ".pyi"].contains ending then some .python
  else if [".js", ".jsx", ".mjs", ".cjs"].contains ending then some .javascript
  else if [".ts", ".mts", ".cts"].contains ending then some .typescript
  else if ending == ".tsx" then some .tsx
  else if [".json", ".yaml", ".yml", ".toml", ".ini", ".cfg", ".conf", ".properties", ".env",
      ".pem", ".key"].contains ending then some .config
  else none

/-- The language that a path stands for. -/
def detect? (path : String) : Option Language :=
  let name := Path.fileName path
  if name == ".env" || Text.startsWith name ".env." then some .config
  else ofExtension? (Text.lower (Path.extension name))

/-- The hinted language, or the one that the path stands for where the hint is empty. -/
def resolve? (hint : Option String) (path : String) : Option Language :=
  match hint with
  | some tag => if tag == "" then detect? path else some (ofTag tag)
  | none => detect? path

end Language

/-- Whether a path looks like that of a test or a fixture. -/
def isTestPath (path : String) : Bool :=
  let lowered := Text.replace (Text.lower path) "\\" "/"
  let name := (Text.splitOnChar '/' lowered).getLast?.getD ""
  Text.contains ("/" ++ lowered) "/tests/" || Text.contains ("/" ++ lowered) "/__tests__/" ||
    Text.startsWith name "test_" || Text.contains name ".test." || Text.contains name ".spec." ||
    Text.endsWith name "_test.py"

end CodeHealth
