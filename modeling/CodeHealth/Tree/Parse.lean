import CodeHealth.Tree.Config
import CodeHealth.Tree.Normalize

/-!
# Parsing

From a text and a language to a source tree. Code is read by a grammar, which is a parameter;
configuration is read line by line. The strict form refuses malformed and cut off trees.
-/

namespace CodeHealth

/-- Why a text has no tree. -/
inductive ParseError where
  | unsupported (path : String) (language : Option Language)
  | tooLarge (path : String) (budget : Int)
  | malformed (path : String) (line : Option Nat)
  | grammar (reason : String)

/-- The message of a file without a reader. A language with an empty tag counts as unknown. -/
def unsupportedMessage (path : String) (language : Option String) : String :=
  let shown :=
    match language with
    | some tag => if tag == "" then "unknown" else tag
    | none => "unknown"
  s!"Unsupported language for '{path}': {shown}"

def ParseError.message : ParseError → String
  | .unsupported path language => unsupportedMessage path (language.map Language.tag)
  | .tooLarge path budget => s!"Parse error in '{path}': tree exceeds {budget} nodes"
  | .malformed path (some line) => s!"Parse error in '{path}': syntax error near line {line}"
  | .malformed path none => s!"Parse error in '{path}': syntax error"
  | .grammar reason => reason

/-- What a grammar answers for a text in a language of code: a tree or the reason for having
none. -/
abbrev Grammar := Language → String → Except String GrammarTree

/-- The node budget where none is given. -/
def defaultNodeBudget : Int := 500000

/-- Reads a configuration text. -/
def parseConfig (text path : String) : SourceTree :=
  let root := Config.document text
  { path, language := .config, source := text, root
    hasErrors := false, truncated := false, nodeCount := root.children.length + 1 }

/-- Builds the source tree of a grammar's tree. -/
def SourceTree.ofGrammar (budget : Int) (text path : String) (language : Language)
    (tree : GrammarTree) : SourceTree :=
  let copy := normalize text budget tree.root
  { path, language, source := text, root := copy.tree
    hasErrors := tree.hasError || copy.cutOff, truncated := copy.cutOff, nodeCount := copy.count }

/-- Reads a text in a language. Malformed text gives a tree with its errors marked. -/
def parseAs (grammar : Grammar) (budget : Int) (text : String) (language : Option Language)
    (path : String) : Except ParseError SourceTree :=
  match language with
  | none => .error (.unsupported path none)
  | some .config => .ok (parseConfig text path)
  | some language =>
    if language.isCode then
      match grammar language text with
      | .ok tree => .ok (.ofGrammar budget text path language tree)
      | .error reason => .error (.grammar reason)
    else .error (.unsupported path (some language))

/-- Reads a text in the hinted language, or in the one that its path stands for. -/
def parse (grammar : Grammar) (budget : Int) (text : String) (hint : Option String)
    (path : String) : Except ParseError SourceTree :=
  parseAs grammar budget text (Language.resolve? hint path) path

/-- The line of the first malformed node. -/
def SourceTree.firstErrorLine? (ast : SourceTree) : Option Nat :=
  (ast.root.walkAll.find? fun t => t.label.isError).map fun t => t.label.startLine

/-- Refuses a tree that is cut off or malformed. -/
def SourceTree.requireClean (budget : Int) (ast : SourceTree) : Except ParseError SourceTree :=
  if ast.truncated then .error (.tooLarge ast.path budget)
  else if ast.hasErrors then .error (.malformed ast.path ast.firstErrorLine?)
  else .ok ast

/-- Reads a text and refuses all but a clean tree. -/
def parseStrict (grammar : Grammar) (budget : Int) (text : String) (hint : Option String)
    (path : String) : Except ParseError SourceTree :=
  (parse grammar budget text hint path).bind (SourceTree.requireClean budget)

end CodeHealth
