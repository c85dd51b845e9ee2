import CodeHealth.Code.Metric
import CodeHealth.Digest.Sha1
import CodeHealth.Options
import CodeHealth.Tally
import CodeHealth.Text.Alphanumeric

/-!
# Blocks of code

The function bodies that are compared for duplication: their tokens, the shape of their tree, and
how often each word occurs.
-/

namespace CodeHealth

/-- A function body that is compared with others. -/
structure CodeBlock where
  index : Nat
  path : String
  functionName : String
  className : Option String
  startLine : Nat
  endLine : Nat
  startByte : Nat
  endByte : Nat
  lineCount : Nat
  tokens : List String
  shape : List String
  lexicon : Tally String
  excerpt : String

/-- The words among some tokens in small letters, with their counts. -/
def lexicon (tokens : List String) : Tally String :=
  Tally.ofList ((tokens.filter fun t => t.toList.any Text.isAlphanumeric).map Text.lower)

/-- The kind of a node with its depth, and the depth of its children. Comments and malformed nodes
are left out. -/
def shapeStep (depth : Nat) (t : Tree SyntaxNode) : List String × Option Nat :=
  if t.label.isError || commentKinds.contains t.kind then ([], none)
  else ([s!"{t.kind}@{depth}"], some (depth + 1))

/-- The kinds of a tree in pre-order with their depths. -/
def shapeOf (t : Tree SyntaxNode) : List String :=
  t.collect shapeStep 0

/-- Why duplicates could not be found. -/
inductive DuplicateError where
  | tokenWithoutText
  | undefinedConfidence
  | blockWithoutMatch (index : Nat)
  deriving DecidableEq

namespace DuplicateError

/-- The class of the error and its message. -/
def shown : DuplicateError → String × String
  | .tokenWithoutText => ("TypeError", "'NoneType' object is not iterable")
  | .undefinedConfidence => ("ValueError", "cannot convert float NaN to integer")
  | .blockWithoutMatch index => ("KeyError", toString index)

end DuplicateError

namespace CodeBlock

/-- A key that is equal for equal tokens. -/
def exactKey (b : CodeBlock) : String :=
  Digest.sha1Hex (String.intercalate "\x1f" b.tokens)

/-- A key that is equal for equal shapes. -/
def shapeKey (b : CodeBlock) : String :=
  Digest.sha1Hex (String.intercalate "\x1f" b.shape)

/-- Whether two blocks share bytes of one file. -/
def overlaps (a b : CodeBlock) : Bool :=
  a.path == b.path && a.startByte < b.endByte && b.startByte < a.endByte

/-- Where a block is, for a description. -/
def location (b : CodeBlock) : String :=
  s!"{b.path}:{b.startLine}"

/-- The block of a function with the texts of its body's tokens. -/
def ofFunction (ast : SourceTree) (f : FunctionDef) (index : Nat) (tokens : List String) :
    CodeBlock :=
  { index := index
    path := ast.path
    functionName := f.name
    className := f.className
    startLine := f.startLine
    endLine := f.endLine
    startByte := f.body.label.startByte
    endByte := f.body.label.endByte
    lineCount := f.body.codeLineCount
    tokens := tokens
    shape := shapeOf f.body
    lexicon := CodeHealth.lexicon tokens
    excerpt := ast.excerpt f.startLine f.endLine 6 }

end CodeBlock

/-- Whether a function body is large enough to be compared. -/
def isComparable (options : Options) (body : Tree SyntaxNode) : Bool :=
  options.duplicateMinLines ≤ body.codeLineCount &&
    options.duplicateMinTokens ≤ body.tokens.length

/-- The functions of some trees that are large enough, the trees in the order of their paths. -/
def comparableFunctions (options : Options) (asts : List SourceTree) :
    List (SourceTree × FunctionDef) :=
  ((asts.mergeSort fun a b => a.path ≤ b.path).filter fun ast => ast.language.isCode).flatMap
    fun ast => (ast.functions.filter fun f => isComparable options f.body).map fun f => (ast, f)

/-- The texts of a body's tokens. A node whose children were cut off has none. -/
def tokenTexts (body : Tree SyntaxNode) : Except DuplicateError (List String) :=
  body.tokens.mapM fun t =>
    match t.label.text with
    | some text => .ok text
    | none => .error .tokenWithoutText

/-- The blocks of some trees. -/
def extractBlocks (options : Options) (asts : List SourceTree) :
    Except DuplicateError (List CodeBlock) :=
  (comparableFunctions options asts).zipIdx.mapM fun ((ast, f), index) =>
    (tokenTexts f.body).map (CodeBlock.ofFunction ast f index)

end CodeHealth
