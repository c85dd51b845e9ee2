import CodeHealth.Digest.Sha256
import CodeHealth.Project.SourceFile
import CodeHealth.Text.Order
import CodeHealth.Tree.Parse

/-!
# Tree store

Trees by project and path. A tree is read again only if the text or the language of its file has
changed.
-/

namespace CodeHealth

/-- A stored tree with the digest of its text. -/
structure StoreEntry where
  projectId : String
  path : String
  tree : SourceTree
  digest : String
  language : Language

/-- Stored trees in the order in which their keys came in, and how often a tree was found or had to
be read. -/
structure TreeStore where
  entries : List StoreEntry
  hits : Nat
  misses : Nat

namespace TreeStore

def empty : TreeStore :=
  ⟨[], 0, 0⟩

/-- Whether an entry is that of a path in a project. -/
def hasKey (projectId path : String) (e : StoreEntry) : Bool :=
  e.projectId == projectId && e.path == path

def entry? (s : TreeStore) (projectId path : String) : Option StoreEntry :=
  s.entries.find? (hasKey projectId path)

/-- The tree of a path. -/
def get? (s : TreeStore) (projectId path : String) : Option SourceTree :=
  (s.entry? projectId path).map StoreEntry.tree

/-- Stores an entry in place of the one with its key. -/
def insert (s : TreeStore) (e : StoreEntry) : TreeStore :=
  if s.entries.any (hasKey e.projectId e.path) then
    { s with entries := s.entries.map fun old =>
        if hasKey e.projectId e.path old then e else old }
  else { s with entries := s.entries ++ [e] }

/-- Stores a tree under its own path. -/
def put (s : TreeStore) (projectId : String) (tree : SourceTree) : TreeStore :=
  s.insert ⟨projectId, tree.path, tree, Digest.sha256Hex tree.source, tree.language⟩

/-- Whether an entry is of the text and the language of a file. -/
def StoreEntry.isCurrent (e : StoreEntry) (f : SourceFile) : Bool :=
  e.digest == Digest.sha256Hex f.text && some e.language == f.language

/-- A tree, and whether it was there already. -/
structure Found where
  tree : SourceTree
  wasStored : Bool

/-- The stored tree of a file if it is current, and otherwise the tree that is read for it. -/
def getOrParse (s : TreeStore) (grammar : Grammar) (budget : Int) (projectId : String)
    (f : SourceFile) : Except ParseError (Found × TreeStore) :=
  match (s.entry? projectId f.path).filter fun e => StoreEntry.isCurrent e f with
  | some e => .ok (⟨e.tree, true⟩, { s with hits := s.hits + 1 })
  | none =>
    (parseAs grammar budget f.text f.language f.path).map fun tree =>
      let stored := s.insert ⟨projectId, f.path, tree, Digest.sha256Hex f.text, tree.language⟩
      (⟨tree, false⟩, { stored with misses := s.misses + 1 })

/-- Whether an entry belongs to a project and to the path, if one is given. -/
def matchesKey (projectId : String) (path : Option String) (e : StoreEntry) : Bool :=
  e.projectId == projectId && path.all (e.path == ·)

/-- Drops the entry of a path or all entries of a project, and counts them. -/
def invalidate (s : TreeStore) (projectId : String) (path : Option String) : Nat × TreeStore :=
  (s.entries.countP (matchesKey projectId path),
    { s with entries := s.entries.filter fun e => !matchesKey projectId path e })

/-- The paths of a project in increasing order. -/
def paths (s : TreeStore) (projectId : String) : List String :=
  Text.sorted ((s.entries.filter fun e => e.projectId == projectId).map StoreEntry.path)

end TreeStore

end CodeHealth
