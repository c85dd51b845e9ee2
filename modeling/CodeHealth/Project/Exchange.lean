import CodeHealth.Project.Store

/-!
# Exchanges with a tree store

What a store is asked, what it answers, and the store that it is afterwards. A file that would have
to be read and cannot be leaves the store as it is.
-/

namespace CodeHealth

/-- What a store is asked. A file is read with the grammar and the budget of its request. -/
inductive StoreRequest where
  | put (projectId : String) (tree : SourceTree)
  | getOrParse (grammar : Grammar) (budget : Int) (projectId : String) (f : SourceFile)
  | get (projectId path : String)
  | invalidate (projectId : String) (path : Option String)
  | paths (projectId : String)
  | stats

/-- The project that a request is about. The counts are about none. -/
def StoreRequest.projectId? : StoreRequest → Option String
  | .put projectId _ => some projectId
  | .getOrParse _ _ projectId _ => some projectId
  | .get projectId _ => some projectId
  | .invalidate projectId _ => some projectId
  | .paths projectId => some projectId
  | .stats => none

/-- What a store answers. -/
inductive StoreAnswer where
  | stored
  | found (found : TreeStore.Found)
  | unreadable (reason : ParseError)
  | tree (tree : Option SourceTree)
  | dropped (count : Nat)
  | paths (paths : List String)
  | stats (hits misses entries : Nat)

/-- A request with its answer. -/
structure Exchange where
  request : StoreRequest
  answer : StoreAnswer

namespace TreeStore

/-- Answers a request. -/
def answer (s : TreeStore) : StoreRequest → StoreAnswer × TreeStore
  | .put projectId tree => (.stored, s.put projectId tree)
  | .getOrParse grammar budget projectId f =>
    match s.getOrParse grammar budget projectId f with
    | .ok (found, s) => (.found found, s)
    | .error reason => (.unreadable reason, s)
  | .get projectId path => (.tree (s.get? projectId path), s)
  | .invalidate projectId path =>
    let (count, s) := s.invalidate projectId path
    (.dropped count, s)
  | .paths projectId => (.paths (s.paths projectId), s)
  | .stats => (.stats s.hits s.misses s.entries.length, s)

/-- Answers some requests in their order. -/
def serve (s : TreeStore) : List StoreRequest → List Exchange × TreeStore
  | [] => ([], s)
  | request :: requests =>
    let (answer, s) := s.answer request
    let (exchanges, s) := s.serve requests
    (⟨request, answer⟩ :: exchanges, s)

end TreeStore

end CodeHealth
