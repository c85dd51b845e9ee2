import CodeHealth.Proofs.Project.StoreMap
import Mathlib.Data.List.Sort

/-!
# Histories of a store

A store that was empty at first is a finite map after any requests: each answer is that of the map,
a path has the tree that was stored for it last and not dropped since, the counts are those of the
files that were answered with a tree, and a request about one project leaves the others.
-/

namespace CodeHealth

namespace Exchange

/-- The key and the tree that an exchange stores: those of a tree that is handed over or had to be
read. -/
def stored? : Exchange → Option (StoreKey × SourceTree)
  | ⟨.put projectId tree, _⟩ => some ((projectId, tree.path), tree)
  | ⟨.getOrParse _ _ projectId f, .found ⟨tree, false⟩⟩ => some ((projectId, f.path), tree)
  | _ => none

/-- The exchange drops the tree of a key, if there is one. -/
def Drops (k : StoreKey) : Exchange → Prop
  | ⟨.invalidate projectId path, _⟩ => Addressed projectId path k
  | _ => False

/-- The exchange leaves a key as it is. -/
def Leaves (k : StoreKey) (e : Exchange) : Prop :=
  ¬ e.Drops k ∧ ∀ tree, e.stored? ≠ some (k, tree)

/-- The exchange returned the tree of a file. -/
def isReturned : Exchange → Bool
  | ⟨.getOrParse .., .found _⟩ => true
  | _ => false

/-- The tree is the last one that was stored under the key, and the key was not dropped since. -/
def LastStored (history : List Exchange) (k : StoreKey) (tree : SourceTree) : Prop :=
  ∃ before e after, history = before ++ e :: after ∧ e.stored? = some (k, tree) ∧
    ∀ x ∈ after, x.Leaves k

theorem lastStored_cons {e : Exchange} {history : List Exchange} {k : StoreKey}
    {tree : SourceTree} :
    LastStored (e :: history) k tree ↔
      LastStored history k tree ∨
        e.stored? = some (k, tree) ∧ ∀ x ∈ history, x.Leaves k := by
  constructor
  · rintro ⟨before, x, after, heq, hstored, hafter⟩
    cases before with
    | nil =>
        obtain ⟨rfl, rfl⟩ := List.cons.inj heq
        exact .inr ⟨hstored, hafter⟩
    | cons y before =>
        obtain ⟨-, rfl⟩ := List.cons.inj heq
        exact .inl ⟨before, x, after, rfl, hstored, hafter⟩
  · rintro (⟨before, x, after, rfl, hstored, hafter⟩ | ⟨hstored, hafter⟩)
    · exact ⟨e :: before, x, after, rfl, hstored, hafter⟩
    · exact ⟨[], e, history, rfl, hstored, hafter⟩

end Exchange

namespace StoreMap

variable {m m' m'' : StoreMap} {request : StoreRequest} {answer : StoreAnswer}
  {history : List Exchange} {k : StoreKey} {tree : SourceTree}

/-- A map answers a list of requests one after the other. -/
inductive ServesAll : StoreMap → List Exchange → StoreMap → Prop
  | nil (m : StoreMap) : ServesAll m [] m
  | cons {m m' m'' : StoreMap} {e : Exchange} {history : List Exchange}
      (hfirst : m.Serves e.request e.answer m') (hrest : ServesAll m' history m'') :
      ServesAll m (e :: history) m''

/-! ## Single requests -/

theorem tree?_insert (m : StoreMap) (k k' : StoreKey) (t : StoredTree) :
    (m.insert k' t).tree? k = if k = k' then some t.tree else m.tree? k := by
  unfold tree? StoreMap.insert
  split
  · rename_i hkey
    rw [hkey, Finmap.lookup_insert]
    rfl
  · rename_i hkey
    rw [Finmap.lookup_insert_of_ne _ hkey]

/-- After an exchange a key has the tree that it stored, or the one from before if the exchange
leaves the key. -/
theorem Serves.tree?_eq_some_iff (h : m.Serves request answer m') (k : StoreKey)
    (tree : SourceTree) :
    m'.tree? k = some tree ↔
      Exchange.stored? ⟨request, answer⟩ = some (k, tree) ∨
        Exchange.Leaves k ⟨request, answer⟩ ∧ m.tree? k = some tree := by
  have hinsert : ∀ (k' : StoreKey) (t : StoredTree), (m.insert k' t).tree? k = some tree ↔
      some (k', t.tree) = some (k, tree) ∨
        (∀ tree', some (k', t.tree) ≠ some (k, tree')) ∧ m.tree? k = some tree := by
    intro k' t
    rw [tree?_insert]
    by_cases hkey : k = k'
    · simp [hkey]
    · simp [hkey, Ne.symm hkey]
  have hsame : ∀ e : Exchange, e.stored? = none → ¬ e.Drops k →
      (m.tree? k = some tree ↔
        e.stored? = some (k, tree) ∨ e.Leaves k ∧ m.tree? k = some tree) := by
    intro e hstored hdrops
    simp [Exchange.Leaves, hstored, hdrops]
  cases h with
  | put projectId tree' =>
      rw [hinsert]
      simp [Exchange.stored?, Exchange.Leaves, Exchange.Drops]
  | @miss grammar budget projectId f tree' hstale hread =>
      have hmiss := hinsert (projectId, f.path)
        ⟨tree', Digest.sha256Hex f.text, tree'.language⟩
      simpa [Exchange.stored?, Exchange.Leaves, Exchange.Drops, tree?] using hmiss
  | @invalidate projectId path trees htrees =>
      unfold tree?
      rw [htrees]
      by_cases hdropped : Addressed projectId path k
      · simp [Exchange.stored?, Exchange.Leaves, Exchange.Drops, hdropped]
      · simp [Exchange.stored?, Exchange.Leaves, Exchange.Drops, hdropped]
  | hit => exact hsame _ rfl id
  | unreadable => exact hsame _ rfl id
  | get => exact hsame _ rfl id
  | paths => exact hsame _ rfl id
  | stats => exact hsame _ rfl id

/-- One of the counts grows with each file that is answered with a tree. -/
theorem Serves.hits_add_misses (h : m.Serves request answer m') :
    m'.hits + m'.misses =
      m.hits + m.misses + if Exchange.isReturned ⟨request, answer⟩ then 1 else 0 := by
  cases h with
  | hit => exact Nat.succ_add _ _
  | put | miss | unreadable | get | invalidate | paths | stats => rfl

/-- A request about another project leaves the trees of a project. -/
theorem Serves.lookup_of_ne (h : m.Serves request answer m') {projectId : String}
    (hother : request.projectId? ≠ some projectId) (path : String) :
    m'.trees.lookup (projectId, path) = m.trees.lookup (projectId, path) := by
  have hkey : ∀ {projectId' path' : String}, some projectId' ≠ some projectId →
      (projectId, path) ≠ (projectId', path') := by
    intro projectId' path' hne heq
    exact hne (congrArg some (Prod.mk.inj heq).1.symm)
  cases h with
  | put projectId' tree => exact Finmap.lookup_insert_of_ne _ (hkey hother)
  | miss => exact Finmap.lookup_insert_of_ne _ (hkey hother)
  | @invalidate projectId' path' trees htrees =>
      rw [htrees, if_neg fun haddressed => hother (congrArg some haddressed.1.symm)]
  | hit | unreadable | get | paths | stats => rfl

/-! ## All requests -/

theorem ServesAll.tree?_eq_some_iff (h : m.ServesAll history m') (k : StoreKey)
    (tree : SourceTree) :
    m'.tree? k = some tree ↔
      Exchange.LastStored history k tree ∨
        (∀ x ∈ history, x.Leaves k) ∧ m.tree? k = some tree := by
  induction h with
  | nil m => simp [Exchange.LastStored]
  | @cons m m' m'' e history hfirst hrest ih =>
      rw [ih, hfirst.tree?_eq_some_iff, Exchange.lastStored_cons, List.forall_mem_cons]
      tauto

theorem ServesAll.hits_add_misses (h : m.ServesAll history m') :
    m'.hits + m'.misses = m.hits + m.misses + history.countP Exchange.isReturned := by
  induction h with
  | nil m => rfl
  | @cons m m' m'' e history hfirst hrest ih =>
      have hcount : m'.hits + m'.misses = m.hits + m.misses + if e.isReturned then 1 else 0 :=
        hfirst.hits_add_misses
      rw [ih, hcount, List.countP_cons]
      omega

end StoreMap

namespace TreeStore

variable {s : TreeStore}

theorem Distinct.servesAll (h : s.Distinct) (requests : List StoreRequest) :
    s.toMap.ServesAll (s.serve requests).1 (s.serve requests).2.toMap ∧
      (s.serve requests).2.Distinct := by
  induction requests generalizing s with
  | nil => exact ⟨.nil _, h⟩
  | cons request requests ih =>
      obtain ⟨hrest, hdistinct⟩ := ih (h.answer request)
      exact ⟨.cons (h.serves request) hrest, hdistinct⟩

theorem toMap_empty : empty.toMap = .empty := rfl

/-- A request about another project leaves what a project has. -/
theorem Distinct.paths_answer (h : s.Distinct) {request : StoreRequest} {projectId : String}
    (hother : request.projectId? ≠ some projectId) :
    (s.answer request).2.paths projectId = s.paths projectId := by
  apply List.Pairwise.eq_of_mem_iff ((h.answer request).pairwise_paths projectId)
    (h.pairwise_paths projectId)
  intro path
  rw [mem_paths_iff, mem_paths_iff, ← Finmap.lookup_isSome, ← Finmap.lookup_isSome,
    (h.serves request).lookup_of_ne hother]

theorem Distinct.get?_answer (h : s.Distinct) {request : StoreRequest} {projectId : String}
    (hother : request.projectId? ≠ some projectId) (path : String) :
    (s.answer request).2.get? projectId path = s.get? projectId path := by
  rw [get?_eq_tree?, get?_eq_tree?, StoreMap.tree?, (h.serves request).lookup_of_ne hother]
  rfl

/-- After a history a store that was empty at first is a finite map. -/
structure ActsAsMap (history : List Exchange) (s : TreeStore) : Prop where
  servesAll : StoreMap.empty.ServesAll history s.toMap
  get?_eq_some_iff : ∀ projectId path tree, s.get? projectId path = some tree ↔
    Exchange.LastStored history (projectId, path) tree
  hits_add_misses : s.hits + s.misses = history.countP Exchange.isReturned
  get?_answer : ∀ (request : StoreRequest) projectId, request.projectId? ≠ some projectId →
    ∀ path, (s.answer request).2.get? projectId path = s.get? projectId path
  paths_answer : ∀ (request : StoreRequest) projectId, request.projectId? ≠ some projectId →
    (s.answer request).2.paths projectId = s.paths projectId

/-- Whatever a fresh store is asked, it is the finite map of the trees that were stored last, and
answers as this map does. -/
theorem actsAsMap_serve (requests : List StoreRequest) :
    ActsAsMap (empty.serve requests).1 (empty.serve requests).2 := by
  obtain ⟨hserves, hdistinct⟩ := distinct_empty.servesAll requests
  rw [toMap_empty] at hserves
  exact {
    servesAll := hserves
    get?_eq_some_iff := by
      intro projectId path tree
      have hnone : StoreMap.empty.tree? (projectId, path) = none := rfl
      rw [get?_eq_tree?, hserves.tree?_eq_some_iff, hnone]
      simp
    hits_add_misses := hserves.hits_add_misses.trans (Nat.zero_add _)
    get?_answer := fun _ _ hother => hdistinct.get?_answer hother
    paths_answer := fun _ _ hother => hdistinct.paths_answer hother }

end TreeStore

end CodeHealth
