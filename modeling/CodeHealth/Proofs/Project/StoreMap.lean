import CodeHealth.Project.Exchange
import CodeHealth.Proofs.Project.Transparency
import CodeHealth.Proofs.Sorting
import Mathlib.Data.Finmap
import Mathlib.Data.String.Basic

/-!
# Stores as finite maps

A store is a finite map from projects and paths to trees, each with the digest of its text and its
language, and two counts. Each answer of a store is that of its map.
-/

namespace CodeHealth

/-- A project and a path in it. -/
abbrev StoreKey := String × String

/-- A tree with the digest of its text and its language. -/
structure StoredTree where
  tree : SourceTree
  digest : String
  language : Language

/-- The text and the language of the file are those of the tree. -/
def StoredTree.IsOf (t : StoredTree) (f : SourceFile) : Prop :=
  t.digest = Digest.sha256Hex f.text ∧ f.language = some t.language

/-- Trees by their keys, and how often a tree was found or had to be read. -/
structure StoreMap where
  trees : Finmap fun _ : StoreKey => StoredTree
  hits : Nat
  misses : Nat

/-- A key belongs to the project and to the path, if one is given. -/
def Addressed (projectId : String) (path : Option String) (k : StoreKey) : Prop :=
  k.1 = projectId ∧ ∀ p ∈ path, k.2 = p

instance (projectId : String) (path : Option String) :
    DecidablePred (Addressed projectId path) :=
  fun _ => inferInstanceAs (Decidable (_ ∧ _))

namespace StoreMap

def empty : StoreMap :=
  ⟨∅, 0, 0⟩

/-- The tree of a key. -/
def tree? (m : StoreMap) (k : StoreKey) : Option SourceTree :=
  (m.trees.lookup k).map StoredTree.tree

/-- The map with a tree in place of the one of its key. -/
def insert (m : StoreMap) (k : StoreKey) (t : StoredTree) : StoreMap :=
  { m with trees := m.trees.insert k t }

/-- What a map answers to a request, and the map afterwards. -/
inductive Serves (m : StoreMap) : StoreRequest → StoreAnswer → StoreMap → Prop
  | put (projectId : String) (tree : SourceTree) :
      Serves m (.put projectId tree) .stored
        (m.insert (projectId, tree.path) ⟨tree, Digest.sha256Hex tree.source, tree.language⟩)
  | hit {grammar : Grammar} {budget : Int} {projectId : String} {f : SourceFile} {t : StoredTree}
      (hstored : m.trees.lookup (projectId, f.path) = some t) (hcurrent : t.IsOf f) :
      Serves m (.getOrParse grammar budget projectId f) (.found ⟨t.tree, true⟩)
        { m with hits := m.hits + 1 }
  | miss {grammar : Grammar} {budget : Int} {projectId : String} {f : SourceFile}
      {tree : SourceTree}
      (hstale : ∀ t, m.trees.lookup (projectId, f.path) = some t → ¬ t.IsOf f)
      (hread : parseAs grammar budget f.text f.language f.path = .ok tree) :
      Serves m (.getOrParse grammar budget projectId f) (.found ⟨tree, false⟩)
        { m.insert (projectId, f.path) ⟨tree, Digest.sha256Hex f.text, tree.language⟩ with
          misses := m.misses + 1 }
  | unreadable {grammar : Grammar} {budget : Int} {projectId : String} {f : SourceFile}
      {reason : ParseError}
      (hstale : ∀ t, m.trees.lookup (projectId, f.path) = some t → ¬ t.IsOf f)
      (hread : parseAs grammar budget f.text f.language f.path = .error reason) :
      Serves m (.getOrParse grammar budget projectId f) (.unreadable reason) m
  | get (projectId path : String) :
      Serves m (.get projectId path) (.tree (m.tree? (projectId, path))) m
  | invalidate {projectId : String} {path : Option String}
      {trees : Finmap fun _ : StoreKey => StoredTree}
      (htrees : ∀ k, trees.lookup k =
        if Addressed projectId path k then none else m.trees.lookup k) :
      Serves m (.invalidate projectId path)
        (.dropped (m.trees.keys.filter (Addressed projectId path)).card) { m with trees := trees }
  | paths {projectId : String} {paths : List String}
      (hmem : ∀ path, path ∈ paths ↔ (projectId, path) ∈ m.trees)
      (hsorted : paths.Pairwise (· < ·)) :
      Serves m (.paths projectId) (.paths paths) m
  | stats : Serves m .stats (.stats m.hits m.misses m.trees.keys.card) m

end StoreMap

namespace TreeStore

variable {s : TreeStore}

def StoreEntry.key (e : StoreEntry) : StoreKey :=
  (e.projectId, e.path)

def StoreEntry.stored (e : StoreEntry) : StoredTree :=
  ⟨e.tree, e.digest, e.language⟩

/-- The map that a store is. -/
def toMap (s : TreeStore) : StoreMap :=
  ⟨(s.entries.map fun e => (⟨StoreEntry.key e, StoreEntry.stored e⟩ : Σ _ : StoreKey,
    StoredTree)).toFinmap, s.hits, s.misses⟩

/-- No key has two entries. -/
def Distinct (s : TreeStore) : Prop :=
  (s.entries.map StoreEntry.key).Nodup

theorem hasKey_eq_true_iff {k : StoreKey} {e : StoreEntry} :
    hasKey k.1 k.2 e = true ↔ StoreEntry.key e = k := by
  rw [hasKey_iff, StoreEntry.key, Prod.ext_iff]

theorem matchesKey_iff {projectId : String} {path : Option String} {e : StoreEntry} :
    matchesKey projectId path e = true ↔ Addressed projectId path (StoreEntry.key e) := by
  cases path <;> simp [matchesKey, Addressed, StoreEntry.key]

theorem isCurrent_iff {e : StoreEntry} {f : SourceFile} :
    StoreEntry.isCurrent e f = true ↔ (StoreEntry.stored e).IsOf f := by
  rw [StoreEntry.isCurrent, Bool.and_eq_true, beq_iff_eq, beq_iff_eq]
  exact and_congr_right fun _ => eq_comm

/-! ## Lookups -/

theorem lookup_toMap (s : TreeStore) (k : StoreKey) :
    s.toMap.trees.lookup k = (s.entry? k.1 k.2).map StoreEntry.stored := by
  unfold toMap entry?
  rw [Finmap.dlookup_list_toFinmap]
  induction s.entries with
  | nil => rfl
  | cons e es ih =>
      rw [List.map_cons]
      by_cases hkey : StoreEntry.key e = k
      · rw [List.find?_cons_of_pos (hasKey_eq_true_iff.mpr hkey), ← hkey]
        exact List.dlookup_cons_eq _ _ _
      · rw [List.find?_cons_of_neg fun h => hkey (hasKey_eq_true_iff.mp h),
          List.dlookup_cons_ne _ _ (Ne.symm hkey), ih]

theorem get?_eq_tree? (s : TreeStore) (projectId path : String) :
    s.get? projectId path = s.toMap.tree? (projectId, path) := by
  rw [StoreMap.tree?, lookup_toMap, Option.map_map]
  rfl

theorem mem_toMap_iff {k : StoreKey} :
    k ∈ s.toMap.trees ↔ ∃ e ∈ s.entries, StoreEntry.key e = k := by
  rw [← Finmap.lookup_isSome, lookup_toMap, Option.isSome_map, entry?, List.find?_isSome]
  simp only [hasKey_eq_true_iff]

theorem keys_toMap (s : TreeStore) :
    s.toMap.trees.keys = (s.entries.map StoreEntry.key).toFinset := by
  ext k
  rw [Finmap.mem_keys, mem_toMap_iff, List.mem_toFinset, List.mem_map]

theorem Distinct.card_keys (h : s.Distinct) : s.toMap.trees.keys.card = s.entries.length := by
  rw [keys_toMap, List.toFinset_card_of_nodup h, List.length_map]

theorem Distinct.card_addressed (h : s.Distinct) (projectId : String) (path : Option String) :
    (s.toMap.trees.keys.filter (Addressed projectId path)).card =
      s.entries.countP (matchesKey projectId path) := by
  have hkeys : ((s.entries.map StoreEntry.key).filter (Addressed projectId path ·)).Nodup :=
    h.filter _
  calc
    _ = ((s.entries.map StoreEntry.key).filter (Addressed projectId path ·)).toFinset.card := by
      rw [keys_toMap, List.toFinset_filter]
      simp
    _ = (s.entries.map StoreEntry.key).countP (Addressed projectId path ·) := by
      rw [List.toFinset_card_of_nodup hkeys, List.countP_eq_length_filter]
    _ = s.entries.countP (matchesKey projectId path) := by
      rw [List.countP_map]
      apply List.countP_congr
      intro e _
      simp [matchesKey_iff]

theorem counts_insert (s : TreeStore) (e : StoreEntry) :
    (TreeStore.insert s e).hits = s.hits ∧ (TreeStore.insert s e).misses = s.misses := by
  unfold TreeStore.insert
  split <;> exact ⟨rfl, rfl⟩

theorem toMap_insert (s : TreeStore) (e : StoreEntry) :
    (TreeStore.insert s e).toMap = s.toMap.insert (StoreEntry.key e) (StoreEntry.stored e) := by
  have htrees : (TreeStore.insert s e).toMap.trees =
      s.toMap.trees.insert (StoreEntry.key e) (StoreEntry.stored e) := by
    apply Finmap.ext_lookup
    intro k
    rw [lookup_toMap, entry?_insert]
    by_cases hkey : StoreEntry.key e = k
    · rw [if_pos (hasKey_eq_true_iff.mpr hkey), ← hkey, Finmap.lookup_insert]
      rfl
    · rw [if_neg fun h => hkey (hasKey_eq_true_iff.mp h),
        Finmap.lookup_insert_of_ne _ (Ne.symm hkey), lookup_toMap]
  obtain ⟨hhits, hmisses⟩ := counts_insert s e
  calc
    (TreeStore.insert s e).toMap = ⟨(TreeStore.insert s e).toMap.trees,
      (TreeStore.insert s e).hits, (TreeStore.insert s e).misses⟩ := rfl
    _ = s.toMap.insert (StoreEntry.key e) (StoreEntry.stored e) := by
      rw [htrees, hhits, hmisses]
      rfl

theorem lookup_invalidate (s : TreeStore) (projectId : String) (path : Option String)
    (k : StoreKey) :
    (s.invalidate projectId path).2.toMap.trees.lookup k =
      if Addressed projectId path k then none else s.toMap.trees.lookup k := by
  have hiff : (projectId = k.1 ∧ path.all (k.2 == ·)) ↔ Addressed projectId path k := by
    cases path <;> simp [Addressed, eq_comm (a := projectId)]
  rw [lookup_toMap, entry?_invalidate, lookup_toMap]
  simp only [hiff]
  split <;> rfl

/-! ## Distinct keys -/

theorem distinct_empty : empty.Distinct :=
  List.nodup_nil

theorem Distinct.insert (h : s.Distinct) (e : StoreEntry) :
    Distinct (TreeStore.insert s e) := by
  unfold Distinct TreeStore.insert
  split
  · have hsame : (s.entries.map fun old =>
        if hasKey e.projectId e.path old = true then e else old).map StoreEntry.key =
          s.entries.map StoreEntry.key := by
      rw [List.map_map]
      apply List.map_congr_left
      intro old _
      rw [Function.comp_apply]
      split
      · rename_i hkey
        exact (hasKey_eq_true_iff (k := StoreEntry.key e).mp hkey).symm
      · rfl
    exact hsame ▸ h
  · rename_i hnew
    rw [List.map_append, List.map_singleton]
    refine List.Nodup.append h (List.nodup_singleton _) ?_
    rw [List.disjoint_singleton]
    intro hmem
    obtain ⟨old, hold, hkey⟩ := List.mem_map.mp hmem
    exact hnew (List.any_eq_true.mpr ⟨old, hold, hasKey_eq_true_iff.mpr hkey⟩)

theorem Distinct.invalidate (h : s.Distinct) (projectId : String) (path : Option String) :
    (s.invalidate projectId path).2.Distinct :=
  h.sublist (List.filter_sublist.map _)

/-! ## Paths -/

theorem mem_paths_iff {projectId path : String} :
    path ∈ s.paths projectId ↔ (projectId, path) ∈ s.toMap.trees := by
  rw [mem_toMap_iff]
  simp only [paths, Text.sorted, List.mem_mergeSort, List.mem_map, List.mem_filter, beq_iff_eq,
    StoreEntry.key, Prod.mk.injEq, and_assoc]

theorem Distinct.pairwise_paths (h : s.Distinct) (projectId : String) :
    (s.paths projectId).Pairwise (· < ·) := by
  have hsorted : (s.paths projectId).Pairwise fun x y => id x ≤ id y :=
    pairwise_mergeSort_key (fun _ _ => decide_eq_true_iff) _
  have hnodup : (s.paths projectId).Nodup := by
    unfold paths Text.sorted
    rw [(List.mergeSort_perm _ _).nodup_iff, List.Nodup, List.pairwise_map]
    have hkeys : (s.entries.filter fun e => e.projectId == projectId).Pairwise fun a b =>
        StoreEntry.key a ≠ StoreEntry.key b :=
      List.pairwise_map.mp (h.sublist (List.filter_sublist.map StoreEntry.key))
    refine hkeys.imp_of_mem fun ha hb hne hpath => hne (Prod.ext ?_ hpath)
    have hproject := (List.mem_filter.mp ha).2
    have hproject' := (List.mem_filter.mp hb).2
    rw [beq_iff_eq] at hproject hproject'
    exact hproject.trans hproject'.symm
  exact hsorted.imp₂ (fun _ _ hle hne => lt_of_le_of_ne hle hne) hnodup

/-! ## Answers -/

theorem lookup_eq_some_iff {k : StoreKey} {t : StoredTree} :
    s.toMap.trees.lookup k = some t ↔ ∃ e, s.entry? k.1 k.2 = some e ∧ StoreEntry.stored e = t := by
  rw [lookup_toMap, Option.map_eq_some_iff]

theorem getOrParse_of_current {grammar : Grammar} {budget : Int} {projectId : String}
    {f : SourceFile} {e : StoreEntry} (hentry : s.entry? projectId f.path = some e)
    (hcurrent : StoreEntry.isCurrent e f = true) :
    s.getOrParse grammar budget projectId f =
      .ok (⟨e.tree, true⟩, { s with hits := s.hits + 1 }) := by
  unfold getOrParse
  rw [hentry, Option.filter_some, if_pos hcurrent]

theorem getOrParse_of_stale {grammar : Grammar} {budget : Int} {projectId : String}
    {f : SourceFile}
    (hstale : (s.entry? projectId f.path).filter (fun e => StoreEntry.isCurrent e f) = none) :
    s.getOrParse grammar budget projectId f =
      (parseAs grammar budget f.text f.language f.path).map fun tree =>
        (⟨tree, false⟩, { s.insert ⟨projectId, f.path, tree, Digest.sha256Hex f.text,
          tree.language⟩ with misses := s.misses + 1 }) := by
  unfold getOrParse
  rw [hstale]

/-- The answer for a file is that of the map. -/
theorem serves_getOrParse (s : TreeStore) (grammar : Grammar) (budget : Int) (projectId : String)
    (f : SourceFile) :
    s.toMap.Serves (.getOrParse grammar budget projectId f)
      (s.answer (.getOrParse grammar budget projectId f)).1
      (s.answer (.getOrParse grammar budget projectId f)).2.toMap := by
  cases hfound : (s.entry? projectId f.path).filter fun e => StoreEntry.isCurrent e f with
  | some e =>
      obtain ⟨hentry, hcurrent⟩ := Option.filter_eq_some_iff.mp hfound
      simp only [answer, getOrParse_of_current hentry hcurrent]
      exact .hit (lookup_eq_some_iff.mpr ⟨e, hentry, rfl⟩) (isCurrent_iff.mp hcurrent)
  | none =>
      have hstale : ∀ t, s.toMap.trees.lookup (projectId, f.path) = some t → ¬ t.IsOf f := by
        intro t ht hcurrent
        obtain ⟨e, hentry, rfl⟩ := lookup_eq_some_iff.mp ht
        rw [Option.filter_eq_none_iff] at hfound
        exact hfound e hentry (isCurrent_iff.mpr hcurrent)
      cases hread : parseAs grammar budget f.text f.language f.path with
      | error reason =>
          simp only [answer, getOrParse_of_stale hfound, hread]
          exact .unreadable hstale hread
      | ok tree =>
          simp only [answer, getOrParse_of_stale hfound, hread]
          have hmiss := StoreMap.Serves.miss hstale hread
          have hinsert := toMap_insert s
            ⟨projectId, f.path, tree, Digest.sha256Hex f.text, tree.language⟩
          simp only [StoreEntry.key, StoreEntry.stored] at hinsert
          rw [← hinsert] at hmiss
          exact hmiss

theorem Distinct.serves_invalidate (h : s.Distinct) (projectId : String) (path : Option String) :
    s.toMap.Serves (.invalidate projectId path) (.dropped (s.invalidate projectId path).1)
      (s.invalidate projectId path).2.toMap := by
  have hcount : (s.invalidate projectId path).1 =
      (s.toMap.trees.keys.filter (Addressed projectId path)).card :=
    (h.card_addressed projectId path).symm
  rw [hcount]
  exact .invalidate (lookup_invalidate s projectId path)

/-- Each answer of a store is that of its map. -/
theorem Distinct.serves (h : s.Distinct) (request : StoreRequest) :
    s.toMap.Serves request (s.answer request).1 (s.answer request).2.toMap := by
  cases request with
  | put projectId tree =>
      unfold answer put
      dsimp only
      rw [toMap_insert]
      exact .put projectId tree
  | getOrParse grammar budget projectId f => exact serves_getOrParse s grammar budget projectId f
  | get projectId path =>
      unfold answer
      dsimp only
      rw [get?_eq_tree?]
      exact .get projectId path
  | invalidate projectId path => exact h.serves_invalidate projectId path
  | paths projectId => exact .paths (fun _ => mem_paths_iff) (h.pairwise_paths projectId)
  | stats =>
      unfold answer
      dsimp only
      rw [← h.card_keys]
      exact .stats

theorem Distinct.answer (h : s.Distinct) (request : StoreRequest) :
    (s.answer request).2.Distinct := by
  cases request with
  | put projectId tree => exact h.insert _
  | getOrParse grammar budget projectId f =>
      simp only [TreeStore.answer]
      cases hcall : s.getOrParse grammar budget projectId f with
      | error reason => exact h
      | ok result =>
          rcases getOrParse_cases hcall with ⟨-, -, -, -, hsame⟩ | ⟨-, -, hstored⟩
          · exact (congrArg (fun es => (es.map StoreEntry.key).Nodup) hsame).mpr h
          · exact (congrArg (fun es => (es.map StoreEntry.key).Nodup) hstored).mpr (h.insert _)
  | invalidate projectId path => exact h.invalidate projectId path
  | get | paths | stats => exact h

end TreeStore

end CodeHealth
