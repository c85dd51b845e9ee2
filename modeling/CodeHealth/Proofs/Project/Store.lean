import CodeHealth.Project.Store
import CodeHealth.Proofs.Tree.Parse

/-!
# Stored trees

What holds of the stored trees and of each tree that is read for a file holds of the trees that a
store gives.
-/

namespace CodeHealth

namespace TreeStore

variable {P : String → SourceTree → Prop} {s s' : TreeStore} {projectId path : String}

/-- Every stored tree has a property under its path. -/
def All (P : String → SourceTree → Prop) (s : TreeStore) : Prop :=
  ∀ e ∈ s.entries, P e.path e.tree

theorem all_empty : empty.All P := fun _ he => nomatch he

theorem All.insert (h : s.All P) {e : StoreEntry} (he : P e.path e.tree) :
    (s.insert e).All P := by
  intro d hd
  unfold TreeStore.insert at hd
  split at hd
  · obtain ⟨old, hold, rfl⟩ := List.mem_map.mp hd
    split
    · exact he
    · exact h old hold
  · rcases List.mem_append.mp hd with hd | hd
    · exact h d hd
    · rw [List.mem_singleton.mp hd]
      exact he

theorem All.of_entry? (h : s.All P) {e : StoreEntry} (he : s.entry? projectId path = some e) :
    P path e.tree := by
  have hkey := List.find?_some he
  simp only [hasKey, Bool.and_eq_true, beq_iff_eq] at hkey
  rw [← hkey.2]
  exact h e (List.mem_of_find?_eq_some he)

theorem All.of_get? (h : s.All P) {tree : SourceTree}
    (htree : s.get? projectId path = some tree) : P path tree := by
  obtain ⟨e, he, rfl⟩ := Option.map_eq_some_iff.mp htree
  exact h.of_entry? he

/-- The tree found for a file is a stored one or the one read for it. -/
theorem All.of_getOrParse (h : s.All P) {grammar : Grammar} {budget : Int} {f : SourceFile}
    (hparse : ∀ tree, parseAs grammar budget f.text f.language f.path = .ok tree → P f.path tree)
    {found : Found} (hfound : s.getOrParse grammar budget projectId f = .ok (found, s')) :
    P f.path found.tree ∧ s'.All P := by
  unfold getOrParse at hfound
  split at hfound
  · rename_i e he
    obtain ⟨rfl, rfl⟩ := Prod.mk.inj (Except.ok.inj hfound)
    obtain ⟨hentry, -⟩ := Option.filter_eq_some_iff.mp he
    exact ⟨h.of_entry? hentry, h⟩
  · cases htree : parseAs grammar budget f.text f.language f.path with
    | error e =>
        rw [htree] at hfound
        exact nomatch hfound
    | ok tree =>
        rw [htree] at hfound
        obtain ⟨rfl, rfl⟩ := Prod.mk.inj (Except.ok.inj hfound)
        exact ⟨hparse tree htree, h.insert (hparse tree htree)⟩

/-! ## Looking up what was stored -/

theorem hasKey_iff {projectId path : String} {e : StoreEntry} :
    hasKey projectId path e = true ↔ e.projectId = projectId ∧ e.path = path := by
  simp [hasKey]

theorem entry?_insert (s : TreeStore) (e : StoreEntry) (projectId path : String) :
    TreeStore.entry? (s.insert e) projectId path =
      if hasKey projectId path e = true then some e else s.entry? projectId path := by
  have hreplaced : ∀ old, hasKey projectId path
      (if hasKey e.projectId e.path old = true then e else old) = hasKey projectId path old := by
    intro old
    split
    · rename_i hold
      obtain ⟨hproject, hpath⟩ := hasKey_iff.mp hold
      simp [hasKey, hproject, hpath]
    · rfl
  unfold insert entry?
  by_cases hkey : hasKey projectId path e = true
  · obtain ⟨rfl, rfl⟩ := hasKey_iff.mp hkey
    rw [if_pos hkey]
    split
    · rename_i hstored
      rw [List.find?_map]
      simp only [Function.comp_def, hreplaced]
      cases hfind : s.entries.find? (hasKey e.projectId e.path) with
      | none =>
          obtain ⟨old, hold, holdkey⟩ := List.any_eq_true.mp hstored
          exact absurd holdkey (List.find?_eq_none.mp hfind old hold)
      | some old => rw [Option.map_some, if_pos (List.find?_some hfind)]
    · rename_i hnew
      have hnone : s.entries.find? (hasKey e.projectId e.path) = none := by
        simpa using hnew
      rw [List.find?_append, hnone, Option.none_or, List.find?_singleton, if_pos hkey]
  · rw [if_neg hkey]
    split
    · rw [List.find?_map]
      simp only [Function.comp_def, hreplaced]
      cases hfind : s.entries.find? (hasKey projectId path) with
      | none => rfl
      | some old =>
          rw [Option.map_some, if_neg]
          obtain ⟨rfl, rfl⟩ := hasKey_iff.mp (List.find?_some hfind)
          exact fun hold => hkey (hasKey_iff.mpr
            ⟨(hasKey_iff.mp hold).1.symm, (hasKey_iff.mp hold).2.symm⟩)
    · rw [List.find?_append, List.find?_singleton, if_neg hkey, Option.or_none]

theorem entry?_insert_self (s : TreeStore) (e : StoreEntry) :
    TreeStore.entry? (s.insert e) e.projectId e.path = some e := by
  rw [entry?_insert, if_pos (hasKey_iff.mpr ⟨rfl, rfl⟩)]

end TreeStore

end CodeHealth
