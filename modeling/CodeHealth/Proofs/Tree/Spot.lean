import CodeHealth.Proofs.Tree.Subtree
import Mathlib.Data.List.Nodup

/-!
# Places in a tree

A walk over the spots of a tree meets the same subtrees as a walk over the tree itself, each at a
place of its own.
-/

namespace CodeHealth.Tree

variable {α : Type}

/-! ## One node -/

theorem reach_of_skip {skip stop : α → Bool} {t : Tree α} (h : skip t.label = true) :
    t.reach skip stop = [] := by
  cases t
  rw [reach]
  exact if_pos h

theorem reach_of_not_skip {skip stop : α → Bool} {t : Tree α} (h : skip t.label = false) :
    t.reach skip stop =
      t :: if stop t.label then [] else reachAll skip stop t.children := by
  cases t
  rw [reach]
  exact if_neg (Bool.eq_false_iff.mp h)

theorem collect_of_entered {β σ : Type} {step : σ → Tree α → List β × Option σ} {s below : σ}
    {t : Tree α} (h : (step s t).2 = some below) :
    t.collect step s = (step s t).1 ++ collectAll step below t.children := by
  cases t
  rw [collect, h]
  rfl

theorem collect_of_left {β σ : Type} {step : σ → Tree α → List β × Option σ} {s : σ} {t : Tree α}
    (h : (step s t).2 = none) : t.collect step s = (step s t).1 := by
  cases t
  rw [collect, h]
  exact List.append_nil _

/-! ## Walks over spots -/

@[simp] theorem label_spots (path : List Nat) (t : Tree α) : (t.spots path).label = ⟨path, t⟩ := by
  cases t
  rfl

theorem children_spots (path : List Nat) (t : Tree α) :
    (t.spots path).children = spotsAll path 0 t.children := by
  cases t
  rfl

mutual

theorem map_tree_reach_spots (skip stop : α → Bool) : ∀ (path : List Nat) (t : Tree α),
    ((t.spots path).reach (fun s => skip s.tree.label) fun s => stop s.tree.label).map
      (·.label.tree) = t.reach skip stop
  | path, .node a cs => by
      have hbelow := map_tree_reachAll_spotsAll skip stop path 0 cs
      by_cases hskip : skip a = true
      · rw [reach_of_skip (t := .node a cs) hskip,
          reach_of_skip (t := (node a cs).spots path) hskip]
        rfl
      · rw [Bool.not_eq_true] at hskip
        rw [reach_of_not_skip (t := .node a cs) hskip,
          reach_of_not_skip (t := (node a cs).spots path) hskip]
        apply congrArg (node a cs :: ·)
        change List.map _ (if stop a = true then [] else _) = if stop a = true then [] else _
        split
        · rfl
        · exact hbelow

theorem map_tree_reachAll_spotsAll (skip stop : α → Bool) :
    ∀ (path : List Nat) (index : Nat) (ts : List (Tree α)),
      (reachAll (fun s => skip s.tree.label) (fun s => stop s.tree.label)
        (spotsAll path index ts)).map (·.label.tree) = reachAll skip stop ts
  | _, _, [] => rfl
  | path, index, t :: ts => by
      rw [spotsAll, reachAll, reachAll, List.map_append,
        map_tree_reach_spots skip stop (path ++ [index]) t,
        map_tree_reachAll_spotsAll skip stop path (index + 1) ts]

end

theorem reach_sublist_subtrees (skip stop : α → Bool) (t : Tree α) :
    (t.reach skip stop).Sublist t.subtrees := by
  induction t with
  | node a cs ih =>
      unfold subtrees
      rw [reach, reach]
      split
      · exact List.nil_sublist _
      · apply List.Sublist.cons_cons
        split
        · exact List.nil_sublist _
        · rw [reachAll_eq_flatMap, reachAll_eq_flatMap]
          clear * - ih
          induction cs with
          | nil => exact List.Sublist.refl _
          | cons c cs ihs =>
              rw [List.flatMap_cons, List.flatMap_cons]
              exact (ih c List.mem_cons_self).append
                (ihs fun d hd => ih d (List.mem_cons_of_mem _ hd))

/-! ## Places -/

theorem subtrees_node (a : α) (cs : List (Tree α)) :
    (node a cs).subtrees = node a cs :: cs.flatMap subtrees := by
  unfold subtrees
  rw [reach, reachAll_eq_flatMap]
  rfl

/-- The places in a tree lie below its own. -/
theorem path_prefix_of_mem_spots {t : Tree α} {path : List Nat} {u : Tree (Spot α)}
    (hu : u ∈ (t.spots path).subtrees) : path <+: u.label.path := by
  induction t generalizing path with
  | node a cs ih =>
      rw [spots] at hu
      rcases mem_subtrees_node.mp hu with rfl | ⟨v, hv, hu⟩
      · exact List.prefix_rfl
      · obtain ⟨i, c, hc, rfl⟩ := mem_spotsAll hv
        exact (List.prefix_append path [i]).trans (ih c hc hu)

/-- The places below the children from an index on go through one of these indices. -/
theorem exists_path_of_mem_spotsAll {path : List Nat} {index : Nat} {ts : List (Tree α)}
    {p : List Nat}
    (hp : p ∈ ((spotsAll path index ts).flatMap subtrees).map (·.label.path)) :
    ∃ i, index ≤ i ∧ path ++ [i] <+: p := by
  induction ts generalizing index with
  | nil => exact absurd hp List.not_mem_nil
  | cons t ts ih =>
      rw [spotsAll, List.flatMap_cons, List.map_append, List.mem_append] at hp
      rcases hp with hp | hp
      · obtain ⟨u, hu, rfl⟩ := List.mem_map.mp hp
        exact ⟨index, Nat.le_refl _, path_prefix_of_mem_spots hu⟩
      · obtain ⟨i, hi, hpre⟩ := ih hp
        exact ⟨i, by omega, hpre⟩

/-- No two subtrees stand at the same place. -/
theorem nodup_paths_spots (path : List Nat) (t : Tree α) :
    ((t.spots path).subtrees.map (·.label.path)).Nodup := by
  induction t generalizing path with
  | node a cs ih =>
      have hchildren : ∀ index, (((spotsAll path index cs).flatMap subtrees).map
          (·.label.path)).Nodup := by
        intro index
        induction cs generalizing index with
        | nil => exact List.nodup_nil
        | cons c cs ihs =>
            rw [spotsAll, List.flatMap_cons, List.map_append, List.nodup_append]
            refine ⟨ih c List.mem_cons_self _,
              ihs (fun d hd => ih d (List.mem_cons_of_mem _ hd)) _, ?_⟩
            -- the places of two children differ in the index after `path`
            rintro p hp q hq rfl
            obtain ⟨u, hu, rfl⟩ := List.mem_map.mp hp
            obtain ⟨i, hi, hpre⟩ := exists_path_of_mem_spotsAll hq
            have hown := path_prefix_of_mem_spots hu
            have heq := List.prefix_of_prefix_length_le hown hpre (by simp)
            have := List.append_cancel_left (heq.eq_of_length (by simp))
            simp only [List.cons.injEq, and_true] at this
            omega
      rw [spots, subtrees_node, List.map_cons, List.nodup_cons]
      refine ⟨fun hmem => ?_, hchildren 0⟩
      obtain ⟨i, -, hpre⟩ := exists_path_of_mem_spotsAll hmem
      have hlength := hpre.length_le
      simp only [label, List.length_append, List.length_singleton] at hlength
      omega

end CodeHealth.Tree
