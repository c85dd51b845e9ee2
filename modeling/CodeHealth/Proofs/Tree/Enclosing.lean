import CodeHealth.Proofs.Tree.Spot
import Mathlib.Data.List.Infix
import Mathlib.Data.List.Induction

/-!
# Nodes above a place

Subtrees by their places, and the innermost node above a place that satisfies a test. All nodes that
a walk reaches without entering such a node have the same one above them.
-/

namespace CodeHealth.Tree

variable {α β σ : Type} {root : Tree α} {u v c : Tree (Spot α)} {path : List Nat}
  {test : α → Bool}

/-! ## Subtrees by their places -/

/-- The subtree at a place. -/
def at? (t : Tree α) : List Nat → Option (Tree α)
  | [] => some t
  | i :: path => t.children[i]?.bind fun c => c.at? path

@[simp] theorem at?_nil (t : Tree α) : t.at? [] = some t := rfl

theorem at?_cons (t : Tree α) (i : Nat) (path : List Nat) :
    t.at? (i :: path) = t.children[i]?.bind fun c => c.at? path := rfl

theorem at?_append (t : Tree α) (path rest : List Nat) :
    t.at? (path ++ rest) = (t.at? path).bind fun u => u.at? rest := by
  induction path generalizing t with
  | nil => rfl
  | cons i path ih =>
      rw [List.cons_append, at?_cons, at?_cons]
      cases t.children[i]? with
      | none => rfl
      | some c => exact ih c

theorem at?_concat (t : Tree α) (path : List Nat) (i : Nat) :
    t.at? (path ++ [i]) = (t.at? path).bind fun u => u.children[i]? := by
  rw [at?_append]
  simp [at?_cons]

theorem mem_subtrees_of_at? {t u : Tree α} (h : t.at? path = some u) : u ∈ t.subtrees := by
  induction path generalizing t with
  | nil =>
      obtain rfl := Option.some.inj h
      exact self_mem_subtrees _
  | cons i path ih =>
      obtain ⟨c, hc, hu⟩ := Option.bind_eq_some_iff.mp h
      exact subtrees_trans (ih hu) (child_mem_subtrees (List.mem_of_getElem? hc))

/-- The spot of a subtree of a tree. -/
structure IsSpotOf (root : Tree α) (u : Tree (Spot α)) : Prop where
  eq_spots : u = u.label.tree.spots u.label.path
  at?_path : root.at? u.label.path = some u.label.tree

theorem isSpotOf_spots {t : Tree α} (h : root.at? path = some t) :
    IsSpotOf root (t.spots path) where
  eq_spots := by rw [label_spots]
  at?_path := by rw [label_spots, h]

theorem map_tree_spotsAll (path : List Nat) (index : Nat) (ts : List (Tree α)) :
    (spotsAll path index ts).map (·.label.tree) = ts := by
  induction ts generalizing index with
  | nil => rfl
  | cons t ts ih =>
      rw [spotsAll, List.map_cons, ih, label_spots]

theorem IsSpotOf.map_tree_children (h : IsSpotOf root u) :
    u.children.map (·.label.tree) = u.label.tree.children := by
  rw [h.eq_spots, children_spots, map_tree_spotsAll, label_spots]

theorem getElem?_spotsAll (path : List Nat) (index i : Nat) (ts : List (Tree α)) :
    (spotsAll path index ts)[i]? = ts[i]?.map fun t => t.spots (path ++ [index + i]) := by
  induction ts generalizing index i with
  | nil => rfl
  | cons t ts ih =>
      rw [spotsAll]
      cases i with
      | zero => rfl
      | succ i => rw [List.getElem?_cons_succ, List.getElem?_cons_succ, ih, Nat.add_right_comm,
          Nat.add_assoc]

/-- The children of a spot are spots one index further down. -/
theorem IsSpotOf.child (h : IsSpotOf root u) (hc : c ∈ u.children) :
    IsSpotOf root c ∧ ∃ i, c.label.path = u.label.path ++ [i] := by
  obtain ⟨i, hi⟩ := List.mem_iff_getElem?.mp hc
  rw [h.eq_spots, children_spots, getElem?_spotsAll, Nat.zero_add] at hi
  obtain ⟨t, ht, rfl⟩ := Option.map_eq_some_iff.mp hi
  rw [label_spots]
  exact ⟨isSpotOf_spots (by rw [at?_concat, h.at?_path, Option.bind_some, ht]), i, rfl⟩

theorem IsSpotOf.of_mem_subtrees (h : IsSpotOf root u) (hv : v ∈ u.subtrees) :
    IsSpotOf root v := by
  induction u with
  | node s us ih =>
      rcases mem_subtrees_node.mp hv with rfl | ⟨c, hc, hv⟩
      · exact h
      · exact ih c hc (h.child hc).1 hv

/-! ## Walks -/

/-- What holds at the root and is handed on to the children that are entered holds wherever a value
is found. -/
theorem exists_found_of_mem_collect {step : σ → Tree α → List β × Option σ}
    {Inv : σ → Tree α → Prop}
    (hstep : ∀ s t below, Inv s t → (step s t).2 = some below → ∀ c ∈ t.children, Inv below c)
    {s : σ} {t : Tree α} {b : β} (ht : Inv s t) (hb : b ∈ t.collect step s) :
    ∃ s' u, Inv s' u ∧ b ∈ (step s' u).1 := by
  induction t generalizing s with
  | node a cs ih =>
      rcases mem_collect_node.mp hb with hb | ⟨below, hbelow, c, hc, hb⟩
      · exact ⟨s, _, ht, hb⟩
      · exact ih c hc (hstep s _ below ht hbelow c hc) hb

/-- A walk that enters all nodes it reaches reaches their children. -/
theorem mem_reach_of_mem_children {skip : α → Bool} {r t d : Tree α}
    (ht : t ∈ r.reach skip fun _ => false) (hd : d ∈ t.children) (hskip : skip d.label = false) :
    d ∈ r.reach skip fun _ => false := by
  induction r with
  | node a cs ih =>
      rw [reach] at ht ⊢
      split at ht
      · exact absurd ht List.not_mem_nil
      · rename_i hopen
        rw [if_neg hopen, reachAll_eq_flatMap]
        simp only [Bool.false_eq_true, if_false, reachAll_eq_flatMap] at ht ⊢
        apply List.mem_cons_of_mem
        rcases List.mem_cons.mp ht with rfl | ht
        · refine List.mem_flatMap.mpr ⟨d, hd, ?_⟩
          rw [reach_of_not_skip hskip]
          exact List.mem_cons_self
        · obtain ⟨c, hc, ht⟩ := List.mem_flatMap.mp ht
          exact List.mem_flatMap.mpr ⟨c, hc, ih c hc ht⟩

/-! ## The innermost node above a place -/

/-- The place of the innermost node above a place that satisfies a test. -/
def nearest? (root : Tree α) (test : α → Bool) (path : List Nat) : Option (List Nat) :=
  (path.inits.dropLast.filter fun above =>
    (root.at? above).any fun t => test t.label).getLast?

theorem nearest?_nil (root : Tree α) (test : α → Bool) : root.nearest? test [] = none := rfl

theorem inits_concat (path : List Nat) (i : Nat) :
    (path ++ [i]).inits = path.inits ++ [path ++ [i]] := by
  rw [List.inits_append]
  rfl

theorem dropLast_inits_concat (path : List Nat) (i : Nat) :
    (path ++ [i]).inits.dropLast = path.inits.dropLast ++ [path] := by
  rw [inits_concat, List.dropLast_concat]
  induction path using List.reverseRecOn with
  | nil => rfl
  | append_singleton path j _ => rw [inits_concat, List.dropLast_concat]

theorem nearest?_concat (root : Tree α) (test : α → Bool) (path : List Nat) (i : Nat) :
    root.nearest? test (path ++ [i]) =
      if (root.at? path).any fun t => test t.label then some path
      else root.nearest? test path := by
  unfold nearest?
  rw [dropLast_inits_concat, List.filter_append, List.filter_singleton, Bool.cond_eq_ite]
  split
  · rw [List.getLast?_concat]
  · rw [List.append_nil]

/-- Above a place in a subtree the innermost node is the one in the subtree, if there is one, and
else that above the subtree. -/
theorem nearest?_append {t : Tree α} (h : root.at? path = some t) (rest : List Nat) :
    root.nearest? test (path ++ rest) =
      ((t.nearest? test rest).map (path ++ ·)).or (root.nearest? test path) := by
  induction rest using List.reverseRecOn with
  | nil =>
      rw [List.append_nil, nearest?_nil]
      rfl
  | append_singleton rest i ih =>
      rw [← List.append_assoc, nearest?_concat, nearest?_concat, at?_append, h, Option.bind_some]
      split
      · rfl
      · exact ih

theorem nearest?_child (h : IsSpotOf root u) (hc : c ∈ u.children) :
    root.nearest? test c.label.path =
      if test u.label.tree.label then some u.label.path
      else root.nearest? test u.label.path := by
  obtain ⟨-, i, hpath⟩ := h.child hc
  rw [hpath, nearest?_concat, h.at?_path, Option.any_some]

/-- The innermost node satisfies the test and stands above the place. -/
theorem of_nearest?_eq_some {above : List Nat} (h : root.nearest? test path = some above) :
    (∃ t, root.at? above = some t ∧ test t.label = true) ∧
      ∃ rest, rest ≠ [] ∧ path = above ++ rest := by
  induction path using List.reverseRecOn with
  | nil => exact nomatch h
  | append_singleton path i ih =>
      rw [nearest?_concat] at h
      split at h
      · rename_i htest
        obtain rfl := Option.some.inj h
        exact ⟨(Option.any_eq_true _ _).mp htest, [i], List.cons_ne_nil _ _, rfl⟩
      · obtain ⟨htest, rest, -, rfl⟩ := ih h
        exact ⟨htest, rest ++ [i], by simp, List.append_assoc _ _ _⟩

/-- Below a root that satisfies the test there is such a node above every place. -/
theorem isSome_nearest?_of_root (htest : test root.label = true) (hpath : path ≠ []) :
    (root.nearest? test path).isSome = true := by
  induction path using List.reverseRecOn with
  | nil => exact absurd rfl hpath
  | append_singleton path i ih =>
      rw [nearest?_concat]
      split
      · rfl
      · rename_i hbelow
        apply ih
        rintro rfl
        exact hbelow htest

/-- A walk that enters no node with the test reaches only nodes that have the same one above them as
the node where it starts. -/
theorem nearest?_of_mem_reach {skip : Spot α → Bool} (h : IsSpotOf root u)
    (hv : v ∈ u.reach skip fun s => test s.tree.label) :
    root.nearest? test v.label.path = root.nearest? test u.label.path := by
  induction u with
  | node s us ih =>
      rw [reach] at hv
      split at hv
      · exact absurd hv List.not_mem_nil
      · rcases List.mem_cons.mp hv with rfl | hv
        · rfl
        · split at hv
          · exact absurd hv List.not_mem_nil
          · rename_i htest
            rw [reachAll_eq_flatMap] at hv
            obtain ⟨c, hc, hv⟩ := List.mem_flatMap.mp hv
            rw [ih c hc (h.child hc).1 hv, nearest?_child h hc]
            exact if_neg htest

end CodeHealth.Tree
