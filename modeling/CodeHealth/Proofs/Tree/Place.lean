import CodeHealth.Proofs.Tree.Enclosing
import CodeHealth.Proofs.Tree.Listing

/-!
# Values found at places

The places of a tree in pre-order, and what a test says of the node at a place. A walk that hands a
state down finds at each place what its step finds there in the state of that place, where all nodes
above are entered. So a walk is determined by what each single step does.
-/

namespace CodeHealth.Tree

variable {α β σ : Type} {t u : Tree α} {path : List Nat}

/-! ## Places in pre-order -/

/-- The places of the subtrees in pre-order. -/
def places (t : Tree α) : List (List Nat) :=
  (t.listing []).map Spot.path

/-- The places below a node with the given children, the first of which has the given index. -/
def placesBelow (index : Nat) (ts : List (Tree α)) : List (List Nat) :=
  (ts.zipIdx index).flatMap fun c => c.1.places.map (c.2 :: ·)

mutual

theorem map_path_listing (path : List Nat) :
    ∀ t : Tree α, (t.listing path).map Spot.path = t.places.map (path ++ ·)
  | .node a cs => by
      rw [places, listing_node, listing_node, List.map_cons, List.map_cons, List.map_cons,
        map_path_listingAll path 0 cs, map_path_listingAll [] 0 cs, List.map_map, List.append_nil]
      rfl

theorem map_path_listingAll (path : List Nat) : ∀ (index : Nat) (ts : List (Tree α)),
    (listingAll path index ts).map Spot.path = (placesBelow index ts).map (path ++ ·)
  | _, [] => rfl
  | index, t :: ts => by
      rw [listingAll_cons, List.map_append, map_path_listing (path ++ [index]) t,
        map_path_listingAll path (index + 1) ts]
      simp [placesBelow, Function.comp_def]

end

theorem places_node (a : α) (cs : List (Tree α)) :
    (node a cs).places = [] :: placesBelow 0 cs := by
  rw [places, listing_node, List.map_cons, map_path_listingAll]
  simp

theorem mem_placesBelow {cs : List (Tree α)} {p : List Nat} :
    p ∈ placesBelow 0 cs ↔ ∃ i q c, p = i :: q ∧ cs[i]? = some c ∧ q ∈ c.places := by
  unfold placesBelow
  simp only [List.mem_flatMap, List.mem_map, Prod.exists, List.mk_mem_zipIdx_iff_getElem?]
  constructor
  · rintro ⟨c, i, hc, q, hq, rfl⟩
    exact ⟨i, q, c, rfl, hc, hq⟩
  · rintro ⟨i, q, c, rfl, hc, hq⟩
    exact ⟨c, i, hc, q, hq, rfl⟩

/-- The places of a tree are those at which there is a subtree. -/
theorem mem_places_iff : path ∈ t.places ↔ ∃ u, t.at? path = some u := by
  induction t generalizing path with
  | node a cs ih =>
      rw [places_node, List.mem_cons, mem_placesBelow]
      cases path with
      | nil => simp
      | cons i q =>
          simp only [reduceCtorEq, false_or, List.cons.injEq, at?_cons, children]
          constructor
          · rintro ⟨_, _, c, ⟨rfl, rfl⟩, hc, hq⟩
            rw [hc, Option.bind_some]
            exact (ih c (List.mem_of_getElem? hc)).mp hq
          · rintro ⟨u, hu⟩
            obtain ⟨c, hc, hu⟩ := Option.bind_eq_some_iff.mp hu
            exact ⟨i, q, c, ⟨rfl, rfl⟩, hc, (ih c (List.mem_of_getElem? hc)).mpr ⟨u, hu⟩⟩

/-- Each place of a tree is listed once. -/
theorem nodup_places (t : Tree α) : t.places.Nodup := by
  have hpaths := nodup_paths_spots [] t
  rwa [places, listing, List.map_map]

/-- The nodes at the places of a tree are all of its nodes. -/
theorem length_places (t : Tree α) : t.places.length = t.size := by
  rw [places, List.length_map, length_listing]

/-! ## Nodes at places -/

/-- The node above a place. -/
def parentAt? (t : Tree α) (path : List Nat) : Option (Tree α) :=
  if path.isEmpty then none else t.at? path.dropLast

/-- What a test says of the node at a place and the node above it. -/
def holdsAt (t : Tree α) (test : Tree α → Option (Tree α) → Bool) (path : List Nat) : Bool :=
  (t.at? path).any fun u => test u (t.parentAt? path)

variable {test : Tree α → Option (Tree α) → Bool}

theorem parentAt?_concat (t : Tree α) (path : List Nat) (i : Nat) :
    t.parentAt? (path ++ [i]) = t.at? path := by
  simp [parentAt?]

theorem holdsAt_eq (h : t.at? path = some u) : t.holdsAt test path = test u (t.parentAt? path) := by
  rw [holdsAt, h, Option.any_some]

theorem exists_at?_of_concat {i : Nat} (h : t.at? (path ++ [i]) = some u) :
    ∃ p, t.at? path = some p ∧ u ∈ p.children := by
  rw [at?_concat] at h
  obtain ⟨p, hp, hu⟩ := Option.bind_eq_some_iff.mp h
  exact ⟨p, hp, List.mem_of_getElem? hu⟩

/-- The places of the nodes from the root down to a place are those above it and the place. -/
theorem inits_eq_dropLast_concat (path : List Nat) :
    path.inits = path.inits.dropLast ++ [path] := by
  induction path using List.reverseRecOn with
  | nil => rfl
  | append_singleton path i _ => rw [inits_concat, List.dropLast_concat]

theorem all_inits (test : List Nat → Bool) (path : List Nat) :
    path.inits.all test = (path.inits.dropLast.all test && test path) := by
  conv_lhs => rw [inits_eq_dropLast_concat, List.all_append, List.all_cons, List.all_nil,
    Bool.and_true]

theorem dropLast_inits_cons (i : Nat) (path : List Nat) :
    (i :: path).inits.dropLast = [] :: path.inits.dropLast.map (i :: ·) := by
  have hne : path.inits.map (i :: ·) ≠ [] := by
    rw [inits_eq_dropLast_concat]
    simp
  rw [List.inits_cons, List.dropLast_cons_of_ne_nil hne, List.map_dropLast]

theorem inits_tail_cons (i : Nat) (path : List Nat) :
    (i :: path).inits.tail = (i :: path).inits.dropLast.tail ++ [i :: path] := by
  conv_lhs => rw [inits_eq_dropLast_concat, dropLast_inits_cons]
  rw [dropLast_inits_cons]
  rfl

/-- Above a place of a tree there are nodes with children. -/
theorem exists_at?_of_mem_above {above : List Nat} (h : t.at? path = some u)
    (habove : above ∈ path.inits.dropLast) : ∃ v, t.at? above = some v ∧ v.children ≠ [] := by
  induction path using List.reverseRecOn generalizing u with
  | nil => exact absurd habove List.not_mem_nil
  | append_singleton path i ih =>
      obtain ⟨p, hp, hu⟩ := exists_at?_of_concat h
      rw [dropLast_inits_concat, List.mem_append, List.mem_singleton] at habove
      rcases habove with habove | rfl
      · exact ih hp habove
      · exact ⟨p, hp, List.ne_nil_of_mem hu⟩

/-! ## Walks -/

section walk

variable {step : σ → Tree α → List β × Option σ} {s : σ} {state : List Nat → σ}
  {enters : List Nat → Bool}

/-- What a step finds at a place. -/
def foundAt (t : Tree α) (step : σ → Tree α → List β × Option σ) (s : σ) (path : List Nat) :
    List β :=
  (t.at? path).elim [] fun u => (step s u).1

/-- The state of each place is the one that the step above hands down, where it enters the node
there at all. -/
def HandsDown (t : Tree α) (step : σ → Tree α → List β × Option σ) (state : List Nat → σ)
    (enters : List Nat → Bool) : Prop :=
  ∀ path u, t.at? path = some u → ∀ i,
    (step (state path) u).2 = if enters path then some (state (path ++ [i])) else none

theorem HandsDown.child {a : α} {cs : List (Tree α)} {c : Tree α} {i : Nat}
    (h : (node a cs).HandsDown step state enters) (hc : cs[i]? = some c) :
    c.HandsDown step (fun path => state (i :: path)) fun path => enters (i :: path) := by
  intro path u hu j
  refine h (i :: path) u ?_ j
  rw [at?_cons, children, hc, Option.bind_some, hu]

theorem flatMap_filter {γ : Type} (l : List γ) (p : γ → Bool) (f : γ → List β) :
    (l.filter p).flatMap f = l.flatMap fun x => if p x then f x else [] := by
  induction l with
  | nil => rfl
  | cons x l ih =>
      rw [List.flatMap_cons, List.filter_cons, ← ih]
      split <;> rfl

/-- What is found at the places of each child is found at the places below their node. -/
theorem collectAll_eq_flatMap_placesBelow {found : List Nat → List β} {cs : List (Tree α)}
    (h : ∀ (i : Nat) (c : Tree α), cs[i]? = some c →
      c.collect step s = c.places.flatMap fun q => found (i :: q)) :
    collectAll step s cs = (placesBelow 0 cs).flatMap found := by
  calc collectAll step s cs
      = cs.zipIdx.flatMap fun c => c.1.collect step s := by
        conv_lhs => rw [collectAll_eq_flatMap, ← List.zipIdx_map_fst 0 cs, List.flatMap_map]
    _ = cs.zipIdx.flatMap fun c => c.1.places.flatMap fun q => found (c.2 :: q) := by
        apply List.flatMap_congr
        intro c hc
        exact h c.2 c.1 (List.mk_mem_zipIdx_iff_getElem?.mp hc)
    _ = (placesBelow 0 cs).flatMap found := by
        rw [placesBelow, List.flatMap_assoc]
        simp only [List.flatMap_map]

theorem foundAt_cons {c : Tree α} {i : Nat} (hc : t.children[i]? = some c) (s : σ)
    (path : List Nat) : t.foundAt step s (i :: path) = c.foundAt step s path := by
  rw [foundAt, at?_cons, hc, Option.bind_some, foundAt]

/-- A walk finds at each place, all nodes above which are entered, what its step finds there. -/
theorem collect_eq_flatMap_places (hroot : state [] = s) (h : t.HandsDown step state enters) :
    t.collect step s = t.places.flatMap fun path =>
      if path.inits.dropLast.all enters then t.foundAt step (state path) path else [] := by
  induction t generalizing s state enters with
  | node a cs ih =>
      have hstep := h [] _ rfl
      rw [hroot] at hstep
      rw [places_node, List.flatMap_cons, hroot]
      cases henters : enters [] with
      | false =>
          have hbelow : ∀ path ∈ placesBelow 0 cs, (if path.inits.dropLast.all enters then
              (node a cs).foundAt step (state path) path else []) = [] := by
            intro path hpath
            obtain ⟨i, q, c, rfl, -, -⟩ := mem_placesBelow.mp hpath
            rw [dropLast_inits_cons, List.all_cons, henters]
            rfl
          rw [henters] at hstep
          rw [collect_of_left (hstep 0), List.flatMap_eq_nil_iff.mpr hbelow]
          exact (List.append_nil _).symm
      | true =>
          rw [henters] at hstep
          have hsame (i : Nat) : state [i] = state [0] :=
            Option.some.inj ((hstep i).symm.trans (hstep 0))
          have hchildren : ∀ (i : Nat) (c : Tree α), cs[i]? = some c →
              c.collect step (state [0]) = c.places.flatMap fun q =>
                if (i :: q).inits.dropLast.all enters then
                  (node a cs).foundAt step (state (i :: q)) (i :: q) else [] := by
            intro i c hc
            rw [ih c (List.mem_of_getElem? hc) (hsame i) (h.child hc)]
            simp only [dropLast_inits_cons, List.all_cons, henters, Bool.true_and, List.all_map,
              foundAt_cons (t := node a cs) hc]
            rfl
          rw [collect_of_entered (hstep 0)]
          exact congrArg (_ ++ ·) (collectAll_eq_flatMap_placesBelow hchildren)

/-- So does a walk over the children of a node, which looks at the places below it only. -/
theorem collectAll_eq_flatMap_places (hroot : ∀ i, state [i] = s)
    (h : ∀ i path u, t.at? (i :: path) = some u → ∀ j, (step (state (i :: path)) u).2 =
      if enters (i :: path) then some (state (i :: path ++ [j])) else none) :
    collectAll step s t.children = (placesBelow 0 t.children).flatMap fun path =>
      if path.inits.dropLast.tail.all enters then t.foundAt step (state path) path else [] := by
  apply collectAll_eq_flatMap_placesBelow
  intro i c hc
  have hchild : c.HandsDown step (fun path => state (i :: path)) fun path => enters (i :: path) :=
    fun path u hu j => h i path u (by rw [at?_cons, hc, Option.bind_some, hu]) j
  rw [collect_eq_flatMap_places (hroot i) hchild]
  simp only [dropLast_inits_cons, List.tail_cons, List.all_map, foundAt_cons hc]
  rfl

end walk

end CodeHealth.Tree
