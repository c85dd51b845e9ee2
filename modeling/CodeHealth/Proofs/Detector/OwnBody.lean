import CodeHealth.Proofs.Code.Scope
import CodeHealth.Proofs.Detector.Finding

/-!
# What a function is judged on

A function is judged on the bindings and the member accesses of its body, without those of the
functions in it. They stand in no function inside it, unless the body is itself a function: then all
of them belong to that one.
-/

namespace CodeHealth

open CodeHealth.Tree DeadCode FunctionDef

variable {ast : SourceTree} {f g : FunctionDef} {root : Tree SyntaxNode} {t u : Placed}

/-! ## Fields of placed nodes -/

theorem map_tree_find?_field (h : IsSpotOf root u) (field : String) :
    (u.children.find? fun c => (nodeOf c).field == some field).map (·.label.tree) =
      u.label.tree.childByField? field := by
  unfold childByField?
  rw [← h.map_tree_children, List.find?_map]
  rfl

theorem isFunction_eq_false_of_kind {n : SyntaxNode} {kind : String} (h : (n.kind == kind) = true)
    (hkind : functionKinds.contains kind = false) : n.isFunction = false := by
  unfold SyntaxNode.isFunction
  rw [beq_iff_eq.mp h, hkind, Bool.and_false]

/-! ## Nodes of a function -/

namespace FunctionDef

/-- The body is itself a function. -/
def hasFunctionBody (f : FunctionDef) : Bool :=
  (f.node.childByField? "body").any (·.label.isFunction)

/-- The body at its place in the function, or the function where it has none. -/
def placedBody (f : FunctionDef) : Placed :=
  (f.node.spots []).bodyOf Spot.node

/-- The nodes that a function is judged on, at their places in it. -/
def judged (f : FunctionDef) : List Placed :=
  f.placedBody.ownSubtrees Spot.node

/-- The place of the function that holds what a function is judged on. -/
def holder (f : FunctionDef) : List Nat :=
  if f.hasFunctionBody then f.path ++ f.placedBody.label.path else f.path

/-- The node stands in the function and in no function inside it. -/
structure Owns (f : FunctionDef) (ast : SourceTree) (t : Placed) : Prop where
  at?_eq : ast.root.at? (f.path ++ t.label.path) = some t.label.tree
  nearest?_eq : ast.root.nearest? SyntaxNode.isFunction (f.path ++ t.label.path) = some f.path

theorem isSpotOf_node (f : FunctionDef) : IsSpotOf f.node (f.node.spots []) :=
  isSpotOf_spots rfl

/-- The body is a child of the function, or there is none. -/
theorem placedBody_cases (f : FunctionDef) :
    (f.node.childByField? "body" = some f.placedBody.label.tree ∧
        f.placedBody ∈ (f.node.spots []).children) ∨
      (f.node.childByField? "body" = none ∧ f.placedBody = f.node.spots []) := by
  have hfield : ((f.node.spots []).children.find? fun c =>
      c.label.node.field == some "body").map (·.label.tree) = _ :=
    map_tree_find?_field f.isSpotOf_node "body"
  rw [label_spots] at hfield
  unfold placedBody bodyOf
  cases hbody : (f.node.spots []).children.find? fun c => c.label.node.field == some "body" with
  | none =>
      rw [hbody] at hfield
      exact Or.inr ⟨hfield.symm, rfl⟩
  | some body =>
      rw [hbody] at hfield
      exact Or.inl ⟨hfield.symm, List.mem_of_find?_eq_some hbody⟩

theorem isSpotOf_placedBody (f : FunctionDef) : IsSpotOf f.node f.placedBody := by
  rcases f.placedBody_cases with ⟨-, hchild⟩ | ⟨-, hself⟩
  · exact (f.isSpotOf_node.child hchild).1
  · exact hself ▸ f.isSpotOf_node

/-- The nodes right below the body have the body above them if it is a function, and else the
function itself. -/
theorem nearest?_below_body (hfunction : f.node.label.isFunction = true)
    {c : Placed} (hc : c ∈ f.placedBody.children) :
    f.node.nearest? SyntaxNode.isFunction c.label.path =
      some (if f.hasFunctionBody then f.placedBody.label.path else []) := by
  have hnode : SyntaxNode.isFunction (f.node.spots []).label.tree.label = true := by
    rw [label_spots]
    exact hfunction
  rw [nearest?_child f.isSpotOf_placedBody hc]
  unfold hasFunctionBody
  rcases f.placedBody_cases with ⟨hbody, hchild⟩ | ⟨hbody, hself⟩
  · rw [hbody, Option.any_some]
    split
    · rfl
    · rw [nearest?_child f.isSpotOf_node hchild, if_pos hnode, label_spots]
  · rw [hbody, hself, if_pos hnode, label_spots]
    rfl

/-- What a function is judged on, other than a function, stands in its holder and in no function
inside that one. -/
theorem nearest?_of_mem_judged (hfunction : f.node.label.isFunction = true) (hu : u ∈ f.judged)
    (hother : u.label.tree.label.isFunction = false) :
    f.node.nearest? SyntaxNode.isFunction u.label.path =
      some (if f.hasFunctionBody then f.placedBody.label.path else []) := by
  rcases List.mem_cons.mp hu with rfl | hu
  · rcases f.placedBody_cases with ⟨hbody, hchild⟩ | ⟨-, hself⟩
    · have hnode : SyntaxNode.isFunction (f.node.spots []).label.tree.label = true := by
        rw [label_spots]
        exact hfunction
      unfold hasFunctionBody
      rw [hbody, Option.any_some, hother, nearest?_child f.isSpotOf_node hchild, if_pos hnode,
        label_spots]
      rfl
    · rw [hself, label_spots, hfunction] at hother
      exact nomatch hother
  · rw [reachAll_eq_flatMap] at hu
    obtain ⟨c, hc, hu⟩ := List.mem_flatMap.mp hu
    rw [nearest?_of_mem_reach (f.isSpotOf_placedBody.child hc).1 hu,
      nearest?_below_body hfunction hc]

/-- A function that has no function for its body holds what it is judged on. -/
theorem holder_eq_path_iff (f : FunctionDef) :
    f.holder = f.path ↔ f.hasFunctionBody = false := by
  unfold holder
  split
  · rename_i hbody
    rw [hbody]
    rcases f.placedBody_cases with ⟨-, hchild⟩ | ⟨hnone, -⟩
    · obtain ⟨-, i, hpath⟩ := f.isSpotOf_node.child hchild
      simp [hpath]
    · unfold hasFunctionBody at hbody
      rw [hnone] at hbody
      exact nomatch hbody
  · rename_i hbody
    simpa using hbody

/-- Where a node of the function has the holder's place in it above, it has the holder above it in
the whole tree. -/
theorem nearest?_eq_holder (hf : f ∈ ast.functions) {path : List Nat}
    (h : f.node.nearest? SyntaxNode.isFunction path =
      some (if f.hasFunctionBody then f.placedBody.label.path else [])) :
    ast.root.nearest? SyntaxNode.isFunction (f.path ++ path) = some f.holder := by
  rw [nearest?_append (at?_of_mem_functions hf).1, h, Option.map_some, Option.some_or]
  unfold holder
  split
  · rfl
  · rw [List.append_nil]

/-- A node is held by what holds the nodes that the function is judged on. -/
structure Holds (f : FunctionDef) (t : Placed) : Prop where
  isSpot : IsSpotOf f.node t
  nearest?_eq : f.node.nearest? SyntaxNode.isFunction t.label.path =
    some (if f.hasFunctionBody then f.placedBody.label.path else [])

theorem holds_of_mem_judged (hf : f ∈ ast.functions) (hu : u ∈ f.judged)
    (hother : u.label.tree.label.isFunction = false) : f.Holds u where
  isSpot := f.isSpotOf_placedBody.of_mem_subtrees (mem_subtrees_of_mem_ownSubtrees hu)
  nearest?_eq := nearest?_of_mem_judged (at?_of_mem_functions hf).2 hu hother

theorem Holds.owns_iff (hf : f ∈ ast.functions) (h : f.Holds t) :
    f.Owns ast t ↔ f.hasFunctionBody = false := by
  rw [← holder_eq_path_iff]
  have hnearest := nearest?_eq_holder hf h.nearest?_eq
  constructor
  · exact fun howns => Option.some.inj (hnearest.symm.trans howns.nearest?_eq)
  · intro hholder
    refine ⟨?_, hholder ▸ hnearest⟩
    rw [at?_append, (at?_of_mem_functions hf).1, Option.bind_some, h.isSpot.at?_path]

/-- A function owns all of some nodes that its holder holds exactly if it is the holder, or there
are none. -/
theorem owns_all_iff (hf : f ∈ ast.functions) {ts : List Placed} (h : ∀ t ∈ ts, f.Holds t) :
    (∀ t ∈ ts, f.Owns ast t) ↔ (f.hasFunctionBody = true → ts = []) := by
  constructor
  · intro howns hbody
    refine List.eq_nil_iff_forall_not_mem.mpr fun t ht => ?_
    rw [((h t ht).owns_iff hf).mp (howns t ht)] at hbody
    exact nomatch hbody
  · intro hnone t ht
    refine ((h t ht).owns_iff hf).mpr (Bool.eq_false_iff.mpr fun hbody => ?_)
    rw [hnone hbody] at ht
    exact List.not_mem_nil ht

end FunctionDef

/-! ## Bindings and accesses of a function -/

/-- The bindings of a function, among which are those of its unused locals. -/
def DeadCode.targets (f : FunctionDef) : List Placed :=
  f.judged.filterMap assignmentTarget?

theorem DeadCode.exists_target_of_mem_unusedLocals {l : Local} (hl : l ∈ unusedLocals f) :
    ∃ t ∈ targets f, l.target = nodeOf t :=
  exists_target_of_mem_firstBindings (List.mem_of_mem_filter hl)

theorem DeadCode.holds_of_mem_targets (hf : f ∈ ast.functions) (ht : t ∈ targets f) :
    f.Holds t := by
  obtain ⟨u, hu, htarget⟩ := List.mem_filterMap.mp ht
  unfold assignmentTarget? at htarget
  obtain ⟨hbind, -⟩ := Option.filter_eq_some_iff.mp htarget
  obtain ⟨field, hfield, hfind⟩ := Option.bind_eq_some_iff.mp hbind
  have hother : u.label.tree.label.isFunction = false := by
    split at hfield
    · rename_i hkind
      exact isFunction_eq_false_of_kind hkind rfl
    · split at hfield
      · rename_i hkind
        exact isFunction_eq_false_of_kind hkind rfl
      · exact nomatch hfield
  have hholds := FunctionDef.holds_of_mem_judged hf hu hother
  have hchild := List.mem_of_find?_eq_some hfind
  refine ⟨(hholds.isSpot.child hchild).1, ?_⟩
  rw [nearest?_child hholds.isSpot hchild, hother]
  exact hholds.nearest?_eq

namespace FeatureEnvy

/-- An access that counts: to the object itself, or to one that is neither imported nor global. -/
def counts (imported : List String) (t : Tree SyntaxNode) : Bool :=
  (receiver? t).any fun r => isOwn r || !(imported.contains r || globalReceivers.contains r)

/-- The accesses that are counted for a method. -/
def counted (imported : List String) (f : FunctionDef) : List Placed :=
  if f.className.isSome then f.judged.filter fun u => counts imported u.label.tree else []

/-- What some receivers are counted as. -/
def Accesses.ofReceivers (receivers : List String) : Accesses where
  own := receivers.countP isOwn
  others := Tally.ofList (receivers.filter fun r => !isOwn r)

theorem map_tree_judged (f : FunctionDef) : f.judged.map (·.label.tree) = f.body.walkOwn := by
  have hbody : f.body = f.placedBody.label.tree := by
    show (f.node.childByField? "body").getD f.node = f.placedBody.label.tree
    rcases f.placedBody_cases with ⟨hfield, -⟩ | ⟨hfield, hself⟩
    · rw [hfield, Option.getD_some]
    · rw [hfield, hself, label_spots, Option.getD_none]
  rw [hbody, ← map_tree_ownSpots f.placedBody.label.path]
  unfold FunctionDef.judged ownSpots
  rw [← f.isSpotOf_placedBody.eq_spots]

/-- The accesses of a method are those that are counted for it. -/
theorem accesses_eq (imported : List String) (hmethod : f.className.isSome = true) :
    accesses imported f =
      .ofReceivers ((counted imported f).filterMap fun u => receiver? u.label.tree) := by
  have hreceivers : ((counted imported f).filterMap fun u => receiver? u.label.tree) =
      (f.body.walkOwn.filterMap receiver?).filter fun r =>
        isOwn r || !(imported.contains r || globalReceivers.contains r) := by
    unfold counted counts
    rw [if_pos hmethod, ← map_tree_judged, List.filterMap_map, List.filterMap_filter,
      List.filter_filterMap]
    apply List.filterMap_congr
    intro u _
    rw [Function.comp_apply]
    cases receiver? u.label.tree with
    | none => rfl
    | some r => rfl
  have howns (r : String) : isOwn r =
      (isOwn r && (isOwn r || !(imported.contains r || globalReceivers.contains r))) := by
    cases isOwn r <;> rfl
  have hothers (r : String) : (!(isOwn r || imported.contains r || globalReceivers.contains r)) =
      (!isOwn r && (isOwn r || !(imported.contains r || globalReceivers.contains r))) := by
    cases isOwn r <;> rfl
  unfold accesses Accesses.ofReceivers
  rw [hreceivers, List.countP_filter, List.filter_filter, ← funext howns, ← funext hothers]

theorem holds_of_mem_counted {imported : List String} (hf : f ∈ ast.functions)
    (ht : t ∈ counted imported f) : f.Holds t := by
  unfold counted at ht
  split at ht
  · obtain ⟨hjudged, hcounts⟩ := List.mem_filter.mp ht
    apply FunctionDef.holds_of_mem_judged hf hjudged
    unfold counts receiver? at hcounts
    split at hcounts
    · rename_i hkind
      rcases Bool.or_eq_true_iff.mp hkind with hkind | hkind
      · exact isFunction_eq_false_of_kind hkind rfl
      · exact isFunction_eq_false_of_kind hkind rfl
    · exact nomatch hcounts
  · exact absurd ht List.not_mem_nil

end FeatureEnvy

/-! ## Own bodies -/

/-- Each function is judged on bindings and accesses that stand in it and in no function inside it,
and no binding is one of two functions. -/
structure SourceTree.JudgesOwnBodies (ast : SourceTree) : Prop where
  targets : ∀ f ∈ ast.functions, ∀ t ∈ DeadCode.targets f, f.Owns ast t
  accesses : ∀ f ∈ ast.functions,
    ∀ t ∈ FeatureEnvy.counted (FeatureEnvy.importedNames ast.root) f, f.Owns ast t
  once : ∀ f ∈ ast.functions, ∀ g ∈ ast.functions, ∀ t ∈ DeadCode.targets f,
    ∀ u ∈ DeadCode.targets g, f.path ++ t.label.path = g.path ++ u.label.path → f.path = g.path

/-- Functions are judged on their own bodies exactly if no binding and no access is found for one
whose body is itself a function. -/
theorem judgesOwnBodies_iff (ast : SourceTree) :
    (∀ f ∈ ast.functions, (∀ l ∈ unusedLocals f, ∃ t ∈ targets f, l.target = nodeOf t) ∧
      (f.className.isSome = true → FeatureEnvy.accesses (FeatureEnvy.importedNames ast.root) f =
        .ofReceivers ((FeatureEnvy.counted (FeatureEnvy.importedNames ast.root) f).filterMap
          fun u => FeatureEnvy.receiver? u.label.tree))) ∧
    (ast.JudgesOwnBodies ↔ ∀ f ∈ ast.functions, f.hasFunctionBody = true →
      targets f = [] ∧ FeatureEnvy.counted (FeatureEnvy.importedNames ast.root) f = []) := by
  refine ⟨fun f _ => ⟨fun l hl => exists_target_of_mem_unusedLocals hl,
    fun hmethod => FeatureEnvy.accesses_eq _ hmethod⟩, ?_, ?_⟩
  · intro h f hf hbody
    exact ⟨(owns_all_iff hf fun t ht => holds_of_mem_targets hf ht).mp (h.targets f hf) hbody,
      (owns_all_iff hf fun t ht => FeatureEnvy.holds_of_mem_counted hf ht).mp
        (h.accesses f hf) hbody⟩
  · intro h
    have htargets : ∀ f ∈ ast.functions, ∀ t ∈ targets f, f.Owns ast t := fun f hf =>
      (owns_all_iff hf fun t ht => holds_of_mem_targets hf ht).mpr fun hbody => (h f hf hbody).1
    refine ⟨htargets, fun f hf => ?_, fun f hf g hg t ht u hu hsame => ?_⟩
    · exact (owns_all_iff hf fun t ht => FeatureEnvy.holds_of_mem_counted hf ht).mpr fun hbody =>
        (h f hf hbody).2
    · have hnearest := (htargets f hf t ht).nearest?_eq
      rw [hsame, (htargets g hg u hu).nearest?_eq] at hnearest
      exact (Option.some.inj hnearest).symm

/-- The tree of `f=x=>y=>{let z=1}`, where a function is the body of another one. -/
def curriedArrow : SourceTree :=
  .ofGrammar defaultNodeBudget "f=x=>y=>\x7blet z=1\x7d" "a.js" .javascript
    { root := grammarNode "program" none 0 17 [grammarNode "expression_statement" none 0 17
        [grammarNode "assignment_expression" none 0 17
          [grammarNode "identifier" (some "left") 0 1 [], grammarToken "=" 1 2,
            grammarNode "arrow_function" (some "right") 2 17
              [grammarNode "identifier" (some "parameter") 2 3 [], grammarToken "=>" 3 5,
                grammarNode "arrow_function" (some "body") 5 17
                  [grammarNode "identifier" (some "parameter") 5 6 [], grammarToken "=>" 6 8,
                    grammarNode "statement_block" (some "body") 8 17
                      [grammarToken "\x7b" 8 9,
                        grammarNode "lexical_declaration" none 9 16
                          [.node ⟨"let", 9, 12, some "kind", false, false⟩ [],
                            grammarNode "variable_declarator" none 13 16
                              [grammarNode "identifier" (some "name") 13 14 [],
                                grammarToken "=" 14 15,
                                grammarNode "number" (some "value") 15 16 []]],
                        grammarToken "\x7d" 16 17]]]]]]
      hasError := false }

/-- The unused local of the inner function is one of the outer function too. -/
theorem curriedArrow_shared :
    (curriedArrow.functions.map fun f => (f.name, (unusedLocals f).map Local.name)) =
        [("f", ["z"]), ("<anonymous>", ["z"])] ∧
      ¬ curriedArrow.JudgesOwnBodies :=
  ⟨by decide +kernel, fun h => absurd h.once (by decide +kernel)⟩

end CodeHealth
