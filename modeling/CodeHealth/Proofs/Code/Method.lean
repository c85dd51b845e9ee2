import CodeHealth.Proofs.Code.Scope

/-!
# Methods and their classes

A method knows its class by name and is counted in the first class of that name whose lines hold its
own first line. That is the class it stands in, the nearest one above it, unless an earlier class of
the same name holds this line as well.
-/

namespace CodeHealth

open CodeHealth.Tree

variable {ast : SourceTree} {f : FunctionDef} {c : Tree (Spot SyntaxNode)} {name : String}

namespace SourceTree

/-- Whether a function is a method of the class at a place. -/
def isMethodAt (ast : SourceTree) (place : List Nat) (f : FunctionDef) : Bool :=
  f.className.isSome && ast.nearestClass? f == some place

/-- Each class lists exactly the methods that stand in it and in no class inside it, and every
method stands in one of the classes. -/
structure CountsMethods (ast : SourceTree) : Prop where
  methods_eq : ∀ (i : Nat) (s : Tree (Spot SyntaxNode)) (d : ClassDef),
    ast.classSpots[i]? = some s → ast.classes[i]? = some d →
      d.node = s.label.tree ∧ d.methods = ast.functions.filter (ast.isMethodAt s.label.path)
  counted : ∀ f ∈ ast.functions, f.className.isSome = true →
    ∃ s ∈ ast.classSpots, ast.nearestClass? f = some s.label.path

end SourceTree

/-- The number of the first class that claims a function. -/
def SourceTree.firstClaim? (ast : SourceTree) (f : FunctionDef) : Option Nat :=
  ast.classSpots.findIdx? fun s => claims f s.label.tree

theorem getElem?_classes (ast : SourceTree) (i : Nat) :
    ast.classes[i]? = ast.classSpots[i]?.map fun s =>
      { node := s.label.tree
        name := s.label.tree.label.shownName
        methods := ast.functions.filter fun f => ast.firstClaim? f == some i } := by
  unfold SourceTree.classes SourceTree.firstClaim?
  rw [← map_tree_classSpots]
  simp only [List.getElem?_map, List.getElem?_zipIdx, List.findIdx?_map, Option.map_map,
    Nat.zero_add]
  rfl

/-! ## Lines of nested nodes -/

/-- The first and the last line of a node are among the lines of another one. -/
def SyntaxNode.LiesWithin (n outer : SyntaxNode) : Prop :=
  (outer.startLine ≤ n.startLine ∧ n.startLine ≤ outer.endLine) ∧
    outer.startLine ≤ n.endLine ∧ n.endLine ≤ outer.endLine

instance (n outer : SyntaxNode) : Decidable (n.LiesWithin outer) :=
  inferInstanceAs (Decidable (_ ∧ _))

/-- The lines of each node are among those of the node around it. -/
def Tree.LinesNested (t : Tree SyntaxNode) : Prop :=
  ∀ u ∈ t.subtrees, ∀ c ∈ u.children, c.label.LiesWithin u.label

theorem SyntaxNode.LiesWithin.trans {n middle outer : SyntaxNode} (h : n.LiesWithin middle)
    (houter : middle.LiesWithin outer) : n.LiesWithin outer := by
  unfold LiesWithin at h houter ⊢
  omega

theorem Tree.LinesNested.liesWithin {t d : Tree SyntaxNode} (h : t.LinesNested)
    (hd : d ∈ t.subtrees) : d = t ∨ d.label.LiesWithin t.label := by
  induction t with
  | node n cs ih =>
      rcases mem_subtrees_node.mp hd with rfl | ⟨c, hc, hd⟩
      · exact Or.inl rfl
      · have hchild := h _ (self_mem_subtrees _) c hc
        have hbelow : c.LinesNested := fun v hv =>
          h v (mem_subtrees_node.mpr (Or.inr ⟨c, hc, hv⟩))
        rcases ih c hc hbelow hd with rfl | hwithin
        · exact Or.inr hchild
        · exact Or.inr (hwithin.trans hchild)

/-- The class that a method stands in claims it. -/
theorem claims_of_isClassOf (hlines : ast.root.LinesNested) (hf : f ∈ ast.functions)
    (hname : f.className = some name) (hc : IsClassOf ast f.path name c) :
    claims f c.label.tree = true := by
  obtain ⟨hat, hfunction⟩ := at?_of_mem_functions hf
  obtain ⟨-, rest, -, hpath⟩ := of_nearest?_eq_some hc.nearest
  rw [hpath, at?_append, hc.isSpot.at?_path, Option.bind_some] at hat
  have hnested : c.label.tree.LinesNested := fun v hv =>
    hlines v (subtrees_trans hv (mem_subtrees_of_at? hc.isSpot.at?_path))
  rcases hnested.liesWithin (mem_subtrees_of_at? hat) with hsame | ⟨⟨hstart, hend⟩, -⟩
  · rw [hsame, isFunction_eq_false_of_isClass hc.isClass] at hfunction
    exact nomatch hfunction
  · unfold claims FunctionDef.startLine
    rw [hname, hc.shownName, beq_self_eq_true, decide_eq_true hstart, decide_eq_true hend]
    rfl

/-! ## Rivals -/

/-- The classes that are listed before the one that a function stands in. -/
def SourceTree.earlierClasses (ast : SourceTree) (f : FunctionDef) :
    List (Tree (Spot SyntaxNode)) :=
  ast.classSpots.takeWhile fun c => ast.nearestClass? f != some c.label.path

/-- A class listed before that of the function has the same name and holds its first line. -/
def SourceTree.HasRival (ast : SourceTree) (f : FunctionDef) : Prop :=
  ∃ d ∈ ast.earlierClasses f, f.className = some d.label.tree.label.shownName ∧
    d.label.tree.label.startLine ≤ f.startLine ∧ f.startLine ≤ d.label.tree.label.endLine

theorem claims_iff {t : Tree SyntaxNode} :
    claims f t = true ↔ f.className = some t.label.shownName ∧
      t.label.startLine ≤ f.startLine ∧ f.startLine ≤ t.label.endLine := by
  unfold claims
  rw [Bool.and_eq_true, Bool.and_eq_true, beq_iff_eq, decide_eq_true_iff, decide_eq_true_iff,
    and_assoc]

theorem firstClaim?_of_className_eq_none (h : f.className = none) : ast.firstClaim? f = none := by
  unfold SourceTree.firstClaim?
  rw [List.findIdx?_eq_none_iff]
  intro s _
  rw [← Bool.not_eq_true, claims_iff, h]
  exact fun hclaims => nomatch hclaims.1

/-- The classes before the one that a method stands in are the earlier ones. -/
theorem earlierClasses_eq {before after : List (Tree (Spot SyntaxNode))}
    (hspots : ast.classSpots = before ++ c :: after)
    (hnearest : ast.nearestClass? f = some c.label.path) : ast.earlierClasses f = before := by
  have hnodup := nodup_classSpots ast
  rw [hspots, List.map_append, List.map_cons, List.nodup_append] at hnodup
  unfold SourceTree.earlierClasses
  rw [hspots, hnearest, List.takeWhile_append_of_pos, List.takeWhile_cons_of_neg, List.append_nil]
  · simp
  · intro d hd
    have hne := hnodup.2.2 _ (List.mem_map_of_mem hd) _ List.mem_cons_self
    simpa using Ne.symm hne

/-- The first class that claims a method is its own just if there is no rival. -/
theorem firstClaim?_eq_length_iff {before after : List (Tree (Spot SyntaxNode))}
    (hspots : ast.classSpots = before ++ c :: after)
    (hnearest : ast.nearestClass? f = some c.label.path) (hown : claims f c.label.tree = true) :
    ast.firstClaim? f = some before.length ↔ ¬ ast.HasRival f := by
  unfold SourceTree.HasRival SourceTree.firstClaim?
  simp only [earlierClasses_eq hspots hnearest, ← claims_iff]
  rw [hspots, List.findIdx?_append]
  cases hfirst : before.findIdx? fun s => claims f s.label.tree with
  | none =>
      rw [List.findIdx?_eq_none_iff] at hfirst
      rw [Option.none_or, List.findIdx?_cons, hown]
      simp only [if_true, Option.map_some, Nat.zero_add, true_iff]
      rintro ⟨d, hd, hclaims⟩
      rw [hfirst d hd] at hclaims
      exact nomatch hclaims
  | some j =>
      obtain ⟨hj, hclaims, -⟩ := List.findIdx?_eq_some_iff_getElem.mp hfirst
      rw [Option.some_or, Option.some_inj]
      constructor
      · rintro rfl
        exact absurd hj (Nat.lt_irrefl _)
      · exact fun hnone => absurd ⟨before[j], List.getElem_mem hj, hclaims⟩ hnone

/-! ## Counted methods -/

/-- In a tree whose root is well-formed the class that a method stands in is listed behind the
earlier ones, and claims the method. -/
theorem exists_classSpots_eq (hlines : ast.root.LinesNested)
    (herror : ast.root.label.isError = false) (hf : f ∈ ast.functions)
    (hmethod : f.className.isSome = true) :
    ∃ c after, ast.classSpots = ast.earlierClasses f ++ c :: after ∧
      ast.nearestClass? f = some c.label.path ∧ claims f c.label.tree = true := by
  obtain ⟨name, hname⟩ := Option.isSome_iff_exists.mp hmethod
  obtain ⟨c, hc⟩ := exists_isClassOf hf hname
  have hmem : c ∈ ast.classSpots := List.mem_filter.mpr ⟨hc.reached herror, hc.isClass⟩
  obtain ⟨before, after, hspots⟩ := List.append_of_mem hmem
  exact ⟨c, after, by rw [earlierClasses_eq hspots hc.nearest, hspots], hc.nearest,
    claims_of_isClassOf hlines hf hname hc⟩

/-- Without rivals a function is listed by the class at a place just if it is a method of it. -/
theorem firstClaim?_beq_eq_isMethodAt (hlines : ast.root.LinesNested) (hf : f ∈ ast.functions)
    (hown : f.className.isSome = true → ast.root.label.isError = false ∧ ¬ ast.HasRival f)
    {i : Nat} {s : Tree (Spot SyntaxNode)} (hs : ast.classSpots[i]? = some s) :
    (ast.firstClaim? f == some i) = ast.isMethodAt s.label.path f := by
  unfold SourceTree.isMethodAt
  by_cases hmethod : f.className.isSome = true
  · obtain ⟨herror, hrival⟩ := hown hmethod
    obtain ⟨c, after, hspots, hnearest, hclaims⟩ := exists_classSpots_eq hlines herror hf hmethod
    have hc : ast.classSpots[(ast.earlierClasses f).length]? = some c := by
      rw [hspots]
      simp
    rw [(firstClaim?_eq_length_iff hspots hnearest hclaims).mpr hrival, hmethod, hnearest,
      Bool.true_and, Bool.eq_iff_iff, beq_iff_eq, beq_iff_eq, Option.some_inj, Option.some_inj]
    constructor
    · rintro rfl
      exact congrArg (·.label.path) (Option.some.inj (hc.symm.trans hs))
    · exact eq_of_path_eq hc hs
  · have hnone := Option.not_isSome_iff_eq_none.mp hmethod
    rw [firstClaim?_of_className_eq_none hnone, hnone]
    rfl

/-- A class that lists the methods that stand in it lists no method with a rival. -/
theorem SourceTree.CountsMethods.not_hasRival (h : ast.CountsMethods)
    (hlines : ast.root.LinesNested) (hf : f ∈ ast.functions)
    (hmethod : f.className.isSome = true) : ast.root.label.isError = false ∧ ¬ ast.HasRival f := by
  have herror : ast.root.label.isError = false := by
    obtain ⟨s, hs, -⟩ := h.counted f hf hmethod
    rw [← Bool.not_eq_true]
    intro herror
    unfold classSpots at hs
    rw [reached_of_isError herror] at hs
    exact absurd hs List.not_mem_nil
  obtain ⟨c, after, hspots, hnearest, hclaims⟩ := exists_classSpots_eq hlines herror hf hmethod
  have hc : ast.classSpots[(ast.earlierClasses f).length]? = some c := by
    rw [hspots]
    simp
  -- the class that claims the method first lists it, so it is the one that the method stands in
  obtain ⟨j, hj⟩ : ∃ j, ast.firstClaim? f = some j := by
    rw [← Option.isSome_iff_exists, firstClaim?, List.findIdx?_isSome, List.any_eq_true]
    exact ⟨c, List.mem_of_getElem? hc, hclaims⟩
  obtain ⟨hlength, -⟩ := List.findIdx?_eq_some_iff_getElem.mp hj
  have hs := List.getElem?_eq_getElem hlength
  have hd := getElem?_classes ast j
  rw [hs, Option.map_some] at hd
  have hlisted : f ∈ ast.functions.filter fun g => ast.firstClaim? g == some j :=
    List.mem_filter.mpr ⟨hf, by rw [hj, beq_self_eq_true]⟩
  have hown := (h.methods_eq j _ _ hs hd).2
  dsimp only at hown
  rw [hown] at hlisted
  have hsame := (Bool.and_eq_true_iff.mp (List.mem_filter.mp hlisted).2).2
  rw [hnearest, beq_iff_eq, Option.some_inj] at hsame
  obtain rfl := eq_of_path_eq hc hs hsame
  exact ⟨herror, (firstClaim?_eq_length_iff hspots hnearest hclaims).mp hj⟩

/-- In a tree of nested lines each class lists its own methods exactly if no method has a rival,
and the root is well-formed if there are any methods. -/
theorem countsMethods_iff (ast : SourceTree) (hlines : ast.root.LinesNested) :
    ast.CountsMethods ↔ ∀ f ∈ ast.functions, f.className.isSome = true →
      ast.root.label.isError = false ∧ ¬ ast.HasRival f := by
  constructor
  · exact fun h f hf hmethod => h.not_hasRival hlines hf hmethod
  · intro h
    refine ⟨fun i s d hs hd => ?_, fun f hf hmethod => ?_⟩
    · rw [getElem?_classes, hs, Option.map_some, Option.some_inj] at hd
      obtain rfl := hd
      exact ⟨rfl, List.filter_congr fun f hf => firstClaim?_beq_eq_isMethodAt hlines hf (h f hf) hs⟩
    · obtain ⟨c, after, hspots, hnearest, -⟩ :=
        exists_classSpots_eq hlines (h f hf hmethod).1 hf hmethod
      exact ⟨c, hspots ▸ List.mem_append_right _ List.mem_cons_self, hnearest⟩

/-- A method without parameters, named by one character, with an empty body. -/
def methodNode (start : Nat) : Tree GrammarNode :=
  grammarNode "method_definition" (some "member") start (start + 5)
    [grammarNode "property_identifier" (some "name") start (start + 1) [],
      grammarNode "formal_parameters" (some "parameters") (start + 1) (start + 3)
        [grammarToken "(" (start + 1) (start + 2), grammarToken ")" (start + 2) (start + 3)],
      grammarNode "statement_block" (some "body") (start + 3) (start + 5)
        [grammarToken "\x7b" (start + 3) (start + 4),
          grammarToken "\x7d" (start + 4) (start + 5)]]

/-- A class without a name. -/
def classNode (start stop : Nat) (members : List (Tree GrammarNode)) : Tree GrammarNode :=
  grammarNode "class" none start stop
    [grammarToken "class" start (start + 5),
      grammarNode "class_body" (some "body") (start + 5) stop
        (grammarToken "\x7b" (start + 5) (start + 6) :: members ++
          [grammarToken "\x7d" (stop - 1) stop])]

/-- The tree of an array of two classes in a text of the given length. -/
def classPair (text : String) (stop : Nat) (first second : Tree GrammarNode) : SourceTree :=
  .ofGrammar defaultNodeBudget text "a.js" .javascript
    { root := grammarNode "program" none 0 stop [grammarNode "expression_statement" none 0 stop
        [grammarNode "array" none 0 stop
          [grammarToken "[" 0 1, first,
            grammarToken "," first.label.endByte (first.label.endByte + 1), second,
            grammarToken "]" (stop - 1) stop]]]
      hasError := false }

/-- Two classes without names, each with a method and on a line of its own. -/
def classesOnLines : SourceTree :=
  classPair "[class\x7bm()\x7b\x7d\x7d,\nclass\x7bn()\x7b\x7d\x7d]" 28
    (classNode 1 13 [methodNode 7]) (classNode 15 27 [methodNode 21])

/-- Two classes without names on one line, of which the second has a method. -/
def classesOnLine : SourceTree :=
  classPair "[class\x7b\x7d,class\x7bm()\x7b\x7d\x7d]" 22
    (classNode 1 8 []) (classNode 9 21 [methodNode 15])

theorem classesOnLines_countsMethods :
    classesOnLines.root.LinesNested ∧ classesOnLines.CountsMethods ∧
      classesOnLines.classes.map (fun c => c.methods.map FunctionDef.name) = [["m"], ["n"]] := by
  have hlines : classesOnLines.root.LinesNested := by
    unfold LinesNested
    decide +kernel
  refine ⟨hlines, (countsMethods_iff classesOnLines hlines).mpr ?_, by decide +kernel⟩
  unfold SourceTree.HasRival
  decide +kernel

/-- The method of the second class is counted in the first one. -/
theorem classesOnLine_miscounted :
    classesOnLine.root.LinesNested ∧
      classesOnLine.classes.map (fun c => c.methods.map FunctionDef.name) = [["m"], []] ∧
      ¬ classesOnLine.CountsMethods := by
  refine ⟨by unfold LinesNested; decide +kernel, by decide +kernel, fun h => ?_⟩
  have hlisted : classesOnLine.classes[0]?.map (·.methods.length) = some 1 := by decide +kernel
  have hown : classesOnLine.classSpots[0]?.map
      (fun s => (classesOnLine.functions.filter
        (classesOnLine.isMethodAt s.label.path)).length) = some 0 := by
    decide +kernel
  obtain ⟨d, hd, hlength⟩ := Option.map_eq_some_iff.mp hlisted
  obtain ⟨s, hs, hnone⟩ := Option.map_eq_some_iff.mp hown
  rw [(h.methods_eq 0 s d hs hd).2, hnone] at hlength
  exact nomatch hlength

end CodeHealth
