import CodeHealth.Proofs.Code.Decision
import CodeHealth.Proofs.Tree.Enclosing

/-!
# Classes around functions

The classes of a tree at their places, and what a function is told on the way down to it: it is a
method of the class that stands nearest above it, or of none.
-/

namespace CodeHealth

open CodeHealth.Tree

variable {ast : SourceTree} {f : FunctionDef} {scope below : ClassScope}
  {u c : Tree (Spot SyntaxNode)} {path : List Nat} {name : String}

/-! ## Classes at their places -/

def Tree.Spot.isClass (s : Spot SyntaxNode) : Bool :=
  s.tree.label.isClass

namespace SourceTree

/-- The well-formed nodes of a tree at their places. -/
def reached (ast : SourceTree) : List (Tree (Spot SyntaxNode)) :=
  (ast.root.spots []).reach Spot.isError fun _ => false

/-- The classes of a tree at their places. -/
def classSpots (ast : SourceTree) : List (Tree (Spot SyntaxNode)) :=
  ast.reached.filter (·.label.isClass)

/-- The place of the nearest class above a function. -/
def nearestClass? (ast : SourceTree) (f : FunctionDef) : Option (List Nat) :=
  ast.root.nearest? SyntaxNode.isClass f.path

end SourceTree

theorem root_mem_reached (herror : ast.root.label.isError = false) :
    ast.root.spots [] ∈ ast.reached := by
  unfold SourceTree.reached
  rw [reach_of_not_skip (by rw [label_spots]; exact herror)]
  exact List.mem_cons_self

theorem reached_of_isError (herror : ast.root.label.isError = true) : ast.reached = [] := by
  unfold SourceTree.reached
  exact reach_of_skip (by rw [label_spots]; exact herror)

theorem map_tree_classSpots (ast : SourceTree) :
    ast.classSpots.map (·.label.tree) = ast.root.walk.filter fun t => t.label.isClass := by
  unfold SourceTree.classSpots SourceTree.reached walk
  rw [← map_tree_reach_spots (·.isError) (fun _ => false) [] ast.root, List.filter_map]
  rfl

theorem nodup_classSpots (ast : SourceTree) :
    (ast.classSpots.map (·.label.path)).Nodup :=
  ((List.filter_sublist.trans (reach_sublist_subtrees _ _ _)).map _).nodup
    (nodup_paths_spots [] ast.root)

/-- Two classes of a tree at one place are the same. -/
theorem eq_of_path_eq {i j : Nat} {s t : Tree (Spot SyntaxNode)}
    (hs : ast.classSpots[i]? = some s) (ht : ast.classSpots[j]? = some t)
    (h : s.label.path = t.label.path) : i = j := by
  have hlength : i < (ast.classSpots.map (·.label.path)).length := by
    rw [List.length_map]
    exact (List.getElem?_eq_some_iff.mp hs).1
  rw [← List.getElem?_inj hlength (nodup_classSpots ast), List.getElem?_map, List.getElem?_map, hs,
    ht, Option.map_some, Option.map_some, h]

/-! ## What a function is told of its class -/

/-- The class that a place stands in: the nearest one above it. -/
structure IsClassOf (ast : SourceTree) (path : List Nat) (name : String)
    (c : Tree (Spot SyntaxNode)) : Prop where
  isSpot : IsSpotOf ast.root c
  isClass : c.label.isClass = true
  reached : ast.root.label.isError = false → c ∈ ast.reached
  nearest : ast.root.nearest? SyntaxNode.isClass path = some c.label.path
  shownName : c.label.tree.label.shownName = name

/-- What a node is told is true: it stands directly among the members of a class only if that class
is the nearest one above it, and then the name is that of the class. -/
structure ClassScope.Fits (ast : SourceTree) (scope : ClassScope)
    (u : Tree (Spot SyntaxNode)) : Prop where
  isSpot : IsSpotOf ast.root u
  reached : ast.root.label.isError = false → u.label.isError = false → u ∈ ast.reached
  told : scope.direct = true →
    ∃ name c, scope.className = some name ∧ IsClassOf ast u.label.path name c

theorem fits_root (ast : SourceTree) :
    ClassScope.Fits ast ⟨none, false⟩ (ast.root.spots []) where
  isSpot := isSpotOf_spots rfl
  reached := fun herror _ => root_mem_reached herror
  told := fun h => nomatch h

/-- A node that is entered is well-formed, if the root is. -/
theorem isError_of_entered {language : Language} (h : scope.Fits ast u)
    (hroot : ast.root.label.isError = false)
    (hbelow : (functionStep language scope u).2 = some below) : u.label.isError = false := by
  rw [← Bool.not_eq_true]
  intro herror
  by_cases hpath : u.label.path = []
  · have hat := h.isSpot.at?_path
    rw [hpath, at?_nil] at hat
    rw [Spot.isError, ← Option.some.inj hat, hroot] at herror
    exact nomatch herror
  · rw [functionStep_of_isError language scope herror hpath] at hbelow
    exact nomatch hbelow

/-- What is told to the nodes below an entered one. -/
theorem cases_of_entered {language : Language}
    (hbelow : (functionStep language scope u).2 = some below) :
    (u.label.isClass = true ∧ below = ⟨some u.label.tree.label.shownName, true⟩) ∨
      (u.label.isClass = false ∧ (below.direct = true →
        scope.direct = true ∧ below.className = scope.className)) := by
  unfold functionStep at hbelow
  dsimp only at hbelow
  unfold Spot.isClass
  split at hbelow
  · exact nomatch hbelow
  · split at hbelow
    · rename_i hclass
      exact Or.inl ⟨hclass, (Option.some.inj hbelow).symm⟩
    · rename_i hclass
      refine Or.inr ⟨Bool.eq_false_iff.mpr hclass, ?_⟩
      split at hbelow
      · obtain rfl := Option.some.inj hbelow
        exact fun h => nomatch h
      · obtain rfl := Option.some.inj hbelow
        exact fun h => ⟨(Bool.and_eq_true_iff.mp h).1, rfl⟩

/-- What is true of a node is true of those below it. -/
theorem ClassScope.Fits.child {language : Language} (h : scope.Fits ast u)
    (hbelow : (functionStep language scope u).2 = some below) (hc : c ∈ u.children) :
    below.Fits ast c where
  isSpot := (h.isSpot.child hc).1
  reached := fun hroot herror =>
    mem_reach_of_mem_children (h.reached hroot (isError_of_entered h hroot hbelow)) hc herror
  told := by
    intro hdirect
    have hnearest : ast.root.nearest? SyntaxNode.isClass c.label.path =
        if u.label.isClass then some u.label.path
        else ast.root.nearest? SyntaxNode.isClass u.label.path :=
      nearest?_child h.isSpot hc
    rcases cases_of_entered hbelow with ⟨hclass, rfl⟩ | ⟨hclass, hsame⟩
    · exact ⟨_, u, rfl, h.isSpot, hclass,
        fun hroot => h.reached hroot (isError_of_entered h hroot hbelow),
        hnearest.trans (if_pos hclass), rfl⟩
    · obtain ⟨hdirect, hname⟩ := hsame hdirect
      obtain ⟨name, d, hscope, hd⟩ := h.told hdirect
      exact ⟨name, d, hname.trans hscope, { hd with
        nearest := (hnearest.trans (if_neg (Bool.eq_false_iff.mp hclass))).trans hd.nearest }⟩

/-- Where a function of a tree was found, and what it was told there. -/
theorem exists_fits_of_mem_functions (hf : f ∈ ast.functions) :
    ∃ scope u, scope.Fits ast u ∧ f ∈ (functionStep ast.language scope u).1 :=
  exists_found_of_mem_collect
    (fun _ _ _ (h : ClassScope.Fits ast _ _) hbelow _ hc => h.child hbelow hc) (fits_root ast) hf

/-- A function stands at its path. -/
theorem at?_of_mem_functions (hf : f ∈ ast.functions) :
    ast.root.at? f.path = some f.node ∧ f.node.label.isFunction = true := by
  obtain ⟨scope, u, hfits, hf⟩ := exists_fits_of_mem_functions hf
  obtain ⟨hfunction, hpath, hnode, -, -⟩ := of_mem_functionStep hf
  rw [hpath, hnode]
  exact ⟨hfits.isSpot.at?_path, hfunction⟩

/-- The methods of classes are the functions that drop a receiver. -/
theorem parameters_of_mem_functions (hf : f ∈ ast.functions) :
    f.parameters = f.node.parameterNames ast.language f.className.isSome := by
  obtain ⟨scope, u, hfits, hf⟩ := exists_fits_of_mem_functions hf
  obtain ⟨-, -, -, hname, hparameters⟩ := of_mem_functionStep hf
  have htold := hfits.told
  rw [hname, hparameters]
  cases hdirect : scope.direct with
  | false => rfl
  | true =>
      obtain ⟨name, c, hscope, -⟩ := htold hdirect
      rw [if_pos rfl, hscope]
      rfl

/-- A method stands in the class it was told of. -/
theorem exists_isClassOf (hf : f ∈ ast.functions) (hname : f.className = some name) :
    ∃ c, IsClassOf ast f.path name c := by
  obtain ⟨scope, u, hfits, hf⟩ := exists_fits_of_mem_functions hf
  obtain ⟨-, hpath, -, htold, -⟩ := of_mem_functionStep hf
  rw [hname] at htold
  split at htold
  · rename_i hdirect
    obtain ⟨name', c, hscope, hc⟩ := hfits.told hdirect
    obtain rfl := Option.some.inj (htold.trans hscope)
    exact ⟨c, hpath ▸ hc⟩
  · exact nomatch htold

end CodeHealth
