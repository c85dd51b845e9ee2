import CodeHealth.Code.Metric
import CodeHealth.Proofs.Code.Function
import CodeHealth.Proofs.Tree.Parse
import CodeHealth.Proofs.Tree.Spot
import Mathlib.Algebra.GroupWithZero.Nat
import Mathlib.Data.List.Perm.Basic

/-!
# Branches and functions

The branches of a well-formed tree are divided among the code outside all functions and the
functions of the tree: each branch belongs to exactly one of them. So what is counted over the whole
tree is what is counted outside and in each function.
-/

namespace CodeHealth

open CodeHealth.Tree

namespace Tree

def Spot.isError (s : Spot SyntaxNode) : Bool :=
  s.tree.label.isError

def Spot.isFunction (s : Spot SyntaxNode) : Bool :=
  s.tree.label.isFunction

/-- The places of the branches below a tree at a place. -/
def decisionPaths (path : List Nat) (t : Tree SyntaxNode) : List (List Nat) :=
  (((t.spots path).reach Spot.isError fun _ => false).filter
    (·.label.tree.isDecision)).map (·.label.path)

/-- The subtrees that belong to a tree at a place and to no function inside, each with its place. -/
def ownSpots (path : List Nat) (t : Tree SyntaxNode) : List (Tree (Spot SyntaxNode)) :=
  (t.spots path).ownSubtrees Spot.node

theorem map_tree_ownSpots (path : List Nat) (t : Tree SyntaxNode) :
    (t.ownSpots path).map (·.label.tree) = t.walkOwn := by
  unfold ownSpots walkOwn ownSubtrees
  rw [List.map_cons, label_spots, children_spots]
  exact congrArg (t :: ·) (map_tree_reachAll_spotsAll (·.isError) (·.isFunction) path 0 t.children)

/-- The places of the branches of a function without those of the functions inside. -/
def ownDecisionPaths (path : List Nat) (t : Tree SyntaxNode) : List (List Nat) :=
  ((t.ownSpots path).filter (·.label.tree.isDecision)).map (·.label.path)

end Tree

/-! ## Counts and places -/

theorem length_decisionPaths (path : List Nat) (t : Tree SyntaxNode) :
    (t.decisionPaths path).length = t.allDecisionPoints := by
  have hwalk := map_tree_reach_spots (·.isError) (fun _ => false) path t
  unfold decisionPaths allDecisionPoints walk
  rw [List.length_map, ← List.countP_eq_length_filter, ← hwalk, List.countP_map]
  rfl

theorem length_ownDecisionPaths (path : List Nat) (t : Tree SyntaxNode) :
    (t.ownDecisionPaths path).length = t.decisionPoints := by
  unfold ownDecisionPaths decisionPoints
  rw [List.length_map, ← List.countP_eq_length_filter, ← map_tree_ownSpots path, List.countP_map]
  rfl

theorem nodup_decisionPaths (path : List Nat) (t : Tree SyntaxNode) :
    (t.decisionPaths path).Nodup := by
  unfold decisionPaths
  exact ((List.filter_sublist.trans (reach_sublist_subtrees _ _ _)).map _).nodup
    (nodup_paths_spots path t)

/-! ## Functions divide branches -/

/-- A function is no branch. -/
theorem isDecision_eq_false_of_isFunction {t : Tree SyntaxNode} (h : t.label.isFunction = true) :
    t.isDecision = false := by
  unfold SyntaxNode.isFunction at h
  rw [Bool.and_eq_true] at h
  have hkind : ∀ k ∈ functionKinds, decisionKinds.contains k = false ∧ k ≠ "binary_expression" := by
    decide
  obtain ⟨hdecision, hbinary⟩ := hkind t.kind (List.contains_iff_mem.mp h.2)
  unfold isDecision isLogicalBinary
  rw [hdecision, beq_eq_false_iff_ne.mpr hbinary]
  simp

/-- No class is a function. -/
theorem isFunction_eq_false_of_isClass {n : SyntaxNode} (h : n.isClass = true) :
    n.isFunction = false := by
  unfold SyntaxNode.isClass at h
  rw [Bool.and_eq_true] at h
  have hkind : ∀ k ∈ classKinds, functionKinds.contains k = false := by decide
  unfold SyntaxNode.isFunction
  rw [hkind n.kind (List.contains_iff_mem.mp h.2), Bool.and_false]

/-- Below a malformed node, other than a root, no function is looked for. -/
theorem functionStep_of_isError (language : Language) (scope : ClassScope)
    {t : Tree (Spot SyntaxNode)} (herror : t.label.isError = true) (hpath : t.label.path ≠ []) :
    functionStep language scope t = ([], none) := by
  unfold Spot.isError at herror
  unfold functionStep
  simp [herror, hpath]

/-- A node that is entered is found if it is a function, and its children are entered. -/
theorem functionStep_of_entered (language : Language) (scope : ClassScope)
    {t : Tree (Spot SyntaxNode)} (herror : t.label.isError = false) :
    ∃ below, (functionStep language scope t).2 = some below ∧
      if t.label.isFunction then
        ∃ f, (functionStep language scope t).1 = [f] ∧ f.path = t.label.path ∧
          f.node = t.label.tree
      else (functionStep language scope t).1 = [] := by
  unfold Spot.isError at herror
  unfold functionStep Spot.isFunction
  simp only [herror, Bool.false_and, Bool.false_eq_true, if_false]
  by_cases hclass : t.label.tree.label.isClass = true
  · rw [if_pos hclass, isFunction_eq_false_of_isClass hclass]
    exact ⟨_, rfl, rfl⟩
  · rw [if_neg hclass]
    split
    · exact ⟨_, rfl, _, rfl, rfl, rfl⟩
    · exact ⟨_, rfl, rfl⟩

/-- The branches among some spots. -/
def decisionsIn (spots : List (Tree (Spot SyntaxNode))) : List (Tree (Spot SyntaxNode)) :=
  spots.filter (·.label.tree.isDecision)

theorem decisionsIn_cons_of_not {s : Tree (Spot SyntaxNode)}
    (h : s.label.tree.isDecision = false) (rest : List (Tree (Spot SyntaxNode))) :
    decisionsIn (s :: rest) = decisionsIn rest :=
  List.filter_cons_of_neg (by simp [h])

/-- The branches that belong to a function. -/
def decisionsOf (f : FunctionDef) : List (Tree (Spot SyntaxNode)) :=
  decisionsIn (f.node.ownSpots f.path)

/-- The branches at and below a spot are those outside functions and those of the functions found
there. -/
def Divided (language : Language) (scope : ClassScope) (t : Tree (Spot SyntaxNode)) : Prop :=
  (decisionsIn (t.reach Spot.isError Spot.isFunction) ++
    (t.collect (functionStep language) scope).flatMap decisionsOf).Perm
      (decisionsIn (t.reach Spot.isError fun _ => false))

section divided

variable {language : Language} {scope : ClassScope}

theorem divided_all {ts : List (Tree (Spot SyntaxNode))}
    (h : ∀ t ∈ ts, Divided language scope t) :
    (decisionsIn (reachAll Spot.isError Spot.isFunction ts) ++
      (collectAll (functionStep language) scope ts).flatMap decisionsOf).Perm
        (decisionsIn (reachAll Spot.isError (fun _ => false) ts)) := by
  rw [reachAll_eq_flatMap, reachAll_eq_flatMap, collectAll_eq_flatMap, List.flatMap_assoc]
  unfold Divided decisionsIn at h
  unfold decisionsIn
  rw [List.filter_flatMap, List.filter_flatMap]
  exact (List.flatMap_append_perm ts _ _).trans (List.Perm.flatMap_left ts h)

theorem divided_of_isError {t : Tree (Spot SyntaxNode)}
    (herror : t.label.isError = true) (hpath : t.label.path ≠ []) :
    Divided language scope t := by
  have hstep := functionStep_of_isError language scope herror hpath
  unfold Divided
  rw [reach_of_skip herror, reach_of_skip herror, collect_of_left (by rw [hstep]), hstep]
  exact List.Perm.refl _

/-- A spot is divided if the spots below it are. -/
theorem divided_of_entered {path : List Nat} {t : Tree SyntaxNode}
    (herror : t.label.isError = false)
    (h : ∀ scope, ∀ u ∈ (t.spots path).children, Divided language scope u) :
    Divided language scope (t.spots path) := by
  have henter : (t.spots path).label.isError = false := by
    rw [label_spots]
    exact herror
  obtain ⟨below, hbelow, hfound⟩ := functionStep_of_entered language scope henter
  have hrest := divided_all (h below)
  unfold Divided
  rw [reach_of_not_skip henter, reach_of_not_skip henter, collect_of_entered hbelow,
    List.flatMap_append]
  by_cases hfunction : (t.spots path).label.isFunction = true
  · -- a function stands on both sides, but it is no branch
    rw [if_pos hfunction, label_spots] at hfound
    obtain ⟨f, hf, hplace, hnode⟩ := hfound
    have hno : (t.spots path).label.tree.isDecision = false := by
      rw [label_spots] at hfunction ⊢
      exact isDecision_eq_false_of_isFunction hfunction
    rw [hf, List.flatMap_singleton, decisionsOf, ownSpots, ownSubtrees, hplace, hnode,
      if_pos hfunction, decisionsIn_cons_of_not hno, decisionsIn_cons_of_not hno,
      decisionsIn_cons_of_not hno]
    exact hrest
  · rw [if_neg hfunction] at hfound
    rw [hfound, List.flatMap_nil, List.nil_append, if_neg hfunction]
    unfold decisionsIn at hrest ⊢
    rw [List.filter_cons, List.filter_cons]
    split
    · exact hrest.cons _
    · exact hrest

end divided

theorem divided_spots (language : Language) (scope : ClassScope) (t : Tree SyntaxNode)
    {path : List Nat} (hpath : path ≠ []) : Divided language scope (t.spots path) := by
  induction t generalizing path scope with
  | node a cs ih =>
      by_cases herror : a.isError = true
      · exact divided_of_isError herror hpath
      · apply divided_of_entered (t := .node a cs) (Bool.eq_false_iff.mpr herror)
        intro scope u hu
        obtain ⟨i, c, hc, rfl⟩ := mem_spotsAll hu
        exact ih c hc scope (by simp)

/-- If the root is well-formed and no function, each branch of a tree is either outside of all
functions or belongs to exactly one function. So the branches of the whole tree are as many as
those outside and those of each function together. -/
theorem decisions_divided (ast : SourceTree) (herror : ast.root.label.isError = false)
    (hfunction : ast.root.label.isFunction = false) :
    (ast.root.decisionPaths []).Nodup ∧
      (ast.root.ownDecisionPaths [] ++
        ast.functions.flatMap fun f => f.node.ownDecisionPaths f.path).Perm
          (ast.root.decisionPaths []) ∧
      ast.root.allDecisionPoints = ast.root.decisionPoints +
        (ast.functions.map fun f => f.node.decisionPoints).sum := by
  have hdivided : Divided ast.language ⟨none, false⟩ (ast.root.spots []) := by
    apply divided_of_entered herror
    intro scope u hu
    rw [children_spots] at hu
    obtain ⟨i, c, -, rfl⟩ := mem_spotsAll hu
    exact divided_spots ast.language scope c (by simp)
  have hroot : (ast.root.spots []).reach Spot.isError Spot.isFunction = ast.root.ownSpots [] := by
    have henter : (ast.root.spots []).label.isError = false := by
      rw [label_spots]
      exact herror
    have hopen : ¬ (ast.root.spots []).label.isFunction = true := by
      rw [label_spots]
      exact Bool.eq_false_iff.mp hfunction
    rw [reach_of_not_skip henter, if_neg hopen]
    rfl
  have hperm : (ast.root.ownDecisionPaths [] ++
      ast.functions.flatMap fun f => f.node.ownDecisionPaths f.path).Perm
        (ast.root.decisionPaths []) := by
    unfold Divided at hdivided
    rw [hroot] at hdivided
    have hpaths := hdivided.map (·.label.path)
    rw [List.map_append, List.map_flatMap] at hpaths
    exact hpaths
  refine ⟨nodup_decisionPaths [] ast.root, hperm, ?_⟩
  have hlength := hperm.length_eq
  simp only [List.length_append, List.length_flatMap, length_ownDecisionPaths,
    length_decisionPaths] at hlength
  exact hlength.symm

/-! ## Two functions, one in the other -/

/-- A binary expression of a logical operator. -/
def logicalExpression (field : Option String) (operator : String) (start place stop : Nat)
    (left right : Tree GrammarNode) : Tree GrammarNode :=
  grammarNode "binary_expression" field start stop
    [left, .node ⟨operator, place, place + operator.length, some "operator", false, false⟩ [],
      right]

/-- A function in parentheses of one parameter, with its body. -/
def arrowInParentheses (start stop : Nat) (body : Tree GrammarNode) : Tree GrammarNode :=
  grammarNode "parenthesized_expression" (some "right") start stop
    [grammarToken "(" start (start + 1),
      grammarNode "arrow_function" none (start + 1) (stop - 1)
        [grammarNode "identifier" (some "parameter") (start + 1) (start + 2) [],
          grammarToken "=>" (start + 2) (start + 4), body],
      grammarToken ")" (stop - 1) stop]

/-- The tree of `p&&(a=>a||(b=>b?a:b))`: one branch outside, and one in each function. -/
def guardedArrows : SourceTree :=
  .ofGrammar defaultNodeBudget "p&&(a=>a||(b=>b?a:b))" "a.js" .javascript
    { root := grammarNode "program" none 0 21 [grammarNode "expression_statement" none 0 21
        [logicalExpression none "&&" 0 1 21 (grammarNode "identifier" (some "left") 0 1 [])
          (arrowInParentheses 3 21
            (logicalExpression (some "body") "||" 7 8 20
              (grammarNode "identifier" (some "left") 7 8 [])
              (arrowInParentheses 10 20
                (grammarNode "ternary_expression" (some "body") 14 19
                  [grammarNode "identifier" (some "condition") 14 15 [], grammarToken "?" 15 16,
                    grammarNode "identifier" (some "consequence") 16 17 [],
                    grammarToken ":" 17 18,
                    grammarNode "identifier" (some "alternative") 18 19 []]))))]]
      hasError := false }

theorem guardedArrows_divided :
    guardedArrows.root.label.isError = false ∧ guardedArrows.root.label.isFunction = false ∧
      guardedArrows.functions.length = 2 ∧ guardedArrows.root.allDecisionPoints = 3 ∧
      (guardedArrows.root.decisionPaths []).Nodup ∧
      (guardedArrows.root.ownDecisionPaths [] ++
        guardedArrows.functions.flatMap fun f => f.node.ownDecisionPaths f.path).Perm
          (guardedArrows.root.decisionPaths []) ∧
      guardedArrows.root.allDecisionPoints = guardedArrows.root.decisionPoints +
        (guardedArrows.functions.map fun f => f.node.decisionPoints).sum :=
  ⟨rfl, rfl, rfl, rfl, decisions_divided guardedArrows rfl rfl⟩

end CodeHealth
