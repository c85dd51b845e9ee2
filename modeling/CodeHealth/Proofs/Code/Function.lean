import CodeHealth.Code.Function
import CodeHealth.Proofs.Tree.Subtree

/-!
# Functions of a tree

The functions of a tree and their bodies are subtrees of it.
-/

namespace CodeHealth

open CodeHealth.Tree

/-- A function at a node, as the step there describes it. -/
theorem of_mem_functionStep {language : Language} {scope : ClassScope}
    {t : Tree (Spot SyntaxNode)} {f : FunctionDef} (hf : f ∈ (functionStep language scope t).1) :
    t.label.tree.label.isFunction = true ∧ f.path = t.label.path ∧ f.node = t.label.tree ∧
      f.className = (if scope.direct then scope.className else none) ∧
      f.parameters = f.node.parameterNames language scope.direct := by
  unfold functionStep at hf
  dsimp only at hf
  split at hf
  · exact absurd hf List.not_mem_nil
  · split at hf
    · exact absurd hf List.not_mem_nil
    · split at hf
      · rename_i hfunction
        obtain rfl := List.mem_singleton.mp hf
        exact ⟨hfunction, rfl, rfl, rfl, rfl⟩
      · exact absurd hf List.not_mem_nil

theorem node_mem_subtrees_of_mem_functions {ast : SourceTree} {f : FunctionDef}
    (hf : f ∈ ast.functions) : f.node ∈ ast.root.subtrees := by
  obtain ⟨u, hu, scope, hf⟩ := exists_step_of_mem_collect hf
  rw [(of_mem_functionStep hf).2.2.1]
  exact tree_mem_subtrees_of_mem_spots hu

theorem bodyOf_mem_subtrees {α : Type} (nodeOf : α → SyntaxNode) (t : Tree α) :
    t.bodyOf nodeOf ∈ t.subtrees := by
  unfold bodyOf
  cases hbody : t.children.find? fun c => (nodeOf c.label).field == some "body" with
  | none => exact self_mem_subtrees t
  | some body => exact child_mem_subtrees (List.mem_of_find?_eq_some hbody)

theorem mem_subtrees_of_mem_ownSubtrees {α : Type} {nodeOf : α → SyntaxNode} {t u : Tree α}
    (hu : u ∈ t.ownSubtrees nodeOf) : u ∈ t.subtrees := by
  rcases List.mem_cons.mp hu with rfl | hu
  · exact self_mem_subtrees u
  · rw [reachAll_eq_flatMap] at hu
    obtain ⟨c, hc, hu⟩ := List.mem_flatMap.mp hu
    exact subtrees_trans (mem_subtrees_of_mem_reach hu) (child_mem_subtrees hc)

end CodeHealth
