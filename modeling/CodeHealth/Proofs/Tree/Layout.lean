import CodeHealth.Proofs.Tree.Subtree
import CodeHealth.Tree.Syntax
import Mathlib.Logic.Relation

/-!
# Comments and layout

Two trees are of the same code if they become equal once comments are dropped and places are
forgotten. Such trees have tokens with the same texts.
-/

namespace CodeHealth

/-- A node without its place. A leaf tells whether it covers any bytes. -/
structure Unplaced where
  kind : String
  named : Bool
  field : Option String
  name : Option String
  text : Option String
  isError : Bool
  empty : Option Bool

def SyntaxNode.unplaced (n : SyntaxNode) (isLeaf : Bool) : Unplaced :=
  { kind := n.kind
    named := n.named
    field := n.field
    name := n.name
    text := n.text
    isError := n.isError
    empty := if isLeaf then some n.isEmpty else none }

namespace Tree

variable {α β γ : Type} {t u : Tree SyntaxNode} {n m : SyntaxNode} {cs ds : List (Tree SyntaxNode)}

mutual

/-- A tree without the places of its nodes. -/
def unplaced : Tree SyntaxNode → Tree Unplaced
  | .node n cs => .node (n.unplaced cs.isEmpty) (unplacedAll cs)

def unplacedAll : List (Tree SyntaxNode) → List (Tree Unplaced)
  | [] => []
  | t :: ts => unplaced t :: unplacedAll ts

end

/-- Some comment without children is dropped from a node that keeps another child. -/
inductive DropsComment : Tree SyntaxNode → Tree SyntaxNode → Prop where
  | child (n comment : SyntaxNode) (before after : List (Tree SyntaxNode))
      (hkind : commentKinds.contains comment.kind = true) (hkept : before ++ after ≠ []) :
      DropsComment (.node n (before ++ .node comment [] :: after)) (.node n (before ++ after))
  | inside (n : SyntaxNode) (before after : List (Tree SyntaxNode)) {t u : Tree SyntaxNode}
      (h : DropsComment t u) :
      DropsComment (.node n (before ++ t :: after)) (.node n (before ++ u :: after))

/-- Two trees become equal once some comments are dropped from each and places are forgotten. -/
def SameCode (t u : Tree SyntaxNode) : Prop :=
  ∃ t' u', Relation.ReflTransGen DropsComment t t' ∧ Relation.ReflTransGen DropsComment u u' ∧
    t'.unplaced = u'.unplaced

/-- What neither a dropped comment nor places change is equal for trees of the same code. -/
theorem SameCode.eq_of {f : Tree SyntaxNode → β} (h : SameCode t u)
    (hdrops : ∀ t u, DropsComment t u → f t = f u)
    (hplaces : ∀ t u, t.unplaced = u.unplaced → f t = f u) : f t = f u := by
  obtain ⟨t', u', ht, hu, hequal⟩ := h
  have hrun : ∀ {t t' : Tree SyntaxNode}, Relation.ReflTransGen DropsComment t t' → f t = f t' := by
    intro t t' hdropped
    induction hdropped with
    | refl => rfl
    | tail _ hlast ih => exact ih.trans (hdrops _ _ hlast)
  rw [hrun ht, hrun hu, hplaces t' u' hequal]

/-! ## Trees without places -/

theorem unplacedAll_eq_map (ts : List (Tree SyntaxNode)) : unplacedAll ts = ts.map unplaced := by
  induction ts with
  | nil => rfl
  | cons t ts ih => rw [unplacedAll, ih, List.map_cons]

theorem unplaced_node_eq_iff :
    (node n cs).unplaced = (node m ds).unplaced ↔
      n.unplaced cs.isEmpty = m.unplaced ds.isEmpty ∧ cs.map unplaced = ds.map unplaced := by
  rw [unplaced, unplaced, Tree.node.injEq, unplacedAll_eq_map, unplacedAll_eq_map]

/-- Lists with equal images are joined alike by a function that reads the images only. -/
theorem flatMap_eq_of_map_eq {f : α → β} {g : α → List γ} {xs ys : List α}
    (h : xs.map f = ys.map f) (hg : ∀ x ∈ xs, ∀ y, f x = f y → g x = g y) :
    xs.flatMap g = ys.flatMap g := by
  induction xs generalizing ys with
  | nil =>
      obtain rfl := List.map_eq_nil_iff.mp h.symm
      rfl
  | cons x xs ih =>
      obtain ⟨y, ys, rfl, hxy, hrest⟩ := List.map_eq_cons_iff.mp h.symm
      rw [List.flatMap_cons, List.flatMap_cons, hg x List.mem_cons_self y hxy.symm,
        ih hrest.symm fun z hz => hg z (List.mem_cons_of_mem _ hz)]

/-! ## Tokens -/

theorem tokens_leaf (n : SyntaxNode) :
    (node n []).tokens =
      if n.isError || n.isEmpty || commentKinds.contains n.kind then [] else [node n []] := by
  unfold tokens walk
  rw [reach]
  cases herror : n.isError with
  | true => rfl
  | false =>
      simp only [Bool.false_eq_true, if_false, Bool.false_or, reachAll, List.filter_cons,
        List.filter_nil, isToken, children, label, kind, List.isEmpty_nil, Bool.true_and]
      cases n.isEmpty <;> cases commentKinds.contains n.kind <;> rfl

theorem tokens_inner (n : SyntaxNode) (hcs : cs ≠ []) :
    (node n cs).tokens = if n.isError then [] else cs.flatMap tokens := by
  have htoken : (node n cs).isToken = false := by simp [isToken, children, hcs]
  unfold tokens walk
  rw [reach, reachAll_eq_flatMap]
  cases n.isError with
  | true => rfl
  | false =>
      rw [if_neg Bool.false_ne_true, if_neg Bool.false_ne_true, if_neg Bool.false_ne_true,
        List.filter_cons_of_neg (by simp [htoken]), List.filter_flatMap]

theorem tokens_comment (hkind : commentKinds.contains n.kind = true) : (node n []).tokens = [] := by
  rw [tokens_leaf, hkind, Bool.or_true, if_pos rfl]

theorem DropsComment.tokens_eq (h : DropsComment t u) : t.tokens = u.tokens := by
  induction h with
  | child n comment before after hkind hkept =>
      rw [tokens_inner n (by simp), tokens_inner n hkept, List.flatMap_append, List.flatMap_cons,
        tokens_comment hkind, List.nil_append, ← List.flatMap_append]
  | inside n before after h ih =>
      rw [tokens_inner n (by simp), tokens_inner n (by simp), List.flatMap_append,
        List.flatMap_append, List.flatMap_cons, List.flatMap_cons, ih]

theorem map_text_tokens_of_unplaced (h : t.unplaced = u.unplaced) :
    t.tokens.map (fun k => k.label.text) = u.tokens.map fun k => k.label.text := by
  induction t generalizing u with
  | node n cs ih =>
      obtain ⟨m, ds⟩ := u
      obtain ⟨hlabel, hchildren⟩ := unplaced_node_eq_iff.mp h
      simp only [SyntaxNode.unplaced, Unplaced.mk.injEq] at hlabel
      obtain ⟨hkind, -, -, -, htext, herror, hempty⟩ := hlabel
      -- equal children make both nodes leaves or neither
      by_cases hcs : cs = []
      · subst hcs
        obtain rfl := List.map_eq_nil_iff.mp hchildren.symm
        have hempty : n.isEmpty = m.isEmpty := by simpa using hempty
        rw [tokens_leaf, tokens_leaf, hkind, herror, hempty]
        split
        · rfl
        · simp only [List.map_cons, List.map_nil, label, htext]
      · have hds : ds ≠ [] := by
          rintro rfl
          exact hcs (List.map_eq_nil_iff.mp hchildren)
        rw [tokens_inner n hcs, tokens_inner m hds, herror]
        split
        · rfl
        · rw [List.map_flatMap, List.map_flatMap]
          exact flatMap_eq_of_map_eq hchildren fun c hc d hcd => ih c hc hcd

/-- The tokens of the same code have the same texts. -/
theorem SameCode.map_text_tokens (h : SameCode t u) :
    t.tokens.map (fun k => k.label.text) = u.tokens.map fun k => k.label.text :=
  h.eq_of (fun _ _ hdrops => by rw [hdrops.tokens_eq]) fun _ _ => map_text_tokens_of_unplaced

end Tree

end CodeHealth
