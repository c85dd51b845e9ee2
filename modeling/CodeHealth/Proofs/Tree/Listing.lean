import CodeHealth.Proofs.Tree.Parse
import CodeHealth.Proofs.Tree.Spot

/-!
# Listings

The subtrees of a tree in pre-order, each at its place. A normalized tree lists the first rows of
the grammar's tree: no node is lost, doubled, moved or put below another one.
-/

namespace CodeHealth

namespace Tree

variable {α : Type}

/-! ## Subtrees at their places -/

/-- The subtrees in pre-order, each at its place. -/
def listing (path : List Nat) (t : Tree α) : List (Spot α) :=
  (t.spots path).subtrees.map label

/-- The subtrees of some siblings, the first of which has the given index. -/
def listingAll (path : List Nat) (index : Nat) (ts : List (Tree α)) : List (Spot α) :=
  (spotsAll path index ts).flatMap fun u => u.subtrees.map label

theorem listing_node (path : List Nat) (a : α) (cs : List (Tree α)) :
    (node a cs).listing path = ⟨path, node a cs⟩ :: listingAll path 0 cs := by
  unfold listing listingAll
  rw [spots, subtrees_node, List.map_cons, List.map_flatMap]
  rfl

theorem listingAll_cons (path : List Nat) (index : Nat) (t : Tree α) (ts : List (Tree α)) :
    listingAll path index (t :: ts) =
      t.listing (path ++ [index]) ++ listingAll path (index + 1) ts :=
  rfl

mutual

theorem length_listing (path : List Nat) : ∀ t : Tree α, (t.listing path).length = t.size
  | .node a cs => by rw [listing_node, List.length_cons, length_listingAll path 0 cs, size]

theorem length_listingAll (path : List Nat) :
    ∀ (index : Nat) (ts : List (Tree α)), (listingAll path index ts).length = sizeAll ts
  | _, [] => rfl
  | index, t :: ts => by
      rw [listingAll_cons, List.length_append, length_listing (path ++ [index]) t,
        length_listingAll path (index + 1) ts, sizeAll]

end

/-! ## The first subtrees -/

/-- The place and the label of a subtree. -/
def Spot.mark (s : Spot α) : List Nat × α :=
  (s.path, s.tree.label)

mutual

/-- The first nodes of a tree stand where they stood. -/
theorem listing_take (path : List Nat) : ∀ (t : Tree α) (count : Nat),
    ((t.take count).listing path).map Spot.mark =
      ((t.listing path).map Spot.mark).take (max 1 count)
  | .node a cs, count => by
      have hcount : max 1 count = count - 1 + 1 := by omega
      rw [take, listing_node, listing_node, List.map_cons, List.map_cons, hcount,
        List.take_succ_cons, listingAll_takeAll path 0 cs (count - 1)]
      rfl

theorem listingAll_takeAll (path : List Nat) :
    ∀ (index : Nat) (ts : List (Tree α)) (count : Nat),
      (listingAll path index (takeAll count ts)).map Spot.mark =
        ((listingAll path index ts).map Spot.mark).take count
  | _, [], count => by
      rw [takeAll]
      exact List.take_nil.symm
  | index, t :: ts, count => by
      rw [takeAll]
      split
      · rename_i hcount
        rw [beq_iff_eq.mp hcount]
        rfl
      · rename_i hcount
        have hcount : max 1 count = count := by
          simp only [beq_iff_eq] at hcount
          omega
        rw [listingAll_cons, listingAll_cons, List.map_append, List.map_append,
          listing_take (path ++ [index]) t count,
          listingAll_takeAll path (index + 1) ts (count - t.size), List.take_append,
          List.length_map, length_listing, hcount]

end

end Tree

/-! ## Normalized trees -/

open CodeHealth.Tree

/-- A row of a listing: where a node stands, what it is, what it covers, and whether it carries a
text. Its depth is the length of its place. -/
structure Row where
  place : List Nat
  kind : String
  field : Option String
  startByte : Nat
  endByte : Nat
  startLine : Nat
  startColumn : Nat
  endLine : Nat
  endColumn : Nat
  named : Bool
  isError : Bool
  hasText : Bool

/-- The row of a normalized node. -/
def SyntaxNode.row (place : List Nat) (n : SyntaxNode) : Row :=
  { place, kind := n.kind, field := n.field, startByte := n.startByte, endByte := n.endByte
    startLine := n.startLine, startColumn := n.startColumn, endLine := n.endLine
    endColumn := n.endColumn, named := n.named, isError := n.isError
    hasText := n.text.isSome }

/-- The row of a node of a grammar's tree. Its root stands in no field, and just its leaves have a
text. -/
def Tree.Spot.grammarRow (source : Normalize.Source) (s : Spot GrammarNode) : Row :=
  let n := s.tree.label
  let first := Text.pointAt source.list n.startByte
  let last := Text.pointAt source.list n.endByte
  { place := s.path, kind := n.kind, field := if s.path.isEmpty then none else n.field
    startByte := n.startByte, endByte := n.endByte
    startLine := first.row + 1, startColumn := first.column
    endLine := last.row + 1, endColumn := last.column
    named := n.named, isError := n.isError, hasText := s.tree.children.isEmpty }

/-- The rows of a normalized tree. -/
def Tree.rowsOf (t : Tree SyntaxNode) : List Row :=
  (t.listing []).map fun s => s.tree.label.row s.path

/-- The rows of a grammar's tree over a text. -/
def Tree.grammarRows (text : String) (t : Tree GrammarNode) : List Row :=
  (t.listing []).map (Spot.grammarRow (Normalize.Source.ofText text))

namespace Normalize

variable {source : Source}

theorem row_nodeOf {path : List Nat} {family : Option Family} (t : Tree GrammarNode)
    (hroot : family.isSome = !path.isEmpty) :
    (nodeOf source family t).row path = Spot.grammarRow source ⟨path, t⟩ := by
  unfold nodeOf SyntaxNode.row Spot.grammarRow
  cases path <;> cases htext : t.children.isEmpty <;> simp_all

mutual

theorem map_row_full (source : Source) :
    ∀ (path : List Nat) (family : Option Family) (t : Tree GrammarNode),
      family.isSome = !path.isEmpty →
        ((full source family t).listing path).map (fun s => s.tree.label.row s.path) =
          (t.listing path).map (Spot.grammarRow source)
  | path, family, .node n cs, hroot => by
      rw [full, listing_node, listing_node, List.map_cons, List.map_cons,
        map_row_fullAll source cs path 0 cs]
      exact congrArg (· :: _) (row_nodeOf (.node n cs) hroot)

theorem map_row_fullAll (source : Source) (siblings : List (Tree GrammarNode)) :
    ∀ (path : List Nat) (index : Nat) (ts : List (Tree GrammarNode)),
      (listingAll path index (fullAll source siblings index ts)).map
          (fun s => s.tree.label.row s.path) =
        (listingAll path index ts).map (Spot.grammarRow source)
  | _, _, [] => rfl
  | path, index, t :: ts => by
      have hinner : (some (Family.mk siblings index)).isSome = !(path ++ [index]).isEmpty := by
        simp
      rw [fullAll, listingAll_cons, listingAll_cons, List.map_append, List.map_append,
        map_row_full source (path ++ [index]) _ t hinner,
        map_row_fullAll source siblings path (index + 1) ts]

end

end Normalize

/-- A budget keeps the root and the first nodes after it, as many as it reaches. All rows of the
normalized tree are the first rows of the grammar's tree. -/
theorem normalize_keeps_first (text : String) (budget : Int) (root : Tree GrammarNode) :
    (normalize text budget root).tree.size = min root.size (max 1 budget.toNat) ∧
      (normalize text budget root).count = min root.size (max 1 budget.toNat) ∧
      (normalize text budget root).tree.rowsOf =
        (root.grammarRows text).take (min root.size (max 1 budget.toNat)) := by
  rw [normalize_eq]
  let whole := Normalize.full (Normalize.Source.ofText text) none root
  have hpos := root.size_pos
  have hsize : whole.size = root.size := Normalize.size_full _ none root
  have hrow : ∀ t : Tree SyntaxNode, t.rowsOf =
      ((t.listing []).map Spot.mark).map fun m => m.2.row m.1 := by
    intro t
    rw [List.map_map]
    rfl
  have hrows : (whole.take budget.toNat).rowsOf = (root.grammarRows text).take
      (max 1 budget.toNat) := by
    calc (whole.take budget.toNat).rowsOf
        = (((whole.listing []).map Spot.mark).take (max 1 budget.toNat)).map
            fun m => m.2.row m.1 := by rw [hrow, listing_take]
      _ = whole.rowsOf.take (max 1 budget.toNat) := by rw [List.map_take, ← hrow]
      _ = (root.grammarRows text).take (max 1 budget.toNat) := by
          rw [rowsOf, Normalize.map_row_full _ [] none root rfl]
          rfl
  have hlength : (root.grammarRows text).length = root.size := by
    rw [grammarRows, List.length_map, length_listing]
  refine ⟨?_, rfl, ?_⟩
  · rw [size_take, hsize]
    omega
  · rw [hrows, ← hlength, Nat.min_comm, ← List.take_take, List.take_length]

end CodeHealth
