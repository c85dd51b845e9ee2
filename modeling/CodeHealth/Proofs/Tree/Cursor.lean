import CodeHealth.Proofs.Tree.Subtree
import CodeHealth.Tree.Cursor

/-!
# What a walk copies

The open nodes of a walk stay in step with the nodes above its cursor, whatever height it climbs.
So at every moment the copy will be the open nodes, each with its share of the forest that the
cursor has not come to, and a walk copies the first nodes of its tree.
-/

namespace CodeHealth.Tree

variable {α : Type}

/-! ## Open nodes -/

theorem takeAll_zero (ts : List (Tree α)) : takeAll 0 ts = [] := by
  cases ts <;> rfl

namespace OpenNode

/-- The node with its copied children and further ones. -/
def closeWith (o : OpenNode α) (ts : List (Tree α)) : Tree α :=
  .node o.label (o.copied.reverse ++ ts)

theorem closeWith_nil (o : OpenNode α) : o.closeWith [] = o.close := by
  unfold closeWith close
  rw [List.append_nil]

theorem closeWith_cons (o : OpenNode α) (t : Tree α) (ts : List (Tree α)) :
    o.closeWith (t :: ts) = (o.add t).closeWith ts := by
  unfold closeWith add
  rw [List.reverse_cons, List.append_assoc]
  rfl

/-- Some open nodes, the innermost first, closed one after the other. Each first gets what the count
leaves it of its forest. -/
def fill : Nat → OpenNode α → List (OpenNode α) → List (List (Tree α)) → Tree α
  | _, o, ps, [] => Draft.close ⟨o, ps⟩
  | count, o, [], ts :: _ => o.closeWith (takeAll count ts)
  | count, o, p :: ps, ts :: forests =>
    fill (count - sizeAll ts) (p.add (o.closeWith (takeAll count ts))) ps forests

variable {o p : OpenNode α} {ps : List (OpenNode α)} {forests : List (List (Tree α))}

theorem fill_zero (o : OpenNode α) (ps : List (OpenNode α)) (forests : List (List (Tree α))) :
    fill 0 o ps forests = Draft.close ⟨o, ps⟩ := by
  induction ps generalizing o forests with
  | nil =>
      cases forests with
      | nil => rfl
      | cons ts forests =>
          rw [fill, takeAll_zero, closeWith_nil]
          rfl
  | cons p ps ih =>
      cases forests with
      | nil => rfl
      | cons ts forests =>
          rw [fill, takeAll_zero, closeWith_nil, Nat.zero_sub, ih]
          rfl

/-- A node whose forest is empty is closed as it is. -/
theorem fill_up (count : Nat) :
    fill count o (p :: ps) ([] :: forests) = fill count (p.add o.close) ps forests := by
  rw [fill, takeAll, sizeAll, closeWith_nil, Nat.sub_zero]

/-- The first tree of a forest is a node to open. -/
theorem fill_below (count : Nat) (t : Tree α) (ts : List (Tree α)) :
    fill (count + 1) o ps ((t :: ts) :: forests) =
      fill count ⟨t.label, []⟩ (o :: ps) (t.children :: ts :: forests) := by
  obtain ⟨a, cs⟩ := t
  have hopened : closeWith ⟨a, []⟩ (takeAll count cs) = (node a cs).take (count + 1) := by
    rw [take]
    rfl
  have hfirst : takeAll (count + 1) (node a cs :: ts) =
      (node a cs).take (count + 1) :: takeAll (count - sizeAll cs) ts := by
    rw [takeAll, size, Nat.add_sub_add_right]
    rfl
  have hspent : count + 1 - sizeAll (node a cs :: ts) = count - sizeAll cs - sizeAll ts := by
    rw [sizeAll, size]
    omega
  cases ps with
  | nil => rw [fill, fill, fill, hfirst, closeWith_cons, ← hopened]; rfl
  | cons p ps => rw [fill, fill, fill, hfirst, hspent, closeWith_cons, ← hopened]; rfl

end OpenNode

/-! ## One step -/

namespace Walk

variable {w next : Walk α} {last : OpenNode α} {parents : List (OpenNode α)}
  {later : List (Tree α)} {above : List (Tree α × List (Tree α))}

/-- As many nodes are open as stand above the cursor, and the root has no siblings. -/
inductive InStep : List (Tree α) → List (Tree α × List (Tree α)) → List (OpenNode α) → Prop where
  | root : InStep [] [] []
  | inner {later later' : List (Tree α)} {above : List (Tree α × List (Tree α))} {t : Tree α}
      {p : OpenNode α} {ps : List (OpenNode α)} (h : InStep later' above ps) :
      InStep later ((t, later') :: above) (p :: ps)

def Aligned (w : Walk α) : Prop :=
  InStep w.cursor.later w.cursor.above w.draft.parents

/-- The forests that the cursor has not come to: the one below it, and those after it and after the
nodes above it, the nearest first. -/
def ahead (w : Walk α) : List (List (Tree α)) :=
  w.cursor.tree.children :: w.cursor.later :: w.cursor.above.map Prod.snd

/-- What a walk will have copied when it has copied as many further nodes. -/
def filled (count : Nat) (w : Walk α) : Tree α :=
  OpenNode.fill count w.draft.last w.draft.parents w.ahead

/-- The number of nodes in some forests. -/
def sizeAhead : List (List (Tree α)) → Nat
  | [] => 0
  | ts :: forests => sizeAll ts + sizeAhead forests

theorem sizeAhead_nil (forests : List (List (Tree α))) :
    sizeAhead ([] :: forests) = sizeAhead forests := by
  rw [sizeAhead, sizeAll, Nat.zero_add]

theorem sizeAhead_cons (t : Tree α) (ts : List (Tree α)) (forests : List (List (Tree α))) :
    sizeAhead ((t :: ts) :: forests) = sizeAhead (t.children :: ts :: forests) + 1 := by
  cases t
  simp only [sizeAhead, children, sizeAll, size]
  omega

theorem filled_zero (w : Walk α) : w.filled 0 = w.draft.close :=
  OpenNode.fill_zero _ _ _

theorem climb?_eq_some (haligned : InStep later above parents)
    (h : climb? ⟨last, parents⟩ later above = some next) :
    next.Aligned ∧ sizeAhead next.ahead + 1 = sizeAhead (later :: above.map Prod.snd) ∧
      ∀ count, OpenNode.fill (count + 1) last parents ([] :: later :: above.map Prod.snd) =
        next.filled count := by
  induction above generalizing last parents later with
  | nil =>
      cases haligned
      exact nomatch h
  | cons node above ih =>
      cases haligned with
      | @inner _ later' _ parent p ps hrest =>
          cases later with
          | nil =>
              obtain ⟨hnext, hsize, hfilled⟩ := ih hrest h
              refine ⟨hnext, ?_, fun count => ?_⟩
              · rw [hsize, sizeAhead_nil, List.map_cons]
              · rw [← hfilled, OpenNode.fill_up, List.map_cons]
          | cons t ts =>
              obtain rfl := Option.some.inj h
              refine ⟨.inner hrest, (sizeAhead_cons t ts _).symm, fun count => ?_⟩
              rw [OpenNode.fill_up, OpenNode.fill_below]
              rfl

theorem climb?_eq_none (haligned : InStep later above parents)
    (h : climb? ⟨last, parents⟩ later above = none) :
    sizeAhead (later :: above.map Prod.snd) = 0 ∧
      ∀ count, OpenNode.fill count last parents ([] :: later :: above.map Prod.snd) =
        Draft.close ⟨last, parents⟩ := by
  induction above generalizing last parents later with
  | nil =>
      cases haligned
      refine ⟨rfl, fun count => ?_⟩
      rw [OpenNode.fill, takeAll, OpenNode.closeWith_nil]
      rfl
  | cons node above ih =>
      cases haligned with
      | @inner _ later' _ parent p ps hrest =>
          cases later with
          | nil =>
              obtain ⟨hsize, hfilled⟩ := ih hrest h
              refine ⟨?_, fun count => ?_⟩
              · rw [List.map_cons, sizeAhead_nil, hsize]
              · rw [OpenNode.fill_up, List.map_cons, hfilled]
                rfl
          | cons t ts => exact nomatch h

/-- A step keeps the open nodes in step with the cursor, and copies the first node ahead. -/
theorem next?_eq_some (haligned : w.Aligned) (h : w.next? = some next) :
    next.Aligned ∧ sizeAhead next.ahead + 1 = sizeAhead w.ahead ∧
      ∀ count, w.filled (count + 1) = next.filled count := by
  obtain ⟨⟨⟨a, cs⟩, later, above⟩, last, parents⟩ := w
  cases cs with
  | nil =>
      obtain ⟨hnext, hsize, hfilled⟩ := climb?_eq_some haligned h
      exact ⟨hnext, hsize.trans (sizeAhead_nil _).symm, hfilled⟩
  | cons c cs =>
      obtain rfl := Option.some.inj h
      exact ⟨.inner haligned, (sizeAhead_cons c cs _).symm,
        fun count => OpenNode.fill_below count c cs⟩

/-- A walk comes to its end where no node is ahead. -/
theorem next?_eq_none (haligned : w.Aligned) (h : w.next? = none) :
    sizeAhead w.ahead = 0 ∧ ∀ count, w.filled count = w.draft.close := by
  obtain ⟨⟨⟨a, cs⟩, later, above⟩, last, parents⟩ := w
  cases cs with
  | nil =>
      obtain ⟨hsize, hfilled⟩ := climb?_eq_none haligned h
      exact ⟨(sizeAhead_nil _).trans hsize, hfilled⟩
  | cons c cs => exact nomatch h

/-! ## A whole walk -/

theorem run_eq (haligned : w.Aligned) (left count : Nat) :
    w.run left count =
      ⟨w.filled left, count + min left (sizeAhead w.ahead), left ≤ sizeAhead w.ahead⟩ := by
  induction left generalizing w count with
  | zero => simp [run, filled_zero]
  | succ left ih =>
      rw [run]
      split
      · rename_i next hnext
        obtain ⟨hkept, hsize, hfilled⟩ := next?_eq_some haligned hnext
        rw [ih hkept, hfilled, ← hsize]
        have hcount : count + 1 + min left (sizeAhead next.ahead) =
            count + min (left + 1) (sizeAhead next.ahead + 1) := by
          omega
        simp [hcount]
      · rename_i hend
        obtain ⟨hsize, hfilled⟩ := next?_eq_none haligned hend
        rw [hfilled, hsize]
        simp

end Walk

/-- A walk copies the first nodes of the tree. It is broken off unless the budget exceeds the number
of nodes. -/
theorem copyWithin_eq (budget : Int) (t : Tree α) :
    t.copyWithin budget =
      ⟨t.take budget.toNat, min t.size (max 1 budget.toNat), budget ≤ t.size⟩ := by
  obtain ⟨a, cs⟩ := t
  have hahead : Walk.sizeAhead (Walk.start (node a cs)).ahead = sizeAll cs := rfl
  have hfilled : (Walk.start (node a cs)).filled (budget - 1).toNat =
      (node a cs).take budget.toNat := by
    have hleft : (budget - 1).toNat = budget.toNat - 1 := by omega
    rw [take, hleft]
    rfl
  have hcount : 1 + min (budget - 1).toNat (sizeAll cs) =
      min (sizeAll cs + 1) (max 1 budget.toNat) := by
    omega
  have hcut : (budget - 1).toNat ≤ sizeAll cs ↔ budget ≤ (sizeAll cs + 1 : Nat) := by
    omega
  have haligned : (Walk.start (node a cs)).Aligned := .root
  rw [copyWithin, Walk.run_eq haligned, hahead, hfilled, hcount, size, Copy.mk.injEq]
  exact ⟨rfl, rfl, decide_eq_decide.mpr hcut⟩

end CodeHealth.Tree
