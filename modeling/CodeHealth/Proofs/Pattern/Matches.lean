import CodeHealth.Pattern.Basic
import Mathlib.Data.List.Basic

/-!
# All matches

The matches of a pattern in a text from left to right, each of which starts at or behind the end of
the one before it. The first of them is what a search finds.
-/

namespace CodeHealth.Pattern

variable {pattern : Pattern} {p : Place} {found : List Place}

/-- The matches that start at a place: the preferred one and, where that one is empty, the
preferred one of those that are not. -/
def matchesAt (pattern : Pattern) (p : Place) : List Place :=
  match pattern.ends p with
  | [] => []
  | q :: others =>
    if q.rest.length < p.rest.length then [q]
    else q :: (others.find? fun r => r.rest.length < p.rest.length).toList

/-- How much of a text of the given length the last of some matches at its start covers. -/
def covered (length : Nat) (found : List Place) : Nat :=
  match found.getLast? with
  | some q => length - q.rest.length
  | none => 0

/-- The matches that start behind the given number of characters of the text after `before`. -/
def findFrom (pattern : Pattern) : Nat → Option Char → List Char → List Place
  | 0, before, [] => pattern.matchesAt ⟨before, [], []⟩
  | _ + 1, _, [] => []
  | 0, before, c :: cs =>
    let found := pattern.matchesAt ⟨before, c :: cs, []⟩
    found ++ findFrom pattern (covered (cs.length + 1) found - 1) (some c) cs
  | skip + 1, _, c :: cs => findFrom pattern skip (some c) cs

/-- The ends of all matches in a text that do not overlap, from left to right. -/
def findAll (pattern : Pattern) (cs : List Char) : List Place :=
  pattern.findFrom 0 none cs

example : ((lit "aa").findAll "aaaaa".toList).map (fun p => p.rest.length) = [3, 1] := by decide

/-- An empty match stands beside one that is not, as far as none overlaps another. -/
example : ((star (.char (· == 'a'))).findAll "baac".toList).map (fun p => p.rest.length) =
    [4, 1, 1, 0] := by decide

theorem head?_matchesAt (pattern : Pattern) (p : Place) :
    (pattern.matchesAt p).head? = (pattern.ends p).head? := by
  unfold matchesAt
  split
  · rename_i hnone
    rw [hnone]
  · rename_i q others hends
    rw [hends]
    split <;> rfl

theorem head?_findFrom (pattern : Pattern) (before : Option Char) (cs : List Char) :
    (pattern.findFrom 0 before cs).head? = pattern.searchFrom? before cs := by
  induction cs generalizing before with
  | nil => exact head?_matchesAt pattern ⟨before, [], []⟩
  | cons c cs ih =>
      have hhead := head?_matchesAt pattern ⟨before, c :: cs, []⟩
      rw [findFrom, searchFrom?, List.head?_append, ← hhead]
      cases hfound : pattern.matchesAt ⟨before, c :: cs, []⟩ with
      | nil => exact ih (some c)
      | cons q found => rfl

/-- The first match is the one that a search finds. -/
theorem head?_findAll (pattern : Pattern) (cs : List Char) :
    (pattern.findAll cs).head? = pattern.search? cs :=
  head?_findFrom pattern none cs

end CodeHealth.Pattern
