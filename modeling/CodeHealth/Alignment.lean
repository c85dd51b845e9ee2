import CodeHealth.Number.Rounding
import CodeHealth.Tally

/-!
# Alignment of sequences

Two sequences are aligned at their longest common block, the first in the first sequence and then in
the second, and on both sides of it in the same way. The share of aligned elements tells how
similar they are.
-/

namespace CodeHealth.Alignment

variable {α β : Type}

/-- For each place of the second sequence, the length of the common run of both that starts there
and with `a`; `next` holds these lengths for the element after `a`. -/
def runRow (same : α → β → Bool) (a : α) : List β → List Nat → List Nat
  | [], _ => []
  | b :: bs, next =>
    (if same a b then (next.drop 1).headD 0 + 1 else 0) :: runRow same a bs (next.drop 1)

/-- For each pair of places, the length of the common run that starts there. -/
def runRows (same : α → β → Bool) (as : List α) (bs : List β) : List (List Nat) :=
  match as with
  | [] => []
  | a :: rest =>
    let rows := runRows same rest bs
    runRow same a bs (rows.headD []) :: rows

/-- A common block: where it starts in both sequences, and its length. -/
structure Block where
  first : Nat
  second : Nat
  length : Nat
  deriving DecidableEq, Repr

/-- The longer of a block and the ones that start in a row; of equally long ones the first. -/
def longerInRow (first : Nat) (best : Block) (row : List Nat) : Block :=
  row.zipIdx.foldl
    (fun best (length, second) => if best.length < length then ⟨first, second, length⟩ else best)
    best

/-- The longest common block, of length zero if there is none. -/
def longestBlock (same : α → β → Bool) (as : List α) (bs : List β) : Block :=
  (runRows same as bs).zipIdx.foldl (fun best (row, first) => longerInRow first best row) ⟨0, 0, 0⟩

/-- A part of an alignment: elements that correspond one to one, or parts without a common
element. -/
inductive Step (α β : Type) where
  | keep (pairs : List (α × β))
  | change (old : List α) (new : List β)

/-- The step of two parts without a common element. -/
def gap (old : List α) (new : List β) : List (Step α β) :=
  if old.isEmpty && new.isEmpty then [] else [.change old new]

/-- Aligns two sequences with at most `depth` blocks inside one another. -/
def alignWithin (same : α → β → Bool) : Nat → List α → List β → List (Step α β)
  | 0, as, bs => gap as bs
  | depth + 1, as, bs =>
    let block := longestBlock same as bs
    if block.length == 0 then gap as bs
    else
      alignWithin same depth (as.take block.first) (bs.take block.second) ++
        .keep (((as.drop block.first).take block.length).zip
          ((bs.drop block.second).take block.length)) ::
        alignWithin same depth (as.drop (block.first + block.length))
          (bs.drop (block.second + block.length))

/-- Aligns two sequences. -/
def align (same : α → β → Bool) (as : List α) (bs : List β) : List (Step α β) :=
  alignWithin same as.length as bs

/-- The number of elements that a step keeps. -/
def Step.common : Step α β → Nat
  | .keep pairs => pairs.length
  | .change _ _ => 0

/-- The number of elements that correspond. -/
def matched (steps : List (Step α β)) : Nat :=
  steps.foldr (fun step common => step.common + common) 0

/-- Twice the common part over the sum of both lengths. Two empty sequences are equal. -/
def share (common total : Nat) : Rat :=
  if total == 0 then 1 else Number.divide (2 * common : Nat) total

/-- How similar two sequences are by their alignment. -/
def ratio [BEq α] (as bs : List α) : Rat :=
  share (matched (align (· == ·) as bs)) (as.length + bs.length)

/-- How similar two sequences are at most, by the elements they share in any order. -/
def quickRatio [BEq α] (as bs : List α) : Rat :=
  share ((Tally.ofList as).inter (Tally.ofList bs)).total.toNat (as.length + bs.length)

/-- How similar two sequences are at most, by their lengths. -/
def lengthRatio (as bs : List α) : Rat :=
  share (min as.length bs.length) (as.length + bs.length)

end CodeHealth.Alignment
