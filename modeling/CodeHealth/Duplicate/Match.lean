import CodeHealth.Alignment
import CodeHealth.Duplicate.Block
import CodeHealth.Issue.Kind
import CodeHealth.Partition

/-!
# Matching blocks

Three passes over the blocks: equal tokens, equal or similar shapes, and similar words among the
blocks that have no match yet. Matching blocks are joined into groups, but never two groups that
hold overlapping blocks.
-/

namespace CodeHealth

/-- How two blocks match, and how sure that is. -/
structure Match where
  type : MatchType
  similarity : Rat
  confidence : Int
  deriving DecidableEq, Repr

/-- Whether the second match is stronger: by confidence, then type, then similarity. -/
def Match.lt (a b : Match) : Bool :=
  if a.confidence != b.confidence then a.confidence < b.confidence
  else if a.type != b.type then a.type.rank < b.type.rank
  else a.similarity < b.similarity

/-- What is known of some blocks: their groups, the strongest match of each, and the comparisons
made. -/
structure Linking where
  groups : Partition
  best : List (Nat × Match)
  comparisons : Int
  exhausted : Bool

namespace Linking

def start (count : Nat) : Linking :=
  ⟨.singletons count, [], 0, false⟩

/-- The strongest match of a block. -/
def best? (s : Linking) (index : Nat) : Option Match :=
  (s.best.find? fun e => e.1 == index).map Prod.snd

/-- Records a match of a block if it is the strongest so far. -/
def record (m : Match) (s : Linking) (index : Nat) : Linking :=
  match s.best? index with
  | none => { s with best := s.best ++ [(index, m)] }
  | some current =>
    if current.lt m then
      { s with best := s.best.map fun e => if e.1 == index then (index, m) else e }
    else s

/-- The block of a number. -/
def overlapAt (blocks : List CodeBlock) (i j : Nat) : Bool :=
  match blocks[i]?, blocks[j]? with
  | some a, some b => a.overlaps b
  | _, _ => false

/-- Links two matching blocks, unless their groups would come to hold overlapping blocks. -/
def link (blocks : List CodeBlock) (m : Match) (s : Linking) (a b : CodeBlock) : Linking :=
  let (rootA, groups) := s.groups.find a.index
  let (rootB, groups) := groups.find b.index
  let (membersA, groups) := if rootA == rootB then ([], groups) else groups.members a.index
  let (membersB, groups) := if rootA == rootB then ([], groups) else groups.members b.index
  if membersA.any fun i => membersB.any fun j => overlapAt blocks i j then
    { s with groups }
  else
    [a.index, b.index].foldl (record m) { s with groups := groups.union a.index b.index }

/-- Counts a comparison, unless the budget is used up. -/
def spend? (budget : Int) (s : Linking) : Option Linking :=
  if budget ≤ s.comparisons then none else some { s with comparisons := s.comparisons + 1 }

end Linking

namespace Duplicates

/-- Every pair of a list, the earlier element first. -/
def pairs {α : Type} : List α → List (α × α)
  | [] => []
  | a :: rest => rest.map (fun b => (a, b)) ++ pairs rest

/-- The blocks with one key, in the order in which the keys first appear. -/
def buckets (key : CodeBlock → String) (blocks : List CodeBlock) : List (List CodeBlock) :=
  let keyed := blocks.map fun b => (key b, b)
  ((keyed.map Prod.fst).eraseDups).map fun k => (keyed.filter fun e => e.1 == k).map Prod.snd

/-- Links those of some pairs that do not overlap. -/
def linkPairs (blocks : List CodeBlock) (m : Match) (s : Linking)
    (candidates : List (CodeBlock × CodeBlock)) : Linking :=
  (candidates.filter fun p => !p.1.overlaps p.2).foldl (fun s p => s.link blocks m p.1 p.2) s

def exactMatch : Match := ⟨.exact, 1, 100⟩

def shapeMatch : Match := ⟨.structural, 1, 95⟩

/-- Links blocks with equal tokens. -/
def exactPass (blocks : List CodeBlock) (s : Linking) : Linking :=
  (buckets CodeBlock.exactKey blocks).foldl
    (fun s bucket => linkPairs blocks exactMatch s (pairs bucket)) s

/-- Links blocks with equal shapes, where not all of them have equal tokens. -/
def shapePass (blocks : List CodeBlock) (s : Linking) : Linking :=
  ((buckets CodeBlock.shapeKey blocks).filter fun bucket =>
    1 < (bucket.map CodeBlock.exactKey).eraseDups.length).foldl
    (fun s bucket => linkPairs blocks shapeMatch s (pairs bucket)) s

/-- The confidence of similar shapes: 85 at the threshold and 95 for equal ones. -/
def structuralConfidence (ratio threshold : Rat) : Int :=
  if 1 ≤ threshold then 95
  else
    let part := Number.divide (Number.nearest (ratio - threshold)) (Number.nearest (1 - threshold))
    let scaled := Number.nearest (85 + Number.nearest (part * 10))
    max 85 (min 95 (Number.roundHalfEven scaled))

/-- The confidence at any threshold. From the undefined one and the one below all numbers none can
be scaled. -/
def confidenceAt? (ratio : Rat) : Number.Reading → Option Int
  | .finite threshold => some (structuralConfidence ratio threshold)
  | .infinite false => some 95
  | .infinite true | .undefined => none

/-- Whether the lengths of two shapes leave them a chance to be similar. -/
def lengthsAllow (threshold : Number.Reading) (a b : CodeBlock) : Bool :=
  let shorter := min a.shape.length b.shape.length
  let longer := max a.shape.length b.shape.length
  longer != 0 && !(Number.Reading.finite (Number.divide shorter longer)).lt threshold

/-- The match of two similar shapes, if they are similar. -/
def nearMatch? (threshold : Number.Reading) (a b : CodeBlock) :
    Except DuplicateError (Option Match) :=
  if (Number.Reading.finite (Alignment.lengthRatio a.shape b.shape)).lt threshold ||
      (Number.Reading.finite (Alignment.quickRatio a.shape b.shape)).lt threshold then .ok none
  else
    let ratio := Alignment.ratio a.shape b.shape
    if (Number.Reading.finite ratio).lt threshold then .ok none
    else
      match confidenceAt? ratio threshold with
      | some confidence => .ok (some ⟨.structural, Number.roundTo 4 ratio, confidence⟩)
      | none => .error .undefinedConfidence

/-- Compares the first blocks of two buckets and links all of both if their shapes are similar. It
stops when the budget is used up. -/
def nearPairs (blocks : List CodeBlock) (options : Options) :
    List (List CodeBlock × List CodeBlock) → Linking → Except DuplicateError Linking
  | [], s => .ok s
  | (as, bs) :: rest, s =>
    match as.head?, bs.head? with
    | some a, some b =>
      if !lengthsAllow options.structuralThreshold a b then nearPairs blocks options rest s
      else
        match s.spend? options.maxDuplicateComparisons with
        | none => .ok { s with exhausted := true }
        | some s =>
          match nearMatch? options.structuralThreshold a b with
          | .error e => .error e
          | .ok none => nearPairs blocks options rest s
          | .ok (some m) =>
            nearPairs blocks options rest
              (linkPairs blocks m s (as.flatMap fun x => bs.map fun y => (x, y)))
    | _, _ => nearPairs blocks options rest s

/-- Links blocks with similar shapes. -/
def nearPass (blocks : List CodeBlock) (options : Options) (s : Linking) :
    Except DuplicateError Linking :=
  nearPairs blocks options (pairs (buckets CodeBlock.shapeKey blocks)) s

/-- The share of the common part in the union of two tallies. -/
def jaccard (a b : Tally String) : Rat :=
  let union := (a.union b).total
  if union == 0 then 0 else Number.divide (a.inter b).total union

/-- Whether the sizes of two lexicons leave them a chance to be similar. -/
def totalsAllow (threshold : Number.Reading) (a b : CodeBlock) : Bool :=
  let smaller := min a.lexicon.total b.lexicon.total
  let larger := max a.lexicon.total b.lexicon.total
  larger != 0 && !(Number.Reading.finite (Number.divide smaller larger)).lt threshold

/-- The match of two blocks with similar words. -/
def wordMatch? (threshold : Number.Reading) (a b : CodeBlock) : Option Match :=
  let score := jaccard a.lexicon b.lexicon
  if threshold.le (.finite score) then
    some ⟨.semantic, Number.roundTo 4 score,
      Number.roundHalfEven (Number.nearest (score * 100))⟩
  else none

/-- Compares pairs of blocks by their words and links the similar ones. It stops when the budget is
used up. -/
def wordPairs (blocks : List CodeBlock) (options : Options) :
    List (CodeBlock × CodeBlock) → Linking → Linking
  | [], s => s
  | (a, b) :: rest, s =>
    if a.overlaps b || !totalsAllow options.semanticThreshold a b then
      wordPairs blocks options rest s
    else
      match s.spend? options.maxDuplicateComparisons with
      | none => { s with exhausted := true }
      | some s =>
        match wordMatch? options.semanticThreshold a b with
        | none => wordPairs blocks options rest s
        | some m => wordPairs blocks options rest (s.link blocks m a b)

/-- Links blocks with similar words among those without a match. -/
def wordPass (blocks : List CodeBlock) (options : Options) (s : Linking) : Linking :=
  wordPairs blocks options (pairs (blocks.filter fun b => (s.best? b.index).isNone)) s

/-- The groups and matches after all passes. -/
def linkAll (blocks : List CodeBlock) (options : Options) : Except DuplicateError Linking :=
  (nearPass blocks options
    (shapePass blocks (exactPass blocks (Linking.start blocks.length)))).map
      (wordPass blocks options)

end Duplicates

end CodeHealth
