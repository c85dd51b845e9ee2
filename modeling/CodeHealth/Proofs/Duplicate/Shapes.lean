import CodeHealth.Proofs.Alignment.Ties
import CodeHealth.Proofs.Duplicate.Block
import CodeHealth.Proofs.Duplicate.Budget

/-!
# Similar shapes

The quick ratios leave out no pair that the ratio accepts, but the test of lengths does. So if the
budget lasts, the pass over shapes links the pairs whose ratio and whose share of lengths reach the
threshold. All but the ratio are the same in both orders of two blocks.
-/

namespace CodeHealth.Duplicates

open Linking

variable {options : Options} {asts : List SourceTree} {blocks : List CodeBlock} {s t : Linking}
  {threshold : Number.Reading} {q : Rat}

/-! ## The tests of two shapes -/

/-- The quick ratios leave out nothing: the ratio decides. -/
theorem nearMatch?_finite (q : Rat) (a b : CodeBlock) :
    nearMatch? (.finite q) a b =
      .ok (if q ≤ Alignment.ratio a.shape b.shape then
        some ⟨.structural, Number.roundTo 4 (Alignment.ratio a.shape b.shape),
          structuralConfidence (Alignment.ratio a.shape b.shape) q⟩
      else none) := by
  have hquick := Alignment.ratio_le_quickRatio a.shape b.shape
  have hlength := Alignment.quickRatio_le_lengthRatio a.shape b.shape
  unfold nearMatch?
  simp only [Bool.or_eq_true, Number.Reading.lt_finite_iff]
  by_cases hle : q ≤ Alignment.ratio a.shape b.shape
  · rw [if_neg, if_neg (not_lt.mpr hle), if_pos hle]
    · rfl
    · rw [not_or, not_lt, not_lt]
      exact ⟨hle.trans (hquick.trans hlength), hle.trans hquick⟩
  · rw [if_pos (not_le.mp hle), if_neg hle, ite_self]

/-- With any threshold the verdict on two shapes is one on their ratio. -/
theorem nearMatch?_congr {a b a' b' : CodeBlock}
    (h : Alignment.ratio a.shape b.shape = Alignment.ratio a'.shape b'.shape)
    (threshold : Number.Reading) : nearMatch? threshold a b = nearMatch? threshold a' b' := by
  cases threshold with
  | finite q => rw [nearMatch?_finite, nearMatch?_finite, h]
  | infinite negative => cases negative <;> rfl
  | undefined => rfl

theorem lengthsAllow_comm (threshold : Number.Reading) (a b : CodeBlock) :
    lengthsAllow threshold a b = lengthsAllow threshold b a := by
  unfold lengthsAllow
  rw [Nat.min_comm, Nat.max_comm]

/-- The share of the shorter shape in the longer. -/
def lengthShare (a b : CodeBlock) : Rat :=
  Number.divide (min a.shape.length b.shape.length : Nat) (max a.shape.length b.shape.length : Nat)

theorem lengthsAllow_iff (hpos : 0 < q) (a b : CodeBlock) :
    lengthsAllow (.finite q) a b = true ↔ q ≤ lengthShare a b := by
  unfold lengthsAllow lengthShare
  rw [Bool.and_eq_true, bne_iff_ne, Bool.not_eq_true', ← Bool.not_eq_true,
    Number.Reading.lt_finite_iff, not_lt]
  refine ⟨fun h => h.2, fun h => ⟨fun hzero => ?_, h⟩⟩
  rw [hzero, Nat.cast_zero, Number.divide, div_zero] at h
  exact absurd (hpos.trans_le h) (by decide +kernel)

/-- All tests of two shapes, and how they match. -/
def shapesMatch? (threshold : Number.Reading) (a b : CodeBlock) :
    Except DuplicateError (Option Match) :=
  if lengthsAllow threshold a b then nearMatch? threshold a b else .ok none

/-- Two shapes whose ratio and whose share of lengths reach the threshold, with their match. -/
structure SimilarShapes (q : Rat) (a b : CodeBlock) (m : Match) : Prop where
  ratio : q ≤ Alignment.ratio a.shape b.shape
  lengths : q ≤ lengthShare a b
  found : m = ⟨.structural, Number.roundTo 4 (Alignment.ratio a.shape b.shape),
    structuralConfidence (Alignment.ratio a.shape b.shape) q⟩

theorem shapesMatch?_eq_some_iff (hpos : 0 < q) {a b : CodeBlock} {m : Match} :
    shapesMatch? (.finite q) a b = .ok (some m) ↔ SimilarShapes q a b m := by
  unfold shapesMatch?
  rw [nearMatch?_finite]
  constructor
  · intro h
    split at h
    · rename_i hlengths
      split at h
      · rename_i hratio
        exact ⟨hratio, (lengthsAllow_iff hpos a b).mp hlengths,
          (Option.some.inj (Except.ok.inj h)).symm⟩
      · exact nomatch h
    · exact nomatch h
  · rintro ⟨hratio, hlengths, rfl⟩
    rw [if_pos ((lengthsAllow_iff hpos a b).mpr hlengths), if_pos hratio]

/-! ## The links of the pass -/

/-- The links of blocks with similar shapes, bucket by bucket. -/
def nearLinks (blocks : List CodeBlock) (threshold : Number.Reading) : List LinkCall :=
  ((pairs (buckets CodeBlock.shapeKey blocks)).filter (comparesShapes threshold)).flatMap
    (bucketLinks threshold)

/-- Two blocks that do not overlap, the first ones with their shapes being similar, the earlier
first. -/
structure NearLink (blocks : List CodeBlock) (threshold : Number.Reading) (c : LinkCall) :
    Prop where
  left_mem : c.left ∈ blocks
  right_mem : c.right ∈ blocks
  apart : c.left.overlaps c.right = false
  similar : ∃ x y, leader blocks c.left = some x ∧ leader blocks c.right = some y ∧
    x.index < y.index ∧ shapesMatch? threshold x y = .ok (some c.found)

theorem mem_bucketLinks_iff {p : List CodeBlock × List CodeBlock} {c : LinkCall} :
    comparesShapes threshold p = true ∧ c ∈ bucketLinks threshold p ↔
      c.left ∈ p.1 ∧ c.right ∈ p.2 ∧ c.left.overlaps c.right = false ∧
        ∃ x ∈ p.1.head?, ∃ y ∈ p.2.head?, shapesMatch? threshold x y = .ok (some c.found) := by
  obtain ⟨as, bs⟩ := p
  obtain ⟨left, right, found⟩ := c
  unfold comparesShapes bucketLinks shapesMatch?
  dsimp only
  cases hx : as.head? with
  | none => simp
  | some x =>
      cases hy : bs.head? with
      | none => simp
      | some y =>
          by_cases hlengths : lengthsAllow threshold x y = true
          · rcases hmatch : nearMatch? threshold x y with e | _ | m
            · simp [hlengths, hmatch]
            · simp [hlengths, hmatch]
            · simp only [hlengths, hmatch, if_true, true_and, Option.mem_some_iff,
                exists_eq_left', List.mem_map, List.mem_filter, List.mem_flatMap,
                LinkCall.mk.injEq, Prod.exists, Prod.mk.injEq, Option.some.injEq,
                Except.ok.injEq]
              constructor
              · rintro ⟨a, b, ⟨⟨a, ha, b, hb, rfl, rfl⟩, hover⟩, rfl, rfl, rfl⟩
                exact ⟨ha, hb, by simpa using hover, rfl⟩
              · rintro ⟨ha, hb, hover, rfl⟩
                exact ⟨left, right, ⟨⟨left, ha, right, hb, rfl, rfl⟩, by simp [hover]⟩,
                  rfl, rfl, rfl⟩
          · simp [hlengths]

theorem mem_nearLinks_iff (hnum : Numbered blocks) {c : LinkCall} :
    c ∈ nearLinks blocks threshold ↔ NearLink blocks threshold c := by
  unfold nearLinks
  simp only [List.mem_flatMap, List.mem_filter]
  constructor
  · rintro ⟨⟨as, bs⟩, ⟨hpair, hcompared⟩, hc⟩
    obtain ⟨ha, hb, hover, x, hx, y, hy, hmatch⟩ := mem_bucketLinks_iff.mp ⟨hcompared, hc⟩
    obtain ⟨has, hbs⟩ := mem_of_mem_pairs hpair
    exact ⟨(sublist_of_mem_bucket has).subset ha, (sublist_of_mem_bucket hbs).subset hb, hover,
      x, y, (leader_eq_head? has ha).trans hx, (leader_eq_head? hbs hb).trans hy,
      head_lt_of_mem_pairs hnum hpair hx hy, hmatch⟩
  · rintro ⟨hleft, hright, hover, x, y, hx, hy, hxy, hmatch⟩
    obtain ⟨as, bs, hpair, ha, hb, hx, hy⟩ := exists_pair_of_leaders hnum hleft hright hx hy hxy
    obtain ⟨hcompared, hc⟩ := (mem_bucketLinks_iff (p := (as, bs))).mpr
      ⟨ha, hb, hover, x, hx, y, hy, hmatch⟩
    exact ⟨(as, bs), ⟨hpair, hcompared⟩, hc⟩

/-- If the budget lasts, the pass over shapes makes these links. -/
theorem nearPass_eq_follow (h : nearPass blocks options s = .ok t) (hdone : t.exhausted = false) :
    ∃ n : Nat, t = (s.follow blocks (nearLinks blocks options.structuralThreshold)).charge n := by
  obtain rfl := eq_compareAll_of_nearPairs h
  exact ⟨_, compareAll_eq_follow _ hdone⟩

theorem exists_nearPass_of_rated (blocks : List CodeBlock) (s : Linking)
    (h : ¬ Unrated options.structuralThreshold) :
    ∃ t, nearPass blocks options s = .ok t := by
  cases hrun : nearPass blocks options s with
  | ok t => exact ⟨t, rfl⟩
  | error e => exact absurd (nearPairs_eq_error_iff.mp hrun).2.1 h

/-- The quick ratios leave out no pair of shapes that the ratio accepts. With a positive number as
the threshold the pass over shapes comes to an end, and if the budget lasts, it links exactly the
blocks that do not overlap and for whose first shapes both the ratio and the share of lengths reach
the threshold. -/
theorem nearPass_links_similar (hblocks : extractBlocks options asts = .ok blocks)
    (hthreshold : options.structuralThreshold = .finite q) (hpos : 0 < q) (s : Linking) :
    (∀ p a b, (∃ m, nearMatch? (.finite p) a b = .ok (some m)) ↔
        p ≤ Alignment.ratio a.shape b.shape) ∧
      (∃ t, nearPass blocks options s = .ok t ∧ (t.exhausted = false →
        ∃ n : Nat, t = (s.follow blocks (nearLinks blocks (.finite q))).charge n)) ∧
      ∀ c, c ∈ nearLinks blocks (.finite q) ↔
        c.left ∈ blocks ∧ c.right ∈ blocks ∧ c.left.overlaps c.right = false ∧
          ∃ x y, leader blocks c.left = some x ∧ leader blocks c.right = some y ∧
            x.index < y.index ∧ SimilarShapes q x y c.found := by
  have hnum := numbered_of_extractBlocks hblocks
  refine ⟨fun p a b => ?_, ?_, fun c => ?_⟩
  · rw [nearMatch?_finite]
    split <;> simp_all
  · have hrated : ¬ Unrated options.structuralThreshold := hthreshold ▸ not_unrated_finite q
    obtain ⟨t, hrun⟩ := exists_nearPass_of_rated blocks s hrated
    exact ⟨t, hrun, fun hdone => hthreshold ▸ nearPass_eq_follow hrun hdone⟩
  · rw [mem_nearLinks_iff hnum]
    simp only [← shapesMatch?_eq_some_iff hpos]
    exact ⟨fun h => ⟨h.left_mem, h.right_mem, h.apart, h.similar⟩,
      fun ⟨hleft, hright, hover, hsimilar⟩ => ⟨hleft, hright, hover, hsimilar⟩⟩

/-! ## Files of one function -/

/-- A file with one function, `x=>` and its body from the third byte to the end. -/
def bodyFile (path text : String) (stop : Nat) (body : Tree GrammarNode) : SourceTree :=
  .ofGrammar defaultNodeBudget text path .javascript
    { root := grammarNode "program" none 0 stop [grammarNode "expression_statement" none 0 stop
        [grammarNode "arrow_function" none 0 stop
          [grammarNode "identifier" (some "parameter") 0 1 [], grammarToken "=>" 1 3, body]]]
      hasError := false }

/-- The body of such a function. -/
def bodyBlock (index : Nat) (path text : String) (stop : Nat) (tokens shape : List String)
    (lexicon : Tally String) : CodeBlock :=
  { index, path, functionName := "<anonymous>", className := none, startLine := 1, endLine := 1
    startByte := 3, endByte := stop, lineCount := 1, tokens, shape, lexicon, excerpt := text }

/-- Items of an array from a byte on, each of a kind and a length, with commas between them. -/
def arrayItems : Nat → List (String × Nat) → List (Tree GrammarNode)
  | _, [] => []
  | start, [(kind, size)] => [grammarNode kind none start (start + size) []]
  | start, (kind, size) :: rest =>
    grammarNode kind none start (start + size) [] ::
      grammarToken "," (start + size) (start + size + 1) :: arrayItems (start + size + 1) rest

/-- An array as the body of such a function. -/
def arrayBody (stop : Nat) (items : List (String × Nat)) : Tree GrammarNode :=
  grammarNode "array" (some "body") 3 stop
    (grammarToken "[" 3 4 :: arrayItems 4 items ++ [grammarToken "]" (stop - 1) stop])

/-- The shape of an array of the given kinds. -/
def arrayShape (kinds : List String) : List String :=
  "array@0" :: kinds.map fun kind => kind ++ "@1"

/-- Options that compare blocks of any size, with a threshold for shapes. -/
def anySizeAbove (threshold : Rat) : Options :=
  { anySize with structuralThreshold := .finite threshold }

/-- Two blocks of different shapes are the first ones with their shapes. -/
theorem leader_pair {a b : CodeBlock} (h : a.shapeKey ≠ b.shapeKey) :
    leader [a, b] a = some a ∧ leader [a, b] b = some b := by
  unfold leader
  refine ⟨List.find?_cons_of_pos (by simp), ?_⟩
  rw [List.find?_cons_of_neg (by simpa using h), List.find?_cons_of_pos (by simp)]

/-! ## Arrays of different lengths -/

def fourItemsFile : SourceTree :=
  bodyFile "a.js" "x=>[a,b,c,d]" 12 (arrayBody 12 (List.replicate 4 ("identifier", 1)))

def fourItems : CodeBlock :=
  bodyBlock 0 "a.js" "x=>[a,b,c,d]" 12 ["[", "a", ",", "b", ",", "c", ",", "d", "]"]
    (arrayShape ["[", "identifier", ",", "identifier", ",", "identifier", ",", "identifier", "]"])
    [("a", 1), ("b", 1), ("c", 1), ("d", 1)]

def fiveItemsFile : SourceTree :=
  bodyFile "b.js" "y=>[e,f,g,h,i]" 14 (arrayBody 14 (List.replicate 5 ("identifier", 1)))

def fiveItems : CodeBlock :=
  bodyBlock 1 "b.js" "y=>[e,f,g,h,i]" 14 ["[", "e", ",", "f", ",", "g", ",", "h", ",", "i", "]"]
    (arrayShape ["[", "identifier", ",", "identifier", ",", "identifier", ",", "identifier", ",",
      "identifier", "]"])
    [("e", 1), ("f", 1), ("g", 1), ("h", 1), ("i", 1)]

theorem extractBlocks_items (threshold : Rat) :
    extractBlocks (anySizeAbove threshold) [fourItemsFile, fiveItemsFile] =
      .ok [fourItems, fiveItems] := by
  unfold extractBlocks comparableFunctions
  rw [List.mergeSort_of_pairwise (by decide)]
  rfl

theorem leader_items :
    leader [fourItems, fiveItems] fourItems = some fourItems ∧
      leader [fourItems, fiveItems] fiveItems = some fiveItems :=
  leader_pair (by decide +kernel)

/-- With a threshold below the share of their lengths, arrays of four and five items are linked. -/
theorem items_linked :
    (∃ t, nearPass [fourItems, fiveItems] (anySizeAbove (4 / 5)) (start 2) = .ok t ∧
        t.exhausted = false ∧ ∃ n : Nat, t = ((start 2).follow [fourItems, fiveItems]
          (nearLinks [fourItems, fiveItems] (.finite (4 / 5)))).charge n) ∧
      ⟨fourItems, fiveItems, ⟨.structural, Number.nearest (9091 / 10000), 90⟩⟩ ∈
        nearLinks [fourItems, fiveItems] (.finite (4 / 5)) := by
  have hpos : (0 : Rat) < 4 / 5 := by decide +kernel
  obtain ⟨-, ⟨t, hrun, hfollow⟩, hlinks⟩ :=
    nearPass_links_similar (extractBlocks_items (4 / 5)) rfl hpos (start 2)
  have hdone : t.exhausted = false := exhausted_nearPass_of_le rfl (by decide) hrun
  refine ⟨⟨t, hrun, hdone, hfollow hdone⟩, (hlinks _).mpr ⟨by simp, by simp, by decide, _, _,
    leader_items.1, leader_items.2, by decide, ?_⟩⟩
  exact ⟨by decide +kernel, by decide +kernel, by decide +kernel⟩

/-- With the usual threshold they are not linked, although their ratio reaches it. -/
theorem similar_items_not_linked :
    extractBlocks anySize [fourItemsFile, fiveItemsFile] = .ok [fourItems, fiveItems] ∧
      fourItems.shape ≠ fiveItems.shape ∧ fourItems.overlaps fiveItems = false ∧
      leader [fourItems, fiveItems] fourItems = some fourItems ∧
      leader [fourItems, fiveItems] fiveItems = some fiveItems ∧
      anySize.structuralThreshold.le
        (.finite (Alignment.ratio fourItems.shape fiveItems.shape)) = true ∧
      nearLinks [fourItems, fiveItems] anySize.structuralThreshold = [] ∧
      ∀ s : Linking, nearPass [fourItems, fiveItems] anySize s = .ok s := by
  have hblocks : extractBlocks anySize [fourItemsFile, fiveItemsFile] =
      .ok [fourItems, fiveItems] := extractBlocks_items (Number.nearest (9 / 10))
  have hnum := numbered_of_extractBlocks hblocks
  have hnone : (pairs (buckets CodeBlock.shapeKey [fourItems, fiveItems])).filter
      (comparesShapes anySize.structuralThreshold) = [] := by
    rw [List.filter_eq_nil_iff]
    rintro ⟨as, bs⟩ hpair
    obtain ⟨has, hbs⟩ := mem_of_mem_pairs hpair
    unfold comparesShapes
    split
    · rename_i x y hx hy
      have hlt := head_lt_of_mem_pairs hnum hpair hx hy
      have hxmem := (sublist_of_mem_bucket has).subset (List.mem_of_head? hx)
      have hymem := (sublist_of_mem_bucket hbs).subset (List.mem_of_head? hy)
      simp only [List.mem_cons, List.not_mem_nil, or_false] at hxmem hymem
      rcases hxmem with rfl | rfl <;> rcases hymem with rfl | rfl
      · exact absurd hlt (by decide)
      · decide +kernel
      · exact absurd hlt (by decide)
      · exact absurd hlt (by decide)
    · exact Bool.false_ne_true
  refine ⟨hblocks, by decide, by decide, leader_items.1, leader_items.2, by decide +kernel, ?_,
    fun s => ?_⟩
  · unfold nearLinks
    rw [hnone, List.flatMap_nil]
  · have hrated : ¬ Unrated anySize.structuralThreshold := not_unrated_finite _
    obtain ⟨t, hrun⟩ := exists_nearPass_of_rated [fourItems, fiveItems] s hrated
    have ht := eq_compareAll_of_nearPairs hrun
    rw [hnone, compareAll] at ht
    rw [hrun, ht]

end CodeHealth.Duplicates
