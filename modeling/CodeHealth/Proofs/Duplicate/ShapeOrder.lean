import CodeHealth.Proofs.Duplicate.Shapes

/-!
# Similar shapes in the other order

Blocks are compared in the order of their files. All tests of shapes but the ratio give the same in
both orders, and the ratio does where ties between longest common blocks do not matter. There the
names of files, which only order the blocks, do not decide what matches.
-/

namespace CodeHealth.Duplicates

open Linking

variable {options : Options} {asts asts' : List SourceTree} {blocks blocks' : List CodeBlock}
  {s s' t t' : Linking} {threshold : Number.Reading}

/-! ## Two shapes -/

theorem shapesMatch?_congr {a a' b b' : CodeBlock} (ha : a.shape = a'.shape)
    (hb : b.shape = b'.shape) (threshold : Number.Reading) :
    shapesMatch? threshold a b = shapesMatch? threshold a' b' := by
  have hratio : Alignment.ratio a.shape b.shape = Alignment.ratio a'.shape b'.shape := by
    rw [ha, hb]
  unfold shapesMatch? lengthsAllow
  rw [nearMatch?_congr hratio, ha, hb]

/-- Equal ratios in both orders are all that equal verdicts need, and for the verdicts of the ratio
at all thresholds they are needed. -/
theorem nearMatch?_comm_iff {a b : CodeBlock} :
    (∀ q, 0 < q → q ≤ 1 → nearMatch? (.finite q) a b = nearMatch? (.finite q) b a) ↔
      Alignment.ratio a.shape b.shape = Alignment.ratio b.shape a.shape := by
  constructor
  · intro h
    -- at the larger ratio as the threshold, only one order is accepted
    have hle : ∀ {c d : CodeBlock},
        (∀ q, 0 < q → q ≤ 1 → nearMatch? (.finite q) c d = nearMatch? (.finite q) d c) →
          Alignment.ratio c.shape d.shape ≤ Alignment.ratio d.shape c.shape := by
      intro c d hcd
      by_contra hlt
      rw [not_le] at hlt
      have hpos := (Alignment.ratio_mem_unit d.shape c.shape).1.trans_lt hlt
      have hverdict := hcd _ hpos (Alignment.ratio_mem_unit c.shape d.shape).2
      rw [nearMatch?_finite, nearMatch?_finite, if_pos (le_refl _), if_neg (not_le.mpr hlt)]
        at hverdict
      exact nomatch hverdict
    exact le_antisymm (hle h) (hle fun q hpos hone => (h q hpos hone).symm)
  · exact fun h q _ _ => nearMatch?_congr h (.finite q)

theorem shapesMatch?_comm {a b : CodeBlock}
    (h : Alignment.ratio a.shape b.shape = Alignment.ratio b.shape a.shape)
    (threshold : Number.Reading) :
    shapesMatch? threshold a b = shapesMatch? threshold b a := by
  unfold shapesMatch?
  rw [nearMatch?_congr h, lengthsAllow_comm]

/-! ## Blocks in two orders -/

/-- No two shapes of some blocks have one digest. -/
def ShapesKeyed (blocks : List CodeBlock) : Prop :=
  ∀ a ∈ blocks, ∀ b ∈ blocks, a.shapeKey = b.shapeKey → a.shape = b.shape

/-- Two blocks are linked for similar shapes, whichever of them comes first. -/
def LinkedNear (blocks : List CodeBlock) (threshold : Number.Reading) (a b : CodeBlock)
    (m : Match) : Prop :=
  ⟨a, b, m⟩ ∈ nearLinks blocks threshold ∨ ⟨b, a, m⟩ ∈ nearLinks blocks threshold

theorem exists_leader {a : CodeBlock} (ha : a ∈ blocks) :
    ∃ x ∈ blocks, leader blocks a = some x ∧ x.shapeKey = a.shapeKey := by
  cases hx : leader blocks a with
  | none => exact absurd (List.find?_eq_none.mp hx a ha) (by simp)
  | some x => exact ⟨x, List.mem_of_find?_eq_some hx, rfl, by simpa using List.find?_some hx⟩

/-- A link is made in the order of the first blocks with the two shapes. -/
theorem mem_nearLinks_of_leaders (hnum : Numbered blocks) {a b x y : CodeBlock} (ha : a ∈ blocks)
    (hb : b ∈ blocks) (hover : a.overlaps b = false) (hx : leader blocks a = some x)
    (hxa : x.shape = a.shape) (hy : leader blocks b = some y) (hyb : y.shape = b.shape)
    {m : Match} :
    ⟨a, b, m⟩ ∈ nearLinks blocks threshold ↔
      x.index < y.index ∧ shapesMatch? threshold a b = .ok (some m) := by
  rw [mem_nearLinks_iff hnum, ← shapesMatch?_congr hxa hyb]
  constructor
  · rintro ⟨-, -, -, x', y', hx', hy', hlt, hmatch⟩
    obtain rfl := Option.some.inj (hx.symm.trans hx')
    obtain rfl := Option.some.inj (hy.symm.trans hy')
    exact ⟨hlt, hmatch⟩
  · rintro ⟨hlt, hmatch⟩
    exact ⟨ha, hb, hover, x, y, hx, hy, hlt, hmatch⟩

/-- Where the ratio is the same in both orders, the tests of the two shapes decide. -/
theorem linkedNear_iff (hnum : Numbered blocks) (hkeys : ShapesKeyed blocks) {a b : CodeBlock}
    (ha : a ∈ blocks) (hb : b ∈ blocks) (hover : a.overlaps b = false)
    (hratio : Alignment.ratio a.shape b.shape = Alignment.ratio b.shape a.shape) {m : Match} :
    LinkedNear blocks threshold a b m ↔
      a.shape ≠ b.shape ∧ shapesMatch? threshold a b = .ok (some m) := by
  obtain ⟨x, hxmem, hx, hxkey⟩ := exists_leader ha
  obtain ⟨y, hymem, hy, hykey⟩ := exists_leader hb
  have hxa := hkeys x hxmem a ha hxkey
  have hyb := hkeys y hymem b hb hykey
  have hback : b.overlaps a = false := by rw [CodeBlock.overlaps_comm, hover]
  have hne : a.shape ≠ b.shape ↔ x.index < y.index ∨ y.index < x.index := by
    rw [← Nat.ne_iff_lt_or_gt, not_iff_not]
    constructor
    · intro hshape
      have hleader : leader blocks a = leader blocks b := by
        unfold leader CodeBlock.shapeKey
        rw [hshape]
      rw [Option.some.inj (hx.symm.trans (hleader.trans hy))]
    · intro hindex
      rw [← hxa, ← hyb, hnum.eq_of_index hxmem hymem hindex]
  unfold LinkedNear
  rw [mem_nearLinks_of_leaders hnum ha hb hover hx hxa hy hyb,
    mem_nearLinks_of_leaders hnum hb ha hback hy hyb hx hxa,
    ← shapesMatch?_comm hratio, ← or_and_right, hne]

/-- The tests of lengths and of the quick ratios do not depend on the order of two blocks, nor does
any verdict of the ratio where the ratio does not, as it does not if ties between longest common
blocks do not matter. There two runs, in which the same shapes come in any orders, link the two
shapes for the same match or both not. Neither run fails at a threshold that rates. -/
theorem nearPass_order_independent (hblocks : extractBlocks options asts = .ok blocks)
    (hblocks' : extractBlocks options asts' = .ok blocks') (hkeys : ShapesKeyed blocks)
    (hkeys' : ShapesKeyed blocks') {a b a' b' : CodeBlock} (ha : a ∈ blocks) (hb : b ∈ blocks)
    (ha' : a' ∈ blocks') (hb' : b' ∈ blocks') (hover : a.overlaps b = false)
    (hover' : a'.overlaps b' = false) (hshape : a.shape = a'.shape)
    (hshape' : b.shape = b'.shape) :
    (∀ threshold, lengthsAllow threshold a b = lengthsAllow threshold b a) ∧
      Alignment.lengthRatio a.shape b.shape = Alignment.lengthRatio b.shape a.shape ∧
      Alignment.quickRatio a.shape b.shape = Alignment.quickRatio b.shape a.shape ∧
      ((∀ q, 0 < q → q ≤ 1 → nearMatch? (.finite q) a b = nearMatch? (.finite q) b a) ↔
        Alignment.ratio a.shape b.shape = Alignment.ratio b.shape a.shape) ∧
      (Alignment.TiesAgree (· == ·) a.shape b.shape →
        Alignment.ratio a.shape b.shape = Alignment.ratio b.shape a.shape) ∧
      (Alignment.ratio a.shape b.shape = Alignment.ratio b.shape a.shape →
        (∀ threshold, shapesMatch? threshold a b = shapesMatch? threshold b a) ∧
          ∀ m, LinkedNear blocks options.structuralThreshold a b m ↔
            LinkedNear blocks' options.structuralThreshold a' b' m) ∧
      (∀ s t, nearPass blocks options s = .ok t → t.exhausted = false →
        ∃ n : Nat,
          t = (s.follow blocks (nearLinks blocks options.structuralThreshold)).charge n) ∧
      (∀ s t, nearPass blocks' options s = .ok t → t.exhausted = false →
        ∃ n : Nat,
          t = (s.follow blocks' (nearLinks blocks' options.structuralThreshold)).charge n) ∧
      (¬ Unrated options.structuralThreshold → ∀ s,
        (∃ t, nearPass blocks options s = .ok t) ∧ ∃ t, nearPass blocks' options s = .ok t) := by
  refine ⟨fun threshold => lengthsAllow_comm threshold a b, Alignment.lengthRatio_comm _ _,
    Alignment.quickRatio_comm _ _, nearMatch?_comm_iff, fun hties => hties.ratio_comm,
    fun hratio => ⟨shapesMatch?_comm hratio, fun m => ?_⟩, fun _ _ => nearPass_eq_follow,
    fun _ _ => nearPass_eq_follow, fun hrated s =>
      ⟨exists_nearPass_of_rated blocks s hrated, exists_nearPass_of_rated blocks' s hrated⟩⟩
  have hratio' : Alignment.ratio a'.shape b'.shape = Alignment.ratio b'.shape a'.shape := by
    rw [← hshape, ← hshape', hratio]
  rw [linkedNear_iff (numbered_of_extractBlocks hblocks) hkeys ha hb hover hratio,
    linkedNear_iff (numbered_of_extractBlocks hblocks') hkeys' ha' hb' hover' hratio', hshape,
    hshape', shapesMatch?_congr hshape hshape']

/-! ## A body that goes on where another ends -/

theorem shapesKeyed_pair {a b : CodeBlock} (h : a.shapeKey ≠ b.shapeKey) : ShapesKeyed [a, b] := by
  intro c hc d hd hkey
  simp only [List.mem_cons, List.not_mem_nil, or_false] at hc hd
  rcases hc with rfl | rfl <;> rcases hd with rfl | rfl
  · rfl
  · exact absurd hkey h
  · exact absurd hkey.symm h
  · rfl

/-- An object that is created as the body of a function. -/
def creation (stop : Nat) (arguments : List (Tree GrammarNode)) : Tree GrammarNode :=
  grammarNode "new_expression" (some "body") 3 stop
    (grammarToken "new" 3 6 :: grammarNode "identifier" (some "constructor") 7 8 [] :: arguments)

def bareFile (path : String) : SourceTree :=
  bodyFile path "x=>new A" 8 (creation 8 [])

def bare (index : Nat) (path : String) : CodeBlock :=
  bodyBlock index path "x=>new A" 8 ["new", "A"] ["new_expression@0", "new@1", "identifier@1"]
    [("new", 1), ("a", 1)]

def calledFile (path : String) : SourceTree :=
  bodyFile path "x=>new A()" 10 (creation 10 [grammarNode "arguments" (some "arguments") 8 10
    [grammarToken "(" 8 9, grammarToken ")" 9 10]])

def called (index : Nat) (path : String) : CodeBlock :=
  bodyBlock index path "x=>new A()" 10 ["new", "A", "(", ")"]
    ["new_expression@0", "new@1", "identifier@1", "arguments@1", "(@2", ")@2"]
    [("new", 1), ("a", 1)]

theorem shapeKey_bare_ne_called (i j : Nat) (path path' : String) :
    (bare i path).shapeKey ≠ (called j path').shapeKey := by
  have hkeys : (bare 0 "").shapeKey ≠ (called 0 "").shapeKey := by decide +kernel
  exact hkeys

theorem extractBlocks_creations :
    extractBlocks (anySizeAbove (1 / 2)) [bareFile "a.js", calledFile "b.js"] =
        .ok [bare 0 "a.js", called 1 "b.js"] ∧
      extractBlocks (anySizeAbove (1 / 2)) [calledFile "a.js", bareFile "b.js"] =
        .ok [called 0 "a.js", bare 1 "b.js"] := by
  unfold extractBlocks comparableFunctions
  rw [List.mergeSort_of_pairwise (by decide), List.mergeSort_of_pairwise (by decide)]
  exact ⟨rfl, rfl⟩

/-- `new A` goes on as `new A()`, so the two are linked in both orders of their files. -/
theorem creations_linked_in_both_orders :
    Alignment.TiesAgree (· == ·) (bare 0 "a.js").shape (called 1 "b.js").shape ∧
      LinkedNear [bare 0 "a.js", called 1 "b.js"] (.finite (1 / 2)) (bare 0 "a.js")
        (called 1 "b.js") ⟨.structural, Number.nearest (6667 / 10000), 88⟩ ∧
      LinkedNear [called 0 "a.js", bare 1 "b.js"] (.finite (1 / 2)) (bare 1 "b.js")
        (called 0 "a.js") ⟨.structural, Number.nearest (6667 / 10000), 88⟩ := by
  obtain ⟨hblocks, hblocks'⟩ := extractBlocks_creations
  have hkeyed := shapesKeyed_pair (shapeKey_bare_ne_called 0 1 "a.js" "b.js")
  have hkeyed' := shapesKeyed_pair (shapeKey_bare_ne_called 1 0 "b.js" "a.js").symm
  have hbare : (bare 0 "a.js").shape = (bare 1 "b.js").shape := rfl
  have hcalled : (called 1 "b.js").shape = (called 0 "a.js").shape := rfl
  obtain ⟨-, -, -, -, hratio, hruns, -⟩ := nearPass_order_independent hblocks hblocks' hkeyed
    hkeyed' (by simp) (by simp) (by simp) (by simp) (by decide) (by decide) hbare hcalled
  have hties : Alignment.TiesAgree (· == ·) (bare 0 "a.js").shape (called 1 "b.js").shape :=
    Alignment.tiesAgree_of_infix ⟨[], ["arguments@1", "(@2", ")@2"], rfl⟩
  have hlinked : LinkedNear [bare 0 "a.js", called 1 "b.js"] (.finite (1 / 2)) (bare 0 "a.js")
      (called 1 "b.js") ⟨.structural, Number.nearest (6667 / 10000), 88⟩ := by
    rw [linkedNear_iff (numbered_of_extractBlocks hblocks) hkeyed (by simp) (by simp) (by decide)
      (hratio hties)]
    exact ⟨by decide, by decide +kernel⟩
  exact ⟨hties, hlinked, ((hruns (hratio hties)).2 _).mp hlinked⟩

/-! ## Arrays whose ties do not agree -/

def mixedItemsFile (path : String) : SourceTree :=
  bodyFile path "x=>[x,x,1]" 10
    (arrayBody 10 [("identifier", 1), ("identifier", 1), ("number", 1)])

def mixedItems (index : Nat) (path : String) : CodeBlock :=
  bodyBlock index path "x=>[x,x,1]" 10 ["[", "x", ",", "x", ",", "1", "]"]
    (arrayShape ["[", "identifier", ",", "identifier", ",", "number", "]"]) [("x", 2), ("1", 1)]

def trueItemsFile (path : String) : SourceTree :=
  bodyFile path "x=>[1,true,true]" 16 (arrayBody 16 [("number", 1), ("true", 4), ("true", 4)])

def trueItems (index : Nat) (path : String) : CodeBlock :=
  bodyBlock index path "x=>[1,true,true]" 16 ["[", "1", ",", "true", ",", "true", "]"]
    (arrayShape ["[", "number", ",", "true", ",", "true", "]"]) [("1", 1), ("true", 2)]

theorem shapeKey_mixed_ne_true (i j : Nat) (path path' : String) :
    (mixedItems i path).shapeKey ≠ (trueItems j path').shapeKey := by
  have hkeys : (mixedItems 0 "").shapeKey ≠ (trueItems 0 "").shapeKey := by decide +kernel
  exact hkeys

theorem extractBlocks_mixed :
    extractBlocks (anySizeAbove (Number.nearest (3 / 5)))
        [mixedItemsFile "a.js", trueItemsFile "b.js"] =
        .ok [mixedItems 0 "a.js", trueItems 1 "b.js"] ∧
      extractBlocks (anySizeAbove (Number.nearest (3 / 5)))
        [trueItemsFile "a.js", mixedItemsFile "b.js"] =
        .ok [trueItems 0 "a.js", mixedItems 1 "b.js"] := by
  unfold extractBlocks comparableFunctions
  rw [List.mergeSort_of_pairwise (by decide), List.mergeSort_of_pairwise (by decide)]
  exact ⟨rfl, rfl⟩

/-- With five elements in common in one order and four in the other, the order of the files decides
whether the two arrays are linked. -/
theorem order_decides_link :
    extractBlocks (anySizeAbove (Number.nearest (3 / 5)))
        [mixedItemsFile "a.js", trueItemsFile "b.js"] =
        .ok [mixedItems 0 "a.js", trueItems 1 "b.js"] ∧
      extractBlocks (anySizeAbove (Number.nearest (3 / 5)))
        [trueItemsFile "a.js", mixedItemsFile "b.js"] =
        .ok [trueItems 0 "a.js", mixedItems 1 "b.js"] ∧
      ShapesKeyed [mixedItems 0 "a.js", trueItems 1 "b.js"] ∧
      ShapesKeyed [trueItems 0 "a.js", mixedItems 1 "b.js"] ∧
      LinkedNear [mixedItems 0 "a.js", trueItems 1 "b.js"] (.finite (Number.nearest (3 / 5)))
        (mixedItems 0 "a.js") (trueItems 1 "b.js") ⟨.structural, 5 / 8, 86⟩ ∧
      ∀ m, ¬ LinkedNear [trueItems 0 "a.js", mixedItems 1 "b.js"]
        (.finite (Number.nearest (3 / 5))) (mixedItems 1 "b.js") (trueItems 0 "a.js") m := by
  obtain ⟨hblocks, hblocks'⟩ := extractBlocks_mixed
  have hkey := shapeKey_mixed_ne_true 0 1 "a.js" "b.js"
  have hkey' := (shapeKey_mixed_ne_true 1 0 "b.js" "a.js").symm
  have hnum := numbered_of_extractBlocks hblocks
  have hnum' := numbered_of_extractBlocks hblocks'
  obtain ⟨hmixed, htrue⟩ := leader_pair hkey
  obtain ⟨htrue', hmixed'⟩ := leader_pair hkey'
  refine ⟨hblocks, hblocks', shapesKeyed_pair hkey, shapesKeyed_pair hkey', Or.inl ?_, ?_⟩
  · rw [mem_nearLinks_of_leaders hnum (by simp) (by simp) (by decide) hmixed rfl htrue rfl]
    exact ⟨by decide, by decide +kernel⟩
  · rintro m (hlink | hlink)
    · rw [mem_nearLinks_of_leaders hnum' (by simp) (by simp) (by decide) hmixed' rfl htrue' rfl]
        at hlink
      exact absurd hlink.1 (by decide)
    · rw [mem_nearLinks_of_leaders hnum' (by simp) (by simp) (by decide) htrue' rfl hmixed' rfl]
        at hlink
      have hlow : ¬ Number.nearest (3 / 5) ≤
          Alignment.ratio (trueItems 0 "a.js").shape (mixedItems 1 "b.js").shape := by
        decide +kernel
      have hpos : 0 < Number.nearest (3 / 5) := by decide +kernel
      exact hlow ((shapesMatch?_eq_some_iff hpos).mp hlink.2).ratio

end CodeHealth.Duplicates
