import CodeHealth.Proofs.Duplicate.Shapes
import CodeHealth.Proofs.Duplicate.Taken
import CodeHealth.Proofs.Duplicate.Words

/-!
# The links of a search

All passes together are one run of links: those of equal tokens and of equal shapes, then those of
similar shapes and of similar words as far as the budget goes. Each of them is of two different
blocks that do not overlap, with a match of its kind.
-/

namespace CodeHealth.Duplicates

open Linking

variable {blocks bucket : List CodeBlock} {options : Options} {key : CodeBlock → String}
  {m : Match} {c : LinkCall} {s : Linking}

/-! ## Equal keys -/

/-- The links of the blocks of a bucket. -/
def linksWithin (m : Match) (bucket : List CodeBlock) : List LinkCall :=
  ((pairs bucket).filter fun p => !p.1.overlaps p.2).map fun p => ⟨p.1, p.2, m⟩

/-- The links of blocks with equal tokens. -/
def exactLinks (blocks : List CodeBlock) : List LinkCall :=
  (buckets CodeBlock.exactKey blocks).flatMap (linksWithin exactMatch)

/-- The links of blocks with equal shapes, where not all of them have equal tokens. -/
def shapeLinks (blocks : List CodeBlock) : List LinkCall :=
  ((buckets CodeBlock.shapeKey blocks).filter fun bucket =>
    1 < (bucket.map CodeBlock.exactKey).eraseDups.length).flatMap (linksWithin shapeMatch)

/-- Two blocks with equal keys that do not overlap, the earlier first, with a match. -/
structure KeyLink (key : CodeBlock → String) (m : Match) (blocks : List CodeBlock)
    (c : LinkCall) : Prop where
  found : c.found = m
  left_mem : c.left ∈ blocks
  right_mem : c.right ∈ blocks
  before : c.left.index < c.right.index
  apart : c.left.overlaps c.right = false
  equal : key c.left = key c.right

theorem foldl_linkPairs_eq_follow (m : Match) (some : List (List CodeBlock)) (s : Linking) :
    some.foldl (fun s bucket => linkPairs blocks m s (pairs bucket)) s =
      s.follow blocks (some.flatMap (linksWithin m)) := by
  induction some generalizing s with
  | nil => rfl
  | cons bucket rest ih =>
      rw [List.foldl_cons, ih, List.flatMap_cons, follow_append, linkPairs_eq_follow]
      rfl

theorem exactPass_eq_follow (s : Linking) :
    exactPass blocks s = s.follow blocks (exactLinks blocks) :=
  foldl_linkPairs_eq_follow exactMatch _ s

theorem keysLinked_eq_follow (blocks : List CodeBlock) :
    keysLinked blocks =
      (start blocks.length).follow blocks (exactLinks blocks ++ shapeLinks blocks) := by
  rw [follow_append, ← exactPass_eq_follow]
  exact foldl_linkPairs_eq_follow shapeMatch _ _

theorem mem_linksWithin_iff (hnum : Numbered blocks) (hbucket : bucket ∈ buckets key blocks) :
    c ∈ linksWithin m bucket ↔
      KeyLink key m blocks c ∧ c.left ∈ bucket ∧ c.right ∈ bucket := by
  have hsub := sublist_of_mem_bucket hbucket
  simp only [linksWithin, List.mem_map, List.mem_filter]
  constructor
  · rintro ⟨⟨a, b⟩, ⟨hpair, hover⟩, rfl⟩
    obtain ⟨ha, hb, hlt⟩ := (mem_pairs_iff hnum hsub).mp hpair
    exact ⟨⟨rfl, hsub.subset ha, hsub.subset hb, hlt, by simpa using hover,
      key_eq_of_mem_bucket hbucket ha hb⟩, ha, hb⟩
  · rintro ⟨h, ha, hb⟩
    refine ⟨(c.left, c.right), ⟨(mem_pairs_iff hnum hsub).mpr ⟨ha, hb, h.before⟩, ?_⟩, ?_⟩
    · simp [h.apart]
    · rw [← h.found]

theorem mem_exactLinks_iff (hnum : Numbered blocks) :
    c ∈ exactLinks blocks ↔ KeyLink CodeBlock.exactKey exactMatch blocks c := by
  unfold exactLinks
  rw [List.mem_flatMap]
  constructor
  · rintro ⟨bucket, hbucket, hc⟩
    exact ((mem_linksWithin_iff hnum hbucket).mp hc).1
  · intro h
    obtain ⟨bucket, hbucket, hleft⟩ := exists_bucket_of_mem CodeBlock.exactKey h.left_mem
    refine ⟨bucket, hbucket, (mem_linksWithin_iff hnum hbucket).mpr ⟨h, hleft, ?_⟩⟩
    rw [buckets_eq_classesBy] at hbucket
    exact (mem_of_mem_classesBy hbucket hleft).mpr ⟨h.right_mem, h.equal.symm⟩

theorem keyLink_of_mem_shapeLinks (hnum : Numbered blocks) (hc : c ∈ shapeLinks blocks) :
    KeyLink CodeBlock.shapeKey shapeMatch blocks c := by
  obtain ⟨bucket, hbucket, hc⟩ := List.mem_flatMap.mp hc
  exact ((mem_linksWithin_iff hnum (List.mem_of_mem_filter hbucket)).mp hc).1

theorem KeyLink.within (h : KeyLink key m blocks c) : c.Within blocks where
  left_mem := h.left_mem
  right_mem := h.right_mem
  ne heq := absurd h.before (by rw [heq]; exact lt_irrefl _)

/-! ## Links within the budget -/

/-- The links of blocks with similar shapes that the budget is enough for. -/
def nearLinksMade (blocks : List CodeBlock) (options : Options) : List LinkCall :=
  (affordable options.maxDuplicateComparisons (keysLinked blocks)
    ((pairs (buckets CodeBlock.shapeKey blocks)).filter
      (comparesShapes options.structuralThreshold))).flatMap
    (bucketLinks options.structuralThreshold)

/-- The links made before words are compared. -/
def shapeCalls (blocks : List CodeBlock) (options : Options) : List LinkCall :=
  (exactLinks blocks ++ shapeLinks blocks) ++ nearLinksMade blocks options

/-- The links of blocks with similar words that the budget is enough for. -/
def wordLinksMade (blocks : List CodeBlock) (options : Options) : List LinkCall :=
  (affordable options.maxDuplicateComparisons (shapesLinked blocks options)
    ((pairs (blocks.filter fun b => ((shapesLinked blocks options).best? b.index).isNone)).filter
      (comparesWords options.semanticThreshold))).flatMap
    fun p => (wordLink? options.semanticThreshold p).toList

/-- All links that a search asks for. -/
def searchCalls (blocks : List CodeBlock) (options : Options) : List LinkCall :=
  shapeCalls blocks options ++ wordLinksMade blocks options

theorem shapesLinked_eq_counted
    (h : nearPass blocks options (keysLinked blocks) = .ok (shapesLinked blocks options)) :
    ∃ n e, shapesLinked blocks options =
      ((start blocks.length).follow blocks (shapeCalls blocks options)).counted n e := by
  obtain ⟨n, e, hrun⟩ := compareAll_eq_counted blocks options.maxDuplicateComparisons
    (bucketLinks options.structuralThreshold)
    ((pairs (buckets CodeBlock.shapeKey blocks)).filter
      (comparesShapes options.structuralThreshold)) (keysLinked blocks)
  refine ⟨n, e, ?_⟩
  rw [shapeCalls, follow_append, ← keysLinked_eq_follow]
  exact (eq_compareAll_of_nearPairs h).trans hrun

/-- A search is one run of links. -/
theorem linkAll_eq_counted (h : linkAll blocks options = .ok s) :
    ∃ n e, s = ((start blocks.length).follow blocks (searchCalls blocks options)).counted n e := by
  obtain ⟨hnear, rfl⟩ := linkAll_eq_ok_iff.mp h
  obtain ⟨n, e, hshapes⟩ := shapesLinked_eq_counted hnear
  obtain ⟨n', e', hrun⟩ := compareAll_eq_counted blocks options.maxDuplicateComparisons
    (fun p => (wordLink? options.semanticThreshold p).toList)
    ((pairs (blocks.filter fun b => ((shapesLinked blocks options).best? b.index).isNone)).filter
      (comparesWords options.semanticThreshold)) (shapesLinked blocks options)
  have hlinked : wordPass blocks options (shapesLinked blocks options) =
      ((shapesLinked blocks options).follow blocks (wordLinksMade blocks options)).counted n' e' :=
    (wordPairs_eq_compareAll _ _).trans hrun
  refine ⟨n', e', ?_⟩
  rw [hlinked, searchCalls, follow_append]
  generalize wordLinksMade blocks options = made
  rw [hshapes, follow_counted]
  rfl

/-! ## Kinds of links -/

/-- The numbers that links of each type have: fixed ones for equal tokens, a confidence in a range
for shapes, and the share of common words otherwise. -/
def Graded (c : LinkCall) : Prop :=
  match c.found.type with
  | .exact => c.left.exactKey = c.right.exactKey ∧ c.found.confidence = 100 ∧
      c.found.similarity = 1
  | .structural => 85 ≤ c.found.confidence ∧ c.found.confidence ≤ 95
  | .semantic =>
      c.found.confidence = Number.roundHalfEven
          (Number.nearest (jaccard c.left.lexicon c.right.lexicon * 100)) ∧
        c.found.similarity = Number.roundTo 4 (jaccard c.left.lexicon c.right.lexicon)

/-- What a search asks for is a link of two blocks that do not overlap, with the numbers of its
type. -/
structure Sensible (blocks : List CodeBlock) (c : LinkCall) : Prop where
  within : c.Within blocks
  apart : c.left.overlaps c.right = false
  graded : Graded c

theorem KeyLink.sensible (h : KeyLink key m blocks c)
    (hgraded : c.found = m → key c.left = key c.right → Graded c) : Sensible blocks c :=
  ⟨h.within, h.apart, hgraded h.found h.equal⟩

theorem sensible_of_mem_exactLinks (hnum : Numbered blocks) (hc : c ∈ exactLinks blocks) :
    Sensible blocks c := by
  apply ((mem_exactLinks_iff hnum).mp hc).sensible
  intro hfound hkey
  unfold Graded
  rw [hfound]
  exact ⟨hkey, rfl, rfl⟩

theorem type_of_mem_exactLinks (hnum : Numbered blocks) (hc : c ∈ exactLinks blocks) :
    c.found.type = .exact := by
  rw [((mem_exactLinks_iff hnum).mp hc).found]
  rfl

theorem sensible_of_mem_shapeLinks (hnum : Numbered blocks) (hc : c ∈ shapeLinks blocks) :
    Sensible blocks c ∧ c.found.type = .structural := by
  have h := keyLink_of_mem_shapeLinks hnum hc
  refine ⟨h.sensible fun hfound _ => ?_, by rw [h.found]; rfl⟩
  unfold Graded
  rw [hfound]
  exact ⟨by decide, by decide⟩

theorem NearLink.sensible {threshold : Number.Reading} (h : NearLink blocks threshold c) :
    Sensible blocks c ∧ c.found.type = .structural := by
  obtain ⟨x, y, hx, hy, hlt, hmatch⟩ := h.similar
  have hne : c.left ≠ c.right := by
    intro heq
    rw [heq, hy] at hx
    obtain rfl := Option.some.inj hx
    exact lt_irrefl _ hlt
  have hfound : nearMatch? threshold x y = .ok (some c.found) := by
    unfold shapesMatch? at hmatch
    split at hmatch
    · exact hmatch
    · exact nomatch hmatch
  obtain ⟨htype, -, hrange⟩ := of_nearMatch? hfound
  refine ⟨⟨⟨h.left_mem, h.right_mem, hne⟩, h.apart, ?_⟩, htype⟩
  unfold Graded
  rw [htype]
  exact hrange

theorem mem_nearLinks_of_made (hc : c ∈ nearLinksMade blocks options) :
    c ∈ nearLinks blocks options.structuralThreshold := by
  obtain ⟨p, hp, hc⟩ := List.mem_flatMap.mp hc
  exact List.mem_flatMap.mpr ⟨p, List.mem_of_mem_take hp, hc⟩

theorem wordLink_of_made (hnum : Numbered blocks) (hc : c ∈ wordLinksMade blocks options) :
    WordLink blocks options.semanticThreshold (shapesLinked blocks options) c := by
  obtain ⟨p, hp, hc⟩ := List.mem_flatMap.mp hc
  obtain ⟨hpair, hcompared⟩ := List.mem_filter.mp (List.mem_of_mem_take hp)
  rw [comparesWords, Bool.and_eq_true] at hcompared
  rw [← mem_wordLinks_iff hnum]
  exact List.mem_filterMap.mpr
    ⟨p, List.mem_filter.mpr ⟨hpair, hcompared.1⟩, by simpa using hc⟩

theorem WordLink.sensible {threshold : Number.Reading} (h : WordLink blocks threshold s c) :
    Sensible blocks c ∧ c.found.type = .semantic := by
  have hne : c.left ≠ c.right := fun heq => absurd h.before (by rw [heq]; exact lt_irrefl _)
  refine ⟨⟨⟨h.left_mem, h.right_mem, hne⟩, h.apart, ?_⟩, by rw [h.found]⟩
  unfold Graded
  rw [h.found]
  exact ⟨rfl, rfl⟩

theorem sensible_of_mem_shapeCalls (hnum : Numbered blocks) (hc : c ∈ shapeCalls blocks options) :
    Sensible blocks c ∧ c.found.type ≠ .semantic := by
  unfold shapeCalls at hc
  rw [List.mem_append, List.mem_append] at hc
  rcases hc with (hc | hc) | hc
  · refine ⟨sensible_of_mem_exactLinks hnum hc, ?_⟩
    rw [type_of_mem_exactLinks hnum hc]
    decide
  · obtain ⟨hsensible, htype⟩ := sensible_of_mem_shapeLinks hnum hc
    exact ⟨hsensible, by rw [htype]; decide⟩
  · obtain ⟨hsensible, htype⟩ :=
      ((mem_nearLinks_iff hnum).mp (mem_nearLinks_of_made hc)).sensible
    exact ⟨hsensible, by rw [htype]; decide⟩

theorem sensible_of_mem_searchCalls (hnum : Numbered blocks)
    (hc : c ∈ searchCalls blocks options) : Sensible blocks c := by
  rcases List.mem_append.mp hc with hc | hc
  · exact (sensible_of_mem_shapeCalls hnum hc).1
  · exact (wordLink_of_made hnum hc).sensible.1

/-! ## What a search comes to -/

theorem grounded_shapesLinked (hnum : Numbered blocks)
    (h : nearPass blocks options (keysLinked blocks) = .ok (shapesLinked blocks options)) :
    Grounded blocks (shapeCalls blocks options) (shapesLinked blocks options) := by
  obtain ⟨n, e, hrun⟩ := shapesLinked_eq_counted h
  rw [hrun]
  exact (grounded_follow hnum fun c hc =>
    (sensible_of_mem_shapeCalls hnum hc).1.within).counted n e

theorem grounded_linkAll (hnum : Numbered blocks) (h : linkAll blocks options = .ok s) :
    Grounded blocks (searchCalls blocks options) s := by
  obtain ⟨n, e, hrun⟩ := linkAll_eq_counted h
  rw [hrun]
  exact (grounded_follow hnum fun c hc =>
    (sensible_of_mem_searchCalls hnum hc).within).counted n e

/-- A match is one of words exactly at the blocks that had none before words were compared. -/
theorem type_eq_semantic_iff (hnum : Numbered blocks) (h : linkAll blocks options = .ok s)
    {a : CodeBlock} (ha : a ∈ blocks) (hm : s.best? a.index = some m) :
    m.type = .semantic ↔ (shapesLinked blocks options).best? a.index = none := by
  obtain ⟨b, c, hc, hab, rfl⟩ := (grounded_linkAll hnum h).evidence a ha m hm
  rcases taken_append.mp hc with hc | hc
  · -- a link of shapes that is taken leaves both its blocks with a match
    have hshapes := grounded_shapesLinked hnum (linkAll_eq_ok_iff.mp h).1
    obtain ⟨m, hm, -⟩ := hshapes.strongest c hc a b hab
    have htype := (sensible_of_mem_shapeCalls hnum (mem_of_taken hc)).2
    simp [htype, hm]
  · have h := wordLink_of_made hnum (mem_of_taken hc)
    have htype := h.sensible.2
    rcases hab with ⟨rfl, -⟩ | ⟨-, rfl⟩
    · simp [htype, h.left_free]
    · simp [htype, h.right_free]

/-- Either all matches in a group are of words or none is. -/
theorem type_eq_semantic_iff_of_together (hnum : Numbered blocks)
    (h : linkAll blocks options = .ok s) {a b : CodeBlock} (ha : a ∈ blocks) (hb : b ∈ blocks)
    (hab : s.Together a b) {m' : Match} (hm : s.best? a.index = some m)
    (hm' : s.best? b.index = some m') : m.type = .semantic ↔ m'.type = .semantic := by
  rw [type_eq_semantic_iff hnum h ha hm, type_eq_semantic_iff hnum h hb hm']
  have hshapes := grounded_shapesLinked hnum (linkAll_eq_ok_iff.mp h).1
  apply hshapes.best?_eq_none_iff (grounded_linkAll hnum h) (fun c hc => ?_) ha hb hab
  exact ⟨(wordLink_of_made hnum hc).left_free, (wordLink_of_made hnum hc).right_free⟩

end CodeHealth.Duplicates
