import CodeHealth.Proofs.Duplicate.Block
import CodeHealth.Proofs.Duplicate.Grouping
import CodeHealth.Proofs.Duplicate.Record
import CodeHealth.Proofs.Number.Order
import CodeHealth.Proofs.Tally.Overlap

/-!
# Similar words

The sizes of two lexicons bound what they have in common, so the test of sizes leaves out no pair of
blocks with similar words. If the budget lasts, the pass over words is the plain loop over all pairs
of blocks without a match.
-/

namespace CodeHealth.Duplicates

open Linking

/-! ## The similarity of words -/

section jaccard

variable {s t : Tally String}

theorem jaccard_eq_nearest (s t : Tally String) : jaccard s t = Number.nearest (s.overlap t) := by
  unfold jaccard Tally.overlap
  dsimp only
  split <;> rfl

/-- What makes the overlap of two tallies a measure of similarity, and how the rounded overlap
follows it. -/
structure IsSimilarity (s t : Tally String) : Prop where
  symm : s.overlap t = t.overlap s
  nonneg : 0 ≤ s.overlap t
  le_one : s.overlap t ≤ 1
  eq_one_iff : s.overlap t = 1 ↔ s.Perm t ∧ s ≠ []
  le_totals : s.overlap t ≤ (min s.total t.total : Int) / (max s.total t.total : Int)
  rounded : jaccard s t = Number.nearest (s.overlap t)
  rounded_symm : jaccard s t = jaccard t s
  rounded_mem_unit : 0 ≤ jaccard s t ∧ jaccard s t ≤ 1
  rounded_eq_one_iff : (s.union t).total ≤ 2 ^ 53 → (jaccard s t = 1 ↔ s.Perm t ∧ s ≠ [])
  le_rounded_iff : ∀ threshold : Rat, 0 ≤ threshold → Number.nearest threshold = threshold →
    (threshold ≤ jaccard s t ↔ threshold ≤ s.overlap t ∨ jaccard s t = threshold)

theorem jaccard_eq_one_iff (hs : s.Proper) (ht : t.Proper) (hle : (s.union t).total ≤ 2 ^ 53) :
    jaccard s t = 1 ↔ s.Perm t ∧ s ≠ [] := by
  rw [← hs.overlap_eq_one_iff ht, jaccard_eq_nearest]
  constructor
  · intro hone
    by_contra hne
    unfold Tally.overlap at hone hne
    split at hone
    · exact absurd hone (by decide +kernel)
    · rename_i hzero
      have hpos : ((s.union t).total : Rat) ≠ 0 := by
        intro hcast
        exact hzero (by simpa using hcast)
      rw [if_neg hzero, div_eq_one_iff_eq hpos, Int.cast_inj] at hne
      have hlt := lt_of_le_of_ne (Tally.total_inter_le_total_union s t) hne
      exact absurd hone (Number.divide_lt_one (Tally.total_inter_nonneg s t) hlt hle).ne
  · intro hone
    rw [hone]
    decide +kernel

theorem isSimilarity (hs : s.Proper) (ht : t.Proper) : IsSimilarity s t where
  symm := hs.overlap_comm ht
  nonneg := s.overlap_nonneg t
  le_one := s.overlap_le_one t
  eq_one_iff := hs.overlap_eq_one_iff ht
  le_totals := hs.overlap_le ht
  rounded := jaccard_eq_nearest s t
  rounded_symm := by rw [jaccard_eq_nearest, jaccard_eq_nearest, hs.overlap_comm ht]
  rounded_mem_unit := jaccard_mem_unit s t
  rounded_eq_one_iff := jaccard_eq_one_iff hs ht
  le_rounded_iff threshold hpos hbits := by
    rw [jaccard_eq_nearest]
    exact Number.le_nearest_iff hbits (s.overlap_nonneg t) hpos

end jaccard

variable {options : Options} {asts : List SourceTree} {blocks : List CodeBlock} {s : Linking}
  {threshold : Number.Reading}

theorem proper_lexicon (hblocks : extractBlocks options asts = .ok blocks) {a : CodeBlock}
    (ha : a ∈ blocks) : a.lexicon.Proper := by
  obtain ⟨i, hi⟩ := List.mem_iff_getElem?.mp ha
  obtain ⟨ast, f, tokens, -, -, rfl⟩ := exists_function_of_block hblocks hi
  exact Tally.proper_ofList _

/-- The test of sizes passes all blocks with similar words. -/
theorem totalsAllow_of_le_jaccard (hpos : (Number.Reading.finite 0).lt threshold = true)
    {a b : CodeBlock} (ha : a.lexicon.Proper) (hb : b.lexicon.Proper)
    (h : threshold.le (.finite (jaccard a.lexicon b.lexicon)) = true) :
    totalsAllow threshold a b = true := by
  have hle : jaccard a.lexicon b.lexicon ≤ Number.divide (min a.lexicon.total b.lexicon.total : Int)
      (max a.lexicon.total b.lexicon.total : Int) := by
    rw [jaccard_eq_nearest]
    exact Number.nearest_mono (Tally.overlap_nonneg _ _) (ha.overlap_le hb)
  unfold totalsAllow
  rw [Bool.and_eq_true, bne_iff_ne, Bool.not_eq_true']
  refine ⟨fun hzero => ?_, Number.Reading.lt_eq_false_of_le h hle⟩
  -- nothing is similar to a block without words
  rw [hzero, Int.cast_zero, Number.divide, div_zero] at hle
  exact Bool.false_ne_true ((Number.Reading.lt_eq_false_of_le h hle).symm.trans hpos)

/-! ## The plain loop -/

/-- The links of blocks with similar words among those without a match, whatever their sizes. -/
def wordLinks (blocks : List CodeBlock) (threshold : Number.Reading) (s : Linking) :
    List LinkCall :=
  ((pairs (blocks.filter fun b => (s.best? b.index).isNone)).filter fun p =>
    !p.1.overlaps p.2).filterMap (wordLink? threshold)

/-- Two blocks without a match that do not overlap and whose words are similar, the earlier first,
with the match of their words. -/
structure WordLink (blocks : List CodeBlock) (threshold : Number.Reading) (s : Linking)
    (c : LinkCall) : Prop where
  left_mem : c.left ∈ blocks
  right_mem : c.right ∈ blocks
  before : c.left.index < c.right.index
  left_free : s.best? c.left.index = none
  right_free : s.best? c.right.index = none
  apart : c.left.overlaps c.right = false
  similar : threshold.le (.finite (jaccard c.left.lexicon c.right.lexicon)) = true
  found : c.found = ⟨.semantic, Number.roundTo 4 (jaccard c.left.lexicon c.right.lexicon),
    Number.roundHalfEven (Number.nearest (jaccard c.left.lexicon c.right.lexicon * 100))⟩

theorem wordLink?_eq_some_iff {p : CodeBlock × CodeBlock} {c : LinkCall} :
    wordLink? threshold p = some c ↔
      p = (c.left, c.right) ∧
        threshold.le (.finite (jaccard c.left.lexicon c.right.lexicon)) = true ∧
        c.found = ⟨.semantic, Number.roundTo 4 (jaccard c.left.lexicon c.right.lexicon),
          Number.roundHalfEven
            (Number.nearest (jaccard c.left.lexicon c.right.lexicon * 100))⟩ := by
  obtain ⟨a, b⟩ := p
  obtain ⟨left, right, found⟩ := c
  unfold wordLink? wordMatch?
  dsimp only
  split
  · simp only [Option.map_some, Option.some.injEq, LinkCall.mk.injEq, Prod.mk.injEq]
    constructor
    · rintro ⟨rfl, rfl, rfl⟩
      exact ⟨⟨rfl, rfl⟩, by assumption, rfl⟩
    · rintro ⟨⟨rfl, rfl⟩, -, rfl⟩
      exact ⟨rfl, rfl, rfl⟩
  · rename_i hlow
    simp only [Option.map_none, reduceCtorEq, Prod.mk.injEq, false_iff]
    rintro ⟨⟨rfl, rfl⟩, hle, -⟩
    exact hlow hle

theorem mem_wordLinks_iff (hnum : Numbered blocks) {c : LinkCall} :
    c ∈ wordLinks blocks threshold s ↔ WordLink blocks threshold s c := by
  have hsub : (blocks.filter fun b => (s.best? b.index).isNone).Sublist blocks :=
    List.filter_sublist
  unfold wordLinks
  simp only [List.mem_filterMap, List.mem_filter, wordLink?_eq_some_iff]
  constructor
  · rintro ⟨p, ⟨hpair, hover⟩, rfl, hle, hfound⟩
    obtain ⟨ha, hb, hlt⟩ := (mem_pairs_iff hnum hsub).mp hpair
    rw [List.mem_filter, Option.isNone_iff_eq_none] at ha hb
    exact ⟨ha.1, hb.1, hlt, ha.2, hb.2, by simpa using hover, hle, hfound⟩
  · intro h
    refine ⟨(c.left, c.right), ⟨(mem_pairs_iff hnum hsub).mpr ⟨?_, ?_, h.before⟩, ?_⟩, rfl,
      h.similar, h.found⟩
    · exact List.mem_filter.mpr ⟨h.left_mem, by simp [h.left_free]⟩
    · exact List.mem_filter.mpr ⟨h.right_mem, by simp [h.right_free]⟩
    · simp [h.apart]

/-- No pair of blocks is linked twice. -/
theorem nodup_wordLinks (hnum : Numbered blocks) (threshold : Number.Reading) (s : Linking) :
    ((wordLinks blocks threshold s).map fun c => (c.left, c.right)).Nodup := by
  have hends : ∀ ps : List (CodeBlock × CodeBlock),
      ((ps.filterMap (wordLink? threshold)).map fun c => (c.left, c.right)).Sublist ps := by
    intro ps
    induction ps with
    | nil => exact List.Sublist.refl _
    | cons p ps ih =>
        rw [List.filterMap_cons]
        split
        · exact ih.cons p
        · rename_i c hc
          rw [List.map_cons, (wordLink?_eq_some_iff.mp hc).1]
          exact ih.cons_cons _
  have hpairs := nodup_pairs (hnum.nodup.filter fun b => (s.best? b.index).isNone)
  exact (hends _).nodup (hpairs.filter _)

/-- What the test of sizes leaves out has no link. -/
theorem flatMap_comparesWords (hpos : (Number.Reading.finite 0).lt threshold = true)
    {ps : List (CodeBlock × CodeBlock)}
    (hwords : ∀ p ∈ ps, p.1.lexicon.Proper ∧ p.2.lexicon.Proper) :
    ((ps.filter (comparesWords threshold)).flatMap fun p => (wordLink? threshold p).toList) =
      (ps.filter fun p => !p.1.overlaps p.2).filterMap (wordLink? threshold) := by
  induction ps with
  | nil => rfl
  | cons p ps ih =>
      have ih := ih fun q hq => hwords q (List.mem_cons_of_mem _ hq)
      by_cases hover : p.1.overlaps p.2 = true
      · rw [List.filter_cons_of_neg (by simp [comparesWords, hover]), ih,
          List.filter_cons_of_neg (by simp [hover])]
      · have hkept : ((p :: ps).filter fun p => !p.1.overlaps p.2) =
            p :: ps.filter fun p => !p.1.overlaps p.2 :=
          List.filter_cons_of_pos (by simpa using hover)
        rw [hkept]
        by_cases htotals : totalsAllow threshold p.1 p.2 = true
        · rw [List.filter_cons_of_pos (by simp [comparesWords, hover, htotals]),
            List.flatMap_cons, ih, List.filterMap_cons]
          cases wordLink? threshold p <;> rfl
        · have hnone : wordLink? threshold p = none := by
            rw [Option.eq_none_iff_forall_ne_some]
            intro c hc
            obtain ⟨rfl, hle, -⟩ := wordLink?_eq_some_iff.mp hc
            obtain ⟨ha, hb⟩ := hwords _ List.mem_cons_self
            exact htotals (totalsAllow_of_le_jaccard hpos ha hb hle)
          rw [List.filter_cons_of_neg (by simp [comparesWords, htotals]), ih,
            List.filterMap_cons_none hnone]

/-- If the budget lasts, the pass over words makes the links of the plain loop. -/
theorem wordPass_eq_follow
    (hpos : (Number.Reading.finite 0).lt options.semanticThreshold = true)
    (hwords : ∀ a ∈ blocks, a.lexicon.Proper)
    (hdone : (wordPass blocks options s).exhausted = false) :
    ∃ n : Nat, wordPass blocks options s =
      (s.follow blocks (wordLinks blocks options.semanticThreshold s)).charge n := by
  unfold wordPass at hdone ⊢
  rw [wordPairs_eq_compareAll] at hdone ⊢
  rw [compareAll_eq_follow _ hdone, flatMap_comparesWords hpos]
  · exact ⟨_, rfl⟩
  · intro p hp
    obtain ⟨ha, hb⟩ := mem_of_mem_pairs hp
    exact ⟨hwords _ (List.mem_of_mem_filter ha), hwords _ (List.mem_of_mem_filter hb)⟩

/-- The overlap of words is a symmetric measure between zero and one that is one just for equal
words, and the test of sizes leaves out no pair that reaches the threshold. So if the budget lasts,
the pass over words links exactly the pairs without a match that reach it, each pair once. -/
theorem wordPass_links_similar (hblocks : extractBlocks options asts = .ok blocks)
    (hpos : (Number.Reading.finite 0).lt options.semanticThreshold = true)
    (hdone : (wordPass blocks options s).exhausted = false) :
    (∀ u v : Tally String, u.Proper → v.Proper → IsSimilarity u v) ∧
      (∀ t : Number.Reading, (Number.Reading.finite 0).lt t = true →
        ∀ a ∈ blocks, ∀ b ∈ blocks, t.le (.finite (jaccard a.lexicon b.lexicon)) = true →
          totalsAllow t a b = true) ∧
      (∃ n : Nat, wordPass blocks options s =
        (s.follow blocks (wordLinks blocks options.semanticThreshold s)).charge n) ∧
      ((wordLinks blocks options.semanticThreshold s).map fun c => (c.left, c.right)).Nodup ∧
      ∀ c, c ∈ wordLinks blocks options.semanticThreshold s ↔
        WordLink blocks options.semanticThreshold s c := by
  have hwords : ∀ a ∈ blocks, a.lexicon.Proper := fun a ha => proper_lexicon hblocks ha
  have hnum := numbered_of_extractBlocks hblocks
  refine ⟨fun u v hu hv => isSimilarity hu hv, fun t ht a ha b hb => ?_,
    wordPass_eq_follow hpos hwords hdone, nodup_wordLinks hnum _ s, fun c => mem_wordLinks_iff hnum⟩
  exact totalsAllow_of_le_jaccard ht (hwords a ha) (hwords b hb)

/-- The words of two equal functions are linked if nothing linked them before. -/
theorem twoIdentities_links_similar :
    extractBlocks anySize [twoIdentities] = .ok [identityBlock 0 0, identityBlock 1 5] ∧
      (Number.Reading.finite 0).lt anySize.semanticThreshold = true ∧
      (wordPass [identityBlock 0 0, identityBlock 1 5] anySize (start 2)).exhausted = false ∧
      ∃ n : Nat, wordPass [identityBlock 0 0, identityBlock 1 5] anySize (start 2) =
        ((start 2).follow [identityBlock 0 0, identityBlock 1 5]
          [⟨identityBlock 0 0, identityBlock 1 5, ⟨.semantic, 1, 100⟩⟩]).charge n := by
  have hpos : (Number.Reading.finite 0).lt anySize.semanticThreshold = true := by decide +kernel
  have hdone : (wordPass [identityBlock 0 0, identityBlock 1 5] anySize (start 2)).exhausted =
      false := wordPairs_within _ _ rfl (by decide +kernel)
  have hlinks : wordLinks [identityBlock 0 0, identityBlock 1 5] anySize.semanticThreshold
      (start 2) = [⟨identityBlock 0 0, identityBlock 1 5, ⟨.semantic, 1, 100⟩⟩] := by
    have hpairs : ((pairs ([identityBlock 0 0, identityBlock 1 5].filter fun b =>
        ((start 2).best? b.index).isNone)).filter fun p => !p.1.overlaps p.2) =
          [(identityBlock 0 0, identityBlock 1 5)] := rfl
    have hmatch : wordMatch? anySize.semanticThreshold (identityBlock 0 0) (identityBlock 1 5) =
        some ⟨.semantic, 1, 100⟩ := by decide +kernel
    unfold wordLinks
    rw [hpairs, List.filterMap_cons, wordLink?, hmatch]
    rfl
  obtain ⟨-, -, ⟨n, hfollow⟩, -, -⟩ :=
    wordPass_links_similar extractBlocks_twoIdentities hpos hdone
  exact ⟨extractBlocks_twoIdentities, hpos, hdone, n, by rw [hfollow, hlinks]⟩

end CodeHealth.Duplicates
