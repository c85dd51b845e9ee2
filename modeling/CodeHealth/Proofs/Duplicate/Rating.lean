import CodeHealth.Proofs.Duplicate.Comparison

/-!
# Ratings of shapes

Similar shapes have a confidence between 85 and 95. No confidence can be scaled from the undefined
threshold, nor from the one below all numbers. No ratio is below either, so a search with such a
threshold fails at its first comparison of shapes, and no other search for links fails.
-/

namespace CodeHealth.Duplicates

open Linking

variable {blocks : List CodeBlock} {options : Options} {s : Linking}
  {threshold : Number.Reading} {e : DuplicateError}

/-! ## Confidences -/

theorem structuralConfidence_mem (ratio threshold : Rat) :
    85 ≤ structuralConfidence ratio threshold ∧ structuralConfidence ratio threshold ≤ 95 := by
  unfold structuralConfidence
  split
  · decide
  · dsimp only
    omega

theorem confidenceAt?_mem {ratio : Rat} {c : Int} (h : confidenceAt? ratio threshold = some c) :
    85 ≤ c ∧ c ≤ 95 := by
  unfold confidenceAt? at h
  split at h
  · exact Option.some.inj h ▸ structuralConfidence_mem ratio _
  · obtain rfl := Option.some.inj h
    decide
  · exact nomatch h
  · exact nomatch h

/-- What similar shapes match with. -/
theorem of_nearMatch? {a b : CodeBlock} {m : Match}
    (h : nearMatch? threshold a b = .ok (some m)) :
    m.type = .structural ∧ m.similarity = Number.roundTo 4 (Alignment.ratio a.shape b.shape) ∧
      85 ≤ m.confidence ∧ m.confidence ≤ 95 := by
  unfold nearMatch? at h
  dsimp only at h
  split at h
  · exact nomatch h
  · split at h
    · exact nomatch h
    · split at h
      · rename_i c hconfidence
        rw [← Option.some.inj (Except.ok.inj h)]
        exact ⟨rfl, rfl, confidenceAt?_mem hconfidence⟩
      · exact nomatch h

/-! ## Comparisons that fail -/

/-- The thresholds that no confidence can be scaled from: the undefined one and the one below all
numbers. -/
def Unrated (threshold : Number.Reading) : Prop :=
  threshold = .undefined ∨ threshold = .infinite true

theorem not_unrated_finite (q : Rat) : ¬ Unrated (.finite q) := by
  simp [Unrated]

/-- Such a threshold is above no ratio, so that the first comparison asks for a confidence. -/
theorem nearMatch?_eq_error_iff {a b : CodeBlock} :
    nearMatch? threshold a b = .error e ↔ e = .undefinedConfidence ∧ Unrated threshold := by
  unfold nearMatch? Unrated
  dsimp only
  cases threshold with
  | finite q =>
      split
      · simp
      · split <;> simp [confidenceAt?]
  | infinite negative => cases negative <;> simp [Number.Reading.lt, confidenceAt?, eq_comm]
  | undefined => simp [Number.Reading.lt, confidenceAt?, eq_comm]

theorem not_unrated_of_nearMatch? {a b : CodeBlock} {m? : Option Match}
    (h : nearMatch? threshold a b = .ok m?) : ¬ Unrated threshold := by
  intro hunrated
  have herror := nearMatch?_eq_error_iff (a := a) (b := b) |>.mpr ⟨rfl, hunrated⟩
  rw [h] at herror
  cases herror

/-- A pass over shapes fails at its first comparison or not at all. -/
theorem nearPairs_eq_error_iff {candidates : List (List CodeBlock × List CodeBlock)} :
    nearPairs blocks options candidates s = .error e ↔
      e = .undefinedConfidence ∧ Unrated options.structuralThreshold ∧
        s.comparisons < options.maxDuplicateComparisons ∧
        ∃ p ∈ candidates, comparesShapes options.structuralThreshold p = true := by
  fun_induction nearPairs blocks options candidates s with
  | case1 s => simp
  | case2 as bs rest s x y hy hx hlen ih =>
      have hskipped : comparesShapes options.structuralThreshold (as, bs) = false := by
        rw [comparesShapes_of_heads hx hy]
        simpa using hlen
      rw [ih]
      simp [hskipped]
  | case3 as bs rest s x y hy hx hlen hspend =>
      rw [spend?_eq_none_iff] at hspend
      simp [not_lt.mpr hspend]
  | case4 as bs rest s x y hy hx hlen s' hspend e' herror =>
      obtain ⟨rfl, hunrated⟩ := nearMatch?_eq_error_iff.mp herror
      obtain ⟨hroom, -⟩ := spend?_eq_some_iff.mp hspend
      have hcompared : comparesShapes options.structuralThreshold (as, bs) = true := by
        rw [comparesShapes_of_heads hx hy]
        simpa using hlen
      rw [Except.error.injEq]
      exact ⟨fun heq => ⟨heq.symm, hunrated, hroom, _, List.mem_cons_self, hcompared⟩,
        fun h => h.1.symm⟩
  | case5 as bs rest s x y hy hx hlen s' hspend hnone ih =>
      rw [ih]
      simp [not_unrated_of_nearMatch? hnone]
  | case6 as bs rest s x y hy hx hlen s' hspend m hsome ih =>
      rw [ih]
      simp [not_unrated_of_nearMatch? hsome]
  | case7 as bs rest s hhead ih =>
      rw [ih]
      simp [comparesShapes_of_no_heads hhead]

/-! ## Searches that fail -/

theorem foldl_linkPairs_spends_nothing (blocks : List CodeBlock) (m : Match)
    (some : List (List CodeBlock)) (s : Linking) :
    (some.foldl (fun s bucket => linkPairs blocks m s (pairs bucket)) s).exhausted = s.exhausted ∧
      (some.foldl (fun s bucket => linkPairs blocks m s (pairs bucket)) s).comparisons =
        s.comparisons := by
  induction some generalizing s with
  | nil => exact ⟨rfl, rfl⟩
  | cons bucket rest ih =>
      rw [List.foldl_cons]
      have := ih (linkPairs blocks m s (pairs bucket))
      rwa [exhausted_linkPairs, comparisons_linkPairs] at this

theorem keysLinked_spends_nothing (blocks : List CodeBlock) :
    (keysLinked blocks).exhausted = false ∧ (keysLinked blocks).comparisons = 0 := by
  have hexact := foldl_linkPairs_spends_nothing blocks exactMatch
    (buckets CodeBlock.exactKey blocks) (Linking.start blocks.length)
  have hshape := foldl_linkPairs_spends_nothing blocks shapeMatch
    ((buckets CodeBlock.shapeKey blocks).filter fun bucket =>
      1 < (bucket.map CodeBlock.exactKey).eraseDups.length)
    (exactPass blocks (Linking.start blocks.length))
  exact ⟨hshape.1.trans hexact.1, hshape.2.trans hexact.2⟩

theorem lengthsAllow_of_unrated (h : Unrated threshold) {a b : CodeBlock}
    (hkey : a.shapeKey ≠ b.shapeKey) : lengthsAllow threshold a b = true := by
  -- blocks with different shapes are not both empty
  have hlonger : max a.shape.length b.shape.length ≠ 0 := by
    intro hzero
    have ha : a.shape = [] := List.length_eq_zero_iff.mp (by omega)
    have hb : b.shape = [] := List.length_eq_zero_iff.mp (by omega)
    exact hkey (by rw [CodeBlock.shapeKey, CodeBlock.shapeKey, ha, hb])
  unfold lengthsAllow
  rw [Bool.and_eq_true, bne_iff_ne]
  refine ⟨hlonger, ?_⟩
  rcases h with rfl | rfl <;> rfl

theorem exists_head?_of_mem_buckets {key : CodeBlock → String} {bucket : List CodeBlock}
    (hbucket : bucket ∈ buckets key blocks) : ∃ a, bucket.head? = some a := by
  rw [buckets_eq_classesBy] at hbucket
  exact ⟨_, List.head?_eq_some_head (ne_nil_of_mem_classesBy hbucket)⟩

theorem comparesShapes_of_unrated (h : Unrated threshold) {p : List CodeBlock × List CodeBlock}
    (hp : p ∈ pairs (buckets CodeBlock.shapeKey blocks)) : comparesShapes threshold p = true := by
  obtain ⟨as, bs⟩ := p
  obtain ⟨has, hbs⟩ := mem_of_mem_pairs hp
  obtain ⟨x, hx⟩ := exists_head?_of_mem_buckets has
  obtain ⟨y, hy⟩ := exists_head?_of_mem_buckets hbs
  rw [comparesShapes_of_heads hx hy]
  exact lengthsAllow_of_unrated h
    (shapeKey_ne_of_mem_pairs hp (List.mem_of_head? hx) (List.mem_of_head? hy))

/-- With such a threshold any two different shapes are compared. -/
theorem exists_compared_iff (h : Unrated threshold) :
    (∃ p ∈ pairs (buckets CodeBlock.shapeKey blocks), comparesShapes threshold p = true) ↔
      ∃ a ∈ blocks, ∃ b ∈ blocks, a.shapeKey ≠ b.shapeKey := by
  constructor
  · rintro ⟨⟨as, bs⟩, hpair, -⟩
    obtain ⟨has, hbs⟩ := mem_of_mem_pairs hpair
    obtain ⟨x, hx⟩ := exists_head?_of_mem_buckets has
    obtain ⟨y, hy⟩ := exists_head?_of_mem_buckets hbs
    have hxmem := List.mem_of_head? hx
    have hymem := List.mem_of_head? hy
    exact ⟨x, (sublist_of_mem_bucket has).subset hxmem, y,
      (sublist_of_mem_bucket hbs).subset hymem, shapeKey_ne_of_mem_pairs hpair hxmem hymem⟩
  · rintro ⟨a, ha, b, hb, hkey⟩
    obtain ⟨as, has, haas⟩ := exists_bucket_of_mem CodeBlock.shapeKey ha
    obtain ⟨bs, hbs, hbbs⟩ := exists_bucket_of_mem CodeBlock.shapeKey hb
    have hdistinct : as ≠ bs := by
      rintro rfl
      exact hkey (key_eq_of_mem_bucket has haas hbbs)
    rcases mem_pairs_or_swap has hbs hdistinct with hpair | hpair
    · exact ⟨_, hpair, comparesShapes_of_unrated h hpair⟩
    · exact ⟨_, hpair, comparesShapes_of_unrated h hpair⟩

/-- Two blocks differ in shape while the threshold for shapes rates none and a comparison may be
made. -/
def LacksConfidence (blocks : List CodeBlock) (options : Options) : Prop :=
  Unrated options.structuralThreshold ∧ 0 < options.maxDuplicateComparisons ∧
    ∃ a ∈ blocks, ∃ b ∈ blocks, a.shapeKey ≠ b.shapeKey

theorem linkAll_eq_error_iff : linkAll blocks options = .error e ↔
    e = .undefinedConfidence ∧ LacksConfidence blocks options := by
  unfold linkAll LacksConfidence
  rw [map_eq_error_iff]
  have hfree : (keysLinked blocks).comparisons = 0 := (keysLinked_spends_nothing blocks).2
  refine nearPairs_eq_error_iff.trans
    (and_congr_right fun _ => and_congr_right fun hunrated => ?_)
  show (keysLinked blocks).comparisons < options.maxDuplicateComparisons ∧ _ ↔ _
  rw [hfree, exists_compared_iff hunrated]

theorem exists_linkAll_iff :
    (∃ s, linkAll blocks options = .ok s) ↔ ¬ LacksConfidence blocks options := by
  cases hrun : linkAll blocks options with
  | ok s =>
      refine ⟨fun _ hlacks => ?_, fun _ => ⟨s, rfl⟩⟩
      exact nomatch hrun.symm.trans (linkAll_eq_error_iff.mpr ⟨rfl, hlacks⟩)
  | error e =>
      have hlacks := (linkAll_eq_error_iff.mp hrun).2
      exact ⟨nofun, fun h => absurd hlacks h⟩

theorem exists_linkAll_of_rated (blocks : List CodeBlock)
    (h : ¬ Unrated options.structuralThreshold) :
    ∃ s, linkAll blocks options = .ok s :=
  exists_linkAll_iff.mpr fun hlacks => h hlacks.1

end CodeHealth.Duplicates
