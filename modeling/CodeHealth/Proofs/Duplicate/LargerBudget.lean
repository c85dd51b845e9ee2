import CodeHealth.Proofs.Duplicate.Calls
import CodeHealth.Proofs.Duplicate.Grouping

/-!
# Larger budgets

A search that stays within its comparison budget finds the same with any larger one. Blocks with
equal keys are compared with no budget, so how they are grouped does not depend on it.
-/

namespace CodeHealth

/-- The same options with another comparison budget. -/
def Options.withBudget (options : Options) (budget : Int) : Options :=
  { options with maxDuplicateComparisons := budget }

namespace Duplicates

open Linking

variable {blocks : List CodeBlock} {options : Options} {asts : List SourceTree}
  {projectId : String} {result : Result} {budget budget' : Int} {s t : Linking}

@[simp] theorem extractBlocks_withBudget (options : Options) (budget : Int)
    (asts : List SourceTree) :
    extractBlocks (options.withBudget budget) asts = extractBlocks options asts := rfl

@[simp] theorem structuralThreshold_withBudget (options : Options) (budget : Int) :
    (options.withBudget budget).structuralThreshold = options.structuralThreshold := rfl

@[simp] theorem maxDuplicateComparisons_withBudget (options : Options) (budget : Int) :
    (options.withBudget budget).maxDuplicateComparisons = budget := rfl

/-! ## Budgets that last -/

theorem nearPass_eq_of_le (hle : budget ≤ budget')
    (h : nearPass blocks (options.withBudget budget) s = .ok t) (hdone : t.exhausted = false) :
    nearPass blocks (options.withBudget budget') s = .ok t := by
  have ht := eq_compareAll_of_nearPairs h
  rw [structuralThreshold_withBudget, maxDuplicateComparisons_withBudget] at ht
  subst ht
  cases hrun : nearPass blocks (options.withBudget budget') s with
  | ok t' =>
      rw [eq_compareAll_of_nearPairs hrun]
      exact congrArg Except.ok (compareAll_eq_of_le hle _ hdone)
  | error e =>
      -- what fails with the larger budget is compared with the smaller one too
      obtain ⟨-, hunrated, -, p, hp, hcompared⟩ := nearPairs_eq_error_iff.mp hrun
      have hmem := List.mem_filter.mpr ⟨hp, hcompared⟩
      obtain ⟨-, hnone | hroom⟩ := (exhausted_compareAll_iff _).mp hdone
      · exact absurd (hnone ▸ hmem) List.not_mem_nil
      · have hlength := List.length_pos_of_mem hmem
        rw [structuralThreshold_withBudget] at hlength
        have hleft : s.comparisons < (options.withBudget budget).maxDuplicateComparisons := by
          rw [maxDuplicateComparisons_withBudget]
          omega
        have herror : nearPass blocks (options.withBudget budget) s =
            .error .undefinedConfidence :=
          nearPairs_eq_error_iff.mpr ⟨rfl, hunrated, hleft, p, hp, hcompared⟩
        exact nomatch h.symm.trans herror

theorem wordPass_eq_of_le (hle : budget ≤ budget')
    (hdone : (wordPass blocks (options.withBudget budget) s).exhausted = false) :
    wordPass blocks (options.withBudget budget') s =
      wordPass blocks (options.withBudget budget) s := by
  unfold wordPass at hdone ⊢
  rw [wordPairs_eq_compareAll] at hdone ⊢
  rw [wordPairs_eq_compareAll]
  exact compareAll_eq_of_le hle _ hdone

/-- If the budget lasts for all passes, it lasts for each of them. -/
theorem linkAll_eq_of_le (hle : budget ≤ budget')
    (h : linkAll blocks (options.withBudget budget) = .ok t) (hdone : t.exhausted = false) :
    linkAll blocks (options.withBudget budget') = .ok t := by
  obtain ⟨hnear, rfl⟩ := linkAll_eq_ok_iff.mp h
  have hshapes : (shapesLinked blocks (options.withBudget budget)).exhausted = false := by
    by_contra hspent
    have hspent := exhausted_wordPass blocks (options.withBudget budget) _
      (Bool.eq_true_of_not_eq_false hspent)
    exact absurd (hspent.symm.trans hdone) (by simp)
  have hnear' := nearPass_eq_of_le hle hnear hshapes
  rw [linkAll_eq_ok_iff, shapesLinked_of_nearPass hnear']
  exact ⟨hnear', (wordPass_eq_of_le hle hdone).symm⟩

theorem detect_eq_of_le (hle : budget ≤ budget')
    (h : detect (options.withBudget budget) projectId asts = .ok result)
    (hdone : result.budgetExhausted = false) :
    detect (options.withBudget budget') projectId asts = .ok result := by
  obtain ⟨blocks, s, hblocks, hlinked, rfl⟩ := detect_eq_ok_iff.mp h
  rw [detect_eq_ok_iff]
  exact ⟨blocks, s, hblocks, linkAll_eq_of_le hle hlinked hdone, rfl⟩

/-! ## Equal keys -/

/-- What no budget is spent for has settled all pairs with equal keys. -/
theorem settles_keysLinked (hnum : Numbered blocks) (options : Options) :
    (start blocks.length).Settles blocks (Accepted blocks options) (keysLinked blocks) fun a b =>
      Apart blocks a b ∧ (a.exactKey = b.exactKey ∨ a.shapeKey = b.shapeKey) := by
  have hexact := settles_exactPass_start hnum options
  apply (hexact.trans (settles_shapePass hnum hexact.sound)).imp
  rintro a b ⟨hapart, hkey⟩
  by_cases htokens : a.exactKey = b.exactKey
  · exact Or.inl ⟨hapart, htokens⟩
  · exact Or.inr ⟨hapart, hkey.resolve_left htokens, htokens⟩

/-- Blocks with equal keys are grouped by what no budget is spent for. -/
theorem together_linkAll_iff (hnum : Numbered blocks) (h : linkAll blocks options = .ok s)
    {a b : CodeBlock} (ha : a ∈ blocks) (hb : b ∈ blocks)
    (hkey : a.exactKey = b.exactKey ∨ a.shapeKey = b.shapeKey) :
    s.Together a b ↔ (keysLinked blocks).Together a b := by
  obtain ⟨hnear, rfl⟩ := linkAll_eq_ok_iff.mp h
  have hkeys := settles_keysLinked hnum options
  have hshapes := settles_nearPass hnum hkeys.sound hnear
  have hall := hshapes.trans (settles_wordPass hnum hshapes.sound)
  constructor
  · intro hab
    by_cases heq : a = b
    · rw [heq]
      exact Together.refl _ b
    · have hover := hall.sound.apart a ha b hb heq hab
      -- the pair was linked or refused before, and a refusal would hold still
      have hsettled := hkeys.settled a b ⟨⟨ha, hb, heq, hover⟩, hkey⟩
      exact hsettled.together hall.coarser hall.sound hab
  · exact hall.coarser a b

/-- No link of equal keys comes again within the budget, so whether it is taken is known before. -/
theorem taken_searchCalls_iff (hnum : Numbered blocks) {c : LinkCall}
    (hc : c ∈ exactLinks blocks ++ shapeLinks blocks) :
    (start blocks.length).Taken blocks (searchCalls blocks options) c ↔
      (start blocks.length).Taken blocks (exactLinks blocks ++ shapeLinks blocks) c := by
  have hnear : c ∉ nearLinksMade blocks options := by
    intro hmade
    have hlink := (mem_nearLinks_iff hnum).mp (mem_nearLinks_of_made hmade)
    rcases List.mem_append.mp hc with hc | hc
    · have htype := type_of_mem_exactLinks hnum hc
      rw [hlink.sensible.2] at htype
      exact nomatch htype
    · -- equal shapes have one leader
      obtain ⟨x, y, hx, hy, hlt, -⟩ := hlink.similar
      rw [leader, (keyLink_of_mem_shapeLinks hnum hc).equal] at hx
      obtain rfl := Option.some.inj (hx.symm.trans hy)
      exact lt_irrefl _ hlt
  have hwords : c ∉ wordLinksMade blocks options := by
    intro hmade
    have htype := (wordLink_of_made hnum hmade).sensible.2
    have hshape : c ∈ shapeCalls blocks options := List.mem_append_left _ hc
    exact (sensible_of_mem_shapeCalls hnum hshape).2 htype
  rw [searchCalls, shapeCalls, taken_append, taken_append,
    or_iff_left fun h => hwords (mem_of_taken h), or_iff_left fun h => hnear (mem_of_taken h)]

/-- The budget matters only where a search reports that it was exhausted. Whether blocks with equal
keys are linked or refused, and whether they end in one group, does not depend on it. -/
theorem detect_withBudget (options : Options) (projectId : String) (asts : List SourceTree) :
    (∀ budget budget' result, budget ≤ budget' →
      detect (options.withBudget budget) projectId asts = .ok result →
      result.budgetExhausted = false →
        detect (options.withBudget budget') projectId asts = .ok result) ∧
      ∀ blocks, extractBlocks options asts = .ok blocks →
        (∀ budget, (∃ s, linkAll blocks (options.withBudget budget) = .ok s) ↔
          ¬ LacksConfidence blocks (options.withBudget budget)) ∧
        (∀ budget,
          (∀ s, linkAll blocks (options.withBudget budget) = .ok s →
            ∃ n e, s = ((start blocks.length).follow blocks
              (searchCalls blocks (options.withBudget budget))).counted n e) ∧
          (exactLinks blocks ++ shapeLinks blocks).IsPrefix
            (searchCalls blocks (options.withBudget budget))) ∧
        (∀ c ∈ exactLinks blocks ++ shapeLinks blocks, ∀ budget budget',
          (start blocks.length).Taken blocks (searchCalls blocks (options.withBudget budget)) c ↔
            (start blocks.length).Taken blocks
              (searchCalls blocks (options.withBudget budget')) c) ∧
        ∀ a ∈ blocks, ∀ b ∈ blocks, a.exactKey = b.exactKey ∨ a.shapeKey = b.shapeKey →
          ∀ budget budget' s s', linkAll blocks (options.withBudget budget) = .ok s →
            linkAll blocks (options.withBudget budget') = .ok s' →
              (s.Together a b ↔ s'.Together a b) := by
  refine ⟨fun budget budget' result hle h hdone => detect_eq_of_le hle h hdone, ?_⟩
  intro blocks hblocks
  have hnum := numbered_of_extractBlocks hblocks
  refine ⟨fun budget => exists_linkAll_iff,
    fun budget => ⟨fun s h => linkAll_eq_counted h, ?_⟩, fun c hc budget budget' => ?_,
    fun a ha b hb hkey budget budget' s s' h h' => ?_⟩
  · rw [searchCalls, shapeCalls, List.append_assoc]
    exact List.prefix_append _ _
  · rw [taken_searchCalls_iff hnum hc, taken_searchCalls_iff hnum hc]
  · rw [together_linkAll_iff hnum h ha hb hkey, together_linkAll_iff hnum h' ha hb hkey]

/-! ## A pair that costs a comparison -/

/-- Arrays of four and five items are compared. -/
theorem exists_items_compared : ∃ p ∈ pairs (buckets CodeBlock.shapeKey [fourItems, fiveItems]),
    comparesShapes (.finite (4 / 5)) p = true := by
  have hnum := numbered_of_extractBlocks (extractBlocks_items (4 / 5))
  obtain ⟨as, bs, hpair, -, -, hx, hy⟩ := exists_pair_of_leaders hnum List.mem_cons_self
    (List.mem_cons_of_mem _ List.mem_cons_self) leader_items.1 leader_items.2 (by decide)
  refine ⟨(as, bs), hpair, ?_⟩
  rw [comparesShapes_of_heads hx hy]
  decide +kernel

/-- So no search without a budget gets through, and every search with a budget of two comparisons or
more finds the same. -/
theorem items_withBudget :
    (∃ result, detect ((anySizeAbove (4 / 5)).withBudget 0) "p" [fourItemsFile, fiveItemsFile] =
        .ok result ∧ result.budgetExhausted = true) ∧
      ∃ result, detect ((anySizeAbove (4 / 5)).withBudget 2) "p" [fourItemsFile, fiveItemsFile] =
          .ok result ∧ result.budgetExhausted = false ∧
        ∀ budget, 2 ≤ budget →
          detect ((anySizeAbove (4 / 5)).withBudget budget) "p" [fourItemsFile, fiveItemsFile] =
            .ok result := by
  have hblocks : ∀ budget, extractBlocks ((anySizeAbove (4 / 5)).withBudget budget)
      [fourItemsFile, fiveItemsFile] = .ok [fourItems, fiveItems] :=
    fun budget => extractBlocks_items (4 / 5)
  have hrated : ∀ budget,
      ¬ Unrated ((anySizeAbove (4 / 5)).withBudget budget).structuralThreshold :=
    fun _ => not_unrated_finite (4 / 5)
  constructor
  · obtain ⟨s, hlinked⟩ := exists_linkAll_of_rated [fourItems, fiveItems] (hrated 0)
    obtain ⟨result, hdetect, hbudget⟩ := exists_detect (hblocks 0) hlinked "p"
    obtain ⟨p, hp, hcompared⟩ := exists_items_compared
    exact ⟨result, hdetect,
      hbudget.trans (exhausted_linkAll_of_compared hlinked (by decide) hp hcompared)⟩
  · obtain ⟨result, hdetect, hbudget⟩ :=
      exists_detect_of_le (hblocks 2) (hrated 2) (by decide) "p"
    refine ⟨result, hdetect, hbudget, fun budget hle => ?_⟩
    exact (detect_withBudget (anySizeAbove (4 / 5)) "p" [fourItemsFile, fiveItemsFile]).1 2 budget
      result hle hdetect hbudget

end Duplicates

end CodeHealth
