import CodeHealth.Proofs.Duplicate.Calls
import CodeHealth.Proofs.Duplicate.Grouping
import CodeHealth.Proofs.Duplicate.Identity
import CodeHealth.Proofs.Duplicate.Record

/-!
# Evidence for duplicates

A search reports exactly the blocks for which a match is known. Each of them is reported with the
match of a link taken at it and another member of its group, the strongest of those links.
-/

namespace CodeHealth.Duplicates

open Linking

variable {blocks : List CodeBlock} {options : Options} {asts : List SourceTree}
  {projectId : String} {members : List Member} {s : Linking}

/-! ## The numbers of a group -/

/-- A fold that goes over to what has a greater key ends at the greatest one. -/
theorem foldl_greatest {α β γ : Type} [LinearOrder γ] (f : β → α) (key : α → γ) (xs : List β)
    (start : α) :
    key start ≤ key (xs.foldl (fun best x => if key best < key (f x) then f x else best) start) ∧
      (∀ x ∈ xs, key (f x) ≤
        key (xs.foldl (fun best x => if key best < key (f x) then f x else best) start)) ∧
      (xs.foldl (fun best x => if key best < key (f x) then f x else best) start = start ∨
        ∃ x ∈ xs, xs.foldl (fun best x => if key best < key (f x) then f x else best) start =
          f x) := by
  induction xs generalizing start with
  | nil => exact ⟨le_refl _, fun x hx => absurd hx List.not_mem_nil, Or.inl rfl⟩
  | cons x xs ih =>
      rw [List.foldl_cons]
      have hstep : key start ≤ key (if key start < key (f x) then f x else start) ∧
          key (f x) ≤ key (if key start < key (f x) then f x else start) := by
        split
        · rename_i hlt
          exact ⟨hlt.le, le_refl _⟩
        · rename_i hle
          exact ⟨le_refl _, not_lt.mp hle⟩
      obtain ⟨hstart, hall, hfound⟩ := ih (if key start < key (f x) then f x else start)
      refine ⟨hstep.1.trans hstart, ?_, ?_⟩
      · intro y hy
        rcases List.mem_cons.mp hy with rfl | hy
        · exact hstep.2.trans hstart
        · exact hall y hy
      · rcases hfound with hfound | ⟨y, hy, hfound⟩
        · rw [hfound]
          split
          · exact Or.inr ⟨x, List.mem_cons_self, rfl⟩
          · exact Or.inl rfl
        · exact Or.inr ⟨y, List.mem_cons_of_mem _ hy, hfound⟩

theorem strongestType_spec (hne : members ≠ []) :
    (∀ m ∈ members, m.best.type.rank ≤ (strongestType members).rank) ∧
      ∃ m ∈ members, strongestType members = m.best.type := by
  obtain ⟨-, hall, hfound⟩ := foldl_greatest (fun m : Member => m.best.type) MatchType.rank members
    .semantic
  refine ⟨hall, ?_⟩
  rcases hfound with hfound | hfound
  · -- no type is weaker than the one that the fold starts from
    obtain ⟨m, hm⟩ := List.exists_mem_of_ne_nil members hne
    refine ⟨m, hm, hfound.trans ?_⟩
    have hle := hall m hm
    rw [hfound] at hle
    cases htype : m.best.type with
    | semantic => rfl
    | structural =>
        rw [htype] at hle
        exact absurd hle (by decide)
    | exact =>
        rw [htype] at hle
        exact absurd hle (by decide)
  · exact hfound

theorem leastSimilarity_spec (hne : members ≠ []) :
    (∀ m ∈ members, leastSimilarity members ≤ m.best.similarity) ∧
      ∃ m ∈ members, leastSimilarity members = m.best.similarity := by
  have hsmaller : Number.smaller = fun a b : Rat =>
      if OrderDual.toDual a < OrderDual.toDual b then b else a := by
    funext a b
    rw [Number.smaller]
    by_cases hab : a ≤ b
    · have hkept : ¬ OrderDual.toDual a < OrderDual.toDual b := not_lt.mpr hab
      rw [if_pos hab, if_neg hkept]
    · have hless : OrderDual.toDual a < OrderDual.toDual b := not_le.mp hab
      rw [if_neg hab, if_pos hless]
  obtain ⟨first, rest, rfl⟩ := List.exists_cons_of_ne_nil hne
  unfold leastSimilarity
  rw [hsmaller]
  obtain ⟨-, hall, hfound⟩ := foldl_greatest (fun m : Member => m.best.similarity)
    OrderDual.toDual (first :: rest) first.best.similarity
  refine ⟨hall, ?_⟩
  rcases hfound with hfound | hfound
  · exact ⟨first, List.mem_cons_self, hfound⟩
  · exact hfound

/-! ## What backs a group -/

/-- An issue that reports a block with its match. -/
structure Shows (m : Member) (i : Issue) : Prop where
  location : i.location = memberLocation m
  confidence : (i.confidence : Int) = m.best.confidence
  metadata : ∃ size lines tokens, i.metadata =
    .duplicate m.best.type m.best.similarity size lines tokens

/-- A reported group with the links taken that back it. Each member has the match of one of them to
another member, and no link taken at it is stronger. The group lists its issues in the order of its
members, with the least of their similarities and the strongest of their types. -/
structure Backed (taken : LinkCall → Prop) (members : List Member) (r : GroupReport) : Prop where
  large : 2 ≤ members.length
  link : ∀ m ∈ members, ∃ o ∈ members, o.block ≠ m.block ∧
    ∃ c, taken c ∧ c.Joins m.block o.block ∧ c.found = m.best ∧ Graded c
  strongest : ∀ m ∈ members, ∀ c b, taken c → c.Joins m.block b →
    c.found.strength ≤ m.best.strength
  words : (∀ m ∈ members, m.best.type = .semantic) ∨ ∀ m ∈ members, m.best.type ≠ .semantic
  issues : List.Forall₂ Shows members r.issues
  issueIds : r.group.issueIds.map some = r.issues.map Issue.id
  locations : r.group.locations = r.issues.map Issue.location
  similarity : (∀ m ∈ members, r.group.similarity ≤ m.best.similarity) ∧
    ∃ m ∈ members, r.group.similarity = m.best.similarity
  matchType : (∀ m ∈ members, m.best.type.rank ≤ r.group.matchType.rank) ∧
    ∃ m ∈ members, r.group.matchType = m.best.type

/-! ## The groups of a search -/

theorem exists_largeGroup {a b : CodeBlock} (ha : a ∈ blocks) (hb : b ∈ blocks)
    (hne : b ≠ a) (hba : s.Together b a) : ∃ g ∈ largeGroups blocks s, a ∈ g := by
  obtain ⟨g, hg, hag⟩ : ∃ g ∈ groupsOf blocks s, a ∈ g :=
    List.mem_flatten.mp ((flatten_classesBy_perm _ blocks).mem_iff.mpr ha)
  have hbg := (mem_groupsOf_together hg hag).mpr ⟨hb, hba⟩
  exact ⟨g, List.mem_filter.mpr ⟨hg, decide_eq_true (two_le_length_of_mem hbg hag hne)⟩, hag⟩

section search

variable (hnum : Numbered blocks)

include hnum

/-- The blocks with a match are those of the groups that are reported. -/
theorem best?_eq_some_iff {accepted : CodeBlock → CodeBlock → Prop}
    (h : s.Sound blocks accepted) {b : CodeBlock} (hb : b ∈ blocks) {m : Match} :
    s.best? b.index = some m ↔ ∃ ms ∈ memberLists blocks s, ⟨b, m⟩ ∈ ms := by
  unfold memberLists
  simp only [List.mem_map, exists_exists_and_eq_and]
  constructor
  · intro hm
    obtain ⟨o, ho, hne, hob⟩ := (h.best b hb).mp (by rw [hm]; rfl)
    obtain ⟨g, hg, hbg⟩ := exists_largeGroup hb ho hne hob
    refine ⟨g, hg, b, hbg, ?_⟩
    rw [memberOf, hm, Option.getD_some]
  · rintro ⟨g, hg, b', hbg, heq⟩
    obtain ⟨rfl, rfl⟩ := Member.mk.inj heq
    exact best?_of_mem_largeGroups h hnum hg hbg

section group

variable (h : linkAll blocks options = .ok s) {g : List CodeBlock} (hg : g ∈ largeGroups blocks s)

include h hg

theorem best?_linkAll_of_mem {b : CodeBlock} (hb : b ∈ g) :
    s.best? b.index = some (memberOf s b).best :=
  best?_of_mem_largeGroups (grounded_linkAll hnum h).sound hnum hg hb

theorem exists_link_of_mem {b : CodeBlock} (hb : b ∈ g) :
    ∃ o ∈ g, o ≠ b ∧ ∃ c, (start blocks.length).Taken blocks (searchCalls blocks options) c ∧
      c.Joins b o ∧ c.found = (memberOf s b).best ∧ Graded c := by
  have hground := grounded_linkAll hnum h
  obtain ⟨o, c, hc, hjoins, hfound⟩ := hground.evidence b (mem_of_mem_largeGroups hg hb) _
    (best?_linkAll_of_mem hnum h hg hb)
  have hsensible := sensible_of_mem_searchCalls hnum (mem_of_taken hc)
  obtain ⟨-, ho, hob⟩ := hsensible.within.of_joins hjoins
  have htogether : s.Together o b := by
    rcases hjoins with ⟨rfl, rfl⟩ | ⟨rfl, rfl⟩
    · exact (hground.together c hc).symm
    · exact hground.together c hc
  exact ⟨o, (mem_groupsOf_together (List.mem_of_mem_filter hg) hb).mpr ⟨ho, htogether⟩, hob, c, hc,
    hjoins, hfound, hsensible.graded⟩

theorem all_semantic_or_none :
    (∀ b ∈ g, (memberOf s b).best.type = .semantic) ∨
      ∀ b ∈ g, (memberOf s b).best.type ≠ .semantic := by
  have hsame : ∀ a ∈ g, ∀ b ∈ g, (memberOf s a).best.type = .semantic ↔
      (memberOf s b).best.type = .semantic := by
    intro a ha b hb
    have hab := ((mem_groupsOf_together (List.mem_of_mem_filter hg) hb).mp ha).2
    exact type_eq_semantic_iff_of_together hnum h (mem_of_mem_largeGroups hg ha)
      (mem_of_mem_largeGroups hg hb) hab (best?_linkAll_of_mem hnum h hg ha)
      (best?_linkAll_of_mem hnum h hg hb)
  by_cases hall : ∀ b ∈ g, (memberOf s b).best.type = .semantic
  · exact Or.inl hall
  · obtain ⟨a, ha, hnot⟩ := not_forall₂.mp hall
    exact Or.inr fun b hb hb' => hnot ((hsame a ha b hb).mpr hb')

end group

/-- Each group of a search is backed by the links that the search takes. -/
theorem backed_reportGroup (h : linkAll blocks options = .ok s) (projectId : String)
    {ms : List Member} (hms : ms ∈ memberLists blocks s) :
    Backed ((start blocks.length).Taken blocks (searchCalls blocks options)) ms
      (reportGroup projectId ms) := by
  obtain ⟨g, hg, rfl⟩ := List.mem_map.mp hms
  have hlarge : 2 ≤ g.length := of_decide_eq_true (List.mem_filter.mp hg).2
  have hne : g.map (memberOf s) ≠ [] := by
    rw [Ne, List.map_eq_nil_iff]
    rintro rfl
    exact absurd hlarge (by decide)
  refine ⟨by rwa [List.length_map], ?_, ?_, ?_, ?_, ?_, ?_, leastSimilarity_spec hne,
    strongestType_spec hne⟩
  · intro m hm
    obtain ⟨b, hb, rfl⟩ := List.mem_map.mp hm
    obtain ⟨o, ho, hne, c, hlink⟩ := exists_link_of_mem hnum h hg hb
    exact ⟨_, List.mem_map_of_mem ho, hne, c, hlink⟩
  · intro m hm c o hc hjoins
    obtain ⟨b, hb, rfl⟩ := List.mem_map.mp hm
    obtain ⟨k, hk, hle⟩ := (grounded_linkAll hnum h).strongest c hc b o hjoins
    obtain rfl := Option.some.inj (hk.symm.trans (best?_linkAll_of_mem hnum h hg hb))
    exact hle
  · simp only [List.mem_map, forall_exists_index, and_imp, forall_apply_eq_imp_iff₂]
    exact all_semantic_or_none hnum h hg
  · rw [reportGroup, List.forall₂_map_right_iff, List.forall₂_same]
    intro m hm
    obtain ⟨b, hb, rfl⟩ := List.mem_map.mp hm
    exact ⟨rfl, Int.toNat_of_nonneg (valid_memberOf h b).confidence_nonneg, _, _, _, rfl⟩
  · simp only [reportGroup, List.map_map]
    rfl
  · simp only [reportGroup, List.map_map]
    rfl

end search

theorem exists_detect_memberLists (hblocks : extractBlocks options asts = .ok blocks)
    (hlinked : linkAll blocks options = .ok s) (projectId : String) :
    ∃ result, detect options projectId asts = .ok result ∧
      result.issues.Perm ((memberLists blocks s).flatMap fun ms =>
        (reportGroup projectId ms).issues) ∧
      result.groups.Perm ((memberLists blocks s).map fun ms =>
        (reportGroup projectId ms).group) := by
  refine ⟨_, detect_eq_ok_iff.mpr ⟨blocks, s, hblocks, hlinked, rfl⟩, ?_, ?_⟩
  · dsimp only
    rw [groupReports_eq_map, List.flatMap_map]
    exact List.mergeSort_perm _ _
  · dsimp only
    rw [groupReports_eq_map, List.map_map]
    exact List.mergeSort_perm _ _

/-- A search whose threshold rates the shapes that it compares does not fail. Its report holds the
groups of at least two blocks, which are the blocks with a match, and the links that the search
takes back all of it. -/
theorem detect_backed (hblocks : extractBlocks options asts = .ok blocks)
    (hrated : ¬ LacksConfidence blocks options) (projectId : String) :
    ∃ s result, ∃ groups : List (List Member), linkAll blocks options = .ok s ∧
      detect options projectId asts = .ok result ∧
      (∃ n e, s = ((start blocks.length).follow blocks (searchCalls blocks options)).counted n e) ∧
      (s.groups.groups.1.filter fun g => 2 ≤ g.length) =
        groups.map (fun ms => ms.map fun m => m.block.index) ∧
      result.issues.Perm (groups.flatMap fun ms => (reportGroup projectId ms).issues) ∧
      result.groups.Perm (groups.map fun ms => (reportGroup projectId ms).group) ∧
      (∀ ms ∈ groups, ∀ m ∈ ms, m.block ∈ blocks) ∧
      (∀ b ∈ blocks, ∀ m, s.best? b.index = some m ↔ ∃ ms ∈ groups, ⟨b, m⟩ ∈ ms) ∧
      ∀ ms ∈ groups, Backed ((start blocks.length).Taken blocks (searchCalls blocks options)) ms
        (reportGroup projectId ms) := by
  have hnum := numbered_of_extractBlocks hblocks
  obtain ⟨s, hlinked⟩ := exists_linkAll_iff.mpr hrated
  have hsound := (grounded_linkAll hnum hlinked).sound
  obtain ⟨result, hdetect, hissues, hgroups⟩ :=
    exists_detect_memberLists hblocks hlinked projectId
  refine ⟨s, result, memberLists blocks s, hlinked, hdetect, linkAll_eq_counted hlinked, ?_,
    hissues, hgroups, ?_, fun b hb m => best?_eq_some_iff hnum hsound hb,
    fun ms hms => backed_reportGroup hnum hlinked projectId hms⟩
  · rw [filter_groups_eq_largeGroups hsound hnum, memberLists, List.map_map]
    simp [Function.comp_def, memberOf]
  · intro ms hms m hm
    obtain ⟨g, hg, rfl⟩ := List.mem_map.mp hms
    obtain ⟨b, hb, rfl⟩ := List.mem_map.mp hm
    exact mem_of_mem_largeGroups hg hb

theorem twoIdentities_backed :
    ∃ blocks, extractBlocks anySize [twoIdentities] = .ok blocks ∧
      ∃ s result, ∃ groups : List (List Member), linkAll blocks anySize = .ok s ∧
        detect anySize "p" [twoIdentities] = .ok result ∧
        (∃ n e, s =
          ((start blocks.length).follow blocks (searchCalls blocks anySize)).counted n e) ∧
        (s.groups.groups.1.filter fun g => 2 ≤ g.length) =
          groups.map (fun ms => ms.map fun m => m.block.index) ∧
        result.issues.Perm (groups.flatMap fun ms => (reportGroup "p" ms).issues) ∧
        result.groups.Perm (groups.map fun ms => (reportGroup "p" ms).group) ∧
        (∀ ms ∈ groups, ∀ m ∈ ms, m.block ∈ blocks) ∧
        (∀ b ∈ blocks, ∀ m, s.best? b.index = some m ↔ ∃ ms ∈ groups, ⟨b, m⟩ ∈ ms) ∧
        ∀ ms ∈ groups, Backed ((start blocks.length).Taken blocks (searchCalls blocks anySize)) ms
          (reportGroup "p" ms) := by
  have hrated : ¬ LacksConfidence [identityBlock 0 0, identityBlock 1 5] anySize :=
    fun hlacks => not_unrated_finite _ hlacks.1
  exact ⟨_, extractBlocks_twoIdentities, detect_backed extractBlocks_twoIdentities hrated "p"⟩

end CodeHealth.Duplicates
