import CodeHealth.Duplicate.Report
import CodeHealth.Proofs.Duplicate.Block
import CodeHealth.Proofs.Duplicate.Rating
import Mathlib.Data.List.Flatten

/-!
# Reported groups

A report never fails on sound links. It holds one group for each set of at least two blocks, with
the issues of its members.
-/

namespace CodeHealth.Duplicates

open Linking

variable {blocks : List CodeBlock} {accepted : CodeBlock → CodeBlock → Prop} {s : Linking}
  {options : Options} {asts : List SourceTree} {projectId : String} {result : Result}

/-- The blocks in their groups, singletons among them. -/
def groupsOf (blocks : List CodeBlock) (s : Linking) : List (List CodeBlock) :=
  classesBy (fun b => s.groups.root b.index) blocks

/-- The groups that are reported. -/
def largeGroups (blocks : List CodeBlock) (s : Linking) : List (List CodeBlock) :=
  (groupsOf blocks s).filter fun g => 2 ≤ g.length

/-- A block with its strongest match. -/
def memberOf (s : Linking) (b : CodeBlock) : Member :=
  ⟨b, (s.best? b.index).getD exactMatch⟩

/-- The reports of the groups in the order in which the groups begin. -/
def groupReports (projectId : String) (blocks : List CodeBlock) (s : Linking) :
    List GroupReport :=
  (largeGroups blocks s).map fun g => reportGroup projectId (g.map (memberOf s))

/-- The groups that are reported, each block with its match. -/
def memberLists (blocks : List CodeBlock) (s : Linking) : List (List Member) :=
  (largeGroups blocks s).map fun g => g.map (memberOf s)

theorem groupReports_eq_map (projectId : String) (blocks : List CodeBlock) (s : Linking) :
    groupReports projectId blocks s = (memberLists blocks s).map (reportGroup projectId) := by
  rw [memberLists, List.map_map]
  rfl

theorem mem_groupsOf_together {g : List CodeBlock} (hg : g ∈ groupsOf blocks s) {a b : CodeBlock}
    (ha : a ∈ g) : b ∈ g ↔ b ∈ blocks ∧ s.Together b a :=
  mem_of_mem_classesBy hg ha

theorem mem_of_mem_groupsOf {g : List CodeBlock} (hg : g ∈ groupsOf blocks s) {a : CodeBlock}
    (ha : a ∈ g) : a ∈ blocks :=
  (sublist_of_mem_classesBy hg).subset ha

theorem mem_of_mem_largeGroups {g : List CodeBlock} (hg : g ∈ largeGroups blocks s)
    {a : CodeBlock} (ha : a ∈ g) : a ∈ blocks :=
  mem_of_mem_groupsOf (List.mem_of_mem_filter hg) ha

theorem groups_eq_groupsOf (h : s.Sound blocks accepted) (hnum : Numbered blocks) :
    s.groups.groups.1 = (groupsOf blocks s).map fun g => g.map CodeBlock.index := by
  rw [h.valid.groups_eq, h.size, ← hnum.map_index]
  unfold groupsOf classesBy
  rw [List.map_map, List.map_map]
  apply List.map_congr_left
  intro k _
  rw [List.filter_map]
  rfl

theorem filter_groups_eq_largeGroups (h : s.Sound blocks accepted) (hnum : Numbered blocks) :
    (s.groups.groups.1.filter fun g => 2 ≤ g.length) =
      (largeGroups blocks s).map fun g => g.map CodeBlock.index := by
  rw [groups_eq_groupsOf h hnum, List.filter_map]
  simp [largeGroups, Function.comp_def]

theorem best?_of_mem_largeGroups (h : s.Sound blocks accepted) (hnum : Numbered blocks)
    {g : List CodeBlock} (hg : g ∈ largeGroups blocks s) {a : CodeBlock} (ha : a ∈ g) :
    s.best? a.index = some (memberOf s a).best := by
  obtain ⟨hg, hlarge⟩ := List.mem_filter.mp hg
  -- nothing is repeated in a group, so a large one has another member
  obtain ⟨b, hb, hne⟩ : ∃ b ∈ g, b ≠ a := by
    have hnodup := (sublist_of_mem_classesBy hg).nodup hnum.nodup
    by_contra hall
    have hrepeat : g = List.replicate g.length a :=
      List.eq_replicate_of_mem fun b hb => by_contra fun hne => hall ⟨b, hb, hne⟩
    rw [hrepeat, List.nodup_replicate] at hnodup
    simp only [decide_eq_true_eq] at hlarge
    omega
  have hsome := (h.best a (mem_of_mem_groupsOf hg ha)).mpr
    ⟨b, mem_of_mem_groupsOf hg hb, hne, ((mem_groupsOf_together hg ha).mp hb).2⟩
  obtain ⟨m, hm⟩ := Option.isSome_iff_exists.mp hsome
  rw [memberOf, hm, Option.getD_some]

theorem membersOf_eq (h : s.Sound blocks accepted) (hnum : Numbered blocks)
    {g : List CodeBlock} (hg : g ∈ largeGroups blocks s) :
    membersOf blocks s (g.map CodeBlock.index) = .ok (g.map (memberOf s)) := by
  unfold membersOf
  rw [List.mapM_map]
  apply mapM_eq_map
  intro a ha
  have hmem := mem_of_mem_largeGroups hg ha
  simp only [Function.comp_apply, hnum.getElem?_index hmem, best?_of_mem_largeGroups h hnum hg ha]
  rfl

theorem report_eq (h : s.Sound blocks accepted) (hnum : Numbered blocks) (projectId : String) :
    report projectId blocks s =
      .ok {
        issues := ((groupReports projectId blocks s).flatMap GroupReport.issues).mergeSort
          issueBefore
        groups := ((groupReports projectId blocks s).map GroupReport.group).mergeSort groupBefore
        blocksConsidered := blocks.length
        budgetExhausted := s.exhausted } := by
  have hmembers : ((largeGroups blocks s).map fun g => g.map CodeBlock.index).mapM
      (membersOf blocks s) = .ok ((largeGroups blocks s).map fun g => g.map (memberOf s)) := by
    rw [List.mapM_map]
    exact mapM_eq_map fun g hg => membersOf_eq h hnum hg
  unfold report
  simp only [filter_groups_eq_largeGroups h hnum, hmembers, bind, Except.bind, pure, Except.pure,
    groupReports, List.map_map]
  rfl

theorem detect_eq_ok_iff :
    detect options projectId asts = .ok result ↔
      ∃ blocks s, extractBlocks options asts = .ok blocks ∧ linkAll blocks options = .ok s ∧
        result = {
          issues := ((groupReports projectId blocks s).flatMap GroupReport.issues).mergeSort
            issueBefore
          groups := ((groupReports projectId blocks s).map GroupReport.group).mergeSort groupBefore
          blocksConsidered := blocks.length
          budgetExhausted := s.exhausted } := by
  unfold detect
  simp only [bind_eq_ok_iff, exists_and_left]
  apply exists_congr
  intro blocks
  apply and_congr_right
  intro hblocks
  have hnum := numbered_of_extractBlocks hblocks
  apply exists_congr
  intro s
  apply and_congr_right
  intro hlinked
  rw [report_eq (settles_linkAll hnum hlinked).sound hnum, Except.ok.injEq, eq_comm]

/-- A block is in one group at most, so there are no more issues than blocks. -/
theorem length_issues_le (hblocks : extractBlocks options asts = .ok blocks)
    (h : detect options projectId asts = .ok result) : result.issues.length ≤ blocks.length := by
  obtain ⟨blocks', s, hblocks', -, rfl⟩ := detect_eq_ok_iff.mp h
  obtain rfl := Except.ok.inj (hblocks.symm.trans hblocks')
  have hlarge : ((groupReports projectId blocks s).flatMap GroupReport.issues).length =
      (largeGroups blocks s).flatten.length := by
    simp [groupReports, reportGroup, List.length_flatMap, Function.comp_def]
  calc (((groupReports projectId blocks s).flatMap GroupReport.issues).mergeSort
        issueBefore).length
      = (largeGroups blocks s).flatten.length := by rw [List.length_mergeSort, hlarge]
    _ ≤ (groupsOf blocks s).flatten.length := List.filter_sublist.flatten.length_le
    _ = blocks.length := (flatten_classesBy_perm _ blocks).length_eq

theorem detect_nil (options : Options) (projectId : String) :
    detect options projectId [] = .ok ⟨[], [], 0, false⟩ := by
  rw [detect_eq_ok_iff]
  refine ⟨[], start 0, extractBlocks_nil options, rfl, ?_⟩
  have hreports : groupReports projectId [] (start 0) = [] := rfl
  rw [hreports, List.flatMap_nil, List.map_nil, List.mergeSort_nil, List.mergeSort_nil]
  rfl

/-- Sound links are always reported. -/
theorem exists_detect (hblocks : extractBlocks options asts = .ok blocks)
    (hlinked : linkAll blocks options = .ok s) (projectId : String) :
    ∃ result, detect options projectId asts = .ok result ∧
      result.budgetExhausted = s.exhausted :=
  ⟨_, detect_eq_ok_iff.mpr ⟨blocks, s, hblocks, hlinked, rfl⟩, rfl⟩

end CodeHealth.Duplicates
