import CodeHealth.Proofs.Duplicate.Report
import CodeHealth.Proofs.Issue.Merge

/-!
# Identifiers of duplicates

The identifier of a group follows from the lines of its members, and that of an issue from its
lines. So identifiers differ just if no two members of reported groups stand in the same lines.
-/

namespace CodeHealth

/-- Different names among the given ones have different identifiers. -/
def Digest.CollisionFree (space : Nat) (names : List String) : Prop :=
  ∀ x ∈ names, ∀ y ∈ names, nameId space x = nameId space y → x = y

theorem Digest.CollisionFree.nodup_iff {space : Nat} {names : List String}
    (h : CollisionFree space names) : (names.map (nameId space)).Nodup ↔ names.Nodup :=
  ⟨List.Nodup.of_map _, fun hnames => hnames.map_on h⟩

/-- Two names with different identifiers do not collide. -/
theorem Digest.CollisionFree.of_pair {space : Nat} {names : List String} {x y : String}
    (hne : nameId space x ≠ nameId space y) (hnames : ∀ name ∈ names, name = x ∨ name = y) :
    CollisionFree space names := by
  intro a ha b hb hab
  rcases hnames a ha with rfl | rfl <;> rcases hnames b hb with rfl | rfl
  · rfl
  · exact absurd hab hne
  · exact absurd hab.symm hne
  · rfl

/-- Where an issue is. -/
def Issue.location (i : Issue) : CodeLocation :=
  ⟨i.filePath, i.lineStart, i.lineEnd⟩

namespace Duplicates

variable {projectId : String} {issues own found : List Issue} {groups : List DuplicateGroup}

/-- A location as it stands in the name of a group. -/
def spanText (l : CodeLocation) : String :=
  s!"{l.path}:{l.lineStart.toNat}-{l.lineEnd.toNat}"

/-- The name that the identifier of a group is derived from. -/
def nameAt (projectId : String) (locations : List CodeLocation) : String :=
  String.intercalate "|" (projectId :: locations.map spanText)

/-- The name that the identifier of a duplicate is derived from. -/
def issueNameAt (projectId : String) (l : CodeLocation) : String :=
  Issue.idName projectId ⟨.duplicateCode, l.path, l.lineStart.toNat, l.lineEnd.toNat⟩

/-- The group that an issue names, and lists its identifier wherever it lists its location. -/
structure ListedIn (i : Issue) (g : DuplicateGroup) : Prop where
  groupId : i.duplicateGroupId = some g.id
  location : i.location ∈ g.locations
  issueId : ∀ k : Nat, g.locations[k]? = some i.location → g.issueIds[k]? = i.id

/-- Identifiers are unique, and each duplicate is listed in exactly the group that it names. -/
structure IdsResolve (issues : List Issue) (groups : List DuplicateGroup) : Prop where
  groupIds : (groups.map DuplicateGroup.id).Nodup
  issueIds : (issues.map Issue.id).Nodup
  resolves : ∀ i ∈ issues, i.type = .duplicateCode →
    ∃ g ∈ groups, ListedIn i g ∧ ∀ h ∈ groups, i.duplicateGroupId = some h.id → h = g

/-- No two names of the groups or of the issues share an identifier. -/
structure NamesApart (projectId : String) (issues : List Issue) (groups : List DuplicateGroup) :
    Prop where
  groups : Digest.CollisionFree groupSpace (groups.map fun g => nameAt projectId g.locations)
  issues : Digest.CollisionFree Issue.idSpace (issues.map fun i => Issue.idName projectId i.key)

/-- No two members of the groups stand in the same lines, and no two groups have one name. -/
structure PlacesDiffer (projectId : String) (groups : List DuplicateGroup) : Prop where
  locations : (groups.flatMap DuplicateGroup.locations).Nodup
  names : (groups.map fun g => nameAt projectId g.locations).Nodup

/-- Duplicates and their groups, labelled by their lines. -/
structure Labelled (projectId : String) (found : List Issue) (groups : List DuplicateGroup) :
    Prop where
  groupId : ∀ g ∈ groups, g.id = Digest.nameId groupSpace (nameAt projectId g.locations)
  issueIds : ∀ g ∈ groups,
    g.issueIds = g.locations.map fun l => Digest.nameId Issue.idSpace (issueNameAt projectId l)
  ne_nil : ∀ g ∈ groups, g.locations ≠ []
  type : ∀ i ∈ found, i.type = .duplicateCode
  id : ∀ i ∈ found, i.id = some (i.stableId projectId)
  listed : ∀ i ∈ found, ∃ g ∈ groups, i.duplicateGroupId = some g.id ∧ i.location ∈ g.locations
  perm : (found.map Issue.location).Perm (groups.flatMap DuplicateGroup.locations)

/-- Other issues, each with its own key. -/
structure Foreign (projectId : String) (own : List Issue) : Prop where
  type : ∀ i ∈ own, i.type ≠ .duplicateCode
  id : ∀ i ∈ own, i.id = some (i.stableId projectId)
  keys : (own.map Issue.key).Nodup

theorem foreign_nil : Foreign projectId [] :=
  ⟨fun _ hi => absurd hi List.not_mem_nil, fun _ hi => absurd hi List.not_mem_nil, List.nodup_nil⟩

/-! ## Issues -/

theorem nodup_ids_iff (hid : ∀ i ∈ issues, i.id = some (i.stableId projectId))
    (hfree : Digest.CollisionFree Issue.idSpace
      (issues.map fun i => Issue.idName projectId i.key)) :
    (issues.map Issue.id).Nodup ↔ (issues.map Issue.key).Nodup := by
  have hids : issues.map Issue.id =
      ((issues.map fun i => Issue.idName projectId i.key).map
        (Digest.nameId Issue.idSpace)).map some := by
    rw [List.map_map, List.map_map]
    exact List.map_congr_left hid
  have hnames : (issues.map fun i => Issue.idName projectId i.key) =
      (issues.map Issue.key).map (Issue.idName projectId) := by
    rw [List.map_map]
    rfl
  rw [hids, List.nodup_map_iff (Option.some_injective _), hfree.nodup_iff, hnames]
  exact List.nodup_map_iff fun k l => Issue.idName_injective

theorem nodup_keys_iff (htype : ∀ i ∈ found, i.type = .duplicateCode) :
    (found.map Issue.key).Nodup ↔ (found.map Issue.location).Nodup := by
  have hlocations : found.map Issue.location =
      (found.map Issue.key).map fun k => ⟨k.filePath, k.lineStart, k.lineEnd⟩ := by
    rw [List.map_map]
    rfl
  rw [hlocations]
  constructor
  · intro hkeys
    apply hkeys.map_on
    intro k hk l hl hkl
    obtain ⟨i, hi, rfl⟩ := List.mem_map.mp hk
    obtain ⟨j, hj, rfl⟩ := List.mem_map.mp hl
    simp only [Issue.key, CodeLocation.mk.injEq, Int.natCast_inj] at hkl
    simp only [Issue.key, htype i hi, htype j hj, hkl]
  · exact List.Nodup.of_map _

theorem nodup_keys_append_iff (hown : Foreign projectId own)
    (htype : ∀ i ∈ found, i.type = .duplicateCode) :
    ((own ++ found).map Issue.key).Nodup ↔ (found.map Issue.location).Nodup := by
  rw [List.map_append, List.nodup_append, nodup_keys_iff htype]
  constructor
  · exact fun h => h.2.1
  · intro hfound
    refine ⟨hown.keys, hfound, ?_⟩
    -- keys of both kinds differ in their types
    intro k hk l hl heq
    obtain ⟨i, hi, rfl⟩ := List.mem_map.mp hk
    obtain ⟨j, hj, rfl⟩ := List.mem_map.mp hl
    apply hown.type i hi
    rw [show i.type = j.type from congrArg Issue.Key.type heq, htype j hj]

/-! ## Groups -/

theorem nodup_groupIds_iff (h : Labelled projectId found groups)
    (hfree : Digest.CollisionFree groupSpace (groups.map fun g => nameAt projectId g.locations)) :
    (groups.map DuplicateGroup.id).Nodup ↔
      (groups.map fun g => nameAt projectId g.locations).Nodup := by
  rw [← hfree.nodup_iff, List.map_map]
  exact iff_of_eq (congrArg List.Nodup (List.map_congr_left h.groupId))

theorem Labelled.issueId (h : Labelled projectId found groups) {g : DuplicateGroup}
    (hg : g ∈ groups) {i : Issue} (hi : i ∈ found) {k : Nat}
    (hk : g.locations[k]? = some i.location) : g.issueIds[k]? = i.id := by
  have hkey : i.key = ⟨.duplicateCode, i.filePath, i.lineStart, i.lineEnd⟩ := by
    rw [← h.type i hi]
    rfl
  rw [h.issueIds g hg, List.getElem?_map, hk, h.id i hi, Issue.stableId, hkey]
  rfl

theorem Labelled.exists_listedIn (h : Labelled projectId found groups)
    (hown : Foreign projectId own) (hissues : issues.Perm (own ++ found)) {i : Issue}
    (hi : i ∈ issues) (htype : i.type = .duplicateCode) : ∃ g ∈ groups, ListedIn i g := by
  rcases List.mem_append.mp (hissues.mem_iff.mp hi) with hi | hi
  · exact absurd htype (hown.type i hi)
  · obtain ⟨g, hg, hgroup, hlocation⟩ := h.listed i hi
    exact ⟨g, hg, hgroup, hlocation, fun k hk => h.issueId hg hi hk⟩

/-- With the lines of the members the identifiers of issues and of groups are told apart, and only
then. -/
theorem Labelled.resolve_iff (h : Labelled projectId found groups)
    (hown : Foreign projectId own) (hissues : issues.Perm (own ++ found))
    (hnames : NamesApart projectId issues groups) :
    IdsResolve issues groups ↔ PlacesDiffer projectId groups := by
  have hid : ∀ i ∈ issues, i.id = some (i.stableId projectId) := by
    intro i hi
    rcases List.mem_append.mp (hissues.mem_iff.mp hi) with hi | hi
    · exact hown.id i hi
    · exact h.id i hi
  have hissueIds : (issues.map Issue.id).Nodup ↔
      (groups.flatMap DuplicateGroup.locations).Nodup := by
    rw [nodup_ids_iff hid hnames.issues, (hissues.map Issue.key).nodup_iff,
      nodup_keys_append_iff hown h.type, h.perm.nodup_iff]
  have hgroupIds := nodup_groupIds_iff h hnames.groups
  constructor
  · intro hresolve
    exact ⟨hissueIds.mp hresolve.issueIds, hgroupIds.mp hresolve.groupIds⟩
  · intro hplaces
    have hgroups := hgroupIds.mpr hplaces.names
    refine ⟨hgroups, hissueIds.mpr hplaces.locations, ?_⟩
    intro i hi htype
    obtain ⟨g, hg, hlisted⟩ := h.exists_listedIn hown hissues hi htype
    refine ⟨g, hg, hlisted, ?_⟩
    intro k hk hsame
    rw [hlisted.groupId] at hsame
    exact (List.inj_on_of_nodup_map hgroups hg hk (Option.some.inj hsame)).symm

/-! ## Names of groups -/

theorem toList_spanText (l : CodeLocation) :
    (spanText l).toList = (l.path.toList ++ ':' :: (toString l.lineStart.toNat).toList) ++
      '-' :: (toString l.lineEnd.toNat).toList := by
  have htext : spanText l =
      l.path ++ ":" ++ toString l.lineStart.toNat ++ "-" ++ toString l.lineEnd.toNat := rfl
  rw [htext]
  simp

theorem spanText_injective {l m : Issue} (h : spanText l.location = spanText m.location) :
    l.location = m.location := by
  have hlists := congrArg String.toList h
  rw [toList_spanText, toList_spanText] at hlists
  obtain ⟨hrest, hend⟩ := Text.eq_of_append_cons_eq_right
    (Text.not_mem_toList_repr (by decide) _) (Text.not_mem_toList_repr (by decide) _) hlists
  obtain ⟨hpath, hstart⟩ := Text.eq_of_append_cons_eq_right
    (Text.not_mem_toList_repr (by decide) _) (Text.not_mem_toList_repr (by decide) _) hrest
  have hpath := String.toList_inj.mp hpath
  have hstart := Text.toString_nat_inj hstart
  have hend := Text.toString_nat_inj hend
  simp only [Issue.location, Int.toNat_natCast] at hpath hstart hend
  rw [Issue.location, Issue.location, hpath, hstart, hend]

theorem not_mem_toList_spanText {l : CodeLocation} (hpath : '|' ∉ l.path.toList) :
    '|' ∉ (spanText l).toList := by
  rw [toList_spanText]
  have hstart := Text.not_mem_toList_repr (c := '|') (by decide) l.lineStart.toNat
  have hend := Text.not_mem_toList_repr (c := '|') (by decide) l.lineEnd.toNat
  simp only [List.mem_append, List.mem_cons, not_or]
  exact ⟨⟨hpath, by decide, hstart⟩, by decide, hend⟩

/-- Without separators in the paths the name of a group tells its locations' texts. -/
theorem map_spanText_of_nameAt_eq {ls ms : List CodeLocation} (hl : ls ≠ []) (hm : ms ≠ [])
    (hls : ∀ l ∈ ls, '|' ∉ l.path.toList) (hms : ∀ m ∈ ms, '|' ∉ m.path.toList)
    (h : nameAt projectId ls = nameAt projectId ms) : ls.map spanText = ms.map spanText := by
  have hlists := congrArg String.toList h
  unfold nameAt at hlists
  rw [String.intercalate_cons_of_ne_nil (by simpa using hl),
    String.intercalate_cons_of_ne_nil (by simpa using hm), String.toList_append,
    String.toList_append (t := String.intercalate "|" (ms.map spanText))] at hlists
  have hjoined := List.append_cancel_left hlists
  rw [String.toList_intercalate, String.toList_intercalate] at hjoined
  have hparts := Text.eq_of_intercalate_eq (c := '|') ?_ ?_ (by simpa using hl) (by simpa using hm)
    hjoined
  · exact List.map_injective_iff.mpr (fun _ _ => String.toList_inj.mp) hparts
  · simp only [List.mem_map, forall_exists_index, and_imp, forall_apply_eq_imp_iff₂]
    exact fun l hl => not_mem_toList_spanText (hls l hl)
  · simp only [List.mem_map, forall_exists_index, and_imp, forall_apply_eq_imp_iff₂]
    exact fun m hm => not_mem_toList_spanText (hms m hm)

/-- Without separators in the paths, groups whose members stand in different lines have different
names. -/
theorem Labelled.placesDiffer_iff (h : Labelled projectId found groups)
    (hpaths : ∀ i ∈ found, '|' ∉ i.filePath.toList) :
    PlacesDiffer projectId groups ↔ (groups.flatMap DuplicateGroup.locations).Nodup := by
  constructor
  · exact fun hplaces => hplaces.locations
  · intro hlocations
    refine ⟨hlocations, ?_⟩
    have hissue : ∀ g ∈ groups, ∀ l ∈ g.locations, ∃ i ∈ found, i.location = l := by
      intro g hg l hl
      exact List.mem_map.mp (h.perm.mem_iff.mpr (List.mem_flatMap.mpr ⟨g, hg, hl⟩))
    have hpath : ∀ g ∈ groups, ∀ l ∈ g.locations, '|' ∉ l.path.toList := by
      intro g hg l hl
      obtain ⟨i, hi, rfl⟩ := hissue g hg l hl
      exact hpaths i hi
    unfold List.Nodup
    rw [List.pairwise_map]
    apply (List.nodup_flatMap.mp hlocations).2.imp_of_mem
    intro g k hg hk hdisjoint hname
    have hspans := map_spanText_of_nameAt_eq (h.ne_nil g hg) (h.ne_nil k hk) (hpath g hg)
      (hpath k hk) hname
    obtain ⟨l, hl⟩ := List.exists_mem_of_ne_nil _ (h.ne_nil g hg)
    have hspan : spanText l ∈ k.locations.map spanText := hspans ▸ List.mem_map_of_mem hl
    obtain ⟨m, hm, hml⟩ := List.mem_map.mp hspan
    obtain ⟨i, -, rfl⟩ := hissue g hg l hl
    obtain ⟨j, -, rfl⟩ := hissue k hk m hm
    rw [spanText_injective hml] at hm
    exact hdisjoint hl hm

/-! ## A search -/

/-- Where a block of a group is. -/
def memberLocation (m : Member) : CodeLocation :=
  ⟨m.block.path, m.block.startLine, m.block.endLine⟩

theorem groupId_eq (members : List Member) :
    groupId projectId members =
      Digest.nameId groupSpace (nameAt projectId (members.map memberLocation)) := by
  unfold groupId groupName nameAt
  rw [List.map_map]
  rfl

theorem labelled_reports {memberLists : List (List Member)} (hne : ∀ ms ∈ memberLists, ms ≠ []) :
    Labelled projectId ((memberLists.map (reportGroup projectId)).flatMap GroupReport.issues)
      ((memberLists.map (reportGroup projectId)).map GroupReport.group) where
  groupId g hg := by
    simp only [List.map_map, List.mem_map, Function.comp_apply] at hg
    obtain ⟨ms, -, rfl⟩ := hg
    exact groupId_eq ms
  issueIds g hg := by
    simp only [List.map_map, List.mem_map, Function.comp_apply] at hg
    obtain ⟨ms, -, rfl⟩ := hg
    simp only [reportGroup, List.map_map]
    rfl
  ne_nil g hg := by
    simp only [List.map_map, List.mem_map, Function.comp_apply] at hg
    obtain ⟨ms, hms, rfl⟩ := hg
    simpa [reportGroup] using hne ms hms
  type i hi := by
    simp only [List.flatMap_map, List.mem_flatMap] at hi
    obtain ⟨ms, -, hi⟩ := hi
    obtain ⟨m, -, rfl⟩ := List.mem_map.mp hi
    rfl
  id i hi := by
    simp only [List.flatMap_map, List.mem_flatMap] at hi
    obtain ⟨ms, -, hi⟩ := hi
    obtain ⟨m, -, rfl⟩ := List.mem_map.mp hi
    rfl
  listed i hi := by
    simp only [List.flatMap_map, List.mem_flatMap] at hi
    obtain ⟨ms, hms, hi⟩ := hi
    obtain ⟨m, hm, rfl⟩ := List.mem_map.mp hi
    refine ⟨(reportGroup projectId ms).group, ?_, rfl, ?_⟩
    · exact List.mem_map_of_mem (List.mem_map_of_mem hms)
    · exact List.mem_map_of_mem hm
  perm := by
    simp only [List.flatMap_map, List.map_flatMap, reportGroup, List.map_map]
    rfl

theorem Labelled.of_perm {found' : List Issue} {groups' : List DuplicateGroup}
    (h : Labelled projectId found groups) (hfound : found'.Perm found)
    (hgroups : groups'.Perm groups) : Labelled projectId found' groups' where
  groupId g hg := h.groupId g (hgroups.mem_iff.mp hg)
  issueIds g hg := h.issueIds g (hgroups.mem_iff.mp hg)
  ne_nil g hg := h.ne_nil g (hgroups.mem_iff.mp hg)
  type i hi := h.type i (hfound.mem_iff.mp hi)
  id i hi := h.id i (hfound.mem_iff.mp hi)
  listed i hi := by
    obtain ⟨g, hg, hlisted⟩ := h.listed i (hfound.mem_iff.mp hi)
    exact ⟨g, hgroups.mem_iff.mpr hg, hlisted⟩
  perm := ((hfound.map _).trans h.perm).trans (hgroups.flatMap_right _).symm

variable {options : Options} {asts : List SourceTree} {result : Result}

theorem labelled_of_detect (h : detect options projectId asts = .ok result) :
    Labelled projectId result.issues result.groups := by
  obtain ⟨blocks, s, -, -, rfl⟩ := detect_eq_ok_iff.mp h
  dsimp only
  rw [groupReports_eq_map]
  apply (labelled_reports ?_).of_perm (List.mergeSort_perm _ _) (List.mergeSort_perm _ _)
  intro ms hms
  obtain ⟨g, hg, rfl⟩ := List.mem_map.mp hms
  have hlarge := of_decide_eq_true (List.mem_filter.mp hg).2
  intro hnil
  rw [List.map_eq_nil_iff.mp hnil] at hlarge
  exact absurd hlarge (by decide)

/-- A duplicate stands in the lines of a function of one of the trees. -/
theorem exists_function_of_issue (h : detect options projectId asts = .ok result) {i : Issue}
    (hi : i ∈ result.issues) :
    ∃ ast ∈ asts, ast.language.isCode = true ∧ ∃ f ∈ ast.functions,
      i.filePath = ast.path ∧ i.lineStart = f.startLine ∧ i.lineEnd = f.endLine := by
  obtain ⟨blocks, s, hblocks, -, rfl⟩ := detect_eq_ok_iff.mp h
  simp only [List.mem_mergeSort, groupReports, List.mem_flatMap, List.mem_map] at hi
  obtain ⟨_, ⟨g, hg, rfl⟩, hi⟩ := hi
  obtain ⟨m, hm, rfl⟩ := List.mem_map.mp hi
  obtain ⟨b, hb, rfl⟩ := List.mem_map.mp hm
  obtain ⟨k, hk⟩ := List.mem_iff_getElem?.mp (mem_of_mem_largeGroups hg hb)
  obtain ⟨ast, f, tokens, hget, -, rfl⟩ := exists_function_of_block hblocks hk
  obtain ⟨hast, hcode, hf, -⟩ := mem_comparableFunctions.mp (List.mem_of_getElem? hget)
  exact ⟨ast, hast, hcode, f, hf, rfl, rfl, rfl⟩

theorem exists_tree_of_issue (h : detect options projectId asts = .ok result) {i : Issue}
    (hi : i ∈ result.issues) : ∃ ast ∈ asts, i.filePath = ast.path := by
  obtain ⟨ast, hast, -, -, -, hpath, -⟩ := exists_function_of_issue h hi
  exact ⟨ast, hast, hpath⟩

end Duplicates

end CodeHealth
