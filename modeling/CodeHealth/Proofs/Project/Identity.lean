import CodeHealth.Proofs.Detector.Battery
import CodeHealth.Proofs.Duplicate.Identity
import CodeHealth.Proofs.Project.Analysis

/-!
# Identifiers of a report

The findings of the standard detectors in different files have different keys and are no duplicates.
So the identifiers of a report differ just if those of its duplicates do.
-/

namespace CodeHealth.Analyzer

open Duplicates

variable {a : Analyzer} {s s' : AnalysisState} {files : List SourceFile}

/-! ## Findings of one file -/

theorem path_analyzeFile (a : Analyzer) (s : AnalysisState) (f : SourceFile) :
    (a.analyzeFile s f).1.path = f.path := by
  unfold analyzeFile
  split
  · rfl
  · split <;> rfl

theorem issues_of_not_isAnalyzed {outcome : FileOutcome} (h : outcome.isAnalyzed = false) :
    outcome.issues = [] := by
  cases outcome with
  | analyzed => exact nomatch h
  | unsupported | cancelled | failed => rfl

/-- The findings of a file, none of them a duplicate. -/
structure OwnFindings (projectId : String) (outcome : FileOutcome) : Prop where
  foreign : Foreign projectId outcome.issues
  path : ∀ i ∈ outcome.issues, i.filePath = outcome.path

theorem ownFindings_analyzeFile (hdetectors : a.detectors = defaultDetectors)
    (hstore : s.store.All fun path tree => tree.path = path) (f : SourceFile) :
    OwnFindings a.projectId (a.analyzeFile s f).1 := by
  rcases a.analyzeFile_cases s f with ⟨found, store, hfound, hstep, -⟩ | ⟨hskipped, -, -⟩
  · rw [hstep]
    have htree := (hstore.of_getOrParse (fun _ => path_of_parseAs) hfound).1
    have hissue : ∀ i ∈ (a.detected f.path found.tree).issues,
        i.filePath = f.path ∧ i.type ≠ .duplicateCode ∧
          i.id = some (i.stableId a.projectId) := by
      intro i hi
      unfold detected at hi
      rw [hdetectors] at hi
      obtain ⟨hpath, htype, hid⟩ := of_mem_runDetectors hi
      exact ⟨hpath.trans htree, htype, hid⟩
    exact ⟨⟨fun i hi => (hissue i hi).2.1, fun i hi => (hissue i hi).2.2,
      Issue.nodup_key_mergeIssues _ _⟩, fun i hi => (hissue i hi).1⟩
  · -- a file that was left out has no findings
    have hnone := issues_of_not_isAnalyzed hskipped
    refine ⟨?_, ?_⟩
    · rw [hnone]
      exact foreign_nil
    · rw [hnone]
      exact fun i hi => absurd hi List.not_mem_nil

/-! ## Findings of a run -/

theorem paths_outcomes (a : Analyzer) (s : AnalysisState) (fs : List SourceFile) :
    (a.analyzeFiles s fs).1.map FileOutcome.path = fs.map SourceFile.path := by
  induction fs generalizing s with
  | nil => rfl
  | cons f fs ih =>
      simp only [analyzeFiles, List.map_cons]
      rw [path_analyzeFile, ih]

theorem ownFindings_of_mem_analyzeFiles (hdetectors : a.detectors = defaultDetectors)
    {fs : List SourceFile} (hstore : s.store.All fun path tree => tree.path = path)
    {outcome : FileOutcome} (houtcome : outcome ∈ (a.analyzeFiles s fs).1) :
    OwnFindings a.projectId outcome := by
  induction fs generalizing s with
  | nil => exact absurd houtcome List.not_mem_nil
  | cons f fs ih =>
      simp only [analyzeFiles] at houtcome
      rcases List.mem_cons.mp houtcome with rfl | hrest
      · exact ownFindings_analyzeFile hdetectors hstore f
      · exact ih (all_analyzeFile hstore fun _ => path_of_parseAs) hrest

/-- Files with different paths have findings with different keys. -/
theorem foreign_ownIssues (hdetectors : a.detectors = defaultDetectors)
    (hstore : s.store.All fun path tree => tree.path = path)
    (hpaths : (files.map SourceFile.path).Nodup) :
    Foreign a.projectId (a.ownIssues s files) := by
  have hown : ∀ outcome ∈ (a.analyzeFiles s (files.filter SourceFile.isSupported)).1,
      OwnFindings a.projectId outcome :=
    fun outcome => ownFindings_of_mem_analyzeFiles hdetectors hstore
  have houtcomes : ((a.analyzeFiles s (files.filter SourceFile.isSupported)).1.map
      FileOutcome.path).Nodup := by
    rw [paths_outcomes]
    exact hpaths.sublist (List.filter_sublist.map _)
  refine ⟨?_, ?_, ?_⟩
  · intro i hi
    obtain ⟨outcome, houtcome, hi⟩ := List.mem_flatMap.mp hi
    exact (hown outcome houtcome).foreign.type i hi
  · intro i hi
    obtain ⟨outcome, houtcome, hi⟩ := List.mem_flatMap.mp hi
    exact (hown outcome houtcome).foreign.id i hi
  · unfold ownIssues
    rw [List.map_flatMap, List.nodup_flatMap]
    refine ⟨fun outcome houtcome => (hown outcome houtcome).foreign.keys, ?_⟩
    apply (List.pairwise_map.mp houtcomes).imp_of_mem
    intro x y hx hy hne k hkx hky
    obtain ⟨i, hi, rfl⟩ := List.mem_map.mp hkx
    obtain ⟨j, hj, heq⟩ := List.mem_map.mp hky
    apply hne
    rw [← (hown x hx).path i hi, ← (hown y hy).path j hj]
    exact (congrArg Issue.Key.filePath heq).symm

/-! ## Identifiers -/

/-- Every duplicate is listed in a group that it names. If no two names share an identifier, then
the identifiers of a search are unique just if no two members of its groups stand in the same lines
and no two groups have one name. The names of groups differ with the lines unless a path holds a
separator. The same goes for the report of a run. -/
theorem idsResolve_iff (a : Analyzer) (s : AnalysisState) (files : List SourceFile)
    (skipped : List SkippedFile) (hdetectors : a.detectors = defaultDetectors)
    (hstore : s.store.All fun path tree => tree.path = path)
    (hpaths : (files.map SourceFile.path).Nodup) :
    (∀ asts result, detect a.options a.projectId asts = .ok result →
      (∀ i ∈ result.issues, i.type = .duplicateCode → ∃ g ∈ result.groups, ListedIn i g) ∧
      (NamesApart a.projectId result.issues result.groups →
        (IdsResolve result.issues result.groups ↔ PlacesDiffer a.projectId result.groups)) ∧
      ((∀ ast ∈ asts, '|' ∉ ast.path.toList) →
        (PlacesDiffer a.projectId result.groups ↔
          (result.groups.flatMap DuplicateGroup.locations).Nodup))) ∧
    ∀ report s', a.analyze s files skipped = .ok (report, s') →
      (∀ i ∈ report.issues, i.type = .duplicateCode →
        ∃ g ∈ report.duplicateGroups, ListedIn i g) ∧
      (NamesApart a.projectId report.issues report.duplicateGroups →
        (IdsResolve report.issues report.duplicateGroups ↔
          PlacesDiffer a.projectId report.duplicateGroups)) := by
  constructor
  · intro asts result h
    have hlabelled := labelled_of_detect h
    have hissues : result.issues.Perm ([] ++ result.issues) := List.Perm.refl _
    refine ⟨?_, ?_, ?_⟩
    · intro i hi htype
      exact hlabelled.exists_listedIn foreign_nil hissues hi htype
    · exact hlabelled.resolve_iff foreign_nil hissues
    · intro hseparators
      apply hlabelled.placesDiffer_iff
      intro i hi
      obtain ⟨ast, hast, hpath⟩ := exists_tree_of_issue h hi
      rw [hpath]
      exact hseparators ast hast
  · intro report s' h
    obtain ⟨found, hfound, hcovers⟩ := covers_of_analyze h
    have hlabelled := labelled_of_detect hfound
    have hown := foreign_ownIssues hdetectors hstore hpaths
    rw [hcovers.groups]
    refine ⟨?_, hlabelled.resolve_iff hown hcovers.issues⟩
    intro i hi htype
    exact hlabelled.exists_listedIn hown hcovers.issues hi htype

/-! ## One function in two files -/

def arrowFiles : List SourceFile := [arrowFile "a.js", arrowFile "b.js"]

def arrowBlocks : List CodeBlock := [arrowBlock 0 "a.js", arrowBlock 1 "b.js"]

theorem extractBlocks_arrows :
    extractBlocks (arrowAnalyzer 9).options [arrowAst 9 "a.js", arrowAst 9 "b.js"] =
      .ok arrowBlocks := by
  unfold extractBlocks comparableFunctions
  rw [List.mergeSort_of_pairwise (by decide)]
  rfl

theorem comparedTrees_arrows :
    (arrowAnalyzer 9).comparedTrees freshState arrowFiles =
      [arrowAst 9 "a.js", arrowAst 9 "b.js"] := by
  have hrun : (arrowAnalyzer 9).analyzeFiles freshState
      (arrowFiles.filter SourceFile.isSupported) = ([_, _], _) := rfl
  unfold comparedTrees
  rw [hrun]
  dsimp only
  rw [List.mergeSort_of_pairwise (by decide)]
  rfl

theorem ownIssues_arrows : (arrowAnalyzer 9).ownIssues freshState arrowFiles = [] := by
  rw [← List.isEmpty_iff]
  decide +kernel

variable {options : Options} {t : Linking}

theorem together_arrows (h : linkAll arrowBlocks options = .ok t) :
    t.Together (arrowBlock 0 "a.js") (arrowBlock 1 "b.js") := by
  apply together_linkAll (numbered_of_extractBlocks extractBlocks_arrows) h
  have hkey : (arrowBlock 1 "b.js").exactKey = (arrowBlock 0 "a.js").exactKey := rfl
  have hbuckets : classesBy CodeBlock.exactKey arrowBlocks = [arrowBlocks] := by
    simp [arrowBlocks, classesBy_cons, hkey]
    rfl
  unfold exactPass
  rw [buckets_eq_classesBy, hbuckets]
  rfl

theorem groupReports_arrows (h : linkAll arrowBlocks options = .ok t) :
    groupReports "p" arrowBlocks t = [reportGroup "p" (arrowBlocks.map (memberOf t))] := by
  have hroot : t.groups.root (arrowBlock 1 "b.js").index =
      t.groups.root (arrowBlock 0 "a.js").index :=
    (together_arrows h).symm
  have hgroups : groupsOf arrowBlocks t = [arrowBlocks] := by
    simp [groupsOf, arrowBlocks, classesBy_cons, hroot]
    rfl
  unfold groupReports largeGroups
  rw [hgroups]
  rfl

theorem arrow_names_differ :
    Digest.nameId Issue.idSpace "p|duplicate_code|a.js|1|1" ≠
      Digest.nameId Issue.idSpace "p|duplicate_code|b.js|1|1" := by
  decide +kernel

theorem exists_analyze_arrows :
    ∃ report s', (arrowAnalyzer 9).analyze freshState arrowFiles [] = .ok (report, s') := by
  have hlength : ((arrowAnalyzer 9).ownIssues freshState arrowFiles).length +
      arrowBlocks.length ≤ 2 ^ 970 := by
    rw [ownIssues_arrows]
    show 2 ≤ 2 ^ 970
    exact le_self_pow₀ one_le_two (by decide)
  refine exists_analyze ?_ (not_unrated_finite _) (by decide) hlength []
  rw [comparedTrees_arrows]
  exact extractBlocks_arrows

theorem arrows_idsResolve :
    ∃ report s', (arrowAnalyzer 9).analyze freshState arrowFiles [] = .ok (report, s') ∧
      report.duplicateGroups.length = 1 ∧ IdsResolve report.issues report.duplicateGroups := by
  obtain ⟨-, hreports⟩ := idsResolve_iff (arrowAnalyzer 9) freshState arrowFiles [] rfl
    TreeStore.all_empty (by decide)
  obtain ⟨report, s', h⟩ := exists_analyze_arrows
  obtain ⟨found, hfound, hcovers⟩ := covers_of_analyze h
  rw [comparedTrees_arrows] at hfound
  obtain ⟨blocks, t, hblocks, hlinked, hresult⟩ := detect_eq_ok_iff.mp hfound
  obtain rfl := Except.ok.inj (extractBlocks_arrows.symm.trans hblocks)
  have hproject : (arrowAnalyzer 9).projectId = "p" := rfl
  rw [hproject, groupReports_arrows hlinked] at hresult
  have hissues := hcovers.issues
  rw [ownIssues_arrows, List.nil_append, hresult] at hissues
  have hgroups : report.duplicateGroups =
      [(reportGroup "p" (arrowBlocks.map (memberOf t))).group] := by
    rw [hcovers.groups, hresult]
    exact List.mergeSort_singleton _
  have hplaces : report.duplicateGroups.flatMap DuplicateGroup.locations =
      [⟨"a.js", 1, 1⟩, ⟨"b.js", 1, 1⟩] := by
    rw [hgroups]
    rfl
  have hkeys : (report.issues.map Issue.key).Perm
      [⟨.duplicateCode, "a.js", 1, 1⟩, ⟨.duplicateCode, "b.js", 1, 1⟩] :=
    (hissues.trans (List.mergeSort_perm _ _)).map Issue.key
  refine ⟨report, s', h, by rw [hgroups]; rfl, ?_⟩
  apply ((hreports report s' h).2 ⟨?_, ?_⟩).mpr
  · refine ⟨?_, ?_⟩
    · rw [hplaces]
      decide
    · rw [hgroups]
      exact List.nodup_singleton _
  · rw [hgroups]
    intro x hx y hy _
    rw [List.mem_singleton.mp hx, List.mem_singleton.mp hy]
  · apply Digest.CollisionFree.of_pair arrow_names_differ
    intro name hname
    obtain ⟨i, hi, rfl⟩ := List.mem_map.mp hname
    have hkey := hkeys.mem_iff.mp (List.mem_map_of_mem hi)
    simp only [List.mem_cons, List.not_mem_nil, or_false] at hkey
    rcases hkey with hfirst | hsecond
    · rw [hfirst]
      exact Or.inl rfl
    · rw [hsecond]
      exact Or.inr rfl

/-! ## A function that returns a function, in two files -/

/-- The tree of `a=>b=>a`. -/
def curriedTree : GrammarTree where
  root := grammarNode "program" none 0 7 [grammarNode "expression_statement" none 0 7
    [grammarNode "arrow_function" none 0 7
      [grammarNode "identifier" (some "parameter") 0 1 [], grammarToken "=>" 1 3,
        grammarNode "arrow_function" (some "body") 3 7
          [grammarNode "identifier" (some "parameter") 3 4 [], grammarToken "=>" 4 6,
            grammarNode "identifier" (some "body") 6 7 []]]]]
  hasError := false

def curriedAst (path : String) : SourceTree :=
  .ofGrammar defaultNodeBudget "a=>b=>a" path .javascript curriedTree

/-- The body of the outer function. -/
def outerBlock (index : Nat) (path : String) : CodeBlock :=
  { index, path, functionName := "<anonymous>", className := none, startLine := 1, endLine := 1
    startByte := 3, endByte := 7, lineCount := 1, tokens := ["b", "=>", "a"]
    shape := ["arrow_function@0", "identifier@1", "=>@1", "identifier@1"]
    lexicon := [("b", 1), ("a", 1)], excerpt := "a=>b=>a" }

/-- The body of the inner function. -/
def innerBlock (index : Nat) (path : String) : CodeBlock :=
  { index, path, functionName := "<anonymous>", className := none, startLine := 1, endLine := 1
    startByte := 6, endByte := 7, lineCount := 1, tokens := ["a"], shape := ["identifier@0"]
    lexicon := [("a", 1)], excerpt := "a=>b=>a" }

def curriedBlocks : List CodeBlock :=
  [outerBlock 0 "a.js", innerBlock 1 "a.js", outerBlock 2 "b.js", innerBlock 3 "b.js"]

theorem extractBlocks_curried :
    extractBlocks anySize [curriedAst "a.js", curriedAst "b.js"] = .ok curriedBlocks := by
  unfold extractBlocks comparableFunctions
  rw [List.mergeSort_of_pairwise (by decide)]
  rfl

/-- Equal bodies are linked, whether or not the digests of the two bodies collide. -/
theorem together_curried (h : linkAll curriedBlocks options = .ok t) :
    t.Together (outerBlock 0 "a.js") (outerBlock 2 "b.js") ∧
      t.Together (innerBlock 1 "a.js") (innerBlock 3 "b.js") := by
  have hnum := numbered_of_extractBlocks extractBlocks_curried
  have houter : (outerBlock 2 "b.js").exactKey = (outerBlock 0 "a.js").exactKey := rfl
  have hinner : (innerBlock 3 "b.js").exactKey = (innerBlock 1 "a.js").exactKey := rfl
  have hexact : (exactPass curriedBlocks (Linking.start curriedBlocks.length)).Together
        (outerBlock 0 "a.js") (outerBlock 2 "b.js") ∧
      (exactPass curriedBlocks (Linking.start curriedBlocks.length)).Together
        (innerBlock 1 "a.js") (innerBlock 3 "b.js") := by
    unfold exactPass
    rw [buckets_eq_classesBy]
    by_cases hkeys : (innerBlock 1 "a.js").exactKey = (outerBlock 0 "a.js").exactKey
    · have hbuckets : classesBy CodeBlock.exactKey curriedBlocks = [curriedBlocks] := by
        simp [curriedBlocks, classesBy_cons, houter, hinner, hkeys]
        rfl
      rw [hbuckets]
      exact ⟨rfl, rfl⟩
    · have hbuckets : classesBy CodeBlock.exactKey curriedBlocks =
          [[outerBlock 0 "a.js", outerBlock 2 "b.js"],
            [innerBlock 1 "a.js", innerBlock 3 "b.js"]] := by
        simp [curriedBlocks, classesBy_cons, houter, hinner, hkeys]
        rfl
      rw [hbuckets]
      exact ⟨rfl, rfl⟩
  exact ⟨together_linkAll hnum h hexact.1, together_linkAll hnum h hexact.2⟩

theorem groupReports_curried (h : linkAll curriedBlocks options = .ok t) :
    groupReports "p" curriedBlocks t =
      [reportGroup "p" ([outerBlock 0 "a.js", outerBlock 2 "b.js"].map (memberOf t)),
        reportGroup "p" ([innerBlock 1 "a.js", innerBlock 3 "b.js"].map (memberOf t))] := by
  have hnum := numbered_of_extractBlocks extractBlocks_curried
  obtain ⟨houter, hinner⟩ := together_curried h
  have hapart : ¬ t.Together (innerBlock 1 "a.js") (outerBlock 0 "a.js") := by
    intro htogether
    have hover := (settles_linkAll hnum h).sound.apart (innerBlock 1 "a.js")
      (by simp [curriedBlocks]) (outerBlock 0 "a.js") (by simp [curriedBlocks])
      (fun heq => absurd (congrArg CodeBlock.index heq) (by decide)) htogether
    exact absurd hover (by decide)
  have houterRoot : t.groups.root (outerBlock 2 "b.js").index =
      t.groups.root (outerBlock 0 "a.js").index := houter.symm
  have hinnerRoot : t.groups.root (innerBlock 3 "b.js").index =
      t.groups.root (innerBlock 1 "a.js").index := hinner.symm
  have hroots : ¬ t.groups.root (innerBlock 1 "a.js").index =
      t.groups.root (outerBlock 0 "a.js").index := hapart
  have hgroups : groupsOf curriedBlocks t =
      [[outerBlock 0 "a.js", outerBlock 2 "b.js"],
        [innerBlock 1 "a.js", innerBlock 3 "b.js"]] := by
    simp [groupsOf, curriedBlocks, classesBy_cons, houterRoot, hinnerRoot, hroots]
    rfl
  unfold groupReports largeGroups
  rw [hgroups]
  rfl

/-- The outer functions form a group and the inner ones another, in the same lines. So the groups
have one name and one identifier. -/
theorem curried_ids_repeat :
    ([curriedAst "a.js", curriedAst "b.js"].map SourceTree.path).Nodup ∧
      ∃ result, detect anySize "p" [curriedAst "a.js", curriedAst "b.js"] = .ok result ∧
        Digest.CollisionFree groupSpace (result.groups.map fun g => nameAt "p" g.locations) ∧
        ¬ IdsResolve result.issues result.groups := by
  have hrated : ¬ Unrated anySize.structuralThreshold := not_unrated_finite _
  obtain ⟨t, hlinked⟩ := exists_linkAll_of_rated curriedBlocks hrated
  obtain ⟨result, hresult, -⟩ := exists_detect extractBlocks_curried hlinked "p"
  refine ⟨by decide, result, hresult, ?_⟩
  obtain ⟨blocks, t', hblocks, hlinked, hgroups⟩ := detect_eq_ok_iff.mp hresult
  obtain rfl := Except.ok.inj (extractBlocks_curried.symm.trans hblocks)
  have hnames : (result.groups.map fun g => nameAt "p" g.locations).Perm
      (List.replicate 2 (nameAt "p" [⟨"a.js", 1, 1⟩, ⟨"b.js", 1, 1⟩])) := by
    rw [hgroups, groupReports_curried hlinked]
    exact (List.mergeSort_perm _ _).map _
  have hfree : Digest.CollisionFree groupSpace
      (result.groups.map fun g => nameAt "p" g.locations) := by
    intro x hx y hy _
    rw [List.eq_of_mem_replicate (hnames.mem_iff.mp hx),
      List.eq_of_mem_replicate (hnames.mem_iff.mp hy)]
  refine ⟨hfree, fun hresolve => ?_⟩
  have hnodup := (nodup_groupIds_iff (labelled_of_detect hresult) hfree).mp hresolve.groupIds
  have hrepeat := hnames.nodup_iff.mp hnodup
  exact absurd (List.nodup_replicate.mp hrepeat) (by decide)

end CodeHealth.Analyzer
