import CodeHealth.Proofs.Project.Simulation
import CodeHealth.Proofs.Project.Transparency

/-!
# Shared stores

A run over a store that leads to the same trees as a fresh one reports what a run over a fresh one
reports. Other runs keep a store so, unless their budgets cut a file of both in different places.
-/

namespace CodeHealth

/-! ## Calls of a run -/

namespace TreeStore

variable {grammar : Grammar} {s s' : TreeStore} {projectId : String} {budget : Int}
  {f : SourceFile}

theorem get?_getOrParse {found : Found}
    (h : s.getOrParse grammar budget projectId f = .ok (found, s')) (path : String) :
    s'.get? projectId path = if path = f.path then some found.tree else s.get? projectId path := by
  unfold get?
  split
  · rename_i hpath
    rw [hpath]
    rcases getOrParse_cases h with ⟨e, hentry, -, htree, hsame⟩ | ⟨-, -, hstored⟩
    · rw [entry?_congr hsame, hentry, htree]
      rfl
    · rw [entry?_congr hstored]
      exact congrArg (Option.map _) (entry?_insert_self _ _)
  · rename_i hpath
    rw [entry?_getOrParse_of_ne h fun hkey => hpath hkey.2.symm]

end TreeStore

namespace Analyzer

variable {a b : Analyzer} {s s' t t' : AnalysisState} {store store' : TreeStore} {f : SourceFile}
  {files files' fs : List SourceFile} {skipped : List SkippedFile} {outcomes : List FileOutcome}

theorem treeFor_eq_treeOf (a : Analyzer) (store : TreeStore) (f : SourceFile) :
    store.treeFor a.grammar a.options.maxAstNodes a.projectId f = a.treeOf store f := by
  unfold treeOf current?
  split
  · rename_i e he
    obtain ⟨hentry, hcurrent⟩ := Option.filter_eq_some_iff.mp he
    exact TreeStore.treeFor_of_current hentry hcurrent
  · rename_i hnone
    apply TreeStore.treeFor_of_stale
    intro e he
    simpa [he] using hnone

/-- What an uncancelled pass over a file does, all steps at once. -/
theorem analyzeFile_of_uncancelled (hs : s.isCancelled = false) (f : SourceFile) :
    (a.analyzeFile s f).1 = a.outcomeOf s.store f ∧
      (a.analyzeFile s f).2.isCancelled = a.stops s.store f ∧
      ∀ path, (a.analyzeFile s f).2.store.get? a.projectId path =
        if path = f.path ∧ (a.outcomeOf s.store f).isAnalyzed = true then
          (a.treeOf s.store f).toOption
        else s.store.get? a.projectId path := by
  have htree := a.treeFor_eq_treeOf s.store f
  unfold TreeStore.treeFor at htree
  unfold analyzeFile outcomeOf stops
  rw [if_neg (by simp [hs]), ← htree]
  cases hcall : s.store.getOrParse a.grammar a.options.maxAstNodes a.projectId f with
  | error e => cases e <;> exact ⟨rfl, hs, fun path => (if_neg fun h => nomatch h.2).symm⟩
  | ok result =>
      refine ⟨rfl, rfl, fun path => ?_⟩
      have hget := TreeStore.get?_getOrParse hcall path
      simpa [Except.map, FileOutcome.isAnalyzed, Except.toOption] using hget

/-! ## Transparent stores -/

/-- A store leads to the trees that are read for the files anew. -/
def Transparent (a : Analyzer) (store : TreeStore) (files : List SourceFile) : Prop :=
  ∀ f ∈ files, a.treeOf store f = a.treeOf .empty f

theorem transparent_empty (a : Analyzer) (files : List SourceFile) :
    a.Transparent .empty files :=
  fun _ _ => rfl

theorem Transparent.congr (h : a.Transparent store files) (hsame : store'.entries = store.entries) :
    a.Transparent store' files := by
  intro f hf
  rw [← h f hf]
  unfold treeOf current?
  rw [TreeStore.entry?_congr hsame]

/-- An entry may be stored if it holds what is read anew for each of the files that it is taken
for. -/
theorem Transparent.insert (h : a.Transparent store files) {e : StoreEntry}
    (he : ∀ f ∈ files, TreeStore.hasKey a.projectId f.path e = true →
      TreeStore.StoreEntry.isCurrent e f = true → a.treeOf .empty f = .ok e.tree) :
    a.Transparent (store.insert e) files := by
  intro f hf
  have hbefore := h f hf
  unfold treeOf current? at hbefore ⊢
  rw [TreeStore.entry?_insert]
  by_cases hkey : TreeStore.hasKey a.projectId f.path e = true
  · rw [if_pos hkey, Option.filter_some]
    split
    · rename_i d hd
      split at hd
      · rename_i hcurrent
        obtain rfl := Option.some.inj hd
        exact (he f hf hkey hcurrent).symm
      · exact nomatch hd
    · rfl
  · rw [if_neg hkey]
    exact hbefore

/-- Two analyzers that read for one project cut each file that both read in the same place. -/
def CutAlike (a b : Analyzer) (files files' : List SourceFile) : Prop :=
  a.projectId = b.projectId → ∀ f ∈ files, f ∈ files' →
    f.SameCut a.grammar a.options.maxAstNodes b.options.maxAstNodes

/-- A tree that one analyzer stores for a file is one that another reads, if they cut alike. -/
theorem Transparent.stored (h : b.Transparent store files') (hgrammar : a.grammar = b.grammar)
    (hcut : CutAlike a b files files')
    (hfree : Digest.Separated ((files ++ files').map SourceFile.text)) (hf : f ∈ files)
    {tree : SourceTree} (htree : a.treeOf .empty f = .ok tree) :
    b.Transparent
      (store.insert ⟨a.projectId, f.path, tree, Digest.sha256Hex f.text, tree.language⟩)
      files' := by
  apply h.insert
  intro g hg hkey hcurrent
  obtain ⟨hproject, hpath⟩ := TreeStore.hasKey_iff.mp hkey
  unfold TreeStore.StoreEntry.isCurrent at hcurrent
  rw [Bool.and_eq_true, beq_iff_eq, beq_iff_eq] at hcurrent
  have htext : f.text = g.text :=
    hfree f.text (List.mem_map_of_mem (List.mem_append_left _ hf)) g.text
      (List.mem_map_of_mem (List.mem_append_right _ hg)) hcurrent.1
  have hlanguage : f.language = g.language := (language_of_parseAs htree).trans hcurrent.2
  obtain rfl : f = g := by
    cases f
    cases g
    simp_all
  rw [treeOf_empty, ← hgrammar, ← parseAs_eq_iff.mpr (hcut hproject f hf hg)]
  exact htree

/-- A pass over one of the files that stores what is read anew, if it stores anything. -/
def ReadsAnew (a : Analyzer) (files : List SourceFile) : Pass → Prop
  | .waiting f => f ∈ files
  | .looking f => f ∈ files
  | .storing f tree => f ∈ files ∧ a.treeOf .empty f = .ok tree
  | .inspecting f _ => f ∈ files

theorem ReadsAnew.next {p q : Pass} (hp : a.ReadsAnew files p)
    (h : a.advance s p = (.next q, t)) : a.ReadsAnew files q := by
  cases p with
  | waiting f =>
      simp only [Analyzer.advance] at h
      split at h
      · simp at h
      · obtain ⟨rfl, -⟩ : Pass.looking f = q ∧ s = t := by simpa using h
        exact hp
  | looking f =>
      simp only [Analyzer.advance] at h
      split at h
      · rename_i e _
        obtain ⟨rfl, -⟩ : Pass.inspecting f e.tree = q ∧ _ = t := by simpa using h
        exact hp
      · split at h
        · simp at h
        · rename_i tree htree
          obtain ⟨rfl, -⟩ : Pass.storing f tree = q ∧ s = t := by simpa using h
          exact ⟨hp, htree⟩
  | storing f tree =>
      obtain ⟨rfl, -⟩ : Pass.inspecting f tree = q ∧ _ = t := by
        simpa [Analyzer.advance] using h
      exact hp.1
  | inspecting f tree => simp [Analyzer.advance] at h

theorem Transparent.advance (h : b.Transparent s.store files') (hgrammar : a.grammar = b.grammar)
    (hcut : CutAlike a b files files')
    (hfree : Digest.Separated ((files ++ files').map SourceFile.text)) {p : Pass}
    (hp : a.ReadsAnew files p) : b.Transparent (a.advance s p).2.store files' := by
  cases p with
  | waiting f =>
      simp only [Analyzer.advance]
      split <;> exact h
  | looking f =>
      simp only [Analyzer.advance]
      split
      · exact h.congr rfl
      · split <;> exact h
  | storing f tree => exact (h.stored hgrammar hcut hfree hp.1 hp.2).congr rfl
  | inspecting f tree => exact h

/-- Whatever happens in a run of one analyzer, the store stays transparent for another one that cuts
the files alike. -/
theorem Transparent.of_events (h : b.Transparent s.store files')
    (hgrammar : a.grammar = b.grammar) (hcut : CutAlike a b files files')
    (hfree : Digest.Separated ((files ++ files').map SourceFile.text)) {w : Workload}
    (hevents : a.Events (.start s files) w) : b.Transparent w.state.store files' := by
  suffices hall : b.Transparent w.state.store files' ∧ ∀ p ∈ w.passes, a.ReadsAnew files p from
    hall.1
  induction hevents with
  | refl =>
      refine ⟨h, fun p hp => ?_⟩
      obtain ⟨f, hf, rfl⟩ := List.mem_map.mp hp
      exact hf
  | tail _ hevent ih =>
      obtain ⟨hstore, hpasses⟩ := ih
      cases hevent with
      | cancel => exact ⟨hstore, hpasses⟩
      | step hstep =>
          cases hstep with
          | @next passes rest p q outcomes s t hp hadvance =>
              have hreads := fun r hr => hpasses r (hp.mem_iff.mpr hr)
              have hown := hreads p List.mem_cons_self
              have hnext := hstore.advance hgrammar hcut hfree hown
              rw [hadvance] at hnext
              exact ⟨hnext, List.forall_mem_cons.mpr
                ⟨hown.next hadvance, fun r hr => hreads r (List.mem_cons_of_mem p hr)⟩⟩
          | @done passes rest p outcome outcomes s t hp hadvance =>
              have hreads := fun r hr => hpasses r (hp.mem_iff.mpr hr)
              have hdone := hstore.advance hgrammar hcut hfree (hreads p List.mem_cons_self)
              rw [hadvance] at hdone
              exact ⟨hdone, fun r hr => hreads r (List.mem_cons_of_mem p hr)⟩

/-! ## One file after the other -/

theorem outcomeOf_congr (h : a.treeOf store f = a.treeOf store' f) :
    a.outcomeOf store f = a.outcomeOf store' f ∧ a.stops store f = a.stops store' f := by
  unfold outcomeOf stops
  rw [h]
  exact ⟨rfl, rfl⟩

theorem cutAlike_self (a : Analyzer) (files files' : List SourceFile) :
    CutAlike a a files files' :=
  fun _ _ _ _ _ _ _ _ _ => rfl

theorem Transparent.analyzeFile (h : a.Transparent s.store files)
    (hfree : Digest.Separated (files.map SourceFile.text)) (hf : f ∈ files) :
    a.Transparent (a.analyzeFile s f).2.store files := by
  have hsteps : a.Steps (.start s [f]) _ := steps_analyzeFile a s f [] []
  have htexts : ([f] ++ files).map SourceFile.text ⊆ files.map SourceFile.text :=
    List.cons_subset.mpr ⟨List.mem_map_of_mem hf, List.Subset.refl _⟩
  exact h.of_events rfl (cutAlike_self a [f] files) (hfree.mono htexts) (events_of_steps hsteps)

/-- A pass that finds one tree over two stores leaves them with the same tree for its file, and as
alike as they were for any other. -/
theorem sameTree_analyzeFile (hs : s.isCancelled = false) (hs' : s'.isCancelled = false)
    (htree : a.treeOf s.store f = a.treeOf s'.store f) {path : String}
    (hpath : path ∈ ((a.outcomeOf s'.store f :: outcomes).filter FileOutcome.isAnalyzed).map
      FileOutcome.path ∨ s.store.get? a.projectId path = s'.store.get? a.projectId path) :
    path ∈ (outcomes.filter FileOutcome.isAnalyzed).map FileOutcome.path ∨
      (a.analyzeFile s f).2.store.get? a.projectId path =
        (a.analyzeFile s' f).2.store.get? a.projectId path := by
  rw [(analyzeFile_of_uncancelled hs f).2.2, (analyzeFile_of_uncancelled hs' f).2.2,
    (outcomeOf_congr htree).1, htree]
  by_cases hown : path = f.path ∧ (a.outcomeOf s'.store f).isAnalyzed = true
  · rw [if_pos hown, if_pos hown]
    exact Or.inr rfl
  · rw [if_neg hown, if_neg hown]
    refine hpath.imp_left fun hmem => ?_
    obtain ⟨outcome, hlisted, rfl⟩ := List.mem_map.mp hmem
    obtain ⟨hlisted, hanalyzed⟩ := List.mem_filter.mp hlisted
    rcases List.mem_cons.mp hlisted with rfl | hlisted
    · exact absurd ⟨a.path_outcomeOf _ f, hanalyzed⟩ hown
    · exact List.mem_map_of_mem (List.mem_filter.mpr ⟨hlisted, hanalyzed⟩)

/-- What two states lead to alike: the outcomes of some files, whether the run is cancelled, and the
trees of the analysed files and of those that had the same tree before. -/
structure RunsAlike (a : Analyzer) (s s' : AnalysisState) (fs : List SourceFile) : Prop where
  outcomes : (a.analyzeFiles s fs).1 = (a.analyzeFiles s' fs).1
  cancelled : (a.analyzeFiles s fs).2.isCancelled = (a.analyzeFiles s' fs).2.isCancelled
  trees : ∀ path, path ∈ ((a.analyzeFiles s fs).1.filter FileOutcome.isAnalyzed).map
      FileOutcome.path ∨ s.store.get? a.projectId path = s'.store.get? a.projectId path →
    (a.analyzeFiles s fs).2.store.get? a.projectId path =
      (a.analyzeFiles s' fs).2.store.get? a.projectId path

theorem runsAlike_of_transparent (hfree : Digest.Separated (files.map SourceFile.text))
    (hsub : fs ⊆ files) (h : a.Transparent s.store files) (h' : a.Transparent s'.store files)
    (hcancelled : s.isCancelled = s'.isCancelled) : a.RunsAlike s s' fs := by
  induction fs generalizing s s' with
  | nil =>
      refine ⟨rfl, hcancelled, fun path hpath => ?_⟩
      rcases hpath with hpath | hsame
      · exact absurd hpath List.not_mem_nil
      · exact hsame
  | cons f fs ih =>
      have hf := hsub List.mem_cons_self
      have hrest := ih (fun g hg => hsub (List.mem_cons_of_mem f hg)) (h.analyzeFile hfree hf)
        (h'.analyzeFile hfree hf)
      cases hs : s.isCancelled with
      | true =>
          have hstep : a.analyzeFile s f = (.cancelled f.path, s) := by
            rw [Analyzer.analyzeFile, if_pos hs]
          have hstep' : a.analyzeFile s' f = (.cancelled f.path, s') := by
            rw [Analyzer.analyzeFile, if_pos (hcancelled.symm.trans hs)]
          rw [hstep, hstep'] at hrest
          obtain ⟨houtcomes, hflag, htrees⟩ := hrest hcancelled
          refine ⟨?_, ?_, fun path hpath => ?_⟩
          · simp only [analyzeFiles, hstep, hstep', houtcomes]
          · simpa only [analyzeFiles, hstep, hstep'] using hflag
          · simp only [analyzeFiles, hstep, hstep'] at hpath ⊢
            exact htrees path hpath
      | false =>
          have hs' := hcancelled.symm.trans hs
          obtain ⟨houtcome, hstops, -⟩ := analyzeFile_of_uncancelled hs f
          obtain ⟨houtcome', hstops', -⟩ := analyzeFile_of_uncancelled hs' f
          have htree := (h f hf).trans (h' f hf).symm
          obtain ⟨hsame, hstop⟩ := outcomeOf_congr htree
          obtain ⟨houtcomes, hflag, htrees⟩ := hrest (by rw [hstops, hstops', hstop])
          refine ⟨?_, ?_, fun path hpath => ?_⟩
          · simp only [analyzeFiles, houtcome, houtcome', hsame, houtcomes]
          · simpa only [analyzeFiles] using hflag
          · simp only [analyzeFiles, houtcome, hsame] at hpath ⊢
            exact htrees path (sameTree_analyzeFile hs hs' htree hpath)

/-- A run over a transparent store reports what it reports over a fresh one, if its passes take
their steps one after the other. -/
theorem analyze_of_transparent (hfree : Digest.Separated (files.map SourceFile.text))
    (h : a.Transparent store (files.filter SourceFile.isSupported)) (cancelled : Bool) :
    (a.analyze ⟨store, cancelled⟩ files skipped).map Prod.fst =
      (a.analyze ⟨.empty, cancelled⟩ files skipped).map Prod.fst := by
  have hruns : a.RunsAlike ⟨store, cancelled⟩ ⟨.empty, cancelled⟩
      (files.filter SourceFile.isSupported) :=
    runsAlike_of_transparent (hfree.mono (List.map_subset _ List.filter_sublist.subset))
      (List.Subset.refl _) h (transparent_empty a _) rfl
  have hreport : a.reportOn files skipped _ _ = a.reportOn files skipped _ _ :=
    reportOn_congr hruns.cancelled fun path hpath => hruns.trees path (Or.inl hpath)
  rw [map_fst_analyze, map_fst_analyze, hreport, hruns.outcomes]

/-! ## Shared stores -/

/-- A run over the store reports what it reports over a fresh one, file after file and with several
workers, whenever it is cancelled. -/
structure ReportsAsFresh (a : Analyzer) (store : TreeStore) (files : List SourceFile) : Prop where
  analyze : ∀ cancelled skipped, (a.analyze ⟨store, cancelled⟩ files skipped).map Prod.fst =
    (a.analyze ⟨.empty, cancelled⟩ files skipped).map Prod.fst
  reports : (files.map SourceFile.path).Nodup → ∀ cancelled skipped result,
    a.Reports ⟨store, cancelled⟩ files skipped result ↔
      a.Reports ⟨.empty, cancelled⟩ files skipped result

theorem Transparent.reportsAsFresh
    (h : a.Transparent store (files.filter SourceFile.isSupported))
    (hfree : Digest.Separated (files.map SourceFile.text)) : a.ReportsAsFresh store files where
  analyze cancelled _ := analyze_of_transparent hfree h cancelled
  reports hpaths _ _ _ := ⟨reports_of_sameTrees hpaths h rfl,
    reports_of_sameTrees hpaths (fun f hf => (h f hf).symm) rfl⟩

/-- For each of the files, the budget that was used for it after some calls cuts it as that of the
analyzer does. -/
def CutAsUsed (a : Analyzer) (calls : List StoreCall) (files : List SourceFile) : Prop :=
  ∀ f ∈ files, f.SameCut a.grammar
    (TreeStore.usedBudget a.grammar calls a.projectId a.options.maxAstNodes f)
    a.options.maxAstNodes

theorem CutAsUsed.transparent {calls : List StoreCall} (h : a.CutAsUsed calls files)
    (hfree : ∀ f ∈ files, Digest.Separated (f.text :: StoreCall.texts calls)) :
    a.Transparent (.after a.grammar calls) files := by
  intro f hf
  rw [← treeFor_eq_treeOf]
  exact (TreeStore.treeFor_after_iff (hfree f hf)).mpr (h f hf)

end Analyzer

open Analyzer

/-- After any calls a store gives the tree that is read for the file with the budget that was used
for it. This is the tree that is read anew just if the two budgets cut the file in the same place.
A run whose files are all cut so reports what it reports over a fresh store, also after and during
another run that cuts the common files alike. -/
theorem store_transparent_iff (grammar : Grammar) (calls : List StoreCall) {texts : List String}
    (hfree : Digest.Separated texts) (hcalls : StoreCall.texts calls ⊆ texts) :
    (∀ projectId budget (f : SourceFile), f.text ∈ texts →
      (TreeStore.after grammar calls).treeFor grammar budget projectId f =
          parseAs grammar (TreeStore.usedBudget grammar calls projectId budget f) f.text f.language
            f.path ∧
        ((TreeStore.after grammar calls).treeFor grammar budget projectId f =
            parseAs grammar budget f.text f.language f.path ↔
          f.SameCut grammar (TreeStore.usedBudget grammar calls projectId budget f) budget)) ∧
    ∀ (b : Analyzer) (files' : List SourceFile), b.grammar = grammar →
      files'.map SourceFile.text ⊆ texts →
      b.CutAsUsed calls (files'.filter SourceFile.isSupported) →
      b.ReportsAsFresh (TreeStore.after grammar calls) files' ∧
        ∀ (a : Analyzer) (files : List SourceFile) cancelled w, a.grammar = grammar →
          files.map SourceFile.text ⊆ texts →
          CutAlike a b (files.filter SourceFile.isSupported)
            (files'.filter SourceFile.isSupported) →
          a.Events (.start ⟨TreeStore.after grammar calls, cancelled⟩
            (files.filter SourceFile.isSupported)) w →
          b.ReportsAsFresh w.state.store files' := by
  constructor
  · intro projectId budget f hf
    have hcallsFree : Digest.Separated (f.text :: StoreCall.texts calls) :=
      hfree.mono (List.cons_subset.mpr ⟨hf, hcalls⟩)
    exact ⟨TreeStore.treeFor_after hcallsFree, TreeStore.treeFor_after_iff hcallsFree⟩
  · rintro b files' rfl htexts' hcut
    have hsupported : ∀ fs : List SourceFile, fs.map SourceFile.text ⊆ texts →
        (fs.filter SourceFile.isSupported).map SourceFile.text ⊆ texts := fun fs hfs =>
      List.Subset.trans (List.map_subset _ List.filter_sublist.subset) hfs
    have htransparent : b.Transparent (.after b.grammar calls)
        (files'.filter SourceFile.isSupported) :=
      hcut.transparent fun f hf => hfree.mono (List.cons_subset.mpr
        ⟨hsupported files' htexts' (List.mem_map_of_mem hf), hcalls⟩)
    refine ⟨htransparent.reportsAsFresh (hfree.mono htexts'), ?_⟩
    intro a files cancelled w hgrammar htexts hcutAlike hevents
    have hboth : Digest.Separated ((files.filter SourceFile.isSupported ++
        files'.filter SourceFile.isSupported).map SourceFile.text) := by
      rw [List.map_append]
      exact hfree.mono
        (List.append_subset.mpr ⟨hsupported files htexts, hsupported files' htexts'⟩)
    exact (htransparent.of_events hgrammar hcutAlike hboth hevents).reportsAsFresh
      (hfree.mono htexts')

/-! ## One file and several budgets -/

/-- Reads every text as `x=>(y)`. -/
def arrowGrammar : Grammar := fun _ _ => .ok arrowTree

/-- The store after the tree of the file was read with a budget. -/
def arrowCalls (budget : Int) : List StoreCall :=
  [.getOrParse "p" budget (arrowFile "a.js")]

/-- Both budgets keep all nine nodes. -/
theorem large_budgets_transparent :
    (TreeStore.after arrowGrammar (arrowCalls 10)).treeFor arrowGrammar 20 "p" (arrowFile "a.js") =
        parseAs arrowGrammar 20 "x=>(y)" (some .javascript) "a.js" ∧
      (arrowAnalyzer 20).ReportsAsFresh (TreeStore.after arrowGrammar (arrowCalls 10))
        [arrowFile "a.js"] := by
  have hfree : Digest.Separated ["x=>(y)"] := by
    intro x hx y hy _
    rw [List.mem_singleton.mp hx, List.mem_singleton.mp hy]
  have hcut : (arrowFile "a.js").SameCut arrowGrammar 10 20 := by
    intro code tree _ _ htree
    obtain rfl := Except.ok.inj htree
    decide
  obtain ⟨htrees, hruns⟩ := store_transparent_iff arrowGrammar (arrowCalls 10) hfree
    (List.Subset.refl _)
  constructor
  · exact (htrees "p" 20 (arrowFile "a.js") List.mem_cons_self).2.mpr hcut
  · refine (hruns (arrowAnalyzer 20) [arrowFile "a.js"] rfl (List.Subset.refl _) ?_).1
    intro f hf
    obtain rfl := List.mem_singleton.mp hf
    exact hcut

/-- The tree that was read with a budget of a hundred nodes is given where a budget of one node is
asked for. -/
theorem small_budget_not_transparent :
    ∃ tree, (TreeStore.after arrowGrammar (arrowCalls 100)).treeFor arrowGrammar 1 "p"
        (arrowFile "a.js") = .ok tree ∧ tree.nodeCount = 9 ∧
      ∃ tree', parseAs arrowGrammar 1 "x=>(y)" (some .javascript) "a.js" = .ok tree' ∧
        tree'.nodeCount = 1 := by
  refine ⟨arrowAst 100 "a.js", ?_, by decide, arrowAst 1 "a.js", rfl, by decide⟩
  have hfree : Digest.Separated ["x=>(y)", "x=>(y)"] := by
    intro x hx y hy _
    simp only [List.mem_cons, List.not_mem_nil, or_false, or_self] at hx hy
    rw [hx, hy]
  exact TreeStore.treeFor_after hfree

end CodeHealth
