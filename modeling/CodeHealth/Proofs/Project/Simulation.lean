import CodeHealth.Proofs.Project.Cancellation

/-!
# Runs over two stores

Where two stores lead to the same trees, whatever a run over one of them returns a run over the
other one can return as well. The other run keeps up step by step, and reads or stores a tree at
once.
-/

namespace CodeHealth.Analyzer

variable {a : Analyzer} {s t : AnalysisState} {first first' : TreeStore} {f : SourceFile}
  {tree : SourceTree} {files : List SourceFile} {skipped : List SkippedFile} {p q : Pass}
  {passes rest : List Pass} {outcomes : List FileOutcome}

/-- Where the other run is when a pass of the first one is here: it does not wait to store. -/
def ahead : Pass → Pass
  | .storing f tree => .inspecting f tree
  | p => p

/-- The other run has the same outcomes, and its passes are ahead. -/
structure Follows (w w' : Workload) : Prop where
  passes : w'.passes.Perm (w.passes.map ahead)
  outcomes : w'.outcomes = w.outcomes
  cancelled : w'.state.isCancelled = w.state.isCancelled

/-! ## Passes that look for a tree -/

theorem current?_eq_of_looking (h : a.SoundPass first s.store (.looking f)) :
    a.current? s.store f = a.current? first f := by
  unfold current?
  rw [show s.store.entry? a.projectId f.path = _ from h]

/-- A pass that looks for its tree and goes on has the tree that the first store leads to. -/
theorem next_of_looking (h : a.SoundPass first s.store (.looking f))
    (hadvance : a.advance s (.looking f) = (.next q, t)) :
    ∃ tree, a.treeOf first f = .ok tree ∧ ahead q = .inspecting f tree ∧
      t.isCancelled = s.isCancelled := by
  have hcurrent := current?_eq_of_looking h
  simp only [advance] at hadvance
  unfold treeOf
  split at hadvance
  · rename_i e he
    obtain ⟨rfl, rfl⟩ : Pass.inspecting f e.tree = q ∧ _ = t := by simpa using hadvance
    rw [← hcurrent, he]
    exact ⟨e.tree, rfl, rfl, rfl⟩
  · rename_i hnone
    rw [← hcurrent, hnone]
    split at hadvance
    · simp at hadvance
    · rename_i tree htree
      obtain ⟨rfl, rfl⟩ : Pass.storing f tree = q ∧ s = t := by simpa using hadvance
      exact ⟨tree, htree, rfl, rfl⟩

/-- A pass that looks for its tree and ends has none. -/
theorem done_of_looking (h : a.SoundPass first s.store (.looking f)) {outcome : FileOutcome}
    (hadvance : a.advance s (.looking f) = (.done outcome, t)) :
    ∃ e, a.treeOf first f = .error e ∧ outcome = .ofError f.path e ∧ t = s := by
  have hcurrent := current?_eq_of_looking h
  simp only [advance] at hadvance
  unfold treeOf
  split at hadvance
  · simp at hadvance
  · rename_i hnone
    rw [← hcurrent, hnone]
    split at hadvance
    · rename_i e he
      obtain ⟨rfl, rfl⟩ : FileOutcome.ofError f.path e = outcome ∧ s = t := by
        simpa using hadvance
      exact ⟨e, he, rfl, rfl⟩
    · simp at hadvance

/-- A pass whose file has a tree comes to have it, in one step or two. -/
theorem steps_of_looking (h : a.SoundPass first s.store (.looking f))
    (htree : a.treeOf first f = .ok tree) (hp : passes.Perm (.looking f :: rest)) :
    ∃ store, a.Steps ⟨passes, outcomes, s⟩
      ⟨.inspecting f tree :: rest, outcomes, ⟨store, s.isCancelled⟩⟩ := by
  cases hadvance : a.advance s (.looking f) with
  | mk advanced t =>
      cases advanced with
      | done outcome =>
          obtain ⟨e, herror, -, -⟩ := done_of_looking h hadvance
          exact nomatch htree.symm.trans herror
      | next q =>
          obtain ⟨tree', htree', hq, hcancelled⟩ := next_of_looking h hadvance
          obtain rfl := Except.ok.inj (htree.symm.trans htree')
          have hfirst : a.Steps ⟨passes, outcomes, s⟩ ⟨q :: rest, outcomes, t⟩ :=
            .single (.next hp hadvance)
          cases q with
          | waiting | looking => exact nomatch hq
          | inspecting g tree' =>
              obtain ⟨rfl, rfl⟩ := Pass.inspecting.inj hq
              rw [← hcancelled]
              exact ⟨t.store, hfirst⟩
          | storing g tree' =>
              obtain ⟨rfl, rfl⟩ := Pass.inspecting.inj hq
              rw [← hcancelled]
              exact ⟨_, hfirst.tail (.head_next rfl)⟩

theorem advance_of_failing (h : a.SoundPass first s.store (.looking f)) {e : ParseError}
    (herror : a.treeOf first f = .error e) :
    a.advance s (.looking f) = (.done (.ofError f.path e), s) := by
  cases hadvance : a.advance s (.looking f) with
  | mk advanced t =>
      cases advanced with
      | next q =>
          obtain ⟨tree, htree, -⟩ := next_of_looking h hadvance
          exact nomatch herror.symm.trans htree
      | done outcome =>
          obtain ⟨e', herror', rfl, rfl⟩ := done_of_looking h hadvance
          obtain rfl := Except.error.inj (herror.symm.trans herror')
          rfl

/-! ## Keeping up -/

variable {w w' v : Workload} {ended ended' : List (SourceFile × FileOutcome)}

theorem Accounted.file_mem (h : a.Accounted first files w ended) (hp : p ∈ w.passes) :
    p.file ∈ files :=
  h.files.mem_iff.mp (List.mem_append_right _ (List.mem_map_of_mem hp))

/-- If a pass of the first run goes on, then the other run keeps up. -/
theorem Follows.next {s' : AnalysisState} {passes' : List Pass} {outcomes' : List FileOutcome}
    (h : Follows ⟨passes, outcomes, s⟩ ⟨passes', outcomes', s'⟩) (hp : passes.Perm (p :: rest))
    (hsound : a.SoundPass first s.store p)
    (hsound' : ∀ r ∈ passes', a.SoundPass first' s'.store r)
    (hsame : a.treeOf first p.file = a.treeOf first' p.file)
    (hadvance : a.advance s p = (.next q, t)) :
    ∃ v', a.Steps ⟨passes', outcomes', s'⟩ v' ∧ Follows ⟨q :: rest, outcomes, t⟩ v' := by
  have hp' : passes'.Perm (ahead p :: rest.map ahead) := h.passes.trans (hp.map ahead)
  cases p with
  | waiting f =>
      simp only [advance] at hadvance
      split at hadvance
      · simp at hadvance
      · rename_i hs
        obtain ⟨rfl, rfl⟩ : Pass.looking f = q ∧ s = t := by simpa using hadvance
        have hstep : a.advance s' (.waiting f) = (.next (.looking f), s') := by
          simp only [advance]
          rw [if_neg (h.cancelled ▸ hs)]
        exact ⟨_, .single (.next hp' hstep), List.Perm.refl _, h.outcomes, h.cancelled⟩
  | looking f =>
      obtain ⟨tree, htree, hq, hcancelled⟩ := next_of_looking hsound hadvance
      have hlooking : .looking f ∈ passes' := hp'.mem_iff.mpr List.mem_cons_self
      obtain ⟨store, hsteps⟩ :=
        steps_of_looking (hsound' _ hlooking) (hsame.symm.trans htree) hp'
      refine ⟨_, hsteps, ?_, h.outcomes, h.cancelled.trans hcancelled.symm⟩
      rw [List.map_cons, hq]
  | storing f tree =>
      obtain ⟨rfl, rfl⟩ : Pass.inspecting f tree = q ∧ _ = t := by
        simpa [advance] using hadvance
      exact ⟨_, .refl, hp', h.outcomes, h.cancelled⟩
  | inspecting f tree => simp [advance] at hadvance

/-- If a pass of the first run ends, then so does that of the other run, with the same outcome. -/
theorem Follows.done {s' : AnalysisState} {passes' : List Pass} {outcomes' : List FileOutcome}
    {outcome : FileOutcome}
    (h : Follows ⟨passes, outcomes, s⟩ ⟨passes', outcomes', s'⟩) (hp : passes.Perm (p :: rest))
    (hsound : a.SoundPass first s.store p)
    (hsound' : ∀ r ∈ passes', a.SoundPass first' s'.store r)
    (hsame : a.treeOf first p.file = a.treeOf first' p.file)
    (hadvance : a.advance s p = (.done outcome, t)) :
    ∃ v', a.Steps ⟨passes', outcomes', s'⟩ v' ∧
      Follows ⟨rest, outcomes ++ [outcome], t⟩ v' := by
  have hp' : passes'.Perm (ahead p :: rest.map ahead) := h.passes.trans (hp.map ahead)
  have houtcomes : outcomes' ++ [outcome] = outcomes ++ [outcome] :=
    congrArg (· ++ [outcome]) h.outcomes
  cases p with
  | waiting f =>
      simp only [advance] at hadvance
      split at hadvance
      · rename_i hs
        obtain ⟨rfl, rfl⟩ : FileOutcome.cancelled f.path = outcome ∧ s = t := by
          simpa using hadvance
        have hstep : a.advance s' (.waiting f) = (.done (.cancelled f.path), s') := by
          simp only [advance]
          rw [if_pos (h.cancelled.trans hs)]
        exact ⟨_, .single (.done hp' hstep), List.Perm.refl _, houtcomes, h.cancelled⟩
      · simp at hadvance
  | looking f =>
      obtain ⟨e, herror, rfl, rfl⟩ := done_of_looking hsound hadvance
      have hlooking : .looking f ∈ passes' := hp'.mem_iff.mpr List.mem_cons_self
      have hstep := advance_of_failing (hsound' _ hlooking) (hsame.symm.trans herror)
      exact ⟨_, .single (.done hp' hstep), List.Perm.refl _, houtcomes, h.cancelled⟩
  | storing f tree => simp [advance] at hadvance
  | inspecting f tree =>
      obtain ⟨rfl, rfl⟩ : _ = outcome ∧ _ = t := by simpa [advance] using hadvance
      refine ⟨_, .single (.done hp' rfl), List.Perm.refl _, houtcomes, ?_⟩
      exact congrArg (· || a.stopsAt f.path) h.cancelled

/-- Whatever happens in the first run, the other one keeps up. -/
theorem Follows.event (h : Follows w w') (haccounted : a.Accounted first files w ended)
    (haccounted' : a.Accounted first' files w' ended')
    (hsame : ∀ f ∈ files, a.treeOf first f = a.treeOf first' f) (hevent : a.Event w v) :
    ∃ v', a.Events w' v' ∧ Follows v v' := by
  cases hevent with
  | cancel => exact ⟨w'.cancel, .single (.cancel w'), h.passes, h.outcomes, rfl⟩
  | step hstep =>
      cases hstep with
      | @next passes rest p q outcomes s t hp hadvance =>
          have hmem : p ∈ passes := hp.mem_iff.mpr List.mem_cons_self
          obtain ⟨v', hsteps, hfollows⟩ := h.next hp (haccounted.passes p hmem)
            haccounted'.passes (hsame _ (haccounted.file_mem hmem)) hadvance
          exact ⟨v', events_of_steps hsteps, hfollows⟩
      | @done passes rest p outcome outcomes s t hp hadvance =>
          have hmem : p ∈ passes := hp.mem_iff.mpr List.mem_cons_self
          obtain ⟨v', hsteps, hfollows⟩ := h.done hp (haccounted.passes p hmem)
            haccounted'.passes (hsame _ (haccounted.file_mem hmem)) hadvance
          exact ⟨v', events_of_steps hsteps, hfollows⟩

theorem follows_start {s s' : AnalysisState} (hcancelled : s'.isCancelled = s.isCancelled)
    (files : List SourceFile) : Follows (.start s files) (.start s' files) where
  passes := by simp [Workload.start, Function.comp_def, ahead]
  outcomes := rfl
  cancelled := hcancelled

theorem exists_follows {s s' : AnalysisState} (hpaths : (files.map SourceFile.path).Nodup)
    (hsame : ∀ f ∈ files, a.treeOf s.store f = a.treeOf s'.store f)
    (hcancelled : s'.isCancelled = s.isCancelled) (hevents : a.Events (.start s files) w) :
    ∃ w', a.Events (.start s' files) w' ∧ Follows w w' := by
  induction hevents with
  | refl => exact ⟨_, .refl, follows_start hcancelled files⟩
  | tail hbefore hevent ih =>
      obtain ⟨w', hevents', hfollows⟩ := ih
      obtain ⟨ended, haccounted⟩ := accounted_of_events hpaths hbefore
      obtain ⟨ended', haccounted'⟩ := accounted_of_events hpaths hevents'
      obtain ⟨v', hnext, hfollows'⟩ := hfollows.event haccounted haccounted' hsame hevent
      exact ⟨v', hevents'.trans hnext, hfollows'⟩

/-! ## Reports -/

theorem reportOn_congr {t' : AnalysisState} (hcancelled : t.isCancelled = t'.isCancelled)
    (htrees : ∀ path ∈ (outcomes.filter FileOutcome.isAnalyzed).map FileOutcome.path,
      t.store.get? a.projectId path = t'.store.get? a.projectId path) :
    a.reportOn files skipped outcomes t = a.reportOn files skipped outcomes t' := by
  have hsorted : (outcomes.mergeSort fun x y => x.path ≤ y.path).Perm outcomes :=
    List.mergeSort_perm outcomes _
  have hcompared : (((outcomes.mergeSort fun x y => x.path ≤ y.path).filter
      FileOutcome.isAnalyzed).map FileOutcome.path).filterMap (t.store.get? a.projectId) =
        (((outcomes.mergeSort fun x y => x.path ≤ y.path).filter
          FileOutcome.isAnalyzed).map FileOutcome.path).filterMap (t'.store.get? a.projectId) :=
    List.filterMap_congr fun path hpath =>
      htrees path (((hsorted.filter _).map _).mem_iff.mp hpath)
  unfold reportOn duplicates
  dsimp only
  rw [hcancelled, hcompared]

/-- Whatever a run over files with different paths returns, whenever it is cancelled, a run over
another store that leads to the same trees can return as well. -/
theorem reports_of_sameTrees {s s' : AnalysisState}
    {result : Except AnalysisError AnalysisReport}
    (hpaths : (files.map SourceFile.path).Nodup)
    (hsame : ∀ f ∈ files.filter SourceFile.isSupported,
      a.treeOf s.store f = a.treeOf s'.store f)
    (hcancelled : s'.isCancelled = s.isCancelled) (h : a.Reports s files skipped result) :
    a.Reports s' files skipped result := by
  have hsupported : ((files.filter SourceFile.isSupported).map SourceFile.path).Nodup :=
    hpaths.sublist (List.filter_sublist.map _)
  obtain ⟨outcomes, t, ⟨finished, hevents, hperm⟩, rfl⟩ := h
  obtain ⟨⟨passes', finished', t'⟩, hevents', hfollows⟩ :=
    exists_follows hsupported hsame hcancelled hevents
  obtain rfl : passes' = [] := hfollows.passes.eq_nil
  obtain rfl : finished' = finished := hfollows.outcomes
  have hclosed := Ends.closed ⟨finished', hevents, hperm⟩ hsupported
  have hclosed' := Ends.closed ⟨finished', hevents', hperm⟩ hsupported
  refine ⟨outcomes, t', ⟨finished', hevents', hperm⟩,
    reportOn_congr hfollows.cancelled.symm fun path hpath => ?_⟩
  obtain ⟨outcome, houtcome, rfl⟩ := List.mem_map.mp hpath
  obtain ⟨houtcome, hanalyzed⟩ := List.mem_filter.mp houtcome
  obtain ⟨f, hf, tree, hpath, htree, hstored, -⟩ := hclosed.exists_tree houtcome hanalyzed
  obtain ⟨f', hf', tree', hpath', htree', hstored', -⟩ := hclosed'.exists_tree houtcome hanalyzed
  obtain rfl := List.inj_on_of_nodup_map hsupported hf hf' (hpath.symm.trans hpath')
  obtain rfl := Except.ok.inj (htree.symm.trans ((hsame f hf).trans htree'))
  rw [hpath, hstored, hstored']

end CodeHealth.Analyzer
