import CodeHealth.Project.Cancellation
import CodeHealth.Proofs.Project.Order

/-!
# Runs that may be cancelled

At every moment of a run each file is done or in a pass, once. A file that is done was not begun
because of a cancellation, or it came to what the first store leads to.
-/

namespace CodeHealth.Analyzer

variable {a : Analyzer} {s t : AnalysisState} {first now next : TreeStore} {f : SourceFile}
  {files : List SourceFile} {p : Pass} {rest : List Pass} {w w' : Workload}
  {outcome : FileOutcome} {outcomes : List FileOutcome}

/-- How the pass over a file ended: it did not begin, or it came to what the first store leads to,
and the tree of the file is stored. -/
inductive Ended (a : Analyzer) (first now : TreeStore) (f : SourceFile) : FileOutcome → Prop where
  | cancelled : Ended a first now f (.cancelled f.path)
  | finished (hstored : ∀ tree, a.treeOf first f = .ok tree →
      now.get? a.projectId f.path = some tree) : Ended a first now f (a.outcomeOf first f)

theorem Ended.path_eq (h : a.Ended first now f outcome) : outcome.path = f.path := by
  cases h with
  | cancelled => rfl
  | finished => exact a.path_outcomeOf first f

theorem Ended.congr (h : a.Ended first now f outcome)
    (hsame : next.get? a.projectId f.path = now.get? a.projectId f.path) :
    a.Ended first next f outcome := by
  cases h with
  | cancelled => exact .cancelled
  | finished hstored => exact .finished fun tree htree => hsame.trans (hstored tree htree)

/-- Where the files of a run are: those whose passes are over, with what came of them, and those in
the other passes. -/
structure Accounted (a : Analyzer) (first : TreeStore) (files : List SourceFile) (w : Workload)
    (ended : List (SourceFile × FileOutcome)) : Prop where
  files : (ended.map Prod.fst ++ w.passes.map Pass.file).Perm files
  outcomes : w.outcomes = ended.map Prod.snd
  ended : ∀ e ∈ ended, a.Ended first w.state.store e.1 e.2
  passes : ∀ p ∈ w.passes, a.SoundPass first w.state.store p

variable {ended : List (SourceFile × FileOutcome)}

theorem accounted_start (s : AnalysisState) (files : List SourceFile) :
    a.Accounted s.store files (.start s files) [] where
  files := by simp [Workload.start, Function.comp_def, Pass.file]
  outcomes := rfl
  ended _ he := nomatch he
  passes p hp := by
    obtain ⟨f, -, rfl⟩ := List.mem_map.mp hp
    rfl

theorem Accounted.others (h : a.Accounted first files w ended)
    (hpaths : (files.map SourceFile.path).Nodup) (hp : w.passes.Perm (p :: rest))
    (hsame : a.SameBut p.file.path w.state.store next) :
    (∀ e ∈ ended, a.Ended first next e.1 e.2) ∧ ∀ r ∈ rest, a.SoundPass first next r :=
  ⟨fun e he => (h.ended e he).congr
    (stored_of_others h.files hpaths hp hsame (List.mem_map_of_mem he)),
    soundPass_of_others h.files hpaths hp h.passes hsame⟩

/-- A pass that is over moves its file to those that are done. -/
theorem Accounted.done (h : a.Accounted first files w ended)
    (hpaths : (files.map SourceFile.path).Nodup) (hp : w.passes.Perm (p :: rest))
    (hsame : a.SameBut p.file.path w.state.store t.store)
    (hended : a.Ended first t.store p.file outcome) :
    a.Accounted first files ⟨rest, w.outcomes ++ [outcome], t⟩ (ended ++ [(p.file, outcome)]) := by
  obtain ⟨hbefore, hrest⟩ := h.others hpaths hp hsame
  refine ⟨?_, by simp [h.outcomes], ?_, hrest⟩
  · rw [List.map_append, List.append_assoc]
    exact List.perm_middle.trans (perm_cons_files h.files hp)
  · intro e he
    rcases List.mem_append.mp he with he | he
    · exact hbefore e he
    · rw [List.mem_singleton.mp he]
      exact hended

theorem Accounted.step (h : a.Accounted first files w ended)
    (hpaths : (files.map SourceFile.path).Nodup) (hstep : a.Step w w') :
    ∃ ended', a.Accounted first files w' ended' := by
  cases hstep with
  | @next passes rest p q outcomes s t hp hadvance =>
      have hmoves := moves_advance (h.passes p (hp.mem_iff.mpr List.mem_cons_self))
      rw [hadvance] at hmoves
      cases hmoves with
      | next hfile hsound hsame =>
          obtain ⟨hbefore, hrest⟩ := h.others hpaths hp hsame
          refine ⟨ended, ?_, h.outcomes, hbefore, List.forall_mem_cons.mpr ⟨hsound, hrest⟩⟩
          rw [List.map_cons, hfile]
          exact List.perm_middle.trans (perm_cons_files h.files hp)
  | @done passes rest p outcome outcomes s t hp hadvance =>
      have hmoves := moves_advance (h.passes p (hp.mem_iff.mpr List.mem_cons_self))
      rw [hadvance] at hmoves
      cases hmoves with
      | cancelled hwaits hs =>
          subst hwaits
          exact ⟨_, h.done hpaths hp (fun _ _ => rfl) .cancelled⟩
      | done hown hsame => exact ⟨_, h.done hpaths hp hsame (.finished hown)⟩

/-- Whatever happens in a run over files with different paths, each file is accounted for. -/
theorem accounted_of_events (hpaths : (files.map SourceFile.path).Nodup)
    (hevents : a.Events (.start s files) w) : ∃ ended, a.Accounted s.store files w ended := by
  induction hevents with
  | refl => exact ⟨[], accounted_start s files⟩
  | tail _ hevent ih =>
      obtain ⟨ended, haccounted⟩ := ih
      cases hevent with
      | step hstep => exact haccounted.step hpaths hstep
      | cancel =>
          exact ⟨ended, haccounted.files, haccounted.outcomes, haccounted.ended,
            haccounted.passes⟩

/-! ## Complete runs -/

/-- What came of the files of a run that is over. -/
structure Closed (a : Analyzer) (first : TreeStore) (files : List SourceFile)
    (outcomes : List FileOutcome) (t : AnalysisState) : Prop where
  paths : (outcomes.map FileOutcome.path).Perm (files.map SourceFile.path)
  ended : ∀ outcome ∈ outcomes, ∃ f ∈ files, a.Ended first t.store f outcome

theorem Ends.closed (h : a.Ends s files outcomes t) (hpaths : (files.map SourceFile.path).Nodup) :
    a.Closed s.store files outcomes t := by
  obtain ⟨finished, hevents, hperm⟩ := h
  obtain ⟨ended, haccounted⟩ := accounted_of_events hpaths hevents
  have hfinished : finished = ended.map Prod.snd := haccounted.outcomes
  have hfiles : (ended.map Prod.fst).Perm files := by simpa using haccounted.files
  subst hfinished
  constructor
  · have hsame : (ended.map Prod.snd).map FileOutcome.path =
        (ended.map Prod.fst).map SourceFile.path := by
      rw [List.map_map, List.map_map]
      exact List.map_congr_left fun e he => (haccounted.ended e he).path_eq
    exact (hperm.map _).trans (hsame ▸ hfiles.map _)
  · intro outcome houtcome
    obtain ⟨e, he, rfl⟩ := List.mem_map.mp (hperm.mem_iff.mp houtcome)
    exact ⟨e.1, hfiles.mem_iff.mp (List.mem_map_of_mem he), haccounted.ended e he⟩

theorem Closed.of_perm (h : a.Closed first files outcomes t) {outcomes' : List FileOutcome}
    (hperm : outcomes'.Perm outcomes) : a.Closed first files outcomes' t :=
  ⟨(hperm.map _).trans h.paths, fun outcome houtcome =>
    h.ended outcome (hperm.mem_iff.mp houtcome)⟩

/-- An analysed file has a tree, which is stored, and its findings are those in the tree. -/
theorem Closed.exists_tree (h : a.Closed first files outcomes t) {outcome : FileOutcome}
    (houtcome : outcome ∈ outcomes) (hanalyzed : outcome.isAnalyzed = true) :
    ∃ f ∈ files, ∃ tree, outcome.path = f.path ∧ a.treeOf first f = .ok tree ∧
      t.store.get? a.projectId f.path = some tree ∧
      outcome.issues = (a.detected f.path tree).issues := by
  obtain ⟨f, hf, hended⟩ := h.ended outcome houtcome
  have hpath := hended.path_eq
  cases hended with
  | cancelled => exact nomatch hanalyzed
  | finished hstored =>
      obtain ⟨tree, htree⟩ := exists_treeOf_of_isAnalyzed hanalyzed
      refine ⟨f, hf, tree, hpath, htree, hstored tree htree, ?_⟩
      simp only [outcomeOf, htree, FileOutcome.issues]

/-! ## After a cancellation -/

theorem isCancelled_of_event (hevent : a.Event w w') (h : w.state.isCancelled = true) :
    w'.state.isCancelled = true := by
  cases hevent with
  | step hstep => exact isCancelled_of_step hstep h
  | cancel => rfl

theorem isCancelled_of_events (hevents : a.Events w w') (h : w.state.isCancelled = true) :
    w'.state.isCancelled = true := by
  induction hevents with
  | refl => exact h
  | tail _ hevent ih => exact isCancelled_of_event hevent ih

/-- What is left of a file whose pass waits while the run is cancelled: the pass waits on, or it
ended without having begun. -/
def LeftOut (w : Workload) (f : SourceFile) : Prop :=
  .waiting f ∈ w.passes ∨ .cancelled f.path ∈ w.outcomes

theorem leftOut_of_event (hevent : a.Event w w') (hcancelled : w.state.isCancelled = true)
    (h : LeftOut w f) : LeftOut w' f := by
  cases hevent with
  | cancel => exact h
  | step hstep =>
      cases hstep with
      | @next passes rest p q outcomes s t hp hadvance =>
          rcases h with hwaits | hdone
          · rcases List.mem_cons.mp (hp.mem_iff.mp hwaits) with rfl | hrest
            · simp [advance, show s.isCancelled = true from hcancelled] at hadvance
            · exact Or.inl (List.mem_cons_of_mem q hrest)
          · exact Or.inr hdone
      | @done passes rest p outcome outcomes s t hp hadvance =>
          rcases h with hwaits | hdone
          · rcases List.mem_cons.mp (hp.mem_iff.mp hwaits) with rfl | hrest
            · obtain ⟨rfl, -⟩ : FileOutcome.cancelled f.path = outcome ∧ s = t := by
                simpa [advance, show s.isCancelled = true from hcancelled] using hadvance
              exact Or.inr (List.mem_append_right _ (List.mem_singleton_self _))
            · exact Or.inl hrest
          · exact Or.inr (List.mem_append_left _ hdone)

/-- No pass begins after a cancellation. -/
theorem leftOut_of_events (hevents : a.Events w w') (hcancelled : w.state.isCancelled = true)
    (hwaits : .waiting f ∈ w.passes) : LeftOut w' f := by
  induction hevents with
  | refl => exact Or.inl hwaits
  | tail hbefore hevent ih =>
      exact leftOut_of_event hevent (isCancelled_of_events hbefore hcancelled) ih

/-! ## Runs that nobody cancels -/

theorem events_of_steps (h : a.Steps w w') : a.Events w w' :=
  Relation.ReflTransGen.mono (fun _ _ => .step) _ _ h

theorem reports_of_returns {skipped : List SkippedFile}
    {result : Except AnalysisError AnalysisReport} (h : a.Returns s files skipped result) :
    a.Reports s files skipped result := by
  obtain ⟨outcomes, t, ⟨finished, hsteps, hperm⟩, hresult⟩ := h
  exact ⟨outcomes, t, ⟨finished, events_of_steps hsteps, hperm⟩, hresult⟩

end CodeHealth.Analyzer
