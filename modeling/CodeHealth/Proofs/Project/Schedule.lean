import CodeHealth.Project.Schedule
import CodeHealth.Proofs.Project.Analysis
import Mathlib.Data.List.Perm.Basic

/-!
# Passes side by side

What comes of a file depends on its entry in the first store only, and the other passes do not touch
this entry. So an uncancelled run comes to the same outcomes and trees in every order of steps, and
no order gets stuck.
-/

namespace CodeHealth.Analyzer

variable {a : Analyzer} {s t : AnalysisState} {first : TreeStore} {f : SourceFile}
  {files files' : List SourceFile}

/-! ## What a file comes to -/

/-- The tree that a pass works on: the stored one if it is current, otherwise the one that is
read. -/
def treeOf (a : Analyzer) (store : TreeStore) (f : SourceFile) : Except ParseError SourceTree :=
  match a.current? store f with
  | some e => .ok e.tree
  | none => parseAs a.grammar a.options.maxAstNodes f.text f.language f.path

theorem treeOf_empty (a : Analyzer) (f : SourceFile) :
    a.treeOf .empty f = parseAs a.grammar a.options.maxAstNodes f.text f.language f.path :=
  rfl

/-- What an uncancelled pass reports. -/
def outcomeOf (a : Analyzer) (store : TreeStore) (f : SourceFile) : FileOutcome :=
  match a.treeOf store f with
  | .error e => .ofError f.path e
  | .ok tree =>
    .analyzed f.path tree.hasErrors (a.detected f.path tree).issues
      (a.detected f.path tree).failures

/-- Whether the pass over a file cancels the run. -/
def stops (a : Analyzer) (store : TreeStore) (f : SourceFile) : Bool :=
  match a.treeOf store f with
  | .error _ => false
  | .ok _ => a.stopsAt f.path

theorem path_outcomeOf (a : Analyzer) (store : TreeStore) (f : SourceFile) :
    (a.outcomeOf store f).path = f.path := by
  unfold outcomeOf
  split
  · rename_i e _
    cases e <;> rfl
  · rfl

theorem exists_treeOf_of_isAnalyzed (h : (a.outcomeOf first f).isAnalyzed = true) :
    ∃ tree, a.treeOf first f = .ok tree := by
  unfold outcomeOf at h
  split at h
  · rename_i e _
    cases e <;> exact nomatch h
  · rename_i tree htree
    exact ⟨tree, htree⟩

/-! ## One step -/

/-- What is known of a pass: the entry of its file is that of the first store, or its tree is the
one that the first store leads to. -/
def SoundPass (a : Analyzer) (first now : TreeStore) : Pass → Prop
  | .waiting f => now.entry? a.projectId f.path = first.entry? a.projectId f.path
  | .looking f => now.entry? a.projectId f.path = first.entry? a.projectId f.path
  | .storing f tree => a.treeOf first f = .ok tree
  | .inspecting f tree =>
    a.treeOf first f = .ok tree ∧ now.get? a.projectId f.path = some tree

/-- The entries of all files but one are the same. -/
def SameBut (a : Analyzer) (path : String) (now next : TreeStore) : Prop :=
  ∀ other, other ≠ path → next.entry? a.projectId other = now.entry? a.projectId other

variable {p q : Pass} {now next : TreeStore}

theorem SoundPass.of_sameBut {path : String} (h : a.SoundPass first now p)
    (hsame : a.SameBut path now next) (hp : p.file.path ≠ path) : a.SoundPass first next p := by
  have hentry := hsame p.file.path hp
  cases p with
  | waiting f => exact hentry.trans h
  | looking f => exact hentry.trans h
  | storing f tree => exact h
  | inspecting f tree => exact ⟨h.1, (congrArg (Option.map _) hentry).trans h.2⟩

/-- What a step of a sound pass can do: nothing but the entry of its file changes, and what comes
of the file follows from the first store. -/
inductive Moves (a : Analyzer) (first : TreeStore) (s : AnalysisState) (p : Pass) :
    Advance × AnalysisState → Prop where
  | cancelled {f : SourceFile} (hp : p = .waiting f) (hs : s.isCancelled = true) :
      Moves a first s p (.done (.cancelled f.path), s)
  | next {q : Pass} {store : TreeStore} (hfile : q.file = p.file)
      (hsound : a.SoundPass first store q) (hsame : a.SameBut p.file.path s.store store) :
      Moves a first s p (.next q, ⟨store, s.isCancelled⟩)
  | done {store : TreeStore}
      (hstored : ∀ tree, a.treeOf first p.file = .ok tree →
        store.get? a.projectId p.file.path = some tree)
      (hsame : a.SameBut p.file.path s.store store) :
      Moves a first s p
        (.done (a.outcomeOf first p.file), ⟨store, s.isCancelled || a.stops first p.file⟩)

theorem moves_advance (hp : a.SoundPass first s.store p) : a.Moves first s p (a.advance s p) := by
  cases p with
  | waiting f =>
      simp only [advance]
      split
      · rename_i hs
        exact .cancelled rfl hs
      · exact .next rfl hp fun _ _ => rfl
  | looking f =>
      -- the entry is current now exactly if it was at the start
      have hcurrent : a.current? first f = a.current? s.store f := by
        unfold current?
        rw [show s.store.entry? a.projectId f.path = _ from hp]
      simp only [advance]
      split
      · rename_i e he
        have htree : a.treeOf first f = .ok e.tree := by
          simp only [treeOf, hcurrent, he]
        have hentry : s.store.entry? a.projectId f.path = some e :=
          (Option.filter_eq_some_iff.mp he).1
        exact .next rfl ⟨htree, congrArg (Option.map _) hentry⟩ fun _ _ => rfl
      · rename_i hnone
        have hread : a.treeOf first f =
            parseAs a.grammar a.options.maxAstNodes f.text f.language f.path := by
          simp only [treeOf, hcurrent, hnone]
        split
        · rename_i e he
          have hdone : a.Moves first s (.looking f)
              (.done (a.outcomeOf first f), ⟨s.store, s.isCancelled || a.stops first f⟩) :=
            .done (fun tree htree => by simp [Pass.file, hread, he] at htree) fun _ _ => rfl
          simpa [outcomeOf, stops, hread, he] using hdone
        · rename_i tree htree
          exact .next rfl (hread.trans htree) fun _ _ => rfl
  | storing f tree =>
      refine .next rfl ⟨hp, ?_⟩ fun other hother => ?_
      · show (s.store.insert _).get? a.projectId f.path = some tree
        exact congrArg (Option.map _) (TreeStore.entry?_insert_self _ _)
      · show TreeStore.entry? (s.store.insert _) a.projectId other = _
        rw [TreeStore.entry?_insert, if_neg]
        exact fun hkey => hother (TreeStore.hasKey_iff.mp hkey).2.symm
  | inspecting f tree =>
      obtain ⟨htree, hstored⟩ := hp
      have hdone : a.Moves first s (.inspecting f tree)
          (.done (a.outcomeOf first f), ⟨s.store, s.isCancelled || a.stops first f⟩) :=
        .done (fun other hother => Except.ok.inj (htree.symm.trans hother) ▸ hstored) fun _ _ => rfl
      simp only [outcomeOf, stops, htree] at hdone
      exact hdone

theorem isCancelled_advance (h : s.isCancelled = true) :
    (a.advance s p).2.isCancelled = true := by
  cases p with
  | waiting f => simp [advance, h]
  | looking f =>
      simp only [advance]
      split
      · exact h
      · split <;> exact h
  | storing f tree => exact h
  | inspecting f tree => simp [advance, h]

/-! ## All steps -/

/-- What holds of an uncancelled workload with the passes over some files over. -/
structure Sound (a : Analyzer) (first : TreeStore) (files : List SourceFile) (w : Workload)
    (ended : List SourceFile) : Prop where
  files : (ended ++ w.passes.map Pass.file).Perm files
  outcomes : w.outcomes.Perm (ended.map (a.outcomeOf first))
  uncancelled : w.state.isCancelled = false
  unstopped : ∀ f ∈ ended, a.stops first f = false
  stored : ∀ f ∈ ended, ∀ tree, a.treeOf first f = .ok tree →
    w.state.store.get? a.projectId f.path = some tree
  passes : ∀ p ∈ w.passes, a.SoundPass first w.state.store p

variable {w w' : Workload} {ended : List SourceFile} {rest : List Pass}

theorem perm_cons_files (hfiles : (ended ++ w.passes.map Pass.file).Perm files)
    (hp : w.passes.Perm (p :: rest)) : (p.file :: (ended ++ rest.map Pass.file)).Perm files :=
  List.perm_middle.symm.trans (((hp.symm.map Pass.file).append_left ended).trans hfiles)

/-- Files with different paths: no other file has the path of the one whose pass takes a step. -/
theorem path_ne_of_perm (hfiles : (ended ++ w.passes.map Pass.file).Perm files)
    (hpaths : (files.map SourceFile.path).Nodup) (hp : w.passes.Perm (p :: rest)) :
    ∀ f ∈ ended ++ rest.map Pass.file, f.path ≠ p.file.path := by
  have hnodup := ((perm_cons_files hfiles hp).map SourceFile.path).nodup_iff.mpr hpaths
  intro f hf heq
  exact (List.nodup_cons.mp hnodup).1 (List.mem_map.mpr ⟨f, hf, heq⟩)

/-- The pass that takes a step touches the entry of its own file only, so the other passes stay
sound. -/
theorem soundPass_of_others (hfiles : (ended ++ w.passes.map Pass.file).Perm files)
    (hpaths : (files.map SourceFile.path).Nodup) (hp : w.passes.Perm (p :: rest))
    (hpasses : ∀ r ∈ w.passes, a.SoundPass first w.state.store r)
    (hsame : a.SameBut p.file.path w.state.store next) : ∀ r ∈ rest, a.SoundPass first next r := by
  intro r hr
  have hrest : r.file ∈ ended ++ rest.map Pass.file :=
    List.mem_append_right _ (List.mem_map_of_mem hr)
  have hsound := hpasses r (hp.mem_iff.mpr (List.mem_cons_of_mem p hr))
  exact hsound.of_sameBut hsame (path_ne_of_perm hfiles hpaths hp r.file hrest)

theorem stored_of_others (hfiles : (ended ++ w.passes.map Pass.file).Perm files)
    (hpaths : (files.map SourceFile.path).Nodup) (hp : w.passes.Perm (p :: rest))
    (hsame : a.SameBut p.file.path w.state.store next) (hf : f ∈ ended) :
    next.get? a.projectId f.path = w.state.store.get? a.projectId f.path :=
  congrArg (Option.map _)
    (hsame f.path (path_ne_of_perm hfiles hpaths hp f (List.mem_append_left _ hf)))

theorem Sound.others (h : a.Sound first files w ended) (hpaths : (files.map SourceFile.path).Nodup)
    (hp : w.passes.Perm (p :: rest)) (hsame : a.SameBut p.file.path w.state.store next) :
    (∀ f ∈ ended, ∀ tree, a.treeOf first f = .ok tree →
        next.get? a.projectId f.path = some tree) ∧
      ∀ r ∈ rest, a.SoundPass first next r :=
  ⟨fun f hf tree htree =>
    (stored_of_others h.files hpaths hp hsame hf).trans (h.stored f hf tree htree),
    soundPass_of_others h.files hpaths hp h.passes hsame⟩

/-- A step keeps a workload sound, unless the pass over a file cancels the run. -/
theorem Sound.step (h : a.Sound first files w ended) (hpaths : (files.map SourceFile.path).Nodup)
    (hstep : a.Step w w') :
    (∃ ended', a.Sound first files w' ended') ∨
      (w'.state.isCancelled = true ∧ ∃ f ∈ files, a.stops first f = true) := by
  cases hstep with
  | @next passes rest p q outcomes s t hp hadvance =>
      have hmoves := moves_advance (h.passes p (hp.mem_iff.mpr List.mem_cons_self))
      rw [hadvance] at hmoves
      cases hmoves with
      | next hfile hsound hsame =>
          obtain ⟨hstored, hrest⟩ := h.others hpaths hp hsame
          refine Or.inl ⟨ended, ?_, h.outcomes, h.uncancelled, h.unstopped, hstored,
            List.forall_mem_cons.mpr ⟨hsound, hrest⟩⟩
          rw [List.map_cons, hfile]
          exact List.perm_middle.trans (perm_cons_files h.files hp)
  | @done passes rest p outcome outcomes s t hp hadvance =>
      have hmoves := moves_advance (h.passes p (hp.mem_iff.mpr List.mem_cons_self))
      rw [hadvance] at hmoves
      cases hmoves with
      | cancelled _ hs => exact absurd (hs.symm.trans h.uncancelled) (by decide)
      | done hown hsame =>
          obtain ⟨hstored, hrest⟩ := h.others hpaths hp hsame
          have hperm := perm_cons_files h.files hp
          cases hstops : a.stops first p.file with
          | true =>
              exact Or.inr ⟨Bool.or_true _, p.file, hperm.mem_iff.mp List.mem_cons_self, hstops⟩
          | false =>
              refine Or.inl ⟨p.file :: ended, hperm, ?_, ?_, ?_, ?_, hrest⟩
              · exact (List.perm_append_singleton _ _).trans (h.outcomes.cons _)
              · exact (Bool.or_false _).trans h.uncancelled
              · exact List.forall_mem_cons.mpr ⟨hstops, h.unstopped⟩
              · exact List.forall_mem_cons.mpr ⟨hown, hstored⟩

theorem isCancelled_of_step (hstep : a.Step w w') (h : w.state.isCancelled = true) :
    w'.state.isCancelled = true := by
  cases hstep with
  | @next passes rest p q outcomes s t hp hadvance
  | @done passes rest p outcome outcomes s t hp hadvance =>
      have hcancelled := isCancelled_advance (a := a) (p := p) h
      rwa [hadvance] at hcancelled

theorem isCancelled_of_steps (hsteps : a.Steps w w') (h : w.state.isCancelled = true) :
    w'.state.isCancelled = true := by
  induction hsteps with
  | refl => exact h
  | tail _ hstep ih => exact isCancelled_of_step hstep ih

theorem sound_start (hs : s.isCancelled = false) : a.Sound s.store files (.start s files) [] where
  files := by simp [Workload.start, Function.comp_def, Pass.file]
  outcomes := List.Perm.refl _
  uncancelled := hs
  unstopped _ hf := nomatch hf
  stored _ hf := nomatch hf
  passes p hp := by
    obtain ⟨f, -, rfl⟩ := List.mem_map.mp hp
    rfl

theorem sound_or_cancelled (hs : s.isCancelled = false)
    (hpaths : (files.map SourceFile.path).Nodup) (hsteps : a.Steps (.start s files) w) :
    (∃ ended, a.Sound s.store files w ended) ∨
      (w.state.isCancelled = true ∧ ∃ f ∈ files, a.stops s.store f = true) := by
  induction hsteps with
  | refl => exact Or.inl ⟨[], sound_start hs⟩
  | tail _ hstep ih =>
      rcases ih with ⟨ended, hsound⟩ | ⟨hcancelled, hstops⟩
      · exact hsound.step hpaths hstep
      · exact Or.inr ⟨isCancelled_of_step hstep hcancelled, hstops⟩

/-! ## Complete runs -/

/-- What an uncancelled run over some files comes to. -/
structure Settled (a : Analyzer) (first : TreeStore) (files : List SourceFile)
    (outcomes : List FileOutcome) (t : AnalysisState) : Prop where
  outcomes : outcomes.Perm (files.map (a.outcomeOf first))
  uncancelled : t.isCancelled = false
  stored : ∀ f ∈ files, ∀ tree, a.treeOf first f = .ok tree →
    t.store.get? a.projectId f.path = some tree

variable {outcomes outcomes' : List FileOutcome} {t' : AnalysisState}

/-- A complete run is cancelled exactly if it is at the start or by the pass over a file; if not,
it is settled. -/
theorem Completes.settled_iff (h : a.Completes s files outcomes t)
    (hpaths : (files.map SourceFile.path).Nodup) :
    (t.isCancelled = false ↔
      s.isCancelled = false ∧ ∀ f ∈ files, a.stops s.store f = false) ∧
      (t.isCancelled = false → a.Settled s.store files outcomes t) := by
  obtain ⟨finished, hsteps, hperm⟩ := h
  by_cases hs : s.isCancelled = true
  · have hcancelled : t.isCancelled = true := isCancelled_of_steps hsteps hs
    simp [hs, hcancelled]
  · have hs : s.isCancelled = false := by simpa using hs
    rcases sound_or_cancelled hs hpaths hsteps with ⟨ended, hsound⟩ | ⟨hcancelled, f, hf, hstops⟩
    · have hended : ended.Perm files := by simpa using hsound.files
      refine ⟨⟨fun _ => ⟨hs, fun f hf => hsound.unstopped f (hended.mem_iff.mpr hf)⟩,
        fun _ => hsound.uncancelled⟩, fun _ => ⟨?_, hsound.uncancelled, ?_⟩⟩
      · exact hperm.trans (hsound.outcomes.trans (hended.map _))
      · exact fun f hf => hsound.stored f (hended.mem_iff.mpr hf)
    · have hcancelled : t.isCancelled = true := hcancelled
      have hstopped : ¬ ∀ f ∈ files, a.stops s.store f = false := fun h =>
        absurd (hstops.symm.trans (h f hf)) (by decide)
      simp [hcancelled, hstopped]

/-! ## One file after the other -/

theorem Step.head_next (h : a.advance s p = (.next q, t)) :
    a.Step ⟨p :: rest, outcomes, s⟩ ⟨q :: rest, outcomes, t⟩ :=
  .next (List.Perm.refl _) h

theorem Step.head_done {outcome : FileOutcome} (h : a.advance s p = (.done outcome, t)) :
    a.Step ⟨p :: rest, outcomes, s⟩ ⟨rest, outcomes ++ [outcome], t⟩ :=
  .done (List.Perm.refl _) h

theorem steps_analyzeFile (a : Analyzer) (s : AnalysisState) (f : SourceFile) (rest : List Pass)
    (outcomes : List FileOutcome) :
    a.Steps ⟨.waiting f :: rest, outcomes, s⟩
      ⟨rest, outcomes ++ [(a.analyzeFile s f).1], (a.analyzeFile s f).2⟩ := by
  obtain ⟨store, cancelled⟩ := s
  cases cancelled with
  | true => exact .single (.head_done rfl)
  | false =>
      refine .head (.head_next (q := .looking f) rfl) ?_
      cases hcurrent : a.current? store f with
      | some e =>
          have hlook : a.advance ⟨store, false⟩ (.looking f) =
              (.next (.inspecting f e.tree), ⟨{ store with hits := store.hits + 1 }, false⟩) := by
            simp only [advance, hcurrent]
          have hfile : a.analyzeFile ⟨store, false⟩ f =
              (.analyzed f.path e.tree.hasErrors (a.detected f.path e.tree).issues
                (a.detected f.path e.tree).failures,
                ⟨{ store with hits := store.hits + 1 }, a.stopsAt f.path⟩) := by
            unfold current? at hcurrent
            simp only [analyzeFile, TreeStore.getOrParse, hcurrent]
            rfl
          rw [hfile]
          exact .head (.head_next hlook) (.single (.head_done rfl))
      | none =>
          cases hparse : parseAs a.grammar a.options.maxAstNodes f.text f.language f.path with
          | error e =>
              have hlook : a.advance ⟨store, false⟩ (.looking f) =
                  (.done (.ofError f.path e), ⟨store, false⟩) := by
                simp only [advance, hcurrent, hparse]
              have hfile : a.analyzeFile ⟨store, false⟩ f =
                  (.ofError f.path e, ⟨store, false⟩) := by
                unfold current? at hcurrent
                simp only [analyzeFile, TreeStore.getOrParse, hcurrent, hparse]
                cases e <;> rfl
              rw [hfile]
              exact .single (.head_done hlook)
          | ok tree =>
              have hlook : a.advance ⟨store, false⟩ (.looking f) =
                  (.next (.storing f tree), ⟨store, false⟩) := by
                simp only [advance, hcurrent, hparse]
              have hfile : a.analyzeFile ⟨store, false⟩ f =
                  (.analyzed f.path tree.hasErrors (a.detected f.path tree).issues
                    (a.detected f.path tree).failures,
                    ⟨(a.advance ⟨store, false⟩ (.storing f tree)).2.store, a.stopsAt f.path⟩) := by
                unfold current? at hcurrent
                simp only [analyzeFile, TreeStore.getOrParse, hcurrent, hparse]
                rfl
              rw [hfile]
              exact .head (.head_next hlook)
                (.head (.head_next (q := .inspecting f tree) rfl) (.single (.head_done rfl)))

theorem steps_analyzeFiles (a : Analyzer) (s : AnalysisState) (files : List SourceFile)
    (outcomes : List FileOutcome) :
    a.Steps ⟨files.map .waiting, outcomes, s⟩
      ⟨[], outcomes ++ (a.analyzeFiles s files).1, (a.analyzeFiles s files).2⟩ := by
  -- the pass over the first file goes through to its end before any other begins
  induction files generalizing s outcomes with
  | nil =>
      rw [analyzeFiles, List.append_nil]
      exact .refl
  | cons f files ih =>
      have hrest := ih (a.analyzeFile s f).2 (outcomes ++ [(a.analyzeFile s f).1])
      rw [List.append_assoc] at hrest
      exact (steps_analyzeFile a s f _ outcomes).trans hrest

theorem completes_analyzeFiles (a : Analyzer) (s : AnalysisState) (files : List SourceFile) :
    a.Completes s files (a.analyzeFiles s files).1 (a.analyzeFiles s files).2 :=
  ⟨_, steps_analyzeFiles a s files [], List.Perm.refl _⟩

/-! ## No run gets stuck -/

/-- How many steps a pass takes at most. -/
def remaining : Pass → Nat
  | .waiting _ => 4
  | .looking _ => 3
  | .storing _ _ => 2
  | .inspecting _ _ => 1

theorem remaining_lt_of_next (h : a.advance s p = (.next q, t)) : remaining q < remaining p := by
  cases p with
  | waiting f =>
      simp only [advance] at h
      split at h
      · simp at h
      · obtain ⟨rfl, -⟩ : Pass.looking f = q ∧ s = t := by simpa using h
        simp [remaining]
  | looking f =>
      simp only [advance] at h
      split at h
      · rename_i e _
        obtain ⟨rfl, -⟩ : Pass.inspecting f e.tree = q ∧ _ = t := by simpa using h
        simp [remaining]
      · split at h
        · simp at h
        · rename_i tree _
          obtain ⟨rfl, -⟩ : Pass.storing f tree = q ∧ s = t := by simpa using h
          simp [remaining]
  | storing f tree =>
      obtain ⟨rfl, -⟩ : Pass.inspecting f tree = q ∧ _ = t := by simpa [advance] using h
      simp [remaining]
  | inspecting f tree => simp [advance] at h

theorem sum_remaining_lt_of_step (hstep : a.Step w w') :
    (w'.passes.map remaining).sum < (w.passes.map remaining).sum := by
  cases hstep with
  | @next passes rest p q outcomes s t hp hadvance =>
      have hsum := (hp.map remaining).sum_nat
      have hlt := remaining_lt_of_next hadvance
      simp only [List.map_cons, List.sum_cons] at hsum ⊢
      omega
  | @done passes rest p outcome outcomes s t hp hadvance =>
      have hsum := (hp.map remaining).sum_nat
      have hpos : 0 < remaining p := by cases p <;> simp [remaining]
      simp only [List.map_cons, List.sum_cons] at hsum ⊢
      omega

theorem exists_step (p : Pass) (rest : List Pass) (outcomes : List FileOutcome)
    (s : AnalysisState) : ∃ w, a.Step ⟨p :: rest, outcomes, s⟩ w := by
  cases hadvance : a.advance s p with
  | mk result t =>
      cases result with
      | next q => exact ⟨_, .head_next hadvance⟩
      | done outcome => exact ⟨_, .head_done hadvance⟩

theorem exists_steps_end (a : Analyzer) (w : Workload) :
    ∃ outcomes t, a.Steps w ⟨[], outcomes, t⟩ := by
  -- on the number of steps that are left
  induction hsteps : (w.passes.map remaining).sum using Nat.strongRecOn generalizing w with
  | ind n ih =>
      obtain ⟨passes, outcomes, s⟩ := w
      cases passes with
      | nil => exact ⟨outcomes, s, .refl⟩
      | cons p rest =>
          obtain ⟨w', hstep⟩ := exists_step (a := a) p rest outcomes s
          obtain ⟨outcomes', t, hend⟩ :=
            ih _ (hsteps ▸ sum_remaining_lt_of_step hstep) w' rfl
          exact ⟨outcomes', t, .head hstep hend⟩

end CodeHealth.Analyzer
