import CodeHealth.Proofs.Alignment.Diagonal
import CodeHealth.Proofs.Refactor.Unit
import CodeHealth.Tree.Parse

/-!
# Changes as edit scripts

The changes from one tree to another, read in order, turn the units of the one into those of the
other: what they do not name is the same on both sides. There is no change exactly when the units
are compared as equal, one by one.
-/

namespace CodeHealth

variable {oldLines newLines : List String} {old old' new new' : List LineUnit}
  {changes changes' : List LineChange} {before after : SourceTree} {budget : Int}

/-! ## Single changes -/

/-- The change of a unit into another. -/
def LineChange.modified (oldLines newLines : List String) (p : LineUnit × LineUnit) :
    LineChange :=
  ⟨p.2.line, .modify, lineText newLines p.2.line, some (lineText oldLines p.1.line)⟩

def LineChange.removed (oldLines : List String) (u : LineUnit) : LineChange :=
  ⟨u.line, .remove, lineText oldLines u.line, none⟩

def LineChange.added (newLines : List String) (u : LineUnit) : LineChange :=
  ⟨u.line, .add, lineText newLines u.line, none⟩

theorem changesOf_cons (o n : LineUnit) (old new : List LineUnit) :
    changesOf oldLines newLines (o :: old) (n :: new) =
      .modified oldLines newLines (o, n) :: changesOf oldLines newLines old new := by
  unfold changesOf
  simp only [List.length_cons, Nat.succ_min_succ, List.take_succ_cons, List.drop_succ_cons,
    List.zip_cons_cons, List.map_cons, List.cons_append]
  rfl

theorem changesOf_nil_left (new : List LineUnit) :
    changesOf oldLines newLines [] new = new.map (.added newLines) := by
  simp only [changesOf, List.length_nil, Nat.zero_min, List.take_zero, List.drop_zero,
    List.zip_nil_left, List.map_nil, List.nil_append]
  rfl

theorem changesOf_nil_right (old : List LineUnit) :
    changesOf oldLines newLines old [] = old.map (.removed oldLines) := by
  simp only [changesOf, List.length_nil, Nat.min_zero, List.take_zero, List.drop_zero,
    List.zip_nil_right, List.map_nil, List.nil_append, List.append_nil]
  rfl

/-! ## Scripts -/

/-- Changes that, read in order, turn some units into others. Units without a change are compared
as equal. -/
inductive EditScript (oldLines newLines : List String) :
    List LineUnit → List LineUnit → List LineChange → Prop
  | nil : EditScript oldLines newLines [] [] []
  | keep {o n : LineUnit} {old new : List LineUnit} {changes : List LineChange}
      (hkey : o.key = n.key) (rest : EditScript oldLines newLines old new changes) :
      EditScript oldLines newLines (o :: old) (n :: new) changes
  | modify {o n : LineUnit} {old new : List LineUnit} {changes : List LineChange}
      (rest : EditScript oldLines newLines old new changes) :
      EditScript oldLines newLines (o :: old) (n :: new)
        (.modified oldLines newLines (o, n) :: changes)
  | remove {o : LineUnit} {old new : List LineUnit} {changes : List LineChange}
      (rest : EditScript oldLines newLines old new changes) :
      EditScript oldLines newLines (o :: old) new (.removed oldLines o :: changes)
  | add {n : LineUnit} {old new : List LineUnit} {changes : List LineChange}
      (rest : EditScript oldLines newLines old new changes) :
      EditScript oldLines newLines old (n :: new) (.added newLines n :: changes)

theorem EditScript.append (h : EditScript oldLines newLines old new changes)
    (h' : EditScript oldLines newLines old' new' changes') :
    EditScript oldLines newLines (old ++ old') (new ++ new') (changes ++ changes') := by
  induction h with
  | nil => exact h'
  | keep hkey _ ih => exact .keep hkey ih
  | modify _ ih => exact .modify ih
  | remove _ ih => exact .remove ih
  | add _ ih => exact .add ih

theorem editScript_changesOf (old new : List LineUnit) :
    EditScript oldLines newLines old new (changesOf oldLines newLines old new) := by
  induction old generalizing new with
  | nil =>
      rw [changesOf_nil_left]
      induction new with
      | nil => exact .nil
      | cons n new ih => exact .add ih
  | cons o old ih =>
      cases new with
      | nil =>
          have hrest := ih []
          rw [changesOf_nil_right] at hrest ⊢
          exact .remove hrest
      | cons n new =>
          rw [changesOf_cons]
          exact .modify (ih new)

theorem editScript_keep {pairs : List (LineUnit × LineUnit)}
    (h : ∀ p ∈ pairs, p.1.same p.2 = true) :
    EditScript oldLines newLines (pairs.map Prod.fst) (pairs.map Prod.snd) [] := by
  induction pairs with
  | nil => exact .nil
  | cons p pairs ih =>
      rw [List.forall_mem_cons] at h
      exact .keep (LineUnit.same_iff.mp h.1) (ih h.2)

theorem editScript_flatMap {steps : List (Alignment.Step LineUnit LineUnit)}
    (h : ∀ step ∈ steps, step.Sound LineUnit.same) :
    EditScript oldLines newLines (steps.flatMap Alignment.Step.old)
      (steps.flatMap Alignment.Step.new) (steps.flatMap (stepChanges oldLines newLines)) := by
  induction steps with
  | nil => exact .nil
  | cons step steps ih =>
      rw [List.forall_mem_cons] at h
      have hstep : EditScript oldLines newLines step.old step.new
          (stepChanges oldLines newLines step) := by
        cases step with
        | keep pairs => exact editScript_keep h.1
        | change old new => exact editScript_changesOf old new
      exact hstep.append (ih h.2)

/-- Two trees within the budget have the changes of their alignment. -/
theorem computeChanges_of_le
    (hbudget : ((lineUnits before.root).length + (lineUnits after.root).length : Nat) ≤ budget) :
    computeChanges before after budget =
      .ok ((Alignment.align LineUnit.same (lineUnits before.root) (lineUnits after.root)).flatMap
        (stepChanges before.lines after.lines)) := by
  unfold computeChanges
  exact if_neg (by omega)

theorem le_of_computeChanges_eq_ok (h : computeChanges before after budget = .ok changes) :
    ((lineUnits before.root).length + (lineUnits after.root).length : Nat) ≤ budget := by
  unfold computeChanges at h
  dsimp only at h
  split at h
  · exact nomatch h
  · omega

theorem editScript_of_computeChanges (h : computeChanges before after budget = .ok changes) :
    EditScript before.lines after.lines (lineUnits before.root) (lineUnits after.root)
      changes := by
  rw [computeChanges_of_le (le_of_computeChanges_eq_ok h)] at h
  have hdivides := Alignment.divides_alignWithin LineUnit.same (lineUnits before.root).length
    (lineUnits before.root) (lineUnits after.root)
  have hscript : EditScript before.lines after.lines _ _ _ := editScript_flatMap hdivides.sound
  rw [hdivides.old, hdivides.new] at hscript
  exact Except.ok.inj h ▸ hscript

/-! ## Named lines -/

/-- The lines of the new text that are added or modified. -/
def writtenLines (changes : List LineChange) : List Nat :=
  (changes.filter fun c => c.type != .remove).map LineChange.lineNumber

/-- The lines of the old text that are removed. -/
def removedLines (changes : List LineChange) : List Nat :=
  (changes.filter fun c => c.type == .remove).map LineChange.lineNumber

/-- The keys of the units whose lines are not listed. -/
def keysWithout (lines : List Nat) (units : List LineUnit) : List (Nat × List String) :=
  (units.filter fun u => u.line ∉ lines).map LineUnit.key

theorem EditScript.sublist_writtenLines (h : EditScript oldLines newLines old new changes) :
    (writtenLines changes).Sublist (new.map LineUnit.line) := by
  induction h with
  | nil => exact .slnil
  | keep _ _ ih => exact ih.cons _
  | modify _ ih => exact ih.cons_cons _
  | remove _ ih => exact ih
  | add _ ih => exact ih.cons_cons _

theorem EditScript.sublist_removedLines (h : EditScript oldLines newLines old new changes) :
    (removedLines changes).Sublist (old.map LineUnit.line) := by
  induction h with
  | nil => exact .slnil
  | keep _ _ ih => exact ih.cons _
  | modify _ ih => exact ih.cons _
  | remove _ ih => exact ih.cons_cons _
  | add _ ih => exact ih

theorem EditScript.content_eq (h : EditScript oldLines newLines old new changes) :
    ∀ c ∈ changes, c.content =
      ((if c.type = .remove then oldLines else newLines)[c.lineNumber - 1]?).getD "" := by
  induction h with
  | nil => simp
  | keep _ _ ih => exact ih
  | modify _ ih => exact List.forall_mem_cons.mpr ⟨List.getD_eq_getElem?_getD, ih⟩
  | remove _ ih => exact List.forall_mem_cons.mpr ⟨List.getD_eq_getElem?_getD, ih⟩
  | add _ ih => exact List.forall_mem_cons.mpr ⟨List.getD_eq_getElem?_getD, ih⟩

theorem EditScript.oldContent_eq_none (h : EditScript oldLines newLines old new changes) :
    ∀ c ∈ changes, c.type ≠ .modify → c.oldContent = none := by
  induction h with
  | nil => simp
  | keep _ _ ih => exact ih
  | modify _ ih => exact List.forall_mem_cons.mpr ⟨fun hne => absurd rfl hne, ih⟩
  | remove _ ih => exact List.forall_mem_cons.mpr ⟨fun _ => rfl, ih⟩
  | add _ ih => exact List.forall_mem_cons.mpr ⟨fun _ => rfl, ih⟩

/-! ## The units that stay -/

theorem keysWithout_cons_of_mem {lines : List Nat} {u : LineUnit} (units : List LineUnit)
    (h : u.line ∈ lines) : keysWithout lines (u :: units) = keysWithout lines units := by
  simp [keysWithout, h]

theorem keysWithout_cons_of_notMem {lines : List Nat} {u : LineUnit} (units : List LineUnit)
    (h : u.line ∉ lines) :
    keysWithout lines (u :: units) = u.key :: keysWithout lines units := by
  simp [keysWithout, h]

/-- A line above those of all units takes none of them away. -/
theorem keysWithout_insert {line : Nat} {units : List LineUnit}
    (h : ∀ l ∈ units.map LineUnit.line, line < l) (lines lines' : List Nat) :
    keysWithout (lines ++ line :: lines') units = keysWithout (lines ++ lines') units := by
  unfold keysWithout
  congr 1
  apply List.filter_congr
  intro u hu
  have hlt := h u.line (List.mem_map_of_mem hu)
  have hne : u.line ≠ line := by omega
  simp [hne]

theorem notMem_of_forall_lt {line : Nat} {lines lines' : List Nat} (h : ∀ l ∈ lines, line < l)
    (hsub : lines' ⊆ lines) : line ∉ lines' :=
  fun hmem => Nat.lt_irrefl line (h line (hsub hmem))

/-- Without the removed units and the partners of the modified ones, the old units have the keys of
the new units that are not written. -/
theorem EditScript.exists_paired (h : EditScript oldLines newLines old new changes)
    (hold : (old.map LineUnit.line).Pairwise (· < ·))
    (hnew : (new.map LineUnit.line).Pairwise (· < ·)) :
    ∃ paired : List Nat, paired.Sublist (old.map LineUnit.line) ∧
      (∀ line ∈ paired, line ∉ removedLines changes) ∧
      (changes.filter fun c => c.type == .modify).map LineChange.oldContent =
        paired.map (fun line => some ((oldLines[line - 1]?).getD "")) ∧
      keysWithout (removedLines changes ++ paired) old =
        keysWithout (writtenLines changes) new := by
  -- lines increase, so the line of a first unit is none of those that later changes name
  induction h with
  | nil => exact ⟨[], .slnil, by simp, rfl, rfl⟩
  | @keep o n old new changes hkey rest ih =>
      rw [List.map_cons, List.pairwise_cons] at hold hnew
      obtain ⟨paired, hsub, hfree, hcontent, hkeys⟩ := ih hold.2 hnew.2
      have hold_free : o.line ∉ removedLines changes ++ paired :=
        notMem_of_forall_lt hold.1
          (List.append_subset.mpr ⟨rest.sublist_removedLines.subset, hsub.subset⟩)
      have hnew_free : n.line ∉ writtenLines changes :=
        notMem_of_forall_lt hnew.1 rest.sublist_writtenLines.subset
      refine ⟨paired, hsub.cons _, hfree, hcontent, ?_⟩
      rw [keysWithout_cons_of_notMem _ hold_free, keysWithout_cons_of_notMem _ hnew_free, hkey,
        hkeys]
  | @modify o n old new changes rest ih =>
      rw [List.map_cons, List.pairwise_cons] at hold hnew
      obtain ⟨paired, hsub, hfree, hcontent, hkeys⟩ := ih hold.2 hnew.2
      have hwritten : writtenLines (.modified oldLines newLines (o, n) :: changes) =
          [] ++ n.line :: writtenLines changes := rfl
      have hremoved : removedLines (.modified oldLines newLines (o, n) :: changes) =
          removedLines changes := rfl
      refine ⟨o.line :: paired, hsub.cons_cons _, ?_, ?_, ?_⟩
      · exact List.forall_mem_cons.mpr
          ⟨notMem_of_forall_lt hold.1 rest.sublist_removedLines.subset, hfree⟩
      · rw [List.map_cons, ← hcontent, ← List.getD_eq_getElem?_getD]
        rfl
      · rw [hwritten, hremoved, keysWithout_cons_of_mem _ (by simp),
          keysWithout_cons_of_mem _ (by simp), keysWithout_insert hold.1,
          keysWithout_insert hnew.1, hkeys, List.nil_append]
  | @remove o old new changes rest ih =>
      rw [List.map_cons, List.pairwise_cons] at hold
      obtain ⟨paired, hsub, hfree, hcontent, hkeys⟩ := ih hold.2 hnew
      have hwritten : writtenLines (.removed oldLines o :: changes) = writtenLines changes := rfl
      have hremoved : removedLines (.removed oldLines o :: changes) ++ paired =
          [] ++ o.line :: (removedLines changes ++ paired) := rfl
      refine ⟨paired, hsub.cons _, ?_, hcontent, ?_⟩
      · intro line hline hmem
        rcases List.mem_cons.mp hmem with rfl | hmem
        · exact notMem_of_forall_lt hold.1 hsub.subset hline
        · exact hfree line hline hmem
      · rw [hwritten, hremoved, keysWithout_cons_of_mem _ (by simp), keysWithout_insert hold.1,
          List.nil_append, hkeys]
  | @add n old new changes rest ih =>
      rw [List.map_cons, List.pairwise_cons] at hnew
      obtain ⟨paired, hsub, hfree, hcontent, hkeys⟩ := ih hold hnew.2
      have hwritten : writtenLines (.added newLines n :: changes) =
          [] ++ n.line :: writtenLines changes := rfl
      have hremoved : removedLines (.added newLines n :: changes) = removedLines changes := rfl
      refine ⟨paired, hsub, hfree, hcontent, ?_⟩
      rw [hwritten, hremoved, keysWithout_cons_of_mem _ (by simp), keysWithout_insert hnew.1,
        List.nil_append, hkeys]

/-! ## No changes -/

theorem EditScript.map_key_eq (h : EditScript oldLines newLines old new changes)
    (hnone : changes = []) : old.map LineUnit.key = new.map LineUnit.key := by
  induction h with
  | nil => rfl
  | keep hkey _ ih => rw [List.map_cons, List.map_cons, hkey, ih hnone]
  | modify => exact nomatch hnone
  | remove => exact nomatch hnone
  | add => exact nomatch hnone

theorem changesOf_of_length_eq (h : old.length = new.length) :
    changesOf oldLines newLines old new =
      (old.zip new).map (.modified oldLines newLines) := by
  induction old generalizing new with
  | nil =>
      obtain rfl := List.eq_nil_of_length_eq_zero h.symm
      rfl
  | cons o old ih =>
      cases new with
      | nil => exact nomatch h
      | cons n new =>
          rw [changesOf_cons, ih (Nat.succ.inj h)]
          rfl

theorem flatMap_stepChanges {steps : List (Alignment.Step LineUnit LineUnit)}
    {ps : List (LineUnit × LineUnit)} (h : Alignment.Exchanges steps ps) :
    steps.flatMap (stepChanges oldLines newLines) = ps.map (.modified oldLines newLines) := by
  rw [← h.pairs, List.map_flatMap]
  apply List.flatMap_congr
  intro step hstep
  cases step with
  | keep pairs => rfl
  | change old new => exact changesOf_of_length_eq (h.even _ hstep)

/-- Units that are the same or different in place only are modified in place. -/
theorem computeChanges_of_partnered {ps : List (LineUnit × LineUnit)}
    (hold : lineUnits before.root = ps.map Prod.fst)
    (hnew : lineUnits after.root = ps.map Prod.snd)
    (hpartnered : Alignment.Partnered LineUnit.same ps)
    (hbudget : ((lineUnits before.root).length + (lineUnits after.root).length : Nat) ≤ budget) :
    computeChanges before after budget =
      .ok ((ps.filter fun p => !p.1.same p.2).map (.modified before.lines after.lines)) := by
  have hexchanges := hpartnered.exchanges_alignWithin (Nat.le_refl ps.length)
  rw [computeChanges_of_le hbudget, hold, hnew, Alignment.align, List.length_map,
    flatMap_stepChanges hexchanges]

theorem computeChanges_of_map_key_eq
    (hkeys : (lineUnits before.root).map LineUnit.key = (lineUnits after.root).map LineUnit.key)
    (hbudget : ((lineUnits before.root).length + (lineUnits after.root).length : Nat) ≤ budget) :
    computeChanges before after budget = .ok [] := by
  have hlength : (lineUnits before.root).length = (lineUnits after.root).length := by
    simpa using congrArg List.length hkeys
  have hsame : ∀ p ∈ (lineUnits before.root).zip (lineUnits after.root),
      p.1.same p.2 = true := by
    intro p hp
    obtain ⟨i, hi, rfl⟩ := List.getElem_of_mem hp
    rw [List.length_zip] at hi
    have hat := List.getElem_of_eq hkeys (i := i) (by rw [List.length_map]; omega)
    rw [List.getElem_map, List.getElem_map] at hat
    rw [List.getElem_zip]
    exact LineUnit.same_iff.mpr hat
  rw [computeChanges_of_partnered (List.map_fst_zip (Nat.le_of_eq hlength)).symm
    (List.map_snd_zip (Nat.le_of_eq hlength.symm)).symm
    (fun p hp q hq _ => ⟨hsame p hp, hsame q hq⟩) hbudget]
  have hnone : (((lineUnits before.root).zip (lineUnits after.root)).filter fun p =>
      !p.1.same p.2) = [] := by
    rw [List.filter_eq_nil_iff]
    intro p hp
    simp [hsame p hp]
  rw [hnone]
  rfl

/-! ## The script of two trees -/

/-- What it means for changes to lead from one tree to another. -/
structure IsEditScript (before after : SourceTree) (changes : List LineChange) : Prop where
  written_increasing : (writtenLines changes).Pairwise (· < ·)
  written_subset : writtenLines changes ⊆ (lineUnits after.root).map LineUnit.line
  removed_increasing : (removedLines changes).Pairwise (· < ·)
  removed_subset : removedLines changes ⊆ (lineUnits before.root).map LineUnit.line
  /-- Each modified line stands for one old line. Without these, the removed lines and the written
  lines the two trees have the same keys in the same order. -/
  paired : ∃ paired : List Nat, paired.Pairwise (· < ·) ∧
    paired ⊆ (lineUnits before.root).map LineUnit.line ∧
    (∀ line ∈ paired, line ∉ removedLines changes) ∧
    (changes.filter fun c => c.type == .modify).map LineChange.oldContent =
      paired.map (fun line => some ((before.lines[line - 1]?).getD "")) ∧
    keysWithout (removedLines changes ++ paired) (lineUnits before.root) =
      keysWithout (writtenLines changes) (lineUnits after.root)
  content_eq : ∀ c ∈ changes, c.content = (((if c.type = .remove then before else
    after).lines)[c.lineNumber - 1]?).getD ""
  oldContent_eq_none : ∀ c ∈ changes, c.type ≠ .modify → c.oldContent = none
  eq_nil_iff : changes = [] ↔
    (lineUnits before.root).map LineUnit.key = (lineUnits after.root).map LineUnit.key

/-- The changes within the budget lead from one tree to the other. -/
theorem computeChanges_isEditScript (before after : SourceTree) (budget : Int)
    (hbudget : ((lineUnits before.root).length + (lineUnits after.root).length : Nat) ≤ budget) :
    ∃ changes, computeChanges before after budget = .ok changes ∧
      IsEditScript before after changes := by
  obtain ⟨changes, hchanges⟩ : ∃ changes, computeChanges before after budget = .ok changes :=
    ⟨_, computeChanges_of_le hbudget⟩
  have hscript := editScript_of_computeChanges hchanges
  have hold := pairwise_line_lineUnits before.root
  have hnew := pairwise_line_lineUnits after.root
  obtain ⟨paired, hsub, hfree, hcontent, hkeys⟩ := hscript.exists_paired hold hnew
  refine ⟨changes, hchanges, ?_⟩
  exact
    { written_increasing := hnew.sublist hscript.sublist_writtenLines
      written_subset := hscript.sublist_writtenLines.subset
      removed_increasing := hold.sublist hscript.sublist_removedLines
      removed_subset := hscript.sublist_removedLines.subset
      paired := ⟨paired, hold.sublist hsub, hsub.subset, hfree, hcontent, hkeys⟩
      content_eq := by
        intro c hc
        rw [hscript.content_eq c hc]
        split <;> rfl
      oldContent_eq_none := hscript.oldContent_eq_none
      eq_nil_iff := by
        refine ⟨hscript.map_key_eq, fun hkey => ?_⟩
        rw [computeChanges_of_map_key_eq hkey hbudget] at hchanges
        exact (Except.ok.inj hchanges).symm }

theorem settings_isEditScript :
    ∃ changes, computeChanges (parseConfig "HOST=a\nPORT=1\nUSER=b\n" "app.env")
        (parseConfig "HOST=a\nUSER=c\nTEAM=d\nPORT=1\n" "app.env") 20000 = .ok changes ∧
      IsEditScript (parseConfig "HOST=a\nPORT=1\nUSER=b\n" "app.env")
        (parseConfig "HOST=a\nUSER=c\nTEAM=d\nPORT=1\n" "app.env") changes :=
  computeChanges_isEditScript _ _ _ (length_lineUnits_add_le (by decide +kernel))

end CodeHealth
