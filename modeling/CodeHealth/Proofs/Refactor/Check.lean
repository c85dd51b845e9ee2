import CodeHealth.Proofs.Tally
import CodeHealth.Refactor.Check
import Mathlib.Data.List.Basic

/-!
# Checks of unchanged code

The signatures are preserved exactly when each name keeps its parameters, and no secret is new
exactly when those of the new text are among those of the old one, counted with their repetitions.
So every standard check passes code that was not changed.
-/

namespace CodeHealth.RiskCheck

/-- The check passes code that was not changed. -/
def PassesUnchanged (check : RiskCheck) : Prop :=
  ∀ input : RiskInput, input.new = input.old → input.changes = [] →
    ∃ detail, check.run input = .ok ⟨.pass, detail⟩

theorem isEmpty_sorted (texts : List String) :
    (Text.sorted texts).isEmpty = texts.isEmpty := by
  have hlength : (Text.sorted texts).length = texts.length :=
    (List.mergeSort_perm texts _).length_eq
  rw [Bool.eq_iff_iff, List.isEmpty_iff_length_eq_zero, List.isEmpty_iff_length_eq_zero, hlength]

theorem sorted_nil : Text.sorted [] = [] := List.mergeSort_nil

/-! ## Signatures -/

theorem isSome_parametersOf_iff {signatures : List Signature} {name : String} :
    (parametersOf signatures name).isSome = true ↔ name ∈ signatures.map Signature.name := by
  unfold parametersOf
  rw [Option.isSome_map, List.find?_isSome, List.mem_map]
  simp only [beq_iff_eq]

theorem status_compareSignatures_eq_pass_iff {before after : List Signature} :
    (compareSignatures before after).status = .pass ↔
      ∀ name, (parametersOf before name).isSome = true →
        parametersOf after name = parametersOf before name := by
  have hverdict : (compareSignatures before after).status = .pass ↔
      ((before.map Signature.name).filter fun name => !(parametersOf after name).isSome) = [] ∧
        ((before.map Signature.name).filter fun name => (parametersOf after name).isSome &&
          parametersOf before name != parametersOf after name) = [] := by
    rw [← List.isEmpty_iff, ← List.isEmpty_iff, ← Bool.and_eq_true]
    unfold compareSignatures
    simp only [isEmpty_sorted]
    split
    · rename_i hempty
      exact ⟨fun _ => hempty, fun _ => rfl⟩
    · rename_i hproblem
      exact ⟨nofun, fun hempty => absurd hempty hproblem⟩
  rw [hverdict, List.filter_eq_nil_iff, List.filter_eq_nil_iff, ← forall₂_and]
  simp only [isSome_parametersOf_iff]
  refine forall₂_congr fun name hname => ?_
  obtain ⟨ps, hbefore⟩ := Option.isSome_iff_exists.mp (isSome_parametersOf_iff.mpr hname)
  rw [hbefore]
  cases parametersOf after name with
  | none => simp
  | some qs => simpa using eq_comm

theorem compareSignatures_self (signatures : List Signature) :
    ∃ detail, compareSignatures signatures signatures = ⟨.pass, detail⟩ := by
  have hstatus : (compareSignatures signatures signatures).status = .pass :=
    status_compareSignatures_eq_pass_iff.mpr fun _ _ => rfl
  exact ⟨_, by rw [← hstatus]⟩

theorem signatures_passesUnchanged : signatures.PassesUnchanged := by
  intro input hnew _
  obtain ⟨detail, hdetail⟩ := compareSignatures_self input.old.publicSignatures
  exact ⟨detail, by simp only [signatures, hnew, hdetail]⟩

/-! ## Exposure -/

theorem introduced_eq_nil_iff {old new : List Trace} :
    introduced old new = [] ↔ (new.map Trace.print).Subperm (old.map Trace.print) := by
  have hsorted : introduced old new = [] ↔
      (Tally.ofList (new.map Trace.print)).diff (Tally.ofList (old.map Trace.print)) = [] := by
    rw [← List.map_eq_nil_iff (f := Prod.fst), ← List.length_eq_zero_iff, ← List.length_eq_zero_iff]
    unfold introduced
    rw [List.length_mergeSort]
  rw [hsorted, Tally.diff_ofList_eq_nil_iff]

theorem introduced_self (traces : List Trace) : introduced traces traces = [] :=
  introduced_eq_nil_iff.mpr (List.Subperm.refl _)

theorem security_passesUnchanged : security.PassesUnchanged := by
  intro input hnew _
  refine ⟨"no new secrets or sensitive logging", ?_⟩
  simp only [security, compareExposure, hnew, introduced_self]
  rfl

/-! ## Counts -/

theorem complexity_passesUnchanged : complexity.PassesUnchanged := by
  intro input hnew _
  simp only [complexity, hnew, Nat.lt_irrefl, if_false]
  exact ⟨_, rfl⟩

theorem errorHandling_passesUnchanged : errorHandling.PassesUnchanged := by
  intro input hnew _
  simp only [errorHandling, hnew, Nat.lt_irrefl, if_false]
  exact ⟨_, rfl⟩

theorem calls_passesUnchanged : calls.PassesUnchanged := by
  intro input hnew _
  have hdropped : (input.old.externalCalls.filter fun name =>
      !(input.old.externalCalls ++ input.old.definedNames).contains name) = [] := by
    rw [List.filter_eq_nil_iff]
    intro name hname
    simp [hname]
  simp only [calls, hnew, hdropped, sorted_nil]
  exact ⟨_, rfl⟩

/-! ## The target -/

theorem issueTarget_passesUnchanged : issueTarget.PassesUnchanged := by
  intro input _ hchanges
  cases htype : input.request.issueType with
  | none => exact ⟨"no target issue", by simp only [issueTarget, htype]⟩
  | some type =>
      refine ⟨"code unchanged", ?_⟩
      simp only [issueTarget, htype, hchanges]
      rfl

/-! ## All checks -/

theorem passesUnchanged_of_mem_standard {check : RiskCheck} (h : check ∈ standard) :
    check.PassesUnchanged := by
  simp only [standard, List.mem_cons, List.not_mem_nil, or_false] at h
  rcases h with rfl | rfl | rfl | rfl | rfl | rfl
  · exact signatures_passesUnchanged
  · exact security_passesUnchanged
  · exact complexity_passesUnchanged
  · exact errorHandling_passesUnchanged
  · exact calls_passesUnchanged
  · exact issueTarget_passesUnchanged

theorem map_layer_of_unchanged {checks : List RiskCheck}
    (h : ∀ check ∈ checks, check.PassesUnchanged) (input : RiskInput)
    (hnew : input.new = input.old) (hchanges : input.changes = []) :
    ((checks.map fun check => check.layer input).map fun l => (l.name, l.status)) =
      checks.map fun check => (check.name, .pass) := by
  rw [List.map_map]
  apply List.map_congr_left
  intro check hcheck
  obtain ⟨detail, hrun⟩ := h check hcheck input hnew hchanges
  simp only [Function.comp_apply, layer, hrun]

end CodeHealth.RiskCheck
