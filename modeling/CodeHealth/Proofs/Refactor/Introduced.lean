import CodeHealth.Proofs.Refactor.Exposure
import CodeHealth.Proofs.Sorting
import Mathlib.Algebra.Order.BigOperators.Group.List
import Mathlib.Data.Prod.Lex
import Mathlib.Data.String.Basic

/-!
# What comes in

The fingerprints that come in with a candidate are those that it has more often than the old code.
Leaving out some fingerprints on both sides leaves these out of what comes in, and the verdict tells
whether any was left out.
-/

namespace CodeHealth

/-! ## Joined texts -/

namespace Text

variable {α : Type} {sep : String} {xs : List α} {keep : α → Bool}

theorem length_intercalate_map (sep : String) (f : α → String) (h : xs ≠ []) :
    (sep.intercalate (xs.map f)).length + sep.length =
      (xs.map fun x => (f x).length + sep.length).sum := by
  induction xs with
  | nil => exact absurd rfl h
  | cons x xs ih =>
      by_cases hxs : xs = []
      · subst hxs
        simp
      · have hrest : xs.map f ≠ [] := fun hnil => hxs (List.map_eq_nil_iff.mp hnil)
        rw [List.map_cons, String.intercalate_cons_of_ne_nil hrest, String.length_append,
          String.length_append, List.map_cons, List.sum_cons, ← ih hxs]
        omega

/-- A joined text gets shorter where some parts, but not all, are left out. -/
theorem length_intercalate_filter_lt (hsep : 0 < sep.length) (f : α → String)
    (hkept : xs.filter keep ≠ []) {x : α} (hx : x ∈ xs) (hleft : keep x = false) :
    (sep.intercalate ((xs.filter keep).map f)).length < (sep.intercalate (xs.map f)).length := by
  have hsplit := ((List.filter_append_perm keep xs).map fun y => (f y).length + sep.length).sum_eq
  have hmem : (f x).length + sep.length ∈
      (xs.filter fun y => !keep y).map fun y => (f y).length + sep.length :=
    List.mem_map_of_mem (List.mem_filter.mpr ⟨hx, by rw [hleft]; rfl⟩)
  have hle := List.le_sum_of_mem hmem
  have hsome := length_intercalate_map sep f hkept
  have hall := length_intercalate_map sep f (List.ne_nil_of_mem hx)
  rw [List.map_append, List.sum_append] at hsplit
  omega

end Text

/-! ## Fingerprints -/

namespace RiskCheck

variable {old new : List Trace} {print : Fingerprint}

def Fingerprint.key (p : Fingerprint) : String ×ₗ String ×ₗ String :=
  toLex (p.type, toLex (p.rule, p.value))

theorem Fingerprint.le_iff {a b : Fingerprint} : a.le b = true ↔ a.key ≤ b.key := by
  unfold le key
  simp only [lt_or_eq_and_iff, Prod.Lex.toLex_le_toLex, decide_eq_true_eq]

theorem Fingerprint.key_injective : Function.Injective Fingerprint.key := by
  rintro ⟨type, rule, value⟩ ⟨type', rule', value'⟩ h
  simpa [key] using h

theorem mem_introduced_iff :
    print ∈ introduced old new ↔
      (old.map Trace.print).count print < (new.map Trace.print).count print := by
  unfold introduced
  rw [List.mem_mergeSort, Tally.mem_diff_ofList_iff]

/-- Leaving out fingerprints on both sides leaves them out of what comes in. -/
theorem introduced_filter (keep : Fingerprint → Bool) (old new : List Trace) :
    introduced (old.filter fun t => keep t.print) (new.filter fun t => keep t.print) =
      (introduced old new).filter keep := by
  have hnodup : ∀ xs ys : List Fingerprint,
      (((Tally.ofList xs).diff (Tally.ofList ys)).map Prod.fst).Nodup := Tally.nodup_diff_ofList
  have hprints : ∀ traces : List Trace, (traces.filter fun t => keep t.print).map Trace.print =
      (traces.map Trace.print).filter keep := fun traces => List.filter_map.symm
  have hle : ∀ a b : Fingerprint, a.le b = true ↔ a.key ≤ b.key := fun _ _ => Fingerprint.le_iff
  unfold introduced
  rw [filter_mergeSort hle ((hnodup _ _).map Fingerprint.key_injective)]
  apply mergeSort_eq_of_perm hle ((hnodup _ _).map Fingerprint.key_injective)
  rw [List.perm_ext_iff_of_nodup (hnodup _ _) ((hnodup _ _).filter keep)]
  intro p
  rw [List.mem_filter, Tally.mem_diff_ofList_iff, Tally.mem_diff_ofList_iff, hprints, hprints]
  cases hp : keep p with
  | true => rw [List.count_filter hp, List.count_filter hp, and_iff_left rfl]
  | false =>
      have hnone : ∀ prints : List Fingerprint, (prints.filter keep).count p = 0 := by
        intro prints
        apply List.count_eq_zero_of_not_mem
        intro hmem
        exact absurd ((List.mem_filter.mp hmem).2.symm.trans hp) (by decide)
      rw [hnone, hnone]
      simp

theorem firstLine_filter {keep : Fingerprint → Bool} (traces : List Trace)
    (h : keep print = true) :
    firstLine (traces.filter fun t => keep t.print) print = firstLine traces print := by
  have htest : (fun t : Trace => decide (keep t.print = true ∧ (t.print == print) = true)) =
      fun t => t.print == print := by
    funext t
    by_cases ht : t.print = print
    · simp [ht, h]
    · simp [ht]
  unfold firstLine
  rw [List.find?_filter, htest]

/-! ## The verdict -/

/-- How the verdict shows a secret that comes in. -/
def shownSecret (traces : List Trace) (p : Fingerprint) : String :=
  s!"{p.rule} on line {firstLine traces p}"

theorem compareExposure_of_secrets {old new : Exposure}
    (h : introduced old.secrets new.secrets ≠ []) :
    compareExposure old new =
      ⟨.fail, "new hardcoded secret introduced: " ++
        ", ".intercalate ((introduced old.secrets new.secrets).map (shownSecret new.secrets))⟩ := by
  have hsome : (introduced old.secrets new.secrets).isEmpty = false := by simpa using h
  unfold compareExposure
  dsimp only
  rw [hsome]
  rfl

/-- The exposure without some of its secrets. -/
def Exposure.keeping (e : Exposure) (keep : Fingerprint → Bool) : Exposure :=
  ⟨e.secrets.filter fun t => keep t.print, e.logging⟩

/-- The verdict is the same without some secrets exactly if none of them comes in. -/
theorem compareExposure_keeping_eq_iff (keep : Fingerprint → Bool) (old new : Exposure) :
    compareExposure (old.keeping keep) (new.keeping keep) = compareExposure old new ↔
      ∀ print ∈ introduced old.secrets new.secrets, keep print = true := by
  have hkept : introduced (old.keeping keep).secrets (new.keeping keep).secrets =
      (introduced old.secrets new.secrets).filter keep := introduced_filter keep _ _
  have hshown : ((introduced old.secrets new.secrets).filter keep).map
        (shownSecret (new.keeping keep).secrets) =
      ((introduced old.secrets new.secrets).filter keep).map (shownSecret new.secrets) := by
    apply List.map_congr_left
    intro p hp
    unfold shownSecret Exposure.keeping
    rw [firstLine_filter new.secrets (List.mem_filter.mp hp).2]
  constructor
  · intro heq
    by_contra hleft
    push Not at hleft
    obtain ⟨print, hprint, hdrop⟩ := hleft
    rw [compareExposure_of_secrets (List.ne_nil_of_mem hprint)] at heq
    by_cases hnone : (introduced old.secrets new.secrets).filter keep = []
    · have hfail := congrArg Verdict.status heq
      rw [status_compareExposure_eq_fail_iff, ← introduced_eq_nil_iff] at hfail
      exact hfail (hkept.trans hnone)
    · rw [compareExposure_of_secrets (hkept ▸ hnone), hkept, hshown] at heq
      have hlength := congrArg (fun v => v.detail.length) heq
      have hsep : 0 < ", ".length := by decide
      have hlt := Text.length_intercalate_filter_lt hsep (shownSecret new.secrets) hnone hprint
        (Bool.eq_false_iff.mpr hdrop)
      simp only [String.length_append] at hlength
      omega
  · intro hall
    have hself := List.filter_eq_self.mpr hall
    rw [hself] at hkept hshown
    by_cases hnone : introduced old.secrets new.secrets = []
    · unfold compareExposure
      dsimp only
      rw [hkept, hnone]
      rfl
    · rw [compareExposure_of_secrets hnone, compareExposure_of_secrets (hkept ▸ hnone), hkept,
        hshown]

end RiskCheck

end CodeHealth
