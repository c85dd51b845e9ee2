import CodeHealth.Proofs.Refactor.Outcome

/-!
# Findings of a verification

What a verification finds, in closed form: the changes and the layers, from which its suggestion is
made. Two verifications of requests with the same texts agree exactly if they find the same.
-/

namespace CodeHealth

variable {grammar : Grammar} {options : Options} {checks : List RiskCheck}
  {request : VerificationRequest}

namespace Verification

/-- The changes and the layers that a verification comes to. -/
@[ext]
structure Findings where
  changes : List LineChange
  layers : List ValidationLayer

/-- The suggestion that is made of them. -/
def Findings.suggestion (f : Findings) (request : VerificationRequest) : Suggestion :=
  { start {} request with changes := f.changes, layers := f.layers : Verification }.suggestion

/-- What is found where both texts could be read. -/
def treeFindings (options : Options) (checks : List RiskCheck) (request : VerificationRequest)
    (trees : Trees) : Findings :=
  match computeChanges trees.old trees.new options.maxDiffUnits with
  | .error e =>
    ⟨[], [⟨"syntax", .pass, "refactored code parses cleanly"⟩,
      ⟨"structure", .fail, s!"diff budget exceeded: {e.message}"⟩]⟩
  | .ok changes =>
    ⟨changes, [⟨"syntax", .pass, "refactored code parses cleanly"⟩,
      ⟨"structure", .pass, describeChanges changes⟩] ++ checks.map fun check =>
        check.layer ⟨request, options, trees.old, trees.new, changes⟩⟩

/-- What is found for a request. -/
def findings (grammar : Grammar) (options : Options) (checks : List RiskCheck)
    (request : VerificationRequest) : Findings :=
  match checkSyntax grammar (start options request) with
  | .error detail => ⟨[], [⟨"syntax", .fail, detail⟩]⟩
  | .ok trees => treeFindings options checks request trees

/-- A verification ends with the suggestion that its findings make. -/
theorem exists_run_findings (grammar : Grammar) (options : Options) (checks : List RiskCheck)
    (request : VerificationRequest) :
    ∃ v, run grammar checks (start options request) = .ok v ∧
      v.suggestion = (findings grammar options checks request).suggestion request := by
  unfold findings
  cases htrees : checkSyntax grammar (start options request) with
  | error detail =>
      refine ⟨{ start options request with
        state := .badged
        layers := [⟨"syntax", .fail, detail⟩] }, ?_, rfl⟩
      unfold run
      simp only [htrees]
      rfl
  | ok trees =>
      unfold treeFindings
      dsimp only
      cases hchanges : computeChanges trees.old trees.new options.maxDiffUnits with
      | error e => exact ⟨_, run_of_compare htrees (compare_of_error hchanges) rfl, rfl⟩
      | ok changes => exact ⟨_, run_of_compare htrees (compare_of_ok rfl hchanges) rfl, rfl⟩

end Verification

theorem verify_eq_suggestion (grammar : Grammar) (options : Options) (checks : List RiskCheck)
    (request : VerificationRequest) :
    verify grammar options checks request =
      .ok ((Verification.findings grammar options checks request).suggestion request) := by
  obtain ⟨v, hrun, hsuggestion⟩ :=
    Verification.exists_run_findings grammar options checks request
  unfold verify
  rw [hrun, ← hsuggestion]
  rfl

end CodeHealth
