import CodeHealth.Proofs.Refactor.Check
import CodeHealth.Proofs.Refactor.Outcome

/-!
# Verification of unchanged code

A candidate that is the old code passes every layer.
-/

namespace CodeHealth

variable {grammar : Grammar} {budget : Int} {tree : SourceTree}

theorem computeChanges_self (hbudget : (2 * (lineUnits tree.root).length : Nat) ≤ budget) :
    computeChanges tree tree budget = .ok [] :=
  computeChanges_of_map_key_eq rfl (by omega)

namespace Verification

theorem checkSyntax_unchanged {v : Verification} (hcode : v.newCode = v.request.oldCode)
    (htree : parseStrict grammar v.options.maxAstNodes v.request.oldCode
      (some v.request.language) v.request.filePath = .ok tree) :
    checkSyntax grammar v = .ok ⟨tree, tree⟩ := by
  have htrees : readTrees grammar v = .ok ⟨tree, tree⟩ := by
    unfold readTrees
    simp only [hcode, parse_of_parseStrict htree, htree]
    rfl
  unfold checkSyntax
  simp only [htrees, Bool.and_not_self]
  rfl

/-- Checks that pass unchanged code let a candidate through that is the old code. -/
theorem run_unchanged {checks : List RiskCheck}
    (hchecks : ∀ check ∈ checks, check.PassesUnchanged) {options : Options}
    {request : VerificationRequest} (hcode : Fence.strip request.newCode = request.oldCode)
    (htree : parseStrict grammar options.maxAstNodes request.oldCode (some request.language)
      request.filePath = .ok tree)
    (hbudget : (2 * (lineUnits tree.root).length : Nat) ≤ options.maxDiffUnits) :
    ∃ v, run grammar checks (start options request) = .ok v ∧ v.request = request ∧
      v.changes = [] ∧ v.layers.map (fun l => (l.name, l.status)) =
        ("syntax", .pass) :: ("structure", .pass) :: checks.map fun check =>
          (check.name, .pass) := by
  have hread : checkSyntax grammar (start options request) = .ok ⟨tree, tree⟩ :=
    checkSyntax_unchanged hcode htree
  have hchanges : computeChanges tree tree (readable options request).options.maxDiffUnits =
      .ok [] := computeChanges_self hbudget
  have hpassed := RiskCheck.map_layer_of_unchanged hchecks ⟨request, options, tree, tree, []⟩
    rfl rfl
  refine ⟨_, run_of_compare hread (compare_of_ok rfl hchanges) rfl, rfl, rfl, ?_⟩
  rw [List.map_append]
  exact congrArg (_ ++ ·) hpassed

end Verification

/-- A candidate that is the old code is verified. -/
theorem verify_unchanged (grammar : Grammar) (options : Options) (request : VerificationRequest)
    {tree : SourceTree} (hcode : Fence.strip request.newCode = request.oldCode)
    (htree : parseStrict grammar options.maxAstNodes request.oldCode (some request.language)
      request.filePath = .ok tree)
    (hbudget : (2 * (lineUnits tree.root).length : Nat) ≤ options.maxDiffUnits) :
    ∃ s, verify grammar options RiskCheck.standard request = .ok s ∧ s.changes = [] ∧
      s.layers.map (fun l => (l.name, l.status)) =
        ["syntax", "structure", "signatures", "security", "complexity", "error_handling", "calls",
          "issue_target"].map (fun name => (name, .pass)) ∧
      s.badge = .verified ∧ s.isVerified = true ∧
      s.confidence = request.confidence.elim 95 (min 95) := by
  obtain ⟨v, hrun, hrequest, hchanges, hlayers⟩ := Verification.run_unchanged
    (fun _ => RiskCheck.passesUnchanged_of_mem_standard) hcode htree hbudget
  have hstatuses : v.layers.map ValidationLayer.status = List.replicate 8 .pass := by
    have hpassed := congrArg (List.map Prod.snd) hlayers
    rw [List.map_map] at hpassed
    exact hpassed
  have hbadge : v.badge = .verified := by
    unfold Verification.badge
    rw [hstatuses]
    rfl
  refine ⟨v.suggestion, ?_, hchanges, hlayers, hbadge, ?_, ?_⟩
  · unfold verify
    rw [hrun]
    rfl
  · simp only [Verification.suggestion, hbadge]
    rfl
  · simp only [Verification.suggestion, Verification.confidence, hbadge, hrequest]
    cases request.confidence <;> rfl

/-- A request to verify `x=>(y)` in a fence as a change of itself. -/
def unchangedRequest : VerificationRequest :=
  { oldCode := "x=>(y)\n", newCode := "\x60\x60\x60js\nx=>(y)\n\x60\x60\x60"
    language := "javascript", filePath := "a.js", issueId := none
    issueType := some .longMethod, explanation := "", confidence := some 80 }

theorem unchangedRequest_verified :
    ∃ s, verify (fun _ _ => .ok arrowTree) {} RiskCheck.standard unchangedRequest = .ok s ∧
      s.changes = [] ∧ s.badge = .verified ∧ s.confidence = 80 := by
  obtain ⟨tree, htree⟩ : ∃ tree, tree = SourceTree.ofGrammar defaultNodeBudget
    unchangedRequest.oldCode "a.js" .javascript arrowTree := ⟨_, rfl⟩
  have hunits := length_lineUnits_le tree.root
  have htokens : (placedTokens tree.root).length = 5 := by
    rw [htree]
    decide
  have hbudget : ({} : Options).maxDiffUnits = 20000 := rfl
  have hparse : parseStrict (fun _ _ => .ok arrowTree) ({} : Options).maxAstNodes
      unchangedRequest.oldCode (some unchangedRequest.language) unchangedRequest.filePath =
        .ok tree := by
    rw [htree]
    rfl
  obtain ⟨s, hs, hchanges, -, hbadge, -, hconfidence⟩ :=
    verify_unchanged (fun _ _ => .ok arrowTree) {} unchangedRequest (by decide) hparse (by omega)
  exact ⟨s, hs, hchanges, hbadge, hconfidence⟩

end CodeHealth
