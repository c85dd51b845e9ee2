import CodeHealth.Proofs.Except
import CodeHealth.Proofs.Refactor.Change
import CodeHealth.Proofs.Tree.Lines
import CodeHealth.Refactor.Verify

/-!
# Outcomes of a verification

A verification comes to its badge whatever the texts, the grammar and the checks are: either the
texts cannot be read, or they are too long to be compared, or every check has given its layer. Lines
are looked up where they are, and the suggestion is a valid record.
-/

namespace CodeHealth

variable {grammar : Grammar} {budget : Int} {text path : String} {hint : Option String}
  {ast : SourceTree} {options : Options} {checks : List RiskCheck}
  {request : VerificationRequest}

theorem parse_of_parseStrict (h : parseStrict grammar budget text hint path = .ok ast) :
    parse grammar budget text hint path = .ok ast := by
  obtain ⟨tree, hparse, hclean⟩ := bind_eq_ok_iff.mp h
  unfold SourceTree.requireClean at hclean
  split at hclean
  · exact nomatch hclean
  · split at hclean
    · exact nomatch hclean
    · rw [hparse, Except.ok.inj hclean]

/-! ## Badges -/

namespace Badge

variable {statuses : List LayerStatus}

theorem ofStatuses_eq_failed_iff :
    ofStatuses statuses = .failed ↔ statuses = [] ∨ .fail ∈ statuses := by
  have hfirst : (statuses.isEmpty || statuses.contains .fail) = true ↔
      statuses = [] ∨ .fail ∈ statuses := by simp
  rw [← hfirst]
  unfold ofStatuses
  split
  · rename_i hfail
    exact ⟨fun _ => hfail, fun _ => rfl⟩
  · rename_i hfail
    refine ⟨fun hbadge => ?_, fun h => absurd h hfail⟩
    split at hbadge <;> exact nomatch hbadge

theorem ofStatuses_eq_verified_iff :
    ofStatuses statuses = .verified ↔ statuses ≠ [] ∧ ∀ s ∈ statuses, s = .pass := by
  unfold ofStatuses
  split
  · rename_i hfirst
    simp only [Bool.or_eq_true, List.isEmpty_iff, List.contains_iff_mem] at hfirst
    refine ⟨fun h => absurd h (by decide), fun ⟨hne, hpass⟩ => ?_⟩
    rcases hfirst with hnil | hfail
    · exact absurd hnil hne
    · exact absurd (hpass _ hfail) (by decide)
  · rename_i hfirst
    simp only [Bool.or_eq_true, List.isEmpty_iff, List.contains_iff_mem, not_or] at hfirst
    split
    · rename_i hall
      simp only [List.all_eq_true, beq_iff_eq] at hall
      exact ⟨fun _ => ⟨hfirst.1, hall⟩, fun _ => rfl⟩
    · rename_i hall
      simp only [List.all_eq_true, beq_iff_eq] at hall
      exact ⟨fun h => absurd h (by decide), fun h => absurd h.2 hall⟩

end Badge

/-- The badge of a suggestion and what follows from it. -/
structure Suggestion.Graded (request : VerificationRequest) (s : Suggestion) : Prop where
  failed_iff : s.badge = .failed ↔ ∃ l ∈ s.layers, l.status = .fail
  verified_iff : s.badge = .verified ↔ ∀ l ∈ s.layers, l.status = .pass
  warning_iff : s.badge = .warning ↔
    (∀ l ∈ s.layers, l.status ≠ .fail) ∧ ∃ l ∈ s.layers, l.status ≠ .pass
  isVerified_iff : s.isVerified = true ↔ s.badge = .verified
  confidence_eq : s.confidence = request.confidence.elim s.badge.confidence
    (min s.badge.confidence)

theorem Verification.graded_suggestion {v : Verification} (h : v.layers ≠ []) :
    v.suggestion.Graded v.request := by
  have hbadge : v.suggestion.badge = .ofStatuses (v.layers.map ValidationLayer.status) := rfl
  have hfailed : v.suggestion.badge = .failed ↔ ∃ l ∈ v.layers, l.status = .fail := by
    rw [hbadge, Badge.ofStatuses_eq_failed_iff]
    simp [h]
  have hverified : v.suggestion.badge = .verified ↔ ∀ l ∈ v.layers, l.status = .pass := by
    rw [hbadge, Badge.ofStatuses_eq_verified_iff]
    simp [h]
  have hwarning : v.suggestion.badge = .warning ↔
      v.suggestion.badge ≠ .failed ∧ v.suggestion.badge ≠ .verified := by
    cases v.suggestion.badge <;> simp
  exact
    { failed_iff := hfailed
      verified_iff := hverified
      warning_iff := by
        rw [hwarning, ne_eq, ne_eq, hfailed, hverified]
        simp [Verification.suggestion]
      isVerified_iff := beq_iff_eq
      confidence_eq := by
        simp only [Verification.suggestion, Verification.confidence]
        cases v.request.confidence <;> rfl }

/-! ## Lines -/

/-- Every unit stands on a line of the text. -/
def SourceTree.HasUnitLines (ast : SourceTree) : Prop :=
  ∀ u ∈ lineUnits ast.root, 1 ≤ u.line ∧ u.line ≤ ast.lines.length

theorem hasUnitLines_of_parse (h : parse grammar budget text hint path = .ok ast) :
    ast.HasUnitLines := by
  intro u hu
  have hline : u.line ∈ unitLines (placedTokens ast.root) := by
    rw [← map_line_lineUnits]
    exact List.mem_map_of_mem hu
  obtain ⟨t, ht, hline⟩ := mem_unitLines.mp hline
  obtain ⟨leaf, hleaf, -, -, hstart⟩ := exists_mem_collect_tokenStep_iff.mp ⟨t, ht, hline, rfl⟩
  rw [← hstart]
  exact (within_of_parseAs h hleaf).startsWithin

/-- What a record of a suggestion is checked for. -/
structure Suggestion.Valid (s : Suggestion) : Prop where
  confidence_le : s.confidence ≤ 100
  lineNumber_pos : ∀ c ∈ s.changes, 1 ≤ c.lineNumber

theorem lineNumber_pos_of_computeChanges {before after : SourceTree} {changes : List LineChange}
    (hbefore : before.HasUnitLines) (hafter : after.HasUnitLines)
    (h : computeChanges before after budget = .ok changes) {c : LineChange} (hc : c ∈ changes) :
    1 ≤ c.lineNumber := by
  have hscript := editScript_of_computeChanges h
  by_cases htype : c.type = .remove
  · have hmem : c.lineNumber ∈ removedLines changes :=
      List.mem_map_of_mem (List.mem_filter.mpr ⟨hc, by simp [htype]⟩)
    obtain ⟨u, hu, hline⟩ := List.mem_map.mp (hscript.sublist_removedLines.subset hmem)
    rw [← hline]
    exact (hbefore u hu).1
  · have hmem : c.lineNumber ∈ writtenLines changes :=
      List.mem_map_of_mem (List.mem_filter.mpr ⟨hc, by simp [htype]⟩)
    obtain ⟨u, hu, hline⟩ := List.mem_map.mp (hscript.sublist_writtenLines.subset hmem)
    rw [← hline]
    exact (hafter u hu).1

/-! ## Runs -/

/-- What the layer of a check says: it has the check's name, and a check that fails counts against
the candidate. -/
def RiskCheck.Reports (input : RiskInput) (check : RiskCheck) (layer : ValidationLayer) : Prop :=
  layer.name = check.name ∧
    match check.run input with
    | .ok verdict => layer.status = verdict.status ∧ layer.detail = verdict.detail
    | .error _ => layer.status = .fail

theorem RiskCheck.reports_layer (input : RiskInput) (check : RiskCheck) :
    check.Reports input (check.layer input) := by
  unfold Reports layer
  cases check.run input with
  | ok verdict => exact ⟨rfl, rfl, rfl⟩
  | error message => exact ⟨rfl, rfl⟩

namespace Verification

/-- How a verification ends, and why: with which changes and which layers. -/
inductive Outcome (grammar : Grammar) (options : Options) (checks : List RiskCheck)
    (request : VerificationRequest) : List LineChange → List ValidationLayer → Prop
  | refused {detail : String}
      (htrees : checkSyntax grammar (start options request) = .error detail) :
      Outcome grammar options checks request [] [⟨"syntax", .fail, detail⟩]
  | unaligned {trees : Trees} {e : DiffBudgetExceeded}
      (htrees : checkSyntax grammar (start options request) = .ok trees)
      (hchanges : computeChanges trees.old trees.new options.maxDiffUnits = .error e) :
      Outcome grammar options checks request []
        [⟨"syntax", .pass, "refactored code parses cleanly"⟩,
          ⟨"structure", .fail, s!"diff budget exceeded: {e.message}"⟩]
  | scored {trees : Trees} {changes : List LineChange} {risks : List ValidationLayer}
      (htrees : checkSyntax grammar (start options request) = .ok trees)
      (hlines : trees.old.HasUnitLines ∧ trees.new.HasUnitLines)
      (hchanges : computeChanges trees.old trees.new options.maxDiffUnits = .ok changes)
      (hrisks : List.Forall₂ (RiskCheck.Reports ⟨request, options, trees.old, trees.new, changes⟩)
        checks risks) :
      Outcome grammar options checks request changes
        (⟨"syntax", .pass, "refactored code parses cleanly"⟩ ::
          ⟨"structure", .pass, describeChanges changes⟩ :: risks)

theorem of_checkSyntax {v : Verification} {trees : Trees}
    (h : checkSyntax grammar v = .ok trees) :
    parse grammar v.options.maxAstNodes v.request.oldCode (some v.request.language)
        v.request.filePath = .ok trees.old ∧
      parseStrict grammar v.options.maxAstNodes v.newCode (some v.request.language)
        v.request.filePath = .ok trees.new ∧
      (trees.old.hasCode = true → trees.new.hasCode = true) := by
  unfold checkSyntax at h
  split at h
  · exact nomatch h
  · rename_i trees' hread
    obtain ⟨old, hold, hread⟩ := bind_eq_ok_iff.mp hread
    obtain ⟨new, hnew, hread⟩ := bind_eq_ok_iff.mp hread
    obtain rfl := Except.ok.inj hread
    split at h
    · exact nomatch h
    · rename_i hcode
      obtain rfl := Except.ok.inj h
      exact ⟨hold, hnew, by simpa using hcode⟩

theorem hasUnitLines_of_checkSyntax {v : Verification} {trees : Trees}
    (h : checkSyntax grammar v = .ok trees) :
    trees.old.HasUnitLines ∧ trees.new.HasUnitLines := by
  obtain ⟨hold, hnew, -⟩ := of_checkSyntax h
  exact ⟨hasUnitLines_of_parse hold, hasUnitLines_of_parse (parse_of_parseStrict hnew)⟩

theorem checkSyntax_eq {old new : SourceTree}
    (hold : parse grammar options.maxAstNodes request.oldCode (some request.language)
      request.filePath = .ok old)
    (hnew : parseStrict grammar options.maxAstNodes (Fence.strip request.newCode)
      (some request.language) request.filePath = .ok new) :
    checkSyntax grammar (start options request) =
      if old.hasCode && !new.hasCode then .error "refactored code is empty"
      else .ok ⟨old, new⟩ := by
  have htrees : readTrees grammar (start options request) = .ok ⟨old, new⟩ := by
    unfold readTrees
    simp only [start, hold, hnew]
    rfl
  unfold checkSyntax
  rw [htrees]

theorem compare_of_error {v : Verification} {trees : Trees} {e : DiffBudgetExceeded}
    (hchanges : computeChanges trees.old trees.new v.options.maxDiffUnits = .error e) :
    compare checks v trees =
      .ok (v.addLayer "structure" .fail s!"diff budget exceeded: {e.message}") := by
  unfold compare
  rw [hchanges]

theorem compare_of_ok {v : Verification} {trees : Trees} {changes : List LineChange}
    (hstate : v.state = .syntaxChecked)
    (hchanges : computeChanges trees.old trees.new v.options.maxDiffUnits = .ok changes) :
    compare checks v trees =
      .ok { v with
        state := .riskScored
        changes
        layers := v.layers ++ [⟨"structure", .pass, describeChanges changes⟩] ++
          checks.map fun check =>
            check.layer ⟨v.request, v.options, trees.old, trees.new, changes⟩ } := by
  unfold compare
  simp only [hchanges, addLayer, advance, hstate]
  rfl

/-- A verification whose texts could be read. -/
def readable (options : Options) (request : VerificationRequest) : Verification :=
  { start options request with
    state := .syntaxChecked
    layers := [⟨"syntax", .pass, "refactored code parses cleanly"⟩] }

theorem run_of_compare {trees : Trees} {v w : Verification}
    (htrees : checkSyntax grammar (start options request) = .ok trees)
    (hcompare : compare checks (readable options request) trees = .ok v)
    (hbadge : v.advance .badged = .ok w) : run grammar checks (start options request) = .ok w := by
  have hrun : run grammar checks (start options request) =
      compare checks (readable options request) trees >>= fun v => v.advance .badged := by
    unfold run
    simp only [htrees]
    rfl
  rw [hrun, hcompare]
  exact hbadge

/-- A verification goes through its states in order and comes to one of its outcomes. -/
theorem exists_run (grammar : Grammar) (options : Options) (checks : List RiskCheck)
    (request : VerificationRequest) :
    ∃ v, run grammar checks (start options request) = .ok v ∧ v.state = .badged ∧
      v.request = request ∧ Outcome grammar options checks request v.changes v.layers := by
  cases htrees : checkSyntax grammar (start options request) with
  | error detail =>
      refine ⟨{ start options request with
        state := .badged
        layers := [⟨"syntax", .fail, detail⟩] }, ?_, rfl, rfl, .refused htrees⟩
      unfold run
      simp only [htrees]
      rfl
  | ok trees =>
      cases hchanges : computeChanges trees.old trees.new options.maxDiffUnits with
      | error e =>
          exact ⟨_, run_of_compare htrees (compare_of_error hchanges) rfl, rfl, rfl,
            .unaligned htrees hchanges⟩
      | ok changes =>
          have hrisks : List.Forall₂
              (RiskCheck.Reports ⟨request, options, trees.old, trees.new, changes⟩) checks
              (checks.map fun check =>
                check.layer ⟨request, options, trees.old, trees.new, changes⟩) := by
            rw [List.forall₂_map_right_iff, List.forall₂_same]
            exact fun check _ => check.reports_layer _
          exact ⟨_, run_of_compare htrees (compare_of_ok rfl hchanges) rfl, rfl, rfl,
            .scored htrees (hasUnitLines_of_checkSyntax htrees) hchanges hrisks⟩

theorem Outcome.layers_ne_nil {changes : List LineChange} {layers : List ValidationLayer}
    (h : Outcome grammar options checks request changes layers) : layers ≠ [] := by
  cases h <;> exact List.cons_ne_nil _ _

theorem Outcome.lineNumber_pos {changes : List LineChange} {layers : List ValidationLayer}
    (h : Outcome grammar options checks request changes layers) {c : LineChange}
    (hc : c ∈ changes) : 1 ≤ c.lineNumber := by
  cases h with
  | refused => exact absurd hc List.not_mem_nil
  | unaligned => exact absurd hc List.not_mem_nil
  | scored _ hlines hchanges =>
      exact lineNumber_pos_of_computeChanges hlines.1 hlines.2 hchanges hc

theorem confidence_le (v : Verification) : v.confidence ≤ 100 := by
  have hbadge : v.badge.confidence ≤ 100 := by cases v.badge <;> decide
  unfold confidence
  cases v.request.confidence with
  | none => exact hbadge
  | some most => exact Nat.le_trans (Nat.min_le_left _ _) hbadge

end Verification

/-- Whatever a request asks for, it is answered by a suggestion, and the verification has then come
to its last state. -/
theorem verify_outcome (grammar : Grammar) (options : Options) (checks : List RiskCheck)
    (request : VerificationRequest) :
    ∃ v, Verification.run grammar checks (.start options request) = .ok v ∧ v.state = .badged ∧
      verify grammar options checks request = .ok v.suggestion ∧
      Verification.Outcome grammar options checks request v.suggestion.changes
        v.suggestion.layers ∧
      v.suggestion.Graded request ∧ v.suggestion.Valid := by
  obtain ⟨v, hrun, hstate, hrequest, houtcome⟩ :=
    Verification.exists_run grammar options checks request
  have hgraded := Verification.graded_suggestion houtcome.layers_ne_nil
  rw [hrequest] at hgraded
  refine ⟨v, hrun, hstate, ?_, houtcome, hgraded, v.confidence_le, fun _ => ?_⟩
  · unfold verify
    rw [hrun]
    rfl
  · exact houtcome.lineNumber_pos

end CodeHealth
