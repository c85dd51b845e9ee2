import CodeHealth.Proofs.Refactor.Check
import CodeHealth.Proofs.Refactor.Outcome
import CodeHealth.Proofs.Security.Scan
import CodeHealth.Proofs.Text.Line

/-!
# New secrets

Which secrets a text holds is told line by line. So the check for new secrets depends on the lines
of both texts as multisets: it fails exactly when the secrets in the new lines are not among those
in the old ones, counted with their repetitions.
-/

namespace CodeHealth

variable {ast : SourceTree} {context : FileContext}

namespace RiskCheck

open Security

/-! ## Secrets of a line -/

/-- What identifies the secret that a hit of a rule on a line stands for. -/
def secretPrint? (rule : LiteralRule) (line : String) (hit : Hit) : Option Fingerprint :=
  if rule.type == .hardcodedCredentials || rule.type == .hardcodedSecrets then
    let text := Text.strip (Text.strip (redact line hit.value (rule.shownValue hit)))
    let value :=
      match rule.shownValue hit with
      | some shown => if shown == "" then text else shown
      | none => text
    some ⟨rule.type.tag, rule.id, value⟩
  else none

/-- The secrets that a line holds by itself, each by what identifies it. -/
def linePrints (language : Language) (line : String) : List Fingerprint :=
  (literalRules.filter fun rule => rule.inScope language).filterMap fun rule =>
    (rule.hit? line).bind (secretPrint? rule line)

theorem print_secretTrace?_issue (rule : LiteralRule) (options : Options) (number : Nat)
    (line : String) (hit : Hit) (ast : SourceTree) :
    (secretTrace? ((rule.finding options number line hit).issue ast)).map Trace.print =
      secretPrint? rule line hit := by
  unfold secretTrace? secretPrint? LiteralRule.finding Finding.issue
  dsimp only
  split <;> rfl

theorem filterMap_secretTrace?_checkLoggingCalls (scanner : Scanner) (ast : SourceTree)
    (context : FileContext) :
    (scanner.checkLoggingCalls ast context).filterMap secretTrace? = [] := by
  rw [List.filterMap_eq_nil_iff]
  intro i hi
  have htype := (of_mem_checkLoggingCalls hi).2
  unfold secretTrace?
  split
  · simp [htype]
  · rfl

/-- The secrets of a text are those of its lines. -/
theorem map_print_secrets_exposure (ast : SourceTree) (context : FileContext) :
    (exposure {} ast context).secrets.map Trace.print =
      ast.lines.flatMap (linePrints context.language) := by
  have hline : ∀ entry : String × Nat,
      ((lineFindings (literalRules.filter fun rule => rule.inScope context.language)
        context.options entry.2 entry.1).map (Finding.issue · ast)).filterMap
          (fun i => (secretTrace? i).map Trace.print) = linePrints context.language entry.1 := by
    intro entry
    unfold lineFindings linePrints
    rw [List.filterMap_map, List.filterMap_filterMap]
    refine List.filterMap_congr fun rule _ => ?_
    cases rule.hit? entry.1 with
    | none => rfl
    | some hit => exact print_secretTrace?_issue rule context.options entry.2 entry.1 hit ast
  unfold exposure
  dsimp only
  rw [List.filterMap_append, filterMap_secretTrace?_checkLoggingCalls, List.append_nil,
    List.map_filterMap]
  unfold Scanner.scanLines
  dsimp only
  rw [List.filterMap_flatMap]
  simp only [hline]
  rw [← List.flatMap_map, List.zipIdx_map_fst]

/-! ## The check -/

theorem status_compareExposure_eq_fail_iff {old new : Exposure} :
    (compareExposure old new).status = .fail ↔
      ¬ (new.secrets.map Trace.print).Subperm (old.secrets.map Trace.print) := by
  rw [← introduced_eq_nil_iff, ← List.isEmpty_iff]
  unfold compareExposure
  dsimp only
  split
  · rename_i hnew
    simpa using hnew
  · rename_i hnew
    have hnone : (introduced old.secrets new.secrets).isEmpty = true := by simpa using hnew
    split <;> simp [hnone]

theorem security_fail_iff (input : RiskInput) :
    (security.layer input).status = .fail ↔
      ¬ (input.new.lines.flatMap (linePrints input.fileContext.language)).Subperm
        (input.old.lines.flatMap (linePrints input.fileContext.language)) := by
  have hlayer : (security.layer input).status =
      (compareExposure (exposure {} input.old input.fileContext)
        (exposure {} input.new input.fileContext)).status := rfl
  rw [hlayer, status_compareExposure_eq_fail_iff, map_print_secrets_exposure,
    map_print_secrets_exposure]

theorem security_mem_standard : security ∈ standard := by
  simp [standard]

theorem eq_of_mem_standard {check other : RiskCheck} (h : check ∈ standard) (h' : other ∈ standard)
    (hname : check.name = other.name) : check = other := by
  have hnodup : (standard.map RiskCheck.name).Nodup := by decide
  exact List.inj_on_of_nodup_map hnodup h h' hname

end RiskCheck

/-! ## Runs -/

/-- A verification by the standard checks whose texts could be read and compared. -/
structure ScoredRun where
  grammar : Grammar
  options : Options
  request : VerificationRequest
  trees : Verification.Trees
  changes : List LineChange
  checkSyntax_eq : Verification.checkSyntax grammar (.start options request) = .ok trees
  computeChanges_eq :
    computeChanges trees.old trees.new options.maxDiffUnits = .ok changes

namespace ScoredRun

/-- What the checks compare. -/
def input (r : ScoredRun) : RiskInput :=
  ⟨r.request, r.options, r.trees.old, r.trees.new, r.changes⟩

/-- The layers of the run. -/
def layers (r : ScoredRun) : List ValidationLayer :=
  [⟨"syntax", .pass, "refactored code parses cleanly"⟩,
    ⟨"structure", .pass, Verification.describeChanges r.changes⟩] ++
      RiskCheck.standard.map fun check => check.layer r.input

/-- The run ends with a failed layer of the check for new secrets. -/
def FailsSecurity (r : ScoredRun) : Prop :=
  ∃ s, verify r.grammar r.options RiskCheck.standard r.request = .ok s ∧
    ∃ l ∈ s.layers, l.name = RiskCheck.security.name ∧ l.status = .fail

/-- The run ends with a badge. -/
def Earns (r : ScoredRun) (badge : Badge) : Prop :=
  ∃ s, verify r.grammar r.options RiskCheck.standard r.request = .ok s ∧ s.badge = badge

theorem exists_suggestion (r : ScoredRun) :
    ∃ s, verify r.grammar r.options RiskCheck.standard r.request = .ok s ∧
      s.layers = r.layers ∧ s.Graded r.request := by
  obtain ⟨v, hrun, hrequest, hlayers⟩ : ∃ v,
      Verification.run r.grammar RiskCheck.standard (.start r.options r.request) = .ok v ∧
        v.request = r.request ∧ v.layers = r.layers :=
    ⟨_, Verification.run_of_compare r.checkSyntax_eq
      (Verification.compare_of_ok rfl r.computeChanges_eq) rfl, rfl, rfl⟩
  have hgraded : v.suggestion.Graded v.request := by
    apply Verification.graded_suggestion
    rw [hlayers]
    exact List.cons_ne_nil _ _
  rw [hrequest] at hgraded
  refine ⟨v.suggestion, ?_, hlayers, hgraded⟩
  unfold verify
  rw [hrun]
  rfl

/-- A run ends with a failed layer of a check exactly if this check fails. -/
theorem exists_failed_iff (r : ScoredRun) {check : RiskCheck}
    (hcheck : check ∈ RiskCheck.standard) :
    (∃ s, verify r.grammar r.options RiskCheck.standard r.request = .ok s ∧
        ∃ l ∈ s.layers, l.name = check.name ∧ l.status = .fail) ↔
      (check.layer r.input).status = .fail := by
  obtain ⟨s, hs, hlayers, -⟩ := r.exists_suggestion
  constructor
  · rintro ⟨s', hs', l, hl, hname, hfail⟩
    obtain rfl := Except.ok.inj (hs.symm.trans hs')
    rw [hlayers, layers, List.mem_append] at hl
    rcases hl with hl | hl
    · -- the layers before the checks passed
      simp only [List.mem_cons, List.not_mem_nil, or_false] at hl
      rcases hl with rfl | rfl <;> exact nomatch hfail
    · obtain ⟨other, hmem, rfl⟩ := List.mem_map.mp hl
      rw [(other.reports_layer r.input).1] at hname
      rwa [RiskCheck.eq_of_mem_standard hmem hcheck hname] at hfail
  · intro hfail
    refine ⟨s, hs, check.layer r.input, ?_, (check.reports_layer r.input).1, hfail⟩
    rw [hlayers]
    exact List.mem_append_right _ (List.mem_map_of_mem hcheck)

theorem failsSecurity_iff (r : ScoredRun) :
    r.FailsSecurity ↔
      ¬ (r.trees.new.lines.flatMap
          (RiskCheck.linePrints (.ofTag r.request.language))).Subperm
        (r.trees.old.lines.flatMap (RiskCheck.linePrints (.ofTag r.request.language))) :=
  (r.exists_failed_iff RiskCheck.security_mem_standard).trans (RiskCheck.security_fail_iff r.input)

theorem earns_failed_of_failsSecurity {r : ScoredRun} (h : r.FailsSecurity) : r.Earns .failed := by
  obtain ⟨s, hs, l, hl, -, hfail⟩ := h
  obtain ⟨s', hs', -, hgraded⟩ := r.exists_suggestion
  obtain rfl := Except.ok.inj (hs.symm.trans hs')
  exact ⟨s, hs, hgraded.failed_iff.mpr ⟨l, hl, hfail⟩⟩

end ScoredRun

/-! ## Lines -/

/-- A line where a rule for credentials or secrets hits has a secret. -/
theorem RiskCheck.linePrints_ne_nil_of_hit? {language : Language} {rule : Security.LiteralRule}
    {line : String} {hit : Security.Hit} (hrule : rule ∈ Security.literalRules)
    (hscope : rule.inScope language = true) (hhit : rule.hit? line = some hit)
    (htype : rule.type = .hardcodedCredentials ∨ rule.type = .hardcodedSecrets) :
    linePrints language line ≠ [] := by
  have hprint : (secretPrint? rule line hit).isSome = true := by
    unfold secretPrint?
    rw [if_pos (by simpa using htype)]
    rfl
  obtain ⟨print, hprint⟩ := Option.isSome_iff_exists.mp hprint
  have hmem : print ∈ linePrints language line := by
    refine List.mem_filterMap.mpr ⟨rule, List.mem_filter.mpr ⟨hrule, hscope⟩, ?_⟩
    rw [hhit]
    exact hprint
  exact List.ne_nil_of_mem hmem

/-- A line that the scan of a text of this line alone reports has a secret. -/
theorem RiskCheck.linePrints_ne_nil {line : String} (halone : ast.lines = [line])
    {i : Issue} (hi : i ∈ ({} : Security.Scanner).scanLines ast context)
    (htype : i.type = .hardcodedCredentials ∨ i.type = .hardcodedSecrets) :
    linePrints context.language line ≠ [] := by
  obtain ⟨r, rfl⟩ := Security.mem_scanLines_iff.mp hi
  rw [← r.line_eq halone]
  exact linePrints_ne_nil_of_hit? r.rule_mem r.inScope r.hit_eq htype

/-- What an added line holds makes the list longer. -/
theorem not_subperm_of_added {α β : Type} {f : α → List β} {old new extra : List α} {a : α}
    (hnew : new.Perm (old ++ extra)) (ha : a ∈ extra) (hf : f a ≠ []) :
    ¬ (new.flatMap f).Subperm (old.flatMap f) := by
  intro hsub
  have hle := hsub.length_le
  have hlength := (hnew.flatMap_right f).length_eq
  have hpos : 0 < (extra.flatMap f).length := by
    apply List.length_pos_iff.mpr
    intro hnil
    exact hf (List.flatMap_eq_nil_iff.mp hnil a ha)
  rw [List.flatMap_append, List.length_append] at hlength
  omega

/-- Whether the check for new secrets fails depends on the lines of both texts as multisets: it is
the same for two candidates with the same lines up to order, it never fails where no line is new,
and it always fails where a line is added that is reported as a secret by itself. -/
theorem failsSecurity_of_lines :
    (∀ r r' : ScoredRun, r.request.language = r'.request.language →
      r.trees.old.lines.Perm r'.trees.old.lines → r.trees.new.lines.Perm r'.trees.new.lines →
        (r.FailsSecurity ↔ r'.FailsSecurity)) ∧
    (∀ r : ScoredRun, r.trees.new.lines.Subperm r.trees.old.lines → ¬ r.FailsSecurity) ∧
    (∀ (r : ScoredRun) (extra : List String) (ast : SourceTree) (context : FileContext) (i : Issue),
      r.trees.new.lines.Perm (r.trees.old.lines ++ extra) → ast.source ∈ extra →
        context.language = .ofTag r.request.language →
          i ∈ ({} : Security.Scanner).scanLines ast context →
            i.type = .hardcodedCredentials ∨ i.type = .hardcodedSecrets →
              r.FailsSecurity ∧ r.Earns .failed) := by
  refine ⟨fun r r' hlanguage hold hnew => ?_, fun r hsub => ?_, ?_⟩
  · rw [r.failsSecurity_iff, r'.failsSecurity_iff, hlanguage,
      (hold.flatMap_right _).subperm_left, (hnew.flatMap_right _).subperm_right]
  · rw [r.failsSecurity_iff, not_not]
    obtain ⟨kept, hperm, hkept⟩ := hsub
    exact ⟨_, hperm.flatMap_right _, hkept.flatMap _⟩
  · intro r extra ast context i hnew hextra hlanguage hi htype
    have halone : ast.lines = [ast.source] :=
      Text.linesOf_of_mem (hnew.mem_iff.mpr (List.mem_append_right _ hextra))
    have hprints := RiskCheck.linePrints_ne_nil halone hi htype
    rw [hlanguage] at hprints
    have hfail : r.FailsSecurity :=
      r.failsSecurity_iff.mpr (not_subperm_of_added hnew hextra hprints)
    exact ⟨hfail, ScoredRun.earns_failed_of_failsSecurity hfail⟩

/-- A request to replace one text of settings by another one. -/
def settingsRequest (before after : String) : VerificationRequest :=
  { oldCode := before, newCode := after, language := "config", filePath := "app.conf"
    issueId := none, issueType := none, explanation := "", confidence := none }

def settingsTree (text : String) : SourceTree :=
  parseConfig text "app.conf"

/-- The verification of such a request, which needs no grammar. -/
def settingsRun (before after : String)
    (hcode : (settingsTree (Fence.strip after)).hasCode = true)
    (hbudget : (placedTokens (settingsTree before).root).length +
      (placedTokens (settingsTree (Fence.strip after)).root).length ≤ 20000) : ScoredRun where
  grammar := fun _ _ => .error ""
  options := {}
  request := settingsRequest before after
  trees := ⟨settingsTree before, settingsTree (Fence.strip after)⟩
  changes := _
  checkSyntax_eq := by
    have hnew : parseStrict (fun _ _ => .error "") ({} : Options).maxAstNodes (Fence.strip after)
        (some "config") "app.conf" = .ok (settingsTree (Fence.strip after)) := rfl
    have hsyntax : Verification.checkSyntax (fun _ _ => .error "")
        (.start {} (settingsRequest before after)) = _ := Verification.checkSyntax_eq rfl hnew
    rw [hcode, Bool.not_true, Bool.and_false] at hsyntax
    exact hsyntax
  computeChanges_eq := by
    have hunits : ((lineUnits (settingsTree before).root).length +
        (lineUnits (settingsTree (Fence.strip after)).root).length : Nat) ≤
          ({} : Options).maxDiffUnits := by
      have hbefore := length_lineUnits_le (settingsTree before).root
      have hafter := length_lineUnits_le (settingsTree (Fence.strip after)).root
      have hmost : ({} : Options).maxDiffUnits = 20000 := rfl
      omega
    exact computeChanges_of_le hunits

theorem exists_settingsRun (before after : String)
    (hfence : Fence.strip after = after) (hcode : (settingsTree after).hasCode = true)
    (hbudget : (placedTokens (settingsTree before).root).length +
      (placedTokens (settingsTree after).root).length ≤ 20000) :
    ∃ r : ScoredRun, r.request = settingsRequest before after ∧
      r.trees = ⟨settingsTree before, settingsTree after⟩ := by
  rw [← hfence] at hcode hbudget
  refine ⟨settingsRun before after hcode hbudget, rfl, ?_⟩
  show Verification.Trees.mk _ (settingsTree (Fence.strip after)) = _
  rw [hfence]

theorem moved_password_passes :
    ∃ kept moved added : ScoredRun,
      kept.request = settingsRequest "a = 1\npassword = hunter22" "a = 1\npassword = hunter22" ∧
      moved.request = settingsRequest "a = 1\npassword = hunter22" "password = hunter22\na = 1" ∧
      added.request = settingsRequest "a = 1\npassword = hunter22"
        "token = Qx7tR2\na = 1\npassword = hunter22" ∧
      ¬ kept.FailsSecurity ∧ ¬ moved.FailsSecurity ∧ added.FailsSecurity ∧
        added.Earns .failed := by
  obtain ⟨hperm, hsub, hplus⟩ := failsSecurity_of_lines
  obtain ⟨kept, hkept, hkeptTrees⟩ := exists_settingsRun "a = 1\npassword = hunter22"
    "a = 1\npassword = hunter22" (by decide +kernel) (by decide +kernel) (by decide +kernel)
  obtain ⟨moved, hmoved, hmovedTrees⟩ := exists_settingsRun "a = 1\npassword = hunter22"
    "password = hunter22\na = 1" (by decide +kernel) (by decide +kernel) (by decide +kernel)
  obtain ⟨added, hadded, haddedTrees⟩ := exists_settingsRun "a = 1\npassword = hunter22"
    "token = Qx7tR2\na = 1\npassword = hunter22" (by decide +kernel) (by decide +kernel)
    (by decide +kernel)
  have hkeeps : ¬ kept.FailsSecurity := by
    apply hsub
    rw [hkeptTrees]
  have hmoves : kept.FailsSecurity ↔ moved.FailsSecurity := by
    apply hperm
    · rw [hkept, hmoved]
      rfl
    · rw [hkeptTrees, hmovedTrees]
    · rw [hkeptTrees, hmovedTrees]
      decide +kernel
  obtain ⟨i, hi, htype⟩ : ∃ i ∈ ({} : Security.Scanner).scanLines
      (parseConfig "token = Qx7tR2" "app.conf")
      { projectId := "", path := "app.conf", language := .config, options := {} },
      i.type = .hardcodedCredentials ∨ i.type = .hardcodedSecrets := by
    decide +kernel
  have hadds : added.FailsSecurity ∧ added.Earns .failed := by
    apply hplus added ["token = Qx7tR2"] _ _ i ?_ ?_ ?_ hi htype
    · rw [haddedTrees]
      decide +kernel
    · exact List.mem_singleton_self _
    · rw [hadded]
      rfl
  exact ⟨kept, moved, added, hkept, hmoved, hadded, hkeeps, fun h => hkeeps (hmoves.mpr h), hadds⟩

end CodeHealth
