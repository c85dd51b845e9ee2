import CodeHealth.Proofs.Pattern.Matches
import CodeHealth.Proofs.Refactor.Exposure
import CodeHealth.Proofs.Security.Hit

/-!
# Placeholders beside secrets

A rule looks at its first match in a line only. So a placeholder there hides the secrets that the
rule matches further on, both from a scan and from the check for new secrets.
-/

namespace CodeHealth

/-- The rule whose finding an issue of the security scan is. -/
def Issue.ruleId? (issue : Issue) : Option String :=
  match issue.metadata with
  | .security rule _ _ => some rule
  | _ => none

namespace Security

open Pattern

variable {scanner : Scanner} {ast : SourceTree} {context : FileContext} {language : Language}
  {rule : LiteralRule} {line : String} {number : Nat} {place : Place}

/-! ## Matches -/

/-- The match captures a value that stands for a secret. -/
def isStandIn (place : Place) : Bool :=
  (valueOf place).any isPlaceholder

/-- The match captures a value that is no placeholder. -/
def isSecret (place : Place) : Bool :=
  (valueOf place).any fun value => !isPlaceholder value

/-- Some match of the rule in the line captures a secret. -/
def LiteralRule.HoldsSecret (rule : LiteralRule) (line : String) : Prop :=
  ∃ place ∈ rule.pattern.findAll line.toList, isSecret place = true

/-- The first match of the rule in the line captures a placeholder, and a later one a secret. -/
def LiteralRule.HidesSecret (rule : LiteralRule) (line : String) : Prop :=
  ∃ first later, rule.pattern.findAll line.toList = first :: later ∧ isStandIn first = true ∧
    ∃ place ∈ later, isSecret place = true

theorem isStandIn_eq_false_of_isSecret (h : isSecret place = true) : isStandIn place = false := by
  unfold isSecret at h
  unfold isStandIn
  cases hvalue : valueOf place with
  | none => rfl
  | some value =>
      rw [hvalue, Option.any_some, Bool.not_eq_true'] at h
      rw [Option.any_some]
      exact h

/-- A line with a secret hides it exactly if its first match is a placeholder. -/
theorem LiteralRule.HoldsSecret.hidesSecret_iff (h : rule.HoldsSecret line) :
    rule.HidesSecret line ↔
      ∃ first, rule.pattern.search? line.toList = some first ∧ isStandIn first = true := by
  rw [← head?_findAll]
  constructor
  · rintro ⟨first, later, hall, hfirst, -⟩
    exact ⟨first, by rw [hall]; rfl, hfirst⟩
  · rintro ⟨first, hhead, hfirst⟩
    obtain ⟨later, hall⟩ := List.head?_eq_some_iff.mp hhead
    obtain ⟨place, hplace, hsecret⟩ := h
    rw [hall] at hplace
    rcases List.mem_cons.mp hplace with rfl | hplace
    · rw [isStandIn_eq_false_of_isSecret hsecret] at hfirst
      exact nomatch hfirst
    · exact ⟨first, later, hall, hfirst, place, hplace, hsecret⟩

/-- A credential or a secret is found in a line exactly if the first match is no placeholder. -/
theorem isSome_hit?_iff (hconfidential : rule.family.isConfidential = true) :
    (rule.hit? line).isSome = true ↔
      ∃ first, rule.pattern.search? line.toList = some first ∧ isStandIn first = false := by
  unfold LiteralRule.hit? isStandIn
  cases rule.pattern.search? line.toList with
  | none => simp
  | some first =>
      cases hvalue : (valueOf first).any isPlaceholder <;> simp [hconfidential, hvalue]

theorem LiteralRule.HoldsSecret.isSome_hit?_iff (h : rule.HoldsSecret line)
    (hconfidential : rule.family.isConfidential = true) :
    (rule.hit? line).isSome = true ↔ ¬ rule.HidesSecret line := by
  obtain ⟨first, hfirst⟩ : ∃ first, rule.pattern.search? line.toList = some first := by
    rw [← head?_findAll, ← Option.isSome_iff_exists, List.isSome_head?]
    obtain ⟨place, hplace, -⟩ := h
    exact List.ne_nil_of_mem hplace
  rw [Security.isSome_hit?_iff hconfidential, h.hidesSecret_iff, hfirst]
  simp

/-! ## Reports -/

/-- A rule for credentials or secrets that the scanner applies to files of a language. -/
structure Scanner.Guards (scanner : Scanner) (language : Language) (rule : LiteralRule) :
    Prop where
  mem : rule ∈ scanner.rules
  inScope : rule.inScope language = true
  isConfidential : rule.family.isConfidential = true

/-- The scan has an issue of the rule on the line with the number. -/
def Scanner.Reports (scanner : Scanner) (ast : SourceTree) (context : FileContext)
    (rule : LiteralRule) (number : Nat) : Prop :=
  ∃ i ∈ scanner.scanLines ast context, i.lineStart = number ∧ i.ruleId? = some rule.id

theorem eq_of_mem_zipIdx {lines : List String} {line' : String} {start : Nat}
    (h : (line, number) ∈ lines.zipIdx start) (h' : (line', number) ∈ lines.zipIdx start) :
    line = line' := by
  have hline := (List.mem_zipIdx_iff_le_and_getElem?_sub.mp h).2
  have hline' := (List.mem_zipIdx_iff_le_and_getElem?_sub.mp h').2
  exact Option.some.inj (hline.symm.trans hline')

theorem reports_iff_isSome_hit? (hids : (scanner.rules.map LiteralRule.id).Nodup)
    (hrule : rule ∈ scanner.rules) (hscope : rule.inScope context.language = true)
    (hline : (line, number) ∈ ast.lines.zipIdx 1) :
    scanner.Reports ast context rule number ↔ (rule.hit? line).isSome = true := by
  constructor
  · rintro ⟨i, hi, hnumber, hid⟩
    obtain ⟨r, rfl⟩ := mem_scanLines_iff.mp hi
    obtain rfl : r.number = number := hnumber
    obtain rfl : r.rule = rule :=
      List.inj_on_of_nodup_map hids r.rule_mem hrule (Option.some.inj hid)
    rw [eq_of_mem_zipIdx hline r.line_mem, r.hit_eq]
    rfl
  · intro hhit
    obtain ⟨hit, hhit⟩ := Option.isSome_iff_exists.mp hhit
    exact ⟨_, mem_scanLines_iff.mpr ⟨⟨rule, line, number, hit, hrule, hscope, hline, hhit⟩, rfl⟩,
      rfl, rfl⟩

theorem type_of_isConfidential :
    ∀ rule ∈ literalRules, rule.family.isConfidential = true →
      rule.type = .hardcodedCredentials ∨ rule.type = .hardcodedSecrets := by
  decide

end Security

open Security

/-- A candidate with a secret that no placeholder hides fails, if the old text has no secret. -/
theorem ScoredRun.failsSecurity_of_holdsSecret (r : ScoredRun) {line : String}
    {rule : LiteralRule} (hline : line ∈ r.trees.new.lines)
    (hrule : ({} : Scanner).Guards (.ofTag r.request.language) rule)
    (hsecret : rule.HoldsSecret line) (hshown : ¬ rule.HidesSecret line)
    (hold : ∀ old ∈ r.trees.old.lines,
      RiskCheck.linePrints (.ofTag r.request.language) old = []) : r.FailsSecurity := by
  obtain ⟨hit, hhit⟩ := Option.isSome_iff_exists.mp
    ((hsecret.isSome_hit?_iff hrule.isConfidential).mpr hshown)
  have hprints := RiskCheck.linePrints_ne_nil_of_hit? hrule.mem hrule.inScope hhit
    (type_of_isConfidential rule hrule.mem hrule.isConfidential)
  rw [r.failsSecurity_iff, List.flatMap_eq_nil_iff.mpr hold]
  intro hsub
  exact hprints (List.flatMap_eq_nil_iff.mp (List.eq_nil_of_length_eq_zero
    (Nat.le_zero.mp hsub.length_le)) line hline)

/-- A rule reports a line with a secret unless its first match there is a placeholder and a later
one holds the secret. A candidate that brings such a line to a text without secrets does not pass
the check for new secrets. -/
theorem secret_reported_iff (scanner : Scanner)
    (hids : (scanner.rules.map LiteralRule.id).Nodup) (ast : SourceTree) (context : FileContext) :
    (∀ line number rule, (line, number) ∈ ast.lines.zipIdx 1 →
      scanner.Guards context.language rule →
        ((rule.HoldsSecret line → scanner.Reports ast context rule number) ↔
          ¬ rule.HidesSecret line)) ∧
      ∀ (r : ScoredRun) (line : String) (rule : LiteralRule), line ∈ r.trees.new.lines →
        ({} : Scanner).Guards (.ofTag r.request.language) rule → rule.HoldsSecret line →
          ¬ rule.HidesSecret line →
            (∀ old ∈ r.trees.old.lines,
              RiskCheck.linePrints (.ofTag r.request.language) old = []) → r.FailsSecurity := by
  refine ⟨fun line number rule hline hrule => ?_,
    fun r _ _ hline hrule hsecret hshown hold =>
      r.failsSecurity_of_holdsSecret hline hrule hsecret hshown hold⟩
  rw [reports_iff_isSome_hit? hids hrule.mem hrule.inScope hline]
  constructor
  · rintro hreports ⟨first, later, hall, hfirst, place, hplace, hsecret⟩
    have hholds : rule.HoldsSecret line :=
      ⟨place, hall ▸ List.mem_cons_of_mem first hplace, hsecret⟩
    exact (hholds.isSome_hit?_iff hrule.isConfidential).mp (hreports hholds)
      ⟨first, later, hall, hfirst, place, hplace, hsecret⟩
  · intro hshown hholds
    exact (hholds.isSome_hit?_iff hrule.isConfidential).mpr hshown

def settingsContext : FileContext :=
  { projectId := "p", path := "app.conf", language := .config, options := {} }

/-- A secret in front of a placeholder. -/
def secretFirst : String :=
  "pwd = \"Qx7tR2\"; pwd = \"changeme\""

/-- A secret behind a placeholder. -/
def secretLast : String :=
  "pwd = \"changeme\"; pwd = \"Qx7tR2\""

theorem guards_credentialAssignment (language : Language) :
    ({} : Scanner).Guards language credentialAssignment :=
  ⟨List.mem_cons_self, rfl, rfl⟩

theorem secretFirst_reported :
    (credentialAssignment.HoldsSecret secretFirst ∧
      ¬ credentialAssignment.HidesSecret secretFirst) ∧
    ({} : Scanner).Reports (settingsTree secretFirst) settingsContext credentialAssignment 1 ∧
    ∃ r : ScoredRun, r.request = settingsRequest "pwd = \"changeme\"" secretFirst ∧
      r.FailsSecurity := by
  obtain ⟨hreports, hfails⟩ := secret_reported_iff {} (by decide) (settingsTree secretFirst)
    settingsContext
  have hholds : credentialAssignment.HoldsSecret secretFirst := by
    unfold LiteralRule.HoldsSecret
    decide +kernel
  have hshown : ¬ credentialAssignment.HidesSecret secretFirst := by
    have hfirst : (credentialAssignment.pattern.search? secretFirst.toList).any isStandIn =
        false := by
      decide +kernel
    rw [hholds.hidesSecret_iff]
    rintro ⟨first, hsearch, hstandIn⟩
    rw [hsearch, Option.any_some, hstandIn] at hfirst
    exact nomatch hfirst
  have hline : (secretFirst, 1) ∈ (settingsTree secretFirst).lines.zipIdx 1 := by
    decide +kernel
  obtain ⟨r, hrequest, htrees⟩ := exists_settingsRun "pwd = \"changeme\"" secretFirst
    (by decide +kernel) (by decide +kernel) (by decide +kernel)
  refine ⟨⟨hholds, hshown⟩, (hreports secretFirst 1 credentialAssignment hline
    (guards_credentialAssignment _)).mpr hshown hholds, r, hrequest, ?_⟩
  apply hfails r secretFirst credentialAssignment ?_ (guards_credentialAssignment _) hholds hshown
  · rw [hrequest, htrees]
    decide +kernel
  · rw [htrees]
    exact List.fst_mem_of_mem_zipIdx hline

/-- The scan reports nothing on the line, and the check lets the secret in. -/
theorem secretLast_hidden :
    ((secretLast, 1) ∈ (settingsTree secretLast).lines.zipIdx 1 ∧
      ({} : Scanner).Guards .config credentialAssignment ∧
      credentialAssignment.HoldsSecret secretLast) ∧
    ¬ ({} : Scanner).Reports (settingsTree secretLast) settingsContext credentialAssignment 1 ∧
    ∃ r : ScoredRun, r.request = settingsRequest "pwd = \"changeme\"" secretLast ∧
      ¬ r.FailsSecurity := by
  obtain ⟨r, hrequest, htrees⟩ := exists_settingsRun "pwd = \"changeme\"" secretLast
    (by decide +kernel) (by decide +kernel) (by decide +kernel)
  refine ⟨⟨by decide +kernel, guards_credentialAssignment _,
    by unfold LiteralRule.HoldsSecret; decide +kernel⟩, ?_, r, hrequest, ?_⟩
  · have hnone : ({} : Scanner).scanLines (settingsTree secretLast) settingsContext = [] := by
      decide +kernel
    rintro ⟨i, hi, -⟩
    rw [hnone] at hi
    exact absurd hi List.not_mem_nil
  · have hnone : (settingsTree secretLast).lines.flatMap
        (RiskCheck.linePrints (.ofTag "config")) = [] := by
      decide +kernel
    rw [r.failsSecurity_iff, htrees, hrequest, not_not]
    show List.Subperm ((settingsTree secretLast).lines.flatMap
      (RiskCheck.linePrints (.ofTag "config"))) _
    rw [hnone]
    exact List.nil_subperm

end CodeHealth
