import CodeHealth.Detector.Battery
import CodeHealth.Proofs.Security.Scan
import Mathlib.Algebra.GroupWithZero.Nat
import Mathlib.Algebra.Order.BigOperators.Group.List
import Mathlib.Data.List.Nodup

/-!
# Rules for some files

A rule is for every file, for settings or for code. So the detectors depend on the language that
they are told only as far as it is that of settings or not. One rule, for credentials, is for
settings only, and the rules for code only look for neither credentials nor secrets.
-/

namespace CodeHealth

variable {language other : Language} {ast : SourceTree} {context : FileContext}

namespace Security

variable {scanner : Scanner}

/-! ## The language of a scan -/

theorem LiteralRule.inScope_congr (h : (language == .config) = (other == .config))
    (rule : LiteralRule) : rule.inScope language = rule.inScope other := by
  unfold inScope
  cases rule.scope with
  | all => rfl
  | config => exact h
  | code => exact congrArg not h

theorem Scanner.scanLines_congr (h : (language == .config) = (other == .config)) :
    scanner.scanLines ast { context with language } =
      scanner.scanLines ast { context with language := other } := by
  unfold scanLines
  simp only [LiteralRule.inScope_congr h]

theorem Scanner.scan_congr (h : (language == .config) = (other == .config)) :
    scanner.scan ast { context with language } =
      scanner.scan ast { context with language := other } := by
  unfold scan
  rw [scanLines_congr h]
  rfl

end Security

/-- The detectors are told no more by the language than whether it is that of settings. -/
theorem detect_congr {d : Detector} (ast : SourceTree) (context : FileContext)
    (hd : d ∈ defaultDetectors) (h : (language == .config) = (other == .config)) :
    d.detect ast { context with language } = d.detect ast { context with language := other } := by
  rcases List.mem_append.mp hd with hd | hd
  · -- the structural detectors do not look at it
    simp only [structuralDetectors, List.mem_cons, List.not_mem_nil, or_false] at hd
    rcases hd with rfl | rfl | rfl | rfl | rfl | rfl | rfl | rfl | rfl <;> rfl
  · rw [List.mem_singleton.mp hd]
    exact congrArg Except.ok (Security.Scanner.scan_congr h)

namespace Security

variable {rule : LiteralRule} {type : IssueType} {line : String}

/-! ## The scopes of the rules -/

theorem LiteralRule.inScope_config (rule : LiteralRule) :
    rule.inScope .config = (rule.scope != .code) := by
  unfold inScope
  cases rule.scope <;> rfl

theorem LiteralRule.inScope_other (rule : LiteralRule) (tag : String) :
    rule.inScope (.other tag) = (rule.scope != .config) := by
  unfold inScope
  cases rule.scope <;> rfl

theorem scope_of_mem (h : rule ∈ literalRules) :
    rule.scope = .all ∨ rule = configCredential ∨
      rule.scope = .code ∧ (rule.type = .weakEncryption ∨ rule.type = .hardcodedValues) := by
  simp only [literalRules, List.mem_cons, List.not_mem_nil, or_false] at h
  rcases h with rfl | rfl | rfl | rfl | rfl | rfl | rfl | rfl | rfl | rfl | rfl | rfl | rfl | rfl
  · exact .inl rfl
  · exact .inr (.inl rfl)
  iterate 6 exact .inl rfl
  iterate 3 exact .inr (.inr ⟨rfl, .inl rfl⟩)
  iterate 3 exact .inr (.inr ⟨rfl, .inr rfl⟩)

theorem id_ne_of_scope_ne (h : rule ∈ literalRules) (hscope : rule.scope ≠ .config) :
    rule.id ≠ configCredential.id := by
  have hnodup : (literalRules.map LiteralRule.id).Nodup := by decide
  intro hid
  have hrule : rule = configCredential :=
    List.inj_on_of_nodup_map hnodup h (by simp [literalRules]) hid
  exact hscope (hrule ▸ rfl)

theorem type_ne_unsafeLogging (h : rule ∈ literalRules) : rule.type ≠ .unsafeLogging := by
  have hall : ∀ rule ∈ literalRules, rule.type ≠ .unsafeLogging := by decide
  exact hall rule h

theorem isSecurity_of_mem (h : rule ∈ literalRules) : rule.type.isSecurity = true := by
  have hall : ∀ rule ∈ literalRules, rule.type.isSecurity = true := by decide
  exact hall rule h

/-! ## The number of reports -/

/-- How many rules for the files of a language report an issue of the type on a line. -/
def hitCount (language : Language) (type : IssueType) (line : String) : Nat :=
  literalRules.countP fun rule =>
    rule.inScope language && (rule.type == type && (rule.hit? line).isSome)

/-- How many rules that are not for every file report an issue of the type on a line. -/
def scopedCount (type : IssueType) (line : String) : Nat :=
  literalRules.countP fun rule =>
    rule.scope != .all && (rule.type == type && (rule.hit? line).isSome)

/-- A rule that is not for every file reports an issue of the type on one of the lines. -/
def ScopedHit (type : IssueType) (lines : List String) : Prop :=
  ∃ line ∈ lines, ∃ rule ∈ literalRules,
    rule.scope ≠ .all ∧ rule.type = type ∧ (rule.hit? line).isSome = true

theorem ScopedHit.isSecurity {lines : List String} (h : ScopedHit type lines) :
    type.isSecurity = true := by
  obtain ⟨line, -, rule, hrule, -, rfl, -⟩ := h
  exact isSecurity_of_mem hrule

theorem scopedHit_append {lines lines' : List String} :
    ScopedHit type (lines ++ lines') ↔ ScopedHit type lines ∨ ScopedHit type lines' := by
  unfold ScopedHit
  simp only [List.mem_append, or_and_right, exists_or]

theorem countP_scanLines :
    (({} : Scanner).scanLines ast context).countP (fun i => i.type == type) =
      (ast.lines.map (hitCount context.language type)).sum := by
  have hline : ∀ entry : String × Nat,
      (((lineFindings (literalRules.filter fun rule => rule.inScope context.language)
        context.options entry.2 entry.1).map (Finding.issue · ast)).countP
          fun i => i.type == type) = hitCount context.language type entry.1 := by
    intro entry
    unfold lineFindings hitCount
    rw [List.countP_map, List.countP_filterMap, List.countP_filter]
    apply List.countP_congr
    intro rule _
    cases rule.hit? entry.1 <;> simp [LiteralRule.finding, Finding.issue, and_comm]
  unfold Scanner.scanLines
  dsimp only
  calc (List.countP _ _) = ((ast.lines.zipIdx 1).map fun entry =>
          hitCount context.language type entry.1).sum := by
        rw [List.countP_flatMap]
        exact congrArg List.sum (List.map_congr_left fun entry _ => hline entry)
    _ = (((ast.lines.zipIdx 1).map Prod.fst).map (hitCount context.language type)).sum := by
        rw [List.map_map]
        rfl
    _ = (ast.lines.map (hitCount context.language type)).sum := by rw [List.zipIdx_map_fst]

theorem countP_add {α : Type} {p q r : α → Bool} {xs : List α}
    (h : ∀ x ∈ xs, (p x).toNat = (q x).toNat + (r x).toNat) :
    xs.countP p = xs.countP q + xs.countP r := by
  induction xs with
  | nil => rfl
  | cons x xs ih =>
      have hx := h x List.mem_cons_self
      have hxs := ih fun y hy => h y (List.mem_cons_of_mem x hy)
      rw [List.countP_cons, List.countP_cons, List.countP_cons, hxs]
      cases hp : p x <;> cases hq : q x <;> cases hr : r x <;> simp_all <;> omega

/-- Only settings are searched for what the one rule for settings finds. -/
theorem hitCount_config (tag line : String) :
    hitCount .config .hardcodedCredentials line =
      hitCount (.other tag) .hardcodedCredentials line +
        scopedCount .hardcodedCredentials line := by
  apply countP_add
  intro rule hrule
  rw [LiteralRule.inScope_config, LiteralRule.inScope_other]
  rcases scope_of_mem hrule with hscope | rfl | ⟨-, htype⟩
  · rw [hscope]
    exact (Nat.add_zero _).symm
  · exact (Nat.zero_add _).symm
  · have hnone : (rule.type == .hardcodedCredentials) = false := by
      rcases htype with htype | htype <;> rw [htype] <;> rfl
    rw [hnone, Bool.false_and, Bool.and_false, Bool.and_false, Bool.and_false]
    rfl

/-- Settings are not searched for what only the rules for code find. -/
theorem hitCount_other (tag line : String) (htype : type ≠ .hardcodedCredentials) :
    hitCount (.other tag) type line = hitCount .config type line + scopedCount type line := by
  apply countP_add
  intro rule hrule
  rw [LiteralRule.inScope_config, LiteralRule.inScope_other]
  rcases scope_of_mem hrule with hscope | rfl | ⟨hscope, -⟩
  · rw [hscope]
    exact (Nat.add_zero _).symm
  · have hnone : (configCredential.type == type) = false := beq_eq_false_iff_ne.mpr htype.symm
    rw [hnone, Bool.false_and, Bool.and_false, Bool.and_false, Bool.and_false]
    rfl
  · rw [hscope]
    exact (Nat.zero_add _).symm

theorem sum_scopedCount_eq_zero_iff {lines : List String} :
    (lines.map (scopedCount type)).sum = 0 ↔ ¬ ScopedHit type lines := by
  have hline : ∀ line, scopedCount type line = 0 ↔ ¬ ∃ rule ∈ literalRules,
      rule.scope ≠ .all ∧ rule.type = type ∧ (rule.hit? line).isSome = true := by
    intro line
    unfold scopedCount
    simp only [List.countP_eq_zero, Bool.and_eq_true, bne_iff_ne, beq_iff_eq, not_exists, not_and]
  unfold ScopedHit
  rw [List.sum_eq_zero_iff_forall_eq_nat, List.forall_mem_map]
  simp only [hline, not_exists, not_and]

/-- As many issues of a type are reported with and without the hint exactly if no rule for some
files reports one. -/
theorem sum_hitCount_eq_iff (tag : String) {lines : List String} :
    (lines.map (hitCount (.other tag) type)).sum = (lines.map (hitCount .config type)).sum ↔
      ¬ ScopedHit type lines := by
  have hsum : ∀ f : String → Nat, (lines.map fun line => f line + scopedCount type line).sum =
      (lines.map f).sum + (lines.map (scopedCount type)).sum := fun f => List.sum_map_add
  rw [← sum_scopedCount_eq_zero_iff]
  by_cases htype : type = .hardcodedCredentials
  · have hmore : hitCount .config type =
        fun line => hitCount (.other tag) type line + scopedCount type line := by
      rw [htype]
      exact funext (hitCount_config tag)
    rw [hmore, hsum]
    omega
  · have hmore : hitCount (.other tag) type =
        fun line => hitCount .config type line + scopedCount type line :=
      funext fun line => hitCount_other tag line htype
    rw [hmore, hsum]
    omega

end Security

end CodeHealth
