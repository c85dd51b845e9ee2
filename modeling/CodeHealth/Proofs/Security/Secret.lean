import CodeHealth.Proofs.Security.Hit
import CodeHealth.Proofs.Security.Rule
import CodeHealth.Tree.Parse
import Mathlib.Logic.Basic
import Mathlib.Tactic.ByContra

/-!
# Secrets in reports

Each report masks its own value only, from left to right, and a report of anything but a credential
or a secret shows the whole line. So a secret stays hidden exactly where every report on its line
hides a character of each of its occurrences.
-/

namespace CodeHealth

/-- Whether an issue shows a text, in the line that it quotes or in the value that it names. -/
def Issue.shows (issue : Issue) (text : String) : Bool :=
  Text.contains issue.codeExcerpt text ||
    match issue.metadata with
    | .security _ (some shown) _ => Text.contains shown text
    | _ => false

namespace Security

variable {scanner : Scanner} {ast : SourceTree} {context : FileContext} {text secret : String}

/-- A hit of the rule hides a character of every occurrence of the text in the line. -/
def LiteralRule.Hides (rule : LiteralRule) (line : String) (hit : Hit) (text : String) : Prop :=
  ∀ i < line.toList.length, text.toList <+: line.toList.drop i →
    true ∈ ((rule.marks line hit).drop i).take text.toList.length

instance (rule : LiteralRule) (line : String) (hit : Hit) (text : String) :
    Decidable (rule.Hides line hit text) :=
  inferInstanceAs (Decidable (∀ i < line.toList.length, _ → _))

theorem not_hides_iff {rule : LiteralRule} {line : String} {hit : Hit}
    (hhit : rule.hit? line = some hit) (hne : text.toList ≠ []) (hstar : '*' ∉ text.toList) :
    ¬ rule.Hides line hit text ↔
      text.toList <:+: (redact line hit.value (rule.shownValue hit)).toList := by
  obtain ⟨hlength, hredact⟩ := toList_redact_shownValue hhit
  rw [hredact, infix_starred_iff hlength hstar]
  unfold LiteralRule.Hides
  constructor
  · intro h
    simp only [not_forall] at h
    obtain ⟨i, -, hhead, hseen⟩ := h
    exact ⟨i, hhead, hseen⟩
  · rintro ⟨i, hhead, hseen⟩ hhides
    have hi : i < line.toList.length := by
      by_contra hi
      rw [List.drop_of_length_le (Nat.le_of_not_lt hi)] at hhead
      exact hne (List.prefix_nil.mp hhead)
    exact hseen (hhides i hi hhead)

theorem shows_issue_iff (r : Report scanner ast context) (hne : text.toList ≠ [])
    (hsolid : ∀ c ∈ text.toList, Solid c) (hstar : '*' ∉ text.toList) :
    r.issue.shows text = true ↔ ¬ r.rule.Hides r.line r.hit text := by
  rw [not_hides_iff r.hit_eq hne hstar]
  have hexcerpt : Text.contains r.issue.codeExcerpt text = true ↔
      text.toList <:+: (redact r.line r.hit.value (r.rule.shownValue r.hit)).toList := by
    have htrimmed : r.issue.codeExcerpt =
        Text.strip (redact r.line r.hit.value (r.rule.shownValue r.hit)) := rfl
    rw [htrimmed, Text.contains_iff, Text.strip, String.toList_ofList, Text.infix_trim_iff hsolid]
  have hmetadata : r.issue.metadata =
      .security r.rule.id (r.rule.shownValue r.hit) false := rfl
  unfold Issue.shows
  rw [Bool.or_eq_true, hexcerpt, hmetadata]
  cases hshown : r.rule.shownValue r.hit with
  | none => simp
  | some shown =>
      -- the value that is named can be read in the line as well
      have hvalue := isInfix_redact_of_shownValue r.hit_eq hshown
      rw [hshown] at hvalue
      rw [Text.contains_iff]
      exact ⟨fun h => h.elim id fun h => h.trans hvalue, .inl⟩

/-- A secret without stars stays hidden in all issues on its line exactly where every report on the
line hides a character of each of its occurrences. -/
theorem secret_hidden_iff (r : Report {} ast context)
    (hconfidential : r.rule.family.isConfidential = true) (hsecret : r.hit.value = some secret)
    (hstar : '*' ∉ secret.toList) :
    (∀ i ∈ ({} : Scanner).scanLines ast context, i.lineStart = r.number →
        i.shows secret = false) ↔
      ∀ s : Report {} ast context, s.number = r.number → s.rule.Hides s.line s.hit secret := by
  have hne := value_ne_nil_of_hit? hconfidential r.hit_eq hsecret
  have hsolid := (value_of_hit? (capturesOnly_solid_of_mem r.rule r.rule_mem hconfidential)
    r.hit_eq hsecret).2
  have hshows : ∀ s : Report {} ast context,
      s.issue.shows secret = false ↔ s.rule.Hides s.line s.hit secret := by
    intro s
    rw [← Bool.not_eq_true, shows_issue_iff s hne hsolid hstar, not_not]
  constructor
  · intro h s hnumber
    exact (hshows s).mp (h s.issue (mem_scanLines_iff.mpr ⟨s, rfl⟩) hnumber)
  · intro h i hi hnumber
    obtain ⟨s, rfl⟩ := mem_scanLines_iff.mp hi
    exact (hshows s).mpr (h s hnumber)

/-- A text of Python code as far as its lines go. -/
def pythonText (text : String) : SourceTree :=
  { parseConfig text "app/db.py" with language := .python }

def pythonContext : FileContext :=
  { projectId := "p", path := "app/db.py", language := .python, options := {} }

/-- A password in a URL that is itself assigned to a password. -/
def nestedPassword : String :=
  "pwd = \"redis://a:hunter22@db\""

theorem nestedPassword_hidden :
    ∃ r : Report {} (pythonText nestedPassword) pythonContext,
      r.hit.value = some "hunter22" ∧
        ∀ i ∈ ({} : Scanner).scanLines (pythonText nestedPassword) pythonContext,
          i.lineStart = r.number → i.shows "hunter22" = false := by
  have hhit : (databaseUrl.hit? nestedPassword).map Hit.value = some (some "hunter22") := by
    decide +kernel
  obtain ⟨hit, hhit, hvalue⟩ := Option.map_eq_some_iff.mp hhit
  have hhides : ∀ rule ∈ literalRules,
      (rule.hit? nestedPassword).all fun hit => rule.Hides nestedPassword hit "hunter22" := by
    decide +kernel
  have hrule : databaseUrl ∈ literalRules :=
    List.mem_cons_of_mem _ (List.mem_cons_of_mem _ List.mem_cons_self)
  refine ⟨⟨databaseUrl, nestedPassword, 1, hit, hrule, rfl, by decide, hhit⟩, hvalue, ?_⟩
  rw [secret_hidden_iff _ rfl hvalue (by decide)]
  intro s _
  have hline : s.line = nestedPassword := s.line_eq (by decide)
  have hhit := s.hit_eq
  have hall := hhides s.rule s.rule_mem
  rw [hline] at hhit
  rw [hhit, Option.all_some, decide_eq_true_eq] at hall
  rw [hline]
  exact hall

/-- A password beside a weak hash. -/
def hashedPassword : String :=
  "pwd = \"Sup3rS3cret!\"; md5(x)"

/-- The report of the weak hash shows the password. -/
theorem hashedPassword_shown :
    ∃ r : Report {} (pythonText hashedPassword) pythonContext,
      r.rule.family.isConfidential = true ∧ r.hit.value = some "Sup3rS3cret!" ∧
        isPlaceholder "Sup3rS3cret!" = false ∧ maskValue "Sup3rS3cret!" ≠ "Sup3rS3cret!" ∧
        ∃ i ∈ ({} : Scanner).scanLines (pythonText hashedPassword) pythonContext,
          i.lineStart = r.number ∧ i.shows "Sup3rS3cret!" = true := by
  have hhit : (credentialAssignment.hit? hashedPassword).map Hit.value =
      some (some "Sup3rS3cret!") := by
    decide +kernel
  obtain ⟨hit, hhit, hvalue⟩ := Option.map_eq_some_iff.mp hhit
  have hshown : ∃ i ∈ ({} : Scanner).scanLines (pythonText hashedPassword) pythonContext,
      i.lineStart = 1 ∧ i.shows "Sup3rS3cret!" = true := by
    decide +kernel
  exact ⟨⟨credentialAssignment, hashedPassword, 1, hit, List.mem_cons_self, rfl, by decide, hhit⟩,
    rfl, hvalue, by decide +kernel, by decide +kernel, hshown⟩

end Security

end CodeHealth
