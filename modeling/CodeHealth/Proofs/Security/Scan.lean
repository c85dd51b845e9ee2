import CodeHealth.Security.Scanner

/-!
# The scan of a text

An issue of the scan belongs to one line and one rule, and what is said of it depends on the line
alone. A logging call is reported as nothing else.
-/

namespace CodeHealth.Security

variable {scanner : Scanner} {ast : SourceTree} {context : FileContext} {i : Issue}

/-- Where an issue of the scan comes from: a hit of a rule on a line with its number. -/
structure Report (scanner : Scanner) (ast : SourceTree) (context : FileContext) where
  rule : LiteralRule
  line : String
  number : Nat
  hit : Hit
  rule_mem : rule ∈ scanner.rules
  inScope : rule.inScope context.language = true
  line_mem : (line, number) ∈ ast.lines.zipIdx 1
  hit_eq : rule.hit? line = some hit

namespace Report

/-- The issue that is reported. -/
def issue (r : Report scanner ast context) : Issue :=
  (r.rule.finding context.options r.number r.line r.hit).issue ast

/-- A report on a text of one line is about this line. -/
theorem line_eq {line : String} (h : ast.lines = [line]) (r : Report scanner ast context) :
    r.line = line := by
  have hmem := r.line_mem
  rw [h] at hmem
  exact (Prod.mk.inj (List.mem_singleton.mp hmem)).1

end Report

theorem mem_scanLines_iff :
    i ∈ scanner.scanLines ast context ↔ ∃ r : Report scanner ast context, r.issue = i := by
  unfold Scanner.scanLines lineFindings
  constructor
  · intro hi
    obtain ⟨⟨line, number⟩, hline, hi⟩ := List.mem_flatMap.mp hi
    obtain ⟨found, hfound, rfl⟩ := List.mem_map.mp hi
    obtain ⟨rule, hrule, hfound⟩ := List.mem_filterMap.mp hfound
    obtain ⟨hit, hhit, rfl⟩ := Option.map_eq_some_iff.mp hfound
    obtain ⟨hmem, hscope⟩ := List.mem_filter.mp hrule
    exact ⟨⟨rule, line, number, hit, hmem, hscope, hline, hhit⟩, rfl⟩
  · rintro ⟨⟨rule, line, number, hit, hmem, hscope, hline, hhit⟩, rfl⟩
    refine List.mem_flatMap.mpr ⟨(line, number), hline, List.mem_map_of_mem ?_⟩
    exact List.mem_filterMap.mpr ⟨rule, List.mem_filter.mpr ⟨hmem, hscope⟩, by rw [hhit]; rfl⟩

theorem of_mem_checkLoggingCalls (hi : i ∈ scanner.checkLoggingCalls ast context) :
    i.filePath = ast.path ∧ i.type = .unsafeLogging := by
  unfold Scanner.checkLoggingCalls at hi
  obtain ⟨t, -, hi⟩ := List.mem_filterMap.mp hi
  obtain ⟨references, -, hi⟩ := Option.bind_eq_some_iff.mp hi
  obtain ⟨found, hfound, rfl⟩ := Option.map_eq_some_iff.mp hi
  obtain ⟨logged, -, rfl⟩ := Option.map_eq_some_iff.mp hfound
  exact ⟨rfl, rfl⟩

end CodeHealth.Security
