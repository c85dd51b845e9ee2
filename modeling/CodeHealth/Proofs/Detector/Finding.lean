import CodeHealth.Proofs.Code.Function
import CodeHealth.Proofs.Detector.Battery
import CodeHealth.Proofs.Tree.Lines
import Mathlib.Data.List.Induction

/-!
# Findings that fit

What a standard detector finds in a parsed tree passes the checks of a record and lies on lines of
the text.
-/

namespace CodeHealth

open CodeHealth.Tree

variable {ast : SourceTree} {context : FileContext} {i : Issue}

/-- A finding fits a text of so many lines: it lies on them, its confidence is a percentage, and its
metadata is of the family of its type. -/
structure Finding.Fits (f : Finding) (lines : Nat) : Prop where
  confidence : 0 ≤ f.confidence ∧ f.confidence ≤ 100
  lineStart_pos : 1 ≤ f.lineStart
  lineStart_le : f.lineStart ≤ lines
  lineEnd_le : f.lineEnd ≤ lines
  family : f.metadata.family = f.type.family

/-- The issue of a finding that fits the text of the tree. -/
def Issue.IsFitting (ast : SourceTree) (i : Issue) : Prop :=
  ∃ f : Finding, f.Fits ast.lines.length ∧ i = f.issue ast

/-- Every node starts and ends on lines of the text. -/
def SourceTree.InLines (ast : SourceTree) : Prop :=
  ∀ u ∈ ast.root.subtrees, u.label.Within ast.lines.length

/-- What a detector finds in a tree within its lines fits the text. -/
def Detector.FindsFitting (d : Detector) : Prop :=
  ∀ ast context issues, ast.InLines → d.detect ast context = .ok issues →
    ∀ i ∈ issues, i.IsFitting ast

/-- A finding on the lines of a node fits with a percentage for its confidence. -/
theorem Finding.Fits.of_within {f : Finding} {n : SyntaxNode} {lines : Nat} (h : n.Within lines)
    (hstart : f.lineStart = n.startLine) (hend : f.lineEnd = n.endLine)
    (hconfidence : 0 ≤ f.confidence ∧ f.confidence ≤ 100)
    (hfamily : f.metadata.family = f.type.family) : f.Fits lines where
  confidence := hconfidence
  lineStart_pos := hstart ▸ h.startsWithin.1
  lineStart_le := hstart ▸ h.startsWithin.2
  lineEnd_le := hend ▸ h.endLine_le
  family := hfamily

/-! ## Functions and classes -/

theorem SourceTree.InLines.function (h : ast.InLines) {f : FunctionDef} (hf : f ∈ ast.functions) :
    f.node.label.Within ast.lines.length :=
  h f.node (node_mem_subtrees_of_mem_functions hf)

theorem node_mem_subtrees_of_mem_classes {c : ClassDef} (hc : c ∈ ast.classes) :
    c.node ∈ ast.root.subtrees := by
  obtain ⟨⟨node, index⟩, hnode, rfl⟩ := List.mem_map.mp hc
  exact mem_subtrees_of_mem_reach (List.mem_of_mem_filter (List.fst_mem_of_mem_zipIdx hnode))

theorem FunctionMetric.findsFitting {m : FunctionMetric}
    (hconfidence : ∀ f, 0 ≤ m.confidence f ∧ m.confidence f ≤ 100)
    (hfamily : m.type.family = .complexity) : m.detector.FindsFitting := by
  intro ast context issues hlines h i hi
  obtain ⟨f, hf, found, hfound, rfl⟩ := exists_of_mem_issuesAt h hi
  obtain ⟨limit, rfl⟩ := exists_measured_of_eq_ok hfound
  refine ⟨_, ?_, rfl⟩
  exact .of_within (hlines.function (List.mem_of_mem_filter hf)) rfl rfl (hconfidence f)
    hfamily.symm

theorem GodClass.findsFitting : GodClass.detector.FindsFitting := by
  intro ast context issues hlines h i hi
  obtain ⟨c, hc, found, hfound, rfl⟩ := exists_of_mem_issuesAt h hi
  obtain ⟨ratio, -, hfound⟩ := bind_eq_ok_iff.mp hfound
  obtain ⟨mostMethods, -, hfound⟩ := bind_eq_ok_iff.mp hfound
  obtain ⟨limit, rfl⟩ := exists_measured_of_eq_ok hfound
  have hnode : c.node ∈ ast.root.subtrees :=
    node_mem_subtrees_of_mem_classes (List.mem_of_mem_filter hc)
  have hconfidence : (0 : Int) ≤ 85 ∧ (85 : Int) ≤ 100 := by decide
  exact ⟨_, .of_within (hlines c.node hnode) rfl rfl hconfidence rfl, rfl⟩

theorem FeatureEnvy.method_of_envy? {imported : List String} {minimum : Int} {f : FunctionDef}
    {e : FeatureEnvy.Envy} (h : FeatureEnvy.envy? imported minimum f = some e) : e.method = f := by
  unfold FeatureEnvy.envy? at h
  split at h
  · exact nomatch h
  · dsimp only at h
    split at h
    · split at h
      · exact nomatch h
      · rw [← Option.some.inj h]
    · exact nomatch h

theorem FeatureEnvy.findsFitting : FeatureEnvy.detector.FindsFitting := by
  intro ast context issues hlines h i hi
  obtain ⟨e, he, found, hfound, rfl⟩ := exists_of_mem_issuesAt h hi
  obtain ⟨limit, rfl⟩ := exists_measured_of_eq_ok hfound
  obtain ⟨f, hf, henvy⟩ := List.mem_filterMap.mp he
  obtain rfl := FeatureEnvy.method_of_envy? henvy
  have hconfidence : (0 : Int) ≤ 70 ∧ (70 : Int) ≤ 100 := by decide
  exact ⟨_, .of_within (hlines.function hf) rfl rfl hconfidence rfl, rfl⟩

/-! ## Literals -/

theorem MagicNumber.startsWithin_of_mem_unnamedLiterals (hlines : ast.InLines)
    {l : MagicNumber.Literal} (hl : l ∈ MagicNumber.unnamedLiterals ast.root) :
    1 ≤ l.line ∧ l.line ≤ ast.lines.length := by
  obtain ⟨t, ht, rfl⟩ := List.mem_map.mp hl
  obtain ⟨u, hu, exempt, hstep⟩ := exists_step_of_mem_collect ht
  have htu : t = u := by
    unfold MagicNumber.literalStep at hstep
    split at hstep
    · exact absurd hstep List.not_mem_nil
    · split at hstep
      · exact List.mem_singleton.mp hstep
      · exact absurd hstep List.not_mem_nil
  exact (hlines t (htu ▸ hu)).startsWithin

theorem MagicNumber.findsFitting : MagicNumber.detector.FindsFitting := by
  intro ast context issues hlines h i hi
  obtain ⟨literals, hliterals, rfl⟩ := map_eq_ok_iff.mp h
  obtain ⟨line, hline, rfl⟩ := List.mem_map.mp hi
  unfold MagicNumber.linesOf at hline
  rw [List.mem_mergeSort, List.mem_eraseDups] at hline
  obtain ⟨l, hl, rfl⟩ := List.mem_map.mp hline
  rw [(filterM_eq_ok_iff.mp hliterals).2] at hl
  obtain ⟨hpos, hle⟩ :=
    MagicNumber.startsWithin_of_mem_unnamedLiterals hlines (List.mem_of_mem_filter hl)
  have hconfidence : (0 : Int) ≤ 75 ∧ (75 : Int) ≤ 100 := by decide
  exact ⟨_, ⟨hconfidence, hpos, hle, hle, rfl⟩, rfl⟩

/-! ## Dead code -/

namespace DeadCode

theorem mem_of_unreachable? {statements : List (Tree SyntaxNode)} {u : Unreachable}
    (h : unreachable? statements = some u) : ∀ s ∈ u.first :: u.others, s ∈ statements := by
  fun_induction unreachable? statements with
  | case1 s next rest hterminator =>
      obtain rfl := Option.some.inj h
      exact fun t ht => List.mem_cons_of_mem s ht
  | case2 s next rest hgoes ih => exact fun t ht => List.mem_cons_of_mem s (ih h t ht)
  | case3 => exact nomatch h

theorem fits_unreachableFinding (hlines : ast.InLines) {f : Finding}
    (hf : f ∈ unreachableFindings ast.root) : f.Fits ast.lines.length := by
  obtain ⟨u, hu, rfl⟩ := List.mem_map.mp hf
  obtain ⟨block, hblock, hsome⟩ := List.mem_filterMap.mp hu
  have hwithin : ∀ s ∈ u.first :: u.others, s.label.Within ast.lines.length := by
    intro s hs
    have hchild : s ∈ block.children :=
      List.mem_of_mem_filter (List.mem_of_mem_filter (mem_of_unreachable? hsome s hs))
    exact hlines s (subtrees_trans (child_mem_subtrees hchild)
      (mem_subtrees_of_mem_reach (List.mem_of_mem_filter hblock)))
  have hfirst := hwithin u.first List.mem_cons_self
  have hlast : (u.others.getLast?.getD u.first).label.Within ast.lines.length := by
    cases hgetLast : u.others.getLast? with
    | none => exact hfirst
    | some last => exact hwithin last (List.mem_cons_of_mem _ (List.mem_of_getLast? hgetLast))
  have hconfidence : (0 : Int) ≤ 90 ∧ (90 : Int) ≤ 100 := by decide
  exact ⟨hconfidence, hfirst.startsWithin.1, hfirst.startsWithin.2, hlast.endLine_le, rfl⟩

theorem exists_target_of_mem_firstBindings {targets : List Placed} {l : Local}
    (hl : l ∈ firstBindings targets) : ∃ t ∈ targets, l.target = nodeOf t := by
  -- on the last target, which is bound after those before it
  induction targets using List.reverseRecOn with
  | nil => exact absurd hl List.not_mem_nil
  | append_singleton targets t ih =>
      have hbefore : l ∈ firstBindings targets →
          ∃ t' ∈ targets ++ [t], l.target = nodeOf t' := fun hl =>
        have ⟨t', ht', heq⟩ := ih hl
        ⟨t', List.mem_append_left [t] ht', heq⟩
      unfold firstBindings at hl
      rw [List.foldl_append, List.foldl_cons, List.foldl_nil] at hl
      dsimp only at hl
      split at hl
      · exact hbefore hl
      · rcases List.mem_append.mp hl with hl | hl
        · exact hbefore hl
        · rw [List.mem_singleton.mp hl]
          exact ⟨t, List.mem_append_right targets List.mem_cons_self, rfl⟩

theorem mem_subtrees_of_assignmentTarget? {t target : Placed}
    (h : assignmentTarget? t = some target) : target ∈ t.subtrees := by
  unfold assignmentTarget? at h
  obtain ⟨hbind, -⟩ := Option.filter_eq_some_iff.mp h
  obtain ⟨field, -, hfind⟩ := Option.bind_eq_some_iff.mp hbind
  exact child_mem_subtrees (List.mem_of_find?_eq_some hfind)

theorem within_of_mem_unusedLocals (hlines : ast.InLines) {f : FunctionDef}
    (hf : f ∈ ast.functions) {l : Local} (hl : l ∈ unusedLocals f) :
    l.target.Within ast.lines.length := by
  obtain ⟨target, htarget, heq⟩ := exists_target_of_mem_firstBindings (List.mem_of_mem_filter hl)
  obtain ⟨t, ht, hsome⟩ := List.mem_filterMap.mp htarget
  have hplaced : target ∈ (f.node.spots []).subtrees :=
    subtrees_trans (mem_subtrees_of_assignmentTarget? hsome)
      (subtrees_trans (mem_subtrees_of_mem_ownSubtrees ht) (bodyOf_mem_subtrees _ _))
  rw [heq]
  exact hlines _ (subtrees_trans (tree_mem_subtrees_of_mem_spots hplaced)
    (node_mem_subtrees_of_mem_functions hf))

theorem findsFitting : DeadCode.detector.FindsFitting := by
  intro ast context issues hlines h i hi
  obtain rfl := Except.ok.inj h
  obtain ⟨found, hfound, rfl⟩ := List.mem_map.mp hi
  refine ⟨found, ?_, rfl⟩
  rcases List.mem_append.mp hfound with hunreachable | hunused
  · exact fits_unreachableFinding hlines hunreachable
  · obtain ⟨f, hf, hunused⟩ := List.mem_flatMap.mp hunused
    obtain ⟨l, hl, rfl⟩ := List.mem_map.mp hunused
    have hstarts := (within_of_mem_unusedLocals hlines hf hl).startsWithin
    have hconfidence : (0 : Int) ≤ 70 ∧ (70 : Int) ≤ 100 := by decide
    exact ⟨hconfidence, hstarts.1, hstarts.2, hstarts.2, rfl⟩

end DeadCode

/-! ## The security scan -/

theorem confidenceFor_mem (options : Options) (family : String) (standard : Int) :
    0 ≤ options.confidenceFor family standard ∧ options.confidenceFor family standard ≤ 100 := by
  unfold Options.confidenceFor
  dsimp only
  omega

theorem IssueType.family_of_isSecurity {t : IssueType} (h : t.isSecurity = true) :
    t.family = .security := by
  unfold IssueType.family
  rw [if_pos h]

namespace Security

variable {scanner : Scanner}

theorem isFitting_of_mem_checkSensitiveFile (hi : i ∈ checkSensitiveFile ast context) :
    i.IsFitting ast := by
  unfold checkSensitiveFile at hi
  dsimp only at hi
  split at hi
  · exact absurd hi List.not_mem_nil
  · split at hi
    · exact absurd hi List.not_mem_nil
    · have hline : 1 ≤ ast.lines.length := by
        rw [SourceTree.lines, Text.length_linesOf]
        exact Nat.succ_le_succ (Nat.zero_le _)
      rw [List.mem_singleton.mp hi]
      exact ⟨_, ⟨confidenceFor_mem context.options "sensitive_files" 100, Nat.le_refl 1, hline,
        hline, rfl⟩, rfl⟩

theorem isFitting_of_mem_scanLines (hrules : ∀ rule ∈ scanner.rules, rule.type.isSecurity = true)
    (hi : i ∈ scanner.scanLines ast context) : i.IsFitting ast := by
  obtain ⟨r, rfl⟩ := mem_scanLines_iff.mp hi
  have hpos := List.le_snd_of_mem_zipIdx r.line_mem
  have hlt := List.snd_lt_of_mem_zipIdx r.line_mem
  dsimp only at hpos hlt
  have hle : r.number ≤ ast.lines.length := by omega
  exact ⟨r.rule.finding context.options r.number r.line r.hit,
    ⟨confidenceFor_mem context.options r.rule.family.tag r.rule.confidence, hpos, hle, hle,
      (IssueType.family_of_isSecurity (hrules r.rule r.rule_mem)).symm⟩, rfl⟩

theorem isFitting_of_mem_checkLoggingCalls (hlines : ast.InLines)
    (hi : i ∈ scanner.checkLoggingCalls ast context) : i.IsFitting ast := by
  unfold Scanner.checkLoggingCalls at hi
  obtain ⟨t, ht, hi⟩ := List.mem_filterMap.mp hi
  obtain ⟨references, -, hi⟩ := Option.bind_eq_some_iff.mp hi
  obtain ⟨found, hfound, rfl⟩ := Option.map_eq_some_iff.mp hi
  obtain ⟨logged, -, rfl⟩ := Option.map_eq_some_iff.mp hfound
  exact ⟨_, .of_within (hlines t (mem_subtrees_of_mem_reach ht)) rfl rfl
    (confidenceFor_mem context.options _ _) rfl, rfl⟩

theorem isFitting_of_mem_scan (hrules : ∀ rule ∈ scanner.rules, rule.type.isSecurity = true)
    (hlines : ast.InLines) (hi : i ∈ scanner.scan ast context) : i.IsFitting ast := by
  unfold Scanner.scan at hi
  rcases List.mem_append.mp hi with hfile | hi
  · exact isFitting_of_mem_checkSensitiveFile hfile
  · split at hi
    · exact absurd hi List.not_mem_nil
    · rcases List.mem_append.mp hi with hline | hi
      · exact isFitting_of_mem_scanLines hrules hline
      · split at hi
        · exact isFitting_of_mem_checkLoggingCalls hlines hi
        · exact absurd hi List.not_mem_nil

theorem Scanner.findsFitting (hrules : ∀ rule ∈ scanner.rules, rule.type.isSecurity = true) :
    scanner.detector.FindsFitting := by
  intro ast context issues hlines h i hi
  obtain rfl := Except.ok.inj h
  exact isFitting_of_mem_scan hrules hlines hi

end Security

/-! ## The standard detectors -/

theorem findsFitting_of_mem_defaultDetectors {d : Detector} (hd : d ∈ defaultDetectors) :
    d.FindsFitting := by
  rcases List.mem_append.mp hd with hd | hd
  · simp only [structuralDetectors, List.mem_cons, List.not_mem_nil, or_false] at hd
    rcases hd with rfl | rfl | rfl | rfl | rfl | rfl | rfl | rfl | rfl
    · refine FunctionMetric.findsFitting (fun f => ?_) rfl
      simp only [FunctionMetric.longMethod]
      split <;> decide
    · exact GodClass.findsFitting
    · exact FunctionMetric.findsFitting (fun _ => by simp [FunctionMetric.deepNesting]) rfl
    · exact FunctionMetric.findsFitting (fun _ => by simp [FunctionMetric.longParameterList]) rfl
    · exact FunctionMetric.findsFitting (fun _ => by simp [FunctionMetric.highComplexity]) rfl
    · exact FunctionMetric.findsFitting (fun _ => by simp [FunctionMetric.cognitiveComplexity]) rfl
    · exact MagicNumber.findsFitting
    · exact DeadCode.findsFitting
    · exact FeatureEnvy.findsFitting
  · rw [List.mem_singleton.mp hd]
    exact Security.Scanner.findsFitting Security.isSecurity_of_mem_literalRules

end CodeHealth
