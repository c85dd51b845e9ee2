import CodeHealth.Proofs.Detector.Battery
import CodeHealth.Proofs.Issue.Winner
import CodeHealth.Tree.Parse
import Mathlib.Data.List.Pairwise

/-!
# The order of detectors

What the detectors find in a file does not depend on their order exactly as far as equally trusted
findings of two of them agree. The standard detectors declare different types, so no two of them
ever report one key.
-/

namespace CodeHealth

open Issue

variable {detectors detectors' : List Detector} {ast : SourceTree} {context : FileContext}

/-- The findings of the detectors that understand the tree and do not fail on it. -/
def answers (detectors : List Detector) (ast : SourceTree) (context : FileContext) :
    List (List Issue) :=
  (outcomes detectors ast context).filterMap fun o => o.2.toOption

theorem issues_runDetectors (detectors : List Detector) (ast : SourceTree)
    (context : FileContext) :
    (runDetectors detectors ast context).issues =
      mergeIssues context.projectId (answers detectors ast context) := rfl

theorem answers_perm (h : detectors.Perm detectors') (ast : SourceTree) (context : FileContext) :
    (answers detectors ast context).Perm (answers detectors' ast context) :=
  ((h.filter _).map _).filterMap _

theorem mem_answers_iff {batch : List Issue} :
    batch ∈ answers detectors ast context ↔
      ∃ d ∈ detectors, d.appliesTo ast.language = true ∧ d.detect ast context = .ok batch := by
  unfold answers outcomes
  simp only [List.mem_filterMap, List.mem_map, List.mem_filter]
  constructor
  · rintro ⟨_, ⟨d, ⟨hd, happlies⟩, rfl⟩, hok⟩
    exact ⟨d, hd, happlies, toOption_eq_some_iff.mp hok⟩
  · rintro ⟨d, hd, happlies, hok⟩
    exact ⟨_, ⟨d, ⟨hd, happlies⟩, rfl⟩, toOption_eq_some_iff.mpr hok⟩

theorem exists_perm_answers_eq_cons {batch : List Issue}
    (h : batch ∈ answers detectors ast context) :
    ∃ detectors' rest, detectors.Perm detectors' ∧
      answers detectors' ast context = batch :: rest := by
  obtain ⟨d, hd, happlies, hok⟩ := mem_answers_iff.mp h
  obtain ⟨before, after, rfl⟩ := List.append_of_mem hd
  refine ⟨d :: (before ++ after), answers (before ++ after) ast context, List.perm_middle, ?_⟩
  simp [answers, outcomes, happlies, hok, Except.toOption]

/-- Most trusted findings with one key that two answers keep become one record. -/
def KeptAgree (projectId : String) (batches : List (List Issue)) : Prop :=
  ∀ b ∈ batches, ∀ c ∈ batches, ∀ i ∈ kept b, ∀ j ∈ kept c,
    IsTop batches.flatten i → IsTop batches.flatten j → i.key = j.key →
      i.withStableId projectId = j.withStableId projectId

theorem issues_runDetectors_perm_iff :
    (∀ detectors', detectors.Perm detectors' →
        (runDetectors detectors' ast context).issues =
          (runDetectors detectors ast context).issues) ↔
      KeptAgree context.projectId (answers detectors ast context) := by
  simp only [issues_runDetectors]
  constructor
  · intro h b hb c hc i hi j hj htopi htopj hkey
    -- the detector of an answer comes first, so that what its answer keeps is kept of all
    have hfirst : ∀ batch ∈ answers detectors ast context, ∀ t ∈ kept batch,
        IsTop (answers detectors ast context).flatten t →
        ∃ detectors', t ∈ kept (answers detectors' ast context).flatten ∧
          mergeIssues context.projectId (answers detectors' ast context) =
            mergeIssues context.projectId (answers detectors ast context) := by
      intro batch hbatch t ht htop
      obtain ⟨detectors', rest, hperm, hcons⟩ := exists_perm_answers_eq_cons hbatch
      refine ⟨detectors', mem_kept_iff_wins.mpr ?_, h detectors' hperm⟩
      have htop' : IsTop (answers detectors' ast context).flatten t :=
        htop.of_mem_iff fun _ => (answers_perm hperm ast context).flatten.mem_iff
      rw [hcons] at htop' ⊢
      exact (mem_kept_iff_wins.mp ht).append htop'
    obtain ⟨left, hleft, hlefteq⟩ := hfirst b hb i hi htopi
    obtain ⟨right, hright, hrighteq⟩ := hfirst c hc j hj htopj
    exact withStableId_eq_of_mergeIssues_eq (hlefteq.trans hrighteq.symm) hleft hright hkey
  · intro h detectors' hperm
    have hanswers := answers_perm hperm ast context
    have hmem : ∀ i, i ∈ (answers detectors' ast context).flatten ↔
        i ∈ (answers detectors ast context).flatten := fun _ => hanswers.flatten.symm.mem_iff
    refine mergeIssues_eq_of_kept hmem fun i hi j hj hkey => ?_
    have hwinsi := mem_kept_iff_wins.mp hi
    have hwinsj := mem_kept_iff_wins.mp hj
    obtain ⟨b, hb, hib⟩ := hwinsi.exists_of_flatten
    obtain ⟨c, hc, hjc⟩ := hwinsj.exists_of_flatten
    exact h b (hanswers.mem_iff.mpr hb) c hc i (mem_kept_iff_wins.mpr hib) j
      (mem_kept_iff_wins.mpr hjc) (hwinsi.isTop.of_mem_iff hmem) hwinsj.isTop hkey

/-! ## The standard detectors -/

theorem pairwise_disjoint_issueTypes :
    defaultDetectors.Pairwise fun d e => ∀ t ∈ d.issueTypes, t ∉ e.issueTypes := by
  decide

theorem eq_of_mem_issueTypes {d e : Detector} (hd : d ∈ defaultDetectors)
    (he : e ∈ defaultDetectors) {t : IssueType} (htd : t ∈ d.issueTypes)
    (hte : t ∈ e.issueTypes) : d = e := by
  have hsymm : Std.Symm fun d e : Detector => ∀ t ∈ d.issueTypes, t ∉ e.issueTypes :=
    ⟨fun _ _ h t hte htd => h t htd hte⟩
  by_contra hne
  exact pairwise_disjoint_issueTypes.forall hd he hne t htd hte

theorem keptAgree_answers (h : ∀ d ∈ detectors, d ∈ defaultDetectors) (ast : SourceTree)
    (context : FileContext) : KeptAgree context.projectId (answers detectors ast context) := by
  intro b hb c hc i hi j hj _ _ hkey
  obtain ⟨d, hd, -, hdb⟩ := mem_answers_iff.mp hb
  obtain ⟨e, he, -, hec⟩ := mem_answers_iff.mp hc
  -- both findings have the type of their key, so they come from one detector and one answer
  have htd : i.type ∈ d.issueTypes :=
    (isFaithful_of_mem_defaultDetectors (h d hd) ast context b hdb i (mem_of_mem_kept hi)).2
  have hte : j.type ∈ e.issueTypes :=
    (isFaithful_of_mem_defaultDetectors (h e he) ast context c hec j (mem_of_mem_kept hj)).2
  have htype : i.type = j.type := congrArg Key.type hkey
  obtain rfl := eq_of_mem_issueTypes (h d hd) (h e he) htd (htype ▸ hte)
  obtain rfl : b = c := Except.ok.inj (hdb.symm.trans hec)
  rw [List.inj_on_of_nodup_map (nodup_key_kept b) hi hj hkey]

theorem answers_append (detectors detectors' : List Detector) (ast : SourceTree)
    (context : FileContext) :
    answers (detectors ++ detectors') ast context =
      answers detectors ast context ++ answers detectors' ast context := by
  simp [answers, outcomes]

theorem filter_flatten_answers_eq_nil {d : Detector}
    (h : ∀ e ∈ detectors, e ∈ defaultDetectors ∧ ∀ t ∈ d.issueTypes, t ∉ e.issueTypes) :
    (answers detectors ast context).flatten.filter (fun i => d.issueTypes.contains i.type) =
      [] := by
  rw [List.filter_eq_nil_iff]
  intro i hi hdeclared
  obtain ⟨batch, hbatch, hi⟩ := List.mem_flatten.mp hi
  obtain ⟨e, he, -, hdetect⟩ := mem_answers_iff.mp hbatch
  obtain ⟨hdefault, hdisjoint⟩ := h e he
  have htype : i.type ∈ e.issueTypes :=
    (isFaithful_of_mem_defaultDetectors hdefault ast context batch hdetect i hi).2
  exact hdisjoint i.type (List.contains_iff_mem.mp hdeclared) htype

theorem filter_flatten_answers_self {d : Detector} (hd : d ∈ defaultDetectors) :
    (answers [d] ast context).flatten.filter (fun i => d.issueTypes.contains i.type) =
      (answers [d] ast context).flatten := by
  rw [List.filter_eq_self]
  intro i hi
  obtain ⟨batch, hbatch, hibatch⟩ := List.mem_flatten.mp hi
  obtain ⟨e, he, -, hdetect⟩ := mem_answers_iff.mp hbatch
  obtain rfl := List.mem_singleton.mp he
  have htype := (isFaithful_of_mem_defaultDetectors hd ast context batch hdetect i hibatch).2
  exact List.contains_iff_mem.mpr htype

/-- Of what all standard detectors report, the findings of the types of one of them are what it
reports alone, whatever the others answer. -/
theorem filter_issues_runDetectors {d : Detector} (hd : d ∈ defaultDetectors) :
    (runDetectors defaultDetectors ast context).issues.filter
        (fun i => d.issueTypes.contains i.type) =
      (runDetectors [d] ast context).issues := by
  obtain ⟨before, after, hsplit⟩ := List.append_of_mem hd
  have hdisjoint := pairwise_disjoint_issueTypes
  rw [hsplit, List.pairwise_append] at hdisjoint
  obtain ⟨-, hafter, hbefore⟩ := hdisjoint
  have hearlier : ∀ e ∈ before, e ∈ defaultDetectors ∧ ∀ t ∈ d.issueTypes, t ∉ e.issueTypes :=
    fun e he => ⟨hsplit ▸ List.mem_append_left _ he,
      fun t htd hte => hbefore e he d List.mem_cons_self t hte htd⟩
  have hlater : ∀ e ∈ after, e ∈ defaultDetectors ∧ ∀ t ∈ d.issueTypes, t ∉ e.issueTypes :=
    fun e he => ⟨hsplit ▸ List.mem_append_right _ (List.mem_cons_of_mem d he),
      (List.pairwise_cons.mp hafter).1 e he⟩
  rw [issues_runDetectors, issues_runDetectors]
  refine filter_mergeIssues (fun k => d.issueTypes.contains k.type) ?_
  have hparts : defaultDetectors = before ++ ([d] ++ after) := hsplit
  show _ = (answers defaultDetectors ast context).flatten.filter
    fun i => d.issueTypes.contains i.type
  rw [hparts, answers_append, answers_append, List.flatten_append,
    List.flatten_append, List.filter_append, List.filter_append,
    filter_flatten_answers_eq_nil hearlier, filter_flatten_answers_eq_nil hlater,
    filter_flatten_answers_self hd, List.nil_append, List.append_nil]

/-- A merge is independent of the order of batches and findings exactly if most trusted findings
with one key become one record, and a run is independent of the order of its detectors exactly if
this holds for what two answers keep. It does for all choices of standard detectors. -/
theorem merge_order_independent_iff (projectId : String) (batches : List (List Issue))
    (detectors : List Detector) (ast : SourceTree) (context : FileContext) :
    ((∀ batches', Rearranged batches batches' →
          mergeIssues projectId batches' = mergeIssues projectId batches) ↔
        TopsAgree projectId batches.flatten) ∧
      ((∀ detectors', detectors.Perm detectors' →
          (runDetectors detectors' ast context).issues =
            (runDetectors detectors ast context).issues) ↔
        KeptAgree context.projectId (answers detectors ast context)) ∧
      ((∀ d ∈ detectors, d ∈ defaultDetectors) → ∀ detectors', detectors.Perm detectors' →
        (runDetectors detectors' ast context).issues =
          (runDetectors detectors ast context).issues) :=
  ⟨mergeIssues_rearranged_iff projectId batches, issues_runDetectors_perm_iff,
    fun h => issues_runDetectors_perm_iff.mpr (keptAgree_answers h ast context)⟩

/-- A finding on the first line of a file. -/
def deadLine (confidence : Nat) (excerpt : String) : Issue where
  id := none
  type := .deadCode
  severity := .medium
  confidence := confidence
  filePath := "a.py"
  lineStart := 1
  lineEnd := 1
  functionName := none
  className := none
  description := "unreachable"
  recommendation := ""
  codeExcerpt := excerpt
  duplicateGroupId := none
  metadata := .generic []
  status := .pending

def emptyModule : SourceTree :=
  { parseConfig "" "a.py" with language := .python }

theorem unequal_trust_merges :
    mergeIssues "p" [[deadLine 80 "x"], [deadLine 60 "y"]] =
        mergeIssues "p" [[deadLine 60 "y"], [deadLine 80 "x"]] ∧
      (runDetectors defaultDetectors.reverse emptyModule ⟨"p", "a.py", .python, {}⟩).issues =
        (runDetectors defaultDetectors emptyModule ⟨"p", "a.py", .python, {}⟩).issues := by
  obtain ⟨hmerge, -, hstandard⟩ := merge_order_independent_iff "p"
    [[deadLine 60 "y"], [deadLine 80 "x"]] defaultDetectors emptyModule ⟨"p", "a.py", .python, {}⟩
  refine ⟨hmerge.mpr ?_ _ ?_, hstandard (fun _ h => h) _ (List.reverse_perm _).symm⟩
  · have hless : (deadLine 60 "y").trust < (deadLine 80 "x").trust :=
      Prod.Lex.toLex_lt_toLex.mpr (Or.inl (by decide))
    have htop : ∀ i, IsTop [deadLine 60 "y", deadLine 80 "x"] i → i = deadLine 80 "x" := by
      intro i hi
      rcases List.mem_pair.mp hi.1 with rfl | rfl
      · exact absurd (hi.2 (deadLine 80 "x") (by simp) rfl) (not_le.mpr hless)
      · rfl
    intro i j hi hj _
    rw [htop i hi, htop j hj]
  · exact ⟨_, List.Perm.swap _ _ _, List.forall₂_same.mpr fun _ _ => List.Perm.refl _⟩

/-- Findings that differ in the excerpt only are equally trusted, and the first of them is kept. -/
theorem excerpt_depends_on_order :
    Rearranged [[deadLine 80 "x"], [deadLine 80 "y"]] [[deadLine 80 "y"], [deadLine 80 "x"]] ∧
      mergeIssues "p" [[deadLine 80 "x"], [deadLine 80 "y"]] ≠
        mergeIssues "p" [[deadLine 80 "y"], [deadLine 80 "x"]] := by
  refine ⟨⟨_, List.Perm.swap _ _ _, List.forall₂_same.mpr fun _ _ => List.Perm.refl _⟩, ?_⟩
  have hfirst : ∀ e e' : String, mergeIssues "p" [[deadLine 80 e], [deadLine 80 e']] =
      [(deadLine 80 e).withStableId "p"] := by
    intro e e'
    have hnotless : ¬ (deadLine 80 e).preference.lt (deadLine 80 e').preference = true := by
      rw [lt_preference_iff]
      exact lt_irrefl (deadLine 80 e).trust
    have hkept : keepBest [deadLine 80 e] (deadLine 80 e') = [deadLine 80 e] := by
      have hkey : (deadLine 80 e).key = (deadLine 80 e').key := rfl
      simp [keepBest, hkey, hnotless]
    show List.mergeSort ((keepBest [deadLine 80 e] (deadLine 80 e')).map _) _ = _
    rw [hkept]
    exact List.mergeSort_singleton _
  intro heq
  rw [hfirst, hfirst] at heq
  exact absurd (congrArg (List.map Issue.codeExcerpt) heq) (by decide)

end CodeHealth
