import CodeHealth.Proofs.Issue.Merge
import CodeHealth.Proofs.Sorting
import Mathlib.Data.List.Induction
import Mathlib.Data.List.Perm.Basic
import Mathlib.Data.Prod.Lex
import Mathlib.Data.String.Basic

/-!
# The finding that is kept

Of the findings with one key a merge keeps the first of the most trusted ones. So what is merged
depends on the order of the findings exactly as far as equally trusted findings differ elsewhere.
-/

namespace CodeHealth

namespace Issue

/-! ## Trust and place -/

/-- What is compared to choose between findings with one key. -/
def trust (i : Issue) : Nat ×ₗ Nat ×ₗ String ×ₗ String :=
  toLex (i.confidence, toLex (i.severity.rank, toLex (i.description, i.metadata.text)))

def place (i : Issue) : String ×ₗ Nat ×ₗ Nat ×ₗ String :=
  toLex (i.filePath, toLex (i.lineStart, toLex (i.lineEnd, i.type.tag)))

theorem lt_preference_iff {i j : Issue} :
    i.preference.lt j.preference = true ↔ i.trust < j.trust := by
  unfold Preference.lt preference trust
  simp only [lt_or_eq_and_iff, Prod.Lex.toLex_lt_toLex, decide_eq_true_eq]

theorem comesBefore_iff {i j : Issue} : i.comesBefore j = true ↔ i.place ≤ j.place := by
  unfold comesBefore place
  simp only [lt_or_eq_and_iff, Prod.Lex.toLex_le_toLex, decide_eq_true_eq]

theorem key_eq_of_place_eq {i j : Issue} (h : i.place = j.place) : i.key = j.key := by
  obtain ⟨hpath, hstart, hend, htag⟩ : i.filePath = j.filePath ∧ i.lineStart = j.lineStart ∧
      i.lineEnd = j.lineEnd ∧ i.type.tag = j.type.tag := by
    simpa [place] using h
  simp [key, IssueType.tag_injective htag, hpath, hstart, hend]

/-! ## One merge step, one merge -/

variable {best findings : List Issue} {i j issue : Issue}

/-- A finding is kept if those before it with its key are less trusted than it and those after it
not more. -/
def Wins (findings : List Issue) (i : Issue) : Prop :=
  ∃ before after, findings = before ++ i :: after ∧
    (∀ j ∈ before, j.key = i.key → j.trust < i.trust) ∧
      ∀ j ∈ after, j.key = i.key → j.trust ≤ i.trust

theorem Wins.mem (h : Wins findings i) : i ∈ findings := by
  obtain ⟨before, after, rfl, -, -⟩ := h
  simp

theorem mem_keepBest_iff (hbest : (best.map key).Nodup) :
    i ∈ keepBest best issue ↔
      (i ∈ best ∧ (i.key = issue.key → issue.trust ≤ i.trust)) ∨
        (i = issue ∧ ∀ old ∈ best, old.key = issue.key → old.trust < issue.trust) := by
  have hany : (best.any fun o => o.key == issue.key) = true ↔
      ∃ old ∈ best, old.key = issue.key := by
    simp only [List.any_eq_true, beq_iff_eq]
  unfold keepBest
  by_cases hsome : ∃ old ∈ best, old.key = issue.key
  · rw [if_pos (hany.mpr hsome), List.mem_map]
    simp only [Bool.and_eq_true, beq_iff_eq, lt_preference_iff]
    obtain ⟨old, hold, hkey⟩ := hsome
    have huniq : ∀ o ∈ best, o.key = issue.key → o = old := fun o ho hokey =>
      List.inj_on_of_nodup_map hbest ho hold (hokey.trans hkey.symm)
    constructor
    · rintro ⟨o, ho, rfl⟩
      split
      · rename_i hreplaced
        obtain rfl := huniq o ho hreplaced.1
        exact Or.inr ⟨rfl, fun o' ho' hkey' => huniq o' ho' hkey' ▸ hreplaced.2⟩
      · rename_i hstays
        exact Or.inl ⟨ho, fun hokey => not_lt.mp fun hlt => hstays ⟨hokey, hlt⟩⟩
    · rintro (⟨hi, hstays⟩ | ⟨rfl, hless⟩)
      · exact ⟨i, hi, if_neg fun h => absurd h.2 (not_lt.mpr (hstays h.1))⟩
      · exact ⟨old, hold, if_pos ⟨hkey, hless old hold hkey⟩⟩
  · rw [if_neg fun h => hsome (hany.mp h), List.mem_append, List.mem_singleton]
    constructor
    · rintro (hi | rfl)
      · exact Or.inl ⟨hi, fun hkey => absurd ⟨i, hi, hkey⟩ hsome⟩
      · exact Or.inr ⟨rfl, fun old hold hkey => absurd ⟨old, hold, hkey⟩ hsome⟩
    · rintro (⟨hi, -⟩ | ⟨rfl, -⟩)
      · exact Or.inl hi
      · exact Or.inr rfl

theorem exists_mem_keepBest (hbest : (best.map key).Nodup) (issue : Issue) :
    ∃ k ∈ keepBest best issue, k.key = issue.key ∧ issue.trust ≤ k.trust := by
  by_cases hless : ∀ old ∈ best, old.key = issue.key → old.trust < issue.trust
  · exact ⟨issue, (mem_keepBest_iff hbest).mpr (Or.inr ⟨rfl, hless⟩), rfl, le_rfl⟩
  · push Not at hless
    obtain ⟨old, hold, hkey, hle⟩ := hless
    exact ⟨old, (mem_keepBest_iff hbest).mpr (Or.inl ⟨hold, fun _ => hle⟩), hkey, hle⟩

theorem exists_mem_keepBest_of_mem (hbest : (best.map key).Nodup) (issue : Issue) (hj : j ∈ best) :
    ∃ k ∈ keepBest best issue, k.key = j.key ∧ j.trust ≤ k.trust := by
  -- a finding that is kept stays or gives way to a more trusted one with its key
  by_cases hstays : j.key = issue.key → issue.trust ≤ j.trust
  · exact ⟨j, (mem_keepBest_iff hbest).mpr (Or.inl ⟨hj, hstays⟩), rfl, le_rfl⟩
  · push Not at hstays
    obtain ⟨k, hk, hkey, hle⟩ := exists_mem_keepBest hbest issue
    exact ⟨k, hk, hkey.trans hstays.1.symm, hstays.2.le.trans hle⟩

theorem exists_mem_foldl_keepBest (hbest : (best.map key).Nodup) (hj : j ∈ best ∨ j ∈ findings) :
    ∃ k ∈ findings.foldl keepBest best, k.key = j.key ∧ j.trust ≤ k.trust := by
  induction findings generalizing best j with
  | nil => exact ⟨j, by simpa using hj, rfl, le_rfl⟩
  | cons x findings ih =>
      have hnext : ((keepBest best x).map key).Nodup := nodup_key_keepBest hbest
      have hlater : ∀ k ∈ keepBest best x, k.key = j.key → j.trust ≤ k.trust →
          ∃ k' ∈ (x :: findings).foldl keepBest best, k'.key = j.key ∧ j.trust ≤ k'.trust := by
        intro k hk hkey hle
        obtain ⟨k', hk', hkey', hle'⟩ := ih hnext (Or.inl hk)
        exact ⟨k', hk', hkey'.trans hkey, hle.trans hle'⟩
      rcases hj with hj | hj
      · obtain ⟨k, hk, hkey, hle⟩ := exists_mem_keepBest_of_mem hbest x hj
        exact hlater k hk hkey hle
      · rcases List.mem_cons.mp hj with rfl | hj
        · obtain ⟨k, hk, hkey, hle⟩ := exists_mem_keepBest hbest j
          exact hlater k hk hkey hle
        · exact ih hnext (Or.inr hj)

/-- The findings kept of a list, one for each key. -/
def kept (findings : List Issue) : List Issue :=
  findings.foldl keepBest []

theorem nodup_key_kept (findings : List Issue) : ((kept findings).map key).Nodup :=
  nodup_key_foldl_keepBest findings List.nodup_nil

theorem exists_mem_kept (hj : j ∈ findings) :
    ∃ k ∈ kept findings, k.key = j.key ∧ j.trust ≤ k.trust :=
  exists_mem_foldl_keepBest List.nodup_nil (Or.inr hj)

theorem mem_of_mem_kept (hj : j ∈ kept findings) : j ∈ findings :=
  (mem_of_mem_foldl_keepBest hj).resolve_left List.not_mem_nil

theorem kept_append_singleton (findings : List Issue) (x : Issue) :
    kept (findings ++ [x]) = keepBest (kept findings) x := by
  simp [kept]

theorem mem_kept_iff_wins : i ∈ kept findings ↔ Wins findings i := by
  -- on the last finding, since a finding is compared with all that stand before it
  induction findings using List.reverseRecOn with
  | nil => simp [kept, Wins]
  | append_singleton findings x ih =>
      rw [kept_append_singleton, mem_keepBest_iff (nodup_key_kept findings), ih]
      constructor
      · rintro (⟨⟨before, after, rfl, hbefore, hafter⟩, hstays⟩ | ⟨rfl, hless⟩)
        · refine ⟨before, after ++ [x], by simp, hbefore, fun j hj hkey => ?_⟩
          rcases List.mem_append.mp hj with hj | hj
          · exact hafter j hj hkey
          · obtain rfl := List.mem_singleton.mp hj
            exact hstays hkey.symm
        · refine ⟨findings, [], rfl, fun j hj hkey => ?_, by simp⟩
          obtain ⟨k, hk, hkkey, hle⟩ := exists_mem_kept hj
          exact hle.trans_lt (hless k hk (hkkey.trans hkey))
      · rintro ⟨before, after, heq, hbefore, hafter⟩
        rcases List.eq_nil_or_concat after with rfl | ⟨after, y, rfl⟩
        · obtain ⟨rfl, hx⟩ := List.append_inj' heq rfl
          obtain rfl := List.singleton_inj.mp hx
          exact Or.inr ⟨rfl, fun old hold => hbefore old (mem_of_mem_kept hold)⟩
        · rw [List.concat_eq_append, ← List.cons_append, ← List.append_assoc] at heq
          obtain ⟨rfl, hx⟩ := List.append_inj' heq rfl
          obtain rfl := List.singleton_inj.mp hx
          refine Or.inl ⟨⟨before, after, rfl, hbefore, fun j hj => hafter j (by simp [hj])⟩, ?_⟩
          exact fun hkey => hafter x (by simp) hkey.symm

/-! ## Merged records -/

variable {projectId : String} {batches batches' : List (List Issue)}

theorem mem_mergeIssues_iff :
    i ∈ mergeIssues projectId batches ↔
      ∃ found ∈ kept batches.flatten, found.withStableId projectId = i := by
  unfold mergeIssues
  rw [List.mem_mergeSort, List.mem_map]
  rfl

theorem nodup_place_of_nodup_key {records : List Issue} (h : (records.map key).Nodup) :
    (records.map place).Nodup :=
  List.Nodup.map_on (fun _ hi _ hj hplace =>
    List.inj_on_of_nodup_map h hi hj (key_eq_of_place_eq hplace)) (h.of_map key)

theorem nodup_key_records (projectId : String) (findings : List Issue) :
    (((kept findings).map (withStableId projectId)).map key).Nodup := by
  rw [List.map_map, show key ∘ withStableId projectId = key from rfl]
  exact nodup_key_kept findings

theorem mergeIssues_eq_of_mem_iff
    (h : ∀ i, i ∈ mergeIssues projectId batches ↔ i ∈ mergeIssues projectId batches') :
    mergeIssues projectId batches = mergeIssues projectId batches' := by
  have hkeys := nodup_key_records projectId batches.flatten
  have hkeys' := nodup_key_records projectId batches'.flatten
  have hmem : ∀ i, i ∈ (kept batches.flatten).map (withStableId projectId) ↔
      i ∈ (kept batches'.flatten).map (withStableId projectId) := by
    simpa only [mem_mergeIssues_iff, List.mem_map] using h
  have hperm := (List.perm_ext_iff_of_nodup (hkeys.of_map key) (hkeys'.of_map key)).mpr hmem
  have hplace : ∀ i j : Issue, i.comesBefore j = true ↔ place i ≤ place j := fun _ _ =>
    comesBefore_iff
  -- records with different keys have different places, so they have one order only
  exact mergeSort_eq_of_perm hplace (nodup_place_of_nodup_key hkeys) hperm

/-- Two merges of the same findings agree if what they keep for one key becomes one record. -/
theorem mergeIssues_eq_of_kept (hmem : ∀ i, i ∈ batches.flatten ↔ i ∈ batches'.flatten)
    (hkept : ∀ i ∈ kept batches.flatten, ∀ j ∈ kept batches'.flatten, i.key = j.key →
      i.withStableId projectId = j.withStableId projectId) :
    mergeIssues projectId batches = mergeIssues projectId batches' := by
  apply mergeIssues_eq_of_mem_iff
  intro r
  simp only [mem_mergeIssues_iff]
  constructor
  · rintro ⟨i, hi, rfl⟩
    obtain ⟨j, hj, hkey, -⟩ := exists_mem_kept ((hmem i).mp (mem_of_mem_kept hi))
    exact ⟨j, hj, (hkept i hi j hj hkey.symm).symm⟩
  · rintro ⟨j, hj, rfl⟩
    obtain ⟨i, hi, hkey, -⟩ := exists_mem_kept ((hmem j).mpr (mem_of_mem_kept hj))
    exact ⟨i, hi, hkept i hi j hj hkey⟩

theorem withStableId_eq_of_mergeIssues_eq
    (h : mergeIssues projectId batches = mergeIssues projectId batches')
    (hi : i ∈ kept batches.flatten) (hj : j ∈ kept batches'.flatten) (hkey : i.key = j.key) :
    i.withStableId projectId = j.withStableId projectId := by
  have hmemi : i.withStableId projectId ∈ mergeIssues projectId batches :=
    mem_mergeIssues_iff.mpr ⟨i, hi, rfl⟩
  have hmemj : j.withStableId projectId ∈ mergeIssues projectId batches := by
    rw [h]
    exact mem_mergeIssues_iff.mpr ⟨j, hj, rfl⟩
  exact List.inj_on_of_nodup_map (nodup_key_mergeIssues projectId batches) hmemi hmemj hkey

/-! ## Findings with some keys -/

theorem filter_keepBest (q : Key → Bool) (best : List Issue) (issue : Issue) :
    (keepBest best issue).filter (fun i => q i.key) =
      if q issue.key then keepBest (best.filter fun i => q i.key) issue
      else best.filter fun i => q i.key := by
  let replace : Issue → Issue := fun i =>
    if i.key == issue.key && i.preference.lt issue.preference then issue else i
  have hkey : ∀ i, (replace i).key = i.key := by
    intro i
    simp only [replace]
    split
    · rename_i hreplaced
      exact (beq_iff_eq.mp (Bool.and_eq_true_iff.mp hreplaced).1).symm
    · rfl
  have hmap : (best.map replace).filter (fun i => q i.key) =
      (best.filter fun i => q i.key).map replace := by
    rw [List.filter_map]
    simp only [Function.comp_def, hkey]
  by_cases hq : q issue.key = true
  · have hany : ((best.filter fun i => q i.key).any fun i => i.key == issue.key) =
        best.any fun i => i.key == issue.key := by
      rw [List.any_filter]
      refine List.any_congr rfl fun i => ?_
      by_cases hsame : i.key = issue.key
      · simp [hsame, hq]
      · simp [hsame]
    rw [if_pos hq]
    unfold keepBest
    rw [hany]
    split
    · exact hmap
    · simp [hq]
  · rw [if_neg hq]
    unfold keepBest
    split
    · rw [hmap]
      refine (List.map_congr_left fun i hi => ?_).trans (List.map_id _)
      have hother : (i.key == issue.key) = false := by
        rw [beq_eq_false_iff_ne]
        intro hsame
        exact hq (hsame ▸ (List.mem_filter.mp hi).2)
      simp only [replace, hother, Bool.false_and, Bool.false_eq_true, if_false, id_eq]
    · simp [hq]

theorem filter_kept (q : Key → Bool) (findings : List Issue) :
    (kept findings).filter (fun i => q i.key) = kept (findings.filter fun i => q i.key) := by
  induction findings using List.reverseRecOn with
  | nil => rfl
  | append_singleton findings x ih =>
      rw [kept_append_singleton, filter_keepBest, ih, List.filter_append, List.filter_singleton]
      cases q x.key
      · simp
      · simp [kept_append_singleton]

/-- The records of a merge with some keys are those of the findings with these keys. -/
theorem filter_mergeIssues (q : Key → Bool)
    (h : batches'.flatten = batches.flatten.filter fun i => q i.key) :
    (mergeIssues projectId batches).filter (fun i => q i.key) =
      mergeIssues projectId batches' := by
  have hplace : ∀ i j : Issue, i.comesBefore j = true ↔ place i ≤ place j := fun _ _ =>
    comesBefore_iff
  have hkeys := nodup_place_of_nodup_key (nodup_key_records projectId batches.flatten)
  have hrecords : ((kept batches.flatten).map (withStableId projectId)).filter (fun i => q i.key) =
      (kept batches'.flatten).map (withStableId projectId) := by
    rw [List.filter_map, h, ← filter_kept]
    rfl
  show (((kept batches.flatten).map (withStableId projectId)).mergeSort comesBefore).filter _ =
    ((kept batches'.flatten).map (withStableId projectId)).mergeSort comesBefore
  rw [filter_mergeSort hplace hkeys, hrecords]

/-! ## Other orders -/

/-- A finding is a most trusted one of its key. -/
def IsTop (findings : List Issue) (i : Issue) : Prop :=
  i ∈ findings ∧ ∀ j ∈ findings, j.key = i.key → j.trust ≤ i.trust

theorem Wins.isTop (h : Wins findings i) : IsTop findings i := by
  refine ⟨h.mem, ?_⟩
  obtain ⟨before, after, rfl, hbefore, hafter⟩ := h
  intro j hj hkey
  rcases List.mem_append.mp hj with hj | hj
  · exact (hbefore j hj hkey).le
  · rcases List.mem_cons.mp hj with rfl | hj
    · exact le_rfl
    · exact hafter j hj hkey

theorem IsTop.of_mem_iff {findings' : List Issue} (h : ∀ j, j ∈ findings ↔ j ∈ findings')
    (hi : IsTop findings i) : IsTop findings' i :=
  ⟨(h i).mp hi.1, fun j hj => hi.2 j ((h j).mpr hj)⟩

/-- Between two lists the first one wins where both are equally trusted. -/
theorem wins_append_iff {rest : List Issue} :
    Wins (findings ++ rest) i ↔
      (Wins findings i ∧ ∀ j ∈ rest, j.key = i.key → j.trust ≤ i.trust) ∨
        (Wins rest i ∧ ∀ j ∈ findings, j.key = i.key → j.trust < i.trust) := by
  constructor
  · rintro ⟨before, after, heq, hbefore, hafter⟩
    rcases List.append_eq_append_iff.mp heq with ⟨middle, rfl, rfl⟩ | ⟨middle, rfl, hrest⟩
    · exact Or.inr ⟨⟨middle, after, rfl, fun j hj => hbefore j (by simp [hj]), hafter⟩,
        fun j hj => hbefore j (by simp [hj])⟩
    · cases middle with
      | nil =>
          obtain rfl : rest = i :: after := hrest.symm
          exact Or.inr ⟨⟨[], after, rfl, by simp, hafter⟩, by simpa using hbefore⟩
      | cons first middle =>
          obtain ⟨rfl, rfl⟩ := List.cons.inj hrest
          exact Or.inl ⟨⟨before, middle, rfl, hbefore, fun j hj => hafter j (by simp [hj])⟩,
            fun j hj => hafter j (by simp [hj])⟩
  · rintro (⟨⟨before, after, rfl, hbefore, hafter⟩, hrest⟩ |
      ⟨⟨before, after, rfl, hbefore, hafter⟩, hfindings⟩)
    · refine ⟨before, after ++ rest, by simp, hbefore, fun j hj => ?_⟩
      exact (List.mem_append.mp hj).elim (hafter j) (hrest j)
    · refine ⟨findings ++ before, after, by simp, fun j hj => ?_, hafter⟩
      exact (List.mem_append.mp hj).elim (hfindings j) (hbefore j)

theorem Wins.of_append {rest : List Issue} (h : Wins (findings ++ rest) i) :
    Wins findings i ∨ Wins rest i :=
  (wins_append_iff.mp h).imp And.left And.left

theorem Wins.exists_of_flatten (h : Wins batches.flatten i) : ∃ batch ∈ batches, Wins batch i := by
  induction batches with
  | nil => exact absurd h.mem List.not_mem_nil
  | cons batch batches ih =>
      rcases h.of_append with hbatch | hrest
      · exact ⟨batch, List.mem_cons_self, hbatch⟩
      · obtain ⟨batch', hbatch', hwins⟩ := ih hrest
        exact ⟨batch', List.mem_cons_of_mem batch hbatch', hwins⟩

theorem Wins.append {rest : List Issue} (h : Wins findings i) (htop : IsTop (findings ++ rest) i) :
    Wins (findings ++ rest) i :=
  wins_append_iff.mpr (Or.inl ⟨h, fun j hj => htop.2 j (List.mem_append_right _ hj)⟩)

theorem IsTop.wins_cons {rest : List Issue} (h : IsTop (i :: rest) i) : Wins (i :: rest) i :=
  ⟨[], rest, rfl, by simp, fun j hj => h.2 j (List.mem_cons_of_mem i hj)⟩

/-- The batches in another order, and the findings of each batch in another order. -/
def Rearranged (batches batches' : List (List Issue)) : Prop :=
  ∃ moved, batches.Perm moved ∧ List.Forall₂ List.Perm moved batches'

theorem Rearranged.perm_flatten (h : Rearranged batches batches') :
    batches.flatten.Perm batches'.flatten := by
  obtain ⟨moved, hmoved, hinside⟩ := h
  exact hmoved.flatten.trans (List.Perm.flatten_congr hinside)

theorem exists_rearranged_cons (hi : i ∈ batches.flatten) :
    ∃ batches' rest, Rearranged batches batches' ∧ batches'.flatten = i :: rest := by
  obtain ⟨batch, hbatch, hibatch⟩ := List.mem_flatten.mp hi
  obtain ⟨before, after, rfl⟩ := List.append_of_mem hbatch
  obtain ⟨left, right, rfl⟩ := List.append_of_mem hibatch
  refine ⟨(i :: (left ++ right)) :: (before ++ after), left ++ right ++ (before ++ after).flatten,
    ⟨(left ++ i :: right) :: (before ++ after), List.perm_middle, ?_⟩, rfl⟩
  exact List.Forall₂.cons List.perm_middle (List.forall₂_same.mpr fun _ _ => List.Perm.refl _)

/-- Most trusted findings with one key become one record. -/
def TopsAgree (projectId : String) (findings : List Issue) : Prop :=
  ∀ i j, IsTop findings i → IsTop findings j → i.key = j.key →
    i.withStableId projectId = j.withStableId projectId

/-- A merge does not depend on the order of its findings exactly if most trusted findings with one
key become one record. -/
theorem mergeIssues_rearranged_iff (projectId : String) (batches : List (List Issue)) :
    (∀ batches', Rearranged batches batches' →
        mergeIssues projectId batches' = mergeIssues projectId batches) ↔
      TopsAgree projectId batches.flatten := by
  constructor
  · intro h i j hi hj hkey
    -- a most trusted finding wins where it comes first
    have hkept : ∀ t, IsTop batches.flatten t → ∃ batches', t ∈ kept batches'.flatten ∧
        mergeIssues projectId batches' = mergeIssues projectId batches := by
      intro t ht
      obtain ⟨batches', rest, hmoved, hflatten⟩ := exists_rearranged_cons ht.1
      refine ⟨batches', mem_kept_iff_wins.mpr ?_, h batches' hmoved⟩
      have htop : IsTop batches'.flatten t :=
        ht.of_mem_iff fun _ => hmoved.perm_flatten.mem_iff
      rw [hflatten] at htop ⊢
      exact htop.wins_cons
    obtain ⟨bi, hbi, hieq⟩ := hkept i hi
    obtain ⟨bj, hbj, hjeq⟩ := hkept j hj
    exact withStableId_eq_of_mergeIssues_eq (hieq.trans hjeq.symm) hbi hbj hkey
  · intro h batches' hmoved
    have hmem : ∀ i, i ∈ batches'.flatten ↔ i ∈ batches.flatten := fun _ =>
      hmoved.perm_flatten.symm.mem_iff
    refine mergeIssues_eq_of_kept hmem fun i hi j hj => h i j ?_ (mem_kept_iff_wins.mp hj).isTop
    exact (mem_kept_iff_wins.mp hi).isTop.of_mem_iff hmem

end Issue

end CodeHealth
