import CodeHealth.Proofs.Detector.Order
import CodeHealth.Proofs.Duplicate.Identity

/-!
# Merging in steps

A merge has one record for each key of its findings, in strict order. The records stand for the
findings: merged in their place, alone or with others, they give what the findings give.
-/

namespace CodeHealth

namespace Issue

variable {projectId : String} {i j r : Issue} {findings findings' records records' : List Issue}
  {batches batches' : List (List Issue)}

/-! ## What wins -/

theorem not_wins_nil : ¬ Wins [] i := fun h =>
  absurd h.mem List.not_mem_nil

theorem exists_wins (hj : j ∈ findings) :
    ∃ i, Wins findings i ∧ i.key = j.key ∧ j.trust ≤ i.trust := by
  obtain ⟨i, hi, hkey, hle⟩ := exists_mem_kept hj
  exact ⟨i, mem_kept_iff_wins.mp hi, hkey, hle⟩

/-- Where all keys differ, each record wins. -/
theorem wins_iff_mem (hkeys : (records.map key).Nodup) : Wins records r ↔ r ∈ records := by
  constructor
  · exact Wins.mem
  · intro hr
    obtain ⟨i, hi, hkey, -⟩ := exists_wins hr
    obtain rfl := List.inj_on_of_nodup_map hkeys hi.mem hr hkey
    exact hi

/-! ## Records for findings -/

/-- What wins among the records is what wins among the findings, with its identifier. -/
def StandFor (projectId : String) (records findings : List Issue) : Prop :=
  ∀ r, Wins records r ↔ ∃ i, Wins findings i ∧ i.withStableId projectId = r

theorem standFor_nil : StandFor projectId [] [] := by
  intro r
  simp [not_wins_nil]

theorem standFor_mergeIssues (projectId : String) (batches : List (List Issue)) :
    StandFor projectId (mergeIssues projectId batches) batches.flatten := by
  intro r
  rw [wins_iff_mem (nodup_key_mergeIssues projectId batches), mem_mergeIssues_iff]
  simp only [mem_kept_iff_wins]

/-- Records with a key are as trusted as the findings with this key are. -/
theorem StandFor.forall_trust_iff (h : StandFor projectId records findings) (k : Key)
    (bounded : Nat ×ₗ Nat ×ₗ String ×ₗ String → Prop)
    (hbounded : ∀ s t, s ≤ t → bounded t → bounded s) :
    (∀ r ∈ records, r.key = k → bounded r.trust) ↔
      ∀ i ∈ findings, i.key = k → bounded i.trust := by
  constructor
  · intro hrecords i hi hkey
    obtain ⟨best, hbest, hsame, hle⟩ := exists_wins hi
    have hrecord : best.withStableId projectId ∈ records := ((h _).mpr ⟨best, hbest, rfl⟩).mem
    exact hbounded _ _ hle (hrecords (best.withStableId projectId) hrecord (hsame.trans hkey))
  · intro hfindings r hr hkey
    obtain ⟨best, hbest, hsame, hle⟩ := exists_wins hr
    obtain ⟨i, hi, rfl⟩ := (h best).mp hbest
    exact hbounded _ _ hle (hfindings i hi.mem (hsame.trans hkey))

theorem StandFor.append (h : StandFor projectId records findings)
    (h' : StandFor projectId records' findings') :
    StandFor projectId (records ++ records') (findings ++ findings') := by
  intro r
  -- a record is as trusted as its finding, so it is compared with the others in the same way
  have hlater := h'.forall_trust_iff r.key (· ≤ r.trust) fun _ _ => le_trans
  have hearlier := h.forall_trust_iff r.key (· < r.trust) fun _ _ => lt_of_le_of_lt
  simp only [wins_append_iff]
  constructor
  · rintro (⟨hr, hbound⟩ | ⟨hr, hbound⟩)
    · obtain ⟨i, hi, rfl⟩ := (h r).mp hr
      exact ⟨i, Or.inl ⟨hi, hlater.mp hbound⟩, rfl⟩
    · obtain ⟨i, hi, rfl⟩ := (h' r).mp hr
      exact ⟨i, Or.inr ⟨hi, hearlier.mp hbound⟩, rfl⟩
  · rintro ⟨i, ⟨hi, hbound⟩ | ⟨hi, hbound⟩, rfl⟩
    · exact Or.inl ⟨(h _).mpr ⟨i, hi, rfl⟩, hlater.mpr hbound⟩
    · exact Or.inr ⟨(h' _).mpr ⟨i, hi, rfl⟩, hearlier.mpr hbound⟩

theorem standFor_flatten (projectId : String) (parts : List (List (List Issue))) :
    StandFor projectId (parts.map (mergeIssues projectId)).flatten parts.flatten.flatten := by
  induction parts with
  | nil => exact standFor_nil
  | cons batches parts ih =>
      rw [List.map_cons, List.flatten_cons, List.flatten_cons, List.flatten_append]
      exact (standFor_mergeIssues projectId batches).append ih

theorem StandFor.mergeIssues_eq (h : StandFor projectId batches'.flatten batches.flatten) :
    mergeIssues projectId batches' = mergeIssues projectId batches := by
  apply mergeIssues_eq_of_mem_iff
  intro r
  simp only [mem_mergeIssues_iff, mem_kept_iff_wins]
  constructor
  · rintro ⟨s, hs, rfl⟩
    obtain ⟨i, hi, rfl⟩ := (h s).mp hs
    exact ⟨i, hi, rfl⟩
  · rintro ⟨i, hi, rfl⟩
    exact ⟨i.withStableId projectId, (h _).mpr ⟨i, hi, rfl⟩, rfl⟩

/-- Parts of the batches may be merged first. -/
theorem mergeIssues_map_mergeIssues (projectId : String) (parts : List (List (List Issue))) :
    mergeIssues projectId (parts.map (mergeIssues projectId)) =
      mergeIssues projectId parts.flatten :=
  (standFor_flatten projectId parts).mergeIssues_eq

/-! ## One record for each key -/

/-- The records of a merge: one for each key of the findings, which is a most trusted finding with
an identifier in place of its own. They stand in strict order, and their identifiers differ where
different names have different identifiers. -/
structure IsMerge (projectId : String) (findings records : List Issue) : Prop where
  nodup_keys : (records.map key).Nodup
  mem_keys_iff : ∀ k, k ∈ records.map key ↔ k ∈ findings.map key
  top : ∀ r ∈ records, ∃ i, IsTop findings i ∧ i.withStableId projectId = r
  sorted : records.Pairwise fun r s => r.place < s.place
  nodup_ids : Digest.CollisionFree idSpace (findings.map fun i => idName projectId i.key) →
    (records.map id).Nodup

theorem pairwise_place_mergeIssues (projectId : String) (batches : List (List Issue)) :
    (mergeIssues projectId batches).Pairwise fun r s => r.place < s.place := by
  have hplace : ∀ i j : Issue, i.comesBefore j = true ↔ place i ≤ place j := fun _ _ =>
    comesBefore_iff
  have hsorted := pairwise_mergeSort_key hplace
    ((kept batches.flatten).map (withStableId projectId))
  have hplaces := nodup_place_of_nodup_key (nodup_key_mergeIssues projectId batches)
  exact hsorted.imp₂ (fun _ _ hle hne => lt_of_le_of_ne hle hne) (List.pairwise_map.mp hplaces)

theorem mem_keys_mergeIssues_iff (projectId : String) (batches : List (List Issue)) (k : Key) :
    k ∈ (mergeIssues projectId batches).map key ↔ k ∈ batches.flatten.map key := by
  simp only [List.mem_map, mem_mergeIssues_iff]
  constructor
  · rintro ⟨r, ⟨i, hi, rfl⟩, rfl⟩
    exact ⟨i, mem_of_mem_kept hi, rfl⟩
  · rintro ⟨i, hi, rfl⟩
    obtain ⟨best, hbest, hkey, -⟩ := exists_mem_kept hi
    exact ⟨best.withStableId projectId, ⟨best, hbest, rfl⟩, hkey⟩

theorem isMerge_mergeIssues (projectId : String) (batches : List (List Issue)) :
    IsMerge projectId batches.flatten (mergeIssues projectId batches) where
  nodup_keys := nodup_key_mergeIssues projectId batches
  mem_keys_iff := mem_keys_mergeIssues_iff projectId batches
  top := by
    intro r hr
    obtain ⟨i, hi, rfl⟩ := mem_mergeIssues_iff.mp hr
    exact ⟨i, (mem_kept_iff_wins.mp hi).isTop, rfl⟩
  sorted := pairwise_place_mergeIssues projectId batches
  nodup_ids := by
    intro hfree
    have hstable : ∀ r ∈ mergeIssues projectId batches, r.id = some (r.stableId projectId) := by
      intro r hr
      obtain ⟨i, -, rfl⟩ := mem_mergeIssues_iff.mp hr
      rfl
    -- the names of the records are among those of the findings
    have hnames : ∀ name ∈ (mergeIssues projectId batches).map fun i => idName projectId i.key,
        name ∈ batches.flatten.map fun i => idName projectId i.key := by
      intro name hname
      obtain ⟨r, hr, rfl⟩ := List.mem_map.mp hname
      obtain ⟨i, hi, rfl⟩ := mem_mergeIssues_iff.mp hr
      exact List.mem_map.mpr ⟨i, mem_of_mem_kept hi, rfl⟩
    apply (Duplicates.nodup_ids_iff hstable ?_).mpr (nodup_key_mergeIssues projectId batches)
    exact fun x hx y hy => hfree x (hnames x hx) y (hnames y hy)

end Issue

open Issue

/-- A merge has one most trusted record for each key, in strict order. Batches may be merged in
two parts, and a merged list stays as it is. -/
theorem mergeIssues_incremental (projectId : String) (batches later : List (List Issue)) :
    IsMerge projectId batches.flatten (mergeIssues projectId batches) ∧
      mergeIssues projectId [mergeIssues projectId batches, mergeIssues projectId later] =
        mergeIssues projectId (batches ++ later) ∧
      mergeIssues projectId [mergeIssues projectId batches] = mergeIssues projectId batches := by
  refine ⟨isMerge_mergeIssues projectId batches, ?_, ?_⟩
  · simpa using mergeIssues_map_mergeIssues projectId [batches, later]
  · simpa using mergeIssues_map_mergeIssues projectId [batches]

/-- Three findings with two keys, the path of one of which holds the separator of names. -/
def deadLines : List (List Issue) :=
  [[deadLine 60 "y", { deadLine 70 "w" with filePath := "a|b.py" }], [deadLine 80 "x"]]

theorem deadLines_names_differ : Digest.nameId idSpace "p|dead_code|a.py|1|1" ≠
    Digest.nameId idSpace "p|dead_code|a|b.py|1|1" := by
  decide +kernel

theorem deadLines_incremental :
    Digest.CollisionFree idSpace (deadLines.flatten.map fun i => idName "p" i.key) ∧
      ((mergeIssues "p" deadLines).map Issue.id).Nodup ∧
      mergeIssues "p" [mergeIssues "p" deadLines, mergeIssues "p" [[deadLine 80 "z"]]] =
        mergeIssues "p" (deadLines ++ [[deadLine 80 "z"]]) := by
  have hnames : (deadLines.flatten.map fun i => idName "p" i.key) =
      ["p|dead_code|a.py|1|1", "p|dead_code|a|b.py|1|1", "p|dead_code|a.py|1|1"] := by
    decide +kernel
  have hfree : Digest.CollisionFree idSpace (deadLines.flatten.map fun i => idName "p" i.key) := by
    refine Digest.CollisionFree.of_pair deadLines_names_differ fun name hname => ?_
    rw [hnames] at hname
    simpa [or_comm, or_left_comm] using hname
  obtain ⟨hmerge, htwo, -⟩ := mergeIssues_incremental "p" deadLines [[deadLine 80 "z"]]
  exact ⟨hfree, hmerge.nodup_ids hfree, htwo⟩

end CodeHealth
