import CodeHealth.Issue.Merge
import CodeHealth.Proofs.Text.Separator
import Mathlib.Data.List.Nodup

/-!
# Merged issues

The name of an issue tells its key within a project. Merged findings have different keys, and each
is one of the findings with its identifier.
-/

namespace CodeHealth

/-! ## Names -/

theorem IssueType.mem_all (t : IssueType) : t ∈ all := by
  cases t <;> decide

theorem IssueType.tag_injective {t u : IssueType} (h : t.tag = u.tag) : t = u := by
  have hnodup : (all.map tag).Nodup := by decide
  exact List.inj_on_of_nodup_map hnodup (mem_all t) (mem_all u) h

namespace Issue

theorem not_mem_toList_tag (t : IssueType) : '|' ∉ t.tag.toList := by
  cases t <;> decide

theorem toList_idName (projectId : String) (key : Key) :
    (idName projectId key).toList =
      projectId.toList ++ '|' :: (key.type.tag.toList ++ '|' :: ((key.filePath.toList ++
        '|' :: (toString key.lineStart).toList) ++ '|' :: (toString key.lineEnd).toList)) := by
  unfold idName
  simp

/-- The name of an issue tells its key. -/
theorem idName_injective {projectId : String} {k l : Key}
    (h : idName projectId k = idName projectId l) : k = l := by
  have hlists := congrArg String.toList h
  rw [toList_idName, toList_idName] at hlists
  have hrest := (List.cons.inj (List.append_cancel_left hlists)).2
  obtain ⟨htag, hrest⟩ :=
    Text.eq_of_append_cons_eq (not_mem_toList_tag k.type) (not_mem_toList_tag l.type) hrest
  -- a path may hold separators, so the lines are taken off from the right
  have hdigits := Text.not_mem_toList_repr (c := '|') (by decide)
  obtain ⟨hrest, hend⟩ := Text.eq_of_append_cons_eq_right (hdigits k.lineEnd) (hdigits l.lineEnd)
    hrest
  obtain ⟨hpath, hstart⟩ := Text.eq_of_append_cons_eq_right (hdigits k.lineStart)
    (hdigits l.lineStart) hrest
  obtain ⟨ktype, kpath, kstart, kend⟩ := k
  obtain ⟨ltype, lpath, lstart, lend⟩ := l
  obtain rfl := IssueType.tag_injective (String.toList_inj.mp htag)
  obtain rfl := String.toList_inj.mp hpath
  obtain rfl := Text.toString_nat_inj hstart
  obtain rfl := Text.toString_nat_inj hend
  rfl

/-! ## One finding for each key -/

variable {projectId : String} {best : List Issue} {issue : Issue}

theorem map_key_keepBest (best : List Issue) (issue : Issue) :
    (keepBest best issue).map key =
      if issue.key ∈ best.map key then best.map key else best.map key ++ [issue.key] := by
  unfold keepBest
  have hany : (best.any fun i => i.key == issue.key) = true ↔ issue.key ∈ best.map key := by
    simp only [List.any_eq_true, beq_iff_eq, List.mem_map]
  by_cases hmem : issue.key ∈ best.map key
  · rw [if_pos hmem, if_pos (hany.mpr hmem), List.map_map]
    apply List.map_congr_left
    intro i _
    simp only [Function.comp_apply]
    split
    · rename_i hkey
      exact (beq_iff_eq.mp (Bool.and_eq_true_iff.mp hkey).1).symm
    · rfl
  · rw [if_neg hmem, if_neg fun h => hmem (hany.mp h), List.map_append]
    rfl

theorem nodup_key_keepBest (h : (best.map key).Nodup) :
    ((keepBest best issue).map key).Nodup := by
  rw [map_key_keepBest]
  split
  · exact h
  · rename_i hnew
    refine List.Nodup.append h (List.nodup_singleton _) fun k hk hnewk => ?_
    rw [List.mem_singleton.mp hnewk] at hk
    exact hnew hk

theorem mem_of_mem_keepBest {i : Issue} (h : i ∈ keepBest best issue) :
    i ∈ best ∨ i = issue := by
  unfold keepBest at h
  split at h
  · obtain ⟨old, hold, rfl⟩ := List.mem_map.mp h
    split
    · exact Or.inr rfl
    · exact Or.inl hold
  · rcases List.mem_append.mp h with hold | hnew
    · exact Or.inl hold
    · exact Or.inr (List.mem_singleton.mp hnew)

theorem nodup_key_foldl_keepBest (findings : List Issue) (h : (best.map key).Nodup) :
    ((findings.foldl keepBest best).map key).Nodup := by
  induction findings generalizing best with
  | nil => exact h
  | cons issue findings ih => exact ih (nodup_key_keepBest h)

theorem mem_of_mem_foldl_keepBest {findings : List Issue} {i : Issue}
    (h : i ∈ findings.foldl keepBest best) : i ∈ best ∨ i ∈ findings := by
  induction findings generalizing best with
  | nil => exact Or.inl h
  | cons issue findings ih =>
      rcases ih h with hbest | hrest
      · rcases mem_of_mem_keepBest hbest with hold | rfl
        · exact Or.inl hold
        · exact Or.inr List.mem_cons_self
      · exact Or.inr (List.mem_cons_of_mem issue hrest)

/-! ## Merged findings -/

theorem nodup_key_mergeIssues (projectId : String) (batches : List (List Issue)) :
    ((mergeIssues projectId batches).map key).Nodup := by
  have hbest : ((batches.flatten.foldl keepBest []).map key).Nodup :=
    nodup_key_foldl_keepBest _ List.nodup_nil
  unfold mergeIssues
  apply ((List.mergeSort_perm _ comesBefore).map key).nodup_iff.mpr
  rwa [List.map_map, show key ∘ withStableId projectId = key from rfl]

theorem exists_of_mem_mergeIssues {batches : List (List Issue)} {i : Issue}
    (h : i ∈ mergeIssues projectId batches) :
    ∃ batch ∈ batches, ∃ found ∈ batch, i = found.withStableId projectId := by
  unfold mergeIssues at h
  rw [List.mem_mergeSort] at h
  obtain ⟨found, hfound, rfl⟩ := List.mem_map.mp h
  rcases mem_of_mem_foldl_keepBest hfound with hnone | hmem
  · exact absurd hnone List.not_mem_nil
  · obtain ⟨batch, hbatch, hmem⟩ := List.mem_flatten.mp hmem
    exact ⟨batch, hbatch, found, hmem, rfl⟩

end Issue

end CodeHealth
