import CodeHealth.Text.Blank
import Mathlib.Data.List.DropRight

/-!
# Lines

A text has one line more than line feeds. No part of a split text holds the separator, and a text
without it is its only part. So a line of a text, read as a text of its own, is its only line.
-/

namespace CodeHealth.Text

variable {sep c : Char} {cs part : List Char}

theorem length_splitAt (sep : Char) (cs : List Char) :
    (splitAt sep cs).length = cs.count sep + 1 := by
  induction cs with
  | nil => rfl
  | cons c cs ih =>
      unfold splitAt at ih ⊢
      rw [List.foldr_cons, List.count_cons]
      split
      · rw [List.length_cons, ih]
      · split
        · rename_i hparts
          rw [hparts] at ih
          exact absurd ih (by simp)
        · rename_i part rest hparts
          rw [hparts, List.length_cons] at ih
          exact ih

theorem splitAt_ne_nil (sep : Char) (cs : List Char) : splitAt sep cs ≠ [] := by
  apply List.ne_nil_of_length_pos
  rw [length_splitAt]
  exact Nat.succ_pos _

theorem length_linesOf (s : String) : (linesOf s).length = s.toList.count '\n' + 1 := by
  unfold linesOf
  rw [List.length_map, length_splitAt]

theorem splitAt_cons_sep (sep : Char) (cs : List Char) :
    splitAt sep (sep :: cs) = [] :: splitAt sep cs := by
  unfold splitAt
  rw [List.foldr_cons, if_pos (beq_self_eq_true sep)]

/-- Any other character comes in front of the first part. -/
theorem exists_splitAt_cons (h : c ≠ sep) (cs : List Char) :
    ∃ part rest, splitAt sep cs = part :: rest ∧ splitAt sep (c :: cs) = (c :: part) :: rest := by
  obtain ⟨part, rest, hsplit⟩ := List.exists_cons_of_ne_nil (splitAt_ne_nil sep cs)
  refine ⟨part, rest, hsplit, ?_⟩
  unfold splitAt at hsplit ⊢
  rw [List.foldr_cons, hsplit]
  exact if_neg (by simpa using h)

theorem notMem_of_mem_splitAt (h : part ∈ splitAt sep cs) : sep ∉ part := by
  induction cs generalizing part with
  | nil =>
      rw [List.mem_singleton.mp h]
      exact List.not_mem_nil
  | cons c cs ih =>
      by_cases hc : c = sep
      · rw [hc, splitAt_cons_sep] at h
        rcases List.mem_cons.mp h with rfl | h
        · exact List.not_mem_nil
        · exact ih h
      · obtain ⟨first, rest, hsplit, hcons⟩ := exists_splitAt_cons hc cs
        rw [hcons] at h
        rcases List.mem_cons.mp h with rfl | h
        · rw [List.mem_cons, not_or]
          exact ⟨Ne.symm hc, ih (hsplit ▸ List.mem_cons_self)⟩
        · exact ih (hsplit ▸ List.mem_cons_of_mem first h)

theorem splitAt_of_notMem (h : sep ∉ cs) : splitAt sep cs = [cs] := by
  induction cs with
  | nil => rfl
  | cons c cs ih =>
      rw [List.mem_cons, not_or] at h
      obtain ⟨part, rest, hsplit, hcons⟩ := exists_splitAt_cons (Ne.symm h.1) cs
      obtain ⟨rfl, rfl⟩ := List.cons.inj (hsplit.symm.trans (ih h.2))
      exact hcons

/-- The parts between separators make up the text. -/
theorem intercalate_splitAt (sep : Char) (cs : List Char) :
    [sep].intercalate (splitAt sep cs) = cs := by
  induction cs with
  | nil => rfl
  | cons c cs ih =>
      by_cases hc : c = sep
      · rw [hc, splitAt_cons_sep, List.intercalate_cons_of_ne_nil (splitAt_ne_nil sep cs), ih]
        rfl
      · obtain ⟨part, rest, hsplit, hcons⟩ := exists_splitAt_cons hc cs
        rw [hsplit] at ih
        rw [hcons, ← ih]
        cases rest with
        | nil => simp
        | cons next rest =>
            rw [List.intercalate_cons_of_ne_nil (List.cons_ne_nil next rest),
              List.intercalate_cons_of_ne_nil (List.cons_ne_nil next rest)]
            rfl

theorem intercalate_splitOnChar (sep : Char) (s : String) :
    (String.singleton sep).intercalate (splitOnChar sep s) = s := by
  rw [← String.toList_inj, String.toList_intercalate, splitOnChar, List.map_map]
  have hparts : String.toList ∘ String.ofList = id := funext fun cs => String.toList_ofList
  rw [hparts, List.map_id, String.toList_singleton, intercalate_splitAt]

theorem linesOf_of_mem {line text : String} (h : line ∈ linesOf text) :
    linesOf line = [line] := by
  obtain ⟨part, hpart, rfl⟩ := List.mem_map.mp h
  have hfree : '\n' ∉ dropReturns part := fun hmem =>
    notMem_of_mem_splitAt hpart ((List.rdropWhile_prefix _ part).subset hmem)
  have hreturns : dropReturns (dropReturns part) = dropReturns part :=
    List.rdropWhile_idempotent _ part
  unfold linesOf
  rw [String.toList_ofList, splitAt_of_notMem hfree, List.map_singleton, hreturns]

end CodeHealth.Text
