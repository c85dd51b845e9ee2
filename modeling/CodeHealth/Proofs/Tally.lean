import CodeHealth.Tally
import Mathlib.Data.List.Nodup
import Mathlib.Data.List.Perm.Subperm

/-!
# Laws of tallies

The elements of a list are tallied once each, as often as they occur. An intersection counts no more
than a union, and a list nothing beyond another one exactly when it is part of it up to order.
-/

namespace CodeHealth.Tally

variable {α : Type}

/-! ## Totals -/

@[simp] theorem total_nil : total ([] : Tally α) = 0 := rfl

@[simp] theorem total_cons (e : α × Int) (t : Tally α) : total (e :: t) = e.2 + total t := rfl

@[simp] theorem total_append (s t : Tally α) : total (s ++ t) = total s + total t := by
  induction s with
  | nil => simp
  | cons e s ih => rw [List.cons_append, total_cons, total_cons, ih, Int.add_assoc]

theorem total_positive_nonneg (t : Tally α) : 0 ≤ total (t.filter fun e => 0 < e.2) := by
  induction t with
  | nil => simp
  | cons e t ih =>
      rw [List.filter_cons]
      split
      · rename_i hpos
        simp only [decide_eq_true_eq] at hpos
        rw [total_cons]
        omega
      · exact ih

variable [BEq α]

theorem total_inter_nonneg (s t : Tally α) : 0 ≤ (s.inter t).total :=
  total_positive_nonneg _

theorem total_inter_le_total_union (s t : Tally α) : (s.inter t).total ≤ (s.union t).total := by
  have hrest := total_positive_nonneg (t.filter fun e => !s.any fun d => d.1 == e.1)
  unfold inter union
  rw [List.filter_append, total_append]
  generalize total ((t.filter fun e => !s.any fun d => d.1 == e.1).filter fun e => 0 < e.2) = rest
    at hrest ⊢
  induction s with
  | nil => simpa using hrest
  | cons e s ih =>
      simp only [List.map_cons, List.filter_cons]
      split <;> split <;> simp_all <;> omega

/-! ## Tallied lists -/

theorem count_cons (e : α × Int) (t : Tally α) (a : α) :
    count (e :: t) a = if e.1 == a then e.2 else t.count a := by
  unfold count
  rw [List.find?_cons]
  cases e.1 == a <;> rfl

variable [LawfulBEq α]

theorem map_fst_add (t : Tally α) (a : α) :
    (t.add a).map Prod.fst =
      if a ∈ t.map Prod.fst then t.map Prod.fst else t.map Prod.fst ++ [a] := by
  have hany : (t.any fun e => e.1 == a) = true ↔ a ∈ t.map Prod.fst := by
    simp only [List.any_eq_true, beq_iff_eq, List.mem_map]
  unfold add
  by_cases ha : a ∈ t.map Prod.fst
  · rw [if_pos (hany.mpr ha), if_pos ha, List.map_map]
    apply List.map_congr_left
    intro e _
    simp only [Function.comp_apply]
    split <;> rfl
  · rw [if_neg (fun h => ha (hany.mp h)), if_neg ha, List.map_append]
    rfl

theorem nodup_foldl_add (elements : List α) (t : Tally α) (h : (t.map Prod.fst).Nodup) :
    ((elements.foldl add t).map Prod.fst).Nodup := by
  induction elements generalizing t with
  | nil => exact h
  | cons a elements ih =>
      apply ih
      rw [map_fst_add]
      split
      · exact h
      · rename_i ha
        rw [← List.concat_eq_append]
        exact h.concat ha

theorem nodup_ofList (elements : List α) : ((ofList elements).map Prod.fst).Nodup :=
  nodup_foldl_add elements [] List.nodup_nil

theorem count_of_mem {t : Tally α} (h : (t.map Prod.fst).Nodup) {e : α × Int} (he : e ∈ t) :
    t.count e.1 = e.2 := by
  unfold count
  induction t with
  | nil => exact absurd he List.not_mem_nil
  | cons d t ih =>
      rw [List.map_cons, List.nodup_cons] at h
      rcases List.mem_cons.mp he with rfl | he
      · simp
      · have hne : d.1 ≠ e.1 := fun heq => h.1 (heq ▸ List.mem_map_of_mem he)
        rw [List.find?_cons_of_neg (by simpa using hne)]
        exact ih h.2 he

theorem count_map_of_ne {a b : α} (h : a ≠ b) (t : Tally α) :
    count (t.map fun e => if e.1 == a then (e.1, e.2 + 1) else e) b = t.count b := by
  induction t with
  | nil => rfl
  | cons e t ih =>
      rw [List.map_cons, count_cons, count_cons, ih]
      by_cases hea : e.1 = a
      · simp [hea, h]
      · simp only [beq_eq_false_iff_ne.mpr hea, Bool.false_eq_true, if_false]

theorem add_cons_of_ne {e : α × Int} {a : α} (h : e.1 ≠ a) (t : Tally α) :
    add (e :: t) a = e :: t.add a := by
  unfold add
  rw [List.any_cons, List.map_cons]
  simp only [beq_eq_false_iff_ne.mpr h, Bool.false_or]
  split <;> rfl

theorem count_add (t : Tally α) (a b : α) :
    (t.add a).count b = t.count b + if a == b then 1 else 0 := by
  induction t with
  | nil =>
      have hadd : add ([] : Tally α) a = [(a, 1)] := rfl
      rw [hadd, count_cons]
      exact (Int.zero_add _).symm
  | cons e t ih =>
      by_cases hea : e.1 = a
      · have hadd : add (e :: t) a =
            (e.1, e.2 + 1) :: t.map fun e => if e.1 == a then (e.1, e.2 + 1) else e := by
          simp [add, hea]
        rw [hadd, count_cons, count_cons, hea]
        by_cases hab : a = b
        · simp [hab]
        · simp [hab, count_map_of_ne hab]
      · rw [add_cons_of_ne hea, count_cons, count_cons, ih]
        by_cases heb : e.1 = b
        · have hab : a ≠ b := fun hab => hea (heb.trans hab.symm)
          simp [heb, hab]
        · simp [heb]

theorem count_foldl_add (elements : List α) (t : Tally α) (a : α) :
    count (elements.foldl add t) a = t.count a + elements.count a := by
  induction elements generalizing t with
  | nil => simp
  | cons b elements ih =>
      rw [List.foldl_cons, ih, count_add, List.count_cons, Int.natCast_add]
      cases b == a <;> simp only [Bool.false_eq_true, if_true, if_false] <;> omega

theorem count_ofList (elements : List α) (a : α) :
    (ofList elements).count a = elements.count a := by
  have hcount := count_foldl_add elements [] a
  have hnil : count ([] : Tally α) a = 0 := rfl
  rw [hnil, Int.zero_add] at hcount
  exact hcount

theorem mem_map_fst_of_count_ne {t : Tally α} {a : α} (h : t.count a ≠ 0) :
    ∃ e ∈ t, e.1 = a := by
  unfold count at h
  split at h
  · rename_i e hfind
    exact ⟨e, List.mem_of_find?_eq_some hfind, by simpa using List.find?_some hfind⟩
  · exact absurd rfl h

theorem mem_diff_ofList_iff {xs ys : List α} {a : α} :
    a ∈ ((ofList xs).diff (ofList ys)).map Prod.fst ↔ ys.count a < xs.count a := by
  have hcounts : ∀ e ∈ ofList xs, e.2 = xs.count e.1 := fun e he => by
    rw [← count_ofList, count_of_mem (nodup_ofList xs) he]
  unfold diff
  simp only [List.mem_map, List.mem_filter, decide_eq_true_eq, count_ofList]
  constructor
  · rintro ⟨_, ⟨⟨e, he, rfl⟩, hpos⟩, rfl⟩
    dsimp only at hpos ⊢
    rw [hcounts e he] at hpos
    omega
  · intro hlt
    have hne : (ofList xs).count a ≠ 0 := by
      rw [count_ofList]
      omega
    obtain ⟨e, he, rfl⟩ := mem_map_fst_of_count_ne hne
    refine ⟨_, ⟨⟨e, he, rfl⟩, ?_⟩, rfl⟩
    dsimp only
    rw [hcounts e he]
    omega

theorem nodup_diff_ofList (xs ys : List α) :
    (((ofList xs).diff (ofList ys)).map Prod.fst).Nodup := by
  have hkeys : (((ofList xs).map fun e => (e.1, e.2 - (ofList ys).count e.1)).map Prod.fst) =
      (ofList xs).map Prod.fst := by
    rw [List.map_map]
    rfl
  apply List.Nodup.sublist (List.filter_sublist.map Prod.fst)
  rw [hkeys]
  exact nodup_ofList xs

/-- A list is counted nothing beyond another one exactly when it is part of it up to order. -/
theorem diff_ofList_eq_nil_iff {xs ys : List α} :
    (ofList xs).diff (ofList ys) = [] ↔ xs.Subperm ys := by
  rw [← List.map_eq_nil_iff (f := Prod.fst), List.eq_nil_iff_forall_not_mem, List.subperm_ext_iff]
  simp only [mem_diff_ofList_iff, Nat.not_lt]
  constructor
  · exact fun h a _ => h a
  · intro h a
    by_cases ha : a ∈ xs
    · exact h a ha
    · rw [List.count_eq_zero_of_not_mem ha]
      exact Nat.zero_le _

end CodeHealth.Tally
