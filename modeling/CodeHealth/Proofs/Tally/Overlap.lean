import CodeHealth.Proofs.Tally
import Mathlib.Algebra.BigOperators.Group.Finset.Basic
import Mathlib.Algebra.BigOperators.Ring.Finset
import Mathlib.Algebra.Order.BigOperators.Group.Finset
import Mathlib.Algebra.Order.Field.Rat
import Mathlib.Data.List.Perm.Lattice
import Mathlib.Tactic.FieldSimp
import Mathlib.Tactic.Positivity

/-!
# The overlap of two tallies

The share of what two tallies count in common in what either counts. It does not depend on the order
of the two, lies between zero and one, and is one just for equal tallies. It is at most the share of
the smaller total in the larger.
-/

namespace CodeHealth.Tally

variable {α : Type}

/-- A tally that counts each of its elements once, and a positive number of times. -/
structure Proper (t : Tally α) : Prop where
  nodup : (t.map Prod.fst).Nodup
  pos : ∀ e ∈ t, 0 < e.2

theorem total_positive (t : Tally α) :
    total (t.filter fun e => 0 < e.2) = (t.map fun e => max 0 e.2).sum := by
  induction t with
  | nil => rfl
  | cons e t ih =>
      rw [List.filter_cons, List.map_cons, List.sum_cons]
      split
      · rename_i hpos
        rw [decide_eq_true_eq] at hpos
        rw [total_cons, ih]
        omega
      · rename_i hpos
        rw [decide_eq_true_eq] at hpos
        rw [ih]
        omega

theorem sum_map_eq_sum {keys : List α} {K : Finset α} (hkeys : keys.Nodup) (hK : ∀ a ∈ keys, a ∈ K)
    {f : α → Int} (hzero : ∀ a, a ∉ keys → f a = 0) : (keys.map f).sum = ∑ a ∈ K, f a := by
  classical
  rw [← List.sum_toFinset f hkeys]
  apply Finset.sum_subset
  · exact fun a ha => hK a (List.mem_toFinset.mp ha)
  · exact fun a _ ha => hzero a fun hmem => ha (List.mem_toFinset.mpr hmem)

/-- A finite set that holds the elements of two tallies. -/
theorem exists_keys (s t : Tally α) :
    ∃ K : Finset α, (∀ a ∈ s.map Prod.fst, a ∈ K) ∧ ∀ a ∈ t.map Prod.fst, a ∈ K := by
  classical
  refine ⟨(s.map Prod.fst ++ t.map Prod.fst).toFinset, fun a ha => ?_, fun a ha => ?_⟩
  · exact List.mem_toFinset.mpr (List.mem_append_left _ ha)
  · exact List.mem_toFinset.mpr (List.mem_append_right _ ha)

variable [BEq α]

/-- The share of the common part in the union of two tallies. -/
def overlap (s t : Tally α) : Rat :=
  if (s.union t).total == 0 then 0 else ((s.inter t).total : Rat) / (s.union t).total

theorem overlap_nonneg (s t : Tally α) : 0 ≤ s.overlap t := by
  have hinter := total_inter_nonneg s t
  have hle := total_inter_le_total_union s t
  unfold overlap
  split
  · exact le_refl 0
  · exact div_nonneg (by exact_mod_cast hinter) (by exact_mod_cast hinter.trans hle)

theorem overlap_le_one (s t : Tally α) : s.overlap t ≤ 1 := by
  have hinter := total_inter_nonneg s t
  have hle := total_inter_le_total_union s t
  unfold overlap
  split
  · exact zero_le_one
  · exact div_le_one_of_le₀ (by exact_mod_cast hle) (by exact_mod_cast hinter.trans hle)

variable [LawfulBEq α] {s t : Tally α} {K : Finset α}

/-! ## Counts -/

theorem count_eq_zero_of_not_mem {a : α} (h : a ∉ t.map Prod.fst) : t.count a = 0 := by
  by_contra hne
  obtain ⟨e, he, rfl⟩ := mem_map_fst_of_count_ne hne
  exact h (List.mem_map_of_mem he)

theorem Proper.count_nonneg (h : t.Proper) (a : α) : 0 ≤ t.count a := by
  by_cases ha : a ∈ t.map Prod.fst
  · obtain ⟨e, he, rfl⟩ := List.mem_map.mp ha
    rw [count_of_mem h.nodup he]
    exact (h.pos e he).le
  · rw [count_eq_zero_of_not_mem ha]

theorem Proper.mem_iff (h : t.Proper) {e : α × Int} : e ∈ t ↔ t.count e.1 = e.2 ∧ 0 < e.2 := by
  constructor
  · exact fun he => ⟨count_of_mem h.nodup he, h.pos e he⟩
  · rintro ⟨hcount, hpos⟩
    obtain ⟨d, hd, hkey⟩ := mem_map_fst_of_count_ne (hcount.trans_ne hpos.ne')
    rw [← hkey, count_of_mem h.nodup hd] at hcount
    rwa [show e = d from Prod.ext hkey.symm hcount.symm]

/-- Proper tallies with equal counts are equal up to order. -/
theorem Proper.perm_iff (hs : s.Proper) (ht : t.Proper) :
    s.Perm t ↔ ∀ a, s.count a = t.count a := by
  rw [List.perm_ext_iff_of_nodup (List.Nodup.of_map _ hs.nodup) (List.Nodup.of_map _ ht.nodup)]
  constructor
  · intro hmem a
    have hone : ∀ {u v : Tally α}, u.Proper → v.Proper → (∀ e, e ∈ u ↔ e ∈ v) →
        u.count a ≤ v.count a := by
      intro u v hu hv huv
      by_cases hzero : u.count a = 0
      · exact hzero.le.trans (hv.count_nonneg a)
      · obtain ⟨e, he, rfl⟩ := mem_map_fst_of_count_ne hzero
        rw [count_of_mem hu.nodup he, count_of_mem hv.nodup ((huv e).mp he)]
    exact le_antisymm (hone hs ht hmem) (hone ht hs fun e => (hmem e).symm)
  · intro hcount e
    rw [hs.mem_iff, ht.mem_iff, hcount]

/-! ## Totals as sums -/

theorem Proper.total_eq_sum (h : t.Proper) (hK : ∀ a ∈ t.map Prod.fst, a ∈ K) :
    t.total = ∑ a ∈ K, t.count a := by
  rw [← sum_map_eq_sum h.nodup hK fun a => count_eq_zero_of_not_mem, List.map_map]
  have htotal : t.total = (t.map Prod.snd).sum := by
    unfold total
    rw [List.sum_eq_foldr, List.foldr_map]
  rw [htotal]
  exact congrArg List.sum (List.map_congr_left fun e he => (count_of_mem h.nodup he).symm)

theorem Proper.total_inter_eq_sum (hs : s.Proper) (ht : t.Proper)
    (hK : ∀ a ∈ s.map Prod.fst, a ∈ K) :
    (s.inter t).total = ∑ a ∈ K, min (s.count a) (t.count a) := by
  rw [← sum_map_eq_sum hs.nodup hK fun a ha => by
    rw [count_eq_zero_of_not_mem ha, min_eq_left (ht.count_nonneg a)]]
  unfold inter
  rw [total_positive, List.map_map, List.map_map]
  apply congrArg List.sum
  apply List.map_congr_left
  intro e he
  have hpos := hs.pos e he
  have hother := ht.count_nonneg e.1
  simp only [Function.comp_apply, count_of_mem hs.nodup he]
  omega

theorem Proper.total_union_eq_sum (hs : s.Proper) (ht : t.Proper)
    (hsK : ∀ a ∈ s.map Prod.fst, a ∈ K) (htK : ∀ a ∈ t.map Prod.fst, a ∈ K) :
    (s.union t).total = ∑ a ∈ K, max (s.count a) (t.count a) := by
  obtain ⟨rest, hrest⟩ : ∃ rest, rest = t.filter fun e => !s.any fun d => d.1 == e.1 := ⟨_, rfl⟩
  have hsub : rest.Sublist t := hrest ▸ List.filter_sublist
  have hmem : ∀ e, e ∈ rest ↔ e ∈ t ∧ e.1 ∉ s.map Prod.fst := by
    intro e
    rw [hrest, List.mem_filter]
    simp only [Bool.not_eq_true', List.any_eq_false, beq_iff_eq, List.mem_map, not_exists, not_and]
  -- the elements of the union, each once
  have hkeys : (s.map Prod.fst ++ rest.map Prod.fst).Nodup := by
    rw [List.nodup_append]
    refine ⟨hs.nodup, (hsub.map Prod.fst).nodup ht.nodup, ?_⟩
    rintro a ha b hb rfl
    obtain ⟨e, he, rfl⟩ := List.mem_map.mp hb
    exact ((hmem e).mp he).2 ha
  have hkeysK : ∀ a ∈ s.map Prod.fst ++ rest.map Prod.fst, a ∈ K := by
    intro a ha
    rcases List.mem_append.mp ha with ha | ha
    · exact hsK a ha
    · exact htK a ((hsub.map Prod.fst).subset ha)
  rw [← sum_map_eq_sum hkeys hkeysK ?_]
  · unfold union
    rw [← hrest, total_positive, List.map_append, List.map_append, List.sum_append, List.sum_append,
      List.map_map, List.map_map, List.map_map]
    congr 1
    · apply congrArg List.sum
      apply List.map_congr_left
      intro e he
      have hpos := hs.pos e he
      simp only [Function.comp_apply, count_of_mem hs.nodup he]
      omega
    · apply congrArg List.sum
      apply List.map_congr_left
      intro e he
      obtain ⟨het, hes⟩ := (hmem e).mp he
      have hpos := ht.pos e het
      simp only [Function.comp_apply, count_of_mem ht.nodup het, count_eq_zero_of_not_mem hes]
  · intro a ha
    rw [List.mem_append, not_or] at ha
    have hat : a ∉ t.map Prod.fst := by
      intro hat
      obtain ⟨e, he, rfl⟩ := List.mem_map.mp hat
      exact ha.2 (List.mem_map_of_mem ((hmem e).mpr ⟨he, ha.1⟩))
    rw [count_eq_zero_of_not_mem ha.1, count_eq_zero_of_not_mem hat, max_self]

/-! ## Two orders -/

section proper

variable (hs : s.Proper) (ht : t.Proper)

include hs ht

theorem Proper.total_inter_comm : (s.inter t).total = (t.inter s).total := by
  obtain ⟨K, hsK, htK⟩ := exists_keys s t
  rw [hs.total_inter_eq_sum ht hsK, ht.total_inter_eq_sum hs htK]
  exact Finset.sum_congr rfl fun a _ => min_comm _ _

theorem Proper.total_union_comm : (s.union t).total = (t.union s).total := by
  obtain ⟨K, hsK, htK⟩ := exists_keys s t
  rw [hs.total_union_eq_sum ht hsK htK, ht.total_union_eq_sum hs htK hsK]
  exact Finset.sum_congr rfl fun a _ => max_comm _ _

theorem Proper.overlap_comm : s.overlap t = t.overlap s := by
  unfold overlap
  rw [hs.total_inter_comm ht, hs.total_union_comm ht]

/-! ## Bounds -/

theorem Proper.total_inter_le_left : (s.inter t).total ≤ s.total := by
  obtain ⟨K, hsK, -⟩ := exists_keys s t
  rw [hs.total_inter_eq_sum ht hsK, hs.total_eq_sum hsK]
  exact Finset.sum_le_sum fun a _ => min_le_left _ _

theorem Proper.total_le_total_union : s.total ≤ (s.union t).total := by
  obtain ⟨K, hsK, htK⟩ := exists_keys s t
  rw [hs.total_union_eq_sum ht hsK htK, hs.total_eq_sum hsK]
  exact Finset.sum_le_sum fun a _ => le_max_left _ _

/-- The common part is no larger than the smaller tally, the union no smaller than the larger. -/
theorem Proper.total_bounds :
    (s.inter t).total ≤ min s.total t.total ∧ max s.total t.total ≤ (s.union t).total := by
  refine ⟨le_min (hs.total_inter_le_left ht) ?_, max_le (hs.total_le_total_union ht) ?_⟩
  · rw [hs.total_inter_comm ht]
    exact ht.total_inter_le_left hs
  · rw [hs.total_union_comm ht]
    exact ht.total_le_total_union hs

omit hs ht in
theorem Proper.total_nonneg (h : t.Proper) : 0 ≤ t.total := by
  obtain ⟨K, -, htK⟩ := exists_keys t t
  rw [h.total_eq_sum htK]
  exact Finset.sum_nonneg fun a _ => h.count_nonneg a

/-- An overlap is at most the share of the smaller total in the larger. -/
theorem Proper.overlap_le :
    s.overlap t ≤ (min s.total t.total : Int) / (max s.total t.total : Int) := by
  obtain ⟨hsmaller, hlarger⟩ := hs.total_bounds ht
  have hmin : 0 ≤ min s.total t.total := le_min hs.total_nonneg ht.total_nonneg
  have hmax : 0 ≤ max s.total t.total := hmin.trans min_le_max
  unfold overlap
  split
  · exact div_nonneg (by exact_mod_cast hmin) (by exact_mod_cast hmax)
  · rcases hmax.eq_or_lt with hzero | hpos
    · -- both are empty, and so is what they have in common
      have hinter : (s.inter t).total = 0 := by
        have := total_inter_nonneg s t
        have := min_le_max (a := s.total) (b := t.total)
        omega
      rw [hinter, ← hzero]
      simp
    · apply div_le_div₀
      · exact_mod_cast hmin
      · exact_mod_cast hsmaller
      · exact_mod_cast hpos
      · exact_mod_cast hlarger

omit ht in
theorem Proper.total_pos (hne : s ≠ []) : 0 < s.total := by
  obtain ⟨e, he⟩ := List.exists_mem_of_ne_nil s hne
  obtain ⟨K, hsK, -⟩ := exists_keys s s
  rw [hs.total_eq_sum hsK]
  apply Finset.sum_pos' (fun a _ => hs.count_nonneg a)
  exact ⟨e.1, hsK _ (List.mem_map_of_mem he), by
    rw [count_of_mem hs.nodup he]
    exact hs.pos e he⟩

/-- Only equal tallies have all in common. -/
theorem Proper.overlap_eq_one_iff : s.overlap t = 1 ↔ s.Perm t ∧ s ≠ [] := by
  obtain ⟨K, hsK, htK⟩ := exists_keys s t
  have hequal : (s.inter t).total = (s.union t).total ↔ s.Perm t := by
    rw [hs.total_inter_eq_sum ht hsK, hs.total_union_eq_sum ht hsK htK,
      Finset.sum_eq_sum_iff_of_le fun a _ => min_le_max, hs.perm_iff ht]
    constructor
    · intro h a
      by_cases ha : a ∈ K
      · have := h a ha
        omega
      · rw [count_eq_zero_of_not_mem fun has => ha (hsK a has),
          count_eq_zero_of_not_mem fun hat => ha (htK a hat)]
    · intro h a _
      rw [h a, min_self, max_self]
  unfold overlap
  by_cases hzero : (s.union t).total = 0
  · rw [if_pos (by simpa using hzero)]
    refine ⟨fun h => absurd h zero_ne_one, fun ⟨_, hne⟩ => ?_⟩
    have hpos := hs.total_pos hne
    have hle := hs.total_le_total_union ht
    omega
  · have hcast : ((s.union t).total : Rat) ≠ 0 := by exact_mod_cast hzero
    rw [if_neg (by simpa using hzero), div_eq_one_iff_eq hcast, Int.cast_inj, hequal]
    refine ⟨fun hperm => ⟨hperm, ?_⟩, fun h => h.1⟩
    rintro rfl
    rw [List.nil_perm] at hperm
    subst hperm
    exact hzero rfl

end proper

/-! ## Tallied lists -/

omit [LawfulBEq α] in
theorem pos_add {a : α} (h : ∀ e ∈ t, 0 < e.2) : ∀ e ∈ t.add a, 0 < e.2 := by
  intro e he
  unfold add at he
  split at he
  · obtain ⟨d, hd, rfl⟩ := List.mem_map.mp he
    have hpos := h d hd
    split
    · exact Int.lt_add_one_of_le hpos.le
    · exact hpos
  · rcases List.mem_append.mp he with he | he
    · exact h e he
    · rw [List.mem_singleton.mp he]
      exact Int.one_pos

theorem proper_ofList (elements : List α) : (ofList elements).Proper := by
  refine ⟨nodup_ofList elements, ?_⟩
  have hfold : ∀ t : Tally α, (∀ e ∈ t, 0 < e.2) → ∀ e ∈ elements.foldl add t, 0 < e.2 := by
    induction elements with
    | nil => exact fun _ ht => ht
    | cons a elements ih => exact fun t ht => ih (t.add a) (pos_add ht)
  exact hfold [] fun e he => absurd he List.not_mem_nil

theorem mem_keys_ofList {elements : List α} {a : α} (h : a ∈ elements) :
    a ∈ (ofList elements).map Prod.fst := by
  have hcount : (ofList elements).count a ≠ 0 := by
    rw [count_ofList]
    have := List.count_pos_iff.mpr h
    omega
  obtain ⟨e, he, rfl⟩ := mem_map_fst_of_count_ne hcount
  exact List.mem_map_of_mem he

/-- Two lists share, in any order, at least the elements of a list that is part of both. -/
theorem length_le_total_inter {β : Type} [DecidableEq β] {common as bs : List β}
    (has : common.Sublist as) (hbs : common.Sublist bs) :
    (common.length : Int) ≤ ((ofList as).inter (ofList bs)).total := by
  obtain ⟨K, hK, -⟩ := exists_keys (ofList as) (ofList bs)
  rw [(proper_ofList as).total_inter_eq_sum (proper_ofList bs) hK]
  calc (common.length : Int) = ∑ a ∈ common.toFinset, (common.count a : Int) := by
        rw [← Nat.cast_sum, List.sum_toFinset_count_eq_length]
    _ ≤ ∑ a ∈ common.toFinset, min ((ofList as).count a) ((ofList bs).count a) := by
        apply Finset.sum_le_sum
        intro a _
        rw [count_ofList, count_ofList]
        exact le_min (by exact_mod_cast has.count_le a) (by exact_mod_cast hbs.count_le a)
    _ ≤ ∑ a ∈ K, min ((ofList as).count a) ((ofList bs).count a) := by
        apply Finset.sum_le_sum_of_subset_of_nonneg
        · exact fun a ha => hK a (mem_keys_ofList (has.subset (List.mem_toFinset.mp ha)))
        · exact fun a _ _ => le_min ((proper_ofList as).count_nonneg a)
            ((proper_ofList bs).count_nonneg a)

theorem total_ofList {β : Type} [DecidableEq β] (elements : List β) :
    (ofList elements).total = elements.length := by
  rw [(proper_ofList elements).total_eq_sum (K := elements.toFinset)]
  · simp only [count_ofList]
    rw [← Nat.cast_sum, List.sum_toFinset_count_eq_length]
  · intro a ha
    obtain ⟨e, he, rfl⟩ := List.mem_map.mp ha
    by_contra hnot
    have hcount := count_of_mem (nodup_ofList elements) he
    rw [count_ofList, List.count_eq_zero_of_not_mem (fun h => hnot (List.mem_toFinset.mpr h))]
      at hcount
    have hpos := (proper_ofList elements).pos e he
    omega

end CodeHealth.Tally
