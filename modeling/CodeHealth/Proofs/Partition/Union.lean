import CodeHealth.Proofs.Partition.Root
import Mathlib.Data.List.Nodup

/-!
# Joined sets

Joining two numbers joins their sets and no others. The listed members of a set are the numbers in
it.
-/

namespace CodeHealth.Partition

variable {p : Partition}

/-! ## Singletons -/

@[simp] theorem size_singletons (n : Nat) : (singletons n).size = n := by
  simp [singletons, size]

theorem parentOf_singletons (n i : Nat) : (singletons n).parentOf i = i := by
  unfold parentOf singletons
  by_cases hi : i < n
  · simp [hi]
  · simp [List.getElem?_eq_none (l := List.range n) (i := i) (by simpa using hi)]

theorem root_singletons (n i : Nat) : (singletons n).root i = i :=
  root_of_fixed (parentOf_singletons n i)

theorem same_singletons (n i j : Nat) : (singletons n).Same i j ↔ i = j := by
  unfold Same
  rw [root_singletons, root_singletons]

private theorem membersAt_singletons (n r : Nat) :
    (singletons n).membersAt.getD r [] = if r < n then [r] else [] := by
  unfold singletons
  by_cases hr : r < n
  · simp [hr]
  · simp [hr]

private theorem rankOf_singletons (n r : Nat) : (singletons n).rankOf r = 0 := by
  unfold rankOf singletons
  by_cases hr : r < n
  · simp [hr]
  · simp [hr]

theorem valid_singletons (n : Nat) : (singletons n).Valid where
  rank_length := by simp [singletons, size]
  parent_lt i hi := by rwa [parentOf_singletons]
  rank_lt i hi := absurd (parentOf_singletons n i) hi
  members_length := by simp [singletons, size]
  mem_membersAt r _ i := by
    rw [membersAt_singletons, size_singletons, root_singletons]
    split <;> grind
  nodup_membersAt r := by
    rw [membersAt_singletons]
    split <;> simp
  pow_rank_le r hr _ := by
    rw [size_singletons] at hr
    rw [rankOf_singletons, membersAt_singletons, if_pos hr]
    simp

/-! ## Attaching one root to another -/

section attach

variable {upper lower : Nat}

@[simp] theorem size_attach (p : Partition) (upper lower : Nat) :
    (p.attach upper lower).size = p.size := by
  simp [attach, size]

private theorem parentOf_attach (hlower : lower < p.size) (j : Nat) :
    (p.attach upper lower).parentOf j = if j = lower then upper else p.parentOf j :=
  parentOf_set p.parent (p.attach upper lower) lower upper j hlower

private theorem rankOf_attach (h : p.Ranked) (hupper : upper < p.size) (j : Nat) :
    (p.attach upper lower).rankOf j =
      if j = upper ∧ p.rankOf upper = p.rankOf lower then p.rankOf upper + 1
      else p.rankOf j := by
  have hlen : upper < p.rank.length := by rw [h.rank_length]; exact hupper
  by_cases htie : p.rankOf upper = p.rankOf lower
  · have hrank : (p.attach upper lower).rank = p.rank.set upper (p.rankOf upper + 1) :=
      if_pos (beq_iff_eq.mpr htie)
    unfold rankOf at hrank htie ⊢
    rw [hrank]
    by_cases hj : j = upper
    · rw [if_pos ⟨hj, htie⟩, hj]
      simp [hlen]
    · rw [if_neg (fun hboth => hj hboth.1)]
      simp [Ne.symm hj]
  · have hrank : (p.attach upper lower).rank = p.rank :=
      if_neg (by rw [beq_iff_eq]; exact htie)
    rw [if_neg (fun hboth => htie hboth.2), rankOf, hrank, rankOf]

private theorem membersAt_attach (h : p.Valid) (hupper : upper < p.size) (hlower : lower < p.size)
    (hne : upper ≠ lower) (r : Nat) :
    (p.attach upper lower).membersAt.getD r [] =
      if r = lower then []
      else if r = upper then p.membersAt.getD upper [] ++ p.membersAt.getD lower []
      else p.membersAt.getD r [] := by
  have hu : upper < p.membersAt.length := by rw [h.members_length]; exact hupper
  have hl : lower < p.membersAt.length := by rw [h.members_length]; exact hlower
  unfold attach
  by_cases hrl : r = lower
  · simp [hrl, hl]
  · by_cases hru : r = upper
    · simp [hru, hu, hne, Ne.symm hne]
    · simp [hrl, hru, Ne.symm hrl, Ne.symm hru]

variable (h : p.Valid) (hupper : p.parentOf upper = upper) (hlower : p.parentOf lower = lower)
  (hu : upper < p.size) (hl : lower < p.size) (hne : upper ≠ lower)
  (hrank : p.rankOf lower ≤ p.rankOf upper)

include h hupper hlower hu hl hne hrank

private theorem ranked_attach : (p.attach upper lower).Ranked where
  rank_length := by
    have hlen := h.rank_length
    rw [size_attach]
    unfold attach
    dsimp only
    split <;> simp [hlen]
  parent_lt i hi := by
    rw [size_attach] at hi ⊢
    rw [parentOf_attach hl]
    split
    · exact hu
    · exact h.parent_lt i hi
  rank_lt i hi := by
    rw [parentOf_attach hl] at hi ⊢
    rw [rankOf_attach h.toRanked hu, rankOf_attach h.toRanked hu]
    by_cases hil : i = lower
    · -- the upper root gets a higher rank if both had the same
      subst hil
      rw [if_pos rfl, if_neg (by omega)]
      split <;> omega
    · rw [if_neg hil] at hi ⊢
      have hlt := h.rank_lt i hi
      have hiu : i ≠ upper := fun heq => hi (heq ▸ hupper)
      rw [if_neg (fun hboth => hiu hboth.1)]
      split <;> grind

private theorem root_attach (j : Nat) :
    (p.attach upper lower).root j = if p.root j = lower then upper else p.root j := by
  have hranked := ranked_attach h hupper hlower hu hl hne hrank
  apply hranked.root_eq_of (f := fun j => if p.root j = lower then upper else p.root j)
  · intro r hr
    rw [parentOf_attach hl] at hr
    by_cases hrl : r = lower
    · exact absurd (hr.symm.trans (if_pos hrl)) (by rw [hrl]; exact Ne.symm hne)
    · rw [if_neg hrl] at hr
      rw [root_of_fixed hr, if_neg hrl]
  · intro i
    rw [parentOf_attach hl]
    by_cases hil : i = lower
    · subst hil
      rw [if_pos rfl, root_of_fixed hupper, root_of_fixed hlower, if_neg hne, if_pos rfl]
    · rw [if_neg hil, h.root_parentOf]

private theorem valid_attach : (p.attach upper lower).Valid where
  toRanked := ranked_attach h hupper hlower hu hl hne hrank
  members_length := by
    rw [size_attach]
    simpa [attach] using h.members_length
  mem_membersAt r hr i := by
    rw [membersAt_attach h hu hl hne, size_attach,
      root_attach h hupper hlower hu hl hne hrank]
    rw [parentOf_attach hl] at hr
    by_cases hrl : r = lower
    · exact absurd (hr.symm.trans (if_pos hrl)) (by rw [hrl]; exact Ne.symm hne)
    · rw [if_neg hrl] at hr
      rw [if_neg hrl]
      by_cases hru : r = upper
      · rw [if_pos hru, List.mem_append, h.mem_membersAt upper hupper,
          h.mem_membersAt lower hlower]
        split <;> grind
      · rw [if_neg hru, h.mem_membersAt r hr]
        split <;> grind
  nodup_membersAt r := by
    rw [membersAt_attach h hu hl hne]
    split
    · exact List.nodup_nil
    · split
      · refine List.Nodup.append (h.nodup_membersAt upper) (h.nodup_membersAt lower) ?_
        intro i hiu hil
        rw [h.mem_membersAt upper hupper] at hiu
        rw [h.mem_membersAt lower hlower] at hil
        exact hne (hiu.2.symm.trans hil.2)
      · exact h.nodup_membersAt r
  pow_rank_le r hsize hr := by
    rw [size_attach] at hsize
    rw [parentOf_attach hl] at hr
    have hrl : r ≠ lower := fun heq =>
      absurd (hr.symm.trans (if_pos heq)) (by rw [heq]; exact Ne.symm hne)
    rw [if_neg hrl] at hr
    rw [rankOf_attach h.toRanked hu, membersAt_attach h hu hl hne, if_neg hrl]
    by_cases hru : r = upper
    · subst hru
      have hup := h.pow_rank_le r hu hupper
      have hlow := h.pow_rank_le lower hl hlower
      rw [if_pos rfl, List.length_append]
      by_cases htie : p.rankOf r = p.rankOf lower
      · rw [if_pos ⟨rfl, htie⟩, Nat.pow_succ]
        rw [← htie] at hlow
        omega
      · rw [if_neg (fun hboth => htie hboth.2)]
        omega
    · rw [if_neg (fun hboth => hru hboth.1), if_neg hru]
      exact h.pow_rank_le r hsize hr

private theorem same_attach (i j : Nat) :
    (p.attach upper lower).Same i j ↔
      p.Same i j ∨ (p.Same i upper ∧ p.Same j lower) ∨ (p.Same i lower ∧ p.Same j upper) := by
  unfold Same
  rw [root_attach h hupper hlower hu hl hne hrank, root_attach h hupper hlower hu hl hne hrank,
    root_of_fixed hupper, root_of_fixed hlower]
  split <;> split <;> grind

end attach

/-! ## The operations -/

/-- Both searches of a union shorten links, and then one root is attached to the other. -/
private theorem union_eq (h : p.Valid) {a : Nat} (ha : a < p.size) (b : Nat) :
    p.union a b =
      if p.root a = p.root b then (p.compress a).compress b
      else if ((p.compress a).compress b).rankOf (p.root a) <
          ((p.compress a).compress b).rankOf (p.root b) then
        ((p.compress a).compress b).attach (p.root b) (p.root a)
      else ((p.compress a).compress b).attach (p.root a) (p.root b) := by
  simp only [Partition.union, find, h.root_compress ha, beq_iff_eq]
  rfl

private theorem Alike.attach {q : Partition} (hq : p.Alike q) (h : p.Valid) {a b : Nat}
    (ha : a < p.size) (hb : b < p.size) (hne : p.root a ≠ p.root b)
    (hrank : q.rankOf (p.root b) ≤ q.rankOf (p.root a)) :
    (q.attach (p.root a) (p.root b)).Valid ∧ (q.attach (p.root a) (p.root b)).size = p.size ∧
      ∀ i j, (q.attach (p.root a) (p.root b)).Same i j ↔
        p.Same i j ∨ (p.Same i a ∧ p.Same j b) ∨ (p.Same i b ∧ p.Same j a) := by
  have hfix : ∀ i, q.parentOf (p.root i) = p.root i := fun i =>
    hq.root i ▸ hq.valid.parentOf_root i
  have hlt : ∀ {i}, i < p.size → p.root i < q.size := fun hi => by
    rw [hq.size]
    exact h.root_lt hi
  have hsame : ∀ i c, q.Same i (p.root c) ↔ p.Same i c := fun i c => by
    rw [hq.same]
    unfold Same
    rw [h.root_root]
  refine ⟨valid_attach hq.valid (hfix a) (hfix b) (hlt ha) (hlt hb) hne hrank,
    by rw [size_attach, hq.size], fun i j => ?_⟩
  rw [same_attach hq.valid (hfix a) (hfix b) (hlt ha) (hlt hb) hne hrank, hq.same, hsame, hsame,
    hsame, hsame]

theorem Valid.union (h : p.Valid) {a b : Nat} (ha : a < p.size) (hb : b < p.size) :
    (p.union a b).Valid ∧ (p.union a b).size = p.size ∧
      ∀ i j, (p.union a b).Same i j ↔
        p.Same i j ∨ (p.Same i a ∧ p.Same j b) ∨ (p.Same i b ∧ p.Same j a) := by
  have hq := ((Alike.refl h).compress ha).compress hb
  rw [union_eq h ha b]
  split
  · rename_i heq
    refine ⟨hq.valid, hq.size, fun i j => ?_⟩
    rw [hq.same]
    unfold Same
    grind
  · rename_i hne
    split
    · rename_i hlt
      obtain ⟨hvalid, hsize, hsame⟩ := hq.attach h hb ha (Ne.symm hne) hlt.le
      refine ⟨hvalid, hsize, fun i j => ?_⟩
      rw [hsame, or_comm (a := p.Same i b ∧ p.Same j a)]
    · rename_i hge
      exact hq.attach h ha hb hne (by omega)

theorem Valid.mem_members (h : p.Valid) (a i : Nat) :
    i ∈ (p.members a).1 ↔ i < p.size ∧ p.Same i a := by
  rw [members, h.mem_membersAt _ (h.parentOf_root a)]
  rfl

end CodeHealth.Partition
