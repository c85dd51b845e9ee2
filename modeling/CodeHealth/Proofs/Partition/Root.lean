import CodeHealth.Partition
import Mathlib.Algebra.Group.Nat.Defs
import Mathlib.Data.Finset.Card
import Mathlib.Data.Finset.Range

/-!
# Roots of a partition

Ranks grow strictly along parent links, so every number reaches a root, and the number of elements
of higher rank bounds the way to it. Shortening links keeps every root, and both loops of a search
end.
-/

namespace CodeHealth.Partition

variable {p : Partition}

/-- The rank of a number; one out of range has rank zero. -/
def rankOf (p : Partition) (i : Nat) : Nat :=
  p.rank.getD i 0

/-- Two numbers are in one set. -/
def Same (p : Partition) (i j : Nat) : Prop :=
  p.root i = p.root j

instance (p : Partition) (i j : Nat) : Decidable (p.Same i j) :=
  inferInstanceAs (Decidable (p.root i = p.root j))

/-- Links stay in range and lead to higher ranks. -/
structure Ranked (p : Partition) : Prop where
  rank_length : p.rank.length = p.size
  parent_lt : ∀ i < p.size, p.parentOf i < p.size
  rank_lt : ∀ i, p.parentOf i ≠ i → p.rankOf i < p.rankOf (p.parentOf i)

/-- A ranked partition that lists the members of each set once at its root, and a root of rank `r`
has at least `2 ^ r` of them. -/
structure Valid (p : Partition) : Prop extends Ranked p where
  members_length : p.membersAt.length = p.size
  mem_membersAt : ∀ r, p.parentOf r = r →
    ∀ i, i ∈ p.membersAt.getD r [] ↔ i < p.size ∧ p.root i = r
  nodup_membersAt : ∀ r, (p.membersAt.getD r []).Nodup
  pow_rank_le : ∀ r < p.size, p.parentOf r = r →
    2 ^ p.rankOf r ≤ (p.membersAt.getD r []).length

theorem Same.symm {i j : Nat} (h : p.Same i j) : p.Same j i :=
  Eq.symm h

theorem Same.trans {i j k : Nat} (hij : p.Same i j) (hjk : p.Same j k) : p.Same i k :=
  Eq.trans hij hjk

theorem parentOf_of_size_le {i : Nat} (hi : p.size ≤ i) : p.parentOf i = i := by
  unfold parentOf
  rw [List.getD_eq_getElem?_getD, List.getElem?_eq_none hi, Option.getD_none]

theorem lt_size_of_parentOf_ne {i : Nat} (hi : p.parentOf i ≠ i) : i < p.size := by
  by_contra hge
  exact hi (parentOf_of_size_le (by omega))

/-! ## The way to a root -/

/-- The numbers of higher rank than `i`. -/
private def above (p : Partition) (i : Nat) : Finset Nat :=
  (Finset.range p.size).filter fun j => p.rankOf i < p.rankOf j

private theorem card_above_parent_lt (h : p.Ranked) {i : Nat} (hi : p.parentOf i ≠ i) :
    (p.above (p.parentOf i)).card < (p.above i).card := by
  have hrank := h.rank_lt i hi
  have hlt := h.parent_lt i (lt_size_of_parentOf_ne hi)
  apply Finset.card_lt_card
  rw [Finset.ssubset_iff_of_subset]
  · refine ⟨p.parentOf i, ?_, ?_⟩ <;> simp [above, hlt, hrank]
  · intro j hj
    simp only [above, Finset.mem_filter, Finset.mem_range] at hj ⊢
    exact ⟨hj.1, by omega⟩

private theorem card_above_le (i : Nat) : (p.above i).card ≤ p.size := by
  have h := Finset.card_filter_le (Finset.range p.size) fun j => p.rankOf i < p.rankOf j
  rwa [Finset.card_range] at h

/-- What holds of roots and is handed down along links holds of every number. -/
theorem Ranked.induction (h : p.Ranked) {P : Nat → Prop} (hroot : ∀ r, p.parentOf r = r → P r)
    (hstep : ∀ i, p.parentOf i ≠ i → P (p.parentOf i) → P i) (i : Nat) : P i := by
  generalize hn : (p.above i).card = n
  induction n using Nat.strongRecOn generalizing i with
  | ind n ih =>
      by_cases hi : p.parentOf i = i
      · exact hroot i hi
      · exact hstep i hi (ih _ (hn ▸ card_above_parent_lt h hi) _ rfl)

private theorem rootWithin_of_fixed {r : Nat} (hr : p.parentOf r = r) (fuel : Nat) :
    p.rootWithin fuel r = r := by
  cases fuel with
  | zero => rfl
  | succ fuel => simp [rootWithin, hr]

/-- Fuel beyond the numbers of higher rank changes nothing. -/
private theorem rootWithin_eq (h : p.Ranked) (fuel extra i : Nat)
    (hfuel : (p.above i).card ≤ fuel) :
    p.rootWithin (fuel + extra) i = p.rootWithin fuel i := by
  induction fuel generalizing i with
  | zero =>
      -- no number is of higher rank, so this one is a root
      have hi : p.parentOf i = i := by
        by_contra hne
        have := card_above_parent_lt h hne
        omega
      rw [rootWithin_of_fixed hi, rootWithin_of_fixed hi]
  | succ fuel ih =>
      by_cases hi : p.parentOf i = i
      · rw [rootWithin_of_fixed hi, rootWithin_of_fixed hi]
      · have hlt := card_above_parent_lt h hi
        rw [show fuel + 1 + extra = fuel + extra + 1 by omega]
        simp only [rootWithin, beq_iff_eq, if_neg hi]
        exact ih _ (by omega)

theorem root_of_fixed {r : Nat} (hr : p.parentOf r = r) : p.root r = r :=
  rootWithin_of_fixed hr _

theorem Ranked.root_parentOf (h : p.Ranked) (i : Nat) : p.root (p.parentOf i) = p.root i := by
  by_cases hi : p.parentOf i = i
  · rw [hi]
  · have hsize := lt_size_of_parentOf_ne hi
    have hlt := card_above_parent_lt h hi
    have hle := card_above_le (p := p) i
    obtain ⟨n, hn⟩ : ∃ n, p.size = n + 1 := ⟨p.size - 1, by omega⟩
    have hparent := rootWithin_eq h n 1 (p.parentOf i) (by omega)
    unfold root
    rw [hn, hparent]
    simp [rootWithin, hi]

theorem Ranked.parentOf_root (h : p.Ranked) (i : Nat) : p.parentOf (p.root i) = p.root i := by
  induction i using h.induction with
  | hroot r hr => rw [root_of_fixed hr, hr]
  | hstep i _ ih => rwa [h.root_parentOf] at ih

theorem Ranked.root_root (h : p.Ranked) (i : Nat) : p.root (p.root i) = p.root i :=
  root_of_fixed (h.parentOf_root i)

theorem Ranked.root_lt (h : p.Ranked) {i : Nat} (hi : i < p.size) : p.root i < p.size := by
  induction i using h.induction with
  | hroot r hr => rwa [root_of_fixed hr]
  | hstep i _ ih => rw [← h.root_parentOf]; exact ih (h.parent_lt i hi)

theorem Ranked.rank_le_root (h : p.Ranked) (i : Nat) : p.rankOf i ≤ p.rankOf (p.root i) := by
  induction i using h.induction with
  | hroot r hr => rw [root_of_fixed hr]
  | hstep i hi ih =>
      rw [h.root_parentOf] at ih
      exact (h.rank_lt i hi).le.trans ih

theorem Ranked.rank_lt_root (h : p.Ranked) {i : Nat} (hi : p.root i ≠ i) :
    p.rankOf i < p.rankOf (p.root i) := by
  have hne : p.parentOf i ≠ i := fun hfix => hi (root_of_fixed hfix)
  have hle := h.rank_le_root (p.parentOf i)
  rw [h.root_parentOf] at hle
  exact (h.rank_lt i hne).trans_le hle

/-- The root is the only function that fixes roots and is constant along links. -/
theorem Ranked.root_eq_of (h : p.Ranked) {f : Nat → Nat} (hfix : ∀ r, p.parentOf r = r → f r = r)
    (hlink : ∀ i, f (p.parentOf i) = f i) (i : Nat) : p.root i = f i := by
  induction i using h.induction with
  | hroot r hr => rw [root_of_fixed hr, hfix r hr]
  | hstep i _ ih => rw [← h.root_parentOf, ih, hlink]

/-! ## Shortened links -/

theorem parentOf_set (parent : List Nat) (p : Partition) (i r j : Nat) (hi : i < parent.length) :
    parentOf { p with parent := parent.set i r } j =
      if j = i then r else parentOf { p with parent := parent } j := by
  unfold parentOf
  dsimp only
  rw [List.getD_eq_getElem?_getD, List.getD_eq_getElem?_getD, List.getElem?_set]
  by_cases hj : j = i
  · simp [hj, hi]
  · rw [if_neg (Ne.symm hj), if_neg hj]

/-- Links as in `p`, but for one that leads to a root at once. -/
private def relink (p : Partition) (i : Nat) : Partition :=
  { p with parent := p.parent.set i (p.root i) }

private theorem parentOf_relink {i : Nat} (hi : i < p.size) (j : Nat) :
    (p.relink i).parentOf j = if j = i then p.root i else p.parentOf j :=
  parentOf_set p.parent p i (p.root i) j hi

private theorem ranked_relink (h : p.Ranked) {i : Nat} (hi : i < p.size) :
    (p.relink i).Ranked where
  rank_length := by simpa [relink, size] using h.rank_length
  parent_lt j hj := by
    have hj' : j < p.size := by simpa [relink, size] using hj
    have hsize : (p.relink i).size = p.size := by simp [relink, size]
    rw [hsize, parentOf_relink hi]
    split
    · exact h.root_lt hi
    · exact h.parent_lt j hj'
  rank_lt j hj := by
    rw [parentOf_relink hi] at hj ⊢
    by_cases hji : j = i
    · subst hji
      rw [if_pos rfl] at hj ⊢
      exact h.rank_lt_root hj
    · rw [if_neg hji] at hj ⊢
      exact h.rank_lt j hj

private theorem root_relink (h : p.Ranked) {i : Nat} (hi : i < p.size) (j : Nat) :
    (p.relink i).root j = p.root j := by
  apply (ranked_relink h hi).root_eq_of
  · intro r hr
    rw [parentOf_relink hi] at hr
    by_cases hri : r = i
    · rwa [if_pos hri, ← hri] at hr
    · rw [if_neg hri] at hr
      exact root_of_fixed hr
  · intro k
    rw [parentOf_relink hi]
    by_cases hki : k = i
    · rw [if_pos hki, h.root_root, hki]
    · rw [if_neg hki, h.root_parentOf]

private theorem compressWithin_of_link {fuel i root : Nat} {parent : List Nat}
    (h : parent.getD i i = root) : compressWithin root fuel i parent = parent := by
  cases fuel with
  | zero => rfl
  | succ fuel => simp only [compressWithin, beq_iff_eq, if_pos h]

private theorem compressWithin_of_ne {fuel i root : Nat} {parent : List Nat}
    (h : parent.getD i i ≠ root) :
    compressWithin root (fuel + 1) i parent =
      compressWithin root fuel (parent.getD i i) (parent.set i root) := by
  simp only [compressWithin, beq_iff_eq, if_neg h]

private theorem size_relink (p : Partition) (i : Nat) : (p.relink i).size = p.size := by
  simp [relink, size]

/-- The next link starts where the old one of `i` led to, and has the same root. -/
private theorem root_relink_parentOf (h : p.Ranked) {i : Nat} (hi : i < p.size) :
    (p.relink i).root (p.parentOf i) = p.root i := by
  rw [root_relink h hi, h.root_parentOf]

private theorem compressWithin_spec (fuel i : Nat) :
    ∀ p : Partition, p.Ranked → i < p.size →
      let q : Partition := { p with parent := compressWithin (p.root i) fuel i p.parent }
      q.Ranked ∧ q.size = p.size ∧ ∀ j, q.root j = p.root j := by
  induction fuel generalizing i with
  | zero => exact fun p h _ => ⟨h, rfl, fun _ => rfl⟩
  | succ fuel ih =>
      intro p h hi
      by_cases hnext : p.parentOf i = p.root i
      · rw [compressWithin_of_link hnext]
        exact ⟨h, rfl, fun _ => rfl⟩
      · obtain ⟨hranked, hlen, hsame⟩ := ih (p.parentOf i) (p.relink i) (ranked_relink h hi)
          (size_relink p i ▸ h.parent_lt i hi)
        rw [root_relink_parentOf h hi] at hranked hlen hsame
        rw [compressWithin_of_ne hnext]
        exact ⟨hranked, hlen.trans (size_relink p i),
          fun j => (hsame j).trans (root_relink h hi j)⟩

theorem Ranked.compress (h : p.Ranked) {i : Nat} (hi : i < p.size) : (p.compress i).Ranked :=
  (compressWithin_spec p.size i p h hi).1

@[simp] theorem membersAt_compress (p : Partition) (i : Nat) :
    (p.compress i).membersAt = p.membersAt := rfl

theorem Ranked.size_compress (h : p.Ranked) {i : Nat} (hi : i < p.size) :
    (p.compress i).size = p.size :=
  (compressWithin_spec p.size i p h hi).2.1

theorem Ranked.root_compress (h : p.Ranked) {i : Nat} (hi : i < p.size) (j : Nat) :
    (p.compress i).root j = p.root j :=
  (compressWithin_spec p.size i p h hi).2.2 j

theorem Ranked.fixed_of_compress (h : p.Ranked) {i r : Nat} (hi : i < p.size)
    (hr : (p.compress i).parentOf r = r) : p.parentOf r = r := by
  have hroot := root_of_fixed hr
  rw [h.root_compress hi] at hroot
  rw [← hroot]
  exact h.parentOf_root r

theorem Valid.compress (h : p.Valid) {i : Nat} (hi : i < p.size) : (p.compress i).Valid where
  toRanked := h.toRanked.compress hi
  members_length := by rw [h.size_compress hi]; exact h.members_length
  mem_membersAt r hr j := by
    rw [membersAt_compress, h.mem_membersAt r (h.fixed_of_compress hi hr), h.size_compress hi,
      h.root_compress hi]
  nodup_membersAt := h.nodup_membersAt
  pow_rank_le r hsize hr := by
    rw [h.size_compress hi] at hsize
    exact h.pow_rank_le r hsize (h.fixed_of_compress hi hr)

/-- A valid partition of as many numbers with the same roots. -/
structure Alike (p q : Partition) : Prop where
  valid : q.Valid
  size : q.size = p.size
  root : ∀ i, q.root i = p.root i

theorem Alike.refl (h : p.Valid) : p.Alike p :=
  ⟨h, rfl, fun _ => rfl⟩

theorem Alike.compress {q : Partition} (h : p.Alike q) {i : Nat} (hi : i < p.size) :
    p.Alike (q.compress i) where
  valid := h.valid.compress (h.size ▸ hi)
  size := (h.valid.size_compress (h.size ▸ hi)).trans h.size
  root j := (h.valid.root_compress (h.size ▸ hi) j).trans (h.root j)

theorem Alike.same {q : Partition} (h : p.Alike q) (i j : Nat) : q.Same i j ↔ p.Same i j := by
  unfold Same
  rw [h.root, h.root]

/-! ## The loops of a search

Neither loop of a search counts its steps. Each stops because the way to a root is finite. -/

/-- Going up the links from a number ends at a root. -/
inductive Climbs (p : Partition) : Nat → Nat → Prop
  | stop {r : Nat} (hr : p.parentOf r = r) : Climbs p r r
  | up {i r : Nat} (hi : p.parentOf i ≠ i) (hrest : Climbs p (p.parentOf i) r) : Climbs p i r

/-- Linking each number on the way from one to `root` ends with some links. -/
inductive Shortens (root : Nat) : Nat → List Nat → List Nat → Prop
  | stop {i : Nat} {parent : List Nat} (hi : parent.getD i i = root) :
      Shortens root i parent parent
  | link {i : Nat} {parent shortened : List Nat} (hi : parent.getD i i ≠ root)
      (hrest : Shortens root (parent.getD i i) (parent.set i root) shortened) :
      Shortens root i parent shortened

theorem Ranked.climbs (h : p.Ranked) (i : Nat) : p.Climbs i (p.root i) := by
  induction i using h.induction with
  | hroot r hr =>
      rw [root_of_fixed hr]
      exact .stop hr
  | hstep i hi ih =>
      rw [h.root_parentOf] at ih
      exact .up hi ih

private theorem above_relink (p : Partition) (i j : Nat) :
    (p.relink i).above j = p.above j := by
  simp [above, rankOf, relink, size]

private theorem shortens_compressWithin (fuel i : Nat) :
    ∀ p : Partition, p.Ranked → i < p.size → (p.above i).card ≤ fuel →
      Shortens (p.root i) i p.parent (compressWithin (p.root i) fuel i p.parent) := by
  induction fuel generalizing i with
  | zero =>
      intro p h _ hfuel
      have hfix : p.parentOf i = i := by
        by_contra hne
        have := card_above_parent_lt h hne
        omega
      exact .stop (hfix.trans (root_of_fixed hfix).symm)
  | succ fuel ih =>
      intro p h hi hfuel
      by_cases hnext : p.parentOf i = p.root i
      · rw [compressWithin_of_link hnext]
        exact .stop hnext
      · have hne : p.parentOf i ≠ i := fun hfix => hnext (hfix.trans (root_of_fixed hfix).symm)
        have hless := card_above_parent_lt h hne
        have hrest := ih (p.parentOf i) (p.relink i) (ranked_relink h hi)
          (size_relink p i ▸ h.parent_lt i hi) (by rw [above_relink]; omega)
        rw [root_relink_parentOf h hi] at hrest
        rw [compressWithin_of_ne hnext]
        exact .link hnext hrest

theorem Ranked.shortens (h : p.Ranked) {i : Nat} (hi : i < p.size) :
    Shortens (p.root i) i p.parent (p.compress i).parent :=
  shortens_compressWithin p.size i p h hi (card_above_le i)

end CodeHealth.Partition
