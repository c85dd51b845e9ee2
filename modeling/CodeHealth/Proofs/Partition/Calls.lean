import CodeHealth.Proofs.Partition.Classes
import Mathlib.Combinatorics.SimpleGraph.Connectivity.Connected

/-!
# Partitions after any calls

Whatever is called on a partition, and in which order: its sets are the connected components of the
graph of the united pairs. Searches for a root and listings of members shorten links and change no
set.
-/

namespace CodeHealth.Partition

/-- A call on a partition. -/
inductive Call where
  | union (a b : Nat)
  | find (i : Nat)
  | members (i : Nat)
  deriving DecidableEq

/-- Whether a call is about numbers below `n`. -/
def Call.InRange (n : Nat) : Call → Prop
  | union a b => a < n ∧ b < n
  | find i => i < n
  | members i => i < n

instance (n : Nat) : DecidablePred (Call.InRange n)
  | .union _ _ => inferInstanceAs (Decidable (_ ∧ _))
  | .find _ => inferInstanceAs (Decidable (_ < _))
  | .members _ => inferInstanceAs (Decidable (_ < _))

/-- The partition that a call leaves. -/
def call (p : Partition) : Call → Partition
  | .union a b => p.union a b
  | .find i => (p.find i).2
  | .members i => (p.members i).2

/-- The numbers below `n` after some calls. -/
def after (n : Nat) (calls : List Call) : Partition :=
  calls.foldl call (singletons n)

/-- The graph of the united pairs, in which a pair has no direction. -/
def unitedGraph (calls : List Call) : SimpleGraph Nat :=
  SimpleGraph.fromRel fun a b => .union a b ∈ calls

variable {p : Partition} {n : Nat} {calls : List Call} {c : Call}

/-! ## One call -/

theorem Valid.alike_find (h : p.Valid) {i : Nat} (hi : i < p.size) : p.Alike (p.find i).2 :=
  (Alike.refl h).compress hi

theorem Valid.alike_members (h : p.Valid) {i : Nat} (hi : i < p.size) : p.Alike (p.members i).2 :=
  (Alike.refl h).compress hi

theorem Valid.call (h : p.Valid) (hc : c.InRange p.size) :
    (p.call c).Valid ∧ (p.call c).size = p.size := by
  cases c with
  | union a b =>
      obtain ⟨hvalid, hsize, -⟩ := h.union hc.1 hc.2
      exact ⟨hvalid, hsize⟩
  | find i => exact ⟨(h.alike_find hc).valid, (h.alike_find hc).size⟩
  | members i => exact ⟨(h.alike_members hc).valid, (h.alike_members hc).size⟩

/-- A call keeps what is together. -/
theorem Valid.same_call (h : p.Valid) (hc : c.InRange p.size) {i j : Nat} (hij : p.Same i j) :
    (p.call c).Same i j := by
  cases c with
  | union a b => exact ((h.union hc.1 hc.2).2.2 i j).mpr (.inl hij)
  | find k => exact ((h.alike_find hc).same i j).mpr hij
  | members k => exact ((h.alike_members hc).same i j).mpr hij

/-- What a call brings together was together or is joined by its pair. -/
theorem Valid.same_of_call (h : p.Valid) (hc : c.InRange p.size) {i j : Nat}
    (hij : (p.call c).Same i j) :
    p.Same i j ∨ ∃ a b, (c = .union a b ∨ c = .union b a) ∧ p.Same i a ∧ p.Same j b := by
  cases c with
  | union a b =>
      rcases ((h.union hc.1 hc.2).2.2 i j).mp hij with hsame | hpair | hpair
      · exact .inl hsame
      · exact .inr ⟨a, b, .inl rfl, hpair⟩
      · exact .inr ⟨b, a, .inr rfl, hpair⟩
  | find k => exact .inl (((h.alike_find hc).same i j).mp hij)
  | members k => exact .inl (((h.alike_members hc).same i j).mp hij)

/-! ## All calls -/

theorem after_append (n : Nat) (calls : List Call) (c : Call) :
    after n (calls ++ [c]) = (after n calls).call c := by
  simp [after]

theorem valid_after (h : ∀ c ∈ calls, c.InRange n) :
    (after n calls).Valid ∧ (after n calls).size = n := by
  induction calls using List.reverseRecOn with
  | nil => exact ⟨valid_singletons n, size_singletons n⟩
  | append_singleton calls c ih =>
      obtain ⟨hvalid, hsize⟩ := ih fun d hd => h d (List.mem_append_left _ hd)
      have hc : c.InRange (after n calls).size := by
        rw [hsize]
        exact h c (by simp)
      rw [after_append]
      exact ⟨(hvalid.call hc).1, (hvalid.call hc).2.trans hsize⟩

/-- What holds of the singletons and is kept by every call holds after any calls. -/
theorem after_induction {P : List Call → Partition → Prop} (h : ∀ c ∈ calls, c.InRange n)
    (nil : P [] (singletons n))
    (step : ∀ calls c p, p.Valid → c.InRange p.size → P calls p → P (calls ++ [c]) (p.call c)) :
    P calls (after n calls) := by
  induction calls using List.reverseRecOn with
  | nil => exact nil
  | append_singleton calls c ih =>
      have hcalls : ∀ d ∈ calls, d.InRange n := fun d hd => h d (List.mem_append_left _ hd)
      obtain ⟨hvalid, hsize⟩ := valid_after hcalls
      have hc : c.InRange (after n calls).size := by
        rw [hsize]
        exact h c (by simp)
      rw [after_append]
      exact step calls c _ hvalid hc (ih hcalls)

theorem reachable_of_union_mem {a b : Nat} (h : .union a b ∈ calls ∨ .union b a ∈ calls) :
    (unitedGraph calls).Reachable a b := by
  by_cases hab : a = b
  · rw [hab]
  · apply SimpleGraph.Adj.reachable
    rw [unitedGraph, SimpleGraph.fromRel_adj]
    exact ⟨hab, h⟩

theorem unitedGraph_le_append (calls : List Call) (c : Call) :
    unitedGraph calls ≤ unitedGraph (calls ++ [c]) := by
  intro a b hab
  simp only [unitedGraph, SimpleGraph.fromRel_adj, List.mem_append] at hab ⊢
  tauto

theorem reachable_of_same (h : ∀ c ∈ calls, c.InRange n) :
    ∀ {i j}, (after n calls).Same i j → (unitedGraph calls).Reachable i j := by
  refine after_induction (P := fun calls p =>
    ∀ {i j}, p.Same i j → (unitedGraph calls).Reachable i j) h ?_ ?_
  · intro i j hij
    rw [(same_singletons n i j).mp hij]
  · intro calls c p hvalid hc ih i j hij
    have hle := unitedGraph_le_append calls c
    rcases hvalid.same_of_call hc hij with hsame | ⟨a, b, hpair, hia, hjb⟩
    · exact (ih hsame).mono hle
    · have hab : (unitedGraph (calls ++ [c])).Reachable a b := by
        apply reachable_of_union_mem
        rcases hpair with rfl | rfl <;> simp
      exact (((ih hia).mono hle).trans hab).trans ((ih hjb).mono hle).symm

theorem same_of_union_mem (h : ∀ c ∈ calls, c.InRange n) :
    ∀ {a b}, .union a b ∈ calls → (after n calls).Same a b := by
  refine after_induction (P := fun calls p => ∀ {a b}, .union a b ∈ calls → p.Same a b) h ?_ ?_
  · exact fun hab => absurd hab List.not_mem_nil
  · intro calls c p hvalid hc ih a b hab
    rcases List.mem_append.mp hab with hold | hnew
    · exact hvalid.same_call hc (ih hold)
    · obtain rfl := List.mem_singleton.mp hnew
      exact ((hvalid.union hc.1 hc.2).2.2 a b).mpr (.inr (.inl ⟨rfl, rfl⟩))

theorem same_after_iff (h : ∀ c ∈ calls, c.InRange n) (i j : Nat) :
    (after n calls).Same i j ↔ (unitedGraph calls).Reachable i j := by
  refine ⟨reachable_of_same h, fun hij => ?_⟩
  rw [SimpleGraph.reachable_iff_reflTransGen] at hij
  induction hij with
  | refl => exact rfl
  | tail _ hadj ih =>
      rw [unitedGraph, SimpleGraph.fromRel_adj] at hadj
      rcases hadj.2 with hmem | hmem
      · exact ih.trans (same_of_union_mem h hmem)
      · exact ih.trans (same_of_union_mem h hmem).symm

/-! ## Components -/

/-- A partition whose sets are the components of a graph on the numbers below `n`, whichever of its
operations tells them, and whose searches come to an end. -/
structure HasComponents (p : Partition) (n : Nat) (g : SimpleGraph Nat) : Prop where
  groups_perm : p.groups.1.flatten.Perm (List.range n)
  mem_group_iff : ∀ c ∈ p.groups.1, c ≠ [] ∧ ∀ i ∈ c, ∀ j, j ∈ c ↔ j < n ∧ g.Reachable i j
  find_eq_iff : ∀ i < n, ∀ j < n, (p.find i).1 = (p.find j).1 ↔ g.Reachable i j
  find_find : ∀ i < n, (p.find (p.find i).1).1 = (p.find i).1 ∧
    ((p.find i).2.find (p.find i).1).1 = (p.find i).1
  find_keeps : ∀ i < n, (p.find i).2.groups.1 = p.groups.1 ∧
    (∀ j, ((p.find i).2.find j).1 = (p.find j).1) ∧
    ∀ j, ((p.find i).2.members j).1 = (p.members j).1
  members : ∀ i < n, (p.members i).1.Nodup ∧
    ∀ j, j ∈ (p.members i).1 ↔ j < n ∧ g.Reachable i j
  rank_lt : ∀ i < n, p.parentOf i ≠ i → p.rankOf i < p.rankOf (p.parentOf i)
  pow_rank_le : ∀ r < n, p.parentOf r = r → 2 ^ p.rankOf r ≤ (p.members r).1.length
  climbs : ∀ i < n, p.Climbs i (p.find i).1
  shortens : ∀ i < n, Shortens (p.find i).1 i p.parent (p.find i).2.parent

theorem Alike.groups_eq {q : Partition} (hq : p.Alike q) (h : p.Valid) :
    q.groups.1 = p.groups.1 := by
  rw [hq.valid.groups_eq, h.groups_eq, hq.size]
  apply classesBy_congr
  intro i _ j _
  rw [hq.root, hq.root]

theorem Valid.hasComponents (h : p.Valid) {g : SimpleGraph Nat}
    (hsame : ∀ i j, p.Same i j ↔ g.Reachable i j) : p.HasComponents p.size g where
  groups_perm := by
    rw [h.groups_eq]
    exact flatten_classesBy_perm _ _
  mem_group_iff c hc := by
    rw [h.groups_eq] at hc
    refine ⟨ne_nil_of_mem_classesBy hc, fun i hi j => ?_⟩
    rw [mem_of_mem_classesBy hc hi, List.mem_range, ← hsame]
    exact and_congr_right' eq_comm
  find_eq_iff i _ j _ := hsame i j
  find_find i hi := ⟨h.root_root i, ((h.alike_find hi).root _).trans (h.root_root i)⟩
  find_keeps i hi := by
    have hq := h.alike_find hi
    refine ⟨hq.groups_eq h, hq.root, fun j => ?_⟩
    show p.membersAt.getD ((p.compress i).root j) [] = p.membersAt.getD (p.root j) []
    rw [h.root_compress hi]
  members i hi := by
    refine ⟨h.nodup_membersAt _, fun j => ?_⟩
    rw [h.mem_members, ← hsame]
    exact and_congr_right' eq_comm
  rank_lt i _ hne := h.rank_lt i hne
  pow_rank_le r hr hroot := by
    show 2 ^ p.rankOf r ≤ (p.membersAt.getD (p.root r) []).length
    rw [root_of_fixed hroot]
    exact h.pow_rank_le r hr hroot
  climbs i _ := h.climbs i
  shortens i hi := h.shortens hi

/-- After any calls the sets are the components of the graph of the united pairs. So they are the
same after any other calls that unite the same pairs, in whatever order and direction. -/
theorem hasComponents_after (n : Nat) (calls : List Call) (h : ∀ c ∈ calls, c.InRange n) :
    (after n calls).HasComponents n (unitedGraph calls) ∧
      ∀ calls', (∀ c ∈ calls', c.InRange n) →
        (∀ a b, a ≠ b → ((.union a b ∈ calls' ∨ .union b a ∈ calls') ↔
          (.union a b ∈ calls ∨ .union b a ∈ calls))) →
        (after n calls').groups.1 = (after n calls).groups.1 := by
  obtain ⟨hvalid, hsize⟩ := valid_after h
  constructor
  · have hcomponents := hvalid.hasComponents (same_after_iff h)
    rwa [hsize] at hcomponents
  · intro calls' h' hpairs
    obtain ⟨hvalid', hsize'⟩ := valid_after h'
    have hgraph : unitedGraph calls' = unitedGraph calls := by
      ext a b
      simp only [unitedGraph, SimpleGraph.fromRel_adj]
      exact and_congr_right fun hab => hpairs a b hab
    rw [hvalid'.groups_eq, hvalid.groups_eq, hsize, hsize']
    apply classesBy_congr
    intro i _ j _
    have hsame := same_after_iff h' i j
    rw [hgraph, ← same_after_iff h] at hsame
    exact hsame

/-- Four numbers of which three are united, with searches in between. -/
def threeOfFour : List Call :=
  [.union 0 1, .find 1, .union 2 1, .members 0]

theorem threeOfFour_hasComponents :
    (∀ c ∈ threeOfFour, c.InRange 4) ∧
      (after 4 threeOfFour).HasComponents 4 (unitedGraph threeOfFour) ∧
      (after 4 threeOfFour).groups.1 = [[0, 1, 2], [3]] ∧
      (after 4 [.union 1 2, .union 0 1]).groups.1 = [[0, 1, 2], [3]] := by
  have hrange : ∀ c ∈ threeOfFour, c.InRange 4 := by decide
  obtain ⟨hcomponents, hsame⟩ := hasComponents_after 4 threeOfFour hrange
  have hgroups : (after 4 threeOfFour).groups.1 = [[0, 1, 2], [3]] := by decide
  refine ⟨hrange, hcomponents, hgroups, ?_⟩
  rw [← hgroups]
  apply hsame _ (by decide)
  intro a b _
  simp [threeOfFour]
  omega

end CodeHealth.Partition
