import CodeHealth.Duplicate.Match
import CodeHealth.Proofs.Partition.Union
import Mathlib.Logic.Relation

/-!
# Linked blocks

What a link does to the groups of blocks: it joins two of them, or refuses since they hold blocks
that overlap. Groups stay free of overlaps and connected by accepted pairs, and a refusal stays
justified as groups grow.
-/

namespace CodeHealth

/-- Blocks are numbered by their places. -/
def Numbered (blocks : List CodeBlock) : Prop :=
  ∀ (i : Nat) (b : CodeBlock), blocks[i]? = some b → b.index = i

theorem CodeBlock.overlaps_comm (a b : CodeBlock) : a.overlaps b = b.overlaps a := by
  unfold overlaps
  rw [Bool.eq_iff_iff]
  simp only [Bool.and_eq_true, beq_iff_eq, decide_eq_true_eq]
  constructor <;> rintro ⟨⟨hpath, hab⟩, hba⟩ <;> exact ⟨⟨hpath.symm, hba⟩, hab⟩

section numbered

variable {blocks : List CodeBlock} (hnum : Numbered blocks)

include hnum

theorem Numbered.getElem?_index {a : CodeBlock} (ha : a ∈ blocks) : blocks[a.index]? = some a := by
  obtain ⟨i, hi⟩ := List.mem_iff_getElem?.mp ha
  rwa [hnum i a hi]

theorem Numbered.index_lt {a : CodeBlock} (ha : a ∈ blocks) : a.index < blocks.length :=
  (List.getElem?_eq_some_iff.mp (hnum.getElem?_index ha)).1

theorem Numbered.eq_of_index {a b : CodeBlock} (ha : a ∈ blocks) (hb : b ∈ blocks)
    (hab : a.index = b.index) : a = b := by
  have hget := hnum.getElem?_index ha
  rw [hab, hnum.getElem?_index hb] at hget
  exact (Option.some.inj hget).symm

theorem Numbered.exists_of_lt {i : Nat} (hi : i < blocks.length) :
    ∃ a ∈ blocks, a.index = i :=
  ⟨blocks[i], List.getElem_mem hi, hnum i _ (List.getElem?_eq_getElem hi)⟩

theorem Numbered.overlapAt_index {a b : CodeBlock} (ha : a ∈ blocks) (hb : b ∈ blocks) :
    Linking.overlapAt blocks a.index b.index = a.overlaps b := by
  unfold Linking.overlapAt
  rw [hnum.getElem?_index ha, hnum.getElem?_index hb]

theorem Numbered.pairwise_index : blocks.Pairwise fun a b => a.index < b.index := by
  rw [List.pairwise_iff_getElem]
  intro i j hi hj hij
  rwa [hnum i _ (List.getElem?_eq_getElem hi), hnum j _ (List.getElem?_eq_getElem hj)]

theorem Numbered.nodup : blocks.Nodup :=
  hnum.pairwise_index.imp fun hlt heq => absurd hlt (by rw [heq]; omega)

theorem Numbered.map_index : blocks.map CodeBlock.index = List.range blocks.length := by
  apply List.ext_getElem
  · simp
  · intro i hi _
    have hget := hnum i _ (List.getElem?_eq_getElem (by simpa using hi))
    simpa using hget

end numbered

namespace Linking

variable {blocks : List CodeBlock} {accepted : CodeBlock → CodeBlock → Prop} {s s' : Linking}

/-- Two blocks are in one group. -/
def Together (s : Linking) (a b : CodeBlock) : Prop :=
  s.groups.Same a.index b.index

/-- The groups of two blocks hold blocks that overlap. -/
def Clash (blocks : List CodeBlock) (s : Linking) (a b : CodeBlock) : Prop :=
  ∃ x ∈ blocks, ∃ y ∈ blocks, s.Together x a ∧ s.Together y b ∧ x.overlaps y = true

/-- A link of two blocks is refused: they are in two groups that hold blocks that overlap. -/
def Refused (blocks : List CodeBlock) (s : Linking) (a b : CodeBlock) : Prop :=
  ¬ s.Together a b ∧ s.Clash blocks a b

/-- Two blocks are in one group, or their groups could not be joined. -/
def Settled (blocks : List CodeBlock) (s : Linking) (a b : CodeBlock) : Prop :=
  s.Together a b ∨ s.Clash blocks a b

/-- An accepted pair of the group of a block. -/
structure Bond (blocks : List CodeBlock) (accepted : CodeBlock → CodeBlock → Prop) (s : Linking)
    (a x y : CodeBlock) : Prop where
  accepted : accepted x y
  left_mem : x ∈ blocks
  right_mem : y ∈ blocks
  left : s.Together x a
  right : s.Together y a

/-- The groups are of the blocks, free of overlaps and connected by accepted pairs of their own
members; the blocks with a match are those that are not alone. -/
structure Sound (blocks : List CodeBlock) (accepted : CodeBlock → CodeBlock → Prop)
    (s : Linking) : Prop where
  valid : s.groups.Valid
  size : s.groups.size = blocks.length
  apart : ∀ a ∈ blocks, ∀ b ∈ blocks, a ≠ b → s.Together a b → a.overlaps b = false
  linked : ∀ a ∈ blocks, ∀ b ∈ blocks, s.Together a b →
    Relation.EqvGen (s.Bond blocks accepted a) a b
  best : ∀ a ∈ blocks,
    ((s.best? a.index).isSome ↔ ∃ b ∈ blocks, b ≠ a ∧ s.Together b a)

theorem Together.refl (s : Linking) (a : CodeBlock) : s.Together a a :=
  rfl

theorem Together.symm {a b : CodeBlock} (h : s.Together a b) : s.Together b a :=
  Partition.Same.symm h

theorem Together.trans {a b c : CodeBlock} (hab : s.Together a b) (hbc : s.Together b c) :
    s.Together a c :=
  Partition.Same.trans hab hbc

theorem Settled.symm {a b : CodeBlock} (h : s.Settled blocks a b) : s.Settled blocks b a := by
  rcases h with h | ⟨x, hx, y, hy, hxa, hyb, hxy⟩
  · exact Or.inl h.symm
  · exact Or.inr ⟨y, hy, x, hx, hyb, hxa, by rwa [CodeBlock.overlaps_comm]⟩

theorem Settled.mono {a b : CodeBlock} (h : s.Settled blocks a b)
    (hle : ∀ x y, s.Together x y → s'.Together x y) : s'.Settled blocks a b := by
  rcases h with h | ⟨x, hx, y, hy, hxa, hyb, hxy⟩
  · exact Or.inl (hle a b h)
  · exact Or.inr ⟨x, hx, y, hy, hle x a hxa, hle y b hyb, hxy⟩

/-- A settled pair that is together later was together before: had the groups clashed, their blocks
that overlap would be together now. -/
theorem Settled.together {a b : CodeBlock} (h : s.Settled blocks a b)
    (hle : ∀ x y, s.Together x y → s'.Together x y) (h' : s'.Sound blocks accepted)
    (hab : s'.Together a b) : s.Together a b := by
  rcases h with h | ⟨x, hx, y, hy, hxa, hyb, hxy⟩
  · exact h
  · by_cases hsame : x = y
    · subst hsame
      exact hxa.symm.trans hyb
    · have htogether : s'.Together x y := ((hle x a hxa).trans hab).trans (hle y b hyb).symm
      rw [h'.apart x hx y hy hsame htogether] at hxy
      exact absurd hxy Bool.false_ne_true

theorem Bond.mono {a x y : CodeBlock} (h : s.Bond blocks accepted a x y)
    (hle : ∀ x y, s.Together x y → s'.Together x y) : s'.Bond blocks accepted a x y :=
  ⟨h.accepted, h.left_mem, h.right_mem, hle x a h.left, hle y a h.right⟩

theorem Bond.rebase {a b x y : CodeBlock} (h : s.Bond blocks accepted a x y)
    (hab : s.Together a b) : s.Bond blocks accepted b x y :=
  ⟨h.accepted, h.left_mem, h.right_mem, h.left.trans hab, h.right.trans hab⟩

theorem eqvGen_symm_of {r : CodeBlock → CodeBlock → Prop} {a b : CodeBlock}
    (h : Relation.EqvGen r a b) : Relation.EqvGen r b a :=
  Relation.EqvGen.symm a b h

/-! ## The start -/

theorem best?_start (count i : Nat) : (start count).best? i = none := rfl

theorem sound_start (hnum : Numbered blocks) : (start blocks.length).Sound blocks accepted where
  valid := Partition.valid_singletons _
  size := Partition.size_singletons _
  apart a ha b hb hne hab :=
    absurd (hnum.eq_of_index ha hb ((Partition.same_singletons _ _ _).mp hab)) hne
  linked a ha b hb hab := by
    rw [hnum.eq_of_index ha hb ((Partition.same_singletons _ _ _).mp hab)]
    exact Relation.EqvGen.refl b
  best a ha := by
    rw [best?_start]
    constructor
    · exact fun h => absurd h (by simp)
    · rintro ⟨b, hb, hne, hba⟩
      exact absurd (hnum.eq_of_index hb ha ((Partition.same_singletons _ _ _).mp hba)) hne

/-! ## Recorded matches -/

@[simp] theorem groups_record (m : Match) (s : Linking) (i : Nat) :
    (s.record m i).groups = s.groups := by
  unfold record
  split
  · rfl
  · split <;> rfl

@[simp] theorem exhausted_record (m : Match) (s : Linking) (i : Nat) :
    (s.record m i).exhausted = s.exhausted := by
  unfold record
  split
  · rfl
  · split <;> rfl

private theorem best?_append (m : Match) {i : Nat} (hnone : s.best? i = none) (j : Nat) :
    ({ s with best := s.best ++ [(i, m)] } : Linking).best? j =
      if j = i then some m else s.best? j := by
  unfold best? at hnone ⊢
  rw [List.find?_append]
  by_cases hj : j = i
  · rw [Option.map_eq_none_iff] at hnone
    rw [if_pos hj, hj]
    simp [hnone]
  · rw [if_neg hj]
    simp [Ne.symm hj]

private theorem best?_replace (m : Match) {i : Nat} {current : Match}
    (hsome : s.best? i = some current) (j : Nat) :
    ({ s with best := s.best.map fun e => if e.1 == i then (i, m) else e } : Linking).best? j =
      if j = i then some m else s.best? j := by
  -- the entries keep their numbers, so the one found stands where it stood
  have hkey : ((fun e : Nat × Match => e.1 == j) ∘
      fun e => if (e.1 == i) = true then (i, m) else e) = fun e => e.1 == j := by
    funext e
    simp only [Function.comp_apply]
    split <;> simp_all
  unfold best? at hsome ⊢
  rw [List.find?_map, hkey, Option.map_map]
  by_cases hj : j = i
  · subst hj
    obtain ⟨e, he, -⟩ := Option.map_eq_some_iff.mp hsome
    have hfound : e.1 = j := by simpa using List.find?_some he
    simp [he, hfound]
  · rw [if_neg hj]
    cases he : s.best.find? fun e => e.1 == j with
    | none => rfl
    | some e =>
        have hfound : e.1 = j := by simpa using List.find?_some he
        simp [hfound, hj]

/-- Recording touches the match of one block only, and keeps the stronger one there. -/
theorem best?_record (m : Match) (s : Linking) (i j : Nat) :
    (s.record m i).best? j =
      if j = i then
        match s.best? i with
        | none => some m
        | some current => if current.lt m then some m else some current
      else s.best? j := by
  unfold record
  cases hbest : s.best? i with
  | none => exact best?_append m hbest j
  | some current =>
      by_cases hlt : current.lt m = true
      · simp only [if_pos hlt]
        exact best?_replace m hbest j
      · simp only [if_neg hlt]
        by_cases hj : j = i
        · rw [if_pos hj, hj, hbest]
        · rw [if_neg hj]

theorem isSome_best?_record (m : Match) (s : Linking) (i j : Nat) :
    ((s.record m i).best? j).isSome ↔ j = i ∨ (s.best? j).isSome := by
  rw [best?_record]
  by_cases hj : j = i
  · subst hj
    rw [if_pos rfl]
    cases s.best? j with
    | none => simp
    | some current => by_cases hlt : current.lt m <;> simp [hlt]
  · simp [hj]

/-! ## One link -/

private theorem any_members_iff_clash (h : s.Sound blocks accepted) (hnum : Numbered blocks)
    {p q : Partition} (hp : s.groups.Alike p) (hq : s.groups.Alike q) (a b : CodeBlock) :
    ((p.members a.index).1.any fun i =>
        (q.members b.index).1.any fun j => overlapAt blocks i j) = true ↔
      s.Clash blocks a b := by
  simp only [List.any_eq_true, hp.valid.mem_members, hq.valid.mem_members, hp.same, hq.same,
    hp.size, hq.size, h.size]
  constructor
  · rintro ⟨i, ⟨hi, hia⟩, j, ⟨hj, hjb⟩, hij⟩
    obtain ⟨x, hx, rfl⟩ := hnum.exists_of_lt hi
    obtain ⟨y, hy, rfl⟩ := hnum.exists_of_lt hj
    exact ⟨x, hx, y, hy, hia, hjb, by rwa [hnum.overlapAt_index hx hy] at hij⟩
  · rintro ⟨x, hx, y, hy, hxa, hyb, hxy⟩
    exact ⟨x.index, ⟨hnum.index_lt hx, hxa⟩, y.index, ⟨hnum.index_lt hy, hyb⟩, by
      rwa [hnum.overlapAt_index hx hy]⟩

/-- Links that join the groups of `a` and `b`, which did not clash unless they were one. -/
private structure Joined (blocks : List CodeBlock) (s s' : Linking) (a b : CodeBlock) : Prop where
  free : s.Together a b ∨ ¬ s.Clash blocks a b
  valid : s'.groups.Valid
  size : s'.groups.size = s.groups.size
  together_iff : ∀ x y, s'.Together x y ↔
    s.Together x y ∨ (s.Together x a ∧ s.Together y b) ∨ (s.Together x b ∧ s.Together y a)
  best_iff : ∀ i, (s'.best? i).isSome ↔ i = a.index ∨ i = b.index ∨ (s.best? i).isSome

/-- The sets of two blocks joined, and a match recorded for both. -/
private def unite (s : Linking) (m : Match) (a b : CodeBlock) (g : Partition) : Linking :=
  [a.index, b.index].foldl (record m) { s with groups := g.union a.index b.index }

private theorem joined_unite {g : Partition} (hg : s.groups.Alike g) (m : Match) {a b : CodeBlock}
    (hia : a.index < s.groups.size) (hib : b.index < s.groups.size)
    (hfree : s.Together a b ∨ ¬ s.Clash blocks a b) :
    Joined blocks s (s.unite m a b g) a b := by
  unfold unite
  obtain ⟨hvalid, hsize, hsame⟩ := hg.valid.union (hg.size ▸ hia) (hg.size ▸ hib)
  refine ⟨hfree, ?_, ?_, fun x y => ?_, fun i => ?_⟩
  · simpa only [List.foldl_cons, List.foldl_nil, groups_record] using hvalid
  · simpa only [List.foldl_cons, List.foldl_nil, groups_record] using hsize.trans hg.size
  · unfold Together
    simp only [List.foldl_cons, List.foldl_nil, groups_record, hsame, hg.same]
  · simp only [List.foldl_cons, List.foldl_nil, isSome_best?_record]
    rw [or_left_comm]
    rfl

/-- A link is refused if the blocks are in two groups that clash, and joins them otherwise. The
searches on the way shorten links only. -/
private theorem link_cases (h : s.Sound blocks accepted) (hnum : Numbered blocks) (m : Match)
    {a b : CodeBlock} (ha : a ∈ blocks) (hb : b ∈ blocks) :
    (s.Refused blocks a b ∧
        ∃ g, s.groups.Alike g ∧ s.link blocks m a b = { s with groups := g }) ∨
      (s.Together a b ∨ ¬ s.Clash blocks a b) ∧
        ∃ g, s.groups.Alike g ∧ s.link blocks m a b = s.unite m a b g := by
  have hia : a.index < s.groups.size := h.size ▸ hnum.index_lt ha
  have hib : b.index < s.groups.size := h.size ▸ hnum.index_lt hb
  have hleft := (Partition.Alike.refl h.valid).compress hia
  have hfound := hleft.compress hib
  have hroot : (s.groups.compress a.index).root b.index = s.groups.root b.index :=
    hleft.root b.index
  by_cases hab : s.groups.root a.index = s.groups.root b.index
  · refine Or.inr ⟨Or.inl hab, _, hfound, ?_⟩
    simp [link, unite, Partition.find, hroot, hab]
  · have hmembers := hfound.compress hia
    have hclash := any_members_iff_clash h hnum hfound hmembers a b
    by_cases hc : s.Clash blocks a b
    · refine Or.inl ⟨⟨hab, hc⟩, _, hmembers.compress hib, ?_⟩
      rw [← hclash] at hc
      simp only [link, Partition.find, hroot, beq_iff_eq, if_neg hab]
      exact if_pos hc
    · refine Or.inr ⟨Or.inr hc, _, hmembers.compress hib, ?_⟩
      rw [← hclash] at hc
      simp only [link, Partition.find, hroot, beq_iff_eq, if_neg hab]
      exact if_neg hc

@[simp] theorem exhausted_link (m : Match) (s : Linking) (a b : CodeBlock) :
    (s.link blocks m a b).exhausted = s.exhausted := by
  unfold link
  dsimp only
  split <;> split <;> simp

/-- Links beyond `s` that are sound and settle the wanted pairs. -/
structure Settles (blocks : List CodeBlock) (accepted : CodeBlock → CodeBlock → Prop)
    (s s' : Linking) (want : CodeBlock → CodeBlock → Prop) : Prop where
  sound : s'.Sound blocks accepted
  coarser : ∀ a b, s.Together a b → s'.Together a b
  settled : ∀ a b, want a b → s'.Settled blocks a b

private theorem Sound.refused (h : s.Sound blocks accepted) {g : Partition}
    (hg : s.groups.Alike g) : ({ s with groups := g } : Linking).Sound blocks accepted := by
  have hsame : ∀ x y, ({ s with groups := g } : Linking).Together x y ↔ s.Together x y :=
    fun x y => hg.same x.index y.index
  refine ⟨hg.valid, hg.size.trans h.size, ?_, ?_, ?_⟩
  · intro x hx y hy hne hxy
    exact h.apart x hx y hy hne ((hsame x y).mp hxy)
  · intro x hx y hy hxy
    exact (h.linked x hx y hy ((hsame x y).mp hxy)).mono fun c d hcd =>
      hcd.mono fun x y => (hsame x y).mpr
  · intro x hx
    simp only [hsame]
    exact h.best x hx

section joined

variable {a b : CodeBlock}

private theorem Joined.coarser (hj : Joined blocks s s' a b) (x y : CodeBlock)
    (hxy : s.Together x y) : s'.Together x y :=
  (hj.together_iff x y).mpr (Or.inl hxy)

private theorem Joined.together (hj : Joined blocks s s' a b) : s'.Together a b :=
  (hj.together_iff a b).mpr (Or.inr (Or.inl ⟨Together.refl s a, Together.refl s b⟩))

private theorem Joined.apart (hj : Joined blocks s s' a b) (h : s.Sound blocks accepted) :
    ∀ x ∈ blocks, ∀ y ∈ blocks, x ≠ y → s'.Together x y → x.overlaps y = false := by
  -- overlaps across the two groups were ruled out, whichever of them comes first
  have hcross : ∀ x ∈ blocks, ∀ y ∈ blocks, x ≠ y → s.Together x a → s.Together y b →
      x.overlaps y = false := by
    intro x hx y hy hne hxa hyb
    rcases hj.free with hab | hfree
    · exact h.apart x hx y hy hne ((hxa.trans hab).trans hyb.symm)
    · by_contra hover
      exact hfree ⟨x, hx, y, hy, hxa, hyb, by simpa using hover⟩
  intro x hx y hy hne htogether
  rcases (hj.together_iff x y).mp htogether with hold | ⟨hxa, hyb⟩ | ⟨hxb, hya⟩
  · exact h.apart x hx y hy hne hold
  · exact hcross x hx y hy hne hxa hyb
  · rw [CodeBlock.overlaps_comm]
    exact hcross y hy x hx (Ne.symm hne) hya hxb

private theorem Joined.linked (hj : Joined blocks s s' a b) (h : s.Sound blocks accepted)
    (ha : a ∈ blocks) (hb : b ∈ blocks) (hab : accepted a b) :
    ∀ x ∈ blocks, ∀ y ∈ blocks, s'.Together x y →
      Relation.EqvGen (s'.Bond blocks accepted x) x y := by
  have hle := hj.coarser
  -- the new pair bridges the chains of accepted pairs on both sides
  have hbridge : ∀ x ∈ blocks, ∀ y ∈ blocks, s.Together x a → s.Together y b →
      Relation.EqvGen (s'.Bond blocks accepted a) x y := by
    intro x hx y hy hxa hyb
    have hleft := (h.linked a ha x hx hxa.symm).mono fun c d hcd => hcd.mono hle
    have hright := (h.linked b hb y hy hyb.symm).mono fun c d hcd =>
      (hcd.mono hle).rebase hj.together.symm
    have hpair : s'.Bond blocks accepted a a b :=
      ⟨hab, ha, hb, Together.refl _ a, hj.together.symm⟩
    exact (eqvGen_symm_of hleft).trans _ _ _ ((Relation.EqvGen.rel a b hpair).trans _ _ _ hright)
  intro x hx y hy htogether
  rcases (hj.together_iff x y).mp htogether with hold | ⟨hxa, hyb⟩ | ⟨hxb, hya⟩
  · exact (h.linked x hx y hy hold).mono fun c d hcd => hcd.mono hle
  · exact (hbridge x hx y hy hxa hyb).mono fun c d hcd => hcd.rebase (hle x a hxa).symm
  · exact (eqvGen_symm_of (hbridge y hy x hx hya hxb)).mono fun c d hcd =>
      hcd.rebase (hj.together.trans (hle x b hxb).symm)

private theorem Joined.best (hj : Joined blocks s s' a b) (h : s.Sound blocks accepted)
    (hnum : Numbered blocks) (ha : a ∈ blocks) (hb : b ∈ blocks) (hne : a ≠ b) :
    ∀ x ∈ blocks, ((s'.best? x.index).isSome ↔ ∃ y ∈ blocks, y ≠ x ∧ s'.Together y x) := by
  intro x hx
  rw [hj.best_iff]
  constructor
  · rintro (hxa | hxb | hold)
    · obtain rfl := hnum.eq_of_index hx ha hxa
      exact ⟨b, hb, Ne.symm hne, hj.together.symm⟩
    · obtain rfl := hnum.eq_of_index hx hb hxb
      exact ⟨a, ha, hne, hj.together⟩
    · obtain ⟨y, hy, hyx, htogether⟩ := (h.best x hx).mp hold
      exact ⟨y, hy, hyx, hj.coarser y x htogether⟩
  · -- an old member other than `a` and `b` shared its group with one of them
    rintro ⟨y, hy, hyx, htogether⟩
    rcases (hj.together_iff y x).mp htogether with hold | ⟨-, hxb⟩ | ⟨-, hxa⟩
    · exact Or.inr (Or.inr ((h.best x hx).mpr ⟨y, hy, hyx, hold⟩))
    · by_cases heqb : b = x
      · exact Or.inr (Or.inl (by rw [heqb]))
      · exact Or.inr (Or.inr ((h.best x hx).mpr ⟨b, hb, heqb, hxb.symm⟩))
    · by_cases heqa : a = x
      · exact Or.inl (by rw [heqa])
      · exact Or.inr (Or.inr ((h.best x hx).mpr ⟨a, ha, heqa, hxa.symm⟩))

end joined

/-- A refused link leaves groups and matches as they are. -/
theorem Sound.link_refused (h : s.Sound blocks accepted) (hnum : Numbered blocks) (m : Match)
    {a b : CodeBlock} (ha : a ∈ blocks) (hb : b ∈ blocks) (hrefused : s.Refused blocks a b) :
    (s.link blocks m a b).Sound blocks accepted ∧
      (∀ x y, (s.link blocks m a b).Together x y ↔ s.Together x y) ∧
      ∀ i, (s.link blocks m a b).best? i = s.best? i := by
  rcases link_cases h hnum m ha hb with ⟨-, g, hg, hlink⟩ | ⟨hab | hfree, -⟩
  · rw [hlink]
    exact ⟨h.refused hg, fun x y => hg.same x.index y.index, fun _ => rfl⟩
  · exact absurd hab hrefused.1
  · exact absurd hrefused.2 hfree

/-- A link that is not refused joins the two groups, and its match is recorded for both blocks. -/
theorem Sound.link_taken (h : s.Sound blocks accepted) (hnum : Numbered blocks) (m : Match)
    {a b : CodeBlock} (ha : a ∈ blocks) (hb : b ∈ blocks) (htaken : ¬ s.Refused blocks a b) :
    (∀ x y, (s.link blocks m a b).Together x y ↔
        s.Together x y ∨ (s.Together x a ∧ s.Together y b) ∨ (s.Together x b ∧ s.Together y a)) ∧
      ∀ i, (s.link blocks m a b).best? i = ((s.record m a.index).record m b.index).best? i := by
  rcases link_cases h hnum m ha hb with ⟨hrefused, -⟩ | ⟨hfree, g, hg, hlink⟩
  · exact absurd hrefused htaken
  · have hj := joined_unite hg m (h.size ▸ hnum.index_lt ha) (h.size ▸ hnum.index_lt hb) hfree
    rw [hlink]
    refine ⟨hj.together_iff, fun i => ?_⟩
    simp only [unite, List.foldl_cons, List.foldl_nil, best?_record]
    rfl

/-- A link of an accepted pair that does not overlap keeps groups sound and settles the pair. -/
theorem Sound.link (h : s.Sound blocks accepted) (hnum : Numbered blocks) (m : Match)
    {a b : CodeBlock} (ha : a ∈ blocks) (hb : b ∈ blocks) (hne : a ≠ b) (hab : accepted a b) :
    s.Settles blocks accepted (s.link blocks m a b) fun x y => x = a ∧ y = b := by
  rcases link_cases h hnum m ha hb with ⟨⟨-, hclash⟩, g, hg, hlink⟩ | ⟨hfree, g, hg, hlink⟩
  · have hle : ∀ x y, s.Together x y → (s.link blocks m a b).Together x y := by
      rw [hlink]
      exact fun x y hxy => (hg.same x.index y.index).mpr hxy
    refine ⟨hlink ▸ h.refused hg, hle, ?_⟩
    rintro x y ⟨rfl, rfl⟩
    exact Settled.mono (Or.inr hclash) hle
  · have hj : Joined blocks s (s.link blocks m a b) a b :=
      hlink ▸ joined_unite hg m (h.size ▸ hnum.index_lt ha) (h.size ▸ hnum.index_lt hb) hfree
    have hsound : (s.link blocks m a b).Sound blocks accepted :=
      ⟨hj.valid, hj.size.trans h.size, hj.apart h, hj.linked h ha hb hab,
        hj.best h hnum ha hb hne⟩
    refine ⟨hsound, hj.coarser, ?_⟩
    rintro x y ⟨rfl, rfl⟩
    exact Or.inl hj.together

end Linking

end CodeHealth
