import CodeHealth.Proofs.Duplicate.Comparison
import CodeHealth.Proofs.Sorting
import Mathlib.Algebra.Order.Ring.Unbundled.Rat
import Mathlib.Data.List.Induction
import Mathlib.Data.Prod.Lex

/-!
# Links that are taken

A run of links takes those that are not refused when their turn comes. The links taken connect the
blocks of each group, and the match known of a block is the strongest of the links taken at it.
-/

namespace CodeHealth

/-! ## The strength of a match -/

theorem MatchType.rank_injective {s t : MatchType} (h : s.rank = t.rank) : s = t := by
  cases s <;> cases t <;> first | rfl | exact absurd h (by decide)

/-- What matches are compared by: confidence, then type, then similarity. -/
def Match.strength (m : Match) : Int ×ₗ Nat ×ₗ Rat :=
  toLex (m.confidence, toLex (m.type.rank, m.similarity))

theorem Match.lt_iff {a b : Match} : a.lt b = true ↔ a.strength < b.strength := by
  have htype : (a.type != b.type) = (a.type.rank != b.type.rank) := by
    rw [Bool.eq_iff_iff, bne_iff_ne, bne_iff_ne]
    exact not_congr ⟨congrArg MatchType.rank, MatchType.rank_injective⟩
  unfold lt strength
  rw [htype]
  simp only [lt_or_eq_and_iff, Prod.Lex.toLex_lt_toLex, decide_eq_true_eq]

/-! ## Links of a run -/

/-- The link is of these two blocks, in one order or the other. -/
def LinkCall.Joins (c : LinkCall) (a b : CodeBlock) : Prop :=
  c.left = a ∧ c.right = b ∨ c.left = b ∧ c.right = a

/-- The link is of two different blocks among some. -/
structure LinkCall.Within (c : LinkCall) (blocks : List CodeBlock) : Prop where
  left_mem : c.left ∈ blocks
  right_mem : c.right ∈ blocks
  ne : c.left ≠ c.right

theorem LinkCall.Within.of_joins {c : LinkCall} {blocks : List CodeBlock} (h : c.Within blocks)
    {a b : CodeBlock} (hab : c.Joins a b) : a ∈ blocks ∧ b ∈ blocks ∧ b ≠ a := by
  rcases hab with ⟨rfl, rfl⟩ | ⟨rfl, rfl⟩
  · exact ⟨h.left_mem, h.right_mem, h.ne.symm⟩
  · exact ⟨h.right_mem, h.left_mem, h.ne⟩

namespace Linking

variable {blocks : List CodeBlock} {s : Linking} {calls later : List LinkCall} {c : LinkCall}

/-- A link of a run that is not refused when its turn comes. -/
def Taken (blocks : List CodeBlock) : Linking → List LinkCall → LinkCall → Prop
  | _, [], _ => False
  | s, d :: rest, c =>
    (c = d ∧ ¬ s.Refused blocks d.left d.right) ∨
      Taken blocks (s.link blocks d.found d.left d.right) rest c

theorem taken_append :
    s.Taken blocks (calls ++ later) c ↔
      s.Taken blocks calls c ∨ (s.follow blocks calls).Taken blocks later c := by
  induction calls generalizing s with
  | nil => simp [Taken, follow]
  | cons d calls ih =>
      rw [List.cons_append, Taken, Taken, ih, or_assoc]
      rfl

theorem mem_of_taken (h : s.Taken blocks calls c) : c ∈ calls := by
  induction calls generalizing s with
  | nil => exact h.elim
  | cons d calls ih =>
      rcases h with ⟨rfl, -⟩ | h
      · exact List.mem_cons_self
      · exact List.mem_cons_of_mem _ (ih h)

/-- Two blocks that a link taken by a run joins. -/
def TakenPair (blocks : List CodeBlock) (s : Linking) (calls : List LinkCall) (a b : CodeBlock) :
    Prop :=
  ∃ c, s.Taken blocks calls c ∧ c.left = a ∧ c.right = b

theorem Sound.imp {accepted accepted' : CodeBlock → CodeBlock → Prop}
    (h : s.Sound blocks accepted) (himp : ∀ a b, accepted a b → accepted' a b) :
    s.Sound blocks accepted' where
  valid := h.valid
  size := h.size
  apart := h.apart
  linked a ha b hb hab := (h.linked a ha b hb hab).mono fun x y hxy =>
    ⟨himp x y hxy.accepted, hxy.left_mem, hxy.right_mem, hxy.left, hxy.right⟩
  best := h.best

/-! ## The strongest match -/

theorem best?_of_record {m m' : Match} {i j : Nat} (h : (s.record m i).best? j = some m') :
    j = i ∧ m' = m ∨ s.best? j = some m' := by
  rw [best?_record] at h
  split at h
  · rename_i hj
    subst hj
    split at h
    · exact Or.inl ⟨rfl, (Option.some.inj h).symm⟩
    · rename_i current hcurrent
      split at h
      · exact Or.inl ⟨rfl, (Option.some.inj h).symm⟩
      · exact Or.inr (hcurrent.trans h)
  · exact Or.inr h

theorem exists_best?_record_self (m : Match) (s : Linking) (i : Nat) :
    ∃ m', (s.record m i).best? i = some m' ∧ m.strength ≤ m'.strength := by
  rw [best?_record, if_pos rfl]
  split
  · exact ⟨m, rfl, le_refl _⟩
  · rename_i current _
    by_cases hlt : current.lt m = true
    · exact ⟨m, if_pos hlt, le_refl _⟩
    · exact ⟨current, if_neg hlt, not_lt.mp (Match.lt_iff.not.mp hlt)⟩

/-- A match only gives way to a stronger one. -/
theorem exists_best?_record {m' : Match} {j : Nat} (h : s.best? j = some m') (m : Match) (i : Nat) :
    ∃ k, (s.record m i).best? j = some k ∧ m'.strength ≤ k.strength := by
  rw [best?_record]
  by_cases hj : j = i
  · subst hj
    rw [if_pos rfl, h]
    by_cases hlt : m'.lt m = true
    · exact ⟨m, if_pos hlt, (Match.lt_iff.mp hlt).le⟩
    · exact ⟨m', if_neg hlt, le_refl _⟩
  · rw [if_neg hj]
    exact ⟨m', h, le_refl _⟩

/-- What a run from the start has come to: the links taken connect the groups, and each block has
the match of one of the links taken at it, than which no other is stronger. -/
structure Grounded (blocks : List CodeBlock) (calls : List LinkCall) (s : Linking) : Prop where
  sound : s.Sound blocks ((start blocks.length).TakenPair blocks calls)
  together : ∀ c, (start blocks.length).Taken blocks calls c → s.Together c.left c.right
  evidence : ∀ a ∈ blocks, ∀ m, s.best? a.index = some m →
    ∃ b c, (start blocks.length).Taken blocks calls c ∧ c.Joins a b ∧ c.found = m
  strongest : ∀ c, (start blocks.length).Taken blocks calls c → ∀ a b, c.Joins a b →
    ∃ m, s.best? a.index = some m ∧ c.found.strength ≤ m.strength

section concat

variable (hnum : Numbered blocks)
  (h : Grounded blocks calls ((start blocks.length).follow blocks calls))

theorem taken_concat_iff {d : LinkCall} :
    (start blocks.length).Taken blocks (calls ++ [c]) d ↔
      (start blocks.length).Taken blocks calls d ∨
        d = c ∧ ¬ ((start blocks.length).follow blocks calls).Refused blocks c.left c.right := by
  rw [taken_append, Taken, Taken, or_false]

theorem follow_concat :
    (start blocks.length).follow blocks (calls ++ [c]) =
      ((start blocks.length).follow blocks calls).link blocks c.found c.left c.right := by
  rw [follow_append]
  rfl

include h

private theorem Grounded.sound_concat (c : LinkCall) :
    ((start blocks.length).follow blocks calls).Sound blocks
      ((start blocks.length).TakenPair blocks (calls ++ [c])) :=
  h.sound.imp fun _ _ ⟨d, hd, hab⟩ => ⟨d, taken_concat_iff.mpr (Or.inl hd), hab⟩

include hnum

private theorem Grounded.concat_refused (hc : c.Within blocks)
    (hrefused : ((start blocks.length).follow blocks calls).Refused blocks c.left c.right) :
    Grounded blocks (calls ++ [c]) ((start blocks.length).follow blocks (calls ++ [c])) := by
  rw [follow_concat]
  obtain ⟨hsound, htogether, hbest⟩ :=
    (h.sound_concat c).link_refused hnum c.found hc.left_mem hc.right_mem hrefused
  have hsame : ∀ d, (start blocks.length).Taken blocks (calls ++ [c]) d →
      (start blocks.length).Taken blocks calls d := fun d hd =>
    (taken_concat_iff.mp hd).resolve_right fun hlast => hlast.2 hrefused
  refine ⟨hsound, fun d hd => (htogether _ _).mpr (h.together d (hsame d hd)), ?_, ?_⟩
  · intro a ha m hm
    rw [hbest] at hm
    obtain ⟨b, d, hd, hab, hfound⟩ := h.evidence a ha m hm
    exact ⟨b, d, taken_concat_iff.mpr (Or.inl hd), hab, hfound⟩
  · intro d hd a b hab
    rw [hbest]
    exact h.strongest d (hsame d hd) a b hab

private theorem Grounded.concat_taken (hc : c.Within blocks)
    (htaken : ¬ ((start blocks.length).follow blocks calls).Refused blocks c.left c.right) :
    Grounded blocks (calls ++ [c]) ((start blocks.length).follow blocks (calls ++ [c])) := by
  rw [follow_concat]
  have hlast : (start blocks.length).Taken blocks (calls ++ [c]) c :=
    taken_concat_iff.mpr (Or.inr ⟨rfl, htaken⟩)
  obtain ⟨htogether, hbest⟩ :=
    (h.sound_concat c).link_taken hnum c.found hc.left_mem hc.right_mem htaken
  have hlinked := (h.sound_concat c).link hnum c.found hc.left_mem hc.right_mem hc.ne
    ⟨c, hlast, rfl, rfl⟩
  refine ⟨hlinked.sound, ?_, ?_, ?_⟩
  · intro d hd
    rw [htogether]
    rcases taken_concat_iff.mp hd with hd | ⟨rfl, -⟩
    · exact Or.inl (h.together d hd)
    · exact Or.inr (Or.inl ⟨Together.refl _ _, Together.refl _ _⟩)
  · intro a ha m hm
    rw [hbest] at hm
    rcases best?_of_record hm with ⟨hindex, hfound⟩ | hm
    · obtain rfl := hnum.eq_of_index ha hc.right_mem hindex
      exact ⟨c.left, c, hlast, Or.inr ⟨rfl, rfl⟩, hfound.symm⟩
    · rcases best?_of_record hm with ⟨hindex, hfound⟩ | hm
      · obtain rfl := hnum.eq_of_index ha hc.left_mem hindex
        exact ⟨c.right, c, hlast, Or.inl ⟨rfl, rfl⟩, hfound.symm⟩
      · obtain ⟨b, d, hd, hab, hfound⟩ := h.evidence a ha m hm
        exact ⟨b, d, taken_concat_iff.mpr (Or.inl hd), hab, hfound⟩
  · intro d hd a b hab
    rw [hbest]
    -- what was known of the block, or is recorded for it now, only grows
    have hgrows : ∀ {t : Linking} {m : Match}, t.best? a.index = some m →
        d.found.strength ≤ m.strength →
        ∃ k, (t.record c.found c.right.index).best? a.index = some k ∧
          d.found.strength ≤ k.strength := by
      intro t m hm hle
      obtain ⟨k, hk, hmk⟩ := exists_best?_record hm c.found c.right.index
      exact ⟨k, hk, hle.trans hmk⟩
    rcases taken_concat_iff.mp hd with hd | ⟨rfl, -⟩
    · obtain ⟨m, hm, hle⟩ := h.strongest d hd a b hab
      obtain ⟨k, hk, hmk⟩ := exists_best?_record hm c.found c.left.index
      exact hgrows hk (hle.trans hmk)
    · rcases hab with ⟨rfl, rfl⟩ | ⟨rfl, rfl⟩
      · obtain ⟨m, hm, hle⟩ := exists_best?_record_self d.found _ d.left.index
        exact hgrows hm hle
      · exact exists_best?_record_self d.found _ _

end concat

/-- Every run is grounded in the links that it takes. -/
theorem grounded_follow (hnum : Numbered blocks) (hcalls : ∀ c ∈ calls, c.Within blocks) :
    Grounded blocks calls ((start blocks.length).follow blocks calls) := by
  induction calls using List.reverseRecOn with
  | nil =>
      exact ⟨sound_start hnum, fun _ hc => hc.elim, fun _ _ _ hm => (nomatch hm),
        fun _ hc => hc.elim⟩
  | append_singleton calls c ih =>
      have h := ih fun d hd => hcalls d (List.mem_append_left _ hd)
      have hc := hcalls c (List.mem_append_right _ List.mem_cons_self)
      -- the last link finds the groups that the run before it left
      by_cases hrefused : ((start blocks.length).follow blocks calls).Refused blocks c.left c.right
      · exact h.concat_refused hnum hc hrefused
      · exact h.concat_taken hnum hc hrefused

theorem Grounded.counted (h : Grounded blocks calls s) (n : Int) (e : Bool) :
    Grounded blocks calls (s.counted n e) := by
  have hsound : s.Settles blocks _ (s.counted n e) fun _ _ => False := h.sound.congr rfl rfl
  exact ⟨hsound.sound, h.together, h.evidence, h.strongest⟩

/-- If the later links of a run are only of blocks that had no match before, no such block is joined
with one that had a match. -/
theorem Grounded.best?_eq_none_iff {s' : Linking} (h : Grounded blocks calls s)
    (h' : Grounded blocks (calls ++ later) s')
    (hfree : ∀ c ∈ later, s.best? c.left.index = none ∧ s.best? c.right.index = none)
    {a b : CodeBlock} (ha : a ∈ blocks) (hb : b ∈ blocks) (hab : s'.Together a b) :
    s.best? a.index = none ↔ s.best? b.index = none := by
  have hpair : ∀ x y, (start blocks.length).TakenPair blocks (calls ++ later) x y →
      (s.best? x.index = none ↔ s.best? y.index = none) := by
    rintro _ _ ⟨c, hc, rfl, rfl⟩
    rcases taken_append.mp hc with hc | hc
    · obtain ⟨m, hm, -⟩ := h.strongest c hc c.left c.right (Or.inl ⟨rfl, rfl⟩)
      obtain ⟨m', hm', -⟩ := h.strongest c hc c.right c.left (Or.inr ⟨rfl, rfl⟩)
      simp [hm, hm']
    · obtain ⟨hleft, hright⟩ := hfree c (mem_of_taken hc)
      simp [hleft, hright]
  have hlinked := (h'.sound.linked a ha b hb hab).mono fun x y hxy => hxy.accepted
  clear ha hb hab
  -- no link on the way from one block to the other leads from a match to none
  induction hlinked with
  | rel x y hxy => exact hpair x y hxy
  | refl x => exact Iff.rfl
  | symm x y _ ih => exact ih.symm
  | trans x y z _ _ hxy hyz => exact hxy.trans hyz

end Linking

end CodeHealth
