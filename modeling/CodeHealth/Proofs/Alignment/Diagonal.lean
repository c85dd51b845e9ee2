import CodeHealth.Proofs.Alignment.Align

/-!
# Sequences of partners

Two sequences are aligned in place if every element has a partner at its own place and corresponds
to another element only where both correspond to their partners: the partners that correspond are
kept, and the others are exchanged one to one. Ties between equally long blocks do not matter, since
the first of the longest blocks always lies at the same place on both sides.
-/

namespace CodeHealth.Alignment

variable {α β : Type} {same : α → β → Bool}

/-- Partners of which each corresponds to its own partner if it corresponds to any. -/
def Partnered (same : α → β → Bool) (ps : List (α × β)) : Prop :=
  ∀ p ∈ ps, ∀ q ∈ ps, same p.1 q.2 = true → same p.1 p.2 = true ∧ same q.1 q.2 = true

theorem Partnered.subset {ps qs : List (α × β)} (h : Partnered same ps) (hsub : qs ⊆ ps) :
    Partnered same qs :=
  fun p hp q hq => h p (hsub hp) q (hsub hq)

/-- A common run is no longer than those of its two sides with their own partners. -/
theorem commonRun_le_own {us vs : List (α × β)}
    (h : ∀ p ∈ us, ∀ q ∈ vs, same p.1 q.2 = true → same p.1 p.2 = true ∧ same q.1 q.2 = true) :
    commonRun same (us.map Prod.fst) (vs.map Prod.snd) ≤
        commonRun same (us.map Prod.fst) (us.map Prod.snd) ∧
      commonRun same (us.map Prod.fst) (vs.map Prod.snd) ≤
        commonRun same (vs.map Prod.fst) (vs.map Prod.snd) := by
  induction us generalizing vs with
  | nil => simp [commonRun]
  | cons p us ih =>
      cases vs with
      | nil => simp [commonRun]
      | cons q vs =>
          obtain ⟨hleft, hright⟩ := ih fun p hp q hq =>
            h p (List.mem_cons_of_mem _ hp) q (List.mem_cons_of_mem _ hq)
          simp only [List.map_cons, commonRun]
          by_cases hpq : same p.1 q.2 = true
          · obtain ⟨hp, hq⟩ := h p List.mem_cons_self q List.mem_cons_self hpq
            simp only [hpq, hp, hq, if_true]
            omega
          · simp [hpq]

/-- Among partners the longest block starts at the same place on both sides. -/
theorem Partnered.first_eq_second {ps : List (α × β)} (h : Partnered same ps) {block : Block}
    (hlongest : IsLongest same (ps.map Prod.fst) (ps.map Prod.snd) block)
    (hpos : 0 < block.length) : block.first = block.second := by
  obtain ⟨hfirst, hsecond⟩ := hlongest.first_add_length_le hpos
  rw [List.length_map] at hfirst hsecond
  have hfirst_lt : block.first < ps.length := by omega
  have hsecond_lt : block.second < ps.length := by omega
  have hrun := hlongest.length_eq
  -- the runs of either side with its own partners are as long, so the choice falls on neither
  -- place after the other
  have hdrop : ∀ p ∈ ps.drop block.first, ∀ q ∈ ps.drop block.second,
      same p.1 q.2 = true → same p.1 p.2 = true ∧ same q.1 q.2 = true :=
    fun p hp q hq => h p (List.mem_of_mem_drop hp) q (List.mem_of_mem_drop hq)
  obtain ⟨hleft, hright⟩ := commonRun_le_own hdrop
  simp only [List.map_drop] at hleft hright
  rw [← hrun] at hleft hright
  have hle_left := hlongest.le_length block.first (by simpa using hfirst_lt) block.first
    (by simpa using hfirst_lt)
  have hle_right := hlongest.le_length block.second (by simpa using hsecond_lt) block.second
    (by simpa using hsecond_lt)
  have hat_left := hlongest.first hpos block.first (by simpa using hfirst_lt) block.first
    (by simpa using hfirst_lt) (by omega)
  have hat_right := hlongest.first hpos block.second (by simpa using hsecond_lt) block.second
    (by simpa using hsecond_lt) (by omega)
  omega

/-- Without a common block no element corresponds to its partner. -/
theorem not_same_of_length_eq_zero {ps : List (α × β)} {block : Block}
    (hlongest : IsLongest same (ps.map Prod.fst) (ps.map Prod.snd) block)
    (hzero : block.length = 0) {p : α × β} (hp : p ∈ ps) : same p.1 p.2 = false := by
  obtain ⟨i, hi, rfl⟩ := List.getElem_of_mem hp
  have hle := hlongest.le_length i (by simpa using hi) i (by simpa using hi)
  rw [hzero, ← List.map_drop, ← List.map_drop, List.drop_eq_getElem_cons hi, List.map_cons,
    List.map_cons, commonRun] at hle
  split at hle
  · omega
  · rename_i hne
    exact Bool.eq_false_of_not_eq_true hne

/-- The pairs of a change whose sides are equally long. -/
def Step.exchanged : Step α β → List (α × β)
  | .keep _ => []
  | .change old new => old.zip new

/-- Whether the sides of a step are equally long. -/
def Step.Even : Step α β → Prop
  | .keep _ => True
  | .change old new => old.length = new.length

/-- Steps that exchange partners one to one and change nothing else. -/
structure Exchanges (steps : List (Step α β)) (ps : List (α × β)) : Prop where
  even : ∀ step ∈ steps, step.Even
  pairs : steps.flatMap Step.exchanged = ps

theorem Exchanges.append {steps steps' : List (Step α β)} {ps ps' : List (α × β)}
    (h : Exchanges steps ps) (h' : Exchanges steps' ps') :
    Exchanges (steps ++ steps') (ps ++ ps') := by
  refine ⟨fun step hstep => ?_, ?_⟩
  · rcases List.mem_append.mp hstep with hstep | hstep
    · exact h.even step hstep
    · exact h'.even step hstep
  · rw [List.flatMap_append, h.pairs, h'.pairs]

theorem exchanges_keep (pairs : List (α × β)) : Exchanges [.keep pairs] ([] : List (α × β)) :=
  ⟨by simp [Step.Even], by simp [Step.exchanged]⟩

theorem exchanges_gap (ps : List (α × β)) :
    Exchanges (gap (ps.map Prod.fst) (ps.map Prod.snd)) ps := by
  cases ps with
  | nil => exact ⟨by simp [gap], rfl⟩
  | cons p ps =>
      refine ⟨by simp [gap, Step.Even], ?_⟩
      have hzip : ((p :: ps).map Prod.fst).zip ((p :: ps).map Prod.snd) = p :: ps :=
        (List.zip_of_prod rfl rfl).symm
      exact (List.append_nil _).trans hzip

/-- What does not correspond stands before or after a block of what does. -/
theorem filter_not_same_eq_append {ps : List (α × β)} {first length : Nat}
    (hkept : ∀ p ∈ (ps.drop first).take length, same p.1 p.2 = true) :
    (ps.filter fun p => !same p.1 p.2) =
      ((ps.take first).filter fun p => !same p.1 p.2) ++
        (ps.drop (first + length)).filter fun p => !same p.1 p.2 := by
  have hnone : (((ps.drop first).take length).filter fun p => !same p.1 p.2) = [] := by
    rw [List.filter_eq_nil_iff]
    intro p hp
    simp [hkept p hp]
  calc
    (ps.filter fun p => !same p.1 p.2) =
        (ps.take first ++ ((ps.drop first).take length ++
          (ps.drop first).drop length)).filter fun p => !same p.1 p.2 := by
      rw [List.take_append_drop, List.take_append_drop]
    _ = _ := by
      rw [List.filter_append, List.filter_append, hnone, List.nil_append, List.drop_drop]

/-- Partners are aligned in place: those that correspond are kept, and the others are exchanged. -/
theorem Partnered.exchanges_alignWithin {ps : List (α × β)} (h : Partnered same ps) {depth : Nat}
    (hdepth : ps.length ≤ depth) :
    Exchanges (alignWithin same depth (ps.map Prod.fst) (ps.map Prod.snd))
      (ps.filter fun p => !same p.1 p.2) := by
  induction depth generalizing ps with
  | zero =>
      obtain rfl := List.eq_nil_of_length_eq_zero (Nat.le_zero.mp hdepth)
      exact exchanges_gap []
  | succ depth ih =>
      have hlongest := isLongest_longestBlock same (ps.map Prod.fst) (ps.map Prod.snd)
      rw [alignWithin]
      generalize longestBlock same (ps.map Prod.fst) (ps.map Prod.snd) = block at hlongest ⊢
      split
      · rename_i hzero
        rw [beq_iff_eq] at hzero
        have hfilter : (ps.filter fun p => !same p.1 p.2) = ps := by
          rw [List.filter_eq_self]
          intro p hp
          rw [not_same_of_length_eq_zero hlongest hzero hp]
          rfl
        rw [hfilter]
        exact exchanges_gap ps
      · rename_i hpos
        rw [beq_iff_eq] at hpos
        have hpos := Nat.pos_of_ne_zero hpos
        have hplace := h.first_eq_second hlongest hpos
        obtain ⟨hinside, -⟩ := hlongest.first_add_length_le hpos
        have hrun := hlongest.length_eq
        rw [List.length_map] at hinside
        rw [← hplace] at hrun ⊢
        have hkept : ∀ p ∈ (ps.drop block.first).take block.length, same p.1 p.2 = true := by
          intro p hp
          apply same_of_mem_zip_take (Nat.le_of_eq hrun)
          rw [← List.map_drop, ← List.map_drop, ← List.map_take, ← List.map_take,
            ← List.zip_of_prod rfl rfl]
          exact hp
        have hbefore := ih (h.subset (List.take_subset block.first ps)) (by
          rw [List.length_take]
          omega)
        have hafter := ih (h.subset (List.drop_subset (block.first + block.length) ps)) (by
          rw [List.length_drop]
          omega)
        have hall := hbefore.append ((exchanges_keep
          (((ps.map Prod.fst).drop block.first |>.take block.length).zip
          ((ps.map Prod.snd).drop block.first |>.take block.length))).append hafter)
        rw [List.nil_append, ← filter_not_same_eq_append hkept] at hall
        simp only [List.map_take, List.map_drop] at hall
        exact hall

end CodeHealth.Alignment
