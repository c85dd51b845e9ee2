import CodeHealth.Proofs.Duplicate.Passes

/-!
# Comparisons and links

A pass that compares blocks is one loop over the candidates that a cheap test leaves. Each of them
costs a comparison and asks for some links. If the budget lasts, the pass makes these links in turn
and does nothing else.
-/

namespace CodeHealth

/-- A link that a pass makes: the two blocks, and how they match. -/
structure LinkCall where
  left : CodeBlock
  right : CodeBlock
  found : Match

namespace Linking

variable {α : Type} {blocks : List CodeBlock} {budget : Int} {calls : α → List LinkCall}
  {s : Linking}

/-- Makes some links in turn. -/
def follow (blocks : List CodeBlock) (calls : List LinkCall) (s : Linking) : Linking :=
  calls.foldl (fun s c => s.link blocks c.found c.left c.right) s

/-- Makes the links that each comparison asks for. It stops when the budget is used up. -/
def compareAll (blocks : List CodeBlock) (budget : Int) (calls : α → List LinkCall) :
    List α → Linking → Linking
  | [], s => s
  | x :: rest, s =>
    match s.spend? budget with
    | none => { s with exhausted := true }
    | some s => compareAll blocks budget calls rest (s.follow blocks (calls x))

/-- Counts some comparisons. -/
def charge (n : Int) (s : Linking) : Linking :=
  { s with comparisons := s.comparisons + n }

/-- The same groups and matches with other counts. -/
def counted (n : Int) (e : Bool) (s : Linking) : Linking :=
  { s with comparisons := n, exhausted := e }

/-! ## Links do not read the number of comparisons -/

@[simp] theorem comparisons_charge (n : Int) (s : Linking) :
    (s.charge n).comparisons = s.comparisons + n := rfl

@[simp] theorem charge_zero (s : Linking) : s.charge 0 = s := by
  simp [charge]

theorem charge_charge (m n : Int) (s : Linking) : (s.charge m).charge n = s.charge (m + n) := by
  simp [charge, Int.add_assoc]

@[simp] theorem exhausted_charge (n : Int) (s : Linking) :
    (s.charge n).exhausted = s.exhausted := rfl

theorem spend?_eq_some_iff {s' : Linking} :
    s.spend? budget = some s' ↔ s.comparisons < budget ∧ s' = s.charge 1 := by
  unfold spend?
  split
  · rename_i hle
    exact ⟨fun h => (nomatch h), fun h => absurd hle (not_le.mpr h.1)⟩
  · rename_i hlt
    rw [Option.some.injEq]
    exact ⟨fun h => ⟨not_le.mp hlt, h.symm⟩, fun h => h.2.symm⟩

theorem spend?_eq_none_iff : s.spend? budget = none ↔ budget ≤ s.comparisons := by
  simp [spend?]

@[simp] theorem comparisons_record (m : Match) (s : Linking) (i : Nat) :
    (s.record m i).comparisons = s.comparisons := by
  unfold record
  split
  · rfl
  · split <;> rfl

@[simp] theorem comparisons_link (blocks : List CodeBlock) (m : Match) (s : Linking)
    (a b : CodeBlock) : (s.link blocks m a b).comparisons = s.comparisons := by
  unfold link
  dsimp only
  split <;> split <;> simp

theorem record_counted (m : Match) (s : Linking) (i : Nat) (n : Int) (e : Bool) :
    record m (s.counted n e) i = (s.record m i).counted n e := by
  have hbest : (s.counted n e).best? i = s.best? i := rfl
  unfold record
  rw [hbest]
  split
  · rfl
  · split <;> rfl

theorem link_counted (m : Match) (s : Linking) (a b : CodeBlock) (n : Int) (e : Bool) :
    (s.counted n e).link blocks m a b = (s.link blocks m a b).counted n e := by
  have hrecord : ∀ g : Partition,
      [a.index, b.index].foldl (record m) { s.counted n e with groups := g } =
        ([a.index, b.index].foldl (record m) { s with groups := g }).counted n e := by
    intro g
    have hgroups : { s.counted n e with groups := g } = counted n e { s with groups := g } := rfl
    simp only [hgroups, List.foldl_cons, List.foldl_nil, record_counted]
  unfold link
  have hgroups : (s.counted n e).groups = s.groups := rfl
  dsimp only
  rw [hgroups]
  split <;> split
  · rfl
  · rw [hrecord]
  · rfl
  · rw [hrecord]

theorem follow_append (first second : List LinkCall) (s : Linking) :
    s.follow blocks (first ++ second) = (s.follow blocks first).follow blocks second :=
  List.foldl_append

theorem follow_counted (made : List LinkCall) (s : Linking) (n : Int) (e : Bool) :
    (s.counted n e).follow blocks made = (s.follow blocks made).counted n e := by
  unfold follow
  induction made generalizing s with
  | nil => rfl
  | cons c made ih => rw [List.foldl_cons, List.foldl_cons, link_counted, ih]

@[simp] theorem comparisons_follow (made : List LinkCall) (s : Linking) :
    (s.follow blocks made).comparisons = s.comparisons := by
  unfold follow
  induction made generalizing s with
  | nil => rfl
  | cons c made ih => rw [List.foldl_cons, ih, comparisons_link]

@[simp] theorem exhausted_follow (made : List LinkCall) (s : Linking) :
    (s.follow blocks made).exhausted = s.exhausted := by
  unfold follow
  induction made generalizing s with
  | nil => rfl
  | cons c made ih => rw [List.foldl_cons, ih, exhausted_link]

theorem follow_charge (made : List LinkCall) (s : Linking) (n : Int) :
    (s.charge n).follow blocks made = (s.follow blocks made).charge n := by
  have hcounted : s.charge n = s.counted (s.comparisons + n) s.exhausted := rfl
  rw [hcounted, follow_counted]
  simp [counted, charge]

/-! ## Comparing within a budget -/

/-- One step of the loop over the candidates that a test leaves. -/
theorem compareAll_filter_cons (p : α → Bool) (x : α) (xs : List α) (s : Linking) :
    compareAll blocks budget calls ((x :: xs).filter p) s =
      if p x then
        match s.spend? budget with
        | none => { s with exhausted := true }
        | some s => compareAll blocks budget calls (xs.filter p) (s.follow blocks (calls x))
      else compareAll blocks budget calls (xs.filter p) s := by
  rw [List.filter_cons]
  split <;> rfl

/-- If the budget lasts, all links are made in turn and each comparison is counted. -/
theorem compareAll_eq_follow (xs : List α)
    (hdone : (compareAll blocks budget calls xs s).exhausted = false) :
    compareAll blocks budget calls xs s =
      (s.follow blocks (xs.flatMap calls)).charge xs.length := by
  induction xs generalizing s with
  | nil => simp [compareAll, follow]
  | cons x rest ih =>
      rw [compareAll] at hdone ⊢
      split at hdone
      · exact absurd hdone (by simp)
      · rename_i s' hspend
        obtain ⟨-, rfl⟩ := spend?_eq_some_iff.mp hspend
        rw [ih hdone, follow_charge, follow_charge, charge_charge, ← follow_append,
          List.flatMap_cons, List.length_cons, Int.natCast_succ, Int.add_comm]

/-- The candidates that what is left of a budget is enough for. -/
def affordable (budget : Int) (s : Linking) (xs : List α) : List α :=
  xs.take (budget - s.comparisons).toNat

/-- Whether the budget lasts or not, the links made are those that the affordable candidates ask
for. -/
theorem compareAll_eq_counted (blocks : List CodeBlock) (budget : Int)
    (calls : α → List LinkCall) (xs : List α) (s : Linking) :
    ∃ n e, compareAll blocks budget calls xs s =
      (s.follow blocks ((affordable budget s xs).flatMap calls)).counted n e := by
  unfold affordable
  induction xs generalizing s with
  | nil => exact ⟨s.comparisons, s.exhausted, by rw [List.take_nil]; rfl⟩
  | cons x rest ih =>
      rw [compareAll]
      split
      · rename_i hspend
        rw [spend?_eq_none_iff] at hspend
        rw [Int.toNat_of_nonpos (by omega)]
        exact ⟨s.comparisons, true, rfl⟩
      · rename_i s' hspend
        obtain ⟨hroom, rfl⟩ := spend?_eq_some_iff.mp hspend
        have hleft : (budget - s.comparisons).toNat = (budget - (s.comparisons + 1)).toNat + 1 := by
          omega
        obtain ⟨n, e, hrest⟩ := ih ((s.charge 1).follow blocks (calls x))
        rw [comparisons_follow, comparisons_charge, follow_charge] at hrest
        rw [follow_charge, hrest, hleft, List.take_succ_cons, List.flatMap_cons, follow_append,
          follow_charge]
        exact ⟨n, e, rfl⟩

/-- The budget lasts exactly if it covers a comparison of each candidate. -/
theorem exhausted_compareAll_iff (xs : List α) :
    (compareAll blocks budget calls xs s).exhausted = false ↔
      s.exhausted = false ∧ (xs = [] ∨ s.comparisons + xs.length ≤ budget) := by
  induction xs generalizing s with
  | nil => simp [compareAll]
  | cons x rest ih =>
      rw [compareAll, or_iff_right (List.cons_ne_nil x rest), List.length_cons]
      split
      · rename_i hspend
        rw [spend?_eq_none_iff] at hspend
        refine ⟨fun h => (nomatch h), ?_⟩
        rintro ⟨-, hle⟩
        omega
      · rename_i s' hspend
        obtain ⟨hroom, rfl⟩ := spend?_eq_some_iff.mp hspend
        rw [ih, exhausted_follow, comparisons_follow, exhausted_charge, comparisons_charge,
          ← List.length_eq_zero_iff]
        apply and_congr_right
        intro _
        omega

/-- A budget that lasts can be any larger. -/
theorem compareAll_eq_of_le {budget' : Int} (hle : budget ≤ budget') (xs : List α)
    (hdone : (compareAll blocks budget calls xs s).exhausted = false) :
    compareAll blocks budget' calls xs s = compareAll blocks budget calls xs s := by
  have hdone' : (compareAll blocks budget' calls xs s).exhausted = false := by
    obtain ⟨hs, henough⟩ := (exhausted_compareAll_iff xs).mp hdone
    exact (exhausted_compareAll_iff xs).mpr ⟨hs, henough.imp_right fun hroom => hroom.trans hle⟩
  rw [compareAll_eq_follow xs hdone, compareAll_eq_follow xs hdone']

end Linking

namespace Duplicates

open Linking

variable {blocks : List CodeBlock} {options : Options} {s t : Linking}
  {threshold : Number.Reading}

theorem linkPairs_eq_follow (m : Match) (candidates : List (CodeBlock × CodeBlock)) :
    linkPairs blocks m s candidates =
      s.follow blocks ((candidates.filter fun p => !p.1.overlaps p.2).map fun p =>
        ⟨p.1, p.2, m⟩) := by
  unfold linkPairs follow
  rw [List.foldl_map]

@[simp] theorem comparisons_linkPairs (m : Match) (s : Linking)
    (candidates : List (CodeBlock × CodeBlock)) :
    (linkPairs blocks m s candidates).comparisons = s.comparisons := by
  rw [linkPairs_eq_follow, comparisons_follow]

/-! ## Pairs in the order of blocks -/

theorem mem_pairs_iff (hnum : Numbered blocks) {xs : List CodeBlock} (hsub : xs.Sublist blocks)
    {a b : CodeBlock} : (a, b) ∈ pairs xs ↔ a ∈ xs ∧ b ∈ xs ∧ a.index < b.index := by
  constructor
  · intro h
    obtain ⟨ha, hb⟩ := mem_of_mem_pairs h
    exact ⟨ha, hb, index_lt_of_mem_pairs hnum hsub h⟩
  · rintro ⟨ha, hb, hlt⟩
    have hne : a ≠ b := by
      rintro rfl
      omega
    rcases mem_pairs_or_swap ha hb hne with h | h
    · exact h
    · have := index_lt_of_mem_pairs hnum hsub h
      omega

theorem nodup_pairs {α : Type} {xs : List α} (h : xs.Nodup) : (pairs xs).Nodup := by
  induction xs with
  | nil => exact List.nodup_nil
  | cons x xs ih =>
      rw [List.nodup_cons] at h
      rw [pairs, List.nodup_append]
      refine ⟨h.2.map fun a b hab => (Prod.mk.inj hab).2, ih h.2, ?_⟩
      rintro p hp q hq rfl
      obtain ⟨b, -, rfl⟩ := List.mem_map.mp hp
      exact h.1 (mem_of_mem_pairs hq).1

/-! ## The comparison of words -/

/-- Whether the words of two blocks are compared. -/
def comparesWords (threshold : Number.Reading) (p : CodeBlock × CodeBlock) : Bool :=
  !p.1.overlaps p.2 && totalsAllow threshold p.1 p.2

/-- The link of two blocks with similar words. -/
def wordLink? (threshold : Number.Reading) (p : CodeBlock × CodeBlock) : Option LinkCall :=
  (wordMatch? threshold p.1 p.2).map (LinkCall.mk p.1 p.2)

theorem wordPairs_eq_compareAll (candidates : List (CodeBlock × CodeBlock)) (s : Linking) :
    wordPairs blocks options candidates s =
      compareAll blocks options.maxDuplicateComparisons
        (fun p => (wordLink? options.semanticThreshold p).toList)
        (candidates.filter (comparesWords options.semanticThreshold)) s := by
  induction candidates generalizing s with
  | nil => rfl
  | cons p rest ih =>
      obtain ⟨a, b⟩ := p
      have htest : (a.overlaps b || !totalsAllow options.semanticThreshold a b) =
          !comparesWords options.semanticThreshold (a, b) := by simp [comparesWords]
      rw [compareAll_filter_cons, wordPairs, htest]
      cases comparesWords options.semanticThreshold (a, b) with
      | false => exact ih s
      | true =>
          cases s.spend? options.maxDuplicateComparisons with
          | none => rfl
          | some s =>
              unfold wordLink?
              dsimp only
              cases wordMatch? options.semanticThreshold a b with
              | none => exact ih s
              | some m => exact ih (s.link blocks m a b)

/-! ## The comparison of shapes -/

/-- Whether the first shapes of two buckets are compared. -/
def comparesShapes (threshold : Number.Reading) (p : List CodeBlock × List CodeBlock) : Bool :=
  match p.1.head?, p.2.head? with
  | some a, some b => lengthsAllow threshold a b
  | _, _ => false

/-- The links of two buckets whose first shapes are similar. -/
def bucketLinks (threshold : Number.Reading) (p : List CodeBlock × List CodeBlock) :
    List LinkCall :=
  match p.1.head?, p.2.head? with
  | some a, some b =>
    match nearMatch? threshold a b with
    | .ok (some m) =>
      ((p.1.flatMap fun x => p.2.map fun y => (x, y)).filter fun q => !q.1.overlaps q.2).map
        fun q => ⟨q.1, q.2, m⟩
    | _ => []
  | _, _ => []

section heads

variable {as bs : List CodeBlock} {a b : CodeBlock}

theorem comparesShapes_of_heads (ha : as.head? = some a) (hb : bs.head? = some b) :
    comparesShapes threshold (as, bs) = lengthsAllow threshold a b := by
  simp only [comparesShapes, ha, hb]

theorem comparesShapes_of_no_heads
    (h : ∀ a b, as.head? = some a → bs.head? = some b → False) :
    comparesShapes threshold (as, bs) = false := by
  unfold comparesShapes
  split
  · rename_i a b ha hb
    exact (h a b ha hb).elim
  · rfl

theorem bucketLinks_of_heads (ha : as.head? = some a) (hb : bs.head? = some b)
    (hmatch : nearMatch? threshold a b = .ok none) : bucketLinks threshold (as, bs) = [] := by
  simp only [bucketLinks, ha, hb, hmatch]

theorem follow_bucketLinks_of_heads (ha : as.head? = some a) (hb : bs.head? = some b) {m : Match}
    (hmatch : nearMatch? threshold a b = .ok (some m)) (s : Linking) :
    s.follow blocks (bucketLinks threshold (as, bs)) =
      linkPairs blocks m s (as.flatMap fun x => bs.map fun y => (x, y)) := by
  simp only [bucketLinks, ha, hb, hmatch]
  exact (linkPairs_eq_follow m _).symm

end heads

/-- A pass over shapes that comes to an end has compared them within its budget. -/
theorem eq_compareAll_of_nearPairs {candidates : List (List CodeBlock × List CodeBlock)}
    (h : nearPairs blocks options candidates s = .ok t) :
    t = compareAll blocks options.maxDuplicateComparisons (bucketLinks options.structuralThreshold)
      (candidates.filter (comparesShapes options.structuralThreshold)) s := by
  fun_induction nearPairs blocks options candidates s with
  | case1 s => exact (Except.ok.inj h).symm
  | case2 as bs rest s x y hy hx hlen ih =>
      rw [compareAll_filter_cons, comparesShapes_of_heads hx hy, if_neg (by simpa using hlen)]
      exact ih h
  | case3 as bs rest s x y hy hx hlen hspend =>
      rw [compareAll_filter_cons, comparesShapes_of_heads hx hy, if_pos (by simpa using hlen),
        hspend]
      exact (Except.ok.inj h).symm
  | case4 => cases h
  | case5 as bs rest s x y hy hx hlen s' hspend hnone ih =>
      rw [compareAll_filter_cons, comparesShapes_of_heads hx hy, if_pos (by simpa using hlen),
        hspend]
      dsimp only
      rw [bucketLinks_of_heads hx hy hnone]
      exact ih h
  | case6 as bs rest s x y hy hx hlen s' hspend m hsome ih =>
      rw [compareAll_filter_cons, comparesShapes_of_heads hx hy, if_pos (by simpa using hlen),
        hspend]
      dsimp only
      rw [follow_bucketLinks_of_heads hx hy hsome]
      exact ih h
  | case7 as bs rest s hhead ih =>
      rw [compareAll_filter_cons, comparesShapes_of_no_heads hhead, if_neg Bool.false_ne_true]
      exact ih h

end Duplicates

end CodeHealth
