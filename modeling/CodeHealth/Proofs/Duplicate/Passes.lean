import CodeHealth.Proofs.Duplicate.Linking
import CodeHealth.Proofs.Except
import CodeHealth.Proofs.Partition.Classes

/-!
# Passes over blocks

Each pass keeps groups sound and settles every pair that it accepts. A pass that compares blocks
does so unless its budget runs out.
-/

namespace CodeHealth

open Linking

namespace Duplicates

/-! ## Pairs and buckets -/

section pairs

variable {α : Type} {xs : List α} {a b : α}

theorem mem_pairs_cons {x : α} :
    (a, b) ∈ pairs (x :: xs) ↔ (a = x ∧ b ∈ xs) ∨ (a, b) ∈ pairs xs := by
  simp only [pairs, List.mem_append, List.mem_map, Prod.mk.injEq]
  grind

theorem mem_of_mem_pairs (h : (a, b) ∈ pairs xs) : a ∈ xs ∧ b ∈ xs := by
  induction xs with
  | nil => exact absurd h List.not_mem_nil
  | cons x xs ih =>
      rcases mem_pairs_cons.mp h with ⟨rfl, hb⟩ | h
      · exact ⟨List.mem_cons_self, List.mem_cons_of_mem _ hb⟩
      · exact ⟨List.mem_cons_of_mem _ (ih h).1, List.mem_cons_of_mem _ (ih h).2⟩

theorem rel_of_mem_pairs {r : α → α → Prop} (hr : xs.Pairwise r) (h : (a, b) ∈ pairs xs) :
    r a b := by
  induction xs with
  | nil => exact absurd h List.not_mem_nil
  | cons x xs ih =>
      rw [List.pairwise_cons] at hr
      rcases mem_pairs_cons.mp h with ⟨rfl, hb⟩ | h
      · exact hr.1 b hb
      · exact ih hr.2 h

theorem mem_pairs_or_swap (ha : a ∈ xs) (hb : b ∈ xs) (hne : a ≠ b) :
    (a, b) ∈ pairs xs ∨ (b, a) ∈ pairs xs := by
  induction xs with
  | nil => exact absurd ha List.not_mem_nil
  | cons x xs ih =>
      rw [mem_pairs_cons, mem_pairs_cons]
      rcases List.mem_cons.mp ha with rfl | ha'
      · have hb' := (List.mem_cons.mp hb).resolve_left (Ne.symm hne)
        exact Or.inl (Or.inl ⟨rfl, hb'⟩)
      · rcases List.mem_cons.mp hb with rfl | hb'
        · exact Or.inr (Or.inl ⟨rfl, ha'⟩)
        · exact (ih ha' hb').imp Or.inr Or.inr

end pairs

theorem buckets_eq_classesBy (key : CodeBlock → String) (blocks : List CodeBlock) :
    buckets key blocks = classesBy key blocks := by
  unfold buckets classesBy
  simp only [List.map_map, List.filter_map]
  simp [Function.comp_def]

end Duplicates

namespace Linking

variable {blocks : List CodeBlock} {accepted : CodeBlock → CodeBlock → Prop} {s s' s'' : Linking}
  {want want' : CodeBlock → CodeBlock → Prop}

/-! ## Runs of links -/

theorem Sound.settles (h : s.Sound blocks accepted) :
    s.Settles blocks accepted s fun _ _ => False :=
  ⟨h, fun _ _ hab => hab, fun _ _ hfalse => hfalse.elim⟩

theorem Settles.imp (h : s.Settles blocks accepted s' want)
    (himp : ∀ a b, want' a b → want a b) : s.Settles blocks accepted s' want' :=
  ⟨h.sound, h.coarser, fun a b hab => h.settled a b (himp a b hab)⟩

theorem Settles.imp_or_swap (h : s.Settles blocks accepted s' want)
    (himp : ∀ a b, want' a b → want a b ∨ want b a) : s.Settles blocks accepted s' want' :=
  ⟨h.sound, h.coarser, fun a b hab =>
    (himp a b hab).elim (h.settled a b) fun hba => (h.settled b a hba).symm⟩

theorem Settles.trans (h : s.Settles blocks accepted s' want)
    (h' : s'.Settles blocks accepted s'' want') :
    s.Settles blocks accepted s'' fun a b => want a b ∨ want' a b :=
  ⟨h'.sound, fun a b hab => h'.coarser a b (h.coarser a b hab), fun a b hab =>
    hab.elim (fun hab => (h.settled a b hab).mono h'.coarser) (h'.settled a b)⟩

/-- What each step of a run settles, the run settles. -/
theorem Sound.settles_foldl {α : Type} (h : s.Sound blocks accepted)
    (step : Linking → α → Linking) (wanted : α → CodeBlock → CodeBlock → Prop) (xs : List α)
    (hstep : ∀ x ∈ xs, ∀ t : Linking, t.Sound blocks accepted →
      t.Settles blocks accepted (step t x) (wanted x)) :
    s.Settles blocks accepted (xs.foldl step s) fun a b => ∃ x ∈ xs, wanted x a b := by
  induction xs generalizing s with
  | nil => exact h.settles.imp fun a b ⟨x, hx, _⟩ => absurd hx List.not_mem_nil
  | cons x xs ih =>
      have hfirst := hstep x List.mem_cons_self s h
      have hrest := ih hfirst.sound fun y hy => hstep y (List.mem_cons_of_mem _ hy)
      apply (hfirst.trans hrest).imp
      rintro a b ⟨y, hy, hab⟩
      rcases List.mem_cons.mp hy with rfl | hy
      · exact Or.inl hab
      · exact Or.inr ⟨y, hy, hab⟩

/-- Soundness reads the groups and matches only. -/
theorem Sound.congr (h : s.Sound blocks accepted) (hgroups : s'.groups = s.groups)
    (hbest : s'.best = s.best) : s.Settles blocks accepted s' fun _ _ => False := by
  obtain ⟨groups, best, comparisons, exhausted⟩ := s
  obtain ⟨groups', best', comparisons', exhausted'⟩ := s'
  subst hgroups hbest
  refine ⟨⟨h.valid, h.size, h.apart, fun a ha b hb hab => ?_, h.best⟩, fun _ _ hab => hab,
    fun _ _ hfalse => hfalse.elim⟩
  exact (h.linked a ha b hb hab).mono fun c d hcd =>
    ⟨hcd.accepted, hcd.left_mem, hcd.right_mem, hcd.left, hcd.right⟩

theorem spend?_eq_some {budget : Int} (h : s.spend? budget = some s') :
    s'.groups = s.groups ∧ s'.best = s.best ∧ s'.exhausted = s.exhausted := by
  unfold spend? at h
  split at h
  · exact absurd h (by simp)
  · obtain rfl := Option.some.inj h
    exact ⟨rfl, rfl, rfl⟩

theorem Sound.settles_spend (h : s.Sound blocks accepted) {budget : Int}
    (hspend : s.spend? budget = some s') : s.Settles blocks accepted s' fun _ _ => False :=
  h.congr (spend?_eq_some hspend).1 (spend?_eq_some hspend).2.1

theorem Sound.settles_exhausted (h : s.Sound blocks accepted) :
    s.Settles blocks accepted { s with exhausted := true } fun _ _ => False :=
  h.congr rfl rfl

end Linking

namespace Duplicates

variable {blocks : List CodeBlock} {accepted : CodeBlock → CodeBlock → Prop} {s : Linking}

@[simp] theorem exhausted_linkPairs (m : Match) (s : Linking)
    (candidates : List (CodeBlock × CodeBlock)) :
    (linkPairs blocks m s candidates).exhausted = s.exhausted := by
  unfold linkPairs
  induction candidates.filter fun p => !p.1.overlaps p.2 generalizing s with
  | nil => rfl
  | cons p rest ih => rw [List.foldl_cons, ih, exhausted_link]

/-- Two different blocks that are accepted as a pair. -/
def Candidate (blocks : List CodeBlock) (accepted : CodeBlock → CodeBlock → Prop)
    (a b : CodeBlock) : Prop :=
  a ∈ blocks ∧ b ∈ blocks ∧ a ≠ b ∧ accepted a b

theorem settles_linkPairs (h : s.Sound blocks accepted) (hnum : Numbered blocks) (m : Match)
    (candidates : List (CodeBlock × CodeBlock))
    (hcand : ∀ p ∈ candidates, Candidate blocks accepted p.1 p.2) :
    s.Settles blocks accepted (linkPairs blocks m s candidates) fun a b =>
      (a, b) ∈ candidates ∧ a.overlaps b = false := by
  have hrun := h.settles_foldl (fun s p => s.link blocks m p.1 p.2)
    (fun p a b => a = p.1 ∧ b = p.2) (candidates.filter fun p => !p.1.overlaps p.2)
    fun p hp t ht => by
      obtain ⟨ha, hb, hne, hab⟩ := hcand p (List.mem_of_mem_filter hp)
      exact ht.link hnum m ha hb hne hab
  apply hrun.imp
  rintro a b ⟨hab, hover⟩
  exact ⟨(a, b), List.mem_filter.mpr ⟨hab, by simp [hover]⟩, rfl, rfl⟩

/-! ## Accepted pairs -/

/-- The first block with the shape of a block. It stands for that shape when shapes are compared. -/
def leader (blocks : List CodeBlock) (a : CodeBlock) : Option CodeBlock :=
  blocks.find? fun b => b.shapeKey == a.shapeKey

/-- What is known before anything is compared. -/
def keysLinked (blocks : List CodeBlock) : Linking :=
  shapePass blocks (exactPass blocks (Linking.start blocks.length))

/-- What is known before words are compared. -/
def shapesLinked (blocks : List CodeBlock) (options : Options) : Linking :=
  (nearPass blocks options (keysLinked blocks)).toOption.getD (keysLinked blocks)

theorem shapesLinked_of_nearPass {options : Options} {t : Linking}
    (h : nearPass blocks options (keysLinked blocks) = .ok t) :
    shapesLinked blocks options = t := by
  rw [shapesLinked, h]
  rfl

theorem linkAll_eq_ok_iff {options : Options} {t : Linking} : linkAll blocks options = .ok t ↔
    nearPass blocks options (keysLinked blocks) = .ok (shapesLinked blocks options) ∧
      t = wordPass blocks options (shapesLinked blocks options) := by
  unfold linkAll
  rw [map_eq_ok_iff]
  constructor
  · rintro ⟨u, hnear, rfl⟩
    rw [shapesLinked_of_nearPass hnear]
    exact ⟨hnear, rfl⟩
  · rintro ⟨hnear, rfl⟩
    exact ⟨_, hnear, rfl⟩

/-- A block that shares its group with no other before words are compared. -/
def Unmatched (blocks : List CodeBlock) (options : Options) (a : CodeBlock) : Prop :=
  ∀ b ∈ blocks, (shapesLinked blocks options).Together b a → b = a

/-- The pairs that some pass accepts: blocks with equal tokens, with equal or similar shapes, or
with similar words if shapes left both unmatched. Where a test depends on the order of the blocks,
the earlier one comes first. -/
inductive Accepted (blocks : List CodeBlock) (options : Options) (a b : CodeBlock) : Prop where
  | tokens (hkey : a.exactKey = b.exactKey)
  | shape (hkey : a.shapeKey = b.shapeKey)
  | near (x y : CodeBlock) (ha : leader blocks a = some x) (hb : leader blocks b = some y)
      (hxy : x.index < y.index) (hlengths : lengthsAllow options.structuralThreshold x y = true)
      (hmatch : ∃ m, nearMatch? options.structuralThreshold x y = .ok (some m))
  | words (hab : a.index < b.index) (ha : Unmatched blocks options a)
      (hb : Unmatched blocks options b) (htotals : totalsAllow options.semanticThreshold a b = true)
      (hmatch : (wordMatch? options.semanticThreshold a b).isSome)

theorem exists_bucket_of_key {key : CodeBlock → String} {a b : CodeBlock} (ha : a ∈ blocks)
    (hb : b ∈ blocks) (hne : a ≠ b) (hkey : key a = key b) :
    ∃ bucket ∈ buckets key blocks, (a, b) ∈ pairs bucket ∨ (b, a) ∈ pairs bucket := by
  rw [buckets_eq_classesBy]
  refine ⟨_, mem_classesBy.mpr ⟨a, ha, rfl⟩, mem_pairs_or_swap ?_ ?_ hne⟩
  · exact List.mem_filter.mpr ⟨ha, by simp⟩
  · exact List.mem_filter.mpr ⟨hb, by simp [hkey]⟩

theorem exists_bucket_of_mem (key : CodeBlock → String) {a : CodeBlock} (ha : a ∈ blocks) :
    ∃ bucket ∈ buckets key blocks, a ∈ bucket := by
  rw [buckets_eq_classesBy]
  exact ⟨_, mem_classesBy.mpr ⟨a, ha, rfl⟩, List.mem_filter.mpr ⟨ha, by simp⟩⟩

theorem key_eq_of_mem_bucket {key : CodeBlock → String} {bucket : List CodeBlock}
    (hbucket : bucket ∈ buckets key blocks) {a b : CodeBlock} (ha : a ∈ bucket) (hb : b ∈ bucket) :
    key a = key b := by
  rw [buckets_eq_classesBy] at hbucket
  exact ((mem_of_mem_classesBy hbucket ha).mp hb).2.symm

theorem sublist_of_mem_bucket {key : CodeBlock → String} {bucket : List CodeBlock}
    (hbucket : bucket ∈ buckets key blocks) : bucket.Sublist blocks := by
  rw [buckets_eq_classesBy] at hbucket
  exact sublist_of_mem_classesBy hbucket

theorem shapeKey_ne_of_mem_pairs {as bs : List CodeBlock}
    (hpair : (as, bs) ∈ pairs (buckets CodeBlock.shapeKey blocks)) {a b : CodeBlock}
    (ha : a ∈ as) (hb : b ∈ bs) : a.shapeKey ≠ b.shapeKey := by
  rw [buckets_eq_classesBy] at hpair
  exact rel_of_mem_pairs (pairwise_ne_classesBy _ blocks) hpair a ha b hb

/-- Two different blocks that do not overlap. -/
def Apart (blocks : List CodeBlock) (a b : CodeBlock) : Prop :=
  a ∈ blocks ∧ b ∈ blocks ∧ a ≠ b ∧ a.overlaps b = false

theorem two_le_length_of_mem {α : Type} {xs : List α} {a b : α} (ha : a ∈ xs) (hb : b ∈ xs)
    (hne : a ≠ b) : 2 ≤ xs.length := by
  match xs with
  | [] => exact absurd ha List.not_mem_nil
  | [x] => exact absurd ((List.mem_singleton.mp ha).trans (List.mem_singleton.mp hb).symm) hne
  | _ :: _ :: rest => exact Nat.le_add_left 2 rest.length

theorem one_lt_length_eraseDups {α : Type} {f : α → String} {xs : List α} {a b : α}
    (ha : a ∈ xs) (hb : b ∈ xs) (hne : f a ≠ f b) : 1 < (xs.map f).eraseDups.length :=
  two_le_length_of_mem (List.mem_eraseDups.mpr (List.mem_map_of_mem ha))
    (List.mem_eraseDups.mpr (List.mem_map_of_mem hb)) hne

theorem index_lt_of_mem_pairs (hnum : Numbered blocks) {some : List CodeBlock}
    (hsub : some.Sublist blocks) {a b : CodeBlock} (hab : (a, b) ∈ pairs some) :
    a.index < b.index := by
  have hordered := List.Pairwise.sublist hsub hnum.pairwise_index
  have hlt := rel_of_mem_pairs hordered hab
  exact hlt

/-- The pairs of a bucket differ, since the numbers of its blocks increase. -/
theorem candidate_of_mem_pairs (hnum : Numbered blocks) {key : CodeBlock → String}
    {bucket : List CodeBlock} (hbucket : bucket ∈ buckets key blocks) {a b : CodeBlock}
    (hab : (a, b) ∈ pairs bucket) (haccepted : key a = key b → accepted a b) :
    Candidate blocks accepted a b := by
  obtain ⟨ha, hb⟩ := mem_of_mem_pairs hab
  have hlt := index_lt_of_mem_pairs hnum (sublist_of_mem_bucket hbucket) hab
  refine ⟨(sublist_of_mem_bucket hbucket).subset ha, (sublist_of_mem_bucket hbucket).subset hb, ?_,
    haccepted (key_eq_of_mem_bucket hbucket ha hb)⟩
  rintro rfl
  omega

/-! ## Equal tokens and equal shapes -/

section passes

variable (hnum : Numbered blocks) {options : Options}

include hnum

private theorem settles_foldl_buckets (h : s.Sound blocks accepted) {key : CodeBlock → String}
    (m : Match) (some : List (List CodeBlock)) (hsub : ∀ bucket ∈ some, bucket ∈ buckets key blocks)
    (haccepted : ∀ a b, key a = key b → accepted a b) :
    s.Settles blocks accepted
      (some.foldl (fun s bucket => linkPairs blocks m s (pairs bucket)) s) fun a b =>
        ∃ bucket ∈ some, (a, b) ∈ pairs bucket ∧ a.overlaps b = false :=
  h.settles_foldl _ _ some fun bucket hbucket _ ht =>
    settles_linkPairs ht hnum m (pairs bucket) fun p hp =>
      candidate_of_mem_pairs hnum (hsub bucket hbucket) hp (haccepted p.1 p.2)

theorem settles_exactPass (h : s.Sound blocks (Accepted blocks options)) :
    s.Settles blocks (Accepted blocks options) (exactPass blocks s) fun a b =>
      Apart blocks a b ∧ a.exactKey = b.exactKey := by
  have hrun := settles_foldl_buckets hnum h exactMatch (buckets CodeBlock.exactKey blocks)
    (fun _ hbucket => hbucket) fun _ _ => Accepted.tokens
  apply hrun.imp_or_swap
  rintro a b ⟨⟨ha, hb, hne, hover⟩, hkey⟩
  obtain ⟨bucket, hbucket, hpair⟩ := exists_bucket_of_key ha hb hne hkey
  apply hpair.imp
  · exact fun hab => ⟨bucket, hbucket, hab, hover⟩
  · exact fun hba => ⟨bucket, hbucket, hba, by rw [CodeBlock.overlaps_comm, hover]⟩

theorem settles_shapePass (h : s.Sound blocks (Accepted blocks options)) :
    s.Settles blocks (Accepted blocks options) (shapePass blocks s) fun a b =>
      Apart blocks a b ∧ a.shapeKey = b.shapeKey ∧ a.exactKey ≠ b.exactKey := by
  have hrun := settles_foldl_buckets hnum h shapeMatch
    ((buckets CodeBlock.shapeKey blocks).filter fun bucket =>
      1 < (bucket.map CodeBlock.exactKey).eraseDups.length)
    (fun _ hbucket => List.mem_of_mem_filter hbucket) fun _ _ => Accepted.shape
  apply hrun.imp_or_swap
  rintro a b ⟨⟨ha, hb, hne, hover⟩, hkey, htokens⟩
  obtain ⟨bucket, hbucket, hpair⟩ := exists_bucket_of_key ha hb hne hkey
  have hmem : a ∈ bucket ∧ b ∈ bucket :=
    hpair.elim mem_of_mem_pairs fun hba => (mem_of_mem_pairs hba).symm
  have hkept : bucket ∈ (buckets CodeBlock.shapeKey blocks).filter fun bucket =>
      1 < (bucket.map CodeBlock.exactKey).eraseDups.length :=
    List.mem_filter.mpr
      ⟨hbucket, decide_eq_true (one_lt_length_eraseDups hmem.1 hmem.2 htokens)⟩
  apply hpair.imp
  · exact fun hab => ⟨bucket, hkept, hab, hover⟩
  · exact fun hba => ⟨bucket, hkept, hba, by rw [CodeBlock.overlaps_comm, hover]⟩

/-! ## Similar shapes -/

/-- Two buckets whose first blocks pass the tests of similar shapes. -/
def NearBuckets (options : Options) (as bs : List CodeBlock) : Prop :=
  ∃ x ∈ as.head?, ∃ y ∈ bs.head?, lengthsAllow options.structuralThreshold x y = true ∧
    ∃ m, nearMatch? options.structuralThreshold x y = .ok (some m)

omit hnum in
private theorem nearBuckets_iff {as bs : List CodeBlock} {x y : CodeBlock} (hx : as.head? = some x)
    (hy : bs.head? = some y) :
    NearBuckets options as bs ↔ lengthsAllow options.structuralThreshold x y = true ∧
      ∃ m, nearMatch? options.structuralThreshold x y = .ok (some m) := by
  simp [NearBuckets, hx, hy]

private theorem settles_nearPairs (candidates : List (List CodeBlock × List CodeBlock))
    (s : Linking) (h : s.Sound blocks accepted)
    (hcand : ∀ p ∈ candidates, NearBuckets options p.1 p.2 → ∀ a ∈ p.1, ∀ b ∈ p.2,
      Candidate blocks accepted a b) {t : Linking}
    (hrun : nearPairs blocks options candidates s = .ok t) :
    s.Settles blocks accepted t fun a b => t.exhausted = false ∧ a.overlaps b = false ∧
      ∃ p ∈ candidates, NearBuckets options p.1 p.2 ∧ a ∈ p.1 ∧ b ∈ p.2 := by
  fun_induction nearPairs blocks options candidates s with
  | case1 s =>
      obtain rfl := Except.ok.inj hrun
      exact h.settles.imp fun a b ⟨_, _, p, hp, _⟩ => absurd hp List.not_mem_nil
  | case2 as bs rest s x y hy hx hlen ih =>
      apply (ih h (fun p hp => hcand p (List.mem_cons_of_mem _ hp)) hrun).imp
      rintro a b ⟨hdone, hover, p, hp, hnear, hab⟩
      -- the skipped buckets differ too much in length
      rcases List.mem_cons.mp hp with rfl | hp
      · rw [nearBuckets_iff hx hy] at hnear
        simp [hnear.1] at hlen
      · exact ⟨hdone, hover, p, hp, hnear, hab⟩
  | case3 as bs rest s x y hy hx hlen hspend =>
      obtain rfl := Except.ok.inj hrun
      apply h.settles_exhausted.imp
      rintro a b ⟨hdone, -⟩
      simp at hdone
  | case4 => exact nomatch hrun
  | case5 as bs rest s x y hy hx hlen s' hspend hnone ih =>
      have hfirst := h.settles_spend hspend
      apply (hfirst.trans
        (ih hfirst.sound (fun p hp => hcand p (List.mem_cons_of_mem _ hp)) hrun)).imp
      rintro a b ⟨hdone, hover, p, hp, hnear, hab⟩
      rcases List.mem_cons.mp hp with rfl | hp
      · rw [nearBuckets_iff hx hy] at hnear
        simp [hnone] at hnear
      · exact Or.inr ⟨hdone, hover, p, hp, hnear, hab⟩
  | case6 as bs rest s x y hy hx hlen s' hspend m hsome ih =>
      -- the first blocks pass, so all pairs across the two buckets are linked
      have hstart := h.settles_spend hspend
      have hnear : NearBuckets options as bs := by
        rw [nearBuckets_iff hx hy]
        simpa [hsome] using hlen
      have hfirst := settles_linkPairs hstart.sound hnum m
        (as.flatMap fun x => bs.map fun y => (x, y)) fun p hp => by
          obtain ⟨a, ha, hp⟩ := List.mem_flatMap.mp hp
          obtain ⟨b, hb, rfl⟩ := List.mem_map.mp hp
          exact hcand _ List.mem_cons_self hnear a ha b hb
      have hrest := ih hfirst.sound (fun p hp => hcand p (List.mem_cons_of_mem _ hp)) hrun
      apply ((hstart.trans hfirst).trans hrest).imp
      rintro a b ⟨hdone, hover, p, hp, hnear, ha, hb⟩
      rcases List.mem_cons.mp hp with rfl | hp
      · refine Or.inl (Or.inr ⟨?_, hover⟩)
        exact List.mem_flatMap.mpr ⟨a, ha, List.mem_map.mpr ⟨b, hb, rfl⟩⟩
      · exact Or.inr ⟨hdone, hover, p, hp, hnear, ha, hb⟩
  | case7 as bs rest s hhead ih =>
      apply (ih h (fun p hp => hcand p (List.mem_cons_of_mem _ hp)) hrun).imp
      rintro a b ⟨hdone, hover, p, hp, hnear, hab⟩
      rcases List.mem_cons.mp hp with rfl | hp
      · obtain ⟨x, hx, y, hy, -⟩ := hnear
        exact (hhead x y hx hy).elim
      · exact ⟨hdone, hover, p, hp, hnear, hab⟩

omit hnum in
theorem leader_eq_head? {bucket : List CodeBlock}
    (hbucket : bucket ∈ buckets CodeBlock.shapeKey blocks) {a : CodeBlock} (ha : a ∈ bucket) :
    leader blocks a = bucket.head? := by
  rw [buckets_eq_classesBy] at hbucket
  obtain ⟨c, -, rfl⟩ := mem_classesBy.mp hbucket
  have hkey : a.shapeKey = c.shapeKey := by simpa using (List.mem_filter.mp ha).2
  rw [List.head?_filter, leader, hkey]

theorem head_lt_of_mem_pairs {key : CodeBlock → String} {as bs : List CodeBlock}
    (hpair : (as, bs) ∈ pairs (buckets key blocks)) {x y : CodeBlock} (hx : as.head? = some x)
    (hy : bs.head? = some y) : x.index < y.index := by
  rw [buckets_eq_classesBy] at hpair
  exact rel_of_mem_pairs (pairwise_head_classesBy hnum.pairwise_index) hpair x hx y hy

/-- Buckets come in the order of their first blocks. -/
theorem exists_pair_of_leaders {a b x y : CodeBlock} (ha : a ∈ blocks) (hb : b ∈ blocks)
    (hx : leader blocks a = some x) (hy : leader blocks b = some y) (hxy : x.index < y.index) :
    ∃ as bs, (as, bs) ∈ pairs (buckets CodeBlock.shapeKey blocks) ∧ a ∈ as ∧ b ∈ bs ∧
      as.head? = some x ∧ bs.head? = some y := by
  obtain ⟨as, has, haas⟩ := exists_bucket_of_mem CodeBlock.shapeKey ha
  obtain ⟨bs, hbs, hbbs⟩ := exists_bucket_of_mem CodeBlock.shapeKey hb
  rw [leader_eq_head? has haas] at hx
  rw [leader_eq_head? hbs hbbs] at hy
  have hdistinct : as ≠ bs := by
    rintro rfl
    have := Option.some.inj (hx.symm.trans hy)
    subst this
    omega
  refine ⟨as, bs, ?_, haas, hbbs, hx, hy⟩
  rcases mem_pairs_or_swap has hbs hdistinct with hpair | hswap
  · exact hpair
  · have := head_lt_of_mem_pairs hnum hswap hy hx
    omega

private theorem candidate_of_nearBuckets {as bs : List CodeBlock}
    (hpair : (as, bs) ∈ pairs (buckets CodeBlock.shapeKey blocks))
    (hnear : NearBuckets options as bs) {a b : CodeBlock} (ha : a ∈ as) (hb : b ∈ bs) :
    Candidate blocks (Accepted blocks options) a b := by
  obtain ⟨has, hbs⟩ := mem_of_mem_pairs hpair
  obtain ⟨x, hx, y, hy, hlen, hmatch⟩ := hnear
  have horder := head_lt_of_mem_pairs hnum hpair hx hy
  have hne := shapeKey_ne_of_mem_pairs hpair ha hb
  refine ⟨(sublist_of_mem_bucket has).subset ha, (sublist_of_mem_bucket hbs).subset hb,
    fun hab => hne (by rw [hab]), ?_⟩
  exact .near x y ((leader_eq_head? has ha).trans hx) ((leader_eq_head? hbs hb).trans hy) horder
    hlen hmatch

theorem settles_nearPass (h : s.Sound blocks (Accepted blocks options)) {t : Linking}
    (hrun : nearPass blocks options s = .ok t) :
    s.Settles blocks (Accepted blocks options) t fun a b =>
      t.exhausted = false ∧ Apart blocks a b ∧
        ∃ x y, leader blocks a = some x ∧ leader blocks b = some y ∧ x.index < y.index ∧
          lengthsAllow options.structuralThreshold x y = true ∧
          ∃ m, nearMatch? options.structuralThreshold x y = .ok (some m) := by
  have hpairs := settles_nearPairs hnum (pairs (buckets CodeBlock.shapeKey blocks)) s h
    (fun p hp hnear a ha b hb => candidate_of_nearBuckets hnum hp hnear ha hb) hrun
  apply hpairs.imp
  rintro a b ⟨hdone, ⟨ha, hb, hne, hover⟩, x, y, hx, hy, hxy, hlen, hmatch⟩
  obtain ⟨as, bs, hpair, haas, hbbs, hx, hy⟩ := exists_pair_of_leaders hnum ha hb hx hy hxy
  exact ⟨hdone, hover, (as, bs), hpair, ⟨x, hx, y, hy, hlen, hmatch⟩, haas, hbbs⟩

/-! ## Similar words -/

omit hnum in
theorem exhausted_wordPairs (candidates : List (CodeBlock × CodeBlock)) (s : Linking)
    (hs : s.exhausted = true) : (wordPairs blocks options candidates s).exhausted = true := by
  fun_induction wordPairs blocks options candidates s with
  | case1 => exact hs
  | case2 a b rest s hskip ih => exact ih hs
  | case3 => rfl
  | case4 a b rest s hskip s' hspend hnone ih => exact ih ((spend?_eq_some hspend).2.2.trans hs)
  | case5 a b rest s hskip s' hspend m hsome ih =>
      apply ih
      rw [exhausted_link, (spend?_eq_some hspend).2.2, hs]

private theorem settles_wordPairs (candidates : List (CodeBlock × CodeBlock)) (s : Linking)
    (h : s.Sound blocks accepted)
    (hcand : ∀ p ∈ candidates, totalsAllow options.semanticThreshold p.1 p.2 = true →
      (wordMatch? options.semanticThreshold p.1 p.2).isSome → Candidate blocks accepted p.1 p.2) :
    s.Settles blocks accepted (wordPairs blocks options candidates s) fun a b =>
      (wordPairs blocks options candidates s).exhausted = false ∧ a.overlaps b = false ∧
        (a, b) ∈ candidates ∧ totalsAllow options.semanticThreshold a b = true ∧
        (wordMatch? options.semanticThreshold a b).isSome := by
  fun_induction wordPairs blocks options candidates s with
  | case1 s =>
      apply h.settles.imp
      rintro a b ⟨-, -, hab, -⟩
      exact absurd hab List.not_mem_nil
  | case2 a b rest s hskip ih =>
      apply (ih h fun p hp => hcand p (List.mem_cons_of_mem _ hp)).imp
      rintro x y ⟨hdone, hover, hxy, htotals, hmatch⟩
      rcases List.mem_cons.mp hxy with heq | hxy
      · obtain ⟨rfl, rfl⟩ := Prod.mk.inj heq
        simp [hover, htotals] at hskip
      · exact ⟨hdone, hover, hxy, htotals, hmatch⟩
  | case3 a b rest s hskip hspend =>
      apply h.settles_exhausted.imp
      rintro x y ⟨hdone, -⟩
      simp at hdone
  | case4 a b rest s hskip s' hspend hnone ih =>
      have hfirst := h.settles_spend hspend
      apply (hfirst.trans (ih hfirst.sound fun p hp => hcand p (List.mem_cons_of_mem _ hp))).imp
      rintro x y ⟨hdone, hover, hxy, htotals, hmatch⟩
      rcases List.mem_cons.mp hxy with heq | hxy
      · obtain ⟨rfl, rfl⟩ := Prod.mk.inj heq
        simp [hnone] at hmatch
      · exact Or.inr ⟨hdone, hover, hxy, htotals, hmatch⟩
  | case5 a b rest s hskip s' hspend m hsome ih =>
      have hstart := h.settles_spend hspend
      have htotals : totalsAllow options.semanticThreshold a b = true := by
        simp only [Bool.or_eq_true, not_or, Bool.not_eq_true', Bool.not_eq_false] at hskip
        exact hskip.2
      obtain ⟨ha, hb, hne, hab⟩ := hcand (a, b) List.mem_cons_self htotals (by simp [hsome])
      have hfirst := hstart.sound.link hnum m ha hb hne hab
      have hrest := ih hfirst.sound fun p hp => hcand p (List.mem_cons_of_mem _ hp)
      apply ((hstart.trans hfirst).trans hrest).imp
      rintro x y ⟨hdone, hover, hxy, htotals, hmatch⟩
      rcases List.mem_cons.mp hxy with heq | hxy
      · exact Or.inl (Or.inr (Prod.mk.inj heq))
      · exact Or.inr ⟨hdone, hover, hxy, htotals, hmatch⟩

omit hnum in
/-- The blocks without a match before words are compared are those that are alone then. -/
theorem mem_unmatched_iff (h : (shapesLinked blocks options).Sound blocks accepted)
    {a : CodeBlock} :
    a ∈ blocks.filter (fun b => ((shapesLinked blocks options).best? b.index).isNone) ↔
      a ∈ blocks ∧ Unmatched blocks options a := by
  rw [List.mem_filter]
  apply and_congr_right
  intro ha
  have hbest := h.best a ha
  rw [Option.isNone_iff_eq_none, ← Option.not_isSome_iff_eq_none, hbest]
  unfold Unmatched
  grind

theorem settles_wordPass
    (h : (shapesLinked blocks options).Sound blocks (Accepted blocks options)) :
    (shapesLinked blocks options).Settles blocks (Accepted blocks options)
      (wordPass blocks options (shapesLinked blocks options)) fun a b =>
        (wordPass blocks options (shapesLinked blocks options)).exhausted = false ∧
          Apart blocks a b ∧ a.index < b.index ∧ Unmatched blocks options a ∧
          Unmatched blocks options b ∧ totalsAllow options.semanticThreshold a b = true ∧
          (wordMatch? options.semanticThreshold a b).isSome := by
  obtain ⟨rest, hrest⟩ : ∃ rest, rest = blocks.filter fun b =>
      ((shapesLinked blocks options).best? b.index).isNone := ⟨_, rfl⟩
  have hsub : rest.Sublist blocks := hrest ▸ List.filter_sublist
  have hmem : ∀ c, c ∈ rest ↔ c ∈ blocks ∧ Unmatched blocks options c := fun c => by
    rw [hrest, mem_unmatched_iff h]
  have hcand : ∀ p ∈ pairs rest, totalsAllow options.semanticThreshold p.1 p.2 = true →
      (wordMatch? options.semanticThreshold p.1 p.2).isSome →
      Candidate blocks (Accepted blocks options) p.1 p.2 := by
    rintro ⟨a, b⟩ hab htotals hmatch
    obtain ⟨ha, hb⟩ := mem_of_mem_pairs hab
    have hlt := index_lt_of_mem_pairs hnum hsub hab
    have hne : a ≠ b := by
      rintro rfl
      omega
    exact ⟨((hmem a).mp ha).1, ((hmem b).mp hb).1, hne,
      .words hlt ((hmem a).mp ha).2 ((hmem b).mp hb).2 htotals hmatch⟩
  have hrun := settles_wordPairs hnum (pairs rest) _ h hcand
  unfold wordPass
  rw [← hrest]
  apply hrun.imp
  rintro a b ⟨hdone, ⟨ha, hb, hne, hover⟩, hlt, hua, hub, htotals, hmatch⟩
  refine ⟨hdone, hover, ?_, htotals, hmatch⟩
  rcases mem_pairs_or_swap ((hmem a).mpr ⟨ha, hua⟩) ((hmem b).mpr ⟨hb, hub⟩) hne with hpair | hswap
  · exact hpair
  · have := index_lt_of_mem_pairs hnum hsub hswap
    omega

omit hnum in
theorem exhausted_wordPass (blocks : List CodeBlock) (options : Options) (s : Linking)
    (hs : s.exhausted = true) : (wordPass blocks options s).exhausted = true :=
  exhausted_wordPairs _ s hs

/-! ## All passes -/

theorem settles_exactPass_start (options : Options) :
    (Linking.start blocks.length).Settles blocks (Accepted blocks options)
      (exactPass blocks (Linking.start blocks.length)) fun a b =>
        Apart blocks a b ∧ a.exactKey = b.exactKey :=
  settles_exactPass hnum (sound_start hnum)

private theorem settles_laterPasses {t : Linking} (h : linkAll blocks options = .ok t) :
    (exactPass blocks (Linking.start blocks.length)).Settles blocks (Accepted blocks options) t
      fun a b => t.exhausted = false ∧ Apart blocks a b ∧ a.exactKey ≠ b.exactKey ∧
        Accepted blocks options a b := by
  obtain ⟨hnearPass, rfl⟩ := linkAll_eq_ok_iff.mp h
  have hshape := settles_shapePass hnum (settles_exactPass_start hnum options).sound
  have hnear := settles_nearPass hnum hshape.sound hnearPass
  have hwords := settles_wordPass hnum hnear.sound
  apply ((hshape.trans hnear).trans hwords).imp
  rintro a b ⟨hdone, hapart, htokens, haccepted⟩
  -- a spent budget stays spent, so all shapes were compared
  have hkept : (shapesLinked blocks options).exhausted = false := by
    by_contra hspent
    have hspent := exhausted_wordPass blocks options _ (Bool.eq_true_of_not_eq_false hspent)
    exact absurd (hspent.symm.trans hdone) (by simp)
  cases haccepted with
  | tokens hkey => exact absurd hkey htokens
  | shape hkey => exact Or.inl (Or.inl ⟨hapart, hkey, htokens⟩)
  | near x y ha hb hxy hlengths hmatch =>
      exact Or.inl (Or.inr ⟨hkept, hapart, x, y, ha, hb, hxy, hlengths, hmatch⟩)
  | words hab ha hb htotals hmatch =>
      exact Or.inr ⟨hdone, hapart, hab, ha, hb, htotals, hmatch⟩

/-- All passes keep groups sound. If the budget lasts, every accepted pair that does not overlap is
settled. -/
theorem settles_linkAll {t : Linking} (h : linkAll blocks options = .ok t) :
    (Linking.start blocks.length).Settles blocks (Accepted blocks options) t fun a b =>
      t.exhausted = false ∧ Apart blocks a b ∧ Accepted blocks options a b := by
  have hexact := settles_exactPass_start hnum options
  have hlater := settles_laterPasses hnum h
  apply (hexact.trans hlater).imp
  rintro a b ⟨hdone, hapart, haccepted⟩
  by_cases htokens : a.exactKey = b.exactKey
  · exact Or.inl ⟨hapart, htokens⟩
  · exact Or.inr ⟨hdone, hapart, htokens, haccepted⟩

/-- The later passes take no exact matches apart. -/
theorem together_linkAll {t : Linking} (h : linkAll blocks options = .ok t) {a b : CodeBlock}
    (hab : (exactPass blocks (Linking.start blocks.length)).Together a b) : t.Together a b :=
  (settles_laterPasses hnum h).coarser a b hab

end passes

end Duplicates

end CodeHealth
