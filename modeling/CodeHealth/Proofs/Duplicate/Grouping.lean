import CodeHealth.Proofs.Duplicate.Budget
import Mathlib.Data.List.Pairwise

/-!
# Duplicate groups

What the groups of a search mean: they divide the blocks along accepted pairs as far as overlapping
blocks let them. Without overlaps they are the connected components of the accepted pairs.
-/

namespace CodeHealth.Duplicates

open Relation

variable {blocks : List CodeBlock} {s : Linking} {options : Options} {asts : List SourceTree}
  {projectId : String} {result : Result} {groups : List (List CodeBlock)}

/-- An accepted pair of members of a group. -/
structure AcceptedIn (blocks : List CodeBlock) (options : Options) (group : List CodeBlock)
    (a b : CodeBlock) : Prop where
  left : a ∈ group
  right : b ∈ group
  accepted : Accepted blocks options a b

/-- A division of blocks into groups, singletons among them. No group holds blocks that overlap, and
each is connected by accepted pairs of its own members. An accepted pair of blocks that do not
overlap shares a group, unless the two groups hold blocks that overlap. -/
structure IsGrouping (blocks : List CodeBlock) (options : Options)
    (groups : List (List CodeBlock)) : Prop where
  perm : groups.flatten.Perm blocks
  disjoint : groups.Pairwise List.Disjoint
  ne_nil : ∀ g ∈ groups, g ≠ []
  apart : ∀ g ∈ groups, ∀ a ∈ g, ∀ b ∈ g, a ≠ b → a.overlaps b = false
  connected : ∀ g ∈ groups, ∀ a ∈ g, ∀ b ∈ g, EqvGen (AcceptedIn blocks options g) a b
  complete : ∀ g ∈ groups, ∀ h ∈ groups, ∀ a ∈ g, ∀ b ∈ h, a ≠ b → a.overlaps b = false →
    Accepted blocks options a b → g = h ∨ ∃ x ∈ g, ∃ y ∈ h, x.overlaps y = true

/-- No two blocks overlap. -/
def NoOverlap (blocks : List CodeBlock) : Prop :=
  ∀ a ∈ blocks, ∀ b ∈ blocks, a ≠ b → a.overlaps b = false

theorem IsGrouping.eq_of_mem (h : IsGrouping blocks options groups) {g k : List CodeBlock}
    (hg : g ∈ groups) (hk : k ∈ groups) {a : CodeBlock} (hag : a ∈ g) (hak : a ∈ k) : g = k := by
  have : Std.Symm (@List.Disjoint CodeBlock) := ⟨fun _ _ hdis => hdis.symm⟩
  by_contra hne
  exact h.disjoint.forall hg hk hne hag hak

theorem IsGrouping.exists_group (h : IsGrouping blocks options groups) {a : CodeBlock}
    (ha : a ∈ blocks) : ∃ g ∈ groups, a ∈ g :=
  List.mem_flatten.mp (h.perm.mem_iff.mpr ha)

theorem IsGrouping.mem_blocks (h : IsGrouping blocks options groups) {g : List CodeBlock}
    (hg : g ∈ groups) {a : CodeBlock} (ha : a ∈ g) : a ∈ blocks :=
  h.perm.mem_iff.mp (List.mem_flatten.mpr ⟨g, hg, ha⟩)

theorem IsGrouping.mem_iff_of_accepted (h : IsGrouping blocks options groups)
    (hno : NoOverlap blocks) {a b : CodeBlock} (hab : AcceptedIn blocks options blocks a b)
    {g : List CodeBlock} (hg : g ∈ groups) : a ∈ g ↔ b ∈ g := by
  by_cases heq : a = b
  · rw [heq]
  · obtain ⟨k, hk, hak⟩ := h.exists_group hab.left
    obtain ⟨l, hl, hbl⟩ := h.exists_group hab.right
    have hover := hno a hab.left b hab.right heq
    have hkl : k = l := by
      rcases h.complete k hk l hl a hak b hbl heq hover hab.accepted with hkl | hclash
      · exact hkl
      · obtain ⟨x, hx, y, hy, hxy⟩ := hclash
        by_cases hsame : x = y
        · exact h.eq_of_mem hk hl hx (hsame ▸ hy)
        · rw [hno x (h.mem_blocks hk hx) y (h.mem_blocks hl hy) hsame] at hxy
          exact absurd hxy Bool.false_ne_true
    subst hkl
    constructor
    · intro hag
      rwa [h.eq_of_mem hg hk hag hak]
    · intro hbg
      rwa [h.eq_of_mem hg hk hbg hbl]

/-- Without overlaps the groups are the connected components of the accepted pairs. -/
theorem IsGrouping.same_group_iff (h : IsGrouping blocks options groups) (hno : NoOverlap blocks)
    {a b : CodeBlock} (ha : a ∈ blocks) :
    (∃ g ∈ groups, a ∈ g ∧ b ∈ g) ↔ EqvGen (AcceptedIn blocks options blocks) a b := by
  constructor
  · rintro ⟨g, hg, hag, hbg⟩
    refine (h.connected g hg a hag b hbg).mono fun x y hxy => ?_
    exact ⟨h.mem_blocks hg hxy.left, h.mem_blocks hg hxy.right, hxy.accepted⟩
  · intro hab
    obtain ⟨g, hg, hag⟩ := h.exists_group ha
    -- no step of the chain leaves the group
    have hkeep : a ∈ g ↔ b ∈ g := by
      clear ha hag
      induction hab with
      | rel x y hxy => exact h.mem_iff_of_accepted hno hxy hg
      | refl x => exact Iff.rfl
      | symm x y _ ih => exact ih.symm
      | trans x y z _ _ hxy hyz => exact hxy.trans hyz
    exact ⟨g, hg, hag, hkeep.mp hag⟩

theorem isGrouping_groupsOf
    (h : s.Settles blocks (Accepted blocks options) s fun a b =>
      Apart blocks a b ∧ Accepted blocks options a b) :
    IsGrouping blocks options (groupsOf blocks s) where
  perm := flatten_classesBy_perm _ blocks
  disjoint := (pairwise_ne_classesBy _ blocks).imp fun hne a ha hb => hne a ha a hb rfl
  ne_nil g hg := ne_nil_of_mem_classesBy hg
  apart g hg a ha b hb hne := by
    have htogether := ((mem_groupsOf_together hg hb).mp ha).2
    exact h.sound.apart a (mem_of_mem_groupsOf hg ha) b (mem_of_mem_groupsOf hg hb) hne htogether
  connected g hg a ha b hb := by
    have htogether := ((mem_groupsOf_together hg hb).mp ha).2
    have hlinked := h.sound.linked a (mem_of_mem_groupsOf hg ha) b (mem_of_mem_groupsOf hg hb)
      htogether
    refine hlinked.mono fun x y hxy => ⟨?_, ?_, hxy.accepted⟩
    · exact (mem_groupsOf_together hg ha).mpr ⟨hxy.left_mem, hxy.left⟩
    · exact (mem_groupsOf_together hg ha).mpr ⟨hxy.right_mem, hxy.right⟩
  complete g hg k hk a ha b hb hne hover haccepted := by
    have hap : Apart blocks a b :=
      ⟨mem_of_mem_groupsOf hg ha, mem_of_mem_groupsOf hk hb, hne, hover⟩
    rcases h.settled a b ⟨hap, haccepted⟩ with htogether | ⟨x, hx, y, hy, hxa, hyb, hxy⟩
    · exact Or.inl (eq_of_mem_classesBy hg hk ha hb htogether)
    · exact Or.inr ⟨x, (mem_groupsOf_together hg ha).mpr ⟨hx, hxa⟩, y,
        (mem_groupsOf_together hk hb).mpr ⟨hy, hyb⟩, hxy⟩

/-- If the budget lasts, the reported groups are those of at least two blocks of a division of all
blocks along the accepted pairs. -/
theorem detect_isGrouping (h : detect options projectId asts = .ok result)
    (hbudget : result.budgetExhausted = false) :
    ∃ blocks groups, extractBlocks options asts = .ok blocks ∧ IsGrouping blocks options groups ∧
      (∃ best : CodeBlock → Match, result.groups.Perm
        ((groups.filter fun g => 2 ≤ g.length).map fun g =>
          (reportGroup projectId (g.map fun b => ⟨b, best b⟩)).group)) ∧
      (NoOverlap blocks → ∀ a ∈ blocks, ∀ b ∈ blocks,
        (∃ g ∈ groups, a ∈ g ∧ b ∈ g) ↔ EqvGen (AcceptedIn blocks options blocks) a b) := by
  obtain ⟨blocks, s, hblocks, hlinked, rfl⟩ := detect_eq_ok_iff.mp h
  have hnum := numbered_of_extractBlocks hblocks
  have hall := settles_linkAll hnum hlinked
  have hgrouping := isGrouping_groupsOf
    ⟨hall.sound, fun _ _ hab => hab, fun a b hab => hall.settled a b ⟨hbudget, hab⟩⟩
  refine ⟨blocks, _, hblocks, hgrouping, ⟨fun b => (memberOf s b).best, ?_⟩,
    fun hno a ha b _ => hgrouping.same_group_iff hno ha⟩
  have hsorted := List.mergeSort_perm
    ((groupReports projectId blocks s).map GroupReport.group) groupBefore
  unfold groupReports at hsorted ⊢
  rw [List.map_map] at hsorted ⊢
  exact hsorted

/-! ## Two equal functions -/

/-- A node of a text of one line. -/
def nodeInLine (kind : String) (field text : Option String) (start stop : Nat)
    (children : List (Tree SyntaxNode)) : Tree SyntaxNode :=
  .node ⟨kind, 1, start, 1, stop, start, stop, true, field, none, text, false⟩ children

/-- The function `x=>x` in a text of one line. -/
def identityAt (start : Nat) : Tree SyntaxNode :=
  nodeInLine "arrow_function" none none start (start + 4)
    [nodeInLine "identifier" (some "parameter") (some "x") start (start + 1) [],
      nodeInLine "identifier" (some "body") (some "x") (start + 3) (start + 4) []]

def twoIdentities : SourceTree :=
  { path := "a.js", language := .javascript, source := "x=>x;x=>x"
    root := nodeInLine "program" none none 0 9 [identityAt 0, identityAt 5]
    hasErrors := false, truncated := false, nodeCount := 7 }

/-- The body of `x=>x`. -/
def identityBlock (index start : Nat) : CodeBlock :=
  { index, path := "a.js", functionName := "<anonymous>", className := none, startLine := 1
    endLine := 1, startByte := start + 3, endByte := start + 4, lineCount := 1, tokens := ["x"]
    shape := ["identifier@0"], lexicon := [("x", 1)], excerpt := "x=>x;x=>x" }

theorem extractBlocks_twoIdentities :
    extractBlocks anySize [twoIdentities] = .ok [identityBlock 0 0, identityBlock 1 5] := by
  unfold extractBlocks comparableFunctions
  rw [List.mergeSort_singleton]
  rfl

theorem twoIdentities_isGrouping :
    ∃ result, detect anySize "p" [twoIdentities] = .ok result ∧ result.budgetExhausted = false ∧
      ∃ blocks groups, extractBlocks anySize [twoIdentities] = .ok blocks ∧
        IsGrouping blocks anySize groups ∧
        (∃ best : CodeBlock → Match, result.groups.Perm
          ((groups.filter fun g => 2 ≤ g.length).map fun g =>
            (reportGroup "p" (g.map fun b => ⟨b, best b⟩)).group)) ∧
        (NoOverlap blocks → ∀ a ∈ blocks, ∀ b ∈ blocks,
          (∃ g ∈ groups, a ∈ g ∧ b ∈ g) ↔ EqvGen (AcceptedIn blocks anySize blocks) a b) := by
  obtain ⟨result, hdetect, hbudget⟩ :=
    exists_detect_of_le extractBlocks_twoIdentities (not_unrated_finite _) (by decide) "p"
  exact ⟨result, hdetect, hbudget, detect_isGrouping hdetect hbudget⟩

end CodeHealth.Duplicates
