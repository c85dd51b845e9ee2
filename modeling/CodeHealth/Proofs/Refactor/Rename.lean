import CodeHealth.Proofs.Refactor.Change
import CodeHealth.Proofs.Tree.Parse

/-!
# Renamed tokens

A tree in which one token is everywhere replaced by a new one has the units of the old tree in place.
A unit that holds the token corresponds to none of the new units, and every other one corresponds to
its own. So just the lines with the token are modified.
-/

namespace CodeHealth

open CodeHealth.Tree

variable {x y : String} {before after : SourceTree}

def renameToken (x y s : String) : String :=
  if s = x then y else s

mutual

/-- The second tree is the first with the token `x` replaced by `y` at every leaf. Where on its line
a node starts does not count. -/
def Renamed (x y : String) : Tree SyntaxNode → Tree SyntaxNode → Prop
  | .node a cs, .node b ds =>
    a.kind = b.kind ∧ a.startLine = b.startLine ∧
      (cs = [] → b.token? = a.token?.map (renameToken x y)) ∧ RenamedAll x y cs ds

def RenamedAll (x y : String) : List (Tree SyntaxNode) → List (Tree SyntaxNode) → Prop
  | [], [] => True
  | c :: cs, d :: ds => Renamed x y c d ∧ RenamedAll x y cs ds
  | _, _ => False

end

mutual

def decidableRenamed (x y : String) : ∀ t t' : Tree SyntaxNode, Decidable (Renamed x y t t')
  | .node a cs, .node b ds =>
    have := decidableRenamedAll x y cs ds
    inferInstanceAs (Decidable (a.kind = b.kind ∧ a.startLine = b.startLine ∧
      (cs = [] → b.token? = a.token?.map (renameToken x y)) ∧ RenamedAll x y cs ds))

def decidableRenamedAll (x y : String) :
    ∀ cs ds : List (Tree SyntaxNode), Decidable (RenamedAll x y cs ds)
  | [], [] => .isTrue trivial
  | c :: cs, d :: ds =>
    have := decidableRenamed x y c d
    have := decidableRenamedAll x y cs ds
    inferInstanceAs (Decidable (Renamed x y c d ∧ RenamedAll x y cs ds))
  | [], _ :: _ => .isFalse id
  | _ :: _, [] => .isFalse id

end

instance (x y : String) (t t' : Tree SyntaxNode) : Decidable (Renamed x y t t') :=
  decidableRenamed x y t t'

/-! ## Tokens -/

def PlacedToken.rename (x y : String) (t : PlacedToken) : PlacedToken :=
  { t with text := renameToken x y t.text }

theorem RenamedAll.eq_nil_iff {cs ds : List (Tree SyntaxNode)} (h : RenamedAll x y cs ds) :
    cs = [] ↔ ds = [] := by
  cases cs <;> cases ds <;> simp_all [RenamedAll]

theorem flatMap_renamedAll {f g : Tree SyntaxNode → List PlacedToken}
    {cs ds : List (Tree SyntaxNode)} (h : RenamedAll x y cs ds)
    (hfg : ∀ c ∈ cs, ∀ d, Renamed x y c d → g d = (f c).map (PlacedToken.rename x y)) :
    ds.flatMap g = (cs.flatMap f).map (PlacedToken.rename x y) := by
  induction cs generalizing ds with
  | nil =>
      rw [h.eq_nil_iff.mp rfl]
      rfl
  | cons c cs ih =>
      cases ds with
      | nil => exact absurd h (by simp [RenamedAll])
      | cons d ds =>
          rw [RenamedAll] at h
          rw [List.forall_mem_cons] at hfg
          rw [List.flatMap_cons, List.flatMap_cons, List.map_append, hfg.1 d h.1, ih h.2 hfg.2]

theorem collect_renamed {t t' : Tree SyntaxNode} (h : Renamed x y t t') (depth : Nat) :
    t'.collect tokenStep depth =
      (t.collect tokenStep depth).map (PlacedToken.rename x y) := by
  induction t generalizing t' depth with
  | node a cs ih =>
      cases t' with
      | node b ds =>
          rw [Renamed] at h
          obtain ⟨hkind, hline, htoken, hall⟩ := h
          by_cases hcs : cs = []
          · obtain rfl := hall.eq_nil_iff.mp hcs
            obtain rfl := hcs
            rw [collect_tokenStep_leaf, collect_tokenStep_leaf, htoken rfl, hline]
            cases a.token? <;> rfl
          · rw [collect_tokenStep_inner depth a hcs,
              collect_tokenStep_inner depth b fun hds => hcs (hall.eq_nil_iff.mpr hds), hkind]
            exact flatMap_renamedAll hall fun c hc d hd => ih c hc hd _

/-! ## Units -/

/-- The units of a line before and after. -/
def renamedPair (x y : String) (tokens : List PlacedToken) (line : Nat) : LineUnit × LineUnit :=
  (unitOf tokens line,
    { unitOf tokens line with tokens := (unitOf tokens line).tokens.map (renameToken x y) })

theorem unitOf_rename (tokens : List PlacedToken) (line : Nat) :
    unitOf (tokens.map (PlacedToken.rename x y)) line = (renamedPair x y tokens line).2 := by
  have hhere : (tokens.map (PlacedToken.rename x y)).filter (fun t => t.line == line) =
      (tokens.filter fun t => t.line == line).map (PlacedToken.rename x y) := List.filter_map
  unfold renamedPair unitOf
  simp only [hhere, List.head?_map, Option.map_map, List.map_map]
  rfl

theorem lineUnits_renamed (h : Renamed x y before.root after.root) :
    lineUnits before.root = ((unitLines (placedTokens before.root)).map
        (renamedPair x y (placedTokens before.root))).map Prod.fst ∧
      lineUnits after.root = ((unitLines (placedTokens before.root)).map
        (renamedPair x y (placedTokens before.root))).map Prod.snd := by
  have htokens : placedTokens after.root =
      (placedTokens before.root).map (PlacedToken.rename x y) := collect_renamed h 0
  have hlines : unitLines (placedTokens after.root) = unitLines (placedTokens before.root) := by
    rw [htokens]
    unfold unitLines
    rw [List.map_map]
    rfl
  have hafter : lineUnits after.root =
      (unitLines (placedTokens after.root)).map (unitOf (placedTokens after.root)) := rfl
  rw [hafter, hlines, htokens, List.map_map, List.map_map]
  exact ⟨rfl, List.map_congr_left fun line _ => unitOf_rename _ line⟩

theorem mem_tokens_unitOf {tokens : List PlacedToken} {line : Nat} {text : String} :
    text ∈ (unitOf tokens line).tokens ↔ ∃ t ∈ tokens, t.line = line ∧ t.text = text := by
  simp [unitOf, and_assoc]

theorem notMem_tokens_unitOf {tokens : List PlacedToken} (hfresh : ∀ t ∈ tokens, t.text ≠ y)
    (line : Nat) : y ∉ (unitOf tokens line).tokens := by
  intro hy
  obtain ⟨t, ht, -, htext⟩ := mem_tokens_unitOf.mp hy
  exact hfresh t ht htext

theorem map_renameToken_eq_self_iff {ts : List String} (hfresh : y ∉ ts) :
    ts.map (renameToken x y) = ts ↔ x ∉ ts := by
  constructor
  · intro hself hx
    have hy : y ∈ ts.map (renameToken x y) := List.mem_map.mpr ⟨x, hx, if_pos rfl⟩
    rw [hself] at hy
    exact hfresh hy
  · intro hx
    have hkept : ∀ s ∈ ts, renameToken x y s = s := by
      intro s hs
      exact if_neg fun heq : s = x => hx (heq ▸ hs)
    exact (List.map_congr_left hkept).trans (List.map_id' ts)

/-- A unit corresponds to its own new unit unless it holds the token. -/
theorem same_renamedPair {tokens : List PlacedToken} (hfresh : ∀ t ∈ tokens, t.text ≠ y)
    (line : Nat) :
    (renamedPair x y tokens line).1.same (renamedPair x y tokens line).2 =
      decide (x ∉ (unitOf tokens line).tokens) := by
  have hline := notMem_tokens_unitOf hfresh line
  rw [Bool.eq_iff_iff, decide_eq_true_eq, ← map_renameToken_eq_self_iff hline,
    LineUnit.same_iff]
  exact ⟨fun h => (Prod.mk.inj h).2.symm, fun h => Prod.ext rfl h.symm⟩

/-- A unit that corresponds to any new unit does not hold the token, and neither did that one. -/
theorem notMem_of_same {tokens : List PlacedToken} (hfresh : ∀ t ∈ tokens, t.text ≠ y)
    {line line' : Nat}
    (h : (renamedPair x y tokens line).1.same (renamedPair x y tokens line').2 = true) :
    x ∉ (unitOf tokens line).tokens ∧ x ∉ (unitOf tokens line').tokens := by
  have hline := notMem_tokens_unitOf hfresh line
  have hline' := notMem_tokens_unitOf hfresh line'
  have htokens : (unitOf tokens line).tokens =
      (unitOf tokens line').tokens.map (renameToken x y) :=
    (Prod.mk.inj (LineUnit.same_iff.mp h)).2
  have hx' : x ∉ (unitOf tokens line').tokens := by
    intro hx
    apply hline
    rw [htokens]
    exact List.mem_map.mpr ⟨x, hx, if_pos rfl⟩
  rw [(map_renameToken_eq_self_iff hline').mpr hx'] at htokens
  exact ⟨htokens ▸ hx', hx'⟩

theorem partnered_renamedPair {tokens : List PlacedToken} (hfresh : ∀ t ∈ tokens, t.text ≠ y)
    (lines : List Nat) :
    Alignment.Partnered LineUnit.same (lines.map (renamedPair x y tokens)) := by
  intro p hp q hq hsame
  obtain ⟨line, -, rfl⟩ := List.mem_map.mp hp
  obtain ⟨line', -, rfl⟩ := List.mem_map.mp hq
  obtain ⟨hx, hx'⟩ := notMem_of_same hfresh hsame
  rw [same_renamedPair hfresh, same_renamedPair hfresh]
  exact ⟨decide_eq_true hx, decide_eq_true hx'⟩

/-! ## Changes -/

/-- If a token is everywhere replaced by a new one, the lines on which it stands are modified, and
nothing else is changed. -/
theorem computeChanges_renamed {before after : SourceTree} {x y : String} {budget : Int}
    (hrenamed : Renamed x y before.root after.root)
    (hfresh : ∀ u ∈ before.root.subtrees, u.children = [] → u.label.token? ≠ some y)
    (hbudget : ((lineUnits before.root).length + (lineUnits after.root).length : Nat) ≤ budget) :
    ∃ lines : List Nat, lines.Pairwise (· < ·) ∧
      (∀ line, line ∈ lines ↔ ∃ u ∈ before.root.subtrees, u.children = [] ∧
        u.label.token? = some x ∧ u.label.startLine = line) ∧
      computeChanges before after budget = .ok (lines.map fun line =>
        { lineNumber := line
          type := .modify
          content := (after.lines[line - 1]?).getD ""
          oldContent := some ((before.lines[line - 1]?).getD "") }) := by
  have hnew : ∀ t ∈ placedTokens before.root, t.text ≠ y := by
    intro t ht heq
    obtain ⟨u, hu, hleaf, htoken, -⟩ := exists_mem_collect_tokenStep_iff.mp ⟨t, ht, rfl, heq⟩
    exact hfresh u hu hleaf htoken
  obtain ⟨hold, hafter⟩ := lineUnits_renamed hrenamed
  have hchanges := computeChanges_of_partnered hold hafter (partnered_renamedPair hnew _) hbudget
  -- the pairs that differ are those of the lines on which the token stands
  have hfilter : ((unitLines (placedTokens before.root)).map
      (renamedPair x y (placedTokens before.root))).filter (fun p => !p.1.same p.2) =
        ((unitLines (placedTokens before.root)).filter fun line =>
          x ∈ (unitOf (placedTokens before.root) line).tokens).map
            (renamedPair x y (placedTokens before.root)) := by
    rw [List.filter_map]
    congr 1
    apply List.filter_congr
    intro line _
    simp [same_renamedPair hnew]
  rw [hfilter, List.map_map] at hchanges
  refine ⟨(unitLines (placedTokens before.root)).filter fun line =>
      x ∈ (unitOf (placedTokens before.root) line).tokens,
    (pairwise_unitLines (placedTokens before.root)).sublist List.filter_sublist,
    fun line => ?_, hchanges.trans ?_⟩
  · have hleaves : (∃ t ∈ placedTokens before.root, t.line = line ∧ t.text = x) ↔ _ :=
      exists_mem_collect_tokenStep_iff
    rw [← hleaves, List.mem_filter, decide_eq_true_eq,
      mem_tokens_unitOf, mem_unitLines]
    exact ⟨fun h => h.2, fun h => ⟨h.imp fun t ht => ⟨ht.1, ht.2.1⟩, h⟩⟩
  · apply congrArg Except.ok
    apply List.map_congr_left
    intro line _
    simp only [Function.comp_apply, LineChange.modified, renamedPair, lineText, unitOf,
      List.getD_eq_getElem?_getD]

/-- An arrow function whose texts are cut out of the given text. -/
def arrowSource (text : String) : SourceTree :=
  .ofGrammar defaultNodeBudget text "a.js" .javascript arrowTree

theorem computeChanges_arrow_renamed :
    computeChanges (arrowSource "x=>(y)") (arrowSource "x=>(z)") 20000 =
      .ok [⟨1, .modify, "x=>(z)", some "x=>(y)"⟩] := by
  have hrenamed : Renamed "y" "z" (arrowSource "x=>(y)").root (arrowSource "x=>(z)").root := by
    decide
  have hbudget : ((lineUnits (arrowSource "x=>(y)").root).length +
      (lineUnits (arrowSource "x=>(z)").root).length : Nat) ≤ (20000 : Int) :=
    length_lineUnits_add_le (by decide)
  obtain ⟨lines, hlines, hmem, hchanges⟩ :=
    computeChanges_renamed hrenamed (by decide) hbudget
  have hfirst : ∀ u ∈ (arrowSource "x=>(y)").root.subtrees, u.label.startLine = 1 := by decide
  have hone : ∀ line, line ∈ lines ↔ line ∈ [1] := by
    intro line
    rw [hmem, List.mem_singleton]
    constructor
    · rintro ⟨u, hu, -, -, rfl⟩
      exact hfirst u hu
    · rintro rfl
      decide
  rw [hchanges, hlines.eq_of_mem_iff (List.pairwise_singleton _ _) hone]
  rfl

end CodeHealth
