import CodeHealth.Detector.MagicNumber
import CodeHealth.Proofs.Except
import CodeHealth.Proofs.Tree.Lines
import Mathlib.Data.List.Basic

/-!
# Unnamed literals

Which literals of a parsed tree have no name, and which of them have no value either: those that
are read as the number that is undefined.
-/

namespace CodeHealth.MagicNumber

open CodeHealth.Tree

/-! ## Literals without a value -/

/-- A literal without its separators and its suffix. -/
def cleaned (text : String) : List Char :=
  Text.dropEndWhile (fun c => "nLljJ".toList.contains c) (text.toList.filter (· != '_'))

/-- The text is read as the undefined number: after an optional sign it is `nan` in any case. -/
def IsUndefined (text : String) : Prop :=
  (Number.splitSign (Number.plainForm (cleaned text))).2.map Char.toLower = "nan".toList

theorem eq_or_of_toLower_eq {c l : Char} (h : c.toLower = l) :
    c = l ∨ c = Char.ofNat (l.toNat - 32) := by
  unfold Char.toLower at h
  split at h
  · rename_i hc
    have hle : c.val.toNat ≤ 90 := hc.2
    have hlt : c.val.toNat + 32 < 2 ^ 32 := by omega
    have hval : l.toNat = c.toNat + 32 := by
      rw [← h]
      exact (UInt32.toNat_add c.val 32).trans (Nat.mod_eq_of_lt hlt)
    right
    rw [hval, Nat.add_sub_cancel, Char.ofNat_toNat]
  · exact Or.inl h

theorem readUnsigned?_ne_undefined (cs : List Char) :
    Number.readUnsigned? cs ≠ some .undefined := by
  unfold Number.readUnsigned? Number.scaled
  dsimp only
  split
  · split_ifs
    · exact nofun
    · exact nofun
    · exact nofun
    · split <;> exact nofun
  · exact nofun

theorem readDecimal?_eq_undefined_iff {cs : List Char} :
    Number.readDecimal? cs = some .undefined ↔
      (Number.splitSign (Number.plainForm cs)).2.map Char.toLower = "nan".toList := by
  unfold Number.readDecimal?
  dsimp only
  generalize (Number.splitSign (Number.plainForm cs)) = signed
  have hword : String.ofList (signed.2.map Char.toLower) = "nan" ↔
      signed.2.map Char.toLower = "nan".toList := by
    rw [← String.toList_inj, String.toList_ofList]
  rw [← hword]
  constructor
  · intro h
    split at h
    · exact nomatch h
    · split at h
      · rename_i hnan
        exact beq_iff_eq.mp hnan
      · obtain ⟨r, hr, h⟩ := Option.map_eq_some_iff.mp h
        have hundefined : r = .undefined := by
          split at h
          · cases r with
            | undefined => rfl
            | finite q => exact nomatch h
            | infinite negative => exact nomatch h
          · exact h
        exact absurd (hundefined ▸ hr) (readUnsigned?_ne_undefined _)
  · intro h
    rw [h]
    rfl

theorem readInteger?_of_undefined {cs : List Char}
    (h : (Number.splitSign (Number.plainForm cs)).2.map Char.toLower = "nan".toList) :
    Number.readInteger? cs = none := by
  unfold Number.readInteger?
  dsimp only
  generalize Number.splitSign (Number.plainForm cs) = signed at h ⊢
  obtain ⟨x, y, z, hbody⟩ : ∃ x y z, signed.2 = [x, y, z] :=
    List.length_eq_three.mp (by simpa using congrArg List.length h)
  rw [hbody] at h ⊢
  obtain ⟨hx, hy, hz, -⟩ : x.toLower = 'n' ∧ y.toLower = 'a' ∧ z.toLower = 'n' ∧ True := by
    simpa using h
  rcases eq_or_of_toLower_eq hx with rfl | rfl <;> rcases eq_or_of_toLower_eq hy with rfl | rfl <;>
    rcases eq_or_of_toLower_eq hz with rfl | rfl <;> rfl

theorem literalValue?_eq_undefined_iff {text : String} :
    literalValue? text = some .undefined ↔ IsUndefined text := by
  unfold literalValue? IsUndefined cleaned
  dsimp only
  generalize Text.dropEndWhile _ _ = cs
  rw [← readDecimal?_eq_undefined_iff]
  constructor
  · intro h
    split at h
    · exact nomatch h
    · exact h
  · intro h
    rw [readInteger?_of_undefined (readDecimal?_eq_undefined_iff.mp h)]
    exact h

theorem isMagic_eq_error_iff {text : String} {e : DetectorError} :
    isMagic text = .error e ↔ e = .notANumber ∧ IsUndefined text := by
  rw [← literalValue?_eq_undefined_iff]
  unfold isMagic
  split
  · simp [*]
  · simp [*]
  · simp [*, eq_comm]
  · split <;> simp [*]

/-! ## Literals without a name -/

/-- A node that leaves the literals below it without a name. -/
structure LeavesUnnamed (t : Tree SyntaxNode) : Prop where
  isError : t.label.isError = false
  kind : t.kind ∉ defaultValueKinds
  isConstantBinding : isConstantBinding t = false

/-- A well-formed numeric literal. -/
structure IsLiteral (t : Tree SyntaxNode) : Prop where
  isError : t.label.isError = false
  kind : t.kind ∈ numberKinds
  text : t.nonEmptyText?.isSome

theorem IsLiteral.isSome_text {t : Tree SyntaxNode} (h : IsLiteral t) :
    t.label.text.isSome := by
  obtain ⟨text, htext⟩ := Option.isSome_iff_exists.mp h.text
  rw [(Option.filter_eq_some_iff.mp htext).1]
  rfl

theorem literalStep_exempt (t : Tree SyntaxNode) :
    literalStep true t = ([], none) ∨ literalStep true t = ([], some true) := by
  unfold literalStep
  cases t.label.isError <;> simp

theorem notMem_collect_exempt (t u : Tree SyntaxNode) : u ∉ t.collect literalStep true := by
  induction t with
  | node a cs ih =>
      rw [mem_collect_node]
      rcases literalStep_exempt (node a cs) with hstep | hstep <;> rw [hstep]
      · simp
      · simpa using ih

/-- A literal is listed, a node that leaves literals unnamed is entered, and below any other no
literal is without a name. -/
theorem literalStep_cases (t : Tree SyntaxNode) :
    (IsLiteral t ∧ literalStep false t = ([t], none)) ∨
      (¬ IsLiteral t ∧ LeavesUnnamed t ∧ literalStep false t = ([], some false)) ∨
      ¬ IsLiteral t ∧ ¬ LeavesUnnamed t ∧
        (literalStep false t = ([], none) ∨ literalStep false t = ([], some true)) := by
  have hliteral : IsLiteral t ↔
      t.label.isError = false ∧ t.kind ∈ numberKinds ∧ t.nonEmptyText?.isSome = true :=
    ⟨fun h => ⟨h.isError, h.kind, h.text⟩, fun h => ⟨h.1, h.2.1, h.2.2⟩⟩
  have hleaves : LeavesUnnamed t ↔
      t.label.isError = false ∧ t.kind ∉ defaultValueKinds ∧ isConstantBinding t = false :=
    ⟨fun h => ⟨h.isError, h.kind, h.isConstantBinding⟩, fun h => ⟨h.1, h.2.1, h.2.2⟩⟩
  rw [hliteral, hleaves]
  unfold literalStep
  cases t.label.isError
  · by_cases hnumber : t.kind ∈ numberKinds ∧ t.nonEmptyText?.isSome = true
    · exact Or.inl ⟨⟨rfl, hnumber⟩, by simp [hnumber]⟩
    · refine Or.inr ?_
      have hplain : (numberKinds.contains t.kind && t.nonEmptyText?.isSome && !false) = false := by
        simpa using hnumber
      rw [hplain]
      by_cases hopen : t.kind ∉ defaultValueKinds ∧ isConstantBinding t = false
      · exact Or.inl ⟨fun h => hnumber h.2, ⟨rfl, hopen⟩, by simp [hopen]⟩
      · refine Or.inr ⟨fun h => hnumber h.2, fun h => hopen h.2, Or.inr ?_⟩
        simpa [or_iff_not_imp_left] using hopen
  · exact Or.inr (Or.inr ⟨nofun, nofun, Or.inl rfl⟩)

/-- In a tree whose texts are those of leaves, the literals without a name are those that are
reached through nodes that leave them without one. -/
theorem mem_collect_literalStep_iff {t u : Tree SyntaxNode}
    (hleaf : ∀ v ∈ t.subtrees, v.label.text.isSome → v.children = []) :
    u ∈ t.collect literalStep false ↔ Reaches LeavesUnnamed t u ∧ IsLiteral u := by
  induction t with
  | node a cs ih =>
      have ih : ∀ c ∈ cs,
          (u ∈ c.collect literalStep false ↔ Reaches LeavesUnnamed c u ∧ IsLiteral u) :=
        fun c hc => ih c hc fun v hv => hleaf v (mem_subtrees_node.mpr (Or.inr ⟨c, hc, hv⟩))
      rw [mem_collect_node, reaches_iff]
      rcases literalStep_cases (node a cs) with
        ⟨hliteral, hstep⟩ | ⟨hliteral, hopen, hstep⟩ | ⟨hliteral, hopen, hstep⟩
      · obtain rfl : cs = [] := hleaf _ (self_mem_subtrees _) hliteral.isSome_text
        rw [hstep]
        simp only [List.mem_singleton, reduceCtorEq, false_and, exists_false, or_false, children,
          List.not_mem_nil, and_false]
        exact ⟨fun h => ⟨h, h ▸ hliteral⟩, And.left⟩
      · rw [hstep]
        simp only [List.not_mem_nil, Option.some.injEq, exists_eq_left', false_or, children, hopen,
          true_and]
        constructor
        · rintro ⟨c, hc, hu⟩
          obtain ⟨hreach, hu⟩ := (ih c hc).mp hu
          exact ⟨Or.inr ⟨c, hc, hreach⟩, hu⟩
        · rintro ⟨rfl | ⟨c, hc, hreach⟩, hu⟩
          · exact absurd hu hliteral
          · exact ⟨c, hc, (ih c hc).mpr ⟨hreach, hu⟩⟩
      · have hnone : ¬ (u = node a cs ∧ IsLiteral u) := fun h => hliteral (h.1 ▸ h.2)
        rcases hstep with hstep | hstep <;> rw [hstep] <;>
          simp [notMem_collect_exempt, hopen, hnone]

/-! ## Failures -/

/-- Some literal without a name is read as the undefined number. -/
def HasUndefined (root : Tree SyntaxNode) : Prop :=
  ∃ leaf text, Reaches LeavesUnnamed root leaf ∧ IsLiteral leaf ∧
    leaf.label.text = some text ∧ IsUndefined text

variable {grammar : Grammar} {budget : Int} {text path : String} {language : Option Language}
  {ast : SourceTree}

/-- A node with a text has no children, also where a tree is cut off. -/
theorem children_of_isSome_text (h : parseAs grammar budget text language path = .ok ast)
    {u : Tree SyntaxNode} (hu : u ∈ ast.root.subtrees) (htext : u.label.text.isSome) :
    u.children = [] := by
  rcases parseAs_cases h with ⟨-, rfl⟩ | ⟨code, tree, -, -, -, rfl⟩
  · rcases Config.cases_of_mem_document hu with rfl | ⟨i, offset, line, rfl, -, -⟩
    · exact nomatch htext
    · rfl
  · rw [SourceTree.root_ofGrammar] at hu
    obtain ⟨v, hv, n, rfl⟩ := exists_take_of_mem_take hu
    obtain ⟨family, w, -, rfl⟩ := Normalize.exists_full_of_mem_subtrees hv
    rw [label_take, Normalize.isSome_text_full] at htext
    rw [children_take, htext, takeAll]

theorem exists_undefined_iff (h : parseAs grammar budget text language path = .ok ast) :
    (∃ l ∈ unnamedLiterals ast.root, IsUndefined l.text) ↔ HasUndefined ast.root := by
  have hmem : ∀ u, u ∈ ast.root.collect literalStep false ↔
      Reaches LeavesUnnamed ast.root u ∧ IsLiteral u := fun u =>
    mem_collect_literalStep_iff fun v => children_of_isSome_text h
  unfold unnamedLiterals
  constructor
  · rintro ⟨_, hl, hundefined⟩
    obtain ⟨leaf, hleaf, rfl⟩ := List.mem_map.mp hl
    obtain ⟨hreach, hliteral⟩ := (hmem leaf).mp hleaf
    obtain ⟨text, htext⟩ := Option.isSome_iff_exists.mp hliteral.isSome_text
    refine ⟨leaf, text, hreach, hliteral, htext, ?_⟩
    rwa [htext] at hundefined
  · rintro ⟨leaf, text, hreach, hliteral, htext, hundefined⟩
    refine ⟨_, List.mem_map_of_mem ((hmem leaf).mpr ⟨hreach, hliteral⟩), ?_⟩
    rwa [htext]

theorem issues_eq_error_iff (h : parseAs grammar budget text language path = .ok ast)
    {e : DetectorError} : issues ast = .error e ↔ e = .notANumber ∧ HasUndefined ast.root := by
  rw [← exists_undefined_iff h]
  unfold issues magicLiterals
  rw [map_eq_error_iff,
    filterM_eq_error_iff fun l _ e herror => (isMagic_eq_error_iff.mp herror).1]
  simp only [isMagic_eq_error_iff, true_and]

end CodeHealth.MagicNumber
