import CodeHealth.Proofs.Tree.Cursor
import CodeHealth.Tree.Parse

/-!
# Parsed trees

What holds of every tree that a text of code is read into: lines count from one and are in order,
and unless it was cut off each leaf has a text.
-/

namespace CodeHealth

open CodeHealth.Tree

/-! ## Places -/

namespace Text

theorem Point.row_le_advance (p : Point) (bytes : List UInt8) (n : Nat) :
    p.row ≤ (p.advance bytes n).row := by
  induction n generalizing p bytes with
  | zero => simp [advance]
  | succ n ih =>
      cases bytes with
      | nil => simp [advance]
      | cons b bs =>
          rw [advance]
          split
          · have hle := ih ⟨p.row + 1, 0⟩ bs
            dsimp only at hle
            omega
          · exact ih ⟨p.row, p.column + 1⟩ bs

theorem Point.row_advance_mono (p : Point) (bytes : List UInt8) {m n : Nat} (h : m ≤ n) :
    (p.advance bytes m).row ≤ (p.advance bytes n).row := by
  induction m generalizing p bytes n with
  | zero =>
      have hle := p.row_le_advance bytes n
      simpa [advance] using hle
  | succ m ih =>
      obtain ⟨n, rfl⟩ : ∃ k, n = k + 1 := ⟨n - 1, by omega⟩
      cases bytes with
      | nil => simp [advance]
      | cons b bs =>
          rw [advance, advance]
          split
          · exact ih _ bs (by omega)
          · exact ih _ bs (by omega)

theorem row_pointAt_mono (bytes : List UInt8) {m n : Nat} (h : m ≤ n) :
    (pointAt bytes m).row ≤ (pointAt bytes n).row :=
  Point.row_advance_mono _ bytes h

end Text

/-! ## Normalized nodes -/

namespace Normalize

variable {source : Source} {family : Option Family}

theorem mem_fullAll {siblings ts : List (Tree GrammarNode)} {index : Nat} {u : Tree SyntaxNode}
    (hu : u ∈ fullAll source siblings index ts) :
    ∃ i, ∃ t ∈ ts, u = full source (some ⟨siblings, i⟩) t := by
  induction ts generalizing index with
  | nil => exact absurd hu List.not_mem_nil
  | cons t ts ih =>
      rw [fullAll, List.mem_cons] at hu
      rcases hu with rfl | hu
      · exact ⟨index, t, List.mem_cons_self, rfl⟩
      · obtain ⟨i, t', ht', rfl⟩ := ih hu
        exact ⟨i, t', List.mem_cons_of_mem _ ht', rfl⟩

theorem exists_full_of_mem_subtrees {t : Tree GrammarNode} {u : Tree SyntaxNode}
    (hu : u ∈ (full source family t).subtrees) :
    ∃ family', ∃ v ∈ t.subtrees, u = full source family' v := by
  induction t generalizing family with
  | node n cs ih =>
      rw [full] at hu
      rcases mem_subtrees_node.mp hu with rfl | ⟨w, hw, hu⟩
      · exact ⟨family, _, self_mem_subtrees _, by rw [full]⟩
      · obtain ⟨i, c, hc, rfl⟩ := mem_fullAll hw
        obtain ⟨family', v, hv, rfl⟩ := ih c hc hu
        exact ⟨family', v, mem_subtrees_node.mpr (Or.inr ⟨c, hc, hv⟩), rfl⟩

mutual

theorem size_full (source : Source) :
    ∀ (family : Option Family) (t : Tree GrammarNode), (full source family t).size = t.size
  | _, .node n cs => by rw [full, size, size, sizeAll_fullAll source cs 0 cs]

theorem sizeAll_fullAll (source : Source) (siblings : List (Tree GrammarNode)) :
    ∀ (index : Nat) (ts : List (Tree GrammarNode)),
      sizeAll (fullAll source siblings index ts) = sizeAll ts
  | _, [] => rfl
  | index, t :: ts => by
      rw [fullAll, sizeAll, sizeAll, size_full source _ t,
        sizeAll_fullAll source siblings (index + 1) ts]

end

theorem isSome_text_full (t : Tree GrammarNode) :
    (full source family t).label.text.isSome ↔ (full source family t).children = [] := by
  cases t with
  | node n cs =>
      rw [full]
      cases cs with
      | nil => simp [label, children, nodeOf, fullAll]
      | cons c cs => simp [label, children, nodeOf, fullAll]

end Normalize

/-! ## Parsed code -/

/-- What a text is read into: a tree of settings, or that of a grammar. -/
theorem parseAs_cases {grammar : Grammar} {budget : Int} {text path : String}
    {language : Option Language} {ast : SourceTree}
    (h : parseAs grammar budget text language path = .ok ast) :
    (language = some .config ∧ ast = parseConfig text path) ∨
      ∃ code tree, language = some code ∧ code.isCode = true ∧ grammar code text = .ok tree ∧
        ast = .ofGrammar budget text path code tree := by
  unfold parseAs at h
  split at h
  · exact nomatch h
  · exact Or.inl ⟨rfl, (Except.ok.inj h).symm⟩
  · rename_i code _
    split at h
    · rename_i hcode
      split at h
      · rename_i tree htree
        exact Or.inr ⟨code, tree, rfl, hcode, htree, (Except.ok.inj h).symm⟩
      · exact nomatch h
    · exact nomatch h

section

variable {grammar : Grammar} {budget : Int} {text path : String} {language : Option Language}
  {ast : SourceTree}

theorem parseAs_of_isCode {code : Language} {tree : GrammarTree} (hcode : code.isCode = true)
    (htree : grammar code text = .ok tree) :
    parseAs grammar budget text (some code) path = .ok (.ofGrammar budget text path code tree) := by
  cases code with
  | config | other => exact nomatch hcode
  | python | javascript | typescript | tsx =>
      unfold parseAs
      dsimp only
      rw [htree]
      rfl

theorem path_of_parseAs (h : parseAs grammar budget text language path = .ok ast) :
    ast.path = path := by
  rcases parseAs_cases h with ⟨-, rfl⟩ | ⟨code, tree, -, -, -, rfl⟩ <;> rfl

theorem language_of_parseAs (h : parseAs grammar budget text language path = .ok ast) :
    language = some ast.language := by
  rcases parseAs_cases h with ⟨rfl, rfl⟩ | ⟨code, tree, rfl, -, -, rfl⟩ <;> rfl

theorem source_of_parseAs (h : parseAs grammar budget text language path = .ok ast) :
    ast.source = text := by
  rcases parseAs_cases h with ⟨-, rfl⟩ | ⟨code, tree, -, -, -, rfl⟩ <;> rfl

end

/-- A grammar whose nodes cover ranges of bytes. -/
def Grammar.Ordered (grammar : Grammar) : Prop :=
  ∀ language text tree, grammar language text = .ok tree →
    ∀ t ∈ tree.root.subtrees, t.label.startByte ≤ t.label.endByte

/-- A tree that some text is read into. -/
def SourceTree.IsParse (ast : SourceTree) : Prop :=
  ∃ grammar : Grammar, grammar.Ordered ∧ ∃ budget text language path,
    parseAs grammar budget text language path = .ok ast

theorem SourceTree.IsParse.exists_ofGrammar {ast : SourceTree} (h : ast.IsParse)
    (hcode : ast.language.isCode = true) :
    ∃ budget text path language tree,
      (∀ t ∈ tree.root.subtrees, t.label.startByte ≤ t.label.endByte) ∧
        ast = .ofGrammar budget text path language tree := by
  obtain ⟨grammar, hordered, budget, text, language, path, hparse⟩ := h
  rcases parseAs_cases hparse with ⟨-, rfl⟩ | ⟨code, tree, -, -, htree, rfl⟩
  · simp [parseConfig, Language.isCode] at hcode
  · exact ⟨budget, text, path, code, tree, hordered code text tree htree, rfl⟩

theorem normalize_eq (text : String) (budget : Int) (root : Tree GrammarNode) :
    normalize text budget root =
      ⟨(Normalize.full (Normalize.Source.ofText text) none root).take budget.toNat,
        min root.size (max 1 budget.toNat), budget ≤ root.size⟩ := by
  unfold normalize
  rw [copyWithin_eq, Normalize.size_full]

theorem SourceTree.root_ofGrammar (budget : Int) (text path : String) (language : Language)
    (tree : GrammarTree) : (SourceTree.ofGrammar budget text path language tree).root =
      (Normalize.full (Normalize.Source.ofText text) none tree.root).take budget.toNat := by
  unfold SourceTree.ofGrammar
  rw [normalize_eq]

theorem SourceTree.truncated_ofGrammar (budget : Int) (text path : String) (language : Language)
    (tree : GrammarTree) : (SourceTree.ofGrammar budget text path language tree).truncated =
      decide (budget ≤ tree.root.size) := by
  unfold SourceTree.ofGrammar
  rw [normalize_eq]

theorem exists_nodeOf_of_mem_subtrees {budget : Int} {text path : String} {language : Language}
    {tree : GrammarTree} {u : Tree SyntaxNode}
    (hu : u ∈ (SourceTree.ofGrammar budget text path language tree).root.subtrees) :
    ∃ family, ∃ v ∈ tree.root.subtrees,
      u.label = Normalize.nodeOf (Normalize.Source.ofText text) family v := by
  rw [SourceTree.root_ofGrammar] at hu
  obtain ⟨w, hw, hlabel⟩ := exists_label_of_mem_take hu
  obtain ⟨family, v, hv, rfl⟩ := Normalize.exists_full_of_mem_subtrees hw
  refine ⟨family, v, hv, hlabel.trans ?_⟩
  cases v
  rw [Normalize.full]
  rfl

/-- In a tree of a grammar only leaves have texts. -/
theorem text_eq_none_or_children_eq_nil {budget : Int} {text path : String} {language : Language}
    {tree : GrammarTree} {u : Tree SyntaxNode}
    (hu : u ∈ (SourceTree.ofGrammar budget text path language tree).root.subtrees) :
    u.label.text = none ∨ u.children = [] := by
  rw [SourceTree.root_ofGrammar] at hu
  obtain ⟨v, hv, n, rfl⟩ := exists_take_of_mem_take hu
  obtain ⟨family, w, -, rfl⟩ := Normalize.exists_full_of_mem_subtrees hv
  rw [label_take, children_take]
  by_cases htext : (Normalize.full (Normalize.Source.ofText text) family w).label.text.isSome = true
  · rw [(Normalize.isSome_text_full w).mp htext]
    exact Or.inr rfl
  · exact Or.inl (Option.not_isSome_iff_eq_none.mp htext)

/-- Lines count from one, and no node ends before it starts. -/
theorem SourceTree.IsParse.lines {ast : SourceTree} (h : ast.IsParse)
    (hcode : ast.language.isCode = true) {u : Tree SyntaxNode} (hu : u ∈ ast.root.subtrees) :
    1 ≤ u.label.startLine ∧ u.label.startLine ≤ u.label.endLine := by
  obtain ⟨budget, text, path, language, tree, hordered, rfl⟩ := h.exists_ofGrammar hcode
  obtain ⟨family, v, hv, hlabel⟩ := exists_nodeOf_of_mem_subtrees hu
  rw [hlabel]
  have hrows := Text.row_pointAt_mono (Normalize.Source.ofText text).list (hordered v hv)
  simp only [Normalize.nodeOf]
  omega

def grammarNode (kind : String) (field : Option String) (start stop : Nat)
    (children : List (Tree GrammarNode)) : Tree GrammarNode :=
  .node ⟨kind, start, stop, field, true, false⟩ children

def grammarToken (kind : String) (start stop : Nat) : Tree GrammarNode :=
  .node ⟨kind, start, stop, none, false, false⟩ []

/-- The tree of `x=>(y)`. -/
def arrowTree : GrammarTree where
  root := grammarNode "program" none 0 6 [grammarNode "expression_statement" none 0 6
    [grammarNode "arrow_function" none 0 6
      [grammarNode "identifier" (some "parameter") 0 1 [],
        grammarToken "=>" 1 3,
        grammarNode "parenthesized_expression" (some "body") 3 6
          [grammarToken "(" 3 4, grammarNode "identifier" none 4 5 [], grammarToken ")" 5 6]]]]
  hasError := false

end CodeHealth
