import CodeHealth.Proofs.Tree.Parse

/-!
# Truncation

When a text of code counts as too large. Its tree is cut off at the node budget, and is marked so
once it has as many nodes as the budget allows: also where none of them is left out.
-/

namespace CodeHealth

variable {grammar : Grammar} {budget : Int} {text path : String} {hint : Option String}
  {tree : GrammarTree}

/-- The grammar has a tree for a text of code. -/
def Grammar.Reads (grammar : Grammar) (text : String) (hint : Option String) (path : String)
    (tree : GrammarTree) : Prop :=
  ∃ code, Language.resolve? hint path = some code ∧ code.isCode = true ∧
    grammar code text = .ok tree

/-- The tree counts as truncated just where it has more nodes than the budget allows, that is
where some node is left out, and it is refused as too large only then. -/
def TellsTruncation (grammar : Grammar) (budget : Int) (text : String) (hint : Option String)
    (path : String) (tree : GrammarTree) : Prop :=
  ∃ ast, parse grammar budget text hint path = .ok ast ∧
    (ast.truncated = true ↔ budget < tree.root.size) ∧
    (ast.root.size < tree.root.size ↔ budget < tree.root.size) ∧
    (parseStrict grammar budget text hint path = .error (.tooLarge path budget) →
      budget < tree.root.size)

theorem SourceTree.requireClean_eq_tooLarge_iff {ast : SourceTree} :
    ast.requireClean budget = .error (.tooLarge ast.path budget) ↔ ast.truncated = true := by
  unfold requireClean
  cases htruncated : ast.truncated with
  | true => simp
  | false => cases ast.hasErrors <;> simp

theorem Grammar.Reads.parse_eq (h : grammar.Reads text hint path tree) :
    ∃ code, parse grammar budget text hint path =
      .ok (.ofGrammar budget text path code tree) := by
  obtain ⟨code, hlanguage, hcode, htree⟩ := h
  refine ⟨code, ?_⟩
  unfold parse
  rw [hlanguage]
  exact parseAs_of_isCode hcode htree

/-- A budget is reached before it is exceeded. -/
theorem Grammar.Reads.exists_parse (h : grammar.Reads text hint path tree) (hbudget : 1 ≤ budget) :
    ∃ ast, parse grammar budget text hint path = .ok ast ∧
      ast.root.size = min tree.root.size budget.toNat ∧ ast.nodeCount = ast.root.size ∧
      (ast.truncated = true ↔ budget ≤ tree.root.size) ∧
      (parseStrict grammar budget text hint path = .error (.tooLarge path budget) ↔
        budget ≤ tree.root.size) := by
  obtain ⟨code, hparse⟩ := h.parse_eq
  let ast := SourceTree.ofGrammar budget text path code tree
  have hpos := tree.root.size_pos
  have hsize : ast.root.size = max 1 (min budget.toNat tree.root.size) := by
    rw [SourceTree.root_ofGrammar, Tree.size_take, Normalize.size_full]
  have hcount : ast.nodeCount = min tree.root.size (max 1 budget.toNat) := by
    change (normalize text budget tree.root).count = _
    rw [normalize_eq]
  have htruncated : ast.truncated = true ↔ budget ≤ tree.root.size := by
    rw [SourceTree.truncated_ofGrammar, decide_eq_true_iff]
  refine ⟨ast, hparse, by omega, by omega, htruncated, ?_⟩
  rw [← htruncated, ← SourceTree.requireClean_eq_tooLarge_iff]
  unfold parseStrict
  rw [hparse]
  rfl

/-- A reading tells truncation for all budgets but one: a tree with as many nodes as the budget
allows is kept whole, and yet it is refused as too large. -/
theorem tellsTruncation_iff (hreads : grammar.Reads text hint path tree) (hbudget : 1 ≤ budget) :
    (TellsTruncation grammar budget text hint path tree ↔ budget ≠ tree.root.size) ∧
      (budget = tree.root.size →
        ∃ ast, parse grammar budget text hint path = .ok ast ∧
          ast.root.size = tree.root.size ∧ ast.truncated = true ∧
          parseStrict grammar budget text hint path = .error (.tooLarge path budget)) := by
  obtain ⟨ast, hparse, hsize, -, htruncated, hstrict⟩ := hreads.exists_parse hbudget
  refine ⟨⟨?_, ?_⟩, ?_⟩
  · rintro ⟨ast', hparse', htells, -, -⟩ heq
    obtain rfl : ast' = ast := Except.ok.inj (hparse'.symm.trans hparse)
    have hlt := htells.mp (htruncated.mpr (by omega))
    omega
  · intro hne
    refine ⟨ast, hparse, ?_, by omega, ?_⟩
    · rw [htruncated]
      omega
    · rw [hstrict]
      omega
  · intro heq
    refine ⟨ast, hparse, by omega, htruncated.mpr (by omega), hstrict.mpr (by omega)⟩

theorem size_arrowTree : arrowTree.root.size = 9 := by decide

theorem reads_arrowTree :
    Grammar.Reads (fun _ _ => .ok arrowTree) "x=>(y)" none "a.js" arrowTree :=
  ⟨.javascript, by decide +kernel, rfl, rfl⟩

/-- The tree of `x=>(y)` has nine nodes, which a budget of eight or ten tells. -/
theorem arrow_tells_truncation :
    Grammar.Reads (fun _ _ => .ok arrowTree) "x=>(y)" none "a.js" arrowTree ∧
      (1 : Int) ≤ 8 ∧ (1 : Int) ≤ 10 ∧
      TellsTruncation (fun _ _ => .ok arrowTree) 8 "x=>(y)" none "a.js" arrowTree ∧
      TellsTruncation (fun _ _ => .ok arrowTree) 10 "x=>(y)" none "a.js" arrowTree := by
  refine ⟨reads_arrowTree, by decide, by decide, ?_, ?_⟩
  · exact (tellsTruncation_iff reads_arrowTree (by decide)).1.mpr (by rw [size_arrowTree]; decide)
  · exact (tellsTruncation_iff reads_arrowTree (by decide)).1.mpr (by rw [size_arrowTree]; decide)

/-- With a budget of nine nodes all nine are kept, and the tree is refused for more than nine. -/
theorem arrow_exceeds_own_size :
    (∃ ast, parse (fun _ _ => .ok arrowTree) 9 "x=>(y)" none "a.js" = .ok ast ∧
      arrowTree.root.size = 9 ∧ ast.root.size = 9 ∧ ast.truncated = true) ∧
    (∃ error, parseStrict (fun _ _ => .ok arrowTree) 9 "x=>(y)" none "a.js" = .error error ∧
      error.message = "Parse error in 'a.js': tree exceeds 9 nodes") ∧
    ¬ TellsTruncation (fun _ _ => .ok arrowTree) 9 "x=>(y)" none "a.js" arrowTree := by
  obtain ⟨ast, hparse, hsize, -, htruncated, hstrict⟩ :=
    reads_arrowTree.exists_parse (by decide : (1 : Int) ≤ 9)
  rw [size_arrowTree] at hsize htruncated hstrict
  refine ⟨⟨ast, hparse, size_arrowTree, hsize, htruncated.mpr (by decide)⟩,
    ⟨_, hstrict.mpr (by decide), by decide +kernel⟩, ?_⟩
  rintro ⟨ast', hparse', htells, -, -⟩
  obtain rfl : ast' = ast := Except.ok.inj (hparse'.symm.trans hparse)
  have hlt := htells.mp (htruncated.mpr (by decide))
  rw [size_arrowTree] at hlt
  exact absurd hlt (by decide)

end CodeHealth
