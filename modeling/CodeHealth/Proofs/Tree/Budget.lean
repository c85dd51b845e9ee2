import CodeHealth.Project.SourceFile
import CodeHealth.Proofs.Tree.Parse

/-!
# Node budgets

Two budgets give a file the same tree just if they cut it in the same place.
-/

namespace CodeHealth

/-- How far a budget reaches into a tree: the number of nodes it keeps, and one more if it leaves
none out. -/
def GrammarTree.reach (tree : GrammarTree) (budget : Int) : Int :=
  max 1 (min budget (tree.root.size + 1))

/-- Two budgets cut the tree of a file in the same place, if the file is code that has a tree. -/
def SourceFile.SameCut (f : SourceFile) (grammar : Grammar) (b c : Int) : Prop :=
  ∀ code tree, f.language = some code → code.isCode = true → grammar code f.text = .ok tree →
    tree.reach b = tree.reach c

theorem SourceTree.ofGrammar_eq_iff {text path : String} {language : Language}
    {tree : GrammarTree} {b c : Int} :
    SourceTree.ofGrammar b text path language tree = .ofGrammar c text path language tree ↔
      tree.reach b = tree.reach c := by
  have hpos := tree.root.size_pos
  have hsize : ∀ budget, (SourceTree.ofGrammar budget text path language tree).root.size =
      max 1 (min budget.toNat tree.root.size) := by
    intro budget
    rw [SourceTree.root_ofGrammar, Tree.size_take, Normalize.size_full]
  unfold GrammarTree.reach
  constructor
  · intro h
    have hb := hsize b
    rw [h, hsize c] at hb
    have hcut := SourceTree.truncated_ofGrammar b text path language tree
    rw [h, SourceTree.truncated_ofGrammar, decide_eq_decide] at hcut
    omega
  · intro h
    let whole := Normalize.full (Normalize.Source.ofText text) none tree.root
    have hkept : whole.take b.toNat = whole.take c.toNat := by
      by_cases hwhole : (tree.root.size : Int) < b
      · rw [Tree.take_of_size_le, Tree.take_of_size_le]
        all_goals
          rw [Normalize.size_full]
          omega
      · apply Tree.take_congr
        omega
    have hcount : min tree.root.size (max 1 b.toNat) = min tree.root.size (max 1 c.toNat) := by
      omega
    have hcut : b ≤ tree.root.size ↔ c ≤ tree.root.size := by omega
    unfold SourceTree.ofGrammar
    rw [normalize_eq, normalize_eq, hkept, hcount, decide_eq_decide.mpr hcut]

/-- A file has the same tree with two budgets just if they cut it in the same place. -/
theorem parseAs_eq_iff {grammar : Grammar} {f : SourceFile} {path : String} {b c : Int} :
    parseAs grammar b f.text f.language path = parseAs grammar c f.text f.language path ↔
      f.SameCut grammar b c := by
  constructor
  · intro h code tree hlanguage hcode htree
    rw [hlanguage, parseAs_of_isCode hcode htree, parseAs_of_isCode hcode htree] at h
    exact SourceTree.ofGrammar_eq_iff.mp (Except.ok.inj h)
  · intro h
    unfold parseAs
    split
    · rfl
    · rfl
    · rename_i code _ hlanguage
      split
      · rename_i hcode
        cases htree : grammar code f.text with
        | error reason => rfl
        | ok tree =>
            exact congrArg Except.ok
              (SourceTree.ofGrammar_eq_iff.mpr (h code tree hlanguage hcode htree))
      · rfl

end CodeHealth
