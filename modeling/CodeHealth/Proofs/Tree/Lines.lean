import CodeHealth.Proofs.Text.Line
import CodeHealth.Proofs.Tree.Parse
import Mathlib.Tactic.SplitIfs

/-!
# Lines of parsed trees

A place in a text lies below no more line feeds than the text holds, which has one line more than
line feeds. So every node of a parsed tree starts on a line of its text.
-/

namespace CodeHealth

open CodeHealth.Tree

/-! ## Line feeds -/

namespace Text

theorem Point.row_advance_le (p : Point) (bytes : List UInt8) (n : Nat) :
    (p.advance bytes n).row ≤ p.row + bytes.count 10 := by
  induction n generalizing p bytes with
  | zero => simp [advance]
  | succ n ih =>
      cases bytes with
      | nil => simp [advance]
      | cons b bs =>
          rw [advance, List.count_cons]
          split
          · have hle := ih ⟨p.row + 1, 0⟩ bs
            dsimp only at hle
            omega
          · exact ih ⟨p.row, p.column + 1⟩ bs

theorem ten_ne_ofNat {n : Nat} (h : n % 256 ≠ 10) : 10 ≠ UInt8.ofNat n := by
  intro heq
  have hnat := congrArg UInt8.toNat heq
  rw [UInt8.toNat_ofNat'] at hnat
  exact h hnat.symm

/-- Only a line feed is written with the byte of a line feed. -/
theorem count_utf8EncodeChar_le (c : Char) :
    (String.utf8EncodeChar c).count 10 ≤ [c].count '\n' := by
  by_cases hc : c = '\n'
  · subst hc
    decide
  · have hval : c.val.toNat ≠ 10 := by
      intro hval
      exact hc (Char.ext (UInt32.toNat_inj.mp hval))
    have hnone : (10 : UInt8) ∉ String.utf8EncodeChar c := by
      unfold String.utf8EncodeChar
      dsimp only
      -- the first byte of a longer code is at least 192, and the others are at least 128
      split_ifs
      all_goals simp only [List.mem_cons, List.not_mem_nil, or_false, not_or]
      all_goals repeat' apply And.intro
      all_goals exact ten_ne_ofNat (by omega)
    rw [List.count_eq_zero.mpr hnone]
    exact Nat.zero_le _

theorem count_toUTF8_le (s : String) :
    s.toUTF8.data.toList.count 10 ≤ s.toList.count '\n' := by
  have hbytes : s.toUTF8.data.toList = s.toList.flatMap String.utf8EncodeChar := by
    have hencode : s.toUTF8 = s.toList.utf8Encode := by
      rw [← String.toByteArray_ofList, String.ofList_toList]
      rfl
    rw [hencode, List.utf8Encode, List.data_toByteArray]
  rw [hbytes]
  induction s.toList with
  | nil => exact Nat.le_refl 0
  | cons c cs ih =>
      have hchar := count_utf8EncodeChar_le c
      rw [List.flatMap_cons, List.count_append, List.count_cons]
      rw [List.count_singleton] at hchar
      omega

/-- Every place in a text is on one of its lines. -/
theorem row_pointAt_lt (text : String) (offset : Nat) :
    (pointAt text.toUTF8.data.toList offset).row < (linesOf text).length := by
  have hrow := Point.row_advance_le ⟨0, 0⟩ text.toUTF8.data.toList offset
  have hfeeds := count_toUTF8_le text
  rw [length_linesOf, pointAt]
  dsimp only at hrow
  omega

end Text

/-! ## Lines of nodes -/

/-- The node starts on one of so many lines. -/
def SyntaxNode.StartsWithin (n : SyntaxNode) (lines : Nat) : Prop :=
  1 ≤ n.startLine ∧ n.startLine ≤ lines

/-- The node starts and ends on lines among so many. -/
structure SyntaxNode.Within (n : SyntaxNode) (lines : Nat) : Prop where
  startsWithin : n.StartsWithin lines
  endLine_le : n.endLine ≤ lines

theorem within_ofGrammar {budget : Int} {text path : String} {language : Language}
    {tree : GrammarTree} {u : Tree SyntaxNode}
    (hu : u ∈ (SourceTree.ofGrammar budget text path language tree).root.subtrees) :
    u.label.Within (Text.linesOf text).length := by
  obtain ⟨family, v, -, hlabel⟩ := exists_nodeOf_of_mem_subtrees hu
  rw [hlabel]
  exact ⟨⟨Nat.succ_le_succ (Nat.zero_le _), Text.row_pointAt_lt text v.label.startByte⟩,
    Text.row_pointAt_lt text v.label.endByte⟩

namespace Config

theorem exists_entryNode {lines : List String} {index offset : Nat} {u : Tree SyntaxNode}
    (hu : u ∈ entriesFrom index offset lines) :
    ∃ i offset' line, u = .node (entryNode i offset' line) [] ∧ Text.strip line ≠ "" ∧
      index ≤ i ∧ i < index + lines.length := by
  induction lines generalizing index offset with
  | nil => exact absurd hu List.not_mem_nil
  | cons raw rest ih =>
      rw [entriesFrom] at hu
      rw [List.length_cons]
      split at hu
      · obtain ⟨i, offset', line, hu, hline, hle, hlt⟩ := ih hu
        exact ⟨i, offset', line, hu, hline, by omega, by omega⟩
      · rename_i hblank
        rcases List.mem_cons.mp hu with rfl | hu
        · refine ⟨index, offset, _, rfl, ?_, Nat.le_refl index, by omega⟩
          simpa using hblank
        · obtain ⟨i, offset', line, hu, hline, hle, hlt⟩ := ih hu
          exact ⟨i, offset', line, hu, hline, by omega, by omega⟩

/-- Entries stand on lines of their own. -/
theorem pairwise_entriesFrom (lines : List String) (index offset : Nat) :
    (entriesFrom index offset lines).Pairwise fun t u =>
      t.label.startLine < u.label.startLine := by
  induction lines generalizing index offset with
  | nil => exact .nil
  | cons raw rest ih =>
      rw [entriesFrom]
      split
      · exact ih _ _
      · refine .cons ?_ (ih _ _)
        intro u hu
        obtain ⟨i, offset', line, rfl, -, hle, -⟩ := exists_entryNode hu
        exact hle

theorem length_rawLines_le (text : String) :
    (rawLines text).length ≤ (Text.linesOf text).length := by
  have hlines : (Text.linesOf text).length = (Text.splitOnChar '\n' text).length := by
    simp only [Text.linesOf, Text.splitOnChar, List.length_map]
  rw [hlines]
  unfold rawLines
  dsimp only
  split
  · rw [List.length_dropLast]
    omega
  · exact Nat.le_refl _

/-- A node of a configuration is the document or the entry of a line. -/
theorem cases_of_mem_document {text : String} {u : Tree SyntaxNode}
    (hu : u ∈ (document text).subtrees) :
    u = document text ∨ ∃ i offset line, u = .node (entryNode i offset line) [] ∧ 1 ≤ i ∧
      i ≤ (rawLines text).length := by
  rw [document, mem_subtrees_node] at hu
  rcases hu with rfl | ⟨c, hc, hu⟩
  · exact Or.inl rfl
  · obtain ⟨i, offset, line, rfl, -, hle, hlt⟩ := exists_entryNode hc
    obtain rfl : u = node (entryNode i offset line) [] := by simpa [mem_subtrees_node] using hu
    exact Or.inr ⟨i, offset, line, rfl, hle, by omega⟩

theorem within_document {text : String} {u : Tree SyntaxNode} (hu : u ∈ (document text).subtrees) :
    u.label.Within (Text.linesOf text).length := by
  have hlines := Text.length_linesOf text
  have hraw := length_rawLines_le text
  rcases cases_of_mem_document hu with rfl | ⟨i, offset, line, rfl, hle, hlt⟩
  · refine ⟨⟨Nat.le_refl 1, ?_⟩, ?_⟩
    · simp only [document, label]
      omega
    · simp only [document, label]
      omega
  · exact ⟨⟨hle, hlt.trans hraw⟩, hlt.trans hraw⟩

end Config

/-- Every node of a parsed tree starts and ends on lines of its text. -/
theorem within_of_parseAs {grammar : Grammar} {budget : Int} {text path : String}
    {language : Option Language} {ast : SourceTree}
    (h : parseAs grammar budget text language path = .ok ast) {u : Tree SyntaxNode}
    (hu : u ∈ ast.root.subtrees) : u.label.Within ast.lines.length := by
  rcases parseAs_cases h with ⟨-, rfl⟩ | ⟨code, tree, -, -, -, rfl⟩
  · exact Config.within_document hu
  · exact within_ofGrammar hu

end CodeHealth
