import CodeHealth.Proofs.Text.Part
import CodeHealth.Proofs.Tree.Lines
import Mathlib.Data.List.Infix

/-!
# Lines of configurations

The entries of a configuration are its lines that are not blank, in order. An entry covers the bytes
of its line in the text, up to the carriage returns at its end. The text before a line is what the
offset of its entry counts, which each line moves on by its own bytes and those of a line feed.
-/

namespace CodeHealth

open CodeHealth.Tree

namespace Text

/-- The bytes of a part of a text. -/
theorem extract_toUTF8_append (before part after : String) :
    (before ++ part ++ after).toUTF8.extract before.utf8ByteSize
      (before.utf8ByteSize + part.utf8ByteSize) = part.toUTF8 := by
  have hsize : before.utf8ByteSize + part.utf8ByteSize = (before.toUTF8 ++ part.toUTF8).size := by
    rw [ByteArray.size_append]
    rfl
  have hbytes : (before ++ part ++ after).toUTF8 =
      before.toUTF8 ++ part.toUTF8 ++ after.toUTF8 := by
    simp only [String.toUTF8_eq_toByteArray, String.toByteArray_append]
  rw [hbytes, hsize, ByteArray.extract_append_size_left]
  exact ByteArray.extract_append_eq_right rfl ByteArray.size_append

end Text

namespace Config

variable {text : String}

/-! ## Lines -/

/-- The line has a character that is no blank. -/
def isFilled (line : String) : Bool :=
  line.toList.any fun c => !Text.isBlank c

/-- The line without the carriage returns at its end. -/
def withoutReturns (line : String) : String :=
  String.ofList (Text.dropReturns line.toList)

/-- The lines of a text that are not blank, each with its number, which counts from one. -/
def filledLines (text : String) : List (String × Nat) :=
  ((Text.splitOnChar '\n' text).zipIdx 1).filter fun l => isFilled l.1

/-- The node covers the bytes of a line with its number, up to the carriage returns at its end. -/
structure Covers (text : String) (l : String × Nat) (t : Tree SyntaxNode) : Prop where
  startLine : t.label.startLine = l.2
  endLine : t.label.endLine = l.2
  startByte_lt_endByte : t.label.startByte < t.label.endByte
  endByte_le : t.label.endByte ≤ text.utf8ByteSize
  bytes : text.toUTF8.extract t.label.startByte t.label.endByte = (withoutReturns l.1).toUTF8

theorem mem_trim_iff {c : Char} (hc : Text.isBlank c = false) {cs : List Char} :
    c ∈ Text.trim cs ↔ c ∈ cs := by
  rw [← List.singleton_infix_iff, ← List.singleton_infix_iff]
  exact Text.infix_trim_iff fun d hd => List.mem_singleton.mp hd ▸ hc

/-- A text is stripped to nothing exactly if it is blank. -/
theorem strip_beq_empty (line : String) : (Text.strip line == "") = !isFilled line := by
  rw [Bool.eq_iff_iff, beq_iff_eq, Bool.not_eq_true', ← Bool.not_eq_true, isFilled,
    List.any_eq_true, Text.strip, ← String.toList_inj, String.toList_ofList]
  constructor
  · rintro htrim ⟨c, hc, hblank⟩
    rw [← mem_trim_iff (by simpa using hblank), htrim] at hc
    exact List.not_mem_nil hc
  · intro hblank
    have hnone : line.toList.dropWhile Text.isBlank = [] :=
      List.dropWhile_eq_nil_iff.mpr fun c hc => by
        by_contra h
        exact hblank ⟨c, hc, by simpa using h⟩
    rw [Text.trim, hnone]
    rfl

theorem isFilled_withoutReturns (line : String) :
    isFilled (withoutReturns line) = isFilled line := by
  have hmem : ∀ c, Text.isBlank c = false →
      (c ∈ Text.dropReturns line.toList ↔ c ∈ line.toList) := by
    intro c hc
    rw [← List.singleton_infix_iff, ← List.singleton_infix_iff]
    refine Text.infix_dropEndWhile_iff fun d hd => ?_
    rw [List.mem_singleton.mp hd, beq_eq_false_iff_ne]
    rintro rfl
    exact absurd hc (by decide)
  rw [Bool.eq_iff_iff, isFilled, isFilled, withoutReturns, String.toList_ofList, List.any_eq_true,
    List.any_eq_true]
  refine exists_congr fun c => ?_
  rw [Bool.not_eq_true']
  exact and_congr_left (hmem c)

/-- A line is its front without the carriage returns and some end. -/
theorem exists_withoutReturns_append (line : String) :
    ∃ rest, line = withoutReturns line ++ rest := by
  obtain ⟨rest, hrest⟩ := List.rdropWhile_prefix (· == '\r') line.toList
  refine ⟨String.ofList rest, ?_⟩
  rw [withoutReturns, ← String.ofList_append]
  exact (String.ofList_toList.symm).trans (congrArg String.ofList hrest.symm)

theorem utf8ByteSize_pos_of_isFilled {line : String} (h : isFilled line = true) :
    0 < line.utf8ByteSize := by
  rw [Nat.pos_iff_ne_zero, Ne, String.utf8ByteSize_eq_zero_iff]
  rintro rfl
  exact absurd h (by decide)

/-! ## Entries -/

/-- A line that is not blank has an entry, at the offset of what is before it. -/
theorem entriesFrom_cons (index offset : Nat) (raw : String) (rest : List String) :
    entriesFrom index offset (raw :: rest) =
      if isFilled raw then .node (entryNode index offset (withoutReturns raw)) [] ::
        entriesFrom (index + 1) (offset + raw.utf8ByteSize + 1) rest
      else entriesFrom (index + 1) (offset + raw.utf8ByteSize + 1) rest := by
  rw [entriesFrom, ← withoutReturns, strip_beq_empty, isFilled_withoutReturns]
  cases isFilled raw <;> rfl

theorem covers_entryNode (index : Nat) (before raw after : String) (h : isFilled raw = true) :
    Covers (before ++ raw ++ after) (raw, index)
      (.node (entryNode index before.utf8ByteSize (withoutReturns raw)) []) := by
  obtain ⟨rest, hrest⟩ := exists_withoutReturns_append raw
  have hline : 0 < (withoutReturns raw).utf8ByteSize :=
    utf8ByteSize_pos_of_isFilled ((isFilled_withoutReturns raw).trans h)
  have htext : before ++ raw ++ after = before ++ withoutReturns raw ++ (rest ++ after) := by
    conv_lhs => rw [hrest]
    simp only [String.append_assoc]
  refine ⟨rfl, rfl, Nat.lt_add_of_pos_right hline, ?_, ?_⟩
  · rw [htext, String.utf8ByteSize_append, String.utf8ByteSize_append]
    exact Nat.le_add_right _ _
  · rw [htext]
    exact Text.extract_toUTF8_append before (withoutReturns raw) (rest ++ after)

/-- The entries of some lines cover them in the text that the lines make up, after what is
before. -/
theorem forall₂_entriesFrom (index : Nat) (before : String) (lines : List String) :
    List.Forall₂ (Covers (before ++ "\n".intercalate lines))
      ((lines.zipIdx index).filter fun l => isFilled l.1)
      (entriesFrom index before.utf8ByteSize lines) := by
  induction lines generalizing index before with
  | nil => exact .nil
  | cons raw rest ih =>
      obtain ⟨after, hafter, hrest⟩ : ∃ after,
          before ++ "\n".intercalate (raw :: rest) = before ++ raw ++ after ∧
          List.Forall₂ (Covers (before ++ "\n".intercalate (raw :: rest)))
            ((rest.zipIdx (index + 1)).filter fun l => isFilled l.1)
            (entriesFrom (index + 1) (before.utf8ByteSize + raw.utf8ByteSize + 1) rest) := by
        cases rest with
        | nil => exact ⟨"", by simp, .nil⟩
        | cons next rest =>
            have hjoin : before ++ "\n".intercalate (raw :: next :: rest) =
                before ++ raw ++ "\n" ++ "\n".intercalate (next :: rest) := by
              rw [String.intercalate_cons_of_ne_nil (List.cons_ne_nil next rest)]
              simp only [String.append_assoc]
            have hsize : (before ++ raw ++ "\n").utf8ByteSize =
                before.utf8ByteSize + raw.utf8ByteSize + 1 := by
              rw [String.utf8ByteSize_append, String.utf8ByteSize_append]
              rfl
            refine ⟨"\n" ++ "\n".intercalate (next :: rest), ?_, ?_⟩
            · rw [hjoin, String.append_assoc]
            · rw [hjoin, ← hsize]
              exact ih (index + 1) (before ++ raw ++ "\n")
      rw [entriesFrom_cons, List.zipIdx_cons, List.filter_cons]
      cases hfilled : isFilled raw with
      | false => exact hrest
      | true =>
          refine .cons ?_ hrest
          rw [hafter]
          exact covers_entryNode index before raw after hfilled

/-- Entries start after what is before their lines. -/
theorem le_startByte_of_mem_entriesFrom {lines : List String} {index offset : Nat}
    {u : Tree SyntaxNode} (hu : u ∈ entriesFrom index offset lines) :
    offset ≤ u.label.startByte := by
  induction lines generalizing index offset with
  | nil => exact absurd hu List.not_mem_nil
  | cons raw rest ih =>
      have hlater : u ∈ entriesFrom (index + 1) (offset + raw.utf8ByteSize + 1) rest →
          offset ≤ u.label.startByte := by
        intro hu
        have hle := ih hu
        omega
      rw [entriesFrom_cons] at hu
      split at hu
      · rcases List.mem_cons.mp hu with rfl | hu
        · exact Nat.le_refl offset
        · exact hlater hu
      · exact hlater hu

/-- Entries stand one after another, with at least the line feed between them. -/
theorem pairwise_bytes_entriesFrom (lines : List String) (index offset : Nat) :
    (entriesFrom index offset lines).Pairwise fun t u => t.label.endByte < u.label.startByte := by
  induction lines generalizing index offset with
  | nil => exact .nil
  | cons raw rest ih =>
      rw [entriesFrom_cons]
      split
      · refine .cons ?_ (ih _ _)
        intro u hu
        have hle := le_startByte_of_mem_entriesFrom hu
        obtain ⟨tail, htail⟩ := exists_withoutReturns_append raw
        have hsize : (withoutReturns raw).utf8ByteSize ≤ raw.utf8ByteSize := by
          conv_rhs => rw [htail, String.utf8ByteSize_append]
          exact Nat.le_add_right _ _
        change offset + (withoutReturns raw).utf8ByteSize < u.label.startByte
        omega
      · exact ih _ _

/-- An empty last line has no entry. -/
theorem entriesFrom_concat_empty (lines : List String) (index offset : Nat) :
    entriesFrom index offset (lines ++ [""]) = entriesFrom index offset lines := by
  induction lines generalizing index offset with
  | nil => rfl
  | cons raw rest ih => rw [List.cons_append, entriesFrom_cons, entriesFrom_cons, ih]

theorem children_document (text : String) :
    (document text).children = entriesFrom 1 0 (Text.splitOnChar '\n' text) := by
  rw [document, children, rawLines]
  split
  · rename_i hlast
    have hconcat : Text.splitOnChar '\n' text = (Text.splitOnChar '\n' text).dropLast ++ [""] :=
      (List.dropLast_append_getLast? "" (beq_iff_eq.mp hlast)).symm
    conv_rhs => rw [hconcat, entriesFrom_concat_empty]
  · rfl

/-- The entries of a configuration cover its lines that are not blank, each entry its own line, one
after another in the order of the lines. They and the document are the nodes that are counted. -/
theorem parseConfig_covers (text path : String) :
    List.Forall₂ (Covers text) (filledLines text) (parseConfig text path).root.children ∧
      (parseConfig text path).root.children.Pairwise
        (fun t u => t.label.endByte < u.label.startByte) ∧
      (parseConfig text path).nodeCount = (parseConfig text path).root.children.length + 1 := by
  have hchildren : (parseConfig text path).root.children =
      entriesFrom 1 0 (Text.splitOnChar '\n' text) := children_document text
  refine ⟨?_, ?_, rfl⟩
  · rw [hchildren, filledLines]
    have hcovers := forall₂_entriesFrom 1 "" (Text.splitOnChar '\n' text)
    have htext : "\n".intercalate (Text.splitOnChar '\n' text) = text :=
      Text.intercalate_splitOnChar '\n' text
    rwa [String.empty_append, htext] at hcovers
  · rw [hchildren]
    exact pairwise_bytes_entriesFrom _ 1 0

end Config

end CodeHealth
