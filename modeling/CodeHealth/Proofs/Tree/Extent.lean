import CodeHealth.Proofs.Tree.Config
import Mathlib.Data.List.Forall2

/-!
# Extent of configurations

A document counts a line feed behind every line. So it ends where its text ends if the last line has
one, and otherwise one byte later. Its entries lie in the text all the same.
-/

namespace CodeHealth

open CodeHealth.Tree

/-- The last part of a text is empty exactly if the text is empty or ends with a separator. -/
theorem Text.getLast?_splitAt_eq_nil_iff {sep : Char} {cs : List Char} :
    (splitAt sep cs).getLast? = some [] ↔ ∀ c ∈ cs.getLast?, c = sep := by
  induction cs with
  | nil => simp [splitAt]
  | cons c cs ih =>
      by_cases hc : c = sep
      · subst hc
        rw [splitAt_cons_sep, List.getLast?_cons_of_ne_nil (splitAt_ne_nil c cs), ih]
        cases cs <;> simp
      · obtain ⟨part, rest, hsplit, hcons⟩ := exists_splitAt_cons hc cs
        have hfree : sep ∉ part := notMem_of_mem_splitAt (hsplit ▸ List.mem_cons_self)
        have hjoin := intercalate_splitAt sep cs
        rw [hcons]
        cases rest with
        | nil =>
            -- the text holds no separator
            rw [hsplit, List.intercalate_singleton] at hjoin
            subst hjoin
            have hlast := List.getLast?_eq_some_getLast (List.cons_ne_nil c part)
            have hmem := List.getLast_mem (List.cons_ne_nil c part)
            rw [hlast]
            simp only [List.getLast?_singleton, Option.some.injEq, reduceCtorEq, Option.mem_def,
              forall_eq', false_iff]
            intro hsep
            rcases List.mem_cons.mp (hsep ▸ hmem) with rfl | hpart
            · exact hc rfl
            · exact hfree hpart
        | cons next rest =>
            have hne : cs ≠ [] := by
              rintro rfl
              exact nomatch hsplit
            rw [List.getLast?_cons_cons, ← List.getLast?_cons_cons (a := part), ← hsplit, ih,
              List.getLast?_cons_of_ne_nil hne]

namespace Config

/-- The last line of the text has no line feed. -/
def endsOpen (text : String) : Bool :=
  text.toList.getLast?.any (· != '\n')

/-- A node covers the bytes of a text, and its children lie inside it. -/
structure SpansText (text : String) (root : Tree SyntaxNode) : Prop where
  startByte : root.label.startByte = 0
  endByte : root.label.endByte = text.utf8ByteSize
  within : ∀ t ∈ root.children,
    root.label.startByte ≤ t.label.startByte ∧ t.label.endByte ≤ root.label.endByte

theorem getLast?_lines_iff (text : String) :
    (Text.splitOnChar '\n' text).getLast? = some "" ↔ endsOpen text = false := by
  have hlast : (Text.splitOnChar '\n' text).getLast? = some "" ↔
      (Text.splitAt '\n' text.toList).getLast? = some [] := by
    rw [Text.splitOnChar, List.getLast?_map, Option.map_eq_some_iff]
    simp [String.ofList_eq_empty_iff]
  rw [hlast, Text.getLast?_splitAt_eq_nil_iff, endsOpen]
  cases text.toList.getLast? <;> simp

/-- Some lines, each with a line feed, have one byte more than the text that they make up. -/
theorem byteSize_of_ne_nil {lines : List String} (h : lines ≠ []) :
    byteSize lines = ("\n".intercalate lines).utf8ByteSize + 1 := by
  induction lines with
  | nil => exact absurd rfl h
  | cons raw rest ih =>
      have hcons : byteSize (raw :: rest) = raw.utf8ByteSize + 1 + byteSize rest := rfl
      rw [hcons]
      cases rest with
      | nil => simp [byteSize]
      | cons next rest =>
          have hfeed : "\n".utf8ByteSize = 1 := rfl
          rw [ih (List.cons_ne_nil next rest),
            String.intercalate_cons_of_ne_nil (List.cons_ne_nil next rest),
            String.utf8ByteSize_append, String.utf8ByteSize_append, hfeed]
          omega

theorem byteSize_concat_empty (lines : List String) :
    byteSize (lines ++ [""]) = byteSize lines + 1 := by
  induction lines with
  | nil => rfl
  | cons raw rest ih =>
      have hcons : ∀ rest, byteSize (raw :: rest) = raw.utf8ByteSize + 1 + byteSize rest :=
        fun _ => rfl
      rw [List.cons_append, hcons, hcons, ih]
      omega

/-- The document ends with the text, or one byte behind it. -/
theorem endByte_document (text : String) :
    (document text).label.endByte = text.utf8ByteSize + if endsOpen text then 1 else 0 := by
  have hend : (document text).label.endByte = byteSize (rawLines text) := rfl
  have hall : byteSize (Text.splitOnChar '\n' text) = text.utf8ByteSize + 1 := by
    have hne : Text.splitOnChar '\n' text ≠ [] := by
      rw [Text.splitOnChar, Ne, List.map_eq_nil_iff]
      exact Text.splitAt_ne_nil _ _
    rw [byteSize_of_ne_nil hne]
    exact congrArg (String.utf8ByteSize · + 1) (Text.intercalate_splitOnChar '\n' text)
  have hlast := getLast?_lines_iff text
  rw [hend, rawLines]
  cases hopen : endsOpen text with
  | false =>
      rw [hopen, eq_self, iff_true] at hlast
      rw [← List.dropLast_append_getLast? "" hlast, byteSize_concat_empty] at hall
      rw [if_pos (beq_iff_eq.mpr hlast), if_neg Bool.false_ne_true]
      omega
  | true =>
      rw [hopen, Bool.true_eq_false, iff_false] at hlast
      rw [if_neg (by simpa using hlast), if_pos rfl, hall]

/-- Entries lie in the text, whether its last line has a line feed or not. -/
theorem bytes_of_mem_document {text : String} {t : Tree SyntaxNode}
    (ht : t ∈ (document text).children) :
    t.label.startByte < t.label.endByte ∧ t.label.endByte ≤ text.utf8ByteSize := by
  have hcovers := forall₂_entriesFrom 1 "" (Text.splitOnChar '\n' text)
  have htext : "\n".intercalate (Text.splitOnChar '\n' text) = text :=
    Text.intercalate_splitOnChar '\n' text
  rw [String.empty_append, htext] at hcovers
  rw [children_document] at ht
  obtain ⟨hlength, hget⟩ := List.forall₂_iff_get.mp hcovers
  obtain ⟨i, hi⟩ := List.get_of_mem ht
  have hcovered := hget i (i.isLt.trans_eq hlength.symm) i.isLt
  rw [← hi]
  exact ⟨hcovered.startByte_lt_endByte, hcovered.endByte_le⟩

/-- A document spans its text exactly if the text is empty or its last line has a line feed: without
one the document ends one byte behind the text. It starts with the text in any case, and its entries
lie in the text. -/
theorem spansText_iff (text path : String) :
    (SpansText text (parseConfig text path).root ↔ endsOpen text = false) ∧
      (parseConfig text path).root.label.startByte = 0 ∧
      (parseConfig text path).root.label.endByte =
        text.utf8ByteSize + (if endsOpen text then 1 else 0) ∧
      ∀ t ∈ (parseConfig text path).root.children,
        t.label.startByte < t.label.endByte ∧ t.label.endByte ≤ text.utf8ByteSize := by
  have hend : (parseConfig text path).root.label.endByte = _ := endByte_document text
  have hentries : ∀ t ∈ (parseConfig text path).root.children, _ :=
    fun t ht => bytes_of_mem_document ht
  refine ⟨⟨fun hspans => ?_, fun hopen => ?_⟩, rfl, hend, hentries⟩
  · have hsame := hspans.endByte
    rw [hend] at hsame
    cases hopen : endsOpen text with
    | false => rfl
    | true =>
        rw [hopen, if_pos rfl] at hsame
        omega
  · rw [hopen, if_neg Bool.false_ne_true, Nat.add_zero] at hend
    exact ⟨rfl, hend, fun t ht => ⟨Nat.zero_le _, hend ▸ (hentries t ht).2⟩⟩

/-- The document of a text of one byte without a line feed has two bytes. -/
theorem open_line_exceeds_text :
    endsOpen "a" = true ∧ "a".utf8ByteSize = 1 ∧
      (parseConfig "a" "a.conf").root.label.endByte = 2 ∧
      ¬ SpansText "a" (parseConfig "a" "a.conf").root := by
  have hend : (parseConfig "a" "a.conf").root.label.endByte = 2 := by decide +kernel
  refine ⟨by decide +kernel, rfl, hend, fun hspans => ?_⟩
  rw [hspans.endByte] at hend
  exact absurd hend (by decide)

end Config

end CodeHealth
