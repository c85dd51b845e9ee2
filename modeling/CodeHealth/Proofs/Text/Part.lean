import CodeHealth.Text.Blank
import CodeHealth.Text.Substring

/-!
# Parts of a text

A search finds exactly the parts of a text. Trimming loses no part without blanks, and where a part
of a text is replaced, what replaces it is a part of the result.
-/

namespace CodeHealth.Text

variable {part cs old new : List Char}

theorem occursIn_iff : occursIn part cs = true ↔ part <:+: cs := by
  induction cs with
  | nil => rw [occursIn, List.isEmpty_iff, List.infix_nil]
  | cons c cs ih =>
      rw [occursIn, Bool.or_eq_true, List.isPrefixOf_iff_prefix, ih, List.infix_cons_iff]

theorem contains_iff {s part : String} :
    contains s part = true ↔ part.toList <:+: s.toList :=
  occursIn_iff

/-! ## Trimming -/

theorem infix_dropWhile_iff {p : Char → Bool} (hpart : ∀ c ∈ part, p c = false) :
    part <:+: cs.dropWhile p ↔ part <:+: cs := by
  refine ⟨fun h => h.trans (List.dropWhile_suffix p).isInfix, fun h => ?_⟩
  induction cs with
  | nil => exact h
  | cons c cs ih =>
      rw [List.dropWhile_cons]
      split
      · rename_i hc
        apply ih
        rcases List.infix_cons_iff.mp h with hfront | hrest
        · cases part with
          | nil => exact List.nil_infix
          | cons d part =>
              have hd : p d = false := hpart d List.mem_cons_self
              obtain rfl : d = c := (List.cons_prefix_cons.mp hfront).1
              rw [hd] at hc
              exact absurd hc Bool.false_ne_true
        · exact hrest
      · exact h

theorem infix_dropEndWhile_iff {p : Char → Bool} (hpart : ∀ c ∈ part, p c = false) :
    part <:+: dropEndWhile p cs ↔ part <:+: cs := by
  have hreverse : ∀ c ∈ part.reverse, p c = false := fun c hc => hpart c (List.mem_reverse.mp hc)
  unfold dropEndWhile
  rw [← List.reverse_infix, List.reverse_reverse, infix_dropWhile_iff hreverse,
    List.reverse_infix]

theorem infix_trim_iff (hpart : ∀ c ∈ part, isBlank c = false) :
    part <:+: trim cs ↔ part <:+: cs := by
  unfold trim trimEnd
  rw [infix_dropEndWhile_iff hpart, infix_dropWhile_iff hpart]

theorem isInfix_trim (cs : List Char) : trim cs <:+: cs := by
  have hend : ∀ ds : List Char, trimEnd ds <:+: ds := by
    intro ds
    unfold trimEnd dropEndWhile
    rw [← List.reverse_infix, List.reverse_reverse]
    exact (List.dropWhile_suffix isBlank).isInfix
  exact (hend _).trans (List.dropWhile_suffix isBlank).isInfix

/-! ## Replacement -/

/-- Where an occurrence begins, the rest of the text follows its end. -/
theorem eq_append_drop_of_prefix {c : Char} (hold : old ≠ []) (h : old <+: c :: cs) :
    c :: cs = old ++ cs.drop (old.length - 1) := by
  obtain ⟨rest, hrest⟩ := h
  obtain ⟨d, ds, rfl⟩ := List.exists_cons_of_ne_nil hold
  obtain ⟨rfl, rfl⟩ := List.cons.inj hrest
  simp

theorem replaceFrom_self (hold : old ≠ []) (skip : Nat) (cs : List Char) :
    replaceFrom old old skip cs = cs.drop skip := by
  induction cs generalizing skip with
  | nil => cases skip <;> rfl
  | cons c cs ih =>
      cases skip with
      | succ skip =>
          rw [replaceFrom, ih]
          rfl
      | zero =>
          rw [replaceFrom]
          split
          · rename_i hfront
            have hcs := eq_append_drop_of_prefix hold (List.isPrefixOf_iff_prefix.mp hfront)
            rw [ih, ← hcs]
            rfl
          · rw [ih]
            rfl

/-- What replaces a part of a text is a part of the result. -/
theorem infix_replaceFrom (hold : old ≠ []) (h : old <:+: cs) :
    new <:+: replaceFrom old new 0 cs := by
  induction cs with
  | nil => exact absurd (List.infix_nil.mp h) hold
  | cons c cs ih =>
      rw [replaceFrom]
      split
      · exact (List.prefix_append new _).isInfix
      · rename_i hfront
        rcases List.infix_cons_iff.mp h with hhead | hrest
        · exact absurd (List.isPrefixOf_iff_prefix.mpr hhead) hfront
        · exact (ih hrest).trans (List.suffix_cons c _).isInfix

end CodeHealth.Text
