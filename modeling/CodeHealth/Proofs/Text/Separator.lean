/-!
# Separators

A text that is joined at a separator can be taken apart again where its parts do not hold the
separator.
-/

namespace CodeHealth.Text

variable {c : Char} {xs ys as bs : List Char}

/-- Two texts with equal parts before their first separators agree on both sides. -/
theorem eq_of_append_cons_eq (hx : c ∉ xs) (hy : c ∉ ys) (h : xs ++ c :: as = ys ++ c :: bs) :
    xs = ys ∧ as = bs := by
  induction xs generalizing ys with
  | nil =>
      cases ys with
      | nil => exact ⟨rfl, (List.cons.inj h).2⟩
      | cons y ys =>
          have hhead := (List.cons.inj h).1
          exact absurd (hhead ▸ List.mem_cons_self) hy
  | cons x xs ih =>
      cases ys with
      | nil =>
          have hhead := (List.cons.inj h).1
          exact absurd (hhead ▸ List.mem_cons_self) hx
      | cons y ys =>
          obtain ⟨hhead, htail⟩ := List.cons.inj h
          obtain ⟨hxs, has⟩ := ih (fun hc => hx (List.mem_cons_of_mem x hc))
            (fun hc => hy (List.mem_cons_of_mem y hc)) htail
          exact ⟨by rw [hhead, hxs], has⟩

/-- Two texts are the same on both sides of their last separators if they are equal. -/
theorem eq_of_append_cons_eq_right (ha : c ∉ as) (hb : c ∉ bs)
    (h : xs ++ c :: as = ys ++ c :: bs) : xs = ys ∧ as = bs := by
  have hreverse : as.reverse ++ c :: xs.reverse = bs.reverse ++ c :: ys.reverse := by
    have hlists := congrArg List.reverse h
    simpa using hlists
  obtain ⟨has, hxs⟩ := eq_of_append_cons_eq (by simpa using ha) (by simpa using hb) hreverse
  exact ⟨List.reverse_inj.mp hxs, List.reverse_inj.mp has⟩

theorem not_mem_toList_repr (hc : c.isDigit = false) (n : Nat) : c ∉ (toString n).toList := by
  intro hmem
  rw [Nat.toString_eq_repr, Nat.toList_repr] at hmem
  have hdigit := Nat.isDigit_of_mem_toDigits (by decide) (by decide) hmem
  rw [hc] at hdigit
  exact absurd hdigit (by decide)

theorem toString_nat_inj {m n : Nat} (h : (toString m).toList = (toString n).toList) : m = n := by
  rw [Nat.toString_eq_repr, Nat.toString_eq_repr, Nat.toList_repr, Nat.toList_repr] at h
  rw [← Nat.ofDigitChars_ten_toDigits (n := m), h, Nat.ofDigitChars_ten_toDigits]

/-- A joined text is cut at its own separators and at those of its parts. -/
theorem splitOn_intercalate {ps : List (List Char)} (hp : ps ≠ []) :
    ([c].intercalate ps).splitOn c = ps.flatMap (List.splitOn c) := by
  induction ps with
  | nil => exact absurd rfl hp
  | cons p rest ih =>
      cases rest with
      | nil => simp
      | cons q rest =>
          have hjoin : [c].intercalate (p :: q :: rest) = p ++ c :: [c].intercalate (q :: rest) := by
            simp [List.intercalate]
          rw [hjoin, List.splitOn_append_cons_self, ih (List.cons_ne_nil _ _)]
          exact List.flatMap_cons.symm

theorem intercalate_eq_iff {ps qs : List (List Char)} (hp : ps ≠ []) (hq : qs ≠ []) :
    [c].intercalate ps = [c].intercalate qs ↔
      ps.flatMap (List.splitOn c) = qs.flatMap (List.splitOn c) := by
  rw [← splitOn_intercalate hp, ← splitOn_intercalate hq]
  constructor
  · exact congrArg (List.splitOn c)
  · intro h
    calc [c].intercalate ps = [c].intercalate (([c].intercalate ps).splitOn c) :=
          (List.intercalate_splitOn c).symm
      _ = [c].intercalate (([c].intercalate qs).splitOn c) := by rw [h]
      _ = [c].intercalate qs := List.intercalate_splitOn c

theorem eq_of_intercalate_eq {ps qs : List (List Char)} (hps : ∀ p ∈ ps, c ∉ p)
    (hqs : ∀ q ∈ qs, c ∉ q) (hp : ps ≠ []) (hq : qs ≠ [])
    (h : [c].intercalate ps = [c].intercalate qs) : ps = qs := by
  rw [← List.splitOn_intercalate c hps hp, h, List.splitOn_intercalate c hqs hq]

end CodeHealth.Text
