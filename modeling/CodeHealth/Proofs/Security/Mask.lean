import CodeHealth.Proofs.Text.Part
import CodeHealth.Security.Value

/-!
# Masks

A mask turns characters of a value into stars, and masking a value in a line turns characters of the
line into stars. So a part without stars can be read in the masked line exactly where it occurs in
the line with none of its characters hidden.
-/

namespace CodeHealth.Security

variable {marks : List Bool} {cs part value : List Char}

/-! ## Starred texts -/

/-- The text with the marked characters turned into stars. -/
def starred (marks : List Bool) (cs : List Char) : List Char :=
  List.zipWith (fun hidden c => if hidden then '*' else c) marks cs

theorem length_starred (hlength : marks.length = cs.length) :
    (starred marks cs).length = cs.length := by
  unfold starred
  rw [List.length_zipWith, hlength, Nat.min_self]

theorem starred_append {ms ns : List Bool} {as bs : List Char} (hlength : ms.length = as.length) :
    starred (ms ++ ns) (as ++ bs) = starred ms as ++ starred ns bs :=
  List.zipWith_append hlength

theorem starred_true (cs : List Char) :
    starred (List.replicate cs.length true) cs = List.replicate cs.length '*' := by
  induction cs with
  | nil => rfl
  | cons c cs ih => exact congrArg ('*' :: ·) ih

theorem starred_of_notMem (hlength : marks.length = cs.length) (h : true ∉ marks) :
    starred marks cs = cs := by
  induction marks generalizing cs with
  | nil =>
      rw [List.length_eq_zero_iff.mp hlength.symm]
      rfl
  | cons m marks ih =>
      obtain ⟨c, cs, rfl⟩ := List.exists_cons_of_length_eq_add_one hlength.symm
      rw [List.mem_cons, not_or] at h
      obtain rfl : m = false := by simpa using h.1
      have hrest := ih (Nat.succ.inj hlength) h.2
      exact congrArg (c :: ·) hrest

theorem starred_false (cs : List Char) :
    starred (List.replicate cs.length false) cs = cs :=
  starred_of_notMem List.length_replicate (by simp)

theorem notMem_of_star_notMem (hlength : marks.length = cs.length) (h : '*' ∉ starred marks cs) :
    true ∉ marks := by
  induction marks generalizing cs with
  | nil => exact List.not_mem_nil
  | cons m marks ih =>
      obtain ⟨c, cs, rfl⟩ := List.exists_cons_of_length_eq_add_one hlength.symm
      have hcons : starred (m :: marks) (c :: cs) =
          (if m then '*' else c) :: starred marks cs := rfl
      rw [hcons, List.mem_cons, not_or] at h
      rw [List.mem_cons, not_or]
      refine ⟨?_, ih (Nat.succ.inj hlength) h.2⟩
      rintro rfl
      exact h.1 rfl

theorem infix_starred_iff (hlength : marks.length = cs.length) (hpart : '*' ∉ part) :
    part <:+: starred marks cs ↔
      ∃ i, part <+: cs.drop i ∧ true ∉ (marks.drop i).take part.length := by
  -- the characters and the marks where an occurrence can begin
  have hwindow : ∀ i, ((starred marks cs).drop i).take part.length =
      starred ((marks.drop i).take part.length) ((cs.drop i).take part.length) := by
    intro i
    unfold starred
    rw [List.drop_zipWith, List.take_zipWith]
  have hlengths : ∀ i, ((marks.drop i).take part.length).length =
      ((cs.drop i).take part.length).length := by
    intro i
    rw [List.length_take, List.length_take, List.length_drop, List.length_drop, hlength]
  constructor
  · rintro ⟨front, back, h⟩
    have hread : part = ((starred marks cs).drop front.length).take part.length := by
      rw [← h, List.append_assoc, List.drop_left, List.take_left]
    rw [hwindow] at hread
    have hseen : true ∉ (marks.drop front.length).take part.length := by
      apply notMem_of_star_notMem (hlengths front.length)
      rw [← hread]
      exact hpart
    rw [starred_of_notMem (hlengths front.length) hseen] at hread
    exact ⟨front.length, List.prefix_iff_eq_take.mpr hread, hseen⟩
  · rintro ⟨i, hhead, hseen⟩
    have hread : part = ((starred marks cs).drop i).take part.length := by
      rw [hwindow, starred_of_notMem (hlengths i) hseen]
      exact List.prefix_iff_eq_take.mp hhead
    rw [hread]
    exact (List.take_prefix _ _).isInfix.trans (List.drop_suffix _ _).isInfix

/-! ## Masks of a value -/

/-- Which characters of a value its mask hides: all of up to six, and otherwise all but the first
and the last three. -/
def maskMarks (value : List Char) : List Bool :=
  if value.length ≤ 6 then List.replicate value.length true
  else
    List.replicate 3 false ++ List.replicate (value.length - 6) true ++ List.replicate 3 false

theorem length_maskMarks (value : List Char) : (maskMarks value).length = value.length := by
  unfold maskMarks
  split
  · exact List.length_replicate
  · simp only [List.length_append, List.length_replicate]
    omega

theorem toList_maskValue (value : String) :
    (maskValue value).toList = starred (maskMarks value.toList) value.toList := by
  unfold maskValue maskMarks
  dsimp only
  generalize value.toList = cs
  split
  · rw [String.toList_ofList, starred_true]
  · rename_i hlong
    obtain ⟨front, hfront⟩ : ∃ front, front = cs.take 3 := ⟨_, rfl⟩
    obtain ⟨middle, hmiddle⟩ : ∃ middle, middle = (cs.drop 3).take (cs.length - 6) := ⟨_, rfl⟩
    obtain ⟨back, hback⟩ : ∃ back, back = cs.drop (cs.length - 3) := ⟨_, rfl⟩
    have hparts : cs = front ++ middle ++ back := by
      have hdrop : cs.drop (cs.length - 3) = (cs.drop 3).drop (cs.length - 6) := by
        rw [List.drop_drop]
        congr 1
        omega
      rw [hfront, hmiddle, hback, hdrop, List.append_assoc, List.take_append_drop,
        List.take_append_drop]
    have hthree : front.length = 3 ∧ back.length = 3 := by
      rw [hfront, hback, List.length_take, List.length_drop]
      omega
    have hrest : middle.length = cs.length - 6 := by
      rw [hmiddle, List.length_take, List.length_drop]
      omega
    rw [String.toList_ofList, ← hfront, ← hback, ← hrest]
    calc front ++ List.replicate middle.length '*' ++ back
        = starred (List.replicate front.length false) front ++
            starred (List.replicate middle.length true) middle ++
              starred (List.replicate back.length false) back := by
          rw [starred_false, starred_true, starred_false]
      _ = starred (List.replicate front.length false ++ List.replicate middle.length true ++
            List.replicate back.length false) (front ++ middle ++ back) := by
          rw [starred_append (by simp), starred_append (by simp)]
      _ = starred (List.replicate 3 false ++ List.replicate middle.length true ++
            List.replicate 3 false) cs := by
          rw [hthree.1, hthree.2, ← hparts]

/-- Which characters of a text are hidden where the occurrences of a value are masked from left to
right, after the first `skip` characters. -/
def marksFrom (value : List Char) : Nat → List Char → List Bool
  | _, [] => []
  | skip + 1, _ :: cs => marksFrom value skip cs
  | 0, c :: cs =>
    if value.isPrefixOf (c :: cs) then maskMarks value ++ marksFrom value (value.length - 1) cs
    else false :: marksFrom value 0 cs

/-- Masking the occurrences of a value hides the marked characters of the text. -/
theorem replaceFrom_starred (hvalue : value ≠ []) (skip : Nat) (cs : List Char) :
    (marksFrom value skip cs).length = (cs.drop skip).length ∧
      Text.replaceFrom value (starred (maskMarks value) value) skip cs =
        starred (marksFrom value skip cs) (cs.drop skip) := by
  induction cs generalizing skip with
  | nil => cases skip <;> exact ⟨rfl, rfl⟩
  | cons c cs ih =>
      cases skip with
      | succ skip =>
          rw [marksFrom, Text.replaceFrom, List.drop_succ_cons]
          exact ih skip
      | zero =>
          rw [marksFrom, Text.replaceFrom, List.drop_zero]
          split
          · rename_i hfront
            have hcs := Text.eq_append_drop_of_prefix hvalue (List.isPrefixOf_iff_prefix.mp hfront)
            obtain ⟨hlength, hrest⟩ := ih (value.length - 1)
            constructor
            · rw [hcs, List.length_append, List.length_append, length_maskMarks, hlength]
            · rw [hrest, hcs, starred_append (length_maskMarks value)]
          · obtain ⟨hlength, hrest⟩ := ih 0
            exact ⟨congrArg (· + 1) hlength, congrArg (c :: ·) hrest⟩

end CodeHealth.Security
