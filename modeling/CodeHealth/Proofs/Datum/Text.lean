import CodeHealth.Proofs.Datum.Number
import CodeHealth.Proofs.Datum.Proper
import CodeHealth.Proofs.Datum.Quote

/-!
# Texts of values

The compact text of a value is read back as the value, as long as its decimals are finite 53-bit
numbers and its objects have no name twice.
-/

namespace CodeHealth.Datum

open Number

/-! ## First characters -/

/-- A character that a value starts with. -/
def leads (c : Char) : Bool :=
  ['"', '[', '\x7b', 't', 'f', 'n'].contains c || leadsNumber c

theorem skipSpace_of_leads {c : Char} (h : leads c) (cs : List Char) :
    skipSpace (c :: cs) = c :: cs := by
  have hblank : ¬ (c == ' ' || c == '\n' || c == '\t' || c == '\r') = true := by
    simp only [Bool.or_eq_true, beq_iff_eq]
    rintro (((rfl | rfl) | rfl) | rfl) <;> exact absurd h (by decide)
  exact List.dropWhile_cons_of_neg hblank

theorem leads_of_leadsNumber {c : Char} (h : leadsNumber c) : leads c := by
  rw [leads, h, Bool.or_true]

/-- What starts like a number is read as a number. -/
theorem readValue_of_leadsNumber {c : Char} (h : leadsNumber c) (fuel : Nat) (cs : List Char) :
    readValue (fuel + 1) (c :: cs) = readNumber (c :: cs) := by
  have hother {c' : Char} {cs' : List Char} (heq : c :: cs = c' :: cs') : leadsNumber c' = true :=
    (List.cons.inj heq).1 ▸ h
  rw [readValue, skipSpace_of_leads (leads_of_leadsNumber h)]
  split
  case h_7 => rfl
  all_goals exact absurd (hother ‹_›) (by decide)

/-! ## Reading back -/

/-- The text of a value starts like a value, and it is read back wherever a value ends. -/
structure ReadsBack (d : Datum) : Prop where
  leads : ∃ c cs, (print d).toList = c :: cs ∧ Datum.leads c
  reads : ∀ fuel rest, (print d).toList.length ≤ fuel → Stops rest →
    readValue fuel ((print d).toList ++ rest) = some (d, rest)

/-- A text that starts with a character takes one step to read. -/
theorem exists_fuel {fuel : Nat} (c : Char) (cs : List Char) (h : (c :: cs).length ≤ fuel) :
    ∃ fuel', fuel = fuel' + 1 ∧ cs.length ≤ fuel' := by
  rw [List.length_cons] at h
  exact ⟨fuel - 1, by omega, by omega⟩

theorem readsBack_null : ReadsBack .null where
  leads := ⟨'n', ['u', 'l', 'l'], rfl, by decide⟩
  reads fuel rest hfuel _ := by
    obtain ⟨fuel, rfl, -⟩ := exists_fuel 'n' ['u', 'l', 'l'] hfuel
    rfl

theorem readsBack_bool (b : Bool) : ReadsBack (.bool b) := by
  cases b with
  | false =>
      refine ⟨⟨'f', ['a', 'l', 's', 'e'], rfl, by decide⟩, fun fuel rest hfuel _ => ?_⟩
      obtain ⟨fuel, rfl, -⟩ := exists_fuel 'f' ['a', 'l', 's', 'e'] hfuel
      rfl
  | true =>
      refine ⟨⟨'t', ['r', 'u', 'e'], rfl, by decide⟩, fun fuel rest hfuel _ => ?_⟩
      obtain ⟨fuel, rfl, -⟩ := exists_fuel 't' ['r', 'u', 'e'] hfuel
      rfl

/-- A value whose text starts like a number is read back if the number is. -/
theorem readsBack_of_readNumber {d : Datum} {c : Char} {cs : List Char}
    (hchars : (print d).toList = c :: cs) (hc : leadsNumber c)
    (h : ∀ rest, Stops rest → readNumber ((print d).toList ++ rest) = some (d, rest)) :
    ReadsBack d where
  leads := ⟨c, cs, hchars, leads_of_leadsNumber hc⟩
  reads fuel rest hfuel hrest := by
    have hread := h rest hrest
    rw [hchars] at hfuel hread ⊢
    obtain ⟨fuel, rfl, -⟩ := exists_fuel _ _ hfuel
    rw [List.cons_append] at hread ⊢
    rw [readValue_of_leadsNumber hc, hread]

theorem readsBack_str (s : String) : ReadsBack (.str s) := by
  have hprint : (print (.str s)).toList = '"' :: (s.toList.flatMap escapeChar ++ ['"']) :=
    String.toList_ofList
  refine ⟨⟨_, _, hprint, by decide⟩, fun fuel rest hfuel _ => ?_⟩
  obtain ⟨body, hbody, hread⟩ := readChars_quote s rest
  rw [hprint] at hfuel
  obtain ⟨fuel, rfl, -⟩ := exists_fuel _ _ hfuel
  rw [show print (.str s) = quote s from rfl, hbody, readValue, skipSpace_of_leads (by decide)]
  simp only [hread, Option.map_some]

/-! ## Lists -/

/-- The texts of some parts with commas between them. -/
def joined (parts : List String) : List Char :=
  (",".intercalate parts).toList

theorem joined_singleton (s : String) : joined [s] = s.toList := by
  simp [joined]

theorem joined_cons_cons (s s' : String) (parts : List String) :
    joined (s :: s' :: parts) = s.toList ++ ',' :: joined (s' :: parts) := by
  simp [joined, String.toList_intercalate]

theorem exists_joined_cons (s : String) (parts : List String) :
    ∃ tail, joined (s :: parts) = s.toList ++ tail := by
  cases parts with
  | nil => exact ⟨[], by rw [joined_singleton, List.append_nil]⟩
  | cons s' parts => exact ⟨_, joined_cons_cons s s' parts⟩

theorem skipSpace_comma (cs : List Char) : skipSpace (',' :: cs) = ',' :: cs := rfl

theorem skipSpace_colon (cs : List Char) : skipSpace (':' :: cs) = ':' :: cs := rfl

theorem skipSpace_bracket (cs : List Char) : skipSpace (']' :: cs) = ']' :: cs := rfl

theorem skipSpace_brace (cs : List Char) : skipSpace ('\x7d' :: cs) = '\x7d' :: cs := rfl

/-- The items of a list are read back up to the closing bracket. -/
theorem readItems_joined {d : Datum} {items : List Datum} (h : ∀ e ∈ d :: items, ReadsBack e)
    {fuel : Nat} {rest : List Char} (hfuel : (joined ((d :: items).map print)).length < fuel) :
    readItems fuel (joined ((d :: items).map print) ++ ']' :: rest) = some (d :: items, rest) := by
  induction items generalizing d fuel with
  | nil =>
      obtain ⟨fuel, rfl⟩ := Nat.exists_eq_add_one_of_ne_zero (Nat.ne_zero_of_lt hfuel)
      rw [List.map_singleton, joined_singleton] at hfuel ⊢
      have hd := (h d List.mem_cons_self).reads fuel (']' :: rest) (by omega) (stops_cons (by simp))
      rw [readItems, hd]
      simp only [skipSpace_bracket]
  | cons e items ih =>
      obtain ⟨fuel, rfl⟩ := Nat.exists_eq_add_one_of_ne_zero (Nat.ne_zero_of_lt hfuel)
      rw [List.map_cons, List.map_cons, joined_cons_cons] at hfuel ⊢
      rw [← List.map_cons, List.length_append, List.length_cons] at hfuel
      rw [← List.map_cons, List.append_assoc, List.cons_append]
      have hd := (h d List.mem_cons_self).reads fuel
        (',' :: (joined ((e :: items).map print) ++ ']' :: rest)) (by omega) (stops_cons (by simp))
      have hitems : readItems fuel (joined ((e :: items).map print) ++ ']' :: rest) =
          some (e :: items, rest) :=
        ih (fun x hx => h x (List.mem_cons_of_mem d hx)) (by omega)
      rw [readItems, hd]
      simp only [skipSpace_comma, hitems, Option.map_some]

theorem printItems_eq (items : List Datum) : printItems items = items.map print := by
  induction items with
  | nil => rfl
  | cons d items ih => rw [printItems, ih, List.map_cons]

theorem readsBack_list {items : List Datum} (h : ∀ d ∈ items, ReadsBack d) :
    ReadsBack (.list items) := by
  have hprint : (print (.list items)).toList = '[' :: (joined (items.map print) ++ [']']) := by
    simp [print, printItems_eq, joined]
  refine ⟨⟨_, _, hprint, by decide⟩, fun fuel rest hfuel _ => ?_⟩
  rw [hprint] at hfuel ⊢
  obtain ⟨fuel, rfl, hlength⟩ := exists_fuel _ _ hfuel
  rw [List.length_append, List.length_singleton] at hlength
  rw [List.cons_append, List.append_assoc, List.singleton_append, readValue,
    skipSpace_of_leads (by decide)]
  cases items with
  | nil => rfl
  | cons d items =>
      -- the first item does not start with the closing bracket
      obtain ⟨c, cs, hd, hc⟩ := (h d List.mem_cons_self).leads
      have hne : c ≠ ']' := by
        rintro rfl
        exact absurd hc (by decide)
      obtain ⟨tail, htail⟩ := exists_joined_cons (print d) (items.map print)
      have hitems : readItems fuel (joined ((d :: items).map print) ++ ']' :: rest) =
          some (d :: items, rest) := readItems_joined h (by omega)
      rw [List.map_cons, htail, hd, List.append_assoc, List.cons_append] at hitems ⊢
      simp only [skipSpace_of_leads hc, hitems, Option.map_some]
      split
      · rename_i heq
        exact absurd (List.cons.inj heq).1 hne
      · rfl

/-! ## Objects -/

/-- The text of a member. -/
def printMember (m : String × Datum) : String :=
  quote m.1 ++ ":" ++ print m.2

theorem setMember_of_not_mem {members : List (String × Datum)} {name : String}
    (h : name ∉ members.map Prod.fst) (d : Datum) :
    setMember members name d = members ++ [(name, d)] := by
  unfold setMember
  rw [if_neg]
  simpa [List.any_eq_true] using h

theorem not_mem_of_nodup {m : String × Datum} {members before : List (String × Datum)}
    (h : ((before ++ m :: members).map Prod.fst).Nodup) : m.1 ∉ before.map Prod.fst := by
  rw [List.map_append, List.map_cons] at h
  intro hmem
  exact (List.nodup_append.mp h).2.2 _ hmem _ List.mem_cons_self rfl

/-- The name of a member is read, and what is left is a colon and the value. -/
theorem exists_printMember_cons (m : String × Datum) (rest : List Char) :
    ∃ body, (printMember m).toList ++ rest = '"' :: body ∧
      readChars (body.length + 1) [] body = some (m.1, ':' :: ((print m.2).toList ++ rest)) := by
  obtain ⟨body, hbody, hread⟩ := readChars_quote m.1 (':' :: ((print m.2).toList ++ rest))
  refine ⟨body, ?_, hread⟩
  rw [← hbody]
  simp [printMember]

theorem length_print_le (m : String × Datum) :
    (print m.2).toList.length ≤ (printMember m).toList.length := by
  simp only [printMember, String.toList_append, List.length_append]
  omega

section Member

variable {m : String × Datum} {before : List (String × Datum)} {fuel : Nat} (h : ReadsBack m.2)
  (hname : m.1 ∉ before.map Prod.fst) (hfuel : (printMember m).toList.length ≤ fuel)
include h hname hfuel

/-- A member before a comma is read and put behind the members before it. -/
theorem readMembers_comma (rest : List Char) :
    readMembers (fuel + 1) before ((printMember m).toList ++ ',' :: rest) =
      readMembers fuel (before ++ [m]) rest := by
  obtain ⟨body, hbody, hread⟩ := exists_printMember_cons m (',' :: rest)
  have hd := h.reads fuel (',' :: rest) ((length_print_le m).trans hfuel) (stops_cons (by simp))
  rw [hbody, readMembers, skipSpace_of_leads (by decide)]
  simp only [hread, skipSpace_colon, hd, setMember_of_not_mem hname, skipSpace_comma]

/-- A member before a brace is the last one. -/
theorem readMembers_brace (rest : List Char) :
    readMembers (fuel + 1) before ((printMember m).toList ++ '\x7d' :: rest) =
      some (before ++ [m], rest) := by
  obtain ⟨body, hbody, hread⟩ := exists_printMember_cons m ('\x7d' :: rest)
  have hd := h.reads fuel ('\x7d' :: rest) ((length_print_le m).trans hfuel)
    (stops_cons (by simp))
  rw [hbody, readMembers, skipSpace_of_leads (by decide)]
  simp only [hread, skipSpace_colon, hd, setMember_of_not_mem hname, skipSpace_brace]

end Member

/-- The members of an object are read back up to the closing brace, behind those before them. -/
theorem readMembers_joined {m : String × Datum} {members before : List (String × Datum)}
    (h : ∀ e ∈ m :: members, ReadsBack e.2)
    (hnames : ((before ++ m :: members).map Prod.fst).Nodup) {fuel : Nat} {rest : List Char}
    (hfuel : (joined ((m :: members).map printMember)).length < fuel) :
    readMembers fuel before (joined ((m :: members).map printMember) ++ '\x7d' :: rest) =
      some (before ++ m :: members, rest) := by
  induction members generalizing m before fuel with
  | nil =>
      obtain ⟨fuel, rfl⟩ := Nat.exists_eq_add_one_of_ne_zero (Nat.ne_zero_of_lt hfuel)
      rw [List.map_singleton, joined_singleton] at hfuel ⊢
      exact readMembers_brace (h m List.mem_cons_self) (not_mem_of_nodup hnames) (by omega) rest
  | cons e members ih =>
      obtain ⟨fuel, rfl⟩ := Nat.exists_eq_add_one_of_ne_zero (Nat.ne_zero_of_lt hfuel)
      rw [List.map_cons, List.map_cons, joined_cons_cons] at hfuel ⊢
      rw [← List.map_cons, List.length_append, List.length_cons] at hfuel
      rw [← List.map_cons, List.append_assoc, List.cons_append,
        readMembers_comma (h m List.mem_cons_self) (not_mem_of_nodup hnames) (by omega)]
      have hsplit : before ++ m :: e :: members = (before ++ [m]) ++ e :: members := by simp
      rw [hsplit] at hnames ⊢
      exact ih (fun x hx => h x (List.mem_cons_of_mem m hx)) hnames (by omega)

theorem printMembers_eq (members : List (String × Datum)) :
    printMembers members = members.map printMember := by
  induction members with
  | nil => rfl
  | cons m members ih =>
      rw [printMembers, ih, List.map_cons]
      rfl

theorem readsBack_object {members : List (String × Datum)}
    (hnames : (members.map Prod.fst).Nodup) (h : ∀ m ∈ members, ReadsBack m.2) :
    ReadsBack (.object members) := by
  have hprint : (print (.object members)).toList =
      '\x7b' :: (joined (members.map printMember) ++ ['\x7d']) := by
    simp [print, printMembers_eq, joined]
  refine ⟨⟨_, _, hprint, by decide⟩, fun fuel rest hfuel _ => ?_⟩
  rw [hprint] at hfuel ⊢
  obtain ⟨fuel, rfl, hlength⟩ := exists_fuel _ _ hfuel
  rw [List.length_append, List.length_singleton] at hlength
  rw [List.cons_append, List.append_assoc, List.singleton_append, readValue,
    skipSpace_of_leads (by decide)]
  cases members with
  | nil => rfl
  | cons m members =>
      obtain ⟨tail, htail⟩ := exists_joined_cons (printMember m) (members.map printMember)
      obtain ⟨body, hbody, -⟩ := exists_printMember_cons m []
      rw [List.append_nil] at hbody
      have hmembers : readMembers fuel []
          (joined ((m :: members).map printMember) ++ '\x7d' :: rest) =
            some ([] ++ m :: members, rest) := readMembers_joined h hnames (by omega)
      rw [List.map_cons, htail, hbody, List.append_assoc, List.cons_append] at hmembers ⊢
      simp only [skipSpace_of_leads (show leads '"' by decide), hmembers, Option.map_some,
        List.nil_append]
      split
      · rename_i heq
        exact absurd (List.cons.inj heq).1 (by decide)
      · rfl

/-! ## All values -/

theorem readsBack_int (n : Int) : ReadsBack (.int n) := by
  obtain ⟨c, cs, hchars, hc⟩ := exists_toString_cons n
  exact readsBack_of_readNumber hchars hc fun _ hrest => readNumber_toString n hrest

theorem readsBack_float {q : Rat} (hq : IsFloat q) : ReadsBack (.float q) := by
  obtain ⟨c, cs, hchars, hc⟩ := exists_text_cons hq
  exact readsBack_of_readNumber hchars hc fun _ hrest => readNumber_text hq hrest

theorem Proper.readsBack {d : Datum} (h : d.Proper) : ReadsBack d := by
  induction h with
  | null => exact readsBack_null
  | bool b => exact readsBack_bool b
  | int n => exact readsBack_int n
  | float hq => exact readsBack_float hq
  | str s => exact readsBack_str s
  | list _ ih => exact readsBack_list ih
  | object hnames _ ih => exact readsBack_object hnames ih

/-- The compact text of a value is read back as the value. -/
theorem Proper.read?_print {d : Datum} (h : d.Proper) : read? d.print = some d := by
  have hread := h.readsBack.reads (d.print.toList.length + 1) [] (Nat.le_succ _) stops_nil
  rw [List.append_nil] at hread
  unfold read?
  dsimp only
  rw [hread]
  rfl

end CodeHealth.Datum
