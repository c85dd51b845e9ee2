import CodeHealth.Proofs.Pattern.Capture
import CodeHealth.Proofs.Pattern.Matches

/-!
# Leading runs

A pattern can be searched together with a run of characters in front of it. Where a match begins
with a word that ends the run, the run in front changes none of the matches.
-/

namespace CodeHealth.Pattern

variable {accepts : Char → Bool} {first second pattern word : Pattern} {p p' q r : Place}

/-! ## Moves without captures -/

/-- The second place is reached from the first over some characters, and nothing is captured. -/
def Place.Passes (p : Place) (passed : List Char) (q : Place) : Prop :=
  p.rest = passed ++ q.rest ∧ q.before = passed.getLast?.or p.before ∧ q.captures = p.captures

theorem Place.Passes.refl (p : Place) : p.Passes [] p :=
  ⟨rfl, rfl, rfl⟩

theorem Place.Passes.trans {front back : List Char} (hpq : p.Passes front q)
    (hqr : q.Passes back r) : p.Passes (front ++ back) r := by
  obtain ⟨hrest, hbefore, hcaptures⟩ := hpq
  obtain ⟨hrest', hbefore', hcaptures'⟩ := hqr
  refine ⟨by rw [hrest, hrest', List.append_assoc], ?_, hcaptures'.trans hcaptures⟩
  rw [hbefore', hbefore, List.getLast?_append, Option.or_assoc]

/-- A pattern that captures nothing and reads no capture. -/
def IsPlain : Pattern → Prop
  | .seq first second => first.IsPlain ∧ second.IsPlain
  | .alt first second => first.IsPlain ∧ second.IsPlain
  | .iterate _ _ body => body.IsPlain
  | .capture _ _ | .again _ => False
  | .empty | .char _ | .notAhead _ | .wordEdge | .atStart | .atEnd => True

theorem exists_passes_of_mem_ends (h : pattern.IsPlain) (hq : q ∈ pattern.ends p) :
    ∃ passed, p.Passes passed q := by
  induction pattern generalizing p q with
  | empty =>
      rw [List.mem_singleton.mp hq]
      exact ⟨[], .refl p⟩
  | char accepts =>
      unfold ends Place.next at hq
      split at hq
      · exact absurd hq List.not_mem_nil
      · rename_i c cs hrest
        split at hq
        · rw [List.mem_singleton.mp hq]
          exact ⟨[c], hrest, rfl, rfl⟩
        · exact absurd hq List.not_mem_nil
  | seq first second ihfirst ihsecond =>
      obtain ⟨r, hr, hq⟩ := List.mem_flatMap.mp hq
      obtain ⟨front, hfront⟩ := ihfirst h.1 hr
      obtain ⟨back, hback⟩ := ihsecond h.2 hq
      exact ⟨front ++ back, hfront.trans hback⟩
  | alt first second ihfirst ihsecond =>
      rcases List.mem_append.mp hq with hq | hq
      · exact ihfirst h.1 hq
      · exact ihsecond h.2 hq
  | iterate least most body ih =>
      refine rel_of_mem_ends_iterate (R := fun p q => ∃ passed, p.Passes passed q)
        (fun p => ⟨[], .refl p⟩) ?_ (fun _ _ => ih h) hq
      rintro p q r ⟨front, hfront⟩ ⟨back, hback⟩
      exact ⟨front ++ back, hfront.trans hback⟩
  | capture | again => exact h.elim
  | notAhead | wordEdge | atStart | atEnd =>
      rw [eq_of_mem_ite hq]
      exact ⟨[], .refl p⟩

theorem isPlain_litAnyCase (s : String) : (litAnyCase s).IsPlain := by
  unfold litAnyCase
  induction s.toList with
  | nil => trivial
  | cons c cs ih => exact ⟨trivial, ih⟩

/-! ## Progress -/

/-- It shows in the pattern that each of its matches consumes a character. -/
def Advances : Pattern → Prop
  | .char _ => True
  | .seq first second => first.Advances ∨ second.Advances
  | .alt first second => first.Advances ∧ second.Advances
  | .capture _ body => body.Advances
  | .empty | .iterate _ _ _ | .again _ | .notAhead _ | .wordEdge | .atStart | .atEnd => False

theorem rest_length_le_of_mem_ends (hq : q ∈ pattern.ends p) : q.rest.length ≤ p.rest.length :=
  (reaches_of_mem_ends pattern.consumes_true hq).rest_suffix.length_le

theorem rest_length_lt_of_mem_ends (h : pattern.Advances) (hq : q ∈ pattern.ends p) :
    q.rest.length < p.rest.length := by
  induction pattern generalizing p q with
  | char accepts =>
      unfold ends Place.next at hq
      split at hq
      · exact absurd hq List.not_mem_nil
      · rename_i c cs hrest
        split at hq
        · rw [List.mem_singleton.mp hq, hrest, List.length_cons]
          exact Nat.lt_succ_self _
        · exact absurd hq List.not_mem_nil
  | seq first second ihfirst ihsecond =>
      obtain ⟨r, hr, hq⟩ := List.mem_flatMap.mp hq
      rcases h with h | h
      · exact Nat.lt_of_le_of_lt (rest_length_le_of_mem_ends hq) (ihfirst h hr)
      · exact Nat.lt_of_lt_of_le (ihsecond h hq) (rest_length_le_of_mem_ends hr)
  | alt first second ihfirst ihsecond =>
      rcases List.mem_append.mp hq with hq | hq
      · exact ihfirst h.1 hq
      · exact ihsecond h.2 hq
  | capture name body ih =>
      obtain ⟨r, hr, rfl⟩ := List.mem_map.mp hq
      exact @ih p r h hr
  | empty | iterate | again | notAhead | wordEdge | atStart | atEnd => exact h.elim

theorem advances_litAnyCase {s : String} (h : s.toList ≠ []) : (litAnyCase s).Advances := by
  unfold litAnyCase
  cases hs : s.toList with
  | nil => exact absurd hs h
  | cons c cs => exact Or.inl trivial

/-! ## The first character of a match -/

/-- A match of the pattern starts with a character that satisfies `A`. -/
def BeginsWith (A : Char → Prop) (pattern : Pattern) : Prop :=
  ∀ p, pattern.ends p ≠ [] → ∃ c cs, p.rest = c :: cs ∧ A c

variable {A B : Char → Prop}

theorem BeginsWith.imp (h : pattern.BeginsWith A) (hAB : ∀ c, A c → B c) :
    pattern.BeginsWith B := by
  intro p hne
  obtain ⟨c, cs, hrest, hc⟩ := h p hne
  exact ⟨c, cs, hrest, hAB c hc⟩

theorem beginsWith_char (accepts : Char → Bool) :
    (char accepts).BeginsWith fun c => accepts c = true := by
  intro p hne
  obtain ⟨q, hq⟩ := List.exists_mem_of_ne_nil _ hne
  unfold ends Place.next at hq
  split at hq
  · exact absurd hq List.not_mem_nil
  · rename_i c cs hrest
    split at hq
    · rename_i hc
      exact ⟨c, cs, hrest, hc⟩
    · exact absurd hq List.not_mem_nil

theorem BeginsWith.append (h : first.BeginsWith A) (second : Pattern) :
    (first ++ second).BeginsWith A := by
  intro p hne
  apply h p
  intro hnone
  apply hne
  show (first.ends p).flatMap second.ends = []
  rw [hnone]
  rfl

/-- What may be left out leaves the next part to begin. -/
theorem BeginsWith.iterate_append {least : Nat} {most : Option Nat} {body : Pattern}
    (hbody : body.BeginsWith A) (h : second.BeginsWith A) :
    (iterate least most body ++ second).BeginsWith A := by
  intro p hne
  obtain ⟨q, hq⟩ := List.exists_mem_of_ne_nil _ hne
  obtain ⟨r, hr, hsecond⟩ := List.mem_flatMap.mp hq
  -- the repetition stays where it is or consumes a first character
  have hmove : r = p ∨ ∃ c cs, p.rest = c :: cs ∧ A c := by
    refine rel_of_mem_ends_iterate (R := fun p r => r = p ∨ ∃ c cs, p.rest = c :: cs ∧ A c)
      (fun _ => Or.inl rfl) ?_ (fun p r hr => Or.inr (hbody p (List.ne_nil_of_mem hr))) hr
    rintro p q r (rfl | hp) hqr
    · exact hqr
    · exact Or.inr hp
  rcases hmove with rfl | hp
  · exact h r (List.ne_nil_of_mem hsecond)
  · exact hp

/-! ## Runs of characters -/

theorem mostFirst_eq_append {γ : Type} (step : Place → List Place) (left : List γ) (p : Place)
    (others : List Place) : mostFirst step left p others = mostFirst step left p [] ++ others := by
  induction left generalizing p others with
  | nil => rfl
  | cons _ left ih =>
      have hfold : ∀ nexts : List Place,
          nexts.foldr (fun q acc => mostFirst step left q acc) (p :: others) =
            nexts.foldr (fun q acc => mostFirst step left q acc) [p] ++ others := by
        intro nexts
        induction nexts with
        | nil => rfl
        | cons q nexts ihnexts =>
            rw [List.foldr_cons, List.foldr_cons, ihnexts, ih q, ih q (List.foldr _ _ _),
              List.append_assoc]
      exact hfold (step p)

/-- The pattern behind a run of accepted characters, as long a run as leads to a match. -/
def lead (accepts : Char → Bool) (pattern : Pattern) : Pattern :=
  star (char accepts) ++ pattern

theorem ends_lead (accepts : Char → Bool) (pattern : Pattern) (p : Place) :
    (lead accepts pattern).ends p =
      (mostFirst (fun q => q.next accepts) p.rest p []).flatMap pattern.ends := by
  show ((exactly _ 0 p).flatMap fun q => mostFirst _ q.rest q []).flatMap pattern.ends = _
  rw [exactly, List.flatMap_singleton]
  rfl

/-- Longer runs come first, the empty one last. -/
theorem ends_lead_cons {before : Option Char} {c : Char} {cs : List Char}
    {captures : List Capture} (hc : accepts c = true) :
    (lead accepts pattern).ends ⟨before, c :: cs, captures⟩ =
      (lead accepts pattern).ends ⟨some c, cs, captures⟩ ++
        pattern.ends ⟨before, c :: cs, captures⟩ := by
  have hnext : Place.next ⟨before, c :: cs, captures⟩ accepts = [⟨some c, cs, captures⟩] := by
    rw [Place.next]
    exact if_pos hc
  rw [ends_lead, ends_lead, mostFirst, hnext, List.foldr_cons, List.foldr_nil,
    mostFirst_eq_append, List.flatMap_append, List.flatMap_singleton]

theorem ends_lead_of_stop (hstop : p.rest.head?.any accepts = false) :
    (lead accepts pattern).ends p = pattern.ends p := by
  rw [ends_lead]
  cases hrest : p.rest with
  | nil => rw [mostFirst, List.flatMap_singleton]
  | cons c cs =>
      rw [hrest, List.head?_cons, Option.any_some] at hstop
      have hnext : p.next accepts = [] := by
        rw [Place.next, hrest]
        exact if_neg (hstop ▸ Bool.false_ne_true)
      rw [mostFirst, hnext, List.foldr_nil, List.flatMap_singleton]

theorem ends_lead_cons_of_stop {before : Option Char} {c : Char} {cs : List Char}
    {captures : List Capture} (hc : accepts c = false) :
    (lead accepts pattern).ends ⟨before, c :: cs, captures⟩ =
      pattern.ends ⟨before, c :: cs, captures⟩ :=
  ends_lead_of_stop (p := ⟨before, c :: cs, captures⟩) hc

/-! ## Matches behind a run -/

/-- Where the first match of the pattern ends does not depend on where in a run of accepted
characters it starts. -/
structure EndsAlike (accepts : Char → Bool) (pattern : Pattern) : Prop where
  shorter : ∀ p, ∀ q ∈ pattern.ends p, q.rest.length < p.rest.length
  alike : ∀ p q, p.Reaches (fun c => accepts c = true) q → q.captures = p.captures →
    pattern.ends p ≠ [] → pattern.ends q ≠ [] → (pattern.ends p).head? = (pattern.ends q).head?

theorem matchesAt_eq (h : ∀ q ∈ pattern.ends p, q.rest.length < p.rest.length) :
    pattern.matchesAt p = (pattern.ends p).head?.toList := by
  unfold matchesAt
  cases hends : pattern.ends p with
  | nil => rfl
  | cons q others =>
      rw [hends] at h
      exact if_pos (h q List.mem_cons_self)

/-- The first match behind a run starts somewhere in the run. -/
theorem exists_of_head?_lead (h : ((lead accepts pattern).ends p).head? = some r) :
    ∃ q, p.Reaches (fun c => accepts c = true) q ∧ q.captures = p.captures ∧
      (pattern.ends q).head? = some r := by
  obtain ⟨before, cs, captures⟩ := p
  induction cs generalizing before with
  | nil =>
      rw [ends_lead_of_stop rfl] at h
      exact ⟨_, .refl _, rfl, h⟩
  | cons c cs ih =>
      cases hc : accepts c with
      | false =>
          rw [ends_lead_cons_of_stop hc] at h
          exact ⟨_, .refl _, rfl, h⟩
      | true =>
          rw [ends_lead_cons hc, List.head?_append, Option.or_eq_some_iff] at h
          rcases h with h | ⟨-, h⟩
          · obtain ⟨q, hreaches, hcaptures, hq⟩ := ih (some c) h
            have hstep : Place.Reaches (fun c => accepts c = true) ⟨before, c :: cs, captures⟩
                ⟨some c, cs, captures⟩ :=
              ⟨[c], rfl, fun d hd => List.mem_singleton.mp hd ▸ hc⟩
            exact ⟨q, hstep.trans hreaches, hcaptures, hq⟩
          · exact ⟨_, .refl _, rfl, h⟩

/-- A match without the run is the last choice. -/
theorem suffix_ends_lead (accepts : Char → Bool) (pattern : Pattern) (p : Place) :
    pattern.ends p <:+ (lead accepts pattern).ends p := by
  obtain ⟨before, cs, captures⟩ := p
  cases cs with
  | nil => exact ⟨[], (ends_lead_of_stop rfl).symm⟩
  | cons c cs =>
      cases hc : accepts c with
      | false => exact ⟨[], (ends_lead_cons_of_stop hc).symm⟩
      | true =>
          rw [ends_lead_cons hc]
          exact List.suffix_append _ _

theorem EndsAlike.head?_lead (h : EndsAlike accepts pattern) (hne : pattern.ends p ≠ []) :
    ((lead accepts pattern).ends p).head? = (pattern.ends p).head? := by
  have hlead : (lead accepts pattern).ends p ≠ [] := by
    intro hnone
    have hsuffix := suffix_ends_lead accepts pattern p
    rw [hnone] at hsuffix
    exact hne (List.suffix_nil.mp hsuffix)
  obtain ⟨r, hr⟩ := Option.isSome_iff_exists.mp (List.isSome_head?.mpr hlead)
  obtain ⟨q, hreaches, hcaptures, hq⟩ := exists_of_head?_lead hr
  have hqne : pattern.ends q ≠ [] := by
    intro hnone
    rw [hnone] at hq
    exact nomatch hq
  rw [hr, ← hq, h.alike p q hreaches hcaptures hne hqne]

theorem EndsAlike.shorter_lead (h : EndsAlike accepts pattern)
    (hq : q ∈ (lead accepts pattern).ends p) : q.rest.length < p.rest.length := by
  obtain ⟨r, hr, hq⟩ := List.mem_flatMap.mp hq
  exact Nat.lt_of_lt_of_le (h.shorter r q hq) (rest_length_le_of_mem_ends hr)

/-- A search may start one character further on where the same matches start. -/
theorem findFrom_cons_of_ends_eq {before : Option Char} {c : Char} {cs : List Char}
    (hshorter : ∀ p, ∀ q ∈ pattern.ends p, q.rest.length < p.rest.length)
    (hends : pattern.ends ⟨before, c :: cs, []⟩ = pattern.ends ⟨some c, cs, []⟩) :
    pattern.findFrom 0 before (c :: cs) = pattern.findFrom 0 (some c) cs := by
  have hmatches := fun p => matchesAt_eq (hshorter p)
  cases hhead : (pattern.ends ⟨some c, cs, []⟩).head? with
  | none =>
      rw [findFrom, hmatches, hends, hhead]
      rfl
  | some m =>
      have hm := hshorter _ m (List.mem_of_mem_head? hhead)
      cases cs with
      | nil => exact absurd hm (Nat.not_lt_zero _)
      | cons d ds =>
          have hm : m.rest.length ≤ ds.length := Nat.le_of_lt_succ hm
          have hskip : covered ((d :: ds).length + 1) [m] - 1 =
              covered (ds.length + 1) [m] - 1 + 1 := by
            simp only [covered, List.getLast?_singleton, List.length_cons]
            omega
          calc pattern.findFrom 0 before (c :: d :: ds)
              = [m] ++ pattern.findFrom (covered ((d :: ds).length + 1) [m] - 1) (some c)
                  (d :: ds) := by
                rw [findFrom, hmatches, hends, hhead]
                rfl
            _ = [m] ++ pattern.findFrom (covered (ds.length + 1) [m] - 1) (some d) ds := by
                rw [hskip]
                rfl
            _ = pattern.findFrom 0 (some c) (d :: ds) := by
                rw [findFrom, hmatches, hhead]
                rfl

/-- A run in front of a pattern changes no match, as far as the matches of the pattern end alike
wherever they start in the run. -/
theorem EndsAlike.findFrom_lead (h : EndsAlike accepts pattern) (skip : Nat)
    (before : Option Char) (cs : List Char) :
    (lead accepts pattern).findFrom skip before cs = pattern.findFrom skip before cs := by
  have hlead : ∀ p, (lead accepts pattern).matchesAt p =
      ((lead accepts pattern).ends p).head?.toList := fun p =>
    matchesAt_eq fun q hq => h.shorter_lead hq
  have hpattern : ∀ p, pattern.matchesAt p = (pattern.ends p).head?.toList := fun p =>
    matchesAt_eq (h.shorter p)
  induction cs generalizing skip before with
  | nil =>
      cases skip with
      | zero =>
          rw [findFrom, findFrom, hlead, hpattern,
            ends_lead_of_stop rfl]
      | succ skip => rfl
  | cons c cs ih =>
      cases skip with
      | succ skip => exact ih skip (some c)
      | zero =>
          by_cases hne : pattern.ends ⟨before, c :: cs, []⟩ = []
          · have hnone : pattern.findFrom 0 before (c :: cs) = pattern.findFrom 0 (some c) cs := by
              rw [findFrom, hpattern, hne]
              rfl
            rw [hnone, ← ih 0 (some c)]
            cases hc : accepts c with
            | true =>
                apply findFrom_cons_of_ends_eq fun p q hq => h.shorter_lead hq
                rw [ends_lead_cons hc, hne, List.append_nil]
            | false =>
                rw [findFrom, hlead, ends_lead_cons_of_stop hc, hne]
                rfl
          · rw [findFrom, findFrom, hlead, hpattern, h.head?_lead hne]
            exact congrArg _ (ih _ (some c))

/-! ## Words at the end of a run -/

theorem ends_append_assoc (first second third : Pattern) (p : Place) :
    (first ++ second ++ third).ends p = (first ++ (second ++ third)).ends p :=
  List.flatMap_assoc

theorem EndsAlike.congr {other : Pattern} (h : EndsAlike accepts pattern)
    (hends : ∀ p, other.ends p = pattern.ends p) : EndsAlike accepts other := by
  constructor
  · intro p q hq
    exact h.shorter p q (hends p ▸ hq)
  · intro p q hreaches hcaptures hp hq
    rw [hends] at hp hq ⊢
    rw [hends]
    exact h.alike p q hreaches hcaptures hp hq

/-- A run ends where its first character does not belong to it. -/
theorem append_cons_inj_of_stop {front front' cs cs' : List Char} {c c' : Char}
    (hfront : ∀ d ∈ front, accepts d = true) (hfront' : ∀ d ∈ front', accepts d = true)
    (hc : accepts c = false) (hc' : accepts c' = false)
    (h : front ++ c :: cs = front' ++ c' :: cs') : front = front' := by
  have htake := congrArg (List.takeWhile accepts) h
  rw [List.takeWhile_append_of_pos hfront, List.takeWhile_append_of_pos hfront',
    List.takeWhile_cons_of_neg (Bool.eq_false_iff.mp hc),
    List.takeWhile_cons_of_neg (Bool.eq_false_iff.mp hc'), List.append_nil,
    List.append_nil] at htake
  exact htake

/-- A word is at least one character of the run and captures nothing. -/
structure IsWord (accepts : Char → Bool) (word : Pattern) : Prop where
  isPlain : word.IsPlain
  advances : word.Advances
  consumes : word.Consumes fun c => accepts c = true

theorem IsWord.exists_passes (h : IsWord accepts word) (hq : q ∈ word.ends p) :
    ∃ passed, p.Passes passed q ∧ passed ≠ [] ∧ ∀ c ∈ passed, accepts c = true := by
  obtain ⟨passed, hpasses⟩ := exists_passes_of_mem_ends h.isPlain hq
  obtain ⟨consumed, hrest, hconsumed⟩ := reaches_of_mem_ends h.consumes hq
  obtain rfl : consumed = passed :=
    List.append_cancel_right (hrest.symm.trans hpasses.1)
  refine ⟨consumed, hpasses, ?_, hconsumed⟩
  rintro rfl
  have hshorter := rest_length_lt_of_mem_ends h.advances hq
  rw [hrest] at hshorter
  exact Nat.lt_irrefl _ hshorter

theorem IsWord.oneOf {patterns : List Pattern} (hne : patterns ≠ [])
    (h : ∀ word ∈ patterns, IsWord accepts word) : IsWord accepts (oneOf patterns) := by
  induction patterns with
  | nil => exact absurd rfl hne
  | cons word others ih =>
      have hword : IsWord accepts word := h word List.mem_cons_self
      cases others with
      | nil => exact hword
      | cons other others =>
          have hothers := ih (List.cons_ne_nil other others) fun word hmem =>
            h word (List.mem_cons_of_mem _ hmem)
          exact ⟨⟨hword.isPlain, hothers.isPlain⟩, ⟨hword.advances, hothers.advances⟩,
            hword.consumes, hothers.consumes⟩

/-- Words may be joined by a character of the run. -/
theorem IsWord.join {link : Char → Bool} (hfirst : IsWord accepts first)
    (hlink : ∀ c, link c = true → accepts c = true) (hsecond : IsWord accepts second) :
    IsWord accepts (first ++ opt (char link) ++ second) where
  isPlain := ⟨⟨hfirst.isPlain, trivial⟩, hsecond.isPlain⟩
  advances := Or.inr hsecond.advances
  consumes := ⟨⟨hfirst.consumes, hlink⟩, hsecond.consumes⟩

/-- Two words end at one place if they start in one run and a match that begins off the run follows
each of them. -/
theorem IsWord.eq_of_mem_ends {q' : Place} (h : IsWord accepts word)
    (hbegins : pattern.BeginsWith fun c => accepts c = false)
    (hreaches : p.Reaches (fun c => accepts c = true) p') (hcaptures : p'.captures = p.captures)
    (hq : q ∈ word.ends p) (hq' : q' ∈ word.ends p') (hne : pattern.ends q ≠ [])
    (hne' : pattern.ends q' ≠ []) : q = q' := by
  obtain ⟨front, hp, hfront⟩ := hreaches
  obtain ⟨passed, ⟨hrest, hbefore, hkept⟩, -, hpassed⟩ := h.exists_passes hq
  obtain ⟨passed', ⟨hrest', hbefore', hkept'⟩, hpassed'ne, hpassed'⟩ := h.exists_passes hq'
  obtain ⟨c, cs, hstop, hc⟩ := hbegins q hne
  obtain ⟨c', cs', hstop', hc'⟩ := hbegins q' hne'
  -- both words end where the run ends
  have htext : passed ++ q.rest = (front ++ passed') ++ q'.rest := by
    rw [← hrest, hp, hrest', List.append_assoc]
  have hrun : passed = front ++ passed' := by
    rw [hstop, hstop'] at htext
    apply append_cons_inj_of_stop hpassed ?_ hc hc' htext
    intro d hd
    rcases List.mem_append.mp hd with hd | hd
    · exact hfront d hd
    · exact hpassed' d hd
  have hends : q.rest = q'.rest := by
    rw [hrun] at htext
    exact List.append_cancel_left htext
  have hlast : q.before = q'.before := by
    rw [hbefore, hbefore', hrun, List.getLast?_append, List.getLast?_eq_getLast_of_ne_nil hpassed'ne]
    rfl
  obtain ⟨before, rest, captures⟩ := q
  obtain ⟨before', rest', captures'⟩ := q'
  obtain rfl : before = before' := hlast
  obtain rfl : rest = rest' := hends
  obtain rfl : captures = captures' := hkept.trans (hcaptures.symm.trans hkept'.symm)
  rfl

theorem IsWord.endsAlike_append (h : IsWord accepts word)
    (hbegins : pattern.BeginsWith fun c => accepts c = false) :
    EndsAlike accepts (word ++ pattern) := by
  constructor
  · intro p q hq
    obtain ⟨r, hr, hq⟩ := List.mem_flatMap.mp hq
    exact Nat.lt_of_le_of_lt (rest_length_le_of_mem_ends hq)
      (rest_length_lt_of_mem_ends h.advances hr)
  · intro p p' hreaches hcaptures hne hne'
    obtain ⟨m, hm⟩ := Option.isSome_iff_exists.mp (List.isSome_head?.mpr hne)
    obtain ⟨m', hm'⟩ := Option.isSome_iff_exists.mp (List.isSome_head?.mpr hne')
    rw [hm, hm']
    have hends : ∀ p, ((word ++ pattern).ends p).head? =
        (word.ends p).findSome? fun q => (pattern.ends q).head? := fun p =>
      List.head?_flatMap
    rw [hends] at hm hm'
    obtain ⟨q, hq, hm⟩ := List.exists_of_findSome?_eq_some hm
    obtain ⟨q', hq', hm'⟩ := List.exists_of_findSome?_eq_some hm'
    have hqne : pattern.ends q ≠ [] := List.ne_nil_of_mem (List.mem_of_mem_head? hm)
    have hqne' : pattern.ends q' ≠ [] := List.ne_nil_of_mem (List.mem_of_mem_head? hm')
    rw [← hm, ← hm', h.eq_of_mem_ends hbegins hreaches hcaptures hq hq' hqne hqne']

end CodeHealth.Pattern
