import CodeHealth.Pattern.Basic

/-!
# Captures

A match consumes a part of the text, and a capture holds such a part. Which characters a pattern can
consume is read off the pattern, and so is which ones it can capture under a name.
-/

namespace CodeHealth.Pattern

variable {A B : Char → Prop} {name : String} {pattern : Pattern} {p q r : Place}

/-! ## Repetition -/

section Repetition

variable {R : Place → Place → Prop} {step : Place → List Place} (hrefl : ∀ p, R p p)
  (htrans : ∀ p q r, R p q → R q r → R p r) (hstep : ∀ p, ∀ q ∈ step p, R p q)

include hrefl htrans hstep

theorem rel_of_mem_exactly (n : Nat) (hq : q ∈ exactly step n p) : R p q := by
  induction n generalizing p with
  | zero =>
      rw [List.mem_singleton.mp hq]
      exact hrefl p
  | succ n ih =>
      obtain ⟨r, hr, hq⟩ := List.mem_flatMap.mp hq
      exact htrans p r q (hstep p r hr) (ih hq)

theorem mem_or_rel_of_mem_mostFirst {γ : Type} (left : List γ) {others : List Place}
    (hq : q ∈ mostFirst step left p others) : q ∈ others ∨ R p q := by
  induction left generalizing p others with
  | nil =>
      rcases List.mem_cons.mp hq with rfl | hq
      · exact .inr (hrefl q)
      · exact .inl hq
  | cons _ left ih =>
      -- the places after each next step are put in front of those after the later ones
      have hfold : ∀ nexts : List Place, (∀ r ∈ nexts, R p r) →
          q ∈ nexts.foldr (fun r acc => mostFirst step left r acc) (p :: others) →
            q ∈ others ∨ R p q := by
        intro nexts hnexts hq
        induction nexts with
        | nil =>
            rcases List.mem_cons.mp hq with rfl | hq
            · exact .inr (hrefl q)
            · exact .inl hq
        | cons r nexts ihnexts =>
            rcases ih hq with hq | hrq
            · exact ihnexts (fun r hr => hnexts r (List.mem_cons_of_mem _ hr)) hq
            · exact .inr (htrans p r q (hnexts r List.mem_cons_self) hrq)
      exact hfold (step p) (hstep p) hq

omit hstep in
theorem rel_of_mem_ends_iterate {least : Nat} {most : Option Nat} {body : Pattern}
    (hbody : ∀ p, ∀ q ∈ body.ends p, R p q) (hq : q ∈ (iterate least most body).ends p) :
    R p q := by
  obtain ⟨r, hr, hq⟩ := List.mem_flatMap.mp hq
  have hleast : R p r := rel_of_mem_exactly hrefl htrans hbody least hr
  have hmost : q ∈ [] ∨ R r q := by
    split at hq
    · exact mem_or_rel_of_mem_mostFirst hrefl htrans hbody _ hq
    · exact mem_or_rel_of_mem_mostFirst hrefl htrans hbody _ hq
  rcases hmost with hnone | hmost
  · exact absurd hnone List.not_mem_nil
  · exact htrans p r q hleast hmost

end Repetition

/-! ## Consumed characters -/

/-- The second place is reached from the first over characters that satisfy `A`. -/
def Place.Reaches (A : Char → Prop) (p q : Place) : Prop :=
  ∃ passed, p.rest = passed ++ q.rest ∧ ∀ c ∈ passed, A c

theorem Place.Reaches.refl (p : Place) : p.Reaches A p :=
  ⟨[], rfl, fun _ hc => absurd hc List.not_mem_nil⟩

theorem Place.Reaches.trans (hpq : p.Reaches A q) (hqr : q.Reaches A r) : p.Reaches A r := by
  obtain ⟨front, hfront, hfrontA⟩ := hpq
  obtain ⟨back, hback, hbackA⟩ := hqr
  refine ⟨front ++ back, by rw [hfront, hback, List.append_assoc], fun c hc => ?_⟩
  rcases List.mem_append.mp hc with hc | hc
  · exact hfrontA c hc
  · exact hbackA c hc

/-- All characters that the pattern can consume satisfy `A`. -/
def Consumes (A : Char → Prop) : Pattern → Prop
  | .char accepts => ∀ c, accepts c = true → A c
  | .seq first second => first.Consumes A ∧ second.Consumes A
  | .alt first second => first.Consumes A ∧ second.Consumes A
  | .iterate _ _ body => body.Consumes A
  | .capture _ body => body.Consumes A
  | .again _ => ∀ c, A c
  | .empty | .notAhead _ | .wordEdge | .atStart | .atEnd => True

theorem of_mem_over {cs : List Char} (hcs : ∀ c ∈ cs, A c) (hq : q ∈ p.over cs) :
    p.Reaches A q ∧ q.captures = p.captures := by
  induction cs generalizing p with
  | nil =>
      rw [List.mem_singleton.mp hq]
      exact ⟨.refl p, rfl⟩
  | cons c cs ih =>
      rw [Place.over] at hq
      split at hq
      · rename_i d rest hrest
        split at hq
        · rename_i heq
          obtain rfl := beq_iff_eq.mp heq
          have hnext : p.Reaches A ⟨some c, rest, p.captures⟩ :=
            ⟨[c], hrest, fun x hx => List.mem_singleton.mp hx ▸ hcs c List.mem_cons_self⟩
          obtain ⟨hreaches, hcaptures⟩ := ih (fun x hx => hcs x (List.mem_cons_of_mem _ hx)) hq
          exact ⟨hnext.trans hreaches, hcaptures⟩
        · exact absurd hq List.not_mem_nil
      · exact absurd hq List.not_mem_nil

theorem of_mem_next {accepts : Char → Bool} (haccepts : ∀ c, accepts c = true → A c)
    (hq : q ∈ p.next accepts) : p.Reaches A q ∧ q.captures = p.captures := by
  unfold Place.next at hq
  split at hq
  · exact absurd hq List.not_mem_nil
  · rename_i c rest hrest
    split at hq
    · rename_i hc
      rw [List.mem_singleton.mp hq]
      exact ⟨⟨[c], hrest, fun x hx => List.mem_singleton.mp hx ▸ haccepts c hc⟩, rfl⟩
    · exact absurd hq List.not_mem_nil

/-- What looks around moves nowhere. -/
theorem eq_of_mem_ite {b : Prop} [Decidable b] (hq : q ∈ if b then [p] else []) : q = p := by
  split at hq
  · exact List.mem_singleton.mp hq
  · exact absurd hq List.not_mem_nil

theorem reaches_of_mem_ends (h : pattern.Consumes A) (hq : q ∈ pattern.ends p) :
    p.Reaches A q := by
  induction pattern generalizing p q with
  | empty =>
      rw [List.mem_singleton.mp hq]
      exact .refl p
  | char accepts => exact (of_mem_next h hq).1
  | seq first second ihfirst ihsecond =>
      obtain ⟨r, hr, hq⟩ := List.mem_flatMap.mp hq
      exact (ihfirst h.1 hr).trans (ihsecond h.2 hq)
  | alt first second ihfirst ihsecond =>
      rcases List.mem_append.mp hq with hq | hq
      · exact ihfirst h.1 hq
      · exact ihsecond h.2 hq
  | iterate least most body ih =>
      exact rel_of_mem_ends_iterate Place.Reaches.refl (fun _ _ _ => Place.Reaches.trans)
        (fun _ _ => ih h) hq
  | capture name body ih =>
      obtain ⟨r, hr, rfl⟩ := List.mem_map.mp hq
      have hbody : p.Reaches A r := ih h hr
      exact hbody
  | again name =>
      unfold ends at hq
      split at hq
      · exact (of_mem_over (fun c _ => h c) hq).1
      · exact absurd hq List.not_mem_nil
  | notAhead | wordEdge | atStart | atEnd =>
      rw [eq_of_mem_ite hq]
      exact .refl p

theorem consumes_true (pattern : Pattern) : pattern.Consumes fun _ => True := by
  induction pattern with
  | char => exact fun _ _ => trivial
  | again => exact fun _ => trivial
  | seq first second ihfirst ihsecond => exact ⟨ihfirst, ihsecond⟩
  | alt first second ihfirst ihsecond => exact ⟨ihfirst, ihsecond⟩
  | iterate least most body ih => exact ih
  | capture name body ih => exact ih
  | empty | notAhead | wordEdge | atStart | atEnd => trivial

theorem Place.Reaches.rest_suffix (h : p.Reaches A q) : q.rest <:+ p.rest := by
  obtain ⟨passed, hrest, -⟩ := h
  exact ⟨passed, hrest.symm⟩

/-! ## Captured characters -/

/-- What is captured between two places is a part of the text behind the first one, and under the
name it consists of characters that satisfy `A`. -/
def Place.Captures (name : String) (A : Char → Prop) (p q : Place) : Prop :=
  q.rest <:+ p.rest ∧
    ∀ c ∈ q.captures, c ∈ p.captures ∨
      (c.start <:+ p.rest ∧ (c.name = name → ∀ x ∈ c.text, A x))

theorem Place.Captures.refl (p : Place) : p.Captures name A p :=
  ⟨List.suffix_refl _, fun _ => .inl⟩

theorem Place.Captures.trans (hpq : p.Captures name A q) (hqr : q.Captures name A r) :
    p.Captures name A r := by
  refine ⟨hqr.1.trans hpq.1, fun c hc => ?_⟩
  rcases hqr.2 c hc with hc | ⟨hstart, htext⟩
  · exact hpq.2 c hc
  · exact .inr ⟨hstart.trans hpq.1, htext⟩

/-- All characters that the pattern can capture under the name satisfy `A`. -/
def CapturesOnly (name : String) (A : Char → Prop) : Pattern → Prop
  | .seq first second => first.CapturesOnly name A ∧ second.CapturesOnly name A
  | .alt first second => first.CapturesOnly name A ∧ second.CapturesOnly name A
  | .iterate _ _ body => body.CapturesOnly name A
  | .capture own body => (own = name → body.Consumes A) ∧ body.CapturesOnly name A
  | .empty | .char _ | .again _ | .notAhead _ | .wordEdge | .atStart | .atEnd => True

theorem Capture.text_eq {c : Capture} {cs : List Char} (h : c.start = cs ++ c.stop) :
    c.text = cs := by
  unfold Capture.text
  rw [h, List.length_append, Nat.add_sub_cancel]
  exact List.take_left

theorem Place.Captures.of_reaches (h : p.Reaches A q ∧ q.captures = p.captures) :
    p.Captures name B q :=
  ⟨h.1.rest_suffix, fun _ hc => .inl (h.2 ▸ hc)⟩

theorem captures_of_mem_ends (h : pattern.CapturesOnly name A) (hq : q ∈ pattern.ends p) :
    p.Captures name A q := by
  induction pattern generalizing p q with
  | empty =>
      rw [List.mem_singleton.mp hq]
      exact .refl p
  | char accepts => exact .of_reaches (of_mem_next (A := fun _ => True) (fun _ _ => trivial) hq)
  | seq first second ihfirst ihsecond =>
      obtain ⟨r, hr, hq⟩ := List.mem_flatMap.mp hq
      exact (ihfirst h.1 hr).trans (ihsecond h.2 hq)
  | alt first second ihfirst ihsecond =>
      rcases List.mem_append.mp hq with hq | hq
      · exact ihfirst h.1 hq
      · exact ihsecond h.2 hq
  | iterate least most body ih =>
      exact rel_of_mem_ends_iterate Place.Captures.refl (fun _ _ _ => Place.Captures.trans)
        (fun _ _ => ih h) hq
  | capture own body ih =>
      obtain ⟨r, hr, rfl⟩ := List.mem_map.mp hq
      have hbody : p.Captures name A r := ih h.2 hr
      refine ⟨hbody.1, fun c hc => ?_⟩
      rcases List.mem_cons.mp hc with rfl | hc
      · refine .inr ⟨List.suffix_refl _, fun hown => ?_⟩
        obtain ⟨passed, hrest, hpassed⟩ := reaches_of_mem_ends (h.1 hown) hr
        rw [Capture.text_eq hrest]
        exact hpassed
      · exact hbody.2 c hc
  | again own =>
      unfold ends at hq
      split at hq
      · exact .of_reaches (of_mem_over (A := fun _ => True) (fun _ _ => trivial) hq)
      · exact absurd hq List.not_mem_nil
  | notAhead | wordEdge | atStart | atEnd =>
      rw [eq_of_mem_ite hq]
      exact .refl p

theorem capturesOnly_true (name : String) (pattern : Pattern) :
    pattern.CapturesOnly name fun _ => True := by
  induction pattern with
  | seq first second ihfirst ihsecond => exact ⟨ihfirst, ihsecond⟩
  | alt first second ihfirst ihsecond => exact ⟨ihfirst, ihsecond⟩
  | iterate least most body ih => exact ih
  | capture own body ih => exact ⟨fun _ => body.consumes_true, ih⟩
  | empty | char | again | notAhead | wordEdge | atStart | atEnd => trivial

/-! ## Combinators -/

@[simp] theorem capturesOnly_append (first second : Pattern) :
    (first ++ second).CapturesOnly name A ↔
      first.CapturesOnly name A ∧ second.CapturesOnly name A :=
  Iff.rfl

@[simp] theorem consumes_append (first second : Pattern) :
    (first ++ second).Consumes A ↔ first.Consumes A ∧ second.Consumes A :=
  Iff.rfl

@[simp] theorem capturesOnly_char (accepts : Char → Bool) :
    (char accepts).CapturesOnly name A :=
  trivial

@[simp] theorem capturesOnly_solidExcept (s : String) : (solidExcept s).CapturesOnly name A :=
  trivial

@[simp] theorem capturesOnly_alnumOr (s : String) : (alnumOr s).CapturesOnly name A :=
  trivial

@[simp] theorem capturesOnly_among (s : String) : (among s).CapturesOnly name A :=
  trivial

@[simp] theorem capturesOnly_lit (s : String) : (lit s).CapturesOnly name A := by
  unfold lit
  induction s.toList with
  | nil => trivial
  | cons c cs ih => exact ⟨trivial, ih⟩

@[simp] theorem capturesOnly_litAnyCase (s : String) : (litAnyCase s).CapturesOnly name A := by
  unfold litAnyCase
  induction s.toList with
  | nil => trivial
  | cons c cs ih => exact ⟨trivial, ih⟩

theorem consumes_lit {s : String} (h : ∀ c ∈ s.toList, A c) : (lit s).Consumes A := by
  unfold lit
  generalize s.toList = cs at h ⊢
  induction cs with
  | nil => trivial
  | cons c cs ih =>
      refine ⟨fun d hd => ?_, ih fun d hd => h d (List.mem_cons_of_mem _ hd)⟩
      rw [beq_iff_eq.mp hd]
      exact h c List.mem_cons_self

theorem consumes_litAnyCase {s : String}
    (h : ∀ c ∈ s.toList, ∀ d, sameLetter c d = true → A d) :
    (litAnyCase s).Consumes A := by
  unfold litAnyCase
  generalize s.toList = cs at h ⊢
  induction cs with
  | nil => trivial
  | cons c cs ih =>
      exact ⟨h c List.mem_cons_self, ih fun d hd => h d (List.mem_cons_of_mem _ hd)⟩

/-! ## Search -/

theorem exists_ends_of_search? {cs : List Char} (h : pattern.search? cs = some q) :
    ∃ start : Place, start.rest <:+ cs ∧ start.captures = [] ∧ q ∈ pattern.ends start := by
  unfold search? at h
  generalize (none : Option Char) = before at h
  induction cs generalizing before with
  | nil => exact ⟨_, List.suffix_refl _, rfl, List.mem_of_mem_head? h⟩
  | cons c cs ih =>
      rw [searchFrom?] at h
      split at h
      · rename_i place hplace
        rw [Option.some.inj h] at hplace
        exact ⟨_, List.suffix_refl _, rfl, List.mem_of_mem_head? hplace⟩
      · obtain ⟨start, hrest, hcaptures, hq⟩ := ih (some c) h
        exact ⟨start, hrest.trans (List.suffix_cons c cs), hcaptures, hq⟩

/-- What a search captures is a part of the text, and it holds only characters that the pattern can
capture under the name. -/
theorem captured_of_search? {cs text : List Char} (hpattern : pattern.CapturesOnly name A)
    (h : pattern.search? cs = some q) (htext : q.captured? name = some text) :
    text <:+: cs ∧ ∀ c ∈ text, A c := by
  obtain ⟨start, hrest, hnone, hq⟩ := exists_ends_of_search? h
  obtain ⟨c, hfind, rfl⟩ := Option.map_eq_some_iff.mp htext
  have hname : c.name = name := by simpa using List.find?_some hfind
  rcases (captures_of_mem_ends hpattern hq).2 c (List.mem_of_find?_eq_some hfind) with
    hold | ⟨hstart, hsatisfies⟩
  · rw [hnone] at hold
    exact absurd hold List.not_mem_nil
  · have hpart : c.text <+: c.start := List.take_prefix _ _
    exact ⟨hpart.isInfix.trans (hstart.trans hrest).isInfix, hsatisfies hname⟩

end CodeHealth.Pattern
