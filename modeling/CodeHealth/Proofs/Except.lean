import Mathlib.Data.List.Forall2

/-!
# Steps that may fail

A list of steps succeeds when each of them does, and then its results are theirs in order.
-/

namespace CodeHealth

variable {ε α β : Type} {f : α → Except ε β}

theorem map_eq_ok_iff {g : α → β} {e : Except ε α} {y : β} :
    e.map g = .ok y ↔ ∃ x, e = .ok x ∧ g x = y := by
  cases e <;> simp [Except.map]

theorem map_eq_error_iff {g : α → β} {e : Except ε α} {x : ε} :
    e.map g = .error x ↔ e = .error x := by
  cases e <;> simp [Except.map]

theorem mapError_eq_ok_iff {ε' : Type} {g : ε → ε'} {e : Except ε α} {x : α} :
    e.mapError g = .ok x ↔ e = .ok x := by
  cases e <;> simp [Except.mapError]

theorem toOption_eq_some_iff {e : Except ε α} {x : α} : e.toOption = some x ↔ e = .ok x := by
  cases e <;> simp [Except.toOption]

theorem bind_eq_ok_iff {e : Except ε α} {y : β} :
    e >>= f = .ok y ↔ ∃ x, e = .ok x ∧ f x = .ok y := by
  cases e <;> simp [bind, Except.bind]

/-- What only builds a result fails like the step before it. -/
theorem bind_pure_eq_error_iff {g : α → β} {e : Except ε α} {x : ε} :
    (do return g (← e)) = .error x ↔ e = .error x := by
  cases e <;> simp [bind, Except.bind, pure, Except.pure]

theorem mapM_cons_eq_ok_iff {x : α} {xs : List α} {ys : List β} :
    (x :: xs).mapM f = .ok ys ↔
      ∃ y rest, f x = .ok y ∧ xs.mapM f = .ok rest ∧ ys = y :: rest := by
  rw [List.mapM_cons]
  rcases f x with e | y
  · simp [bind, Except.bind]
  · rcases xs.mapM f with e | rest <;>
      simp [bind, Except.bind, pure, Except.pure, eq_comm]

theorem mapM_eq_ok_iff {xs : List α} {ys : List β} :
    xs.mapM f = .ok ys ↔ List.Forall₂ (fun x y => f x = .ok y) xs ys := by
  induction xs generalizing ys with
  | nil =>
      rw [List.mapM_nil, List.forall₂_nil_left_iff]
      simp [pure, Except.pure, eq_comm]
  | cons x xs ih =>
      rw [mapM_cons_eq_ok_iff, List.forall₂_cons_left_iff]
      simp only [ih, exists_and_left]

theorem exists_mapM_eq_ok_iff {xs : List α} :
    (∃ ys, xs.mapM f = .ok ys) ↔ ∀ x ∈ xs, ∃ y, f x = .ok y := by
  simp only [mapM_eq_ok_iff]
  induction xs with
  | nil => simp
  | cons x xs ih =>
      simp only [List.forall₂_cons_left_iff, List.forall_mem_cons, ← ih]
      grind

theorem mapM_eq_map {g : α → β} {xs : List α} (h : ∀ x ∈ xs, f x = .ok (g x)) :
    xs.mapM f = .ok (xs.map g) := by
  rw [mapM_eq_ok_iff, List.forall₂_map_right_iff, List.forall₂_same]
  exact h

theorem exists_getElem?_of_mapM {xs : List α} {ys : List β} (h : xs.mapM f = .ok ys) {i : Nat}
    {y : β} (hy : ys[i]? = some y) : ∃ x, xs[i]? = some x ∧ f x = .ok y := by
  rw [mapM_eq_ok_iff, List.forall₂_iff_get] at h
  obtain ⟨hi, rfl⟩ := List.getElem?_eq_some_iff.mp hy
  have hi' : i < xs.length := by omega
  exact ⟨xs[i], List.getElem?_eq_getElem hi', h.2 i hi' hi⟩

theorem exists_mem_of_mapM {xs : List α} {ys : List β} (h : xs.mapM f = .ok ys) {x : α}
    (hx : x ∈ xs) : ∃ y ∈ ys, f x = .ok y := by
  rw [mapM_eq_ok_iff] at h
  induction h with
  | nil => exact absurd hx List.not_mem_nil
  | cons hfirst _ ih =>
      rcases List.mem_cons.mp hx with rfl | hx
      · exact ⟨_, List.mem_cons_self, hfirst⟩
      · obtain ⟨y, hy, hxy⟩ := ih hx
        exact ⟨y, List.mem_cons_of_mem _ hy, hxy⟩

theorem exists_of_mapM_eq_error {xs : List α} {e : ε} (h : xs.mapM f = .error e) :
    ∃ x ∈ xs, f x = .error e := by
  induction xs with
  | nil => exact nomatch h
  | cons x xs ih =>
      rw [List.mapM_cons] at h
      cases hx : f x with
      | error e' =>
          rw [hx] at h
          obtain rfl := Except.error.inj h
          exact ⟨x, List.mem_cons_self, hx⟩
      | ok y =>
          cases hxs : xs.mapM f with
          | error e' =>
              rw [hx, hxs] at h
              obtain rfl := Except.error.inj h
              obtain ⟨x', hmem, hx'⟩ := ih hxs
              exact ⟨x', List.mem_cons_of_mem x hmem, hx'⟩
          | ok ys =>
              rw [hx, hxs] at h
              exact nomatch h

/-- Steps that fail in one way only fail together exactly if one of them does. -/
theorem mapM_eq_error_iff {xs : List α} {e e₀ : ε}
    (honly : ∀ x ∈ xs, ∀ e, f x = .error e → e = e₀) :
    xs.mapM f = .error e ↔ e = e₀ ∧ ∃ x ∈ xs, f x = .error e₀ := by
  constructor
  · intro h
    obtain ⟨x, hx, herror⟩ := exists_of_mapM_eq_error h
    obtain rfl := honly x hx e herror
    exact ⟨rfl, x, hx, herror⟩
  · rintro ⟨rfl, x, hx, herror⟩
    cases h : xs.mapM f with
    | error e' =>
        obtain ⟨x', hx', herror'⟩ := exists_of_mapM_eq_error h
        rw [honly x' hx' e' herror']
    | ok ys =>
        obtain ⟨y, hok⟩ := exists_mapM_eq_ok_iff.mp ⟨ys, h⟩ x hx
        rw [herror] at hok
        exact nomatch hok

/-! ## Filters -/

variable {p : α → Except ε Bool} {xs ys acc : List α}

theorem filterAuxM_cons_of_ok {x : α} {b : Bool} (h : p x = .ok b) :
    List.filterAuxM p (x :: xs) acc = List.filterAuxM p xs (bif b then x :: acc else acc) := by
  rw [List.filterAuxM, h]
  rfl

theorem filterAuxM_cons_of_error {x : α} {e : ε} (h : p x = .error e) :
    List.filterAuxM p (x :: xs) acc = .error e := by
  rw [List.filterAuxM, h]
  rfl

theorem filterAuxM_eq_ok_iff : List.filterAuxM p xs acc = .ok ys ↔
    (∀ x ∈ xs, ∃ b, p x = .ok b) ∧
      ys = (xs.filter fun x => (p x).toOption.getD false).reverse ++ acc := by
  induction xs generalizing acc with
  | nil => simp [List.filterAuxM, pure, Except.pure, eq_comm]
  | cons x xs ih =>
      cases hx : p x with
      | error e =>
          rw [filterAuxM_cons_of_error hx]
          simp [hx]
      | ok b =>
          rw [filterAuxM_cons_of_ok hx, ih, List.forall_mem_cons, List.filter_cons, hx]
          cases b <;> simp [Except.toOption]

theorem exists_of_filterAuxM_eq_error {e : ε} (h : List.filterAuxM p xs acc = .error e) :
    ∃ x ∈ xs, p x = .error e := by
  induction xs generalizing acc with
  | nil => exact nomatch h
  | cons x xs ih =>
      cases hx : p x with
      | error e' =>
          rw [filterAuxM_cons_of_error hx] at h
          obtain rfl := Except.error.inj h
          exact ⟨x, List.mem_cons_self, hx⟩
      | ok b =>
          rw [filterAuxM_cons_of_ok hx] at h
          obtain ⟨x', hmem, hx'⟩ := ih h
          exact ⟨x', List.mem_cons_of_mem x hmem, hx'⟩

theorem filterM_eq_map (p : α → Except ε Bool) (xs : List α) :
    xs.filterM p = (List.filterAuxM p xs []).map List.reverse := by
  rw [List.filterM]
  cases List.filterAuxM p xs [] <;> rfl

/-- A filter succeeds when each test does, and then keeps what passes. -/
theorem filterM_eq_ok_iff : xs.filterM p = .ok ys ↔
    (∀ x ∈ xs, ∃ b, p x = .ok b) ∧ ys = xs.filter fun x => (p x).toOption.getD false := by
  rw [filterM_eq_map, map_eq_ok_iff]
  simp only [filterAuxM_eq_ok_iff, List.append_nil]
  constructor
  · rintro ⟨_, ⟨hall, rfl⟩, rfl⟩
    exact ⟨hall, List.reverse_reverse _⟩
  · rintro ⟨hall, rfl⟩
    exact ⟨_, ⟨hall, rfl⟩, List.reverse_reverse _⟩

theorem exists_of_filterM_eq_error {e : ε} (h : xs.filterM p = .error e) :
    ∃ x ∈ xs, p x = .error e := by
  rw [filterM_eq_map, map_eq_error_iff] at h
  exact exists_of_filterAuxM_eq_error h

theorem filterM_eq_error_iff {e e₀ : ε} (honly : ∀ x ∈ xs, ∀ e, p x = .error e → e = e₀) :
    xs.filterM p = .error e ↔ e = e₀ ∧ ∃ x ∈ xs, p x = .error e₀ := by
  constructor
  · intro h
    obtain ⟨x, hx, herror⟩ := exists_of_filterM_eq_error h
    obtain rfl := honly x hx e herror
    exact ⟨rfl, x, hx, herror⟩
  · rintro ⟨rfl, x, hx, herror⟩
    cases h : xs.filterM p with
    | error e' =>
        obtain ⟨x', hx', herror'⟩ := exists_of_filterM_eq_error h
        rw [honly x' hx' e' herror']
    | ok ys =>
        obtain ⟨b, hok⟩ := (filterM_eq_ok_iff.mp h).1 x hx
        rw [herror] at hok
        exact nomatch hok

end CodeHealth
