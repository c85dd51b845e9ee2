import CodeHealth.Schema.Checked

/-!
# Valid outcomes

When a combination of checked values is valid, and what it is then.
-/

namespace CodeHealth.Schema.Checked

variable {α β : Type}

@[simp]
theorem map_valid (f : α → β) (a : α) : f <$> valid a = .valid (f a) := rfl

@[simp]
theorem seq_valid (f : α → β) (a : α) : (valid f <*> valid a) = .valid (f a) := rfl

@[simp]
theorem under_valid (part : String) (a : α) : (valid a).under part = .valid a := rfl

theorem map_eq_valid_iff {f : α → β} {c : Checked α} {b : β} :
    f <$> c = .valid b ↔ ∃ a, c = .valid a ∧ f a = b := by
  cases c with
  | valid a => simp
  | faulty faults => simp [Functor.map, map]

theorem seq_eq_valid_iff {g : Checked (α → β)} {c : Checked α} {b : β} :
    (g <*> c) = .valid b ↔ ∃ f a, g = .valid f ∧ c = .valid a ∧ f a = b := by
  cases g <;> cases c <;> simp [Seq.seq, apply]

theorem under_eq_valid_iff {part : String} {c : Checked α} {a : α} :
    c.under part = .valid a ↔ c = .valid a := by
  cases c <;> simp [under]

theorem require_eq_valid_iff {p : α → Bool} {kind : FaultKind} {c : Checked α} {a : α} :
    c.require p kind = .valid a ↔ c = .valid a ∧ p a = true := by
  cases c with
  | valid b =>
      unfold require
      dsimp only
      split
      · rename_i hp
        rw [valid.injEq]
        exact ⟨fun h => ⟨h, h ▸ hp⟩, And.left⟩
      · rename_i hp
        rw [valid.injEq]
        exact ⟨nofun, fun h => absurd (h.1 ▸ h.2) hp⟩
  | faulty faults => simp [require]

theorem sequence_cons (c : Checked α) (cs : List (Checked α)) :
    sequence (c :: cs) = (List.cons <$> c <*> sequence cs) := rfl

/-- A list of outcomes is valid if all of them are. -/
theorem sequence_eq_valid_iff {cs : List (Checked α)} {as : List α} :
    sequence cs = .valid as ↔ cs = as.map .valid := by
  induction cs generalizing as with
  | nil => cases as <;> simp [sequence]
  | cons c cs ih =>
      simp only [sequence_cons, seq_eq_valid_iff, map_eq_valid_iff, ih]
      constructor
      · rintro ⟨_, rest, ⟨a, rfl, rfl⟩, rfl, rfl⟩
        rfl
      · intro h
        cases as with
        | nil => exact nomatch h
        | cons a as =>
            obtain ⟨rfl, rfl⟩ := List.cons.inj h
            exact ⟨_, as, ⟨a, rfl, rfl⟩, rfl, rfl⟩

end CodeHealth.Schema.Checked
