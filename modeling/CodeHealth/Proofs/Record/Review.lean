import CodeHealth.Proofs.Except
import CodeHealth.Refactor.Record

/-!
# Reviews of records

A record in review is moved on at most once. Every later attempt is refused, and nothing but the
status changes.
-/

namespace CodeHealth

/-- What attempts to move a record on lead to: the record, and the statuses it was moved to. -/
structure Reviewed (α : Type) where
  record : α
  moves : List ReviewStatus

/-- Attempts to move a record on, one after the other; a refused attempt leaves the record. -/
def review {α : Type} (step : α → ReviewStatus → Except TransitionError α) :
    α → List ReviewStatus → Reviewed α
  | a, [] => ⟨a, []⟩
  | a, new :: attempts =>
    match step a new with
    | .ok b =>
      let later := review step b attempts
      ⟨later.record, new :: later.moves⟩
    | .error _ => review step a attempts

/-- What an attempt does: it moves a pending record to another status, which replaces the one it
has, and it is refused otherwise. -/
structure MovesOn {α : Type} (step : α → ReviewStatus → Except TransitionError α)
    (status : α → ReviewStatus) (put : α → ReviewStatus → α) : Prop where
  step_eq_ok_iff : ∀ {a b new},
    step a new = .ok b ↔ (status a = .pending ∧ new ≠ .pending) ∧ put a new = b
  status_put : ∀ a s, status (put a s) = s
  put_status : ∀ a, put a (status a) = a

/-! ## One attempt -/

theorem ReviewStatus.allows_iff {current new : ReviewStatus} :
    current.allows new = true ↔ current = .pending ∧ new ≠ .pending := by
  cases current <;> cases new <;> decide

theorem ReviewStatus.move_eq_ok_iff {machine : String} {current new status : ReviewStatus} :
    move machine current new = .ok status ↔
      (current = .pending ∧ new ≠ .pending) ∧ new = status := by
  rw [← allows_iff]
  unfold move
  split
  · rename_i h
    rw [Except.ok.injEq, and_iff_right h]
  · rename_i h
    exact ⟨nofun, fun hmove => absurd hmove.1 h⟩

theorem Issue.movesOn : MovesOn withStatus status fun i s => { i with status := s } where
  step_eq_ok_iff := by
    intro a b new
    unfold withStatus
    simp only [map_eq_ok_iff, ReviewStatus.move_eq_ok_iff]
    exact ⟨fun ⟨_, ⟨h, rfl⟩, hb⟩ => ⟨h, hb⟩, fun ⟨h, hb⟩ => ⟨new, ⟨h, rfl⟩, hb⟩⟩
  status_put _ _ := rfl
  put_status _ := rfl

theorem Suggestion.movesOn : MovesOn withStatus status fun s new => { s with status := new } where
  step_eq_ok_iff := by
    intro a b new
    unfold withStatus
    simp only [map_eq_ok_iff, ReviewStatus.move_eq_ok_iff]
    exact ⟨fun ⟨_, ⟨h, rfl⟩, hb⟩ => ⟨h, hb⟩, fun ⟨h, hb⟩ => ⟨new, ⟨h, rfl⟩, hb⟩⟩
  status_put _ _ := rfl
  put_status _ := rfl

/-! ## All attempts -/

namespace MovesOn

variable {α : Type} {step : α → ReviewStatus → Except TransitionError α}
  {status : α → ReviewStatus} {put : α → ReviewStatus → α}

theorem review_cons_of_error {a : α} {new : ReviewStatus} {e : TransitionError}
    (h : step a new = .error e) (attempts : List ReviewStatus) :
    review step a (new :: attempts) = review step a attempts := by
  rw [review, h]

theorem review_cons_of_ok {a b : α} {new : ReviewStatus} (h : step a new = .ok b)
    (attempts : List ReviewStatus) :
    review step a (new :: attempts) =
      ⟨(review step b attempts).record, new :: (review step b attempts).moves⟩ := by
  rw [review, h]

/-- A record that is no longer pending stays as it is. -/
theorem review_of_ne_pending (h : MovesOn step status put) {a : α} (ha : status a ≠ .pending)
    (attempts : List ReviewStatus) : review step a attempts = ⟨a, []⟩ := by
  induction attempts with
  | nil => rfl
  | cons new attempts ih =>
      cases hstep : step a new with
      | error e => rw [review_cons_of_error hstep, ih]
      | ok b => exact absurd (h.step_eq_ok_iff.mp hstep).1.1 ha

/-- A record is left as it is, or moved on once. -/
theorem review_eq (h : MovesOn step status put) (a : α) (attempts : List ReviewStatus) :
    review step a attempts = ⟨a, []⟩ ∨
      ∃ new, review step a attempts = ⟨put a new, [new]⟩ := by
  induction attempts with
  | nil => exact Or.inl rfl
  | cons new attempts ih =>
      cases hstep : step a new with
      | error e => rwa [review_cons_of_error hstep]
      | ok b =>
          obtain ⟨⟨-, hnew⟩, rfl⟩ := h.step_eq_ok_iff.mp hstep
          right
          refine ⟨new, ?_⟩
          have hlater : status (put a new) ≠ .pending := by rwa [h.status_put]
          rw [review_cons_of_ok hstep, h.review_of_ne_pending hlater attempts]

theorem length_moves_le (h : MovesOn step status put) (a : α) (attempts : List ReviewStatus) :
    (review step a attempts).moves.length ≤ 1 := by
  rcases h.review_eq a attempts with heq | ⟨new, heq⟩ <;> simp [heq]

/-- Nothing but the status of a record changes. -/
theorem record_eq (h : MovesOn step status put) (a : α) (attempts : List ReviewStatus) :
    (review step a attempts).record = put a (status (review step a attempts).record) := by
  rcases h.review_eq a attempts with heq | ⟨new, heq⟩
  · rw [heq, h.put_status]
  · rw [heq, h.status_put]

end MovesOn

end CodeHealth
