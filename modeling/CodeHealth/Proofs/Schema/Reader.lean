import CodeHealth.Proofs.Schema.Checked
import CodeHealth.Schema.Reader
import Mathlib.Algebra.Order.Ring.Unbundled.Rat
import Mathlib.Data.List.Forall2

/-!
# Reading what was written

A field is read back from what is written of it, and what is read is within its bounds.
-/

namespace CodeHealth

theorem Datum.get?_object_cons (name name' : String) (d : Datum) (ms : List (String × Datum)) :
    Datum.get? name (.object ((name', d) :: ms)) =
      if name' = name then some d else Datum.get? name (.object ms) := by
  unfold Datum.get?
  by_cases h : name' = name
  · simp [h]
  · simp [h]

namespace Schema

open Checked

variable {α : Type} {reader : Reader α} {write : α → Datum} {d : Datum} {a absent : α}
  {name : String} {kind : FaultKind}

/-! ## Members -/

theorem field_eq_valid_iff :
    field d name reader = .valid a ↔ ∃ v, d.get? name = some v ∧ reader v = .valid a := by
  unfold field
  cases h : d.get? name <;> simp [under_eq_valid_iff, fault]

theorem fieldOr_eq_valid_iff :
    fieldOr d name reader absent = .valid a ↔
      (∃ v, d.get? name = some v ∧ reader v = .valid a) ∨ d.get? name = none ∧ absent = a := by
  unfold fieldOr
  cases h : d.get? name <;> simp [under_eq_valid_iff]

theorem readRecord_eq_valid_iff :
    readRecord kind reader d = .valid a ↔ (∃ ms, d = .object ms) ∧ reader d = .valid a := by
  cases d <;> simp [readRecord, fault]

/-! ## Texts and tags -/

theorem readOptional_null : readOptional reader .null = .valid none := rfl

theorem readOptional_ofOption (s : Option String) :
    readOptional readText (.ofOption s) = .valid s := by
  cases s <;> rfl

theorem readTag_str {ofTag? : String → Option α} {tag : String} (h : ofTag? tag = some a) :
    readTag ofTag? kind (.str tag) = .valid a := by
  unfold readTag
  dsimp only
  rw [h]

theorem readOptional_readTag {ofTag? : String → Option α} {tag : α → String}
    (h : ∀ a, ofTag? (tag a) = some a) (o : Option α) :
    readOptional (readTag ofTag? kind) (.ofOption (o.map tag)) = .valid o := by
  cases o with
  | none => rfl
  | some a => exact congrArg (Functor.map some) (readTag_str (h a))

/-- A value that is read where there may be none is read as a value. -/
theorem of_readOptional_some (h : readOptional reader d = .valid (some a)) :
    reader d = .valid a := by
  unfold readOptional at h
  split at h
  · exact nomatch h
  · obtain ⟨b, hb, hsome⟩ := map_eq_valid_iff.mp h
    exact Option.some.inj hsome ▸ hb

/-! ## Numbers -/

theorem readWithin_eq_valid_iff {least most : Option Int} {n : Int} :
    readWithin least most d = .valid n ↔
      readInt d = .valid n ∧ (∀ m ∈ least, m ≤ n) ∧ ∀ m ∈ most, n ≤ m := by
  unfold readWithin
  rw [require_eq_valid_iff, require_eq_valid_iff, and_assoc]
  cases least <;> cases most <;> simp

theorem readWithin_int {least most : Option Int} {n : Int} (hleast : ∀ m ∈ least, m ≤ n)
    (hmost : ∀ m ∈ most, n ≤ m) : readWithin least most (.int n) = .valid n :=
  readWithin_eq_valid_iff.mpr ⟨rfl, hleast, hmost⟩

theorem readNat_ofNat {least n : Nat} {most : Option Int} (hleast : least ≤ n)
    (hmost : ∀ m ∈ most, (n : Int) ≤ m) : readNat least most (.ofNat n) = .valid n := by
  have hwithin : readWithin (some least) most (.ofNat n) = .valid (n : Int) := by
    apply readWithin_int _ hmost
    rintro _ ⟨⟩
    exact_mod_cast hleast
  unfold readNat
  rw [hwithin]
  rfl

/-- A natural number that is read is the integer that is read, within the bounds. -/
theorem of_readNat {least n : Nat} {most : Option Int} (h : readNat least most d = .valid n) :
    readInt d = .valid (n : Int) ∧ least ≤ n ∧ ∀ m ∈ most, (n : Int) ≤ m := by
  obtain ⟨i, hi, rfl⟩ := map_eq_valid_iff.mp h
  obtain ⟨hread, hleast, hmost⟩ := readWithin_eq_valid_iff.mp hi
  have hlow : (least : Int) ≤ i := hleast _ rfl
  have hcast : (i.toNat : Int) = i := Int.toNat_of_nonneg (by omega)
  exact ⟨by rw [hcast, hread], by omega, fun m hm => by rw [hcast]; exact hmost m hm⟩

/-- A natural number that a field is read as is the integer of the field, within the bounds. -/
theorem of_field_readNat {least n : Nat} {most : Option Int}
    (h : field d name (readNat least most) = .valid n) :
    field d name readInt = .valid (n : Int) ∧ least ≤ n ∧ ∀ m ∈ most, (n : Int) ≤ m := by
  obtain ⟨v, hv, hn⟩ := field_eq_valid_iff.mp h
  obtain ⟨hread, hbounds⟩ := of_readNat hn
  exact ⟨field_eq_valid_iff.mpr ⟨v, hv, hread⟩, hbounds⟩

theorem readFraction_eq_valid_iff {q : Rat} :
    readFraction d = .valid q ↔ readFloat d = .valid q ∧ 0 ≤ q ∧ q ≤ 1 := by
  unfold readFraction
  rw [require_eq_valid_iff, require_eq_valid_iff, and_assoc, decide_eq_true_iff,
    decide_eq_true_iff]

/-! ## Lists and maps -/

theorem readSequence_map {as : List α} (h : ∀ a ∈ as, reader (write a) = .valid a) :
    readSequence kind reader (.list (as.map write)) = .valid as := by
  unfold readSequence
  dsimp only
  rw [sequence_eq_valid_iff, List.zipIdx_map, List.map_map]
  have hitems : ∀ p ∈ as.zipIdx, (reader (write p.1)).under (toString p.2) = .valid p.1 := by
    intro p hp
    rw [h p.1 (List.fst_mem_of_mem_zipIdx hp), under_valid]
  calc
    _ = as.zipIdx.map fun p => Checked.valid p.1 := List.map_congr_left hitems
    _ = (as.zipIdx.map Prod.fst).map Checked.valid := by rw [List.map_map]; rfl
    _ = as.map Checked.valid := by rw [List.zipIdx_map_fst]

theorem readMap_map {entries : List (String × α)}
    (h : ∀ e ∈ entries, reader (write e.2) = .valid e.2) :
    readMap reader (.object (entries.map fun e => (e.1, write e.2))) = .valid entries := by
  unfold readMap
  dsimp only
  rw [sequence_eq_valid_iff, List.map_map]
  apply List.map_congr_left
  intro e he
  rw [Function.comp_apply, h e he]
  rfl

/-- A map that is read has the names of the object, each with a value that is read. -/
theorem exists_of_readMap {entries : List (String × α)} (h : readMap reader d = .valid entries) :
    ∃ members, d = .object members ∧ members.map Prod.fst = entries.map Prod.fst ∧
      ∀ e ∈ entries, ∃ m ∈ members, reader m.2 = .valid e.2 := by
  cases d with
  | object members =>
      have hall := sequence_eq_valid_iff.mp h
      have hentry {m : String × Datum} {e : String × α}
          (hme : (((reader m.2).map fun a => (m.1, a)).under m.1) = .valid e) :
          m.1 = e.1 ∧ reader m.2 = .valid e.2 := by
        obtain ⟨a, ha, rfl⟩ := map_eq_valid_iff.mp (under_eq_valid_iff.mp hme)
        exact ⟨rfl, ha⟩
      refine ⟨members, rfl, ?_, fun e he => ?_⟩
      · rw [← List.forall₂_eq_eq_eq, List.forall₂_map_left_iff,
          List.forall₂_map_right_iff] at hall ⊢
        exact hall.imp fun m e hme => (hentry hme).1
      · have hvalid : Checked.valid e ∈ entries.map Checked.valid := List.mem_map_of_mem he
        rw [← hall] at hvalid
        obtain ⟨m, hm, hme⟩ := List.mem_map.mp hvalid
        exact ⟨m, hm, (hentry hme).2⟩
  | _ => exact nomatch h

/-- Each item that is read comes from one of the list. -/
theorem exists_of_mem_readSequence {as : List α} (h : readSequence kind reader d = .valid as)
    (ha : a ∈ as) : ∃ item, reader item = .valid a := by
  cases d with
  | list items =>
      have hall := sequence_eq_valid_iff.mp h
      have hvalid : Checked.valid a ∈ as.map Checked.valid := List.mem_map_of_mem ha
      rw [← hall] at hvalid
      obtain ⟨p, -, hp⟩ := List.mem_map.mp hvalid
      exact ⟨p.1, under_eq_valid_iff.mp hp⟩
  | _ => exact nomatch h

end Schema

end CodeHealth
