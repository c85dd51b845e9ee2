import CodeHealth.Datum.Basic
import CodeHealth.Proofs.Number.Exact

/-!
# Proper values

The values that a program holds: decimals are finite 53-bit numbers, and names do not repeat.
-/

namespace CodeHealth.Datum

open Number

/-- Decimals are finite 53-bit numbers, and no object has two members of one name. -/
inductive Proper : Datum → Prop where
  | null : Proper .null
  | bool (b : Bool) : Proper (.bool b)
  | int (n : Int) : Proper (.int n)
  | float {q : Rat} (hq : IsFloat q) : Proper (.float q)
  | str (s : String) : Proper (.str s)
  | list {items : List Datum} (hitems : ∀ d ∈ items, Proper d) : Proper (.list items)
  | object {members : List (String × Datum)} (hnames : (members.map Prod.fst).Nodup)
      (hmembers : ∀ m ∈ members, Proper m.2) : Proper (.object members)

attribute [simp] Proper.null Proper.bool Proper.int Proper.str

@[simp]
theorem proper_float_iff {q : Rat} : Proper (.float q) ↔ IsFloat q :=
  ⟨fun h => by cases h; assumption, .float⟩

@[simp]
theorem proper_list_iff {items : List Datum} : Proper (.list items) ↔ ∀ d ∈ items, d.Proper :=
  ⟨fun h => by cases h; assumption, .list⟩

@[simp]
theorem proper_object_iff {members : List (String × Datum)} :
    Proper (.object members) ↔ (members.map Prod.fst).Nodup ∧ ∀ m ∈ members, m.2.Proper :=
  ⟨fun h => by cases h; exact ⟨‹_›, ‹_›⟩, fun h => .object h.1 h.2⟩

@[simp]
theorem proper_ofNat (n : Nat) : (ofNat n).Proper :=
  .int n

@[simp]
theorem proper_ofOption (s : Option String) : (ofOption s).Proper := by
  cases s with
  | none => exact .null
  | some s => exact .str s

@[simp]
theorem proper_ofStrings (texts : List String) : (ofStrings texts).Proper := by
  simp [ofStrings]

theorem proper_object_map_iff {α : Type} {write : α → Datum} {entries : List (String × α)} :
    Proper (.object (entries.map fun e => (e.1, write e.2))) ↔
      (entries.map Prod.fst).Nodup ∧ ∀ e ∈ entries, (write e.2).Proper := by
  rw [proper_object_iff, List.map_map, List.forall_mem_map]
  rfl

@[simp]
theorem proper_ofCounts_iff {counts : List (String × Int)} :
    (ofCounts counts).Proper ↔ (counts.map Prod.fst).Nodup :=
  proper_object_map_iff.trans ⟨And.left, fun h => ⟨h, fun c _ => .int c.2⟩⟩

theorem exists_object_of_get? {d v : Datum} {name : String} (h : d.get? name = some v) :
    ∃ members, d = .object members := by
  cases d with
  | object members => exact ⟨members, rfl⟩
  | _ => exact nomatch h

/-- The members of a proper object are proper. -/
theorem Proper.of_get? {d v : Datum} {name : String} (hd : d.Proper) (h : d.get? name = some v) :
    v.Proper := by
  cases hd with
  | object hnames hmembers =>
      obtain ⟨m, hm, rfl⟩ := Option.map_eq_some_iff.mp h
      exact hmembers m (List.mem_of_find?_eq_some hm)
  | _ => exact nomatch h

end CodeHealth.Datum
