import CodeHealth.Proofs.Datum.Text
import CodeHealth.Proofs.Schema.Reader

/-!
# Decimals that are read

A decimal that is read as a field is a finite 53-bit number, whether it comes from a decimal, an
integer, a truth value or a text.
-/

namespace CodeHealth

namespace Schema

open Number

variable {q : Rat} {d : Datum}

theorem isFloat_of_decimalOf? {cs : List Char} (h : decimalOf? cs = some (.finite q)) :
    IsFloat q := by
  unfold decimalOf? at h
  split_ifs at h
  exact isFloat_of_readDecimal? h

theorem isFloat_of_decimalOfText? {s : String} (h : decimalOfText? s = some (.finite q)) :
    IsFloat q := by
  unfold decimalOfText? at h
  split at h
  · rename_i r hr
    obtain rfl := Option.some.inj h
    exact isFloat_of_decimalOf? hr
  · obtain ⟨cs, -, hcs⟩ := Option.bind_eq_some_iff.mp h
    exact isFloat_of_decimalOf? hcs

theorem isFloat_of_readDecimal (hd : d.Proper) (h : readDecimal d = .valid (.finite q)) :
    IsFloat q := by
  cases hd with
  | bool b =>
      obtain rfl := Reading.finite.inj (Checked.valid.inj h)
      cases b with
      | false => exact isFloat_zero
      | true => exact isFloat_one
  | int n =>
      unfold readDecimal at h
      dsimp only at h
      split at h
      · rename_i r hfinite
        obtain rfl := Reading.finite.inj (Checked.valid.inj h)
        exact (finite?_eq_some_iff.mp hfinite).2
      · exact nomatch h
  | float hq => exact Reading.finite.inj (Checked.valid.inj h) ▸ hq
  | str s =>
      unfold readDecimal at h
      dsimp only at h
      split at h
      · rename_i r hr
        exact isFloat_of_decimalOfText? (Checked.valid.inj h ▸ hr)
      · exact nomatch h
  | _ => exact nomatch h

@[simp] theorem readDecimal_float (q : Rat) : readDecimal (.float q) = .valid (.finite q) := rfl

@[simp] theorem readFloat_float (q : Rat) : readFloat (.float q) = .valid q := rfl

/-- What is read as a finite decimal is read as a decimal. -/
theorem readFloat_eq_valid_iff : readFloat d = .valid q ↔ readDecimal d = .valid (.finite q) := by
  unfold readFloat
  cases readDecimal d with
  | faulty faults => exact ⟨nofun, nofun⟩
  | valid r =>
      cases r with
      | finite p => simp
      | infinite negative => exact ⟨nofun, nofun⟩
      | undefined => exact ⟨nofun, nofun⟩

theorem isFloat_of_readFloat (hd : d.Proper) (h : readFloat d = .valid q) : IsFloat q :=
  isFloat_of_readDecimal hd (readFloat_eq_valid_iff.mp h)

theorem isFloat_of_readFraction (hd : d.Proper) (h : readFraction d = .valid q) : IsFloat q :=
  isFloat_of_readFloat hd (readFraction_eq_valid_iff.mp h).1

/-! ## Fields of proper values -/

variable {α : Type} {reader : Reader α} {a absent : α} {name : String} {P : α → Prop}

/-- What holds of all that is read from proper values holds of what a field of one is read as. -/
theorem of_field (hread : ∀ v : Datum, v.Proper → reader v = .valid a → P a) (hd : d.Proper)
    (h : field d name reader = .valid a) : P a := by
  obtain ⟨v, hv, ha⟩ := field_eq_valid_iff.mp h
  exact hread v (hd.of_get? hv) ha

theorem of_fieldOr (hread : ∀ v : Datum, v.Proper → reader v = .valid a → P a) (habsent : P absent)
    (hd : d.Proper) (h : fieldOr d name reader absent = .valid a) : P a := by
  rcases fieldOr_eq_valid_iff.mp h with ⟨v, hv, ha⟩ | ⟨-, rfl⟩
  · exact hread v (hd.of_get? hv) ha
  · exact habsent

theorem nodup_of_readMap {entries : List (String × α)} (hd : d.Proper)
    (h : readMap reader d = .valid entries) : (entries.map Prod.fst).Nodup := by
  obtain ⟨members, rfl, hnames, -⟩ := exists_of_readMap h
  exact hnames ▸ (Datum.proper_object_iff.mp hd).1

end Schema

end CodeHealth
