import CodeHealth.Options
import CodeHealth.Proofs.Schema.Number

/-!
# Options read back

The options of an analysis are read back from their record, if their thresholds are finite.
-/

namespace CodeHealth

open Schema Checked

theorem readMap_ofCounts (counts : List (String × Int)) :
    readMap readInt (.ofCounts counts) = .valid counts :=
  readMap_map fun _ _ => rfl

theorem readSequence_ofStrings (kind : FaultKind) (texts : List String) :
    readSequence kind readText (.ofStrings texts) = .valid texts :=
  readSequence_map fun _ _ => rfl

theorem isFloat_three_quarters : Number.IsFloat (3 / 4) where
  nearest_eq := by
    have h := Number.nearest_mul_power (k := 3) (m := -2) (by norm_num) (by norm_num)
    norm_num [Number.power] at h
    exact h
  abs_lt := by
    rw [abs_of_pos (by norm_num)]
    exact (by norm_num : (3 / 4 : Rat) < 1).trans (by simpa using Number.isFloat_one.abs_lt)

theorem isFloat_nine_tenths : Number.IsFloat (Number.nearest (9 / 10)) := by
  refine ⟨Number.nearest_nearest _, ?_⟩
  have hlow := Number.nearest_nonneg (q := 9 / 10) (by norm_num)
  have hhigh := Number.nearest_le (q := 9 / 10) (n := 1) (by norm_num) (by norm_num) (by norm_num)
  rw [abs_of_nonneg hlow]
  exact hhigh.trans_lt (by simpa using Number.isFloat_one.abs_lt)

namespace Options

/-- Both thresholds are numbers, so that a record can hold them. -/
structure FiniteThresholds (o : Options) : Prop where
  structural : ∃ q, o.structuralThreshold = .finite q
  semantic : ∃ q, o.semanticThreshold = .finite q

theorem readDecimal_ofThreshold {r : Number.Reading} :
    readDecimal (Limits.ofThreshold r) = .valid r ↔ ∃ q, r = .finite q := by
  cases r with
  | finite q => exact ⟨fun _ => ⟨q, rfl⟩, fun _ => rfl⟩
  | infinite | undefined => exact ⟨nofun, nofun⟩

theorem read_toDatum {o : Options} (h : o.FiniteThresholds) : read o.toDatum = .valid o := by
  have hstructural := readDecimal_ofThreshold.mpr h.structural
  have hsemantic := readDecimal_ofThreshold.mpr h.semantic
  simp [read, readRecord, Limits.read, toDatum, Limits.members, fieldOr, Datum.get?_object_cons,
    readInt, readBool, hstructural, hsemantic, readMap_ofCounts, readSequence_ofStrings]

/-- The thresholds and the maps of accepted options. -/
theorem fields_of_read {d : Datum} {o : Options} (h : read d = .valid o) :
    fieldOr d "structural_similarity_threshold" readDecimal
        (.finite (Number.nearest (9 / 10))) = .valid o.structuralThreshold ∧
      fieldOr d "semantic_similarity_threshold" readDecimal (.finite (3 / 4)) =
        .valid o.semanticThreshold ∧
      fieldOr d "security_confidence_overrides" (readMap readInt) [] =
        .valid o.confidenceOverrides ∧
      fieldOr d "severity_weights" (readMap readInt) defaultSeverityWeights =
        .valid o.severityWeights := by
  obtain ⟨l, weights⟩ := o
  cases l
  simp only [read, readRecord_eq_valid_iff, Limits.read, seq_eq_valid_iff, map_eq_valid_iff,
    exists_and_left, exists_exists_and_eq_and, exists_exists_and_exists_and_eq_and, ↓existsAndEq,
    and_true, Options.mk.injEq, Limits.mk.injEq, exists_eq_right_right] at h
  obtain ⟨-, ⟨⟨⟨⟨⟨⟨⟨⟨⟨⟨-, hstructural⟩, hsemantic⟩, -⟩, -⟩, hoverrides⟩, -⟩, -⟩, -⟩, -⟩, -⟩,
    hweights⟩ := h
  exact ⟨hstructural, hsemantic, hoverrides, hweights⟩

/-- A threshold that is read from a proper value is written as one. -/
theorem proper_ofThreshold {d : Datum} {name : String} {absent : Rat} {r : Number.Reading}
    (hd : d.Proper) (habsent : Number.IsFloat absent)
    (h : fieldOr d name readDecimal (.finite absent) = .valid r) :
    (Limits.ofThreshold r).Proper := by
  rcases fieldOr_eq_valid_iff.mp h with ⟨v, hv, hread⟩ | ⟨-, rfl⟩
  · cases r with
    | finite q => exact .float (isFloat_of_readDecimal (hd.of_get? hv) hread)
    | infinite | undefined => exact .null
  · exact .float habsent

theorem proper_of_read {d : Datum} {o : Options} (hd : d.Proper) (h : read d = .valid o) :
    o.toDatum.Proper := by
  obtain ⟨hstructural, hsemantic, hoverrides, hweights⟩ := fields_of_read h
  have hs := proper_ofThreshold hd isFloat_nine_tenths hstructural
  have hm := proper_ofThreshold hd isFloat_three_quarters hsemantic
  have ho := of_fieldOr (P := fun counts => (counts.map Prod.fst).Nodup)
    (fun _ => nodup_of_readMap) (by simp) hd hoverrides
  have hw := of_fieldOr (P := fun counts => (counts.map Prod.fst).Nodup)
    (fun _ => nodup_of_readMap) (by decide) hd hweights
  simp [toDatum, Limits.members, hs, hm, ho, hw]

end Options

end CodeHealth
