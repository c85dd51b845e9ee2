import CodeHealth.Proofs.Duplicate.Record
import CodeHealth.Proofs.Schema.Number

/-!
# Issues read back

Issues, their metadata and their groups are read back from their records. What is read is valid, and
its record holds finite 53-bit numbers and no name twice.
-/

namespace CodeHealth

open Schema Checked

/-! ## Tags -/

theorem IssueType.ofTag?_tag (t : IssueType) : ofTag? t.tag = some t := by
  cases t <;> decide

theorem Severity.ofTag?_tag (s : Severity) : ofTag? s.tag = some s := by
  cases s <;> decide

theorem MatchType.ofTag?_tag (m : MatchType) : ofTag? m.tag = some m := by
  cases m <;> decide

theorem ReviewStatus.ofTag?_tag (s : ReviewStatus) : ofTag? s.tag = some s := by
  cases s <;> decide

theorem Metadata.Family.ofTag?_tag (f : Metadata.Family) : ofTag? f.tag = some f := by
  cases f <;> decide

/-! ## Maps of numbers -/

theorem readMap_numbersDatum (numbers : List (String × Rat)) :
    readMap readFloat (numbersDatum numbers) = .valid numbers :=
  readMap_map fun _ _ => rfl

theorem proper_numbersDatum_iff {numbers : List (String × Rat)} :
    (numbersDatum numbers).Proper ↔
      (numbers.map Prod.fst).Nodup ∧ ∀ n ∈ numbers, Number.IsFloat n.2 := by
  unfold numbersDatum
  rw [Datum.proper_object_map_iff]
  simp

theorem proper_numbersDatum_of_readMap {d : Datum} {numbers : List (String × Rat)}
    (hd : d.Proper) (h : readMap readFloat d = .valid numbers) : (numbersDatum numbers).Proper := by
  refine proper_numbersDatum_iff.mpr ⟨nodup_of_readMap hd h, fun n hn => ?_⟩
  obtain ⟨members, rfl, -, hread⟩ := exists_of_readMap h
  have hmembers := (Datum.proper_object_iff.mp hd).2
  obtain ⟨m, hm, hvalue⟩ := hread n hn
  exact isFloat_of_readFloat (hmembers m hm) hvalue

theorem proper_numbersDatum_of_fieldOr {d : Datum} {name : String} {numbers : List (String × Rat)}
    (hd : d.Proper) (h : fieldOr d name (readMap readFloat) [] = .valid numbers) :
    (numbersDatum numbers).Proper :=
  of_fieldOr (P := fun numbers => (numbersDatum numbers).Proper)
    (fun _ => proper_numbersDatum_of_readMap)
    (proper_numbersDatum_iff.mpr (by simp)) hd h

namespace Metadata

theorem get?_kind (m : Metadata) : m.toDatum.get? "kind" = some (.str m.family.tag) := by
  cases m <;> rfl

/-- Metadata is read as the variant that its kind tells. -/
theorem read_eq_valid_iff {d : Datum} {m : Metadata} :
    read d = .valid m ↔ ∃ family : Family, d.get? "kind" = some (.str family.tag) ∧
      readVariant d family = .valid m := by
  unfold read
  rw [readRecord_eq_valid_iff]
  constructor
  · rintro ⟨-, h⟩
    split at h
    · exact nomatch h
    · rename_i tag hkind
      split at h
      · rename_i family hfamily
        have htag : family.tag = tag := by simpa using List.find?_some hfamily
        exact ⟨family, htag ▸ hkind, under_eq_valid_iff.mp h⟩
      · exact nomatch h
    · exact nomatch h
  · rintro ⟨family, hkind, h⟩
    refine ⟨Datum.exists_object_of_get? hkind, ?_⟩
    simp only [hkind, Family.ofTag?_tag, under_eq_valid_iff, h]

theorem read_toDatum {m : Metadata} (h : m.Valid) : read m.toDatum = .valid m := by
  refine read_eq_valid_iff.mpr ⟨m.family, m.get?_kind, ?_⟩
  cases m with
  | complexity metric value threshold extra =>
      simp [readVariant, family, toDatum, field, fieldOr, Datum.get?_object_cons, readText,
        readMap_numbersDatum]
  | duplicate matchType similarity groupSize lineCount tokenCount =>
      obtain ⟨hlow, hhigh, hsize⟩ := h
      have hfraction : readFraction (.float similarity) = .valid similarity :=
        readFraction_eq_valid_iff.mpr ⟨rfl, hlow, hhigh⟩
      have hgroup : readWithin (some 2) none (.int groupSize) = .valid groupSize :=
        readWithin_int (by simpa using hsize) (by simp)
      simp [readVariant, family, toDatum, field, Datum.get?_object_cons,
        readTag_str (MatchType.ofTag?_tag _), hfraction, hgroup, readInt]
  | security ruleId maskedValue credentialDerived =>
      simp [readVariant, family, toDatum, field, fieldOr, Datum.get?_object_cons, readText,
        readOptional_ofOption, readBool]
  | generic values =>
      simp [readVariant, family, toDatum, fieldOr, Datum.get?_object_cons, readMap_numbersDatum]

/-- What the fields of metadata that have bounds or hold decimals are read as. -/
def Fields (d : Datum) : Metadata → Prop
  | .complexity _ value threshold extra =>
    field d "value" readFloat = .valid value ∧ field d "threshold" readFloat = .valid threshold ∧
      fieldOr d "extra" (readMap readFloat) [] = .valid extra
  | .duplicate _ similarity groupSize _ _ =>
    field d "similarity" readFraction = .valid similarity ∧
      field d "group_size" (readWithin (some 2) none) = .valid groupSize
  | .security _ _ _ => True
  | .generic values => fieldOr d "values" (readMap readFloat) [] = .valid values

theorem fields_of_read {d : Datum} {m : Metadata} (h : read d = .valid m) : Fields d m := by
  obtain ⟨family, -, h⟩ := read_eq_valid_iff.mp h
  cases family with
  | complexity =>
      simp only [readVariant, seq_eq_valid_iff, map_eq_valid_iff] at h
      obtain ⟨_, extra, ⟨_, threshold, ⟨_, value, ⟨_, -, rfl⟩, hvalue, rfl⟩, hthreshold, rfl⟩,
        hextra, rfl⟩ := h
      exact ⟨hvalue, hthreshold, hextra⟩
  | duplicate =>
      simp only [readVariant, seq_eq_valid_iff, map_eq_valid_iff] at h
      obtain ⟨_, _, ⟨_, _, ⟨_, groupSize, ⟨_, similarity, ⟨_, -, rfl⟩, hsimilarity, rfl⟩, hsize,
        rfl⟩, -, rfl⟩, -, rfl⟩ := h
      exact ⟨hsimilarity, hsize⟩
  | security =>
      simp only [readVariant, seq_eq_valid_iff, map_eq_valid_iff] at h
      obtain ⟨_, _, ⟨_, _, ⟨_, -, rfl⟩, -, rfl⟩, -, rfl⟩ := h
      exact trivial
  | generic =>
      obtain ⟨values, hvalues, rfl⟩ := map_eq_valid_iff.mp h
      exact hvalues

theorem valid_of_read {d : Datum} {m : Metadata} (h : read d = .valid m) : m.Valid := by
  have hfields := fields_of_read h
  cases m with
  | duplicate matchType similarity groupSize lineCount tokenCount =>
      obtain ⟨hsimilarity, hsize⟩ := hfields
      obtain ⟨v, -, hv⟩ := field_eq_valid_iff.mp hsimilarity
      obtain ⟨w, -, hw⟩ := field_eq_valid_iff.mp hsize
      obtain ⟨-, hlow, hhigh⟩ := readFraction_eq_valid_iff.mp hv
      exact ⟨hlow, hhigh, (readWithin_eq_valid_iff.mp hw).2.1 2 rfl⟩
  | _ => exact trivial

theorem proper_of_read {d : Datum} {m : Metadata} (hd : d.Proper) (h : read d = .valid m) :
    m.toDatum.Proper := by
  have hfields := fields_of_read h
  cases m with
  | complexity metric value threshold extra =>
      obtain ⟨hvalue, hthreshold, hextra⟩ := hfields
      have hv := of_field (fun _ => isFloat_of_readFloat) hd hvalue
      have ht := of_field (fun _ => isFloat_of_readFloat) hd hthreshold
      have hnumbers := proper_numbersDatum_of_fieldOr hd hextra
      simp [toDatum, hv, ht, hnumbers]
  | duplicate matchType similarity groupSize lineCount tokenCount =>
      have hs := of_field (fun _ => isFloat_of_readFraction) hd hfields.1
      simp [toDatum, hs]
  | security ruleId maskedValue credentialDerived => simp [toDatum]
  | generic values =>
      have hnumbers := proper_numbersDatum_of_fieldOr hd hfields
      simp [toDatum, hnumbers]

end Metadata

namespace Issue

theorem read_toDatum {i : Issue} (h : i.Valid) : read i.toDatum = .valid i := by
  have hend : 1 ≤ i.lineEnd := by
    have hlines := h.isConsistent
    have hstart := h.lineStart_pos
    simp only [isConsistent, Bool.and_eq_true, decide_eq_true_eq] at hlines
    omega
  have hconfidence : readNat 0 (some 100) (.ofNat i.confidence) = .valid i.confidence :=
    readNat_ofNat (Nat.zero_le _) (by simpa using h.confidence_le)
  unfold read
  rw [readRecord_eq_valid_iff, require_eq_valid_iff]
  refine ⟨⟨_, rfl⟩, ?_, h.isConsistent⟩
  simp [toDatum, field, fieldOr, Datum.get?_object_cons, readOptional_ofOption, readText,
    readTag_str (IssueType.ofTag?_tag _), readTag_str (Severity.ofTag?_tag _),
    readTag_str (ReviewStatus.ofTag?_tag _), hconfidence, readNat_ofNat h.lineStart_pos,
    readNat_ofNat hend, Metadata.read_toDatum h.metadata]

/-- The fields of an accepted issue that have bounds, and what holds between all of them. -/
theorem fields_of_read {d : Datum} {i : Issue} (h : read d = .valid i) :
    field d "confidence" (readNat 0 (some 100)) = .valid i.confidence ∧
      field d "line_start" (readNat 1 none) = .valid i.lineStart ∧
      field d "line_end" (readNat 1 none) = .valid i.lineEnd ∧
      fieldOr d "metadata" Metadata.read (.generic []) = .valid i.metadata ∧
      i.isConsistent = true := by
  cases i
  simp only [read, readRecord_eq_valid_iff, require_eq_valid_iff, seq_eq_valid_iff,
    map_eq_valid_iff, exists_and_left, exists_exists_and_eq_and,
    exists_exists_and_exists_and_eq_and, ↓existsAndEq, and_true, Issue.mk.injEq,
    exists_eq_right_right] at h
  obtain ⟨-, ⟨⟨⟨⟨⟨⟨⟨⟨⟨⟨⟨⟨-, hconfidence⟩, -⟩, hstart⟩, hend⟩, -⟩, -⟩, -⟩, -⟩, -⟩, -⟩, hmetadata⟩,
    -⟩, hconsistent⟩ := h
  exact ⟨hconfidence, hstart, hend, hmetadata, hconsistent⟩

theorem valid_of_read {d : Datum} {i : Issue} (h : read d = .valid i) : i.Valid := by
  obtain ⟨hconfidence, hstart, -, hmetadata, hconsistent⟩ := fields_of_read h
  refine ⟨by exact_mod_cast (of_field_readNat hconfidence).2.2 100 rfl,
    (of_field_readNat hstart).2.1, hconsistent, ?_⟩
  rcases fieldOr_eq_valid_iff.mp hmetadata with ⟨m, -, hm⟩ | ⟨-, hm⟩
  · exact Metadata.valid_of_read hm
  · rw [← hm]
    exact trivial

theorem proper_toDatum_iff {i : Issue} : i.toDatum.Proper ↔ i.metadata.toDatum.Proper := by
  simp [toDatum]

theorem proper_of_read {d : Datum} {i : Issue} (hd : d.Proper) (h : read d = .valid i) :
    i.toDatum.Proper := by
  obtain ⟨-, -, -, hmetadata, -⟩ := fields_of_read h
  exact proper_toDatum_iff.mpr (of_fieldOr (P := fun m => m.toDatum.Proper)
    (fun _ => Metadata.proper_of_read) (by simp [Metadata.toDatum, numbersDatum]) hd hmetadata)

end Issue

namespace CodeLocation

theorem read_toDatum (l : CodeLocation) : read l.toDatum = .valid l := by
  simp [read, readRecord, toDatum, field, Datum.get?_object_cons, readText, readInt]

theorem proper_toDatum (l : CodeLocation) : l.toDatum.Proper := by
  simp [toDatum]

end CodeLocation

namespace DuplicateGroup

theorem read_toDatum {g : DuplicateGroup} (h : g.Valid) : read g.toDatum = .valid g := by
  have hsimilarity : readFraction (.float g.similarity) = .valid g.similarity :=
    readFraction_eq_valid_iff.mpr ⟨rfl, h.similarity_nonneg, h.similarity_le_one⟩
  have hids : readList readText (.ofStrings g.issueIds) = .valid g.issueIds :=
    readSequence_map fun _ _ => rfl
  have hlocations : readList CodeLocation.read (.list (g.locations.map CodeLocation.toDatum)) =
      .valid g.locations :=
    readSequence_map fun l _ => l.read_toDatum
  unfold read
  rw [readRecord_eq_valid_iff, require_eq_valid_iff]
  refine ⟨⟨_, rfl⟩, ?_, h.isConsistent⟩
  simp [toDatum, recordMembers, field, Datum.get?_object_cons, readText, hsimilarity, hids,
    hlocations, readTag_str (MatchType.ofTag?_tag _), readTag_str (Severity.ofTag?_tag _)]

theorem fields_of_read {d : Datum} {g : DuplicateGroup} (h : read d = .valid g) :
    field d "similarity" readFraction = .valid g.similarity ∧ g.isConsistent = true := by
  cases g
  simp only [read, readRecord_eq_valid_iff, require_eq_valid_iff, seq_eq_valid_iff,
    map_eq_valid_iff, exists_and_left, exists_exists_and_eq_and,
    exists_exists_and_exists_and_eq_and, ↓existsAndEq, and_true, DuplicateGroup.mk.injEq,
    exists_eq_right_right] at h
  obtain ⟨-, ⟨⟨⟨⟨-, -, hsimilarity⟩, -⟩, -⟩, -⟩, hconsistent⟩ := h
  exact ⟨hsimilarity, hconsistent⟩

theorem valid_of_read {d : Datum} {g : DuplicateGroup} (h : read d = .valid g) : g.Valid := by
  obtain ⟨hsimilarity, hconsistent⟩ := fields_of_read h
  obtain ⟨v, -, hv⟩ := field_eq_valid_iff.mp hsimilarity
  obtain ⟨-, hlow, hhigh⟩ := readFraction_eq_valid_iff.mp hv
  exact ⟨hlow, hhigh, hconsistent⟩

theorem proper_of_read {d : Datum} {g : DuplicateGroup} (hd : d.Proper) (h : read d = .valid g) :
    g.toDatum.Proper := by
  have hsimilarity := of_field (fun v => isFloat_of_readFraction) hd (fields_of_read h).1
  have hlocations : ∀ l ∈ g.locations, l.toDatum.Proper := fun l _ => l.proper_toDatum
  simpa [toDatum, recordMembers, hsimilarity] using hlocations

end DuplicateGroup

end CodeHealth
