import CodeHealth.Proofs.Record.Issue
import CodeHealth.Proofs.Refactor.Outcome

/-!
# Refactoring records read back

Line changes, outcomes of the steps of a verification, suggestions and requests are read back from
their records.
-/

namespace CodeHealth

open Schema Checked

/-! ## Tags -/

theorem ChangeType.ofTag?_tag (t : ChangeType) : ofTag? t.tag = some t := by
  cases t <;> decide

theorem LayerStatus.ofTag?_tag (s : LayerStatus) : ofTag? s.tag = some s := by
  cases s <;> decide

theorem Badge.ofTag?_tag (b : Badge) : ofTag? b.tag = some b := by
  cases b <;> decide

theorem readOptional_typeDatum (type : Option IssueType) :
    readOptional (readTag IssueType.ofTag? .enumeration) (typeDatum type) = .valid type :=
  readOptional_readTag IssueType.ofTag?_tag type

@[simp]
theorem proper_typeDatum (type : Option IssueType) : (typeDatum type).Proper :=
  Datum.proper_ofOption _

/-! ## Line changes -/

namespace LineChange

theorem read_toDatum {c : LineChange} (h : 1 ≤ c.lineNumber) : read c.toDatum = .valid c := by
  simp [read, readRecord, toDatum, field, fieldOr, Datum.get?_object_cons, readText,
    readOptional_ofOption, readNat_ofNat h, readTag_str (ChangeType.ofTag?_tag _)]

theorem lineNumber_pos_of_read {d : Datum} {c : LineChange} (h : read d = .valid c) :
    1 ≤ c.lineNumber := by
  cases c
  simp only [read, readRecord_eq_valid_iff, seq_eq_valid_iff, map_eq_valid_iff, exists_and_left,
    exists_exists_and_eq_and, exists_exists_and_exists_and_eq_and, ↓existsAndEq, and_true,
    LineChange.mk.injEq, exists_eq_right_right] at h
  obtain ⟨-, ⟨hnumber, -, -⟩, -⟩ := h
  exact (of_field_readNat hnumber).2.1

theorem proper_toDatum (c : LineChange) : c.toDatum.Proper := by
  simp [toDatum]

end LineChange

/-! ## Steps of a verification -/

namespace ValidationLayer

theorem read_toDatum (l : ValidationLayer) : read l.toDatum = .valid l := by
  simp [read, readRecord, toDatum, field, fieldOr, Datum.get?_object_cons, readText,
    readTag_str (LayerStatus.ofTag?_tag _)]

theorem proper_toDatum (l : ValidationLayer) : l.toDatum.Proper := by
  simp [toDatum]

end ValidationLayer

/-! ## Suggestions -/

namespace Suggestion

theorem read_toDatum {s : Suggestion} (h : s.Valid) : read s.toDatum = .valid s := by
  have hconfidence : readNat 0 (some 100) (.ofNat s.confidence) = .valid s.confidence :=
    readNat_ofNat (Nat.zero_le _) (by simpa using h.confidence_le)
  have hchanges : readList LineChange.read (.list (s.changes.map LineChange.toDatum)) =
      .valid s.changes :=
    readSequence_map fun c hc => LineChange.read_toDatum (h.lineNumber_pos c hc)
  have hlayers : readList ValidationLayer.read (.list (s.layers.map ValidationLayer.toDatum)) =
      .valid s.layers :=
    readSequence_map fun l _ => l.read_toDatum
  simp [read, readRecord, toDatum, recordMembers, field, fieldOr, Datum.get?_object_cons, readText,
    readBool, readOptional_ofOption, readOptional_typeDatum, hconfidence, hchanges, hlayers,
    readTag_str (Badge.ofTag?_tag _), readTag_str (ReviewStatus.ofTag?_tag _)]

theorem valid_of_read {d : Datum} {s : Suggestion} (h : read d = .valid s) : s.Valid := by
  cases s
  simp only [read, readRecord_eq_valid_iff, seq_eq_valid_iff, map_eq_valid_iff, exists_and_left,
    exists_exists_and_eq_and, exists_exists_and_exists_and_eq_and, ↓existsAndEq, and_true,
    Suggestion.mk.injEq, exists_eq_right_right] at h
  obtain ⟨-, ⟨⟨⟨⟨⟨-, hconfidence⟩, hchanges⟩, -⟩, -⟩, -⟩, -⟩ := h
  refine ⟨by exact_mod_cast (of_field_readNat hconfidence).2.2 100 rfl, fun c hc => ?_⟩
  rcases fieldOr_eq_valid_iff.mp hchanges with ⟨_, -, hread⟩ | ⟨-, rfl⟩
  · obtain ⟨item, hitem⟩ := exists_of_mem_readSequence hread hc
    exact LineChange.lineNumber_pos_of_read hitem
  · exact nomatch hc

theorem proper_toDatum (s : Suggestion) : s.toDatum.Proper := by
  have hchanges : ∀ c ∈ s.changes, c.toDatum.Proper := fun c _ => c.proper_toDatum
  have hlayers : ∀ l ∈ s.layers, l.toDatum.Proper := fun l _ => l.proper_toDatum
  simpa [toDatum, recordMembers] using ⟨hchanges, hlayers⟩

end Suggestion

/-! ## Requests -/

namespace VerificationRequest

/-- What a record of a request is checked for. -/
structure Valid (r : VerificationRequest) : Prop where
  confidence_le : ∀ n ∈ r.confidence, n ≤ 100

theorem read_toDatum {r : VerificationRequest} (h : r.Valid) : read r.toDatum = .valid r := by
  obtain ⟨oldCode, newCode, language, filePath, issueId, issueType, explanation, confidence⟩ := r
  cases confidence with
  | none =>
      simp [read, readRecord, toDatum, field, fieldOr, Datum.get?_object_cons, readText,
        readOptional_ofOption, readOptional_typeDatum, readOptional_null]
  | some n =>
      have hn : readNat 0 (some 100) (.ofNat n) = .valid n :=
        readNat_ofNat (Nat.zero_le _) (by simpa using h.confidence_le n rfl)
      have hconfidence : readOptional (readNat 0 (some 100)) (.ofNat n) = .valid (some n) :=
        congrArg (Functor.map some) hn
      simp [read, readRecord, toDatum, field, fieldOr, Datum.get?_object_cons, readText,
        readOptional_ofOption, readOptional_typeDatum, hconfidence]

theorem valid_of_read {d : Datum} {r : VerificationRequest} (h : read d = .valid r) : r.Valid := by
  cases r
  simp only [read, readRecord_eq_valid_iff, seq_eq_valid_iff, map_eq_valid_iff, exists_and_left,
    exists_exists_and_eq_and, exists_exists_and_exists_and_eq_and, ↓existsAndEq, and_true,
    VerificationRequest.mk.injEq, exists_eq_right_right] at h
  obtain ⟨-, -, hconfidence⟩ := h
  refine ⟨?_⟩
  rintro n rfl
  rcases fieldOr_eq_valid_iff.mp hconfidence with ⟨v, -, hread⟩ | ⟨-, h⟩
  · have hn := of_readOptional_some hread
    exact_mod_cast (of_readNat hn).2.2 100 rfl
  · exact nomatch h

theorem proper_toDatum (r : VerificationRequest) : r.toDatum.Proper := by
  obtain ⟨oldCode, newCode, language, filePath, issueId, issueType, explanation, confidence⟩ := r
  cases confidence <;> simp [toDatum]

end VerificationRequest

end CodeHealth
