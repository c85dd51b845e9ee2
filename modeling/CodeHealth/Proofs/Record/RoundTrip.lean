import CodeHealth.Proofs.Datum.Reader
import CodeHealth.Proofs.Record.Options
import CodeHealth.Proofs.Record.Refactoring
import CodeHealth.Proofs.Record.Review

/-!
# Accepted records are read back

Whatever is accepted as a record is given back by the record that is written of it, as a value and
as a text, before and after reviews.
-/

namespace CodeHealth

open Schema Checked

/-- What is written of a record is read as the record again: as a value, and also as a text if the
record was read from a proper value. -/
structure Restored {α : Type} (read : Reader α) (write : α → Datum) (source : Datum) (a : α) :
    Prop where
  value : read (write a) = .valid a
  text : source.Proper → (Datum.read? (write a).print).map read = some (.valid a)

theorem restored_of_proper {α : Type} {read : Reader α} {write : α → Datum} {source : Datum} {a : α}
    (hvalue : read (write a) = .valid a) (hproper : source.Proper → (write a).Proper) :
    Restored read write source a where
  value := hvalue
  text hsource := by
    rw [(hproper hsource).read?_print, Option.map_some, hvalue]

namespace Issue

/-- What holds of every accepted issue: its confidence and its lines are the numbers it was read
from, the lines are in order and count from one, the confidence is a percentage, and the metadata is
of the family of its type or generic, which the record tells. -/
structure Sound (source : Datum) (i : Issue) : Prop where
  confidence : field source "confidence" readInt = .valid (i.confidence : Int)
  confidence_le : i.confidence ≤ 100
  lineStart : field source "line_start" readInt = .valid (i.lineStart : Int)
  lineEnd : field source "line_end" readInt = .valid (i.lineEnd : Int)
  lineStart_pos : 1 ≤ i.lineStart
  lines : i.lineStart ≤ i.lineEnd
  family : i.metadata.family = i.type.family ∨ i.metadata.family = .generic
  kind : (i.toDatum.get? "metadata").bind (Datum.get? "kind") = some (.str i.metadata.family.tag)

variable {source : Datum} {i : Issue}

theorem sound_of_read (h : read source = .valid i) : Sound source i := by
  obtain ⟨hconfidence, hstart, hend, -, hconsistent⟩ := fields_of_read h
  obtain ⟨hconfidence, -, hmost⟩ := of_field_readNat hconfidence
  obtain ⟨hstart, hpos, -⟩ := of_field_readNat hstart
  unfold isConsistent at hconsistent
  simp only [Bool.and_eq_true, decide_eq_true_eq, Bool.or_eq_true, beq_iff_eq] at hconsistent
  exact ⟨hconfidence, by exact_mod_cast hmost 100 rfl, hstart, (of_field_readNat hend).1, hpos,
    hconsistent.1, hconsistent.2, i.metadata.get?_kind⟩

theorem Sound.put_status (h : Sound source i) (s : ReviewStatus) :
    Sound source { i with status := s } :=
  ⟨h.confidence, h.confidence_le, h.lineStart, h.lineEnd, h.lineStart_pos, h.lines, h.family,
    i.metadata.get?_kind⟩

theorem restored_of_read (h : read source = .valid i) (s : ReviewStatus) :
    Restored read toDatum source { i with status := s } := by
  have hi := valid_of_read h
  have hvalid : Valid { i with status := s } :=
    ⟨hi.confidence_le, hi.lineStart_pos, hi.isConsistent, hi.metadata⟩
  refine restored_of_proper (read_toDatum hvalid) fun hsource => ?_
  exact proper_toDatum_iff.mpr (proper_toDatum_iff (i := i) |>.mp (proper_of_read hsource h))

end Issue

theorem Suggestion.restored_of_read {source : Datum} {s : Suggestion}
    (h : read source = .valid s) (new : ReviewStatus) :
    Restored read toDatum source { s with status := new } := by
  have hs := valid_of_read h
  have hvalid : Valid { s with status := new } := ⟨hs.confidence_le, hs.lineNumber_pos⟩
  exact restored_of_proper (read_toDatum hvalid) fun _ => proper_toDatum _

/-- Every accepted record is restored, options if their thresholds are finite, and the values that
texts hold are proper. An issue or a suggestion is moved on at most once, with no change but that of
its status, and what holds of it when it is accepted holds ever after. -/
theorem accepted_restored (source : Datum) :
    (∀ text, Datum.read? text = some source → source.Proper) ∧
    (∀ i, Issue.read source = .valid i → ∀ attempts,
      let after := review Issue.withStatus i attempts
      Restored Issue.read Issue.toDatum source after.record ∧ after.record.Sound source ∧
        after.moves.length ≤ 1 ∧ after.record = { i with status := after.record.status }) ∧
    (∀ s, Suggestion.read source = .valid s → ∀ attempts,
      let after := review Suggestion.withStatus s attempts
      Restored Suggestion.read Suggestion.toDatum source after.record ∧
        after.moves.length ≤ 1 ∧ after.record = { s with status := after.record.status }) ∧
    (∀ g, DuplicateGroup.read source = .valid g →
      Restored DuplicateGroup.read DuplicateGroup.toDatum source g) ∧
    (∀ c, LineChange.read source = .valid c →
      Restored LineChange.read LineChange.toDatum source c) ∧
    (∀ l, ValidationLayer.read source = .valid l →
      Restored ValidationLayer.read ValidationLayer.toDatum source l) ∧
    (∀ r, VerificationRequest.read source = .valid r →
      Restored VerificationRequest.read VerificationRequest.toDatum source r) ∧
    (∀ o, Options.read source = .valid o → o.FiniteThresholds →
      Restored Options.read Options.toDatum source o) := by
  refine ⟨fun _ => Datum.proper_of_read?, fun i hi attempts => ?_, fun s hs attempts => ?_,
    fun g hg => ?_, fun c hc => ?_, fun l _ => ?_, fun r hr => ?_, fun o ho hfinite => ?_⟩
  · have hrecord := Issue.movesOn.record_eq i attempts
    refine ⟨?_, ?_, Issue.movesOn.length_moves_le i attempts, hrecord⟩
    · rw [hrecord]
      exact Issue.restored_of_read hi _
    · rw [hrecord]
      exact (Issue.sound_of_read hi).put_status _
  · have hrecord := Suggestion.movesOn.record_eq s attempts
    refine ⟨?_, Suggestion.movesOn.length_moves_le s attempts, hrecord⟩
    rw [hrecord]
    exact Suggestion.restored_of_read hs _
  · exact restored_of_proper (DuplicateGroup.read_toDatum (DuplicateGroup.valid_of_read hg))
      fun hsource => DuplicateGroup.proper_of_read hsource hg
  · exact restored_of_proper (LineChange.read_toDatum (LineChange.lineNumber_pos_of_read hc))
      fun _ => c.proper_toDatum
  · exact restored_of_proper l.read_toDatum fun _ => l.proper_toDatum
  · have hvalid := VerificationRequest.valid_of_read hr
    exact restored_of_proper (VerificationRequest.read_toDatum hvalid) fun _ => r.proper_toDatum
  · exact restored_of_proper (Options.read_toDatum hfinite)
      fun hsource => Options.proper_of_read hsource ho

/-- An issue with a confidence in a text, a first line in a truth value and a last line in a
decimal. -/
def lenientSource : Datum :=
  .object [("type", .str "duplicate_code"), ("severity", .str "low"), ("confidence", .str " 90 "),
    ("file_path", .str "a.py"), ("line_start", .bool true), ("line_end", .float 3),
    ("description", .str "twice"),
    ("metadata", .object [("kind", .str "duplicate"), ("match_type", .str "structural"),
      ("similarity", .float 1), ("group_size", .str "2"), ("line_count", .int 3),
      ("token_count", .int 20)])]

def lenientIssue : Issue :=
  ⟨none, .duplicateCode, .low, 90, "a.py", 1, 3, none, none, "twice", "", "", none,
    .duplicate .structural 1 2 3 20, .pending⟩

/-- The issue is moved on by the second of three attempts, and its text is read back after that. -/
theorem lenientIssue_restored :
    Issue.read lenientSource = .valid lenientIssue ∧ lenientSource.Proper ∧
      let after := review Issue.withStatus lenientIssue [.pending, .accepted, .rejected]
      after.moves = [.accepted] ∧
        (Datum.read? after.record.toDatum.print).map Issue.read = some (.valid after.record) := by
  have hread : Issue.read lenientSource = .valid lenientIssue := rfl
  have hthree : Number.IsFloat 3 := Number.isFloat_natCast (n := 3) (by norm_num)
  have hproper : lenientSource.Proper := by
    simp [lenientSource, hthree, Number.isFloat_one]
  have hafter := (accepted_restored lenientSource).2.1 lenientIssue hread
    [.pending, .accepted, .rejected]
  exact ⟨hread, hproper, rfl, hafter.1.text hproper⟩

end CodeHealth
