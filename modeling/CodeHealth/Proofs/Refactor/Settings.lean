import CodeHealth.Proofs.Refactor.Change
import CodeHealth.Proofs.Tree.Lines

/-!
# Changed settings

A configuration text is compared by the texts that its entries show: the value of a pair, and the
whole line of any other entry. The key of a pair is not shown, and a pair without a value shows
nothing. So two texts without a change may still hold different entries.
-/

namespace CodeHealth

open CodeHealth.Tree

namespace Config

/-! ## Entries -/

/-- The entry that a node was made of. -/
def entryOf (n : SyntaxNode) : Entry :=
  ⟨n.kind, n.name, n.text.getD ""⟩

/-- The entries of a text in order. -/
def entries (text : String) : List Entry :=
  (document text).children.map fun t => entryOf t.label

/-- What an entry shows. -/
def Entry.shown? (e : Entry) : Option String :=
  if e.text = "" then none else some e.text

/-- What an entry is besides the text it shows: its kind, and of a pair the key and whether there is
a value. -/
def Entry.outline (e : Entry) : String × Option (Option String × Bool) :=
  (e.kind, if e.kind = "pair" then some (e.name, e.shown?.isSome) else none)

/-- The texts that the entries show, in order. -/
def shownTexts (text : String) : List String :=
  (entries text).filterMap Entry.shown?

theorem Entry.text_eq_of_shown?_eq {e f : Entry} (h : e.shown? = f.shown?) : e.text = f.text := by
  unfold shown? at h
  split at h <;> split at h <;> simp_all

/-- An entry was read off a line that is not blank. -/
def Entry.IsRead (e : Entry) : Prop :=
  ∃ line, Text.strip line ≠ "" ∧ e = readLine line

theorem isRead_of_mem_entries {text : String} {e : Entry} (he : e ∈ entries text) : e.IsRead := by
  obtain ⟨t, ht, rfl⟩ := List.mem_map.mp he
  obtain ⟨i, offset, line, rfl, hline, -, -⟩ := exists_entryNode ht
  exact ⟨line, hline, rfl⟩

/-- The entry of a line that is shown whole. The name of a section is part of its line. -/
def Entry.whole (kind text : String) : Entry :=
  ⟨kind, if kind = "section" then some (String.ofList ((text.toList.drop 1).dropLast)) else none,
    text⟩

/-- A line is shown whole unless it holds a pair. -/
theorem readLine_cases (line : String) :
    (∃ kind, readLine line = .whole kind (Text.strip line)) ∨
      ∃ key value, readLine line = ⟨"pair", some key, value⟩ := by
  unfold readLine
  dsimp only
  split
  · exact .inl ⟨"comment", rfl⟩
  · split
    · exact .inl ⟨"section", rfl⟩
    · split
      · exact .inr ⟨_, _, rfl⟩
      · exact .inl ⟨"line", rfl⟩

theorem Entry.IsRead.exists_whole {e : Entry} (h : e.IsRead) (hkind : e.kind ≠ "pair") :
    ∃ kind text, text ≠ "" ∧ e = .whole kind text := by
  obtain ⟨line, hline, rfl⟩ := h
  rcases readLine_cases line with ⟨kind, hread⟩ | ⟨key, value, hread⟩
  · exact ⟨kind, _, hline, hread⟩
  · exact absurd (congrArg Entry.kind hread) hkind

/-- Only a pair can be without a text. -/
theorem Entry.IsRead.isSome_shown?_eq {e f : Entry} (he : e.IsRead) (hf : f.IsRead)
    (h : e.outline = f.outline) : e.shown?.isSome = f.shown?.isSome := by
  have hkind : e.kind = f.kind := congrArg Prod.fst h
  by_cases hpair : e.kind = "pair"
  · have hrest := congrArg Prod.snd h
    simp only [outline, hpair, hkind ▸ hpair, if_true, Option.some.injEq, Prod.mk.injEq] at hrest
    exact hrest.2
  · obtain ⟨kind, text, htext, rfl⟩ := he.exists_whole hpair
    obtain ⟨kind', text', htext', rfl⟩ := hf.exists_whole (hkind ▸ hpair)
    simp [shown?, whole, htext, htext']

theorem Entry.IsRead.eq_of_outline_eq {e f : Entry} (he : e.IsRead) (hf : f.IsRead)
    (h : e.outline = f.outline) (hshown : e.shown? = f.shown?) : e = f := by
  have hkind : e.kind = f.kind := congrArg Prod.fst h
  have htext : e.text = f.text := Entry.text_eq_of_shown?_eq hshown
  by_cases hpair : e.kind = "pair"
  · have hrest := congrArg Prod.snd h
    simp only [outline, hpair, hkind ▸ hpair, if_true, Option.some.injEq, Prod.mk.injEq] at hrest
    calc
      e = ⟨e.kind, e.name, e.text⟩ := rfl
      _ = ⟨f.kind, f.name, f.text⟩ := by rw [hkind, hrest.1, htext]
  · obtain ⟨kind, text, -, rfl⟩ := he.exists_whole hpair
    obtain ⟨kind', text', -, rfl⟩ := hf.exists_whole (hkind ▸ hpair)
    obtain rfl : kind = kind' := hkind
    obtain rfl : text = text' := htext
    rfl

/-- Where as many entries show a text, the texts tell which entry shows which. -/
theorem eq_of_map_outline_eq {es fs : List Entry} (hes : ∀ e ∈ es, e.IsRead)
    (hfs : ∀ f ∈ fs, f.IsRead) (houtline : es.map Entry.outline = fs.map Entry.outline)
    (hshown : es.filterMap Entry.shown? = fs.filterMap Entry.shown?) : es = fs := by
  induction es generalizing fs with
  | nil => exact (List.map_eq_nil_iff.mp houtline.symm).symm
  | cons e es ih =>
      cases fs with
      | nil => exact nomatch houtline
      | cons f fs =>
          rw [List.map_cons, List.map_cons, List.cons.injEq] at houtline
          rw [List.forall_mem_cons] at hes hfs
          have hsome := hes.1.isSome_shown?_eq hfs.1 houtline.1
          cases he : e.shown? with
          | none =>
              have hf : f.shown? = none := by simpa [he] using hsome
              rw [List.filterMap_cons_none he, List.filterMap_cons_none hf] at hshown
              rw [hes.1.eq_of_outline_eq hfs.1 houtline.1 (he.trans hf.symm),
                ih hes.2 hfs.2 houtline.2 hshown]
          | some s =>
              obtain ⟨s', hf⟩ : ∃ s', f.shown? = some s' := by
                rw [he] at hsome
                exact Option.isSome_iff_exists.mp hsome.symm
              rw [List.filterMap_cons_some he, List.filterMap_cons_some hf,
                List.cons.injEq] at hshown
              rw [hes.1.eq_of_outline_eq hfs.1 houtline.1 (by rw [he, hf, hshown.1]),
                ih hes.2 hfs.2 houtline.2 hshown.2]

/-! ## Units -/

theorem token?_entryNode (index offset : Nat) {line : String} (hline : Text.strip line ≠ "") :
    (entryNode index offset line).token? = (entryOf (entryNode index offset line)).shown? := by
  have hsize : line.utf8ByteSize ≠ 0 := by
    intro hzero
    obtain rfl := String.utf8ByteSize_eq_zero_iff.mp hzero
    exact hline (by decide)
  have hcovers : (entryNode index offset line).isEmpty = false := by
    simp only [SyntaxNode.isEmpty, entryNode, beq_eq_false_iff_ne]
    omega
  unfold SyntaxNode.token?
  rw [hcovers]
  by_cases htext : (readLine line).text = "" <;>
    simp [entryNode, entryOf, Entry.shown?, Option.filter, htext]

theorem placedTokens_document (text : String) :
    placedTokens (document text) = (document text).children.filterMap fun t =>
      (entryOf t.label).shown?.map fun s => ⟨t.label.startLine, 0, s⟩ := by
  have hleaves : ∀ t ∈ entriesFrom 1 0 (rawLines text), t.collect tokenStep 0 =
      ((entryOf t.label).shown?.map fun s => (⟨t.label.startLine, 0, s⟩ : PlacedToken)).toList := by
    intro t ht
    obtain ⟨i, offset, line, rfl, hline, -, -⟩ := exists_entryNode ht
    rw [collect_tokenStep_leaf, label, token?_entryNode i offset hline]
  have hdepth : (if scopeKinds.contains "document" then 0 + 1 else 0) = 0 := by decide
  rw [List.filterMap_eq_flatMap_toList]
  simp only [placedTokens, document, children]
  by_cases hnone : entriesFrom 1 0 (rawLines text) = []
  · rw [hnone, collect_tokenStep_leaf]
    simp [SyntaxNode.token?]
  · rw [collect_tokenStep_inner 0 _ hnone, hdepth]
    exact List.flatMap_congr hleaves

theorem pairwise_placedTokens_document (text : String) :
    ((placedTokens (document text)).map PlacedToken.line).Pairwise (· < ·) := by
  rw [placedTokens_document, List.pairwise_map]
  apply (pairwise_entriesFrom (rawLines text) 1 0).filterMap
  intro t u hlt a ha b hb
  obtain ⟨s, -, rfl⟩ := Option.map_eq_some_iff.mp ha
  obtain ⟨s', -, rfl⟩ := Option.map_eq_some_iff.mp hb
  exact hlt

/-- The units of a configuration text hold the shown texts and nothing else. -/
theorem map_key_document (text : String) :
    (lineUnits (document text)).map LineUnit.key = (shownTexts text).map fun s => (0, [s]) := by
  rw [lineUnits_eq_map (pairwise_placedTokens_document text), placedTokens_document, shownTexts,
    entries, List.map_map, List.map_filterMap, List.filterMap_map, List.map_filterMap]
  apply List.filterMap_congr
  intro t _
  simp only [Option.map_map, Function.comp_apply]
  rfl

theorem map_key_document_eq_iff {old new : String} :
    (lineUnits (document old)).map LineUnit.key = (lineUnits (document new)).map LineUnit.key ↔
      shownTexts old = shownTexts new := by
  have hinj : Function.Injective fun s : String => ((0, [s]) : Nat × List String) := by
    intro s s' h
    simpa using h
  rw [map_key_document, map_key_document]
  exact List.map_inj_right hinj

theorem length_lineUnits_document (text : String) :
    (lineUnits (document text)).length = (shownTexts text).length := by
  simpa using congrArg List.length (map_key_document text)

end Config

/-! ## Changes -/

open Config

/-- Two configuration texts within the budget have no change exactly when they show the same
texts. -/
theorem computeChanges_parseConfig_eq_nil_iff {old new oldPath newPath : String} {budget : Int} :
    computeChanges (parseConfig old oldPath) (parseConfig new newPath) budget = .ok [] ↔
      ((shownTexts old).length + (shownTexts new).length : Nat) ≤ budget ∧
        shownTexts old = shownTexts new := by
  rw [← map_key_document_eq_iff, ← length_lineUnits_document, ← length_lineUnits_document]
  constructor
  · intro hnone
    have hscript := editScript_of_computeChanges hnone
    have hbudget := le_of_computeChanges_eq_ok hnone
    exact ⟨hbudget, hscript.map_key_eq rfl⟩
  · rintro ⟨hbudget, hkeys⟩
    exact computeChanges_of_map_key_eq hkeys hbudget

/-- Configuration texts without a change hold the same entries exactly when these agree in kind, and
the pairs in their keys and in which of them have a value. -/
theorem entries_eq_iff_map_outline_eq {old new oldPath newPath : String} {budget : Int}
    (hunchanged : computeChanges (parseConfig old oldPath) (parseConfig new newPath) budget =
      .ok []) :
    entries old = entries new ↔
      (entries old).map Entry.outline = (entries new).map Entry.outline := by
  have hshown := (computeChanges_parseConfig_eq_nil_iff.mp hunchanged).2
  constructor
  · exact congrArg (List.map Entry.outline)
  · intro houtline
    exact eq_of_map_outline_eq (fun _ => isRead_of_mem_entries) (fun _ => isRead_of_mem_entries)
      houtline hshown

theorem entries_eq_of_respaced : entries "HOST=a\nTOKEN=\n" = entries "HOST : a,\n\nTOKEN=\n" := by
  have hunchanged : computeChanges (parseConfig "HOST=a\nTOKEN=\n" "app.env")
      (parseConfig "HOST : a,\n\nTOKEN=\n" "app.env") 20000 = .ok [] :=
    computeChanges_parseConfig_eq_nil_iff.mpr ⟨by decide +kernel, by decide +kernel⟩
  exact (entries_eq_iff_map_outline_eq hunchanged).mpr (by decide +kernel)

/-- A setting under another name is no change. -/
theorem renamed_setting_unchanged :
    computeChanges (parseConfig "DEBUG=1\n" "app.env") (parseConfig "TRACE=1\n" "app.env") 20000 =
        .ok [] ∧
      entries "DEBUG=1\n" ≠ entries "TRACE=1\n" := by
  refine ⟨computeChanges_parseConfig_eq_nil_iff.mpr ⟨by decide +kernel, by decide +kernel⟩, ?_⟩
  intro heq
  exact absurd (congrArg (List.map Entry.name) heq) (by decide +kernel)

end CodeHealth
