import CodeHealth.Datum.Reader
import CodeHealth.Proofs.Datum.Proper
import CodeHealth.Proofs.Number.Numeral

/-!
# Values that texts hold

Whatever is read from a text is a proper value: its decimals are rounded to finite 53-bit numbers,
and of two members of one name only one is kept.
-/

namespace CodeHealth.Datum

open Number

theorem proper_of_readNumber {d : Datum} {cs rest : List Char}
    (h : readNumber cs = some (d, rest)) : d.Proper := by
  unfold readNumber at h
  generalize splitMinus cs = parts at h
  dsimp only at h
  split at h
  · exact nomatch h
  split at h
  · obtain ⟨rfl, -⟩ := Prod.mk.inj (Option.some.inj h)
    exact .int _
  split at h
  · rename_i q hq
    obtain ⟨rfl, -⟩ := Prod.mk.inj (Option.some.inj h)
    have hfloat := isFloat_of_readUnsigned? hq
    split
    · exact .float hfloat.neg
    · exact .float hfloat
  · exact nomatch h

theorem proper_setMember {members : List (String × Datum)} (h : Proper (.object members))
    (name : String) {d : Datum} (hd : d.Proper) : Proper (.object (setMember members name d)) := by
  obtain ⟨hnames, hmembers⟩ := proper_object_iff.mp h
  unfold setMember
  split
  · refine proper_object_iff.mpr ⟨?_, ?_⟩
    · rw [List.map_map]
      have hkept : members.map (Prod.fst ∘ fun m => if m.1 == name then (m.1, d) else m) =
          members.map Prod.fst := by
        apply List.map_congr_left
        intro m _
        simp only [Function.comp_apply]
        split <;> rfl
      rwa [hkept]
    · intro m hm
      obtain ⟨e, he, rfl⟩ := List.mem_map.mp hm
      split
      · exact hd
      · exact hmembers e he
  · rename_i hnew
    have hname : name ∉ members.map Prod.fst := by
      simpa [List.any_eq_true] using hnew
    refine proper_object_iff.mpr ⟨?_, ?_⟩
    · rw [List.map_append, List.map_singleton]
      exact List.nodup_append.mpr ⟨hnames, List.nodup_singleton _, by
        rintro a ha b hb rfl
        have heq : a = name := List.mem_singleton.mp hb
        exact hname (heq ▸ ha)⟩
    · intro m hm
      rcases List.mem_append.mp hm with hm | hm
      · exact hmembers m hm
      · exact List.mem_singleton.mp hm ▸ hd

theorem proper_of_readWord {word : String} {value d : Datum} {cs rest : List Char}
    (hvalue : value.Proper) (h : readWord word value cs = some (d, rest)) : d.Proper := by
  unfold readWord at h
  split at h
  · obtain ⟨rfl, -⟩ := Prod.mk.inj (Option.some.inj h)
    exact hvalue
  · exact nomatch h

/-- What is read with some fuel is proper: a value, the items of a list, and the members of an
object behind proper ones. -/
structure ReadsProper (fuel : Nat) : Prop where
  value : ∀ {cs d rest}, readValue fuel cs = some (d, rest) → Proper d
  items : ∀ {cs items rest}, readItems fuel cs = some (items, rest) → Proper (.list items)
  members : ∀ {before cs members rest}, readMembers fuel before cs = some (members, rest) →
    Proper (.object before) → Proper (.object members)

theorem ReadsProper.readValue_succ {fuel : Nat} (h : ReadsProper fuel) {cs rest : List Char}
    {d : Datum} (hread : readValue (fuel + 1) cs = some (d, rest)) : d.Proper := by
  unfold readValue at hread
  split at hread
  · obtain ⟨p, -, heq⟩ := Option.map_eq_some_iff.mp hread
    obtain ⟨rfl, -⟩ := Prod.mk.inj heq
    exact .str p.1
  · split at hread
    · obtain ⟨rfl, -⟩ := Prod.mk.inj (Option.some.inj hread)
      exact .list nofun
    · obtain ⟨p, hitems, heq⟩ := Option.map_eq_some_iff.mp hread
      obtain ⟨rfl, -⟩ := Prod.mk.inj heq
      exact h.items hitems
  · split at hread
    · obtain ⟨rfl, -⟩ := Prod.mk.inj (Option.some.inj hread)
      exact .object List.nodup_nil nofun
    · obtain ⟨p, hmembers, heq⟩ := Option.map_eq_some_iff.mp hread
      obtain ⟨rfl, -⟩ := Prod.mk.inj heq
      exact h.members hmembers (.object List.nodup_nil nofun)
  · exact proper_of_readWord (.bool true) hread
  · exact proper_of_readWord (.bool false) hread
  · exact proper_of_readWord .null hread
  · exact proper_of_readNumber hread

theorem ReadsProper.readItems_succ {fuel : Nat} (h : ReadsProper fuel) {cs rest : List Char}
    {items : List Datum} (hread : readItems (fuel + 1) cs = some (items, rest)) :
    Proper (.list items) := by
  unfold readItems at hread
  split at hread
  · exact nomatch hread
  · rename_i item more hitem
    have hproper := h.value hitem
    split at hread
    · obtain ⟨p, hitems, heq⟩ := Option.map_eq_some_iff.mp hread
      obtain ⟨rfl, -⟩ := Prod.mk.inj heq
      have hrest := proper_list_iff.mp (h.items hitems)
      exact .list (List.forall_mem_cons.mpr ⟨hproper, hrest⟩)
    · obtain ⟨rfl, -⟩ := Prod.mk.inj (Option.some.inj hread)
      exact .list (List.forall_mem_singleton.mpr hproper)
    · exact nomatch hread

theorem ReadsProper.readMembers_succ {fuel : Nat} (h : ReadsProper fuel) {cs rest : List Char}
    {before members : List (String × Datum)} (hbefore : Proper (.object before))
    (hread : readMembers (fuel + 1) before cs = some (members, rest)) :
    Proper (.object members) := by
  unfold readMembers at hread
  split at hread
  · split at hread
    · exact nomatch hread
    · split at hread
      · split at hread
        · exact nomatch hread
        · rename_i hvalue
          have hset (name : String) := proper_setMember hbefore name (h.value hvalue)
          dsimp only at hread
          split at hread
          · exact h.members hread (hset _)
          · obtain ⟨rfl, -⟩ := Prod.mk.inj (Option.some.inj hread)
            exact hset _
          · exact nomatch hread
      · exact nomatch hread
  · exact nomatch hread

theorem readsProper (fuel : Nat) : ReadsProper fuel := by
  induction fuel with
  | zero => exact ⟨nofun, nofun, nofun⟩
  | succ fuel ih =>
      exact ⟨ih.readValue_succ, ih.readItems_succ, fun hread hbefore =>
        ih.readMembers_succ hbefore hread⟩

/-- Whatever a text holds is proper. -/
theorem proper_of_read? {s : String} {d : Datum} (h : read? s = some d) : d.Proper := by
  unfold read? at h
  dsimp only at h
  split at h
  · rename_i hread
    split at h
    · obtain rfl := Option.some.inj h
      exact (readsProper _).value hread
    · exact nomatch h
  · exact nomatch h

end CodeHealth.Datum
