import CodeHealth.Proofs.Except
import CodeHealth.Proofs.Project.Store
import CodeHealth.Proofs.Tree.Budget
import Mathlib.Data.List.Induction

/-!
# Stored and new trees

After any calls a stored tree is the one that was read for the text and the language of its file,
with the budget of the call that read it. So a store gives the tree that is read anew unless the two
budgets cut it differently.
-/

namespace CodeHealth

/-- A call on a store: for the tree of a file, which is read with a budget if need be, or to drop
trees. -/
inductive StoreCall where
  | getOrParse (projectId : String) (budget : Int) (f : SourceFile)
  | invalidate (projectId : String) (path : Option String)

def StoreCall.text? : StoreCall → Option String
  | .getOrParse _ _ f => some f.text
  | .invalidate _ _ => none

/-- The texts of the files in some calls. -/
def StoreCall.texts (calls : List StoreCall) : List String :=
  calls.filterMap text?

/-- No two of the texts have one digest. -/
def Digest.Separated (texts : List String) : Prop :=
  ∀ x ∈ texts, ∀ y ∈ texts, sha256Hex x = sha256Hex y → x = y

theorem Digest.Separated.mono {texts texts' : List String} (h : Separated texts')
    (hsub : texts ⊆ texts') : Separated texts :=
  fun x hx y hy => h x (hsub hx) y (hsub hy)

namespace TreeStore

variable {grammar : Grammar} {s s' : TreeStore} {projectId path : String} {budget : Int}
  {f : SourceFile} {calls : List StoreCall} {texts : List String}

/-- The store after a call. A text that cannot be read leaves it as it is. -/
def call (grammar : Grammar) (s : TreeStore) : StoreCall → TreeStore
  | .getOrParse projectId budget f =>
    match s.getOrParse grammar budget projectId f with
    | .ok (_, s') => s'
    | .error _ => s
  | .invalidate projectId path => (s.invalidate projectId path).2

/-- The store after some calls. -/
def after (grammar : Grammar) (calls : List StoreCall) : TreeStore :=
  calls.foldl (call grammar) empty

/-- The tree that a call gives for a file. -/
def treeFor (s : TreeStore) (grammar : Grammar) (budget : Int) (projectId : String)
    (f : SourceFile) : Except ParseError SourceTree :=
  (s.getOrParse grammar budget projectId f).map fun r => r.1.tree

/-- What a stored tree was read from. -/
structure Origin where
  text : String
  language : Language
  budget : Int

/-- Whether a tree of this origin is one of the file. -/
def Origin.isOf (o : Origin) (f : SourceFile) : Bool :=
  o.text == f.text && some o.language == f.language

/-- The origin of the tree of a path after one more call. It changes if the tree is dropped, or if
another text is read or the same one in another language. -/
def originStep (grammar : Grammar) (projectId path : String) (o : Option Origin) :
    StoreCall → Option Origin
  | .getOrParse projectId' budget f =>
    if projectId' = projectId ∧ f.path = path then
      if o.any (·.isOf f) then o
      else
        match parseAs grammar budget f.text f.language path with
        | .ok tree => some ⟨f.text, tree.language, budget⟩
        | .error _ => o
    else o
  | .invalidate projectId' path' =>
    if projectId' = projectId ∧ path'.all (path == ·) then none else o

/-- The origin of the tree of a path after some calls. -/
def origin? (grammar : Grammar) (projectId path : String) (calls : List StoreCall) :
    Option Origin :=
  calls.foldl (originStep grammar projectId path) none

/-- The budget that the tree of a file was or is read with: that of the stored tree if it is one of
the file, and otherwise the given one. -/
def usedBudget (grammar : Grammar) (calls : List StoreCall) (projectId : String) (budget : Int)
    (f : SourceFile) : Int :=
  (((origin? grammar projectId f.path calls).filter (·.isOf f)).map Origin.budget).getD budget

/-! ## Single calls -/

/-- A call gives the current entry, or it reads the file and stores its tree. -/
theorem getOrParse_cases {found : Found}
    (h : s.getOrParse grammar budget projectId f = .ok (found, s')) :
    (∃ e, s.entry? projectId f.path = some e ∧ StoreEntry.isCurrent e f = true ∧
        found.tree = e.tree ∧ s'.entries = s.entries) ∨
      ((∀ e, s.entry? projectId f.path = some e → StoreEntry.isCurrent e f = false) ∧
        parseAs grammar budget f.text f.language f.path = .ok found.tree ∧
        s'.entries = (s.insert ⟨projectId, f.path, found.tree, Digest.sha256Hex f.text,
          found.tree.language⟩).entries) := by
  unfold getOrParse at h
  split at h
  · rename_i e he
    obtain ⟨rfl, rfl⟩ := Prod.mk.inj (Except.ok.inj h)
    obtain ⟨hentry, hcurrent⟩ := Option.filter_eq_some_iff.mp he
    exact Or.inl ⟨e, hentry, hcurrent, rfl, rfl⟩
  · rename_i hnone
    obtain ⟨tree, htree, heq⟩ := map_eq_ok_iff.mp h
    obtain ⟨rfl, rfl⟩ := Prod.mk.inj heq
    refine Or.inr ⟨fun e he => ?_, htree, rfl⟩
    simpa [he] using hnone

/-- A call fails if the file has to be read and cannot be. -/
theorem getOrParse_eq_error {e : ParseError}
    (h : s.getOrParse grammar budget projectId f = .error e) :
    (∀ e, s.entry? projectId f.path = some e → StoreEntry.isCurrent e f = false) ∧
      parseAs grammar budget f.text f.language f.path = .error e := by
  unfold getOrParse at h
  split at h
  · exact nomatch h
  · rename_i hnone
    refine ⟨fun e he => ?_, map_eq_error_iff.mp h⟩
    simpa [he] using hnone

theorem treeFor_of_current {e : StoreEntry} (hentry : s.entry? projectId f.path = some e)
    (hcurrent : StoreEntry.isCurrent e f = true) :
    s.treeFor grammar budget projectId f = .ok e.tree := by
  unfold treeFor getOrParse
  rw [hentry, Option.filter_some, if_pos hcurrent]
  rfl

theorem treeFor_of_stale
    (h : ∀ e, s.entry? projectId f.path = some e → StoreEntry.isCurrent e f = false) :
    s.treeFor grammar budget projectId f = parseAs grammar budget f.text f.language f.path := by
  have hnone : (s.entry? projectId f.path).filter (fun e => StoreEntry.isCurrent e f) = none := by
    rw [Option.filter_eq_none_iff]
    exact fun e he => Bool.not_eq_true _ ▸ h e he
  unfold treeFor getOrParse
  rw [hnone]
  cases parseAs grammar budget f.text f.language f.path <;> rfl

theorem entry?_congr (h : s'.entries = s.entries) (projectId path : String) :
    TreeStore.entry? s' projectId path = s.entry? projectId path := by
  unfold entry?
  rw [h]

/-- A call for a file leaves the entries of other files. -/
theorem entry?_getOrParse_of_ne {found : Found} {projectId' : String}
    (h : s.getOrParse grammar budget projectId' f = .ok (found, s'))
    (hkey : ¬ (projectId' = projectId ∧ f.path = path)) :
    TreeStore.entry? s' projectId path = s.entry? projectId path := by
  rcases getOrParse_cases h with ⟨-, -, -, -, hsame⟩ | ⟨-, -, hstored⟩
  · exact entry?_congr hsame projectId path
  · rw [entry?_congr hstored, entry?_insert, if_neg fun hsome => hkey (hasKey_iff.mp hsome)]

theorem entry?_invalidate (s : TreeStore) (projectId projectId' path : String)
    (path' : Option String) :
    TreeStore.entry? (s.invalidate projectId' path').2 projectId path =
      if projectId' = projectId ∧ path'.all (path == ·) then none
      else s.entry? projectId path := by
  unfold entry? invalidate
  rw [List.find?_filter]
  split
  · rename_i hdropped
    rw [List.find?_eq_none]
    intro e _ hkept
    simp only [matchesKey, hasKey, Bool.and_eq_true, Bool.not_eq_true', beq_iff_eq,
      decide_eq_true_eq] at hkept
    obtain ⟨hmatch, rfl, rfl⟩ := hkept
    simp [hdropped] at hmatch
  · rename_i hkeeps
    congr 1
    funext e
    rw [Bool.eq_iff_iff]
    simp only [matchesKey, hasKey, Bool.and_eq_true, Bool.not_eq_true', beq_iff_eq,
      decide_eq_true_eq]
    refine ⟨And.right, fun hkey => ⟨?_, hkey⟩⟩
    obtain ⟨rfl, rfl⟩ := hkey
    rw [← Bool.not_eq_true, Bool.and_eq_true, beq_iff_eq]
    exact fun hmatch => hkeeps ⟨hmatch.1.symm, hmatch.2⟩

/-! ## All calls -/

/-- The entry of a path was read from the origin. -/
structure Origin.Explains (o : Origin) (grammar : Grammar) (path : String) (e : StoreEntry) :
    Prop where
  tree : parseAs grammar o.budget o.text (some o.language) path = .ok e.tree
  digest : e.digest = Digest.sha256Hex o.text
  language : e.language = o.language

theorem Origin.Explains.isCurrent_eq {o : Origin} {e : StoreEntry} (h : o.Explains grammar path e)
    (hfree : Digest.sha256Hex o.text = Digest.sha256Hex f.text → o.text = f.text) :
    StoreEntry.isCurrent e f = o.isOf f := by
  have htext : (e.digest == Digest.sha256Hex f.text) = (o.text == f.text) := by
    rw [h.digest, Bool.eq_iff_iff, beq_iff_eq, beq_iff_eq]
    exact ⟨hfree, congrArg _⟩
  unfold StoreEntry.isCurrent Origin.isOf
  rw [htext, h.language]

/-- A path has the entry that its origin explains, and none without an origin. -/
def Tracks (grammar : Grammar) (projectId path : String) (s : TreeStore) : Option Origin → Prop
  | none => s.entry? projectId path = none
  | some o => ∃ e, s.entry? projectId path = some e ∧ o.Explains grammar path e

theorem Tracks.congr {o : Option Origin} (h : Tracks grammar projectId path s o)
    (hentry : TreeStore.entry? s' projectId path = s.entry? projectId path) :
    Tracks grammar projectId path s' o := by
  cases o with
  | none => exact hentry.trans h
  | some o =>
      obtain ⟨e, he, hexplains⟩ := h
      exact ⟨e, hentry.trans he, hexplains⟩

theorem Tracks.isCurrent_iff {o : Option Origin} (h : Tracks grammar projectId f.path s o)
    (hfree : ∀ o' ∈ o, Digest.sha256Hex o'.text = Digest.sha256Hex f.text → o'.text = f.text) :
    (∃ e, s.entry? projectId f.path = some e ∧ StoreEntry.isCurrent e f = true) ↔
      o.any (·.isOf f) = true := by
  cases o with
  | none =>
      rw [show s.entry? projectId f.path = none from h]
      simp
  | some o =>
      obtain ⟨e, he, hexplains⟩ := h
      simp [he, hexplains.isCurrent_eq (hfree o rfl)]

/-- A call keeps track of the origin of a path. -/
theorem Tracks.call {o : Option Origin} (h : Tracks grammar projectId path s o) (c : StoreCall)
    (hfree : ∀ o' ∈ o, ∀ text ∈ c.text?,
      Digest.sha256Hex o'.text = Digest.sha256Hex text → o'.text = text) :
    Tracks grammar projectId path (s.call grammar c) (originStep grammar projectId path o c) := by
  unfold originStep TreeStore.call
  cases c with
  | invalidate projectId' path' =>
      have hentry := entry?_invalidate s projectId projectId' path path'
      dsimp only
      split
      · rename_i hdropped
        rwa [if_pos hdropped] at hentry
      · rename_i hkeeps
        rw [if_neg hkeeps] at hentry
        exact h.congr hentry
  | getOrParse projectId' budget f =>
      dsimp only
      by_cases hkey : projectId' = projectId ∧ f.path = path
      · rw [if_pos hkey]
        obtain ⟨rfl, rfl⟩ := hkey
        have hcurrent := h.isCurrent_iff fun o' ho' => hfree o' ho' f.text rfl
        cases hcall : s.getOrParse grammar budget projectId' f with
        | error e =>
            rw [(getOrParse_eq_error hcall).2, ite_self]
            exact h
        | ok result =>
            rcases getOrParse_cases hcall with
              ⟨e, hentry, he, -, hsame⟩ | ⟨hstale, hread, hstored⟩
            · rw [if_pos (hcurrent.mp ⟨e, hentry, he⟩)]
              exact h.congr (entry?_congr hsame _ _)
            · have hold : ¬ o.any (·.isOf f) = true := by
                rw [← hcurrent]
                rintro ⟨e, hentry, he⟩
                exact nomatch he.symm.trans (hstale e hentry)
              rw [if_neg hold, hread]
              have hnew : TreeStore.entry? result.2 projectId' f.path = some ⟨projectId', f.path,
                  result.1.tree, Digest.sha256Hex f.text, result.1.tree.language⟩ :=
                (entry?_congr hstored _ _).trans (entry?_insert_self _ _)
              rw [language_of_parseAs hread] at hread
              exact ⟨_, hnew, hread, rfl, rfl⟩
      · rw [if_neg hkey]
        cases hcall : s.getOrParse grammar budget projectId' f with
        | error e => exact h
        | ok result => exact h.congr (entry?_getOrParse_of_ne hcall hkey)

/-- A text that a tree was read from is one of those in the calls. -/
theorem text_mem_of_origin? {o : Origin} (h : origin? grammar projectId path calls = some o) :
    o.text ∈ StoreCall.texts calls := by
  unfold StoreCall.texts
  induction calls using List.reverseRecOn with
  | nil => exact nomatch h
  | append_singleton calls c ih =>
      rw [List.filterMap_append, List.mem_append]
      have hlast : origin? grammar projectId path (calls ++ [c]) =
          originStep grammar projectId path (origin? grammar projectId path calls) c := by
        simp [origin?]
      rw [hlast] at h
      cases c with
      | invalidate projectId' path' =>
          unfold originStep at h
          dsimp only at h
          split at h
          · exact nomatch h
          · exact Or.inl (ih h)
      | getOrParse projectId' budget f =>
          unfold originStep at h
          dsimp only at h
          split at h
          · split at h
            · exact Or.inl (ih h)
            · split at h
              · obtain rfl := Option.some.inj h
                exact Or.inr (List.mem_singleton_self _)
              · exact Or.inl (ih h)
          · exact Or.inl (ih h)

/-- Each stored tree has an origin among the calls. -/
theorem tracks_after (hfree : Digest.Separated (StoreCall.texts calls))
    (projectId path : String) :
    Tracks grammar projectId path (after grammar calls)
      (origin? grammar projectId path calls) := by
  induction calls using List.reverseRecOn with
  | nil => rfl
  | append_singleton calls c ih =>
      have htexts : StoreCall.texts (calls ++ [c]) = StoreCall.texts calls ++ c.text?.toList := by
        unfold StoreCall.texts
        rw [List.filterMap_append]
        cases h : c.text? <;> simp [h]
      rw [htexts] at hfree
      have hbefore := ih (hfree.mono (List.subset_append_left _ _))
      have hcall := hbefore.call c fun o ho text htext =>
        hfree o.text (List.mem_append_left _ (text_mem_of_origin? ho)) text
          (List.mem_append_right _ (Option.mem_toList.mpr htext))
      simpa [after, origin?] using hcall

/-! ## Transparency -/

/-- Whatever was called before, a call gives the tree that is read for the file with the budget that
was used for it. -/
theorem treeFor_after (hfree : Digest.Separated (f.text :: StoreCall.texts calls)) :
    (after grammar calls).treeFor grammar budget projectId f =
      parseAs grammar (usedBudget grammar calls projectId budget f) f.text f.language f.path := by
  have htracks : Tracks grammar projectId f.path _ _ :=
    tracks_after (hfree.mono (List.subset_cons_self _ _)) projectId f.path
  unfold usedBudget
  cases horigin : origin? grammar projectId f.path calls with
  | none =>
      rw [horigin] at htracks
      have hnone : TreeStore.entry? (after grammar calls) projectId f.path = none := htracks
      apply treeFor_of_stale
      rw [hnone]
      exact fun e he => nomatch he
  | some o =>
      rw [horigin] at htracks
      obtain ⟨e, hentry, hexplains⟩ := htracks
      have hcurrent := hexplains.isCurrent_eq
        (hfree o.text (List.mem_cons_of_mem _ (text_mem_of_origin? horigin)) f.text
          List.mem_cons_self)
      rw [Option.filter_some]
      by_cases hof : o.isOf f = true
      · rw [if_pos hof, treeFor_of_current hentry (hcurrent.trans hof)]
        unfold Origin.isOf at hof
        rw [Bool.and_eq_true, beq_iff_eq, beq_iff_eq] at hof
        rw [← hof.1, ← hof.2]
        exact hexplains.tree.symm
      · rw [if_neg hof]
        apply treeFor_of_stale
        intro e' he'
        obtain rfl := Option.some.inj (hentry.symm.trans he')
        rw [hcurrent, ← Bool.not_eq_true]
        exact hof

/-- It is the tree that is read with the given budget just if the two cut the file in the same
place. -/
theorem treeFor_after_iff (hfree : Digest.Separated (f.text :: StoreCall.texts calls)) :
    (after grammar calls).treeFor grammar budget projectId f =
        parseAs grammar budget f.text f.language f.path ↔
      f.SameCut grammar (usedBudget grammar calls projectId budget f) budget := by
  rw [treeFor_after hfree, parseAs_eq_iff]

end TreeStore

end CodeHealth
