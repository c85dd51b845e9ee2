import CodeHealth.Proofs.Tree.Parse
import CodeHealth.Security.Scanner
import Mathlib.Data.List.Induction
import Mathlib.Data.List.Nodup

/-!
# Names bound to credentials

One pass over a tree collects the names bound to credentials. It finds exactly those to which a
chain of bindings leads: a literal that looks like a credential is bound to the first name, and each
later binding of the walk copies the name before. A logging call shows a credential exactly if its
arguments refer to such a name.
-/

namespace CodeHealth

/-- The issue is about a value that was bound to a credential. -/
def Issue.isDerived (issue : Issue) : Bool :=
  match issue.metadata with
  | .security _ _ derived => derived
  | _ => false

namespace Security

variable {scanner : Scanner} {ast : SourceTree} {context : FileContext} {t : Tree SyntaxNode}
  {steps nodes : List (Tree SyntaxNode)} {tainted : List String} {b : Binding} {name : String}

/-! ## Chains of bindings -/

/-- The text of a binding as a rule reads it. -/
def Binding.statement (ast : SourceTree) (b : Binding) : String :=
  ast.textOf b.target ++ " = " ++ ast.textOf b.value

/-- A string literal that looks like a credential is bound: it is no placeholder and not too short,
and its name speaks of a credential or a rule for credentials or secrets matches the statement. -/
structure Scanner.BindsLiteral (scanner : Scanner) (ast : SourceTree) (b : Binding) : Prop where
  isString : b.value.kind ∈ stringKinds
  long : 4 ≤ (stripQuotes (ast.textOf b.value)).length
  notPlaceholder : isPlaceholder (stripQuotes (ast.textOf b.value)) = false
  shaped : isSensitiveName (ast.textOf b.target) = true ∨
    ∃ rule ∈ scanner.rules, rule.family.isConfidential = true ∧
      rule.pattern.occursIn (b.statement ast) = true

/-- What is bound is a reference with the given text. -/
structure Binding.Copies (ast : SourceTree) (b : Binding) (name : String) : Prop where
  isReference : b.value.kind ∈ referenceKinds
  text_eq : ast.textOf b.value = name

/-- Some nodes, one after the other, bind a credential to a name: the first one binds the literal,
each later one copies the name that the one before it binds, and the last one binds the name. -/
inductive Scanner.Carries (scanner : Scanner) (ast : SourceTree) :
    List (Tree SyntaxNode) → String → Prop where
  | literal {t : Tree SyntaxNode} {b : Binding} (hb : binding? t = some b)
      (hliteral : scanner.BindsLiteral ast b) : Carries scanner ast [t] (ast.textOf b.target)
  | copy {steps : List (Tree SyntaxNode)} {name : String} {t : Tree SyntaxNode} {b : Binding}
      (hsteps : Carries scanner ast steps name) (hb : binding? t = some b)
      (hcopy : b.Copies ast name) : Carries scanner ast (steps ++ [t]) (ast.textOf b.target)

theorem Scanner.Carries.ne_nil (h : scanner.Carries ast steps name) : steps ≠ [] := by
  cases h with
  | literal hb hliteral => exact List.cons_ne_nil _ _
  | copy hsteps hb hcopy => simp

/-- The last node of a chain binds the literal itself or copies a name that the nodes before it
bind to one. -/
theorem carries_concat_iff :
    scanner.Carries ast (steps ++ [t]) name ↔
      ∃ b, binding? t = some b ∧ ast.textOf b.target = name ∧
        (steps = [] ∧ scanner.BindsLiteral ast b ∨
          ∃ copied, scanner.Carries ast steps copied ∧ b.Copies ast copied) := by
  constructor
  · intro h
    generalize hall : steps ++ [t] = all at h
    cases h with
    | @literal u b hb hliteral =>
        have hsingle : steps ++ [t] = [] ++ [u] := hall
        obtain ⟨rfl, hlast⟩ := List.append_inj' hsingle rfl
        obtain rfl : t = u := List.singleton_inj.mp hlast
        exact ⟨b, hb, rfl, Or.inl ⟨rfl, hliteral⟩⟩
    | @copy before copied u b hbefore hb hcopy =>
        obtain ⟨rfl, hlast⟩ := List.append_inj' hall rfl
        obtain rfl : t = u := List.singleton_inj.mp hlast
        exact ⟨b, hb, rfl, Or.inr ⟨copied, hbefore, hcopy⟩⟩
  · rintro ⟨b, hb, rfl, ⟨rfl, hliteral⟩ | ⟨copied, hsteps, hcopy⟩⟩
    · exact .literal hb hliteral
    · exact .copy hsteps hb hcopy

/-! ## One binding -/

theorem isCredential_iff :
    scanner.isCredential (ast.textOf b.target) (ast.textOf b.value) = true ↔
      4 ≤ (stripQuotes (ast.textOf b.value)).length ∧
        isPlaceholder (stripQuotes (ast.textOf b.value)) = false ∧
          (isSensitiveName (ast.textOf b.target) = true ∨
            ∃ rule ∈ scanner.rules, rule.family.isConfidential = true ∧
              rule.pattern.occursIn (b.statement ast) = true) := by
  unfold Scanner.isCredential Binding.statement
  simp only [Bool.and_eq_true, Bool.not_eq_true', Bool.or_eq_false_iff, decide_eq_false_iff_not,
    Nat.not_lt, Bool.or_eq_true, List.any_eq_true, List.mem_filter]
  constructor
  · rintro ⟨⟨hplaceholder, hlong⟩, hname | ⟨rule, ⟨hrule, hfamily⟩, hmatch⟩⟩
    · exact ⟨hlong, hplaceholder, Or.inl hname⟩
    · exact ⟨hlong, hplaceholder, Or.inr ⟨rule, hrule, hfamily, hmatch⟩⟩
  · rintro ⟨hlong, hplaceholder, hname | ⟨rule, hrule, hfamily, hmatch⟩⟩
    · exact ⟨⟨hplaceholder, hlong⟩, Or.inl hname⟩
    · exact ⟨⟨hplaceholder, hlong⟩, Or.inr ⟨rule, ⟨hrule, hfamily⟩, hmatch⟩⟩

/-- A string literal is no reference. -/
theorem not_mem_referenceKinds_of_mem_stringKinds :
    ∀ kind ∈ stringKinds, kind ∉ referenceKinds := by
  decide

theorem bindsCredential_iff :
    scanner.bindsCredential ast tainted b = true ↔
      scanner.BindsLiteral ast b ∨ ∃ name ∈ tainted, b.Copies ast name := by
  unfold Scanner.bindsCredential
  split
  · rename_i hstring
    rw [List.contains_iff_mem] at hstring
    rw [isCredential_iff]
    constructor
    · rintro ⟨hlong, hplaceholder, hshaped⟩
      exact Or.inl ⟨hstring, hlong, hplaceholder, hshaped⟩
    · rintro (hliteral | ⟨name, -, hcopy⟩)
      · exact ⟨hliteral.long, hliteral.notPlaceholder, hliteral.shaped⟩
      · exact absurd hcopy.isReference (not_mem_referenceKinds_of_mem_stringKinds _ hstring)
  · rename_i hstring
    rw [List.contains_iff_mem] at hstring
    rw [Bool.and_eq_true, List.contains_iff_mem, List.contains_iff_mem]
    constructor
    · rintro ⟨hreference, htainted⟩
      exact Or.inr ⟨_, htainted, hreference, rfl⟩
    · rintro (hliteral | ⟨name, htainted, hcopy⟩)
      · exact absurd hliteral.isString hstring
      · exact ⟨hcopy.isReference, hcopy.text_eq ▸ htainted⟩

/-- Adds the name of a binding that binds a credential. -/
def Scanner.follow (scanner : Scanner) (ast : SourceTree) (tainted : List String) (b : Binding) :
    List String :=
  if scanner.bindsCredential ast tainted b && !tainted.contains (ast.textOf b.target) then
    tainted ++ [ast.textOf b.target]
  else tainted

theorem mem_follow_iff :
    name ∈ scanner.follow ast tainted b ↔
      name ∈ tainted ∨ scanner.bindsCredential ast tainted b = true ∧
        ast.textOf b.target = name := by
  unfold Scanner.follow
  by_cases hbinds : scanner.bindsCredential ast tainted b = true
  · by_cases hknown : ast.textOf b.target ∈ tainted
    · simp only [hbinds, List.contains_iff_mem.mpr hknown, Bool.not_true, Bool.and_false,
        Bool.false_eq_true, if_false, true_and]
      exact ⟨Or.inl, fun h => h.elim id fun heq => heq ▸ hknown⟩
    · have hnew : tainted.contains (ast.textOf b.target) = false := by
        rw [← Bool.not_eq_true, List.contains_iff_mem]
        exact hknown
      rw [hbinds, hnew, Bool.not_false, Bool.and_true, if_pos rfl, List.mem_append,
        List.mem_singleton, eq_comm (a := name)]
      exact or_congr_right (and_iff_right rfl).symm
  · simp [hbinds]

theorem nodup_follow (h : tainted.Nodup) : (scanner.follow ast tainted b).Nodup := by
  unfold Scanner.follow
  split
  · rename_i hnew
    rw [Bool.and_eq_true, Bool.not_eq_true', ← Bool.not_eq_true, List.contains_iff_mem] at hnew
    exact List.nodup_append.mpr ⟨h, List.nodup_singleton _, fun a ha b hb heq =>
      hnew.2 (List.mem_singleton.mp hb ▸ heq ▸ ha)⟩
  · exact h

/-! ## A whole walk -/

/-- The names that are known after some nodes. -/
def Scanner.namesAfter (scanner : Scanner) (ast : SourceTree) (nodes : List (Tree SyntaxNode)) :
    List String :=
  (nodes.filterMap binding?).foldl (scanner.follow ast) []

theorem credentialNames_eq : scanner.credentialNames ast = scanner.namesAfter ast ast.root.walk :=
  rfl

theorem namesAfter_concat :
    scanner.namesAfter ast (nodes ++ [t]) =
      match binding? t with
      | some b => scanner.follow ast (scanner.namesAfter ast nodes) b
      | none => scanner.namesAfter ast nodes := by
  unfold Scanner.namesAfter
  rw [List.filterMap_append, List.foldl_append]
  cases hb : binding? t <;> simp [hb]

theorem nodup_namesAfter : (scanner.namesAfter ast nodes).Nodup :=
  List.foldlRecOn _ _ List.nodup_nil fun _ h _ _ => nodup_follow h

/-- A chain within some nodes and one more either ends before that one or with it. -/
theorem exists_carries_concat_iff :
    (∃ steps, steps.Sublist (nodes ++ [t]) ∧ scanner.Carries ast steps name) ↔
      (∃ steps, steps.Sublist nodes ∧ scanner.Carries ast steps name) ∨
        ∃ steps, steps.Sublist nodes ∧ scanner.Carries ast (steps ++ [t]) name := by
  constructor
  · rintro ⟨all, hsub, hcarries⟩
    obtain ⟨steps, last, rfl, hsteps, hlast⟩ := List.sublist_append_iff.mp hsub
    rcases List.sublist_singleton.mp hlast with rfl | rfl
    · rw [List.append_nil] at hcarries
      exact Or.inl ⟨steps, hsteps, hcarries⟩
    · exact Or.inr ⟨steps, hsteps, hcarries⟩
  · rintro (⟨steps, hsub, hcarries⟩ | ⟨steps, hsub, hcarries⟩)
    · exact ⟨steps, hsub.trans (List.sublist_append_left _ _), hcarries⟩
    · exact ⟨steps ++ [t], hsub.append (List.Sublist.refl _), hcarries⟩

/-- The names known after some nodes are those to which a chain of these nodes leads. -/
theorem mem_namesAfter_iff :
    name ∈ scanner.namesAfter ast nodes ↔
      ∃ steps, steps.Sublist nodes ∧ scanner.Carries ast steps name := by
  induction nodes using List.reverseRecOn generalizing name with
  | nil =>
      constructor
      · exact fun h => absurd h List.not_mem_nil
      · rintro ⟨steps, hsub, hcarries⟩
        exact absurd (List.sublist_nil.mp hsub) hcarries.ne_nil
  | append_singleton nodes t ih =>
      rw [exists_carries_concat_iff, ← ih, namesAfter_concat]
      cases hb : binding? t with
      | none =>
          -- a node that binds nothing ends no chain
          simp [carries_concat_iff, hb]
      | some b =>
          simp only [carries_concat_iff, hb, Option.some.injEq, exists_eq_left', mem_follow_iff]
          refine or_congr_right ?_
          rw [bindsCredential_iff]
          constructor
          · rintro ⟨hliteral | ⟨copied, hcopied, hcopy⟩, hname⟩
            · exact ⟨[], List.nil_sublist _, hname, Or.inl ⟨rfl, hliteral⟩⟩
            · obtain ⟨steps, hsub, hcarries⟩ := ih.mp hcopied
              exact ⟨steps, hsub, hname, Or.inr ⟨copied, hcarries, hcopy⟩⟩
          · rintro ⟨steps, hsub, hname, ⟨-, hliteral⟩ | ⟨copied, hcarries, hcopy⟩⟩
            · exact ⟨Or.inl hliteral, hname⟩
            · exact ⟨Or.inr ⟨copied, ih.mpr ⟨steps, hsub, hcarries⟩, hcopy⟩, hname⟩

/-- A statement that assigns the range from one byte offset to another to the name of three
characters in front of it. -/
def assignmentNode (start : Nat) (kind : String) (stop : Nat) : Tree GrammarNode :=
  grammarNode "expression_statement" none start stop
    [grammarNode "assignment_expression" none start stop
      [grammarNode "identifier" (some "left") start (start + 3) [],
        grammarToken "=" (start + 3) (start + 4),
        grammarNode kind (some "right") (start + 4) stop []]]

/-- The tree of `old=pwd;pwd="Sup3rS3cret!";new=pwd`. -/
def copiedPassword : SourceTree :=
  .ofGrammar defaultNodeBudget "old=pwd;pwd=\"Sup3rS3cret!\";new=pwd" "a.js" .javascript
    { root := grammarNode "program" none 0 34
        [assignmentNode 0 "identifier" 7, assignmentNode 8 "string" 26,
          assignmentNode 27 "identifier" 34]
      hasError := false }

/-- A name is copied from the literal on, and not before. -/
example : ({} : Scanner).credentialNames copiedPassword = ["pwd", "new"] := by decide +kernel

/-! ## Logging calls -/

/-- A call of a function that writes to a log, with its arguments. -/
structure IsLoggingCall (ast : SourceTree) (t arguments : Tree SyntaxNode) : Prop where
  isCall : t.kind ∈ callKinds
  callee : ∃ callee, t.childByField? "function" = some callee ∧
    isLogCallee (Text.removeBlanks (ast.textOf callee)) = true
  arguments_eq : t.childByField? "arguments" = some arguments

/-- The well-formed part of some arguments refers to a name, other than to that of a keyword. -/
def RefersTo (ast : SourceTree) (arguments : Tree SyntaxNode) (name : String) : Prop :=
  ∃ u ∈ arguments.walk, u.kind ∈ referenceKinds ∧ u.label.field ≠ some "name" ∧
    ast.textOf u = name

/-- A logging call whose arguments refer to a name that a chain of bindings binds to a
credential. -/
def Scanner.LogsCredential (scanner : Scanner) (ast : SourceTree) (t : Tree SyntaxNode) : Prop :=
  ∃ arguments, IsLoggingCall ast t arguments ∧ ∃ name, RefersTo ast arguments name ∧
    ∃ steps, steps.Sublist ast.root.walk ∧ scanner.Carries ast steps name

/-- The issue reports a logging call. -/
structure IsReportOf (ast : SourceTree) (t : Tree SyntaxNode) (i : Issue) : Prop where
  type_eq : i.type = .unsafeLogging
  filePath_eq : i.filePath = ast.path
  lineStart_eq : i.lineStart = t.label.startLine
  lineEnd_eq : i.lineEnd = max t.label.startLine t.label.endLine

theorem mem_references_iff {arguments : Tree SyntaxNode} :
    name ∈ references ast arguments ↔ RefersTo ast arguments name := by
  unfold references RefersTo
  simp [List.mem_eraseDups, and_assoc]

theorem loggedReferences?_eq_some_iff {shown : List String} :
    loggedReferences? ast t = some shown ↔
      ∃ arguments, IsLoggingCall ast t arguments ∧ references ast arguments = shown := by
  unfold loggedReferences?
  constructor
  · intro h
    split at h
    · exact nomatch h
    · rename_i hkind
      split at h
      · rename_i callee arguments hcallee harguments
        split at h
        · rename_i hlog
          refine ⟨arguments, ⟨?_, ⟨callee, hcallee, hlog⟩, harguments⟩, Option.some.inj h⟩
          simpa using hkind
        · exact nomatch h
      · exact nomatch h
  · rintro ⟨arguments, ⟨hkind, ⟨callee, hcallee, hlog⟩, harguments⟩, rfl⟩
    simp [hkind, hcallee, harguments, hlog]

theorem logsCredential_iff :
    scanner.LogsCredential ast t ↔
      ∃ shown, loggedReferences? ast t = some shown ∧
        ∃ name ∈ shown, name ∈ scanner.credentialNames ast := by
  simp only [loggedReferences?_eq_some_iff, credentialNames_eq, mem_namesAfter_iff]
  constructor
  · rintro ⟨arguments, hcall, name, hname, hchain⟩
    exact ⟨_, ⟨arguments, hcall, rfl⟩, name, mem_references_iff.mpr hname, hchain⟩
  · rintro ⟨_, ⟨arguments, hcall, rfl⟩, name, hname, hchain⟩
    exact ⟨arguments, hcall, name, mem_references_iff.mp hname, hchain⟩

instance (scanner : Scanner) (ast : SourceTree) : DecidablePred (scanner.LogsCredential ast) :=
  fun t =>
    decidable_of_iff
      ((loggedReferences? ast t).any fun shown =>
        shown.any (scanner.credentialNames ast).contains)
      (by simp [logsCredential_iff, Option.any_eq_true])

theorem isSome_head?_sorted_filter (texts : List String) (p : String → Bool) :
    (Text.sorted (texts.filter p)).head?.isSome = texts.any p := by
  rw [Bool.eq_iff_iff, Option.isSome_iff_exists, List.any_eq_true]
  unfold Text.sorted
  constructor
  · rintro ⟨text, htext⟩
    exact ⟨text, List.mem_filter.mp (List.mem_mergeSort.mp (List.mem_of_head? htext))⟩
  · rintro ⟨text, htext⟩
    rw [← Option.isSome_iff_exists, List.isSome_head?]
    exact List.ne_nil_of_mem (List.mem_mergeSort.mpr (List.mem_filter.mpr htext))

/-- The finding of a logging call is about a name bound to a credential exactly if one is among the
references. -/
theorem of_loggingFinding? (ast : SourceTree) {options : Options} {shown : List String}
    {found : Finding} (h : loggingFinding? options tainted t shown = some found) :
    (found.issue ast).isDerived = shown.any tainted.contains ∧
      IsReportOf ast t (found.issue ast) := by
  obtain ⟨logged, -, rfl⟩ := Option.map_eq_some_iff.mp h
  exact ⟨isSome_head?_sorted_filter shown _, rfl, rfl, rfl, rfl⟩

theorem isSome_loggingFinding? {options : Options} {shown : List String}
    (h : shown.any tainted.contains = true) :
    (loggingFinding? options tainted t shown).isSome = true := by
  rw [← isSome_head?_sorted_filter] at h
  unfold loggingFinding?
  rw [Option.isSome_map, Option.isSome_or, h, Bool.true_or]

/-- The issue of a node of the walk, if it is a logging call that shows something. -/
def Scanner.loggingIssue? (scanner : Scanner) (ast : SourceTree) (context : FileContext)
    (t : Tree SyntaxNode) : Option Issue :=
  (loggedReferences? ast t).bind fun shown =>
    (loggingFinding? context.options (scanner.credentialNames ast) t shown).map (·.issue ast)

theorem of_loggingIssue? {i : Issue} (h : scanner.loggingIssue? ast context t = some i) :
    (i.isDerived = true ↔ scanner.LogsCredential ast t) ∧ IsReportOf ast t i := by
  obtain ⟨shown, hshown, h⟩ := Option.bind_eq_some_iff.mp h
  obtain ⟨found, hfound, rfl⟩ := Option.map_eq_some_iff.mp h
  obtain ⟨hderived, hreport⟩ := of_loggingFinding? ast hfound
  refine ⟨?_, hreport⟩
  rw [hderived, logsCredential_iff]
  simp [hshown]

theorem isSome_loggingIssue? (h : scanner.LogsCredential ast t) :
    (scanner.loggingIssue? ast context t).isSome = true := by
  obtain ⟨shown, hshown, name, hname, hcredential⟩ := logsCredential_iff.mp h
  have hany : shown.any (scanner.credentialNames ast).contains = true :=
    List.any_eq_true.mpr ⟨name, hname, List.contains_iff_mem.mpr hcredential⟩
  unfold Scanner.loggingIssue?
  rw [hshown, Option.bind_some, Option.isSome_map]
  exact isSome_loggingFinding? hany

/-- The derived issues of some nodes are those of the logging calls that show a credential. -/
theorem forall₂_loggingIssue? (scanner : Scanner) (ast : SourceTree) (context : FileContext)
    (nodes : List (Tree SyntaxNode)) :
    List.Forall₂ (IsReportOf ast) (nodes.filter (scanner.LogsCredential ast ·))
      ((nodes.filterMap (scanner.loggingIssue? ast context)).filter Issue.isDerived) := by
  induction nodes with
  | nil => exact .nil
  | cons t nodes ih =>
      rw [List.filter_cons, List.filterMap_cons]
      by_cases hlogs : scanner.LogsCredential ast t
      · have hsome : (scanner.loggingIssue? ast context t).isSome = true :=
          isSome_loggingIssue? hlogs
        obtain ⟨i, hi⟩ := Option.isSome_iff_exists.mp hsome
        obtain ⟨hderived, hreport⟩ := of_loggingIssue? hi
        rw [if_pos (decide_eq_true hlogs), hi, List.filter_cons, if_pos (hderived.mpr hlogs)]
        exact .cons hreport ih
      · rw [if_neg (by simpa using hlogs)]
        cases hi : scanner.loggingIssue? ast context t with
        | none => exact ih
        | some i =>
            rw [List.filter_cons, if_neg fun h => hlogs ((of_loggingIssue? hi).1.mp h)]
            exact ih

/-- The names bound to credentials are, once each, those to which a chain of bindings leads, each
later in the walk than the one before. The logging calls that are reported to show what was bound
to a credential are exactly those whose arguments refer to such a name, in the order of the walk. -/
theorem credentials_traced (scanner : Scanner) (ast : SourceTree) (context : FileContext) :
    (scanner.credentialNames ast).Nodup ∧
      (∀ name, name ∈ scanner.credentialNames ast ↔
        ∃ steps, steps.Sublist ast.root.walk ∧ scanner.Carries ast steps name) ∧
      List.Forall₂ (IsReportOf ast) (ast.root.walk.filter (scanner.LogsCredential ast ·))
        ((scanner.checkLoggingCalls ast context).filter Issue.isDerived) :=
  ⟨nodup_namesAfter, fun _ => mem_namesAfter_iff,
    forall₂_loggingIssue? scanner ast context ast.root.walk⟩

end Security

end CodeHealth
