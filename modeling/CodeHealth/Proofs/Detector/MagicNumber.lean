import CodeHealth.Proofs.Detector.Literal
import CodeHealth.Proofs.Partition.Classes
import CodeHealth.Proofs.Sorting
import CodeHealth.Proofs.Tree.Place

/-!
# Literals by line

The literals that need a name are told by their places: what they read as, and what stands above
them. Each of them is listed by the one issue of its line, in source order, and nothing else is.
-/

namespace CodeHealth.MagicNumber

open CodeHealth.Tree

variable {root t u : Tree SyntaxNode} {path : List Nat}

/-! ## Literals that need a name -/

/-- A node that names the literals below it: a default value, or the binding of a name in
capitals. -/
def namesLiterals (t : Tree SyntaxNode) : Bool :=
  defaultValueKinds.contains t.kind || isConstantBinding t

/-- A leaf that reads as a number that needs a name. -/
def isMagicLeaf (t : Tree SyntaxNode) : Bool :=
  t.children.isEmpty && numberKinds.contains t.kind &&
    t.label.text.any fun text => (isMagic text).toOption.getD false

/-- Some node above a place names the literals below it. -/
def isNamedAt (root : Tree SyntaxNode) (path : List Nat) : Bool :=
  path.inits.dropLast.any (root.holdsAt fun u _ => namesLiterals u)

/-- A magic leaf stands at the place, neither it nor a node above it is malformed, and no node above
it names it. -/
def needsName (root : Tree SyntaxNode) (path : List Nat) : Bool :=
  root.holdsAt (fun u _ => isMagicLeaf u) path &&
    path.inits.all (root.holdsAt fun u _ => !u.label.isError) && !isNamedAt root path

/-- The places of the leaves that need a name, in source order. -/
def magicPlaces (root : Tree SyntaxNode) : List (List Nat) :=
  root.places.filter (needsName root)

/-- The literal at a place. -/
def literalAt (root : Tree SyntaxNode) (path : List Nat) : Literal :=
  (root.at? path).elim ⟨0, ""⟩ fun t => ⟨t.label.startLine, t.label.text.getD ""⟩

/-- The places on a line of the leaves that need a name. -/
def magicPlacesOn (root : Tree SyntaxNode) (line : Nat) : List (List Nat) :=
  (magicPlaces root).filter fun path => (literalAt root path).line == line

/-- The texts of these leaves, in source order. -/
def magicTextsOn (root : Tree SyntaxNode) (line : Nat) : List String :=
  (magicPlacesOn root line).map fun path => (literalAt root path).text

/-- An issue that lists the leaves of its line that need a name, of which there are some. -/
structure ListsLine (root : Tree SyntaxNode) (issue : Issue) : Prop where
  nonempty : magicTextsOn root issue.lineStart ≠ []
  lineEnd : issue.lineEnd = issue.lineStart
  value : issue.metadata =
    .complexity "magic numbers" (Number.nearest (magicTextsOn root issue.lineStart).length) 0 []
  description : issue.description =
    (if 1 < (magicTextsOn root issue.lineStart).length then "Magic numbers "
      else "Magic number ") ++
      String.intercalate ", " (magicTextsOn root issue.lineStart) ++ s!" on line {issue.lineStart}"

/-! ## Literals at their places -/

/-- A numeric literal, malformed or not. -/
def hasNumber (t : Tree SyntaxNode) : Bool :=
  numberKinds.contains t.kind && t.nonEmptyText?.isSome

theorem hasNumber_eq_false (h : t.label.text = none) : hasNumber t = false := by
  rw [hasNumber, nonEmptyText?, h]
  exact Bool.and_false _

/-- The walk for literals goes on below the node at a place. -/
def entersAt (root : Tree SyntaxNode) (path : List Nat) : Bool :=
  root.holdsAt (fun u _ => !u.label.isError) path &&
    !(root.holdsAt (fun u _ => hasNumber u) path && !isNamedAt root path)

theorem isNamedAt_concat (root : Tree SyntaxNode) (path : List Nat) (i : Nat) :
    isNamedAt root (path ++ [i]) =
      (isNamedAt root path || root.holdsAt (fun u _ => namesLiterals u) path) := by
  rw [isNamedAt, dropLast_inits_concat, List.any_append, List.any_cons, List.any_nil, Bool.or_false]
  rfl

/-- A literal is found unless it is named, and the walk goes on below all other nodes. -/
theorem literalStep_eq (named : Bool) (t : Tree SyntaxNode) :
    literalStep named t =
      if !t.label.isError && !(hasNumber t && !named) then ([], some (named || namesLiterals t))
      else (if !t.label.isError then [t] else [], none) := by
  unfold literalStep hasNumber namesLiterals
  cases t.label.isError with
  | true => rfl
  | false =>
      rw [if_neg Bool.false_ne_true, Bool.or_assoc]
      cases numberKinds.contains t.kind && t.nonEmptyText?.isSome && !named <;> rfl

theorem handsDown_literalStep (root : Tree SyntaxNode) :
    root.HandsDown literalStep (isNamedAt root) (entersAt root) := by
  intro path u hu i
  rw [isNamedAt_concat, entersAt, holdsAt_eq hu, holdsAt_eq hu, holdsAt_eq hu, literalStep_eq]
  split <;> rfl

/-- The literals that a walk finds are the well-formed ones that no node above them names, where all
nodes above are well-formed too. -/
theorem collect_literalStep (hleaf : ∀ u ∈ root.subtrees, hasNumber u = true → u.children = []) :
    root.collect literalStep false =
      (root.places.filter fun path => root.holdsAt (fun u _ => hasNumber u) path &&
        path.inits.all (root.holdsAt fun u _ => !u.label.isError) &&
        !isNamedAt root path).flatMap fun path => (root.at? path).toList := by
  have hroot : isNamedAt root [] = false := rfl
  rw [collect_eq_flatMap_places hroot (handsDown_literalStep root), flatMap_filter]
  apply List.flatMap_congr
  intro path hpath
  obtain ⟨u, hu⟩ := mem_places_iff.mp hpath
  -- a node above the place has children, so it is no literal
  have habove : path.inits.dropLast.all (entersAt root) =
      path.inits.dropLast.all (root.holdsAt fun u _ => !u.label.isError) := by
    rw [Bool.eq_iff_iff, List.all_eq_true, List.all_eq_true]
    refine forall₂_congr fun above habove => ?_
    obtain ⟨v, hv, hchildren⟩ := exists_at?_of_mem_above hu habove
    have hnumber : hasNumber v = false :=
      Bool.not_eq_true _ ▸ mt (hleaf v (mem_subtrees_of_at? hv)) hchildren
    rw [entersAt, holdsAt_eq hv, holdsAt_eq hv, hnumber, Bool.false_and, Bool.not_false,
      Bool.and_true]
  rw [habove, all_inits, foundAt, hu, Option.elim_some, Option.toList_some, holdsAt_eq hu,
    holdsAt_eq hu, literalStep_eq]
  cases path.inits.dropLast.all _ <;> cases u.label.isError <;> cases hasNumber u <;>
    cases isNamedAt root path <;> rfl

/-- A tree whose numeric literals are leaves, as all texts of a grammar's tree are, none of which
reads as the undefined number. -/
structure ReadsNumbers (root : Tree SyntaxNode) : Prop where
  leaf : ∀ u ∈ root.subtrees, hasNumber u = true → u.children = []
  defined : ∀ u ∈ root.subtrees, u.children = [] → u.kind ∈ numberKinds →
    ∀ text ∈ u.label.text, ¬ IsUndefined text

theorem isMagicLeaf_eq (hleaf : hasNumber t = true → t.children = []) :
    isMagicLeaf t =
      (hasNumber t && (isMagic (t.label.text.getD "")).toOption.getD false) := by
  cases hnumber : hasNumber t with
  | true =>
      obtain ⟨hkind, hsome⟩ := (Bool.and_eq_true _ _).mp hnumber
      obtain ⟨text, htext⟩ := Option.isSome_iff_exists.mp hsome
      rw [isMagicLeaf, hleaf hnumber, hkind, (Option.filter_eq_some_iff.mp htext).1,
        List.isEmpty_nil, Bool.and_self, Option.any_some, Option.getD_some]
  | false =>
      -- without a text, or with an empty one, it is no number
      unfold hasNumber nonEmptyText? at hnumber
      unfold isMagicLeaf
      cases htext : t.label.text with
      | none => simp
      | some text =>
          by_cases hblank : text = ""
          · have hmagic : (isMagic "").toOption.getD false = false := by decide +kernel
            simp [hblank, hmagic]
          · have hkind : numberKinds.contains t.kind = false := by
              simpa [htext, Option.filter, hblank] using hnumber
            rw [hkind, Bool.and_false, Bool.false_and, Bool.false_and]

/-- A literal needs a name at its place if it is found there and its text asks for one. -/
theorem needsName_eq (h : ReadsNumbers root) (hpath : path ∈ root.places) :
    needsName root path =
      ((isMagic (literalAt root path).text).toOption.getD false &&
        (root.holdsAt (fun u _ => hasNumber u) path &&
          path.inits.all (root.holdsAt fun u _ => !u.label.isError) && !isNamedAt root path)) := by
  obtain ⟨u, hu⟩ := mem_places_iff.mp hpath
  rw [needsName, holdsAt_eq hu, holdsAt_eq hu, isMagicLeaf_eq (h.leaf u (mem_subtrees_of_at? hu)),
    literalAt, hu, Option.elim_some]
  cases hasNumber u <;> cases (isMagic (u.label.text.getD "")).toOption.getD false <;> simp

theorem exists_isMagic_eq_ok (h : ReadsNumbers root) (hu : u ∈ root.subtrees)
    (hnumber : hasNumber u = true) : ∃ b, isMagic (u.label.text.getD "") = .ok b := by
  cases hmagic : isMagic (u.label.text.getD "") with
  | ok b => exact ⟨b, rfl⟩
  | error e =>
      obtain ⟨-, hundefined⟩ := isMagic_eq_error_iff.mp hmagic
      cases htext : u.label.text with
      | none =>
          rw [hasNumber_eq_false htext] at hnumber
          exact nomatch hnumber
      | some text =>
          rw [htext] at hundefined
          have hleaf : u.children = [] := h.leaf u hu hnumber
          rw [hasNumber, Bool.and_eq_true, List.contains_iff_mem] at hnumber
          exact absurd hundefined (h.defined u hu hleaf hnumber.1 text htext)

/-- The literals that are reported are those at the places of leaves that need a name. -/
theorem magicLiterals_eq (h : ReadsNumbers root) :
    magicLiterals root = .ok ((magicPlaces root).map (literalAt root)) := by
  have hfound : unnamedLiterals root = (root.places.filter fun path =>
      root.holdsAt (fun u _ => hasNumber u) path &&
        path.inits.all (root.holdsAt fun u _ => !u.label.isError) &&
        !isNamedAt root path).map (literalAt root) := by
    rw [unnamedLiterals, collect_literalStep h.leaf, List.map_flatMap, List.map_eq_flatMap]
    apply List.flatMap_congr
    intro path hpath
    obtain ⟨u, hu⟩ := mem_places_iff.mp (List.mem_of_mem_filter hpath)
    rw [literalAt, hu]
    rfl
  rw [magicLiterals, filterM_eq_ok_iff, hfound]
  constructor
  · intro l hl
    obtain ⟨path, hpath, rfl⟩ := List.mem_map.mp hl
    obtain ⟨hplace, hpath⟩ := List.mem_filter.mp hpath
    obtain ⟨u, hu⟩ := mem_places_iff.mp hplace
    rw [holdsAt_eq hu, Bool.and_eq_true, Bool.and_eq_true] at hpath
    rw [literalAt, hu, Option.elim_some]
    exact exists_isMagic_eq_ok h (mem_subtrees_of_at? hu) hpath.1.1
  · rw [List.filter_map, List.filter_filter, magicPlaces,
      List.filter_congr fun path hpath => needsName_eq h hpath]
    simp only [Function.comp_apply]

/-! ## Issues of lines -/

/-- The lines of the leaves that need a name, in order. -/
def magicLines (root : Tree SyntaxNode) : List Nat :=
  linesOf ((magicPlaces root).map (literalAt root))

/-- The issue of a line. -/
def lineIssue (ast : SourceTree) (line : Nat) : Issue :=
  (finding ast line (magicTextsOn ast.root line)).issue ast

theorem issues_eq {ast : SourceTree} (h : ReadsNumbers ast.root) :
    issues ast = .ok ((magicLines ast.root).map (lineIssue ast)) := by
  rw [issues, magicLiterals_eq h, magicLines]
  refine congrArg Except.ok (List.map_congr_left fun line _ => ?_)
  rw [lineIssue, magicTextsOn, magicPlacesOn, List.filter_map, List.map_map]
  rfl

theorem mem_magicLines {line : Nat} :
    line ∈ magicLines root ↔ ∃ path ∈ magicPlaces root, (literalAt root path).line = line := by
  simp [magicLines, linesOf, List.mem_mergeSort, List.mem_eraseDups]

/-- The lines divide the leaves that need a name among them. -/
theorem flatMap_magicPlacesOn_perm (root : Tree SyntaxNode) :
    ((magicLines root).flatMap (magicPlacesOn root)).Perm (magicPlaces root) := by
  have hclasses := flatten_classesBy_perm (fun path => (literalAt root path).line)
    (magicPlaces root)
  rw [classesBy, ← List.flatMap_def] at hclasses
  refine List.Perm.trans ?_ hclasses
  rw [magicLines, linesOf, List.map_map]
  exact (List.mergeSort_perm _ _).flatMap_right _

theorem description_finding (ast : SourceTree) (line : Nat) (texts : List String) :
    (finding ast line texts).description =
      (if 1 < texts.length then "Magic numbers " else "Magic number ") ++
        String.intercalate ", " texts ++ s!" on line {line}" := by
  rw [finding]
  by_cases hlength : 1 < texts.length
  · simp only [hlength, if_true]
    rfl
  · simp only [hlength, if_false]
    rfl

theorem listsLine_lineIssue {ast : SourceTree} {line : Nat} (hline : line ∈ magicLines ast.root) :
    ListsLine ast.root (lineIssue ast line) where
  nonempty := by
    obtain ⟨path, hpath, hline⟩ := mem_magicLines.mp hline
    have hmem : path ∈ magicPlacesOn ast.root line :=
      List.mem_filter.mpr ⟨hpath, beq_iff_eq.mpr hline⟩
    exact List.ne_nil_of_mem (List.mem_map_of_mem hmem)
  lineEnd := Nat.max_self line
  value := rfl
  description := description_finding ast line _

/-- Each literal that needs a name is listed by exactly one issue, that of its line, among the
others on the line in source order. The issues stand in the order of their lines. -/
theorem detect_listsLines {ast : SourceTree} (context : FileContext) (h : ReadsNumbers ast.root) :
    ∃ issues, detector.detect ast context = .ok issues ∧
      (issues.map Issue.lineStart).Pairwise (· < ·) ∧
      (∀ i ∈ issues, ListsLine ast.root i) ∧
      (issues.flatMap fun i => magicPlacesOn ast.root i.lineStart).Perm (magicPlaces ast.root) := by
  have hlines : ((magicLines ast.root).map (lineIssue ast)).map Issue.lineStart =
      magicLines ast.root := by
    rw [List.map_map]
    exact List.map_id _
  refine ⟨_, issues_eq h, ?_, ?_, ?_⟩
  · rw [hlines]
    exact pairwise_lt_mergeSort_eraseDups _
  · intro i hi
    obtain ⟨line, hline, rfl⟩ := List.mem_map.mp hi
    exact listsLine_lineIssue hline
  · rw [List.flatMap_map]
    exact flatMap_magicPlacesOn_perm ast.root

/-- A name of one character that a number of one digit is bound to. -/
def digitBinding (start : Nat) : Tree GrammarNode :=
  grammarNode "variable_declarator" none start (start + 3)
    [grammarNode "identifier" (some "name") start (start + 1) [],
      grammarToken "=" (start + 1) (start + 2),
      grammarNode "number" (some "value") (start + 2) (start + 3) []]

/-- A call with two numbers on one line, and two bindings on the next. -/
def callAndBindings : SourceTree :=
  .ofGrammar defaultNodeBudget "f(7,8)\nconst A=9,b=5" "a.js" .javascript
    { root := grammarNode "program" none 0 20
        [grammarNode "expression_statement" none 0 6
          [grammarNode "call_expression" none 0 6
            [grammarNode "identifier" (some "function") 0 1 [],
              grammarNode "arguments" (some "arguments") 1 6
                [grammarToken "(" 1 2, grammarNode "number" none 2 3 [], grammarToken "," 3 4,
                  grammarNode "number" none 4 5 [], grammarToken ")" 5 6]]],
          grammarNode "lexical_declaration" none 7 20
            [grammarToken "const" 7 12, digitBinding 13, grammarToken "," 16 17, digitBinding 17]]
      hasError := false }

theorem callAndBindings_listsLines :
    magicPlaces callAndBindings.root = [[0, 0, 1, 1], [0, 0, 1, 3], [1, 3, 2]] ∧
      magicTextsOn callAndBindings.root 1 = ["7", "8"] ∧
      magicTextsOn callAndBindings.root 2 = ["5"] ∧
      ReadsNumbers callAndBindings.root ∧
      ∃ issues, detector.detect callAndBindings ⟨"p", "a.js", .javascript, {}⟩ = .ok issues ∧
        (issues.map Issue.lineStart).Pairwise (· < ·) ∧
        (∀ i ∈ issues, ListsLine callAndBindings.root i) ∧
        (issues.flatMap fun i => magicPlacesOn callAndBindings.root i.lineStart).Perm
          (magicPlaces callAndBindings.root) := by
  have hreads : ReadsNumbers callAndBindings.root :=
    ⟨by decide +kernel, by unfold IsUndefined; decide +kernel⟩
  exact ⟨by decide +kernel, by decide +kernel, by decide +kernel, hreads,
    detect_listsLines _ hreads⟩

end CodeHealth.MagicNumber
