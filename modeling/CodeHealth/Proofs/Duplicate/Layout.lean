import CodeHealth.Proofs.Duplicate.Calls
import CodeHealth.Proofs.Tree.Layout

/-!
# Blocks of the same code

Comments and places have no part in the keys of a block. So functions of the same code in different
files are linked as exact matches.
-/

namespace CodeHealth

open Linking Duplicates

variable {t u : Tree SyntaxNode} {n : SyntaxNode} {cs : List (Tree SyntaxNode)} {depth : Nat}
  {options : Options} {asts : List SourceTree} {blocks : List CodeBlock}

/-! ## Shapes -/

theorem collect_shapeStep_node :
    (Tree.node n cs).collect shapeStep depth =
      if n.isError || commentKinds.contains n.kind then []
      else s!"{n.kind}@{depth}" :: cs.flatMap fun c => c.collect shapeStep (depth + 1) := by
  rw [Tree.collect, shapeStep, Tree.label, Tree.kind, Tree.label]
  split
  · rfl
  · rw [← Tree.collectAll_eq_flatMap]
    rfl

theorem Tree.DropsComment.collect_shapeStep_eq (h : t.DropsComment u) (depth : Nat) :
    t.collect shapeStep depth = u.collect shapeStep depth := by
  induction h generalizing depth with
  | child n comment before after hkind hkept =>
      have hcomment : (Tree.node comment []).collect shapeStep (depth + 1) = [] := by
        rw [collect_shapeStep_node, hkind, Bool.or_true, if_pos rfl]
      rw [collect_shapeStep_node, collect_shapeStep_node, List.flatMap_append, List.flatMap_cons,
        hcomment, List.nil_append, ← List.flatMap_append]
  | inside n before after h ih =>
      rw [collect_shapeStep_node, collect_shapeStep_node, List.flatMap_append, List.flatMap_append,
        List.flatMap_cons, List.flatMap_cons, ih]

theorem collect_shapeStep_of_unplaced (h : t.unplaced = u.unplaced) (depth : Nat) :
    t.collect shapeStep depth = u.collect shapeStep depth := by
  induction t generalizing u depth with
  | node n cs ih =>
      obtain ⟨m, ds⟩ := u
      obtain ⟨hlabel, hchildren⟩ := Tree.unplaced_node_eq_iff.mp h
      simp only [SyntaxNode.unplaced, Unplaced.mk.injEq] at hlabel
      obtain ⟨hkind, -, -, -, -, herror, -⟩ := hlabel
      rw [collect_shapeStep_node, collect_shapeStep_node, hkind, herror,
        Tree.flatMap_eq_of_map_eq hchildren fun c hc d hcd => ih c hc hcd (depth + 1)]

theorem shapeOf_eq_of_sameCode (h : t.SameCode u) : shapeOf t = shapeOf u :=
  h.eq_of (fun _ _ hdrops => hdrops.collect_shapeStep_eq 0)
    fun _ _ hplaces => collect_shapeStep_of_unplaced hplaces 0

/-! ## Blocks -/

theorem tokenTexts_eq_mapM (body : Tree SyntaxNode) :
    tokenTexts body = (body.tokens.map fun k => k.label.text).mapM fun text =>
      match text with
      | some text => .ok text
      | none => .error .tokenWithoutText := by
  rw [List.mapM_map]
  rfl

theorem tokenTexts_eq_of_sameCode (h : t.SameCode u) : tokenTexts t = tokenTexts u := by
  rw [tokenTexts_eq_mapM, tokenTexts_eq_mapM, h.map_text_tokens]

/-- What two blocks are compared by is equal. -/
structure CodeBlock.Alike (a b : CodeBlock) : Prop where
  tokens : a.tokens = b.tokens
  shape : a.shape = b.shape
  lexicon : a.lexicon = b.lexicon
  exactKey : a.exactKey = b.exactKey
  shapeKey : a.shapeKey = b.shapeKey

theorem alike_of_sameCode {f g : FunctionDef} (h : f.body.SameCode g.body) (ast ast' : SourceTree)
    (i j : Nat) {tokens tokens' : List String} (hf : tokenTexts f.body = .ok tokens)
    (hg : tokenTexts g.body = .ok tokens') :
    (CodeBlock.ofFunction ast f i tokens).Alike (CodeBlock.ofFunction ast' g j tokens') := by
  rw [tokenTexts_eq_of_sameCode h, hg] at hf
  obtain rfl := Except.ok.inj hf
  have hshape : (CodeBlock.ofFunction ast f i tokens').shape =
      (CodeBlock.ofFunction ast' g j tokens').shape := shapeOf_eq_of_sameCode h
  exact ⟨rfl, hshape, rfl, rfl, by rw [CodeBlock.shapeKey, CodeBlock.shapeKey, hshape]⟩

theorem mem_exactLinks_or_swap (hnum : Numbered blocks) {a b : CodeBlock} (ha : a ∈ blocks)
    (hb : b ∈ blocks) (hpath : a.path ≠ b.path) (hkey : a.exactKey = b.exactKey) :
    ⟨a, b, exactMatch⟩ ∈ exactLinks blocks ∨ ⟨b, a, exactMatch⟩ ∈ exactLinks blocks := by
  have hover : a.overlaps b = false := by simp [CodeBlock.overlaps, hpath]
  rw [mem_exactLinks_iff hnum, mem_exactLinks_iff hnum]
  rcases Nat.lt_trichotomy a.index b.index with hlt | heq | hlt
  · exact Or.inl ⟨rfl, ha, hb, hlt, hover, hkey⟩
  · exact absurd (congrArg CodeBlock.path (hnum.eq_of_index ha hb heq)) hpath
  · exact Or.inr ⟨rfl, hb, ha, hlt, by rw [CodeBlock.overlaps_comm, hover], hkey.symm⟩

/-- Functions of the same code have the same tokens, and blocks that are alike. If they are in
different files and large enough, the pass over equal tokens links them. -/
theorem exact_match_of_sameCode {f g : FunctionDef} (h : f.body.SameCode g.body) :
    tokenTexts f.body = tokenTexts g.body ∧
      (∀ ast ast' i j tokens tokens', tokenTexts f.body = .ok tokens →
        tokenTexts g.body = .ok tokens' →
          (CodeBlock.ofFunction ast f i tokens).Alike (CodeBlock.ofFunction ast' g j tokens')) ∧
      ∀ options asts blocks, extractBlocks options asts = .ok blocks →
        ∀ ast ∈ asts, ∀ ast' ∈ asts, ast.path ≠ ast'.path →
        ast.language.isCode = true → ast'.language.isCode = true →
        f ∈ ast.functions → g ∈ ast'.functions →
        isComparable options f.body = true → isComparable options g.body = true →
          (∀ s, exactPass blocks s = s.follow blocks (exactLinks blocks)) ∧
          ∃ i j tokens, tokenTexts f.body = .ok tokens ∧
            CodeBlock.ofFunction ast f i tokens ∈ blocks ∧
            CodeBlock.ofFunction ast' g j tokens ∈ blocks ∧
            (⟨CodeBlock.ofFunction ast f i tokens, CodeBlock.ofFunction ast' g j tokens,
                ⟨.exact, 1, 100⟩⟩ ∈ exactLinks blocks ∨
              ⟨CodeBlock.ofFunction ast' g j tokens, CodeBlock.ofFunction ast f i tokens,
                ⟨.exact, 1, 100⟩⟩ ∈ exactLinks blocks) := by
  refine ⟨tokenTexts_eq_of_sameCode h,
    fun ast ast' i j tokens tokens' hf hg => alike_of_sameCode h ast ast' i j hf hg, ?_⟩
  intro options asts blocks hblocks ast hast ast' hast' hpath hcode hcode' hf hg hsize hsize'
  obtain ⟨i, tokens, htokens, ha⟩ :=
    exists_block_of_function hblocks (mem_comparableFunctions.mpr ⟨hast, hcode, hf, hsize⟩)
  obtain ⟨j, tokens', htokens', hb⟩ :=
    exists_block_of_function hblocks (mem_comparableFunctions.mpr ⟨hast', hcode', hg, hsize'⟩)
  have halike := alike_of_sameCode h ast ast' i j htokens htokens'
  obtain rfl : tokens = tokens' := halike.tokens
  exact ⟨exactPass_eq_follow, i, j, tokens, htokens, ha, hb,
    mem_exactLinks_or_swap (numbered_of_extractBlocks hblocks) ha hb hpath halike.exactKey⟩

/-! ## An array with a comment -/

def plainArray : SourceTree :=
  bodyFile "a.js" "x=>[a]" 6 (arrayBody 6 [("identifier", 1)])

def commentedArray : SourceTree :=
  bodyFile "b.js" "x=>[/**/a]" 10 (grammarNode "array" (some "body") 3 10
    [grammarToken "[" 3 4, grammarNode "comment" none 4 8 [], grammarNode "identifier" none 8 9 [],
      grammarToken "]" 9 10])

/-- What both bodies come to without the comment and without places. -/
def arrayCode : Tree Unplaced :=
  .node ⟨"array", true, some "body", none, none, false, none⟩
    [.node ⟨"[", false, none, none, some "[", false, some false⟩ [],
      .node ⟨"identifier", true, none, none, some "a", false, some false⟩ [],
      .node ⟨"]", false, none, none, some "]", false, some false⟩ []]

theorem sameCode_of_comment_second {n comment : SyntaxNode} {first third fourth : Tree SyntaxNode}
    (code : Tree Unplaced) (ht : t.unplaced = code)
    (hu : u = .node n [first, .node comment [], third, fourth])
    (hkind : commentKinds.contains comment.kind = true)
    (hcode : (Tree.node n [first, third, fourth]).unplaced = code) : t.SameCode u := by
  rw [hu]
  refine ⟨t, _, .refl, .single ?_, ht.trans hcode.symm⟩
  exact .child n comment [first] [third, fourth] hkind (List.cons_ne_nil _ _)

theorem sameCode_arrays : ∃ f ∈ plainArray.functions, ∃ g ∈ commentedArray.functions,
    f.body.SameCode g.body ∧ isComparable anySize f.body = true ∧
      isComparable anySize g.body = true :=
  ⟨_, List.mem_cons_self, _, List.mem_cons_self,
    sameCode_of_comment_second arrayCode rfl rfl rfl rfl, by decide, by decide⟩

/-- With and without the comment the array is the same code, and the two functions are linked. -/
theorem arrays_exact_match : ∃ f ∈ plainArray.functions, ∃ g ∈ commentedArray.functions,
    f.body.SameCode g.body ∧
      ∃ blocks, extractBlocks anySize [plainArray, commentedArray] = .ok blocks ∧
        ∃ i j tokens, tokenTexts f.body = .ok tokens ∧
          CodeBlock.ofFunction plainArray f i tokens ∈ blocks ∧
          CodeBlock.ofFunction commentedArray g j tokens ∈ blocks ∧
          (⟨CodeBlock.ofFunction plainArray f i tokens,
              CodeBlock.ofFunction commentedArray g j tokens, ⟨.exact, 1, 100⟩⟩ ∈
              exactLinks blocks ∨
            ⟨CodeBlock.ofFunction commentedArray g j tokens,
              CodeBlock.ofFunction plainArray f i tokens, ⟨.exact, 1, 100⟩⟩ ∈
              exactLinks blocks) := by
  obtain ⟨f, hf, g, hg, h, hsize, hsize'⟩ := sameCode_arrays
  obtain ⟨blocks, hblocks⟩ :=
    (exists_extractBlocks_iff anySize [plainArray, commentedArray]).mpr (by decide)
  obtain ⟨-, hmatch⟩ := (exact_match_of_sameCode h).2.2 anySize _ blocks hblocks plainArray
    (by simp) commentedArray (by simp) (by decide) rfl rfl hf hg hsize hsize'
  exact ⟨f, hf, g, hg, h, blocks, hblocks, hmatch⟩

end CodeHealth
