import CodeHealth.Proofs.Code.Function
import CodeHealth.Proofs.Duplicate.Linking
import CodeHealth.Proofs.Except
import CodeHealth.Proofs.Tree.Parse

/-!
# Extracted blocks

Each block is the body of one comparable function and is numbered by its place. Extraction fails
just if a body has a token without text.
-/

namespace CodeHealth

variable {options : Options} {asts : List SourceTree} {blocks : List CodeBlock}

theorem mem_comparableFunctions {ast : SourceTree} {f : FunctionDef} :
    (ast, f) ∈ comparableFunctions options asts ↔
      ast ∈ asts ∧ ast.language.isCode = true ∧ f ∈ ast.functions ∧
        isComparable options f.body = true := by
  unfold comparableFunctions
  simp only [List.mem_flatMap, List.mem_filter, List.mem_mergeSort, List.mem_map, Prod.mk.injEq]
  constructor
  · rintro ⟨_, ⟨hast, hcode⟩, _, ⟨hf, hsize⟩, rfl, rfl⟩
    exact ⟨hast, hcode, hf, hsize⟩
  · rintro ⟨hast, hcode, hf, hsize⟩
    exact ⟨ast, ⟨hast, hcode⟩, f, ⟨hf, hsize⟩, rfl, rfl⟩

theorem exists_function_of_block (h : extractBlocks options asts = .ok blocks) {i : Nat}
    {b : CodeBlock} (hb : blocks[i]? = some b) :
    ∃ ast f tokens, (comparableFunctions options asts)[i]? = some (ast, f) ∧
      tokenTexts f.body = .ok tokens ∧ b = CodeBlock.ofFunction ast f i tokens := by
  obtain ⟨⟨⟨ast, f⟩, index⟩, hget, hblock⟩ := exists_getElem?_of_mapM h hb
  rw [List.getElem?_zipIdx, Option.map_eq_some_iff] at hget
  obtain ⟨_, hfun, heq⟩ := hget
  obtain ⟨rfl, hindex⟩ := Prod.mk.inj heq
  obtain rfl : i = index := by omega
  obtain ⟨tokens, htokens, rfl⟩ := map_eq_ok_iff.mp hblock
  exact ⟨ast, f, tokens, hfun, htokens, rfl⟩

theorem exists_block_of_function (h : extractBlocks options asts = .ok blocks) {ast : SourceTree}
    {f : FunctionDef} (hf : (ast, f) ∈ comparableFunctions options asts) :
    ∃ i tokens, tokenTexts f.body = .ok tokens ∧
      CodeBlock.ofFunction ast f i tokens ∈ blocks := by
  obtain ⟨i, hi⟩ := List.mem_iff_getElem?.mp hf
  obtain ⟨b, hb, hblock⟩ := exists_mem_of_mapM h (x := ((ast, f), i))
    (List.mem_zipIdx_iff_getElem?.mpr hi)
  obtain ⟨tokens, htokens, rfl⟩ := map_eq_ok_iff.mp hblock
  exact ⟨i, tokens, htokens, hb⟩

theorem extractBlocks_nil (options : Options) : extractBlocks options [] = .ok [] := by
  unfold extractBlocks comparableFunctions
  rw [List.mergeSort_nil]
  rfl

theorem numbered_of_extractBlocks (h : extractBlocks options asts = .ok blocks) :
    Numbered blocks := by
  intro i b hb
  obtain ⟨ast, f, tokens, -, -, rfl⟩ := exists_function_of_block h hb
  rfl

theorem exists_tokenTexts_iff (body : Tree SyntaxNode) :
    (∃ tokens, tokenTexts body = .ok tokens) ↔ ∀ t ∈ body.tokens, t.label.text.isSome := by
  unfold tokenTexts
  rw [exists_mapM_eq_ok_iff]
  apply forall₂_congr
  intro t _
  cases t.label.text <;> simp

/-- A function that is compared although a token of its body has no text. -/
def SourceTree.HasCutBody (options : Options) (ast : SourceTree) : Prop :=
  ast.language.isCode = true ∧ ∃ f ∈ ast.functions, isComparable options f.body = true ∧
    ∃ t ∈ f.body.tokens, t.label.text = none

instance (options : Options) (ast : SourceTree) : Decidable (ast.HasCutBody options) :=
  inferInstanceAs (Decidable (_ ∧ _))

theorem exists_extractBlocks_iff (options : Options) (asts : List SourceTree) :
    (∃ blocks, extractBlocks options asts = .ok blocks) ↔
      ∀ ast ∈ asts, ¬ ast.HasCutBody options := by
  unfold extractBlocks
  rw [exists_mapM_eq_ok_iff]
  simp only [map_eq_ok_iff]
  constructor
  · rintro h ast hast ⟨hcode, f, hf, hsize, t, ht, htext⟩
    have hcompared := mem_comparableFunctions.mpr ⟨hast, hcode, hf, hsize⟩
    obtain ⟨i, hi⟩ := List.mem_iff_getElem?.mp hcompared
    obtain ⟨-, tokens, htokens, -⟩ := h ((ast, f), i) (List.mem_zipIdx_iff_getElem?.mpr hi)
    have hsome := (exists_tokenTexts_iff f.body).mp ⟨tokens, htokens⟩ t ht
    rw [htext] at hsome
    exact nomatch hsome
  · rintro h ⟨⟨ast, f⟩, i⟩ hp
    obtain ⟨hast, hcode, hf, hsize⟩ := mem_comparableFunctions.mp (List.fst_mem_of_mem_zipIdx hp)
    obtain ⟨tokens, htokens⟩ := (exists_tokenTexts_iff f.body).mpr fun t ht => by
      rw [← Option.ne_none_iff_isSome]
      exact fun htext => h ast hast ⟨hcode, f, hf, hsize, t, ht, htext⟩
    exact ⟨_, tokens, htokens, rfl⟩

/-- Options that compare blocks of any size. -/
def anySize : Options :=
  { duplicateMinLines := 1, duplicateMinTokens := 1 }

end CodeHealth
