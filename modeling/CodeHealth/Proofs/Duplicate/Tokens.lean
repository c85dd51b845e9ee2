import CodeHealth.Proofs.Duplicate.Evidence
import CodeHealth.Proofs.Text.Separator

/-!
# Exact matches

The key of a block's tokens is the digest of one text, in which the tokens stand with separators
between them. So an exact match means that the tokens are equal once each of them is cut at the
separators that it holds itself, and equal tokens where none holds any.
-/

namespace CodeHealth

/-- Different texts among the given ones have different digests. -/
def Digest.Sha1CollisionFree (texts : List String) : Prop :=
  ∀ x ∈ texts, ∀ y ∈ texts, sha1Hex x = sha1Hex y → x = y

namespace CodeBlock

variable {a b : CodeBlock}

/-- The tokens of a block as one text. -/
def joined (b : CodeBlock) : String :=
  String.intercalate "\x1f" b.tokens

/-- The tokens that the joined text shows: where there are none, it is that of one empty token. -/
def cells (b : CodeBlock) : List String :=
  if b.tokens = [] then [""] else b.tokens

/-- The tokens of a block, each cut at the separators that it holds. -/
def parts (b : CodeBlock) : List (List Char) :=
  b.cells.flatMap fun t => t.toList.splitOn '\x1f'

/-- No token holds the separator, and there is not just one token without text. -/
structure Separable (b : CodeBlock) : Prop where
  not_mem : ∀ t ∈ b.tokens, '\x1f' ∉ t.toList
  ne : b.tokens ≠ [""]

theorem cells_ne_nil (b : CodeBlock) : b.cells ≠ [] := by
  unfold cells
  split
  · exact List.cons_ne_nil _ _
  · assumption

theorem toList_joined (b : CodeBlock) :
    b.joined.toList = ['\x1f'].intercalate (b.cells.map String.toList) := by
  have hjoined : b.joined = String.intercalate "\x1f" b.cells := by
    unfold joined cells
    split
    · rename_i hnil
      rw [hnil]
      rfl
    · rfl
  rw [hjoined, String.toList_intercalate]
  rfl

/-- The joined text tells the parts of the tokens, and no more. -/
theorem joined_eq_iff : a.joined = b.joined ↔ a.parts = b.parts := by
  rw [← String.toList_inj, toList_joined, toList_joined,
    Text.intercalate_eq_iff (by simpa using a.cells_ne_nil) (by simpa using b.cells_ne_nil),
    List.flatMap_map, List.flatMap_map]
  rfl

theorem Separable.parts_eq (h : b.Separable) : b.parts = b.cells.map String.toList := by
  have hcells : ∀ t ∈ b.cells, '\x1f' ∉ t.toList := by
    unfold cells
    split
    · decide
    · exact h.not_mem
  rw [parts, List.map_eq_flatMap]
  apply List.flatMap_congr
  intro t ht
  exact List.splitOn_eq_singleton (hcells t ht)

theorem Separable.tokens_eq_iff (ha : a.Separable) (hb : b.Separable) :
    a.cells = b.cells ↔ a.tokens = b.tokens := by
  constructor
  · intro h
    unfold cells at h
    split at h <;> split at h
    · rename_i hnil hnil'
      rw [hnil, hnil']
    · exact absurd h.symm hb.ne
    · exact absurd h ha.ne
    · exact h
  · intro h
    rw [cells, cells, h]

/-- Without separators in the tokens their parts are the tokens themselves. -/
theorem Separable.parts_eq_iff (ha : a.Separable) (hb : b.Separable) :
    a.parts = b.parts ↔ a.tokens = b.tokens := by
  rw [ha.parts_eq, hb.parts_eq, ← ha.tokens_eq_iff hb]
  exact (List.map_injective_iff.mpr fun _ _ => String.toList_inj.mp).eq_iff

end CodeBlock

namespace Duplicates

open Linking

variable {blocks : List CodeBlock} {options : Options} {asts : List SourceTree} {a b : CodeBlock}

theorem exactKey_eq_iff (hfree : Digest.Sha1CollisionFree (blocks.map CodeBlock.joined))
    (ha : a ∈ blocks) (hb : b ∈ blocks) : a.exactKey = b.exactKey ↔ a.parts = b.parts := by
  rw [← CodeBlock.joined_eq_iff]
  exact ⟨hfree _ (List.mem_map_of_mem ha) _ (List.mem_map_of_mem hb), congrArg Digest.sha1Hex⟩

/-- The pass over equal tokens links the blocks with equal parts, and each exact duplicate has
another member of its group with its parts. For tokens without separators equal parts mean equal
tokens. -/
theorem exact_match_parts (hblocks : extractBlocks options asts = .ok blocks)
    (hfree : Digest.Sha1CollisionFree (blocks.map CodeBlock.joined)) (projectId : String) :
    (∀ s, exactPass blocks s = s.follow blocks (exactLinks blocks)) ∧
      (∀ c, c ∈ exactLinks blocks ↔ c.found = exactMatch ∧ c.left ∈ blocks ∧ c.right ∈ blocks ∧
        c.left.index < c.right.index ∧ c.left.overlaps c.right = false ∧
        c.left.parts = c.right.parts) ∧
      (∀ a b : CodeBlock, a.Separable → b.Separable →
        (a.parts = b.parts ↔ a.tokens = b.tokens)) ∧
      (¬ LacksConfidence blocks options → ∃ result, ∃ groups : List (List Member),
        detect options projectId asts = .ok result ∧
        result.issues.Perm (groups.flatMap fun ms => (reportGroup projectId ms).issues) ∧
        ∀ ms ∈ groups, List.Forall₂ Shows ms (reportGroup projectId ms).issues ∧
          ∀ m ∈ ms, m.best.type = .exact →
            ∃ o ∈ ms, o.block ≠ m.block ∧ o.block.parts = m.block.parts) := by
  have hnum := numbered_of_extractBlocks hblocks
  refine ⟨exactPass_eq_follow, ?_, fun a b ha hb => ha.parts_eq_iff hb, ?_⟩
  · intro c
    rw [mem_exactLinks_iff hnum]
    constructor
    · rintro ⟨hfound, hleft, hright, hbefore, hapart, hkey⟩
      exact ⟨hfound, hleft, hright, hbefore, hapart, (exactKey_eq_iff hfree hleft hright).mp hkey⟩
    · rintro ⟨hfound, hleft, hright, hbefore, hapart, hparts⟩
      exact ⟨hfound, hleft, hright, hbefore, hapart,
        (exactKey_eq_iff hfree hleft hright).mpr hparts⟩
  · intro hrated
    obtain ⟨s, hlinked⟩ := exists_linkAll_iff.mpr hrated
    obtain ⟨result, hdetect, hissues, -⟩ := exists_detect_memberLists hblocks hlinked projectId
    refine ⟨result, memberLists blocks s, hdetect, hissues, fun ms hms => ?_⟩
    have hbacked := backed_reportGroup hnum hlinked projectId hms
    refine ⟨hbacked.issues, fun m hm htype => ?_⟩
    obtain ⟨o, ho, hne, c, hc, hjoins, hfound, hgraded⟩ := hbacked.link m hm
    have hwithin := (sensible_of_mem_searchCalls hnum (mem_of_taken hc)).within
    unfold Graded at hgraded
    rw [hfound, htype] at hgraded
    have hparts := (exactKey_eq_iff hfree hwithin.left_mem hwithin.right_mem).mp hgraded.1
    refine ⟨o, ho, hne, ?_⟩
    rcases hjoins with ⟨hleft, hright⟩ | ⟨hleft, hright⟩
    · rw [← hleft, ← hright, hparts]
    · rw [← hleft, ← hright, hparts]

/-- The two functions `x=>x` are linked, and each is listed with the other one. -/
theorem twoIdentities_parts :
    ∃ blocks, extractBlocks anySize [twoIdentities] = .ok blocks ∧
      Digest.Sha1CollisionFree (blocks.map CodeBlock.joined) ∧
      (∃ c ∈ exactLinks blocks, c.left.tokens = c.right.tokens) ∧
      ∃ result, ∃ groups : List (List Member), detect anySize "p" [twoIdentities] = .ok result ∧
        result.issues.Perm (groups.flatMap fun ms => (reportGroup "p" ms).issues) ∧
        ∀ ms ∈ groups, List.Forall₂ Shows ms (reportGroup "p" ms).issues ∧
          ∀ m ∈ ms, m.best.type = .exact →
            ∃ o ∈ ms, o.block ≠ m.block ∧ o.block.parts = m.block.parts := by
  have hfree : Digest.Sha1CollisionFree
      ([identityBlock 0 0, identityBlock 1 5].map CodeBlock.joined) := by
    have htext : ∀ z ∈ [identityBlock 0 0, identityBlock 1 5].map CodeBlock.joined, z = "x" := by
      decide
    intro x hx y hy _
    rw [htext x hx, htext y hy]
  obtain ⟨-, hlinks, -, hsearch⟩ := exact_match_parts extractBlocks_twoIdentities hfree "p"
  have hrated : ¬ LacksConfidence [identityBlock 0 0, identityBlock 1 5] anySize :=
    fun hlacks => not_unrated_finite _ hlacks.1
  refine ⟨_, extractBlocks_twoIdentities, hfree,
    ⟨⟨identityBlock 0 0, identityBlock 1 5, exactMatch⟩, (hlinks _).mpr ?_, rfl⟩,
    hsearch hrated⟩
  exact ⟨rfl, by simp, by simp, by decide, by decide, rfl⟩

/-! ## A pattern with separators -/

def operatorToken (kind : String) (start : Nat) : Tree GrammarNode :=
  .node ⟨kind, start, start + 1, some "operator", false, false⟩ []

/-- A function that returns nothing; a pattern with separators follows. -/
def patternFile : SourceTree :=
  bodyFile "a.js" "x=>\x7breturn\n\x7b\x7d\n/a\x1f*\x1fb/g\x7d" 23
    (grammarNode "statement_block" (some "body") 3 23
      [grammarToken "\x7b" 3 4,
        grammarNode "return_statement" none 4 10 [grammarToken "return" 4 10],
        grammarNode "statement_block" none 11 13
          [grammarToken "\x7b" 11 12, grammarToken "\x7d" 12 13],
        grammarNode "expression_statement" none 14 22
          [grammarNode "regex" none 14 22
            [grammarToken "/" 14 15, grammarNode "regex_pattern" (some "pattern") 15 20 [],
              grammarToken "/" 20 21, grammarNode "regex_flags" (some "flags") 21 22 []]],
        grammarToken "\x7d" 22 23])

/-- A function that returns a quotient. -/
def quotientFile : SourceTree :=
  bodyFile "b.js" "x=>\x7breturn\x7b\x7d/a*b/g\x7d" 19
    (grammarNode "statement_block" (some "body") 3 19
      [grammarToken "\x7b" 3 4,
        grammarNode "return_statement" none 4 18
          [grammarToken "return" 4 10,
            grammarNode "binary_expression" none 10 18
              [grammarNode "binary_expression" (some "left") 10 16
                [grammarNode "binary_expression" (some "left") 10 14
                  [grammarNode "object" (some "left") 10 12
                      [grammarToken "\x7b" 10 11, grammarToken "\x7d" 11 12],
                    operatorToken "/" 12, grammarNode "identifier" (some "right") 13 14 []],
                  operatorToken "*" 14, grammarNode "identifier" (some "right") 15 16 []],
                operatorToken "/" 16, grammarNode "identifier" (some "right") 17 18 []]],
        grammarToken "\x7d" 18 19])

theorem extractBlocks_pattern :
    ∃ a b, extractBlocks anySize [patternFile, quotientFile] = .ok [a, b] ∧
      a.path = "a.js" ∧ b.path = "b.js" ∧ a.index = 0 ∧ b.index = 1 ∧
      a.tokens = ["\x7b", "return", "\x7b", "\x7d", "/", "a\x1f*\x1fb", "/", "g", "\x7d"] ∧
      b.tokens = ["\x7b", "return", "\x7b", "\x7d", "/", "a", "*", "b", "/", "g", "\x7d"] := by
  unfold extractBlocks comparableFunctions
  rw [List.mergeSort_of_pairwise (by decide)]
  exact ⟨_, _, rfl, rfl, rfl, rfl, rfl, rfl, rfl⟩

/-- The pattern is read as the tokens of the quotient, and the two functions count as equal. -/
theorem pattern_matches_quotient :
    ∃ blocks, extractBlocks anySize [patternFile, quotientFile] = .ok blocks ∧
      Digest.Sha1CollisionFree (blocks.map CodeBlock.joined) ∧
      ∃ c ∈ exactLinks blocks, c.left.tokens ≠ c.right.tokens := by
  obtain ⟨a, b, hblocks, hpath, hpath', hindex, hindex', htokens, htokens'⟩ := extractBlocks_pattern
  have hjoined : a.joined = b.joined := by
    unfold CodeBlock.joined
    rw [htokens, htokens']
    decide
  refine ⟨[a, b], hblocks, ?_, ⟨a, b, exactMatch⟩, ?_, ?_⟩
  · simp [Digest.Sha1CollisionFree, hjoined]
  · rw [mem_exactLinks_iff (numbered_of_extractBlocks hblocks)]
    refine ⟨rfl, by simp, by simp, by simp [hindex, hindex'], ?_, congrArg Digest.sha1Hex hjoined⟩
    simp [CodeBlock.overlaps, hpath, hpath']
  · dsimp only
    rw [htokens, htokens']
    decide

end Duplicates

end CodeHealth
