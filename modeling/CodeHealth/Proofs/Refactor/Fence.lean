import CodeHealth.Proofs.Refactor.Exposure
import CodeHealth.Proofs.Refactor.Findings

/-!
# Fences

What counts as a fenced text, by its parts: blanks, the mark, a tag, a line break, the body, the
mark and blanks again. A text is taken out of its fence exactly if it is fenced, and what is left is
its body. So a candidate may come inside a fence or not: the verification is the same, unless the
candidate is a fenced text by itself, which then loses that fence.
-/

namespace CodeHealth

namespace Text

/-- The blanks behind the last character that is none are dropped. -/
theorem trimEnd_concat_append {cs back : List Char} {c : Char} (hc : isBlank c = false)
    (hback : ∀ d ∈ back, isBlank d = true) : trimEnd (cs ++ [c] ++ back) = cs ++ [c] := by
  have hreverse : ∀ d ∈ back.reverse, isBlank d = true :=
    fun d hd => hback d (List.mem_reverse.mp hd)
  have hstop : ¬ isBlank c = true := by rw [hc]; exact Bool.false_ne_true
  unfold trimEnd dropEndWhile
  rw [List.reverse_append, List.dropWhile_append_of_pos hreverse, List.reverse_append,
    List.reverse_singleton, List.singleton_append, List.dropWhile_cons_of_neg hstop,
    List.reverse_cons, List.reverse_reverse]

theorem exists_trimEnd_append (cs : List Char) :
    ∃ back, (∀ d ∈ back, isBlank d = true) ∧ cs = trimEnd cs ++ back := by
  refine ⟨(cs.reverse.takeWhile isBlank).reverse, fun d hd => ?_, ?_⟩
  · exact List.mem_takeWhile_imp (List.mem_reverse.mp hd)
  · unfold trimEnd dropEndWhile
    rw [← List.reverse_append, List.takeWhile_append_dropWhile, List.reverse_reverse]

/-- A run of characters ends at one that does not belong to it. -/
theorem takeWhile_append_cons_of_neg {p : Char → Bool} {d : Char} (front back : List Char)
    (hd : p d = false) : (front ++ d :: back).takeWhile p = front.takeWhile p := by
  have hstop : ¬ p d = true := by rw [hd]; exact Bool.false_ne_true
  rw [List.takeWhile_append, List.takeWhile_cons_of_neg hstop, List.append_nil]
  split
  · rename_i hall
    exact ((List.takeWhile_prefix p).eq_of_length hall).symm
  · rfl

end Text

namespace Fence

open Text

variable {cs rest head tail gap : List Char}

/-- A blank ends the tag. -/
theorem isTagChar_of_isBlank {c : Char} (h : isBlank c = true) : isTagChar c = false := by
  have hcodes : ∀ n ∈ blankCodes, isTagChar (Char.ofNat n) = false := by decide +kernel
  have hmem : c.toNat ∈ blankCodes :=
    List.contains_iff_mem.mp (Bool.and_eq_true_iff.mp h).2
  have hchar := hcodes c.toNat hmem
  rwa [Char.ofNat_toNat] at hchar

/-! ## Steps -/

theorem after?_eq_some_iff : after? head cs = some rest ↔ cs = head ++ rest := by
  unfold after?
  constructor
  · intro h
    split at h
    · rename_i hprefix
      obtain ⟨back, rfl⟩ := List.isPrefixOf_iff_prefix.mp hprefix
      rw [List.drop_left] at h
      rw [Option.some.inj h]
    · exact nomatch h
  · rintro rfl
    rw [if_pos (List.isPrefixOf_iff_prefix.mpr (List.prefix_append head rest)), List.drop_left]

theorem before?_eq_some_iff : before? tail cs = some rest ↔ cs = rest ++ tail := by
  have hlength : ∀ front : List Char, (front ++ tail).length - tail.length = front.length := by
    intro front
    rw [List.length_append]
    omega
  unfold before?
  constructor
  · intro h
    split at h
    · rename_i hsuffix
      obtain ⟨front, rfl⟩ := List.isSuffixOf_iff_suffix.mp hsuffix
      rw [hlength, List.take_left] at h
      rw [Option.some.inj h]
    · exact nomatch h
  · rintro rfl
    rw [if_pos (List.isSuffixOf_iff_suffix.mpr (List.suffix_append rest tail)), hlength,
      List.take_left]

/-- The line break is the last one among the blanks. -/
theorem afterBreak?_append (hgap : ∀ c ∈ gap, isBlank c = true)
    (hrest : '\n' ∉ rest.takeWhile isBlank) : afterBreak? (gap ++ '\n' :: rest) = some rest := by
  have hblanks : (gap ++ '\n' :: rest).takeWhile isBlank =
      gap ++ '\n' :: rest.takeWhile isBlank := by
    rw [List.takeWhile_append_of_pos hgap, List.takeWhile_cons_of_pos (by decide)]
  have hdrop : (gap ++ '\n' :: rest).drop (gap ++ '\n' :: rest.takeWhile isBlank).length =
      rest.dropWhile isBlank := by
    have hsplit : gap ++ '\n' :: rest =
        gap ++ '\n' :: rest.takeWhile isBlank ++ rest.dropWhile isBlank := by
      rw [List.append_assoc, List.cons_append, List.takeWhile_append_dropWhile]
    rw [hsplit, List.drop_left]
  have hline : ∀ c ∈ (rest.takeWhile isBlank).reverse, (c != '\n') = true := by
    intro c hc
    rw [bne_iff_ne]
    rintro rfl
    exact hrest (List.mem_reverse.mp hc)
  unfold afterBreak?
  dsimp only
  rw [hblanks, if_pos (by simp), hdrop, List.reverse_append, List.reverse_cons, List.append_assoc,
    List.takeWhile_append_of_pos hline, List.singleton_append,
    List.takeWhile_cons_of_neg (by decide), List.append_nil, List.reverse_reverse,
    List.takeWhile_append_dropWhile]

/-- Where a line break ends some blanks, so does the last one of them. -/
theorem exists_last_break (rest : List Char) :
    ∃ gap last, (∀ c ∈ gap, isBlank c = true) ∧ '\n' ∉ last.takeWhile isBlank ∧
      '\n' :: rest = gap ++ '\n' :: last := by
  induction rest with
  | nil => exact ⟨[], [], nofun, List.not_mem_nil, rfl⟩
  | cons c rest ih =>
      obtain ⟨gap, last, hgap, hlast, hrest⟩ := ih
      by_cases hc : isBlank c = true
      · cases gap with
        | nil =>
            obtain rfl : rest = last := (List.cons.inj hrest).2
            by_cases hbreak : c = '\n'
            · exact ⟨['\n'], rest, by simpa using hbreak ▸ hc, hlast, by rw [hbreak]; rfl⟩
            · refine ⟨[], c :: rest, nofun, ?_, rfl⟩
              rw [List.takeWhile_cons_of_pos hc, List.mem_cons, not_or]
              exact ⟨Ne.symm hbreak, hlast⟩
        | cons d gap =>
            obtain ⟨rfl, rfl⟩ := List.cons.inj hrest
            rw [List.forall_mem_cons] at hgap
            refine ⟨'\n' :: c :: gap, last, ?_, hlast, rfl⟩
            rw [List.forall_mem_cons, List.forall_mem_cons]
            exact ⟨hgap.1, hc, hgap.2⟩
      · refine ⟨[], c :: rest, nofun, ?_, rfl⟩
        rw [List.takeWhile_cons_of_neg hc]
        exact List.not_mem_nil

theorem exists_of_afterBreak? (h : afterBreak? cs = some rest) :
    ∃ gap, (∀ c ∈ gap, isBlank c = true) ∧ cs = gap ++ '\n' :: rest := by
  have hbreak : '\n' ∈ cs.takeWhile isBlank := by
    by_contra hnone
    unfold afterBreak? at h
    simp [hnone] at h
  obtain ⟨front, back, hfront⟩ := List.append_of_mem hbreak
  have hblank : ∀ c ∈ front, isBlank c = true := by
    intro c hc
    apply List.mem_takeWhile_imp (l := cs)
    rw [hfront]
    exact List.mem_append_left _ hc
  obtain ⟨gap, last, hgap, hlast, hback⟩ := exists_last_break (back ++ cs.dropWhile isBlank)
  have hcs : cs = (front ++ gap) ++ '\n' :: last := by
    rw [List.append_assoc, ← hback, ← List.cons_append, ← List.append_assoc, ← hfront,
      List.takeWhile_append_dropWhile]
  have hblanks : ∀ c ∈ front ++ gap, isBlank c = true :=
    fun c hc => (List.mem_append.mp hc).elim (hblank c) (hgap c)
  rw [hcs, afterBreak?_append hblanks hlast] at h
  obtain rfl := Option.some.inj h
  exact ⟨front ++ gap, hblanks, hcs⟩

/-! ## Fenced texts -/

/-- What a fenced text is put together from. -/
structure Parts where
  front : List Char
  tag : List Char
  gap : List Char
  body : List Char
  back : List Char
  front_blank : ∀ c ∈ front, isBlank c = true
  tag_chars : ∀ c ∈ tag, isTagChar c = true
  gap_blank : ∀ c ∈ gap, isBlank c = true
  back_blank : ∀ c ∈ back, isBlank c = true

/-- The fenced text. -/
def Parts.text (p : Parts) : List Char :=
  p.front ++ (mark ++ (p.tag ++ (p.gap ++ '\n' :: (p.body ++ mark ++ p.back))))

/-- The text is fenced as a whole. -/
def IsFenced (cs : List Char) : Prop :=
  ∃ p : Parts, p.text = cs

theorem dropWhile_text (p : Parts) :
    p.text.dropWhile isBlank =
      mark ++ (p.tag ++ (p.gap ++ '\n' :: (p.body ++ mark ++ p.back))) := by
  rw [Parts.text, List.dropWhile_append_of_pos p.front_blank]
  rfl

/-- A fenced text begins with the mark, after blanks. -/
theorem IsFenced.mark_prefix (h : IsFenced cs) : mark <+: cs.dropWhile isBlank := by
  obtain ⟨p, rfl⟩ := h
  rw [dropWhile_text]
  exact List.prefix_append mark _

theorem dropWhile_tag (p : Parts) :
    (p.tag ++ (p.gap ++ '\n' :: (p.body ++ mark ++ p.back))).dropWhile isTagChar =
      p.gap ++ '\n' :: (p.body ++ mark ++ p.back) := by
  rw [List.dropWhile_append_of_pos p.tag_chars]
  cases hgap : p.gap with
  | nil => rfl
  | cons c gap =>
      have hblank : isBlank c = true := p.gap_blank c (hgap ▸ List.mem_cons_self)
      apply List.dropWhile_cons_of_neg
      rw [isTagChar_of_isBlank hblank]
      exact Bool.false_ne_true

/-- The body of a fenced text with no blank line below its tag. -/
theorem body?_text (p : Parts) (hbody : '\n' ∉ p.body.takeWhile isBlank) :
    body? p.text = some (trimEnd p.body) := by
  have hbreak : '\n' ∉ (p.body ++ mark ++ p.back).takeWhile isBlank := by
    have hmark : p.body ++ mark ++ p.back = p.body ++ '\x60' :: (['\x60', '\x60'] ++ p.back) := by
      rw [List.append_assoc]
      rfl
    rwa [hmark, takeWhile_append_cons_of_neg _ _ (by decide)]
  have hend : trimEnd (p.body ++ mark ++ p.back) = p.body ++ mark := by
    have hmark : p.body ++ mark = p.body ++ ['\x60', '\x60'] ++ ['\x60'] := by
      rw [List.append_assoc]
      rfl
    rw [hmark]
    exact trimEnd_concat_append (by decide) p.back_blank
  unfold body?
  rw [dropWhile_text, after?_eq_some_iff.mpr rfl, Option.bind_eq_bind, Option.bind_some,
    dropWhile_tag, afterBreak?_append p.gap_blank hbreak, Option.bind_some, hend,
    before?_eq_some_iff.mpr rfl]
  rfl

/-- The blank lines below the tag can be counted among the blanks behind it. -/
theorem exists_parts (p : Parts) :
    ∃ q : Parts, q.text = p.text ∧ '\n' ∉ q.body.takeWhile isBlank := by
  obtain ⟨gap, body, hgap, hbody, heq⟩ := exists_last_break p.body
  refine ⟨{ p with
    gap := p.gap ++ gap
    body
    gap_blank := fun c hc => (List.mem_append.mp hc).elim (p.gap_blank c) (hgap c) }, ?_, hbody⟩
  have hjoin : p.gap ++ gap ++ '\n' :: (body ++ mark ++ p.back) =
      p.gap ++ '\n' :: (p.body ++ mark ++ p.back) := by
    have := congrArg (fun cs => p.gap ++ (cs ++ mark ++ p.back)) heq
    simpa only [List.append_assoc, List.cons_append] using this.symm
  unfold Parts.text
  dsimp only
  rw [hjoin]

theorem isFenced_of_body? {body : List Char} (h : body? cs = some body) : IsFenced cs := by
  unfold body? at h
  simp only [Option.bind_eq_bind, Option.bind_eq_some_iff] at h
  obtain ⟨tagged, htagged, inner, hinner, outer, houter, -⟩ := h
  obtain ⟨gap, hgap, hinner⟩ := exists_of_afterBreak? hinner
  obtain ⟨back, hback, hend⟩ := exists_trimEnd_append inner
  rw [before?_eq_some_iff.mp houter] at hend
  refine ⟨{
    front := cs.takeWhile isBlank, tag := tagged.takeWhile isTagChar, gap, body := outer, back
    front_blank := fun c hc => List.mem_takeWhile_imp hc
    tag_chars := fun c hc => List.mem_takeWhile_imp hc
    gap_blank := hgap
    back_blank := hback }, ?_⟩
  unfold Parts.text
  dsimp only
  rw [← hend, ← hinner, List.takeWhile_append_dropWhile, ← after?_eq_some_iff.mp htagged,
    List.takeWhile_append_dropWhile]

theorem IsFenced.exists_body? (h : IsFenced cs) :
    ∃ p : Parts, p.text = cs ∧ body? cs = some (trimEnd p.body) := by
  obtain ⟨p, rfl⟩ := h
  obtain ⟨q, hq, hbody⟩ := exists_parts p
  exact ⟨q, hq, hq ▸ body?_text q hbody⟩

/-- A text is taken out of a fence exactly if it is fenced. -/
theorem strip_eq_self_iff {s : String} : strip s = s ↔ ¬ IsFenced s.toList := by
  constructor
  · intro hstrip hfenced
    obtain ⟨p, htext, hbody⟩ := hfenced.exists_body?
    obtain ⟨back, -, hback⟩ := exists_trimEnd_append p.body
    unfold strip at hstrip
    rw [hbody] at hstrip
    have hlength := congrArg (fun t => t.toList.length) hstrip
    have htext := congrArg List.length htext
    have hback := congrArg List.length hback
    simp only [Parts.text, mark, String.toList_ofList, List.length_append, List.length_cons,
      List.length_nil] at hlength htext hback
    omega
  · intro hfenced
    have hnone : body? s.toList = none := by
      rw [Option.eq_none_iff_forall_ne_some]
      exact fun body hbody => hfenced (isFenced_of_body? hbody)
    unfold strip
    rw [hnone]

/-- A text that does not begin with the mark after blanks is left as it is. -/
theorem strip_of_not_prefix {s : String} (h : ¬ mark <+: s.toList.dropWhile isBlank) :
    strip s = s :=
  strip_eq_self_iff.mpr fun hfenced => h hfenced.mark_prefix

/-- A final line feed does not make a fenced text of one that does not begin with the mark. -/
theorem not_isFenced_concat (h : ¬ mark <+: cs.dropWhile isBlank) : ¬ IsFenced (cs ++ ['\n']) := by
  intro hfenced
  have hmark := hfenced.mark_prefix
  rw [List.dropWhile_append] at hmark
  split at hmark
  · exact absurd hmark (by decide)
  · rcases List.prefix_concat_iff.mp hmark with heq | hmark
    · have hlast := congrArg List.getLast? heq
      rw [List.getLast?_concat] at hlast
      exact absurd hlast (by decide)
    · exact h hmark

/-! ## Putting a text into a fence -/

/-- A text inside a fence with a tag, between other texts. -/
def wrap (front tag code back : String) : String :=
  front ++ String.ofList mark ++ tag ++ "\n" ++ code ++ "\n" ++ String.ofList mark ++ back

/-- The texts around a text form a fence for it: blanks at both ends and a tag. The text's first
line is not blank, and it does not end with a blank. -/
structure Encloses (front tag code back : String) : Prop where
  front_blank : ∀ c ∈ front.toList, isBlank c = true
  tag_chars : ∀ c ∈ tag.toList, isTagChar c = true
  first_line : ∃ c ∈ code.toList.takeWhile (· != '\n'), isBlank c = false
  last_char : ∀ c ∈ code.toList.getLast?, isBlank c = false
  back_blank : ∀ c ∈ back.toList, isBlank c = true

namespace Encloses

variable {front tag code back : String}

/-- The fence as parts. -/
def parts (h : Encloses front tag code back) : Parts where
  front := front.toList
  tag := tag.toList
  gap := []
  body := code.toList ++ ['\n']
  back := back.toList
  front_blank := h.front_blank
  tag_chars := h.tag_chars
  gap_blank := nofun
  back_blank := h.back_blank

theorem text_parts (h : Encloses front tag code back) :
    h.parts.text = (wrap front tag code back).toList := by
  simp [Parts.text, parts, wrap]

/-- The blanks that the text begins with end in its first line. -/
theorem newline_not_mem (h : Encloses front tag code back) :
    '\n' ∉ (code.toList ++ ['\n']).takeWhile isBlank := by
  obtain ⟨c, hc, hblank⟩ := h.first_line
  obtain ⟨before, after, hline⟩ := List.append_of_mem hc
  have hcode : code.toList ++ ['\n'] =
      before ++ c :: (after ++ code.toList.dropWhile (· != '\n') ++ ['\n']) := by
    rw [← List.cons_append, ← List.cons_append, ← List.append_assoc, ← List.append_assoc, ← hline,
      List.takeWhile_append_dropWhile]
  rw [hcode, takeWhile_append_cons_of_neg _ _ hblank]
  intro hmem
  have hbefore : '\n' ∈ code.toList.takeWhile (· != '\n') := by
    rw [hline]
    exact List.mem_append_left _ ((List.takeWhile_prefix isBlank).mem hmem)
  simpa using List.mem_takeWhile_imp hbefore

theorem trimEnd_body (h : Encloses front tag code back) :
    trimEnd (code.toList ++ ['\n']) = code.toList := by
  obtain ⟨c, hc, -⟩ := h.first_line
  have hne : code.toList ≠ [] :=
    List.ne_nil_of_mem ((List.takeWhile_prefix (· != '\n')).mem hc)
  have hlast := h.last_char _ (List.getLast?_eq_some_getLast hne)
  rw [← List.dropLast_append_getLast hne]
  exact trimEnd_concat_append hlast fun d hd => List.mem_singleton.mp hd ▸ rfl

theorem strip_wrap (h : Encloses front tag code back) :
    strip (wrap front tag code back) = code ++ "\n" := by
  have hbody := body?_text h.parts h.newline_not_mem
  rw [text_parts, show h.parts.body = code.toList ++ ['\n'] from rfl, h.trimEnd_body] at hbody
  unfold strip
  rw [hbody]
  dsimp only
  rw [String.ofList_append, String.ofList_toList]

/-- A fence taken off leaves what stands by itself, unless this is a fenced text. -/
theorem strip_wrap_eq_iff (h : Encloses front tag code back) :
    strip (wrap front tag code back) = strip (code ++ "\n") ↔ ¬ IsFenced (code ++ "\n").toList := by
  rw [h.strip_wrap, eq_comm, strip_eq_self_iff]

end Encloses

end Fence

/-! ## Verifying a fenced candidate -/

namespace Verification

variable {grammar : Grammar} {options : Options} {request : VerificationRequest} {code : String}

/-- The checks look at the trees of the candidate, not at its text. -/
theorem layer_newCode {check : RiskCheck} (hcheck : check ∈ RiskCheck.standard)
    (old new : SourceTree) (changes : List LineChange) :
    check.layer ⟨{ request with newCode := code }, options, old, new, changes⟩ =
      check.layer ⟨request, options, old, new, changes⟩ := by
  simp only [RiskCheck.standard, List.mem_cons, List.not_mem_nil, or_false] at hcheck
  rcases hcheck with rfl | rfl | rfl | rfl | rfl | rfl <;> rfl

theorem findings_newCode (h : Fence.strip code = Fence.strip request.newCode) :
    findings grammar options RiskCheck.standard { request with newCode := code } =
      findings grammar options RiskCheck.standard request := by
  have htext : checkSyntax grammar (start options { request with newCode := code }) =
      checkSyntax grammar (start options request) := by
    unfold checkSyntax readTrees start
    dsimp only
    rw [h]
  have htrees : ∀ trees : Trees,
      treeFindings options RiskCheck.standard { request with newCode := code } trees =
        treeFindings options RiskCheck.standard request trees := by
    intro trees
    unfold treeFindings
    simp only [List.map_congr_left fun check hcheck => layer_newCode hcheck _ _ _]
  unfold findings
  rw [htext]
  simp only [htrees]

theorem suggestion_newCode (f : Findings) (h : Fence.strip code = Fence.strip request.newCode) :
    f.suggestion { request with newCode := code } = f.suggestion request := by
  unfold Findings.suggestion start suggestion
  dsimp only
  rw [h]
  rfl

end Verification

/-- Two candidates get the same suggestion exactly if the same text is left without fences. -/
theorem verify_newCode_eq_iff {grammar : Grammar} {options : Options}
    (request : VerificationRequest) (code : String) :
    verify grammar options RiskCheck.standard { request with newCode := code } =
        verify grammar options RiskCheck.standard request ↔
      Fence.strip code = Fence.strip request.newCode := by
  rw [verify_eq_suggestion, verify_eq_suggestion]
  constructor
  · intro heq
    exact congrArg Suggestion.newCode (Except.ok.inj heq)
  · intro h
    rw [Verification.findings_newCode h, Verification.suggestion_newCode _ h]

/-- Taking the fence off gives the text inside it with one line feed behind, and a text that does
not begin with the mark after blanks is left as it is. So a candidate gets the same suggestion
inside a fence and by itself with a line feed behind, unless the latter is a fenced text, which it
can be only if it begins with the mark after blanks. -/
theorem fenced_candidate_verifies_alike :
    (∀ front tag code back : String, Fence.Encloses front tag code back →
      Fence.strip (Fence.wrap front tag code back) = code ++ "\n") ∧
    (∀ text : String, ¬ Fence.mark <+: text.toList.dropWhile Text.isBlank →
      Fence.strip text = text) ∧
    (∀ (grammar : Grammar) (options : Options) (request : VerificationRequest)
        (front tag code back : String), Fence.Encloses front tag code back →
      (verify grammar options RiskCheck.standard
            { request with newCode := Fence.wrap front tag code back } =
          verify grammar options RiskCheck.standard { request with newCode := code ++ "\n" } ↔
        ¬ Fence.IsFenced (code ++ "\n").toList) ∧
      (¬ Fence.mark <+: code.toList.dropWhile Text.isBlank →
        verify grammar options RiskCheck.standard
            { request with newCode := Fence.wrap front tag code back } =
          verify grammar options RiskCheck.standard { request with newCode := code ++ "\n" })) := by
  refine ⟨fun _ _ _ _ h => h.strip_wrap, fun _ => Fence.strip_of_not_prefix, ?_⟩
  intro grammar options request front tag code back h
  have hiff : verify grammar options RiskCheck.standard
        { request with newCode := Fence.wrap front tag code back } =
      verify grammar options RiskCheck.standard { request with newCode := code ++ "\n" } ↔
        ¬ Fence.IsFenced (code ++ "\n").toList :=
    (verify_newCode_eq_iff { request with newCode := code ++ "\n" } _).trans
      h.strip_wrap_eq_iff
  refine ⟨hiff, fun hmark => hiff.mpr ?_⟩
  rw [String.toList_append]
  exact Fence.not_isFenced_concat hmark

theorem fenced_assignment_verifies_alike :
    Fence.Encloses "\n" "python" "x = 1" " \n" ∧
    Fence.strip (Fence.wrap "\n" "python" "x = 1" " \n") = "x = 1\n" ∧
    ¬ Fence.mark <+: "x = 1".toList.dropWhile Text.isBlank ∧
    Fence.strip "x = 1" = "x = 1" ∧
    verify (fun _ _ => .error "") {} RiskCheck.standard
        (settingsRequest "x = 1\n" (Fence.wrap "\n" "python" "x = 1" " \n")) =
      verify (fun _ _ => .error "") {} RiskCheck.standard
        (settingsRequest "x = 1\n" "x = 1\n") := by
  have hmark : ¬ Fence.mark <+: "x = 1".toList.dropWhile Text.isBlank := by decide
  have hlast : "x = 1".toList.getLast? = some '1' := by decide
  have hencloses : Fence.Encloses "\n" "python" "x = 1" " \n" := {
    front_blank := List.all_eq_true.mp (by decide)
    tag_chars := List.all_eq_true.mp (by decide)
    first_line := ⟨'x', by decide, by decide⟩
    last_char := fun c hc => Option.some.inj (hlast.symm.trans hc) ▸ rfl
    back_blank := List.all_eq_true.mp (by decide) }
  obtain ⟨hstrip, hkept, hverify⟩ := fenced_candidate_verifies_alike
  exact ⟨hencloses, hstrip _ _ _ _ hencloses, hmark, hkept _ hmark,
    (hverify _ _ (settingsRequest "x = 1\n" "") _ _ _ _ hencloses).2 hmark⟩

/-- A fenced text with a blank in front of its mark. -/
def indentedFence : String :=
  " \x60\x60\x60\nx=1\n\x60\x60\x60"

/-- A text that does not itself begin with the mark may still be a fenced one. -/
theorem indented_fence_verifies_differently :
    Fence.Encloses "" "" indentedFence "" ∧
    ¬ Fence.mark <+: indentedFence.toList ∧
    verify (fun _ _ => .error "") {} RiskCheck.standard
        (settingsRequest "x=1\n" (Fence.wrap "" "" indentedFence "")) ≠
      verify (fun _ _ => .error "") {} RiskCheck.standard
        (settingsRequest "x=1\n" (indentedFence ++ "\n")) := by
  have hlast : indentedFence.toList.getLast? = some '\x60' := by decide
  have hencloses : Fence.Encloses "" "" indentedFence "" := {
    front_blank := List.all_eq_true.mp (by decide)
    tag_chars := List.all_eq_true.mp (by decide)
    first_line := ⟨'\x60', by decide, by decide⟩
    last_char := fun c hc => Option.some.inj (hlast.symm.trans hc) ▸ rfl
    back_blank := List.all_eq_true.mp (by decide) }
  refine ⟨hencloses, by decide, fun heq => ?_⟩
  have hstrip :=
    (verify_newCode_eq_iff (settingsRequest "x=1\n" (indentedFence ++ "\n")) _).mp heq
  exact absurd hstrip (by decide +kernel)

end CodeHealth
