import KindLift.Proofs.WrittenTokens

/-! No token ends in white space. So the blanks at the end of a text belong to no token. -/
namespace KindLift.TokenEnds
open Token Text TokenPlacement TokenLocality ScanSteps WrittenTokens

variable {c d : Char} {chars rest next body front : List Char} {kind : TokenKind} {glued : Bool}

/-! ### Characters -/

/-- The code points of white space above ASCII. -/
def spaceCodes : List Nat :=
  [0x85, 0xA0, 0x1680, 0x2000, 0x2001, 0x2002, 0x2003, 0x2004, 0x2005, 0x2006, 0x2007, 0x2008, 0x2009, 0x200A,
   0x2028, 0x2029, 0x202F, 0x205F, 0x3000]

theorem space_code {code : Nat} (space : inRanges whiteSpaceRanges code = true) : code ∈ spaceCodes := by
  simp only [inRanges, whiteSpaceRanges, List.any_cons, List.any_nil, Bool.or_eq_true, Bool.and_eq_true, decide_eq_true_eq,
    Bool.or_false] at space
  simp only [spaceCodes, List.mem_cons, List.not_mem_nil, or_false]
  omega

theorem spaceCodes_foreign : ∀ code ∈ spaceCodes,
    inRanges alphabeticRanges code = false ∧ inRanges numericRanges code = false := by
  decide +kernel

/-- White space is no part of a word. -/
theorem identPart_solid (part : isIdentPart c = true) : isWhiteSpace c = false := by
  by_contra space
  rw [Bool.not_eq_false] at space
  have under : c ≠ '_' ∧ c ≠ '$' := by constructor <;> rintro rfl <;> exact absurd space (by decide)
  simp only [isIdentPart, isAlphanumeric, isAlphabetic, isNumeric, under.1, under.2, decide_false, Bool.or_false] at part
  cases ascii : isAscii c with
  | true =>
    simp only [ascii, if_true] at part
    rw [solid_of_alphanum part] at space
    cases space
  | false =>
    simp only [isWhiteSpace, ascii, if_false, Bool.false_eq_true] at space part
    obtain ⟨letter, digit⟩ := spaceCodes_foreign _ (space_code space)
    rw [letter, digit] at part
    cases part

/-- White space is no symbol. -/
theorem operator_solid (symbol : isOperatorChar c = true) : isWhiteSpace c = false := by
  by_contra space
  rw [Bool.not_eq_false] at space
  simp only [isOperatorChar, space, Bool.not_true, Bool.and_false, Bool.or_false] at symbol
  have solid : "!#%&*+-/:<=>?@\\^|~".toList.all (fun e => !isWhiteSpace e) = true := by decide
  have found := List.all_eq_true.mp solid c (List.contains_iff_mem.mp symbol)
  rw [space] at found
  cases found

/-! ### Literals -/

/-- The frame is a string and no part of one. -/
def isString : Frame → Bool
  | .quoted _ _ | .tripled _ _ => true
  | _ => false

/-- A string is read on, or it ends in a quotation mark. -/
theorem advance_string {frame : Frame} {inner : List Frame} {more : Nat} (string : isString frame = true)
    (advanced : frame.advance c rest = .ok (inner, more)) :
    inner = [] ∧ (c :: rest.take more).getLast? = some '"' ∨ inner ≠ [] ∧ ∀ last ∈ inner.getLast?, isString last = true := by
  cases frame <;> simp only [isString, Bool.false_eq_true] at string
  case quoted spliced opened =>
    simp only [Frame.advance] at advanced
    split at advanced
    · cases advanced
    split at advanced
    · rename_i quote
      cases advanced
      exact .inl ⟨rfl, by rw [quote]; rfl⟩
    split at advanced
    · cases advanced
      exact .inr ⟨by simp, by rintro last ⟨⟩; rfl⟩
    split at advanced
    · split at advanced
      · cases advanced
      · cases advanced
        exact .inr ⟨by simp, by rintro last ⟨⟩; rfl⟩
    · cases advanced
      exact .inr ⟨by simp, by rintro last ⟨⟩; rfl⟩
  case tripled spliced opened =>
    simp only [Frame.advance] at advanced
    split at advanced
    · rename_i quotes
      cases advanced
      simp only [Bool.and_eq_true, decide_eq_true_eq] at quotes
      obtain ⟨tail, rfl⟩ := List.isPrefixOf_iff_prefix.mp quotes.1.2
      exact .inl ⟨rfl, rfl⟩
    split at advanced
    · cases advanced
      exact .inr ⟨by simp, by rintro last ⟨⟩; rfl⟩
    · cases advanced
      exact .inr ⟨by simp, by rintro last ⟨⟩; rfl⟩

/-- A string ends in a quotation mark. -/
theorem closeFrames_last {frames : List Frame} (closed : closeFrames frames chars = .ok next)
    (whole : chars = body ++ next) (string : ∀ frame ∈ frames.getLast?, isString frame = true) (opened : frames ≠ []) :
    body.getLast? = some '"' := by
  fun_induction closeFrames frames chars generalizing body with
  | case1 => exact absurd rfl opened
  | case2 => cases closed
  | case3 => cases closed
  | case4 =>
    rename_i frame outer c rest inner more advanced ih
    obtain ⟨later, left⟩ := closeFrames_suffix closed
    obtain rfl : c :: rest.take more ++ later = body := by
      rw [← List.take_append_drop more rest, ← left, ← List.append_assoc, ← List.cons_append, List.append_cancel_right_eq] at whole
      exact whole
    cases outer with
    | nil =>
      rcases advance_string (string frame rfl) advanced with ⟨rfl, last⟩ | ⟨goes, inside⟩
      · rw [List.nil_append, closeFrames, Except.ok.injEq, ← left, List.append_left_eq_self] at closed
        rw [closed, List.append_nil]
        exact last
      · rw [List.append_nil] at ih
        rw [List.getLast?_append, ih (by simpa using closed) left.symm inside goes]
        rfl
    | cons second outer =>
      have last : (inner ++ second :: outer).getLast? = (frame :: second :: outer).getLast? := by
        rw [List.getLast?_append_of_ne_nil _ (List.cons_ne_nil _ _), List.getLast?_cons_cons]
      rw [List.getLast?_append, ih closed left.symm (last ▸ string) (by simp)]
      rfl

/-- The text is not empty and does not end in white space. -/
def EndsSolid (chars : List Char) : Prop := ∃ front last, chars = front ++ [last] ∧ isWhiteSpace last = false

theorem endsSolid_of_all (solid : ∀ d ∈ c :: body, isWhiteSpace d = false) : EndsSolid (c :: body) := by
  have nonempty : c :: body ≠ [] := List.cons_ne_nil _ _
  exact ⟨_, _, (List.dropLast_concat_getLast nonempty).symm, solid _ (List.getLast_mem nonempty)⟩

theorem endsSolid_of_getLast? (last : chars.getLast? = some d) (solid : isWhiteSpace d = false) : EndsSolid chars := by
  obtain ⟨front, rfl⟩ := List.getLast?_eq_some_iff.mp last
  exact ⟨front, d, rfl, solid⟩

theorem EndsSolid.cons (ends : EndsSolid chars) (c : Char) : EndsSolid (c :: chars) := by
  obtain ⟨front, last, rfl, solid⟩ := ends
  exact ⟨c :: front, last, rfl, solid⟩

theorem EndsSolid.prepend (ends : EndsSolid chars) (front : List Char) : EndsSolid (front ++ chars) := by
  obtain ⟨body, last, rfl, solid⟩ := ends
  exact ⟨front ++ body, last, (List.append_assoc ..).symm, solid⟩

theorem skipString_last (read : skipString glued (body ++ next) = .ok next) : body.getLast? = some '"' := by
  generalize whole : body ++ next = chars at read
  unfold skipString at read
  split at read
  · rename_i tail
    obtain ⟨later, rfl⟩ := closeFrames_suffix read
    obtain rfl : '"' :: '"' :: later = body := by
      rw [← List.cons_append, ← List.cons_append, List.append_cancel_right_eq] at whole
      exact whole.symm
    have last := closeFrames_last read rfl (by rintro frame ⟨⟩; rfl) (by simp)
    rw [List.getLast?_cons, List.getLast?_cons, last]
    rfl
  · exact closeFrames_last read whole.symm (by rintro frame ⟨⟩; rfl) (by simp)

theorem skipString_ends (read : skipString glued (body ++ next) = .ok next) : EndsSolid (c :: body) :=
  (endsSolid_of_getLast? (skipString_last read) rfl).cons c

/-- What is passed over is a run of characters of the class. -/
theorem run_of_dropWhile {p : Char → Bool} (dropped : (body ++ next).dropWhile p = next) : ∀ d ∈ body, p d = true := by
  have taken : (body ++ next).takeWhile p = body := by rw [takeWhile_eq_consumed, dropped, consumed_append]
  rw [← taken]
  exact List.all_eq_true.mp (@List.all_takeWhile _ p (body ++ next))

/-- What is passed over up to a mark, and the mark, end in the mark. -/
theorem ends_of_dropWhile {p : Char → Bool} (dropped : (body ++ next).dropWhile p = d :: next)
    (solid : isWhiteSpace d = false) : EndsSolid body := by
  have suffix := List.dropWhile_suffix (l := body ++ next) p
  rw [dropped] at suffix
  obtain ⟨later, whole⟩ := suffix
  rw [List.append_cons, List.append_cancel_right_eq] at whole
  exact ⟨later, d, whole.symm, solid⟩

theorem skipQuote_ends (read : skipQuote (body ++ next) = .ok next) : EndsSolid ('\'' :: body) := by
  generalize whole : body ++ next = chars at read
  unfold skipQuote at read
  split at read
  · rename_i tail
    rw [← whole] at read
    split at read
    · rename_i rest dropped
      cases read
      exact (ends_of_dropWhile dropped rfl).cons _
    · cases read
  · rename_i first tail _
    cases read
    obtain rfl : body = [first, '\''] := List.append_cancel_right whole
    exact ⟨['\'', first], '\'', rfl, rfl⟩
  · rename_i first tail _ _
    rw [← whole] at read
    split at read
    · rw [Except.ok.injEq] at read
      refine endsSolid_of_all (List.forall_mem_cons.mpr ⟨rfl, fun d member => ?_⟩)
      exact identPart_solid (run_of_dropWhile read d member)
    · cases read
  · cases read

/-- A number holds no white space. -/
theorem skipNumber_solid {previous : Char} (read : skipNumber previous (body ++ next) = next) :
    ∀ d ∈ body, isWhiteSpace d = false := by
  induction body generalizing previous with
  | nil => simp
  | cons d body ih =>
    rw [List.cons_append, skipNumber] at read
    split at read
    · rename_i part
      refine List.forall_mem_cons.mpr ⟨?_, ih read⟩
      by_contra space
      rw [Bool.not_eq_false] at space
      have signs : d ≠ '_' ∧ d ≠ '-' ∧ d ≠ '+' ∧ d ≠ '.' := by
        refine ⟨?_, ?_, ?_, ?_⟩ <;> rintro rfl <;> exact absurd space (by decide)
      simp only [signs.1, signs.2.1, signs.2.2.1, signs.2.2.2, decide_false, Bool.or_false, Bool.false_and] at part
      rw [solid_of_alphanum part] at space
      cases space
    · have length := congrArg List.length read
      simp only [List.length_cons, List.length_append] at length
      omega

/-- A word is made of parts of words and symbols. -/
theorem skipWord_solid (read : skipWord c (body ++ next) = next) : ∀ d ∈ body, isWhiteSpace d = false := by
  obtain ⟨front, run, rfl, part, operator, -⟩ := skipWord_parts read
  refine List.forall_mem_append.mpr ⟨fun d member => identPart_solid (part d member), fun d member => ?_⟩
  exact operator_solid (operator d member)

/-! ### Tokens -/

/-- No token ends in white space. -/
theorem readToken_ends (read : readToken glued c (body ++ next) = .ok (kind, next)) (solid : isWhiteSpace c = false) :
    EndsSolid (c :: body) := by
  have whole : (∀ d ∈ body, isWhiteSpace d = false) → EndsSolid (c :: body) :=
    fun inside => endsSolid_of_all (List.forall_mem_cons.mpr ⟨solid, inside⟩)
  unfold readToken at read
  split at read
  · obtain ⟨-, same⟩ := Prod.mk.inj (Except.ok.inj read)
    rw [List.append_left_eq_self] at same
    exact whole (by simp [same])
  split at read
  · obtain ⟨_, skipped, same⟩ := map_eq_ok read
    cases same
    exact skipString_ends skipped
  split at read
  · rename_i quote
    obtain ⟨_, skipped, same⟩ := map_eq_ok read
    cases same
    rw [quote]
    exact skipQuote_ends skipped
  split at read
  · split at read
    · rename_i dropped
      obtain ⟨-, rfl⟩ := Prod.mk.inj (Except.ok.inj read)
      exact (ends_of_dropWhile dropped rfl).cons c
    · cases read
  split at read
  · exact whole (skipNumber_solid (Prod.mk.inj (Except.ok.inj read)).2)
  split at read
  · exact whole (skipWord_solid (Prod.mk.inj (Except.ok.inj read)).2)
  split at read
  · exact whole fun d member => operator_solid (run_of_dropWhile (Prod.mk.inj (Except.ok.inj read)).2 d member)
  · cases read

/-- No token of a text ends in white space. -/
theorem scanned_ends {offset : Nat} {token : Token} {tokens : List Token}
    (scanned : scanFrom offset glued chars = .ok (token :: tokens)) : EndsSolid token.lexeme := by
  obtain ⟨gap, c, body, next, -, skipped, read, shape, -⟩ := scanFrom_first scanned
  rw [shape]
  exact readToken_ends read (by simpa using TriviaGaps.skipTrivia_solid skipped)

end KindLift.TokenEnds
