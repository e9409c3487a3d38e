import KindLift.Proofs.ScanRuns
import KindLift.Proofs.TokenTiling
import KindLift.Proofs.Traversal

/-! Texts that are put together at a line break. No token of a text that is accepted reaches
over its end when a line feed comes there, and none of what comes behind the line feed looks
back over it. So both texts are read as if each stood alone. -/
namespace KindLift.LineBreaks
open Token Text TokenPlacement TokenLocality TokenTiling Traversal TriviaGaps ScanSteps ScanRuns

variable {chars rest next front back wanted : List Char} {c : Char} {kind : TokenKind} {glued : Bool} {offset : Nat}
  {tokens : List Token}

/-! ### Readers at the end of a text -/

/-- A mark without a line feed does not reach over one. -/
theorem isPrefixOf_line (inline : '\n' ∉ wanted) (chars back : List Char) :
    wanted.isPrefixOf (chars ++ '\n' :: back) = wanted.isPrefixOf chars := by
  induction wanted generalizing chars with
  | nil => simp
  | cons d wanted ih =>
    obtain ⟨differs, others⟩ := List.ne_and_not_mem_of_not_mem_cons inline
    cases chars with
    | nil =>
      have other : (d == '\n') = false := beq_eq_false_iff_ne.mpr (Ne.symm differs)
      simp only [List.nil_append, List.isPrefixOf, other, Bool.false_and]
    | cons e chars => rw [List.cons_append, List.isPrefixOf, List.isPrefixOf, ih others]

/-- A class of characters without the line feed does not go on behind one. -/
theorem dropWhile_line {p : Char → Bool} (outside : p '\n' = false) (chars back : List Char) :
    (chars ++ '\n' :: back).dropWhile p = chars.dropWhile p ++ '\n' :: back ∧
      (chars ++ '\n' :: back).takeWhile p = chars.takeWhile p := by
  induction chars with
  | nil => simp [outside]
  | cons c chars ih =>
    by_cases member : p c
    · simp [member, ih]
    · simp [member]

theorem head?_line (chars back : List Char) : (chars ++ '\n' :: back).head?.any Char.isDigit = chars.head?.any Char.isDigit := by
  cases chars <;> rfl

/-- A step in a frame that is possible at the end of a text is the same in front of a line feed. -/
theorem advance_line {frame frame' : Frame} (alike : shape frame = shape frame') {found : List Frame × Nat}
    (advanced : frame.advance c chars = .ok found) (back : List Char) :
    stepShape (frame'.advance c (chars ++ '\n' :: back)) = stepShape (.ok found) := by
  have braces := @isPrefixOf_line ['\x7b'] (by decide) chars back
  have line := @isPrefixOf_line ['/'] (by decide) chars back
  have block := @isPrefixOf_line ['*'] (by decide) chars back
  have two := @isPrefixOf_line ['"', '"'] (by decide) chars back
  have three := @isPrefixOf_line ['"', '"', '"'] (by decide) chars back
  rw [← advanced]
  cases frame <;> cases frame' <;> simp only [shape, reduceCtorEq, Frame.quoted.injEq, Frame.tripled.injEq,
    Frame.splice.injEq, Frame.blockComment.injEq, and_true] at alike
  case quoted.quoted =>
    subst alike
    cases chars with
    | nil =>
      -- A backslash needs a character behind it.
      have plain : c ≠ '\\' := by
        rintro rfl
        simp [Frame.advance, List.isPrefixOf] at advanced
      simp only [Frame.advance, braces, if_neg plain, apply_ite stepShape]
      rfl
    | cons d chars =>
      have more : (d :: chars ++ '\n' :: back).isEmpty = (d :: chars).isEmpty := rfl
      simp only [Frame.advance, braces, more, apply_ite stepShape]
      rfl
  case tripled.tripled =>
    subst alike
    simp only [Frame.advance, braces, two, three, apply_ite stepShape]
    rfl
  case splice.splice enclosing glued _ _ _ _ =>
    obtain ⟨rfl, rfl⟩ := alike
    cases enclosing with
    | zero =>
      simp only [Frame.advance, two, line, block, apply_ite stepShape]
      rfl
    | succ =>
      simp only [Frame.advance, two, line, block, apply_ite stepShape]
      rfl
  case lineComment.lineComment =>
    simp only [Frame.advance, apply_ite stepShape]
    rfl
  case blockComment.blockComment enclosing _ _ _ =>
    subst alike
    cases enclosing with
    | zero =>
      simp only [Frame.advance, line, block, apply_ite stepShape]
      rfl
    | succ =>
      simp only [Frame.advance, line, block, apply_ite stepShape]
      rfl

theorem closeFrames_line {frames frames' : List Frame} (closed : closeFrames frames chars = .ok rest)
    (alike : frames.map shape = frames'.map shape) (back : List Char) :
    closeFrames frames' (chars ++ '\n' :: back) = .ok (rest ++ '\n' :: back) := by
  fun_induction closeFrames frames chars generalizing frames' with
  | case1 rest =>
    cases closed
    rw [List.map_nil, eq_comm, List.map_eq_nil_iff] at alike
    rw [alike, closeFrames]
  | case2 => cases closed
  | case3 => cases closed
  | case4 frame outer c chars inner more advanced ih =>
    cases frames' with
    | nil => cases alike
    | cons frame' outer' =>
      rw [List.map_cons, List.map_cons, List.cons.injEq] at alike
      have same := advance_line alike.1 advanced back
      have fits := advance_fits advanced
      cases advanced' : frame'.advance c (chars ++ '\n' :: back) with
      | error fault =>
        rw [advanced'] at same
        cases same
      | ok found =>
        obtain ⟨inner', more'⟩ := found
        rw [advanced'] at same
        simp only [stepShape, Except.toOption, Option.map_some, Option.some.injEq, Prod.mk.injEq] at same
        obtain ⟨shapes, rfl⟩ := same
        have frames : (inner ++ outer).map shape = (inner' ++ outer').map shape := by
          rw [List.map_append, List.map_append, shapes, alike.2]
        rw [List.cons_append, closeFrames, advanced']
        simp only [List.drop_append_of_le_length fits]
        exact ih closed frames

theorem skipString_line (read : skipString glued chars = .ok rest) (back : List Char) :
    skipString glued (chars ++ '\n' :: back) = .ok (rest ++ '\n' :: back) := by
  by_cases two : ∃ tail, chars = '"' :: '"' :: tail
  · obtain ⟨tail, rfl⟩ := two
    rw [skipString] at read
    rw [List.cons_append, List.cons_append, skipString]
    refine closeFrames_line read ?_ back
    rfl
  · have other : ∀ tail, chars ++ '\n' :: back ≠ '"' :: '"' :: tail := by
      intro tail same
      rcases chars with _ | ⟨c, _ | ⟨d, chars⟩⟩
      · cases same
      · cases same
      · cases same
        exact two ⟨chars, rfl⟩
    rw [skipString.eq_2 _ _ fun tail same => two ⟨tail, same⟩] at read
    rw [skipString.eq_2 _ _ other]
    refine closeFrames_line read ?_ back
    rfl

theorem skipQuote_line (read : skipQuote chars = .ok rest) (back : List Char) :
    skipQuote (chars ++ '\n' :: back) = .ok (rest ++ '\n' :: back) := by
  unfold skipQuote at read
  split at read
  · rename_i tail
    split at read
    · rename_i closes
      cases read
      rw [List.cons_append, skipQuote, ← List.cons_append, (dropWhile_line rfl _ back).1, closes]
      rfl
    · cases read
  · rename_i first tail escaped
    cases read
    rw [List.cons_append, List.cons_append, skipQuote.eq_2 _ _ escaped]
  · rename_i first tail escaped closed
    split at read
    · rename_i starts
      cases read
      have open' : ∀ later, tail ++ '\n' :: back = '\'' :: later → False := by
        intro later same
        cases tail with
        | nil => cases same
        | cons d tail =>
          cases same
          exact closed _ rfl
      rw [List.cons_append, skipQuote.eq_3 _ _ escaped open', if_pos starts, ← List.cons_append,
        (dropWhile_line rfl _ back).1]
    · cases read
  · cases read

theorem skipNumber_line (previous : Char) (chars back : List Char) :
    skipNumber previous (chars ++ '\n' :: back) = skipNumber previous chars ++ '\n' :: back := by
  induction chars generalizing previous with
  | nil => simp [skipNumber]
  | cons c chars ih =>
    simp only [List.cons_append, skipNumber, head?_line]
    split
    · exact ih c
    · rfl

theorem skipWord_line (first : Char) (chars back : List Char) :
    skipWord first (chars ++ '\n' :: back) = skipWord first chars ++ '\n' :: back := by
  obtain ⟨dropped, taken⟩ := dropWhile_line (p := isIdentPart) rfl chars back
  simp only [skipWord, dropped, taken]
  split
  · exact (dropWhile_line (p := isOperatorChar) rfl _ back).1
  · rfl

theorem consumed_line (suffix : rest <:+ chars) (back : List Char) :
    consumed (chars ++ '\n' :: back) (rest ++ '\n' :: back) = consumed chars rest := by
  obtain ⟨front, rfl⟩ := suffix
  rw [List.append_assoc, consumed_append, consumed_append]

/-- A token that ends with the text is the same token in front of a line feed. -/
theorem readToken_line (read : readToken glued c chars = .ok (kind, rest)) (back : List Char) :
    readToken glued c (chars ++ '\n' :: back) = .ok (kind, rest ++ '\n' :: back) := by
  have alone : punctuation? c (chars ++ '\n' :: back) = punctuation? c chars := by
    unfold punctuation?
    rw [head?_line]
  unfold readToken at read ⊢
  rw [alone]
  cases found : punctuation? c chars with
  | some kind =>
    simp only [found] at read ⊢
    cases read
    rfl
  | none =>
    simp only [found] at read ⊢
    split at read
    · rename_i string
      obtain ⟨tail, skipped, same⟩ := map_eq_ok read
      cases same
      rw [if_pos string, skipString_line skipped]
      rfl
    rename_i string
    rw [if_neg string]
    split at read
    · rename_i tick
      obtain ⟨tail, skipped, same⟩ := map_eq_ok read
      cases same
      rw [if_pos tick, skipQuote_line skipped]
      rfl
    rename_i tick
    rw [if_neg tick]
    split at read
    · rename_i quoted
      split at read
      · rename_i tail dropped
        cases read
        rw [if_pos quoted, (dropWhile_line rfl chars back).1, dropped]
        rfl
      · cases read
    rename_i quoted
    rw [if_neg quoted]
    split at read
    · rename_i number
      cases read
      rw [if_pos number, skipNumber_line]
    rename_i number
    rw [if_neg number]
    split at read
    · rename_i word
      cases read
      rw [if_pos word, skipWord_line, consumed_line (skipWord_suffix c chars)]
    rename_i word
    rw [if_neg word]
    split at read
    · rename_i symbol
      cases read
      obtain ⟨dropped, taken⟩ := dropWhile_line (p := isOperatorChar) rfl chars back
      rw [if_pos symbol, dropped, taken]
    · cases read

/-- What is skipped at the end of a text, or in front of its next token, is skipped in front
of a line feed as well. -/
theorem skipTrivia_line {trivia trivia' : Trivia} (skipped : skipTrivia trivia chars = .ok rest)
    (alike : triviaShape trivia = triviaShape trivia') (back : List Char) :
    skipTrivia trivia' (chars ++ '\n' :: back) = skipTrivia .blank (rest ++ '\n' :: back) := by
  fun_induction skipTrivia trivia chars generalizing trivia' with
  | case1 => cases skipped
  | case2 trivia other =>
    cases skipped
    have feed : skipTrivia .blank ('\n' :: back) = skipTrivia .blank back := skipTrivia_space rfl back
    cases trivia' with
    | blank => rfl
    | lineComment => exact feed.symm
    | blockComment enclosing opened =>
      cases trivia <;> simp only [triviaShape, reduceCtorEq] at alike
      exact (other _ _ rfl).elim
  | case3 c chars blank ih =>
    cases trivia' <;> simp only [triviaShape, reduceCtorEq] at alike
    rw [List.cons_append, skipTrivia_space blank]
    exact ih skipped rfl
  | case4 tail _ ih =>
    cases trivia' <;> simp only [triviaShape, reduceCtorEq] at alike
    exact @ih .lineComment skipped rfl
  | case5 tail _ ih =>
    cases trivia' <;> simp only [triviaShape, reduceCtorEq] at alike
    exact @ih (.blockComment 0 _) skipped rfl
  | case6 c chars solid noLine noBlock =>
    cases trivia' <;> simp only [triviaShape, reduceCtorEq] at alike
    cases skipped
    rfl
  | case7 chars ih =>
    cases trivia' <;> simp only [triviaShape, reduceCtorEq] at alike
    exact @ih .blank skipped rfl
  | case8 c chars other ih =>
    cases trivia' <;> simp only [triviaShape, reduceCtorEq] at alike
    rw [List.cons_append, skipTrivia, if_neg other]
    exact ih skipped rfl
  | case9 enclosing opened tail ih =>
    cases trivia' <;> simp only [triviaShape, reduceCtorEq, Trivia.blockComment.injEq, and_true] at alike
    subst alike
    exact @ih (.blockComment _ _) skipped rfl
  | case10 opened tail ih =>
    cases trivia' <;> simp only [triviaShape, reduceCtorEq, Trivia.blockComment.injEq, and_true] at alike
    subst alike
    exact @ih .blank skipped rfl
  | case11 opened tail outer ih =>
    cases trivia' <;> simp only [triviaShape, reduceCtorEq, Trivia.blockComment.injEq, and_true] at alike
    subst alike
    exact @ih (.blockComment _ _) skipped rfl
  | case12 enclosing opened c chars opens closes ih =>
    cases trivia' <;> simp only [triviaShape, reduceCtorEq, Trivia.blockComment.injEq, and_true] at alike
    subst alike
    have first : ∀ d tail, d ≠ '\n' → chars ++ '\n' :: back = d :: tail → ∃ tail', chars = d :: tail' := by
      intro d tail inline same
      cases chars with
      | nil =>
        cases same
        exact absurd rfl inline
      | cons e chars =>
        cases same
        exact ⟨chars, rfl⟩
    rw [List.cons_append, skipTrivia_inside]
    · exact ih skipped rfl
    · rintro tail rfl same
      obtain ⟨_, starts⟩ := first _ _ (by decide) same
      exact opens _ rfl starts
    · rintro tail rfl same
      obtain ⟨_, starts⟩ := first _ _ (by decide) same
      exact closes _ rfl starts

/-! ### Whole texts -/

/-- The token a distance further on. -/
def shift (distance : Nat) (token : Token) : Token := { token with start := token.start + distance }

theorem shift_stop (distance : Nat) (token : Token) : (shift distance token).stop = token.stop + distance := by
  rw [Token.stop, Token.stop, shift, Nat.add_right_comm]

/-- Where a text begins makes no difference but to the places of its tokens. -/
theorem scanFrom_shift (distance offset : Nat) (glued : Bool) (chars : List Char) :
    scanFrom (offset + distance) glued chars = (scanFrom offset glued chars).map (List.map (shift distance)) := by
  fun_induction scanFrom offset glued chars with
  | case1 offset glued chars fault skipped => exact scanFrom_unskipped _ skipped
  | case2 offset glued chars skipped => exact scanFrom_nil _ skipped
  | case3 offset glued chars c tail skipped gap fault read =>
    have whole : gap ++ c :: tail = chars := consumed_append_self (skipTrivia_suffix skipped)
    rw [← whole] at skipped ⊢
    exact scanFrom_failed _ gap skipped read
  | case4 offset glued chars c tail skipped gap kind next read token ih =>
    have whole : gap ++ c :: tail = chars := consumed_append_self (skipTrivia_suffix skipped)
    have lexeme : consumed tail next ++ next = tail := consumed_append_self (readToken_spec read).1
    have stop : (Token.mk kind (offset + distance + byteLength gap) (c :: consumed tail next)).stop = token.stop + distance := by
      rw [Nat.add_right_comm offset, ← shift_stop]
      rfl
    rw [← lexeme] at whole skipped read
    rw [← whole] at skipped
    rw [← whole, scanFrom_cons _ gap _ skipped read, stop, ih, Nat.add_right_comm offset]
    cases scanFrom token.stop (kind = .ident) next <;> rfl

/-- A text that is accepted is read in front of a line feed as it is read alone, and what
comes behind the line feed is read next. -/
theorem scanFrom_line (scanned : scanFrom offset glued front = .ok tokens) (back : List Char) :
    scanFrom offset glued (front ++ '\n' :: back) =
      (scanFrom (offset + (byteLength front + 1)) false back).map (tokens ++ ·) := by
  induction tokens generalizing offset glued front with
  | nil =>
    have skipped := skipTrivia_line (skipTrivia_nothing scanned) rfl back
    have feed : skipTrivia .blank ((front ++ ['\n']) ++ back) = skipTrivia .blank back := by
      rw [List.append_assoc]
      exact skipped.trans (skipTrivia_space rfl back)
    rw [map_nil_append, List.append_cons, scanFrom_behind feed (by simp), byteLength_append]
    rfl
  | cons token tokens ih =>
    obtain ⟨gap, c, body, next, rfl, skipped, read, shape, later⟩ := scanFrom_first scanned
    have alone : skipTrivia .blank (c :: (body ++ next ++ '\n' :: back)) = .ok (c :: (body ++ next ++ '\n' :: back)) := by
      refine skipTrivia_ahead skipped fun e first => ?_
      cases whole : body ++ next with
      | cons d rest =>
        rw [whole] at first
        exact .inl first
      | nil =>
        rw [whole] at first
        cases first
        exact .inr (by decide)
    have skipped' := (skipTrivia_line skipped rfl back).trans alone
    have read' := readToken_line read back
    have stop : token.stop + (byteLength next + 1) = offset + (byteLength (gap ++ c :: (body ++ next)) + 1) := by
      rw [shape, ← List.cons_append, byteLength_append, byteLength_append]
      show offset + byteLength gap + byteLength (c :: body) + _ = _
      omega
    have first : token = ⟨token.kind, offset + byteLength gap, c :: body⟩ := shape
    rw [List.append_assoc] at skipped' ⊢
    rw [List.cons_append, List.append_assoc] at skipped' ⊢
    rw [List.append_assoc] at read'
    rw [scanFrom_cons offset gap body skipped' read', ← first, ih later, stop]
    exact map_append _ _ _

/-- Two texts with a line break between them are read as if each stood alone. Where the
first one is accepted, the whole is accepted exactly when the second one is: then it has the
tokens of the first, and behind them those of the second, as much further on as the second
text is. Otherwise the whole is given up where the second text is, for the same cause. -/
theorem scan_lines (front back : List Char) (accepted : scan front = .ok tokens) :
    ((∃ all, scan (front ++ '\n' :: back) = .ok all) ↔ ∃ others, scan back = .ok others) ∧
      (∀ others, scan back = .ok others →
        scan (front ++ '\n' :: back) = .ok (tokens ++ others.map (shift (byteLength front + 1)))) ∧
      ∀ error, scan back = .error error → ∃ given, scan (front ++ '\n' :: back) = .error given ∧
        given.cause = error.cause ∧ given.offset = error.offset + (byteLength front + 1) := by
  have whole := scanFrom_line (scan_eq_ok_iff.mp accepted) back
  rw [scanFrom_shift] at whole
  cases alone : scanFrom 0 false back with
  | ok others =>
    have second : scan back = .ok others := scan_eq_ok_iff.mpr alone
    rw [alone] at whole
    have both : scan (front ++ '\n' :: back) = .ok (tokens ++ others.map (shift (byteLength front + 1))) :=
      scan_eq_ok_iff.mpr whole
    simp [second, both]
  | error fault =>
    have second : scan back = .error (.locate back (byteLength back - byteLength fault.rest) fault.cause) := by
      rw [scan, alone]
    rw [alone] at whole
    have both : scan (front ++ '\n' :: back) = .error (.locate (front ++ '\n' :: back)
        (byteLength (front ++ '\n' :: back) - byteLength fault.rest) fault.cause) := by
      rw [scan, whole]
      rfl
    have opens := scanFrom_fault alone (List.suffix_refl back)
    have opens' : Opens (front ++ '\n' :: back) fault.rest :=
      ⟨opens.1.trans ((List.suffix_cons _ _).trans (List.suffix_append front _)), opens.2⟩
    have place := (locate_opens opens fault.cause).2
    have place' := (locate_opens opens' fault.cause).2
    rw [byteLength_append, byteLength_cons] at place'
    refine ⟨by simp [second, both], by simp [second], ?_⟩
    rintro error failed
    rw [second] at failed
    cases failed
    refine ⟨_, both, rfl, ?_⟩
    have feed : '\n'.utf8Size = 1 := rfl
    rw [byteLength_append, byteLength_cons]
    omega

/-- A string that begins a line is not interpolated by the word at the end of the line before. -/
theorem brokenLine_scanned :
    scan "f //'".toList = .ok [⟨.ident, 0, ['f']⟩] ∧
      scan "f //'\n\"$\x7b\"".toList = .ok [⟨.ident, 0, ['f']⟩, ⟨.literal, 6, "\"$\x7b\"".toList⟩] := by
  have front : scan "f //'".toList = .ok [⟨.ident, 0, ['f']⟩] := toOption_eq_some_iff.mp (by decide +kernel)
  have back : scan "\"$\x7b\"".toList = .ok [⟨.literal, 0, "\"$\x7b\"".toList⟩] := toOption_eq_some_iff.mp (by decide +kernel)
  exact ⟨front, (scan_lines _ _ front).2.1 _ back⟩

end KindLift.LineBreaks
