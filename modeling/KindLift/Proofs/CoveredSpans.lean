import KindLift.Proofs.BodyLayouts
import KindLift.Proofs.ScanRuns

/-! The tokens that a span was made of. A name, a group and a list of parents cover the
tokens that were read for them, from the beginning of the first to the end of the last. -/
namespace KindLift.CoveredSpans
open KindLift.Parser ParserLogic CursorAdvance CursorPlacement TokenPlacement BodyLayouts TokenReaders ScanRuns

variable {source : List Char} {left right middle next : Cursor} {ends ends' : TokenKind → Prop} {span span' : Span} {token : Token}
  {tokens rest : List Token}

/-- The tokens that a span covers, and what kind the last of them is of. -/
structure Covers (ends : TokenKind → Prop) (tokens : List Token) (span : Span) : Prop where
  first : ∃ first, tokens.head? = some first ∧ first.start = span.start
  last : ∃ last, tokens.getLast? = some last ∧ last.stop = span.stop ∧ ends last.kind
  width : span.start < span.stop

/-- The tokens between the cursors are the ones that the span covers. -/
structure Reads (source : List Char) (ends : TokenKind → Prop) (left next : Cursor) (span : Span) : Prop where
  tokens : ∃ tokens, left.rest = tokens ++ next.rest ∧ Covers ends tokens span
  below : left.lastStop ≤ span.start
  stop : next.lastStop = span.stop
  sound : Sound source next

theorem Reads.mono (reads : Reads source ends left next span) (weaken : ∀ kind, ends kind → ends' kind) :
    Reads source ends' left next span := by
  obtain ⟨tokens, shape, first, ⟨last, found, stop, kind⟩, width⟩ := reads.tokens
  exact ⟨⟨tokens, shape, first, ⟨last, found, stop, weaken _ kind⟩, width⟩, reads.below, reads.stop, reads.sound⟩

theorem reads_token (took : Took source left token next) (shape : left.rest = token :: next.rest) (kind : ends token.kind) :
    Reads source ends left next token.span :=
  ⟨⟨[token], shape, ⟨token, rfl, rfl⟩, ⟨token, rfl, rfl, kind⟩, start_lt_stop took.stands⟩, took.low_le, took.stop, took.sound⟩

/-- What is read first and what is read behind it, with other tokens between them. -/
theorem Reads.past {before after : Cursor} (first : Reads source ends left before span) (between : List Token)
    (shape : before.rest = between ++ after.rest) (forward : before.lastStop ≤ after.lastStop)
    (second : Reads source ends' after next span') : Reads source ends' left next (span.cover span') := by
  obtain ⟨front, shape₁, ⟨head, leads, starts⟩, -, width⟩ := first.tokens
  obtain ⟨back, shape₂, -, ⟨last, found, stop, kind⟩, width'⟩ := second.tokens
  have order : span.stop ≤ span'.start := by
    rw [← first.stop]
    exact Nat.le_trans forward second.below
  have low : (span.cover span').start = span.start := Nat.min_eq_left (by omega)
  have high : (span.cover span').stop = span'.stop := Nat.max_eq_right (by omega)
  refine ⟨⟨front ++ (between ++ back), ?_, ⟨head, ?_, starts.trans low.symm⟩, ⟨last, ?_, stop.trans high.symm, kind⟩, ?_⟩, ?_, ?_,
    second.sound⟩
  · rw [shape₁, shape, shape₂]
    simp
  · rw [List.head?_append, leads]
    rfl
  · rw [← List.append_assoc, List.getLast?_append, found]
    rfl
  · rw [low, high]
    omega
  · rw [low]
    exact first.below
  · rw [high]
    exact second.stop

theorem Reads.cover (first : Reads source ends left middle span) (second : Reads source ends' middle next span') :
    Reads source ends' left next (span.cover span') := first.past [] rfl (Nat.le_refl _) second

/-! ### Names and groups -/

theorem expectName_reads (what : String) (sound : Sound source left)
    (kinds : ∀ token ∈ left.rest.head?, token.isName = true → ends token.kind) :
    Ensures source left (expectName what) fun token next => Reads source ends left next token.span ∧ left.rest = token :: next.rest := by
  intro token next ran
  obtain ⟨shape, named, stop⟩ := expectName_some ran
  have took := took_middle sound (show left.rest = [] ++ token :: next.rest from shape)
  have same : (⟨next.rest, token.stop⟩ : Cursor) = next := by rw [← stop]
  rw [same] at took
  exact ⟨reads_token took shape (kinds token (by rw [shape]; rfl) named), shape⟩

/-- A path covers its tokens. -/
theorem path_reads (what : String) (sound : Sound source left)
    (kinds : ∀ token ∈ left.rest.head?, token.isName = true → ends token.kind) (later : ends .ident) :
    Ensures source left (path what) fun found next => Reads source ends left next found.2 := by
  refine ensures_then (expectName_reads what sound kinds) fun first begun read => ?_
  refine ensures_iterate (fun state current => Reads source ends left current state.2) read.1 ?_
  rintro ⟨name, span⟩ current reads
  simp only [pathStep, ensures_bind, ensures_isAt, ensures_secondKind?]
  split
  · rename_i both
    simp only [Bool.and_eq_true, decide_eq_true_eq] at both
    obtain ⟨pointed, segmented⟩ := both
    obtain ⟨tokens, stop⟩ := current
    obtain ⟨dot, tokens, rfl⟩ : ∃ dot others, tokens = dot :: others := by
      cases tokens with
      | nil => cases pointed
      | cons dot others => exact ⟨dot, others, rfl⟩
    have took := took_middle reads.sound (show _ = [] ++ dot :: tokens from rfl)
    refine ensures_bind.mpr ?_
    rintro _ _ ⟨⟩
    refine ensures_then (@expectName_reads source _ ends what took.sound fun token first _ => ?_) fun segment next more => ?_
    · have kind : token.kind = .ident := by
        rw [Option.mem_def] at first
        simpa [List.getElem?_cons_succ, ← List.head?_eq_getElem?, first] using segmented
      rw [kind]
      exact later
    · exact ensures_pure.mpr (reads.past [dot] rfl took.moves.forward more.1)
  · exact ensures_pure.mpr reads

/-- The token that a group ends with closes it. -/
theorem closeAll_closer {first : Bracket} {outer : List Bracket} {index : Nat} (closed : Token.closeAll first outer tokens = some index)
    (found : tokens[index]? = some token) : ∃ bracket, token.kind = .closer bracket := by
  induction tokens generalizing first outer index with
  | nil => cases closed
  | cons head tokens ih =>
    have deeper : ∀ {first outer}, (Token.closeAll first outer tokens).map (· + 1) = some index → ∃ bracket, token.kind = .closer bracket := by
      intro first outer later
      obtain ⟨earlier, ends, rfl⟩ := Option.map_eq_some_iff.mp later
      exact ih ends found
    rw [Token.closeAll.eq_def] at closed
    dsimp only at closed
    split at closed
    · exact deeper closed
    · rename_i bracket kind
      split at closed
      · split at closed
        · cases closed
          cases found
          exact ⟨bracket, kind⟩
        · exact deeper closed
      · cases closed
    · exact deeper closed

theorem splitGroup?_closer {closing : Token} (split : Token.splitGroup? tokens = some (closing, rest)) :
    ∃ bracket, closing.kind = .closer bracket := by
  simp only [Token.splitGroup?, Option.bind_eq_bind, Option.bind_eq_some_iff, Option.pure_def,
    Option.some.injEq, Prod.mk.injEq] at split
  obtain ⟨index, ends, _, found, rfl, -⟩ := split
  cases tokens with
  | nil => cases ends
  | cons opening tokens =>
    rw [Token.groupEnd?] at ends
    split at ends
    · obtain ⟨earlier, closed, rfl⟩ := Option.map_eq_some_iff.mp ends
      exact closeAll_closer closed found
    · cases ends

theorem skipGroup_reads (sound : Sound source left) : Ensures source left skipGroup fun span next => Reads source Closing left next span := by
  simp only [skipGroup, ensures_bind, ensures_get]
  split
  · exact ensures_fail
  · rename_i opening later shape
    split
    · exact ensures_throw
    · rename_i closing rest split
      simp only [ensures_bind, ensures_set, ensures_pure]
      obtain ⟨front, whole⟩ := splitGroup?_shape split
      obtain ⟨bracket, closer⟩ := splitGroup?_closer split
      have closed := took_middle sound whole
      have opened := took_middle sound (show left.rest = [] ++ opening :: later from shape)
      have order := first_stop_le sound shape whole
      have width := start_lt_stop opened.stands
      have width' := start_lt_stop closed.stands
      have starts : opening.start ≤ closing.start := by
        cases front with
        | nil =>
          rw [shape] at whole
          exact Nat.le_of_eq (congrArg Token.start (List.cons.inj whole).1)
        | cons head front =>
          rw [shape, List.cons_append] at whole
          have behind := took_middle opened.sound (show later = front ++ closing :: rest from (List.cons.inj whole).2)
          have low : opening.stop ≤ closing.start := behind.low_le
          omega
      have low : (opening.span.cover closing.span).start = opening.start := Nat.min_eq_left starts
      have high : (opening.span.cover closing.span).stop = closing.stop := Nat.max_eq_right order
      refine ⟨⟨front ++ [closing], by rw [whole]; simp, ⟨opening, ?_, low.symm⟩, ⟨closing, by simp, high.symm, ?_⟩, ?_⟩, ?_, ?_, closed.sound⟩
      · rw [shape] at whole
        cases front with
        | nil => rw [(List.cons.inj whole).1]; rfl
        | cons head front =>
          rw [List.cons_append] at whole
          rw [(List.cons.inj whole).1]
          rfl
      · exact .inr (.inr ⟨bracket, closer⟩)
      · rw [low, high]
        omega
      · rw [low]
        exact opened.low_le
      · exact high.symm

/-! ### Parents -/

theorem closing_of_name (named : token.isName = true) : Closing token.kind := by
  rcases Bool.or_eq_true_iff.mp named with kind | kind
  · exact .inl (of_decide_eq_true kind)
  · exact .inr (.inl (of_decide_eq_true kind))

theorem parentTypeArgs_reads (reads : Reads source Closing left middle span) :
    Ensures source middle (parentTypeArgs span) fun found next => Reads source Closing left next found.2 := by
  simp only [parentTypeArgs, ensures_bind, ensures_isAt]
  split
  · refine ensures_then (skipGroup_reads reads.sound) fun group next more => ?_
    simp only [groupText, ensures_bind, ensures_read, ensures_pure]
    exact reads.cover more
  · exact ensures_pure.mpr reads

theorem parentArgs_reads (reads : Reads source Closing left middle span) :
    Ensures source middle (parentArgs span) fun found next => Reads source Closing left next found := by
  refine ensures_iterate (fun state current => Reads source Closing left current state) reads fun span current reads => ?_
  simp only [ensures_bind, ensures_isAt]
  split
  · exact ensures_then (skipGroup_reads reads.sound) fun group next more => ensures_pure.mpr (reads.cover more)
  · exact ensures_pure.mpr reads

theorem parent_reads (sound : Sound source left) :
    Ensures source left parent fun found next => Reads source Closing left next found.span := by
  refine ensures_then (path_reads _ sound (fun _ _ named => closing_of_name named) (.inl rfl)) fun found middle reads => ?_
  refine ensures_then (parentTypeArgs_reads reads) fun args middle reads => ?_
  exact ensures_then (parentArgs_reads reads) fun span next reads => ensures_pure.mpr reads

/-- The span from the first of the parents to the last. -/
def ParentsSpan (parents : List Parent) (span : Span) : Prop :=
  (∃ first, parents.head? = some first ∧ first.span.start = span.start) ∧
    ∃ last, parents.getLast? = some last ∧ last.span.stop = span.stop

/-- The parents cover the tokens that are read for them. -/
theorem parents_reads (sound : Sound source left) :
    Ensures source left parents fun found next => ∃ span, Reads source Closing left next span ∧ ParentsSpan found span := by
  refine ensures_iterate (fun seen current => Sound source current ∧ (seen = [] ∧ current = left ∨
    ∃ span before between, Reads source Closing left before span ∧ before.rest = between ++ current.rest ∧
      before.lastStop ≤ current.lastStop ∧ ParentsSpan seen span)) ⟨sound, .inl ⟨rfl, rfl⟩⟩ ?_
  rintro seen current ⟨sound, known⟩
  refine ensures_then (parent_reads sound) fun found next more => ?_
  have later : ∃ span, Reads source Closing left next span ∧ ParentsSpan (seen ++ [found]) span := by
    rcases known with ⟨rfl, rfl⟩ | ⟨span, before, between, reads, shape, forward, ⟨first, leads, starts⟩, -⟩
    · exact ⟨found.span, more, ⟨found, rfl, rfl⟩, found, rfl, rfl⟩
    · have both := reads.past between shape forward more
      have order : span.stop ≤ found.span.start := by
        rw [← reads.stop]
        exact Nat.le_trans forward more.below
      obtain ⟨_, -, -, -, width⟩ := reads.tokens
      obtain ⟨_, -, -, -, width'⟩ := more.tokens
      refine ⟨_, both, ⟨first, by rw [List.head?_append, leads]; rfl, ?_⟩, found, by simp, ?_⟩
      · exact starts.trans (Nat.min_eq_left (by omega)).symm
      · exact (Nat.max_eq_right (by omega)).symm
  obtain ⟨span, reads, spans⟩ := later
  have separated : ∀ kind, Ensures source next (eats kind) fun eaten after =>
      if eaten = true then Sound source after ∧ ∃ between, next.rest = between ++ after.rest ∧ next.lastStop ≤ after.lastStop
      else after = next := by
    intro kind eaten after ran
    cases eaten with
    | true =>
      obtain ⟨token, shape, -, stop⟩ := eats_true ran
      have moves := forward_of (eats_advances kind) _ reads.sound _ _ ran
      exact ⟨moves.sound, [token], shape, moves.forward⟩
    | false => exact eats_false ran
  refine ensures_then (separated _) fun joined after eaten => ?_
  cases joined with
  | true =>
    obtain ⟨sound, between, shape, forward⟩ := eaten
    exact ensures_pure.mpr ⟨sound, .inr ⟨span, next, between, reads, shape, forward, spans⟩⟩
  | false =>
    rw [show after = next from eaten]
    refine ensures_then (separated _) fun comma after eaten => ?_
    cases comma with
    | true =>
      obtain ⟨sound, between, shape, forward⟩ := eaten
      exact ensures_pure.mpr ⟨sound, .inr ⟨span, next, between, reads, shape, forward, spans⟩⟩
    | false =>
      rw [show after = next from eaten]
      exact ensures_pure.mpr ⟨span, reads, spans⟩

/-! ### Texts -/

section Texts
open Text TextBoundary TokenCopies TriviaGaps ScanSteps

variable {chars before : List Char}

/-- The text behind a token, and the tokens that are read off it. -/
theorem scanned_behind {all : List Token} (scanned : Token.scan source = .ok all) (suffix : token :: rest <:+ all) :
    ∃ before chars, source = before ++ chars ∧ byteLength before = token.stop ∧
      Token.scanFrom (byteLength before) (token.kind = .ident) chars = .ok rest := by
  obtain ⟨front, rfl⟩ := suffix
  rw [List.append_cons, scan_eq_ok_iff] at scanned
  obtain ⟨before, chars, rfl, width, -, behind, -⟩ := scanFrom_front scanned
  have stop : stopAfter 0 (front ++ [token]) = token.stop := by
    rw [stopAfter, List.foldl_append, List.foldl_cons, List.foldl_nil]
  have glued : gluedAfter false (front ++ [token]) = decide (token.kind = .ident) := by
    rw [gluedAfter, List.foldl_append, List.foldl_cons, List.foldl_nil]
  rw [stop, Nat.zero_add] at width
  rw [stop, glued, ← width] at behind
  exact ⟨before, chars, rfl, width, behind⟩

/-- The text is read as such tokens in front of any character that no name goes on with. -/
def Reread (low : Nat) (text : List Char) (tokens : List Token) : Prop :=
  ∀ e z, Stops e → ∀ offset, ∃ tokens' glued, List.Forall₂ (Carried low offset (byteLength text)) tokens tokens' ∧
    Token.scanFrom offset false (text ++ e :: z) = (Token.scanFrom (offset + byteLength text) glued (e :: z)).map (tokens' ++ ·)

/-- The text of tokens that end in a name or a closing bracket can be read anywhere. -/
theorem scanFrom_covered (scanned : Token.scanFrom (byteLength before) false chars = .ok (tokens ++ rest))
    (covers : Covers Closing tokens span) :
    ∃ gap text tail, chars = gap ++ (text ++ tail) ∧ span.start = byteLength (before ++ gap) ∧
      span.stop = span.start + byteLength text ∧ Reread span.start text tokens := by
  obtain ⟨first, leads, starts⟩ := covers.first
  obtain ⟨last, found, stops, closing⟩ := covers.last
  obtain ⟨others, shape⟩ := List.head?_eq_some_iff.mp leads
  rw [shape, List.cons_append] at scanned
  obtain ⟨gap, c, body, next, rfl, skipped, read, token, later⟩ := scanFrom_first scanned
  have start : span.start = byteLength (before ++ gap) := by rw [← starts, token, byteLength_append]
  have alone : Token.scanFrom span.start false ([] ++ c :: (body ++ next)) = .ok (tokens ++ rest) := by
    have width : span.start + byteLength [] = byteLength before + byteLength gap := by
      rw [start, byteLength_nil, byteLength_append, Nat.add_zero]
    rw [scanFrom_cons span.start [] body (skipTrivia_token skipped rfl) (by simpa using read), width, ← token, later, shape]
    rfl
  obtain ⟨front, split⟩ := List.getLast?_eq_some_iff.mp found
  rw [List.nil_append, split, List.append_assoc, List.singleton_append] at alone
  obtain ⟨text, tail, same, stop, -, again⟩ := scanFrom_closing alone closing
  rw [← split] at again
  refine ⟨gap, text, tail, by rw [same], start, by rw [← stops, ← stop], fun e z stops offset => ?_⟩
  obtain ⟨tokens', carried, goes⟩ := again e z stops offset
  exact ⟨tokens', _, carried, goes⟩

/-- The tokens behind a keyword stand in the source as a text that can be read anywhere. -/
theorem covered_reread {all : List Token} (scanned : Token.scan source = .ok all) (suffix : token :: (tokens ++ rest) <:+ all)
    (keyword : token.kind ≠ .ident) (covers : Covers Closing tokens span) :
    ∃ before text tail, source = before ++ (text ++ tail) ∧ byteLength before = span.start ∧
      slice? source span.start span.stop = some text ∧ Reread span.start text tokens := by
  obtain ⟨before, chars, rfl, -, behind⟩ := scanned_behind scanned suffix
  rw [decide_eq_false keyword] at behind
  obtain ⟨gap, text, tail, rfl, start, stop, reread⟩ := scanFrom_covered behind covers
  refine ⟨before ++ gap, text, tail, by simp, start.symm, ?_, reread⟩
  refine slice?_eq_some_iff.mpr ⟨before ++ gap, tail, by simp, start.symm, ?_⟩
  rw [stop]

end Texts

end KindLift.CoveredSpans
