import KindLift.Proofs.ByteStrings

/-! The scanner among the bytes of a text finds the tokens of the text. At whatever
character of it one of its parts begins, it ends at a boundary again, without a panic and
behind where it began. -/
namespace KindLift.ByteScanning
open Token Text TextBoundary TokenPlacement TriviaGaps TokenLocality ScanSteps TokenTiling BytePrograms ByteStrings
open ByteScanner hiding rest skipTrivia string quote number run

variable {source chars tail opened : List Char} {offset start stop : Nat} {c : Char}

/-! ### Other tokens -/

/-- What goes up to a mark is passed over with it. -/
theorem follows_closeWith {p : Char → Bool} {mark : Char} {cause : ParseCause} {outcome : Except Fault (List Char)}
    (began : At source start opened) (here : At source offset chars)
    (closed : ∀ tail, chars.dropWhile p = mark :: tail → outcome = .ok tail)
    (unclosed : (∀ tail, chars.dropWhile p ≠ mark :: tail) → outcome = .error ⟨opened, cause⟩) :
    Follows source (do eatWhile p; closeWith mark start cause) offset () outcome := by
  refine (reads_eatWhile p here).follows fun offset here => ?_
  rw [closeWith]
  generalize chars.dropWhile p = left at here closed unclosed
  cases left with
  | nil =>
    rw [unclosed (by simp)]
    refine (reads_bump_end here).bind_refuses fun offset here => ?_
    rw [if_pos (by simp)]
    exact refuses_refuse here began cause
  | cons d tail =>
    refine (reads_bump here).follows fun offset here => ?_
    by_cases same : d = mark
    · rw [if_neg (by simpa using same), closed tail (by rw [same])]
      exact .done here ()
    · rw [if_pos (by simpa using same), unclosed (by simp [same])]
      exact refuses_refuse here began cause

/-- A character or symbol literal is passed over. -/
theorem follows_quote (began : At source start ('\'' :: tail)) : Follows source ByteScanner.quote start () (skipQuote tail) := by
  rw [ByteScanner.quote]
  refine follows_get ?_
  refine (reads_bump began).follows fun offset here => ?_
  refine (reads_peek here).follows fun offset here => ?_
  refine (reads_peekAt here 1).follows fun offset here => ?_
  rcases tail with _ | ⟨c, tail⟩
  · exact refuses_refuse here began _
  dsimp only [List.head?_cons]
  split
  · rename_i escape
    cases escape
    refine follows_closeWith began here (fun tail same => ?_) fun unclosed => ?_
    · rw [skipQuote, same]
      rfl
    · rw [skipQuote]
      split
      · rename_i same
        exact absurd same (unclosed _)
      · rfl
  · rename_i escape same single
    cases same
    rcases tail with _ | ⟨d, tail⟩
    · cases single
    obtain rfl : d = '\'' := Option.some.inj single
    rw [skipQuote.eq_2 _ _ (by simpa using escape)]
    refine (reads_bump here).follows fun offset here => ?_
    exact (reads_bump here).follows fun offset here => .done here ()
  · rename_i escape same single
    cases same
    rw [skipQuote.eq_3 _ _ (by simpa using escape) (by rintro d rfl; exact single rfl)]
    split
    · exact reads_eatWhile _ here
    · exact refuses_refuse here began _
  · rename_i absurd
    cases absurd

/-- A number is passed over. -/
theorem reads_number (previous : Char) (here : At source offset chars) :
    Reads source (ByteScanner.number previous) offset () (skipNumber previous chars) := by
  induction chars generalizing offset previous with
  | nil =>
    rw [number_eq]
    exact (reads_peek here).bind fun stop there => ⟨stop, rfl, there⟩
  | cons c tail ih =>
    rw [number_eq, skipNumber]
    refine (reads_peek here).bind fun offset here => ?_
    refine (reads_peekAt here 1).bind fun offset here => ?_
    rw [show (c :: tail)[1]? = tail.head? by rw [List.getElem?_cons_succ, List.head?_eq_getElem?]]
    dsimp only
    split
    · exact (reads_bump here).bind fun offset here => ih c here
    · exact ⟨offset, rfl, here⟩

/-- Only the next character decides whether a point is punctuation. -/
theorem punctuation?_head (c : Char) (chars : List Char) : punctuation? c chars.head?.toList = punctuation? c chars := by
  cases chars <;> rfl

/-- A name in back quotes is passed over. -/
theorem follows_quotedIdent {outcome : Except Fault (List Char)} (began : At source start ('\x60' :: tail))
    (closed : ∀ left, (tail.dropWhile fun d => d ≠ '\x60' && d ≠ '\n') = '\x60' :: left → outcome = .ok left)
    (unclosed : (∀ left, (tail.dropWhile fun d => d ≠ '\x60' && d ≠ '\n') ≠ '\x60' :: left) →
      outcome = .error ⟨'\x60' :: tail, .unterminatedQuotedIdent⟩) :
    Follows source quotedIdent start () outcome := by
  rw [quotedIdent]
  refine follows_get ?_
  exact (reads_bump began).follows fun offset here => follows_closeWith began here closed unclosed

/-- A word is passed over, with the symbols behind an underscore. -/
theorem reads_word (start : isIdentStart c = true) (here : At source offset (c :: tail)) :
    Reads source word offset () (skipWord c tail) := by
  have part := identPart_of_start start
  obtain ⟨left, whole, -⟩ := here.cut
  rw [word]
  refine (reads_eatWhile isIdentPart here).bind fun offset here => ?_
  rw [List.dropWhile_cons_of_pos part] at here
  have whole' : source = (left ++ c :: tail.takeWhile isIdentPart) ++ tail.dropWhile isIdentPart := by
    rw [whole, List.append_assoc, List.cons_append, List.takeWhile_append_dropWhile]
  refine (reads_passed here whole').bind fun offset here => ?_
  refine (reads_peek here).bind fun offset here => ?_
  have last : (left ++ c :: tail.takeWhile isIdentPart).getLast? = (c :: tail.takeWhile isIdentPart).getLast? := by
    rw [List.getLast?_append_of_ne_nil _ (List.cons_ne_nil _ _)]
  rw [last, skipWord]
  generalize tail.dropWhile isIdentPart = left at here
  by_cases under : (c :: tail.takeWhile isIdentPart).getLast? = some '_'
  · rw [if_pos under, decide_eq_true under, Bool.true_and]
    split
    · exact reads_eatWhile _ here
    · rename_i plain
      cases left with
      | nil => exact ⟨_, rfl, here⟩
      | cons d left =>
        rw [List.dropWhile_cons_of_neg (by simpa using plain)]
        exact ⟨_, rfl, here⟩
  · rw [if_neg under, decide_eq_false under, Bool.false_and, if_neg Bool.false_ne_true]
    exact ⟨_, rfl, here⟩

/-- A token is passed over, and is of the kind that it has. -/
theorem finds_nextKind (began : At source start (c :: tail)) (previous : Option (TokenKind × Span)) :
    Finds source (nextKind c previous) start
      (readToken (previous.any fun (kind, span) => kind = .ident && span.stop = start) c tail) := by
  rw [nextKind, readToken]
  refine finds_get ?_
  refine (reads_peekAt began 1).finds fun offset here => ?_
  rw [show (c :: tail)[1]? = tail.head? by rw [List.getElem?_cons_succ, List.head?_eq_getElem?], punctuation?_head]
  cases found : punctuation? c tail with
  | some kind => exact (reads_bump here).finds fun offset here => ⟨offset, rfl, here⟩
  | none =>
    dsimp only
    by_cases quote : c = '"'
    · subst quote
      rw [if_pos rfl, if_pos rfl]
      refine finds_read ?_
      have enough : tail.length + 1 < source.length + 1 := Nat.lt_succ_of_le here.length_le
      exact (follows_string_here _ enough here).finds _
    rw [if_neg quote, if_neg quote]
    by_cases quote : c = '\''
    · subst quote
      rw [if_pos rfl, if_pos rfl]
      exact (follows_quote here).finds _
    rw [if_neg quote, if_neg quote]
    by_cases quote : c = '\x60'
    · subst quote
      rw [if_pos rfl, if_pos rfl]
      split
      · rename_i left closed
        refine (@follows_quotedIdent source tail _ (.ok left) here ?_ fun unclosed => absurd closed (unclosed left)).finds TokenKind.ident
        exact fun left' closed' => congrArg Except.ok (List.cons.inj (closed.symm.trans closed')).2
      · rename_i unclosed
        have read := @follows_quotedIdent source tail _ (.error ⟨'\x60' :: tail, .unterminatedQuotedIdent⟩) here
          (fun left closed => absurd closed (unclosed left)) fun _ => rfl
        exact read.finds TokenKind.ident
    rw [if_neg quote, if_neg quote]
    by_cases digit : (c.isDigit || c = '.') = true
    · rw [if_pos digit, if_pos digit]
      have all : skipNumber '\x00' (c :: tail) = skipNumber c tail := by
        rw [skipNumber]
        refine if_pos ?_
        rcases Bool.or_eq_true_iff.mp digit with digit | point
        · rw [Char.isAlphanum, digit, Bool.or_true]
          rfl
        · obtain rfl := decide_eq_true_eq.mp point
          have ahead : tail.head?.any Char.isDigit = true := by
            by_contra other
            rw [punctuation?, if_neg other] at found
            cases found
          rw [ahead]
          rfl
      rw [← all]
      exact (reads_number '\x00' here).finds fun offset here => ⟨offset, rfl, here⟩
    rw [if_neg digit, if_neg digit]
    by_cases word : isIdentStart c = true
    · rw [if_pos word, if_pos word]
      refine (reads_word word here).finds fun offset here => ?_
      have cut : At source start ((c :: consumed tail (skipWord c tail)) ++ skipWord c tail) := by
        rwa [List.cons_append, consumed_append_self (skipWord_suffix c tail)]
      exact (reads_textSince cut here).finds fun offset here => ⟨offset, rfl, here⟩
    rw [if_neg word, if_neg word]
    by_cases symbol : isOperatorChar c = true
    · rw [if_pos symbol, if_pos symbol]
      refine (reads_eatWhile isOperatorChar here).finds fun offset here => ?_
      rw [List.dropWhile_cons_of_pos symbol] at here
      have cut : At source start ((c :: tail.takeWhile isOperatorChar) ++ tail.dropWhile isOperatorChar) := by
        rwa [List.cons_append, List.takeWhile_append_dropWhile]
      exact (reads_textSince cut here).finds fun offset here => ⟨offset, rfl, here⟩
    · rw [if_neg symbol, if_neg symbol]
      exact refuses_refuse here began _

/-! ### All tokens -/

/-- A token as the scanner among the bytes keeps it. -/
def entry (token : Token) : TokenKind × Span := (token.kind, token.span)

/-- What a word stands right in front of. -/
def WordEnds (found : List (TokenKind × Span)) (offset : Nat) (glued : Bool) : Prop :=
  ∀ start, offset ≤ start → (found.getLast?.any fun (kind, span) => kind = .ident && span.stop = start) = (glued && start = offset)

/-- The next token is found behind white space and comments. -/
theorem finds_next {glued : Bool} {found : List (TokenKind × Span)} (here : At source offset chars)
    (word : WordEnds found offset glued) (skipped : skipTrivia .blank chars = .ok (c :: tail))
    (there : At source start (c :: tail)) :
    start = offset + byteLength (consumed chars (c :: tail)) ∧
      Finds source (nextKind c found.getLast?) start (readToken (glued && (consumed chars (c :: tail)).isEmpty) c tail) := by
  obtain ⟨gap, rfl⟩ := skipTrivia_suffix skipped
  have place := here.move.unique there
  have kinds := finds_nextKind there found.getLast?
  have empty : (decide (start = offset)) = gap.isEmpty := by
    rw [place]
    cases gap with
    | nil => simp
    | cons d gap =>
      have := byteLength_pos (List.cons_ne_nil d gap)
      exact decide_eq_false (by omega)
  rw [word start (by omega), empty] at kinds
  rw [consumed_append]
  exact ⟨place, kinds⟩

/-- All tokens are found. The flag of the reader says where a string would be interpolated. -/
theorem finds_run {glued : Bool} {found : List (TokenKind × Span)} (here : At source offset chars)
    (word : WordEnds found offset glued) :
    Finds source (ByteScanner.run found) offset
      ((scanFrom offset glued chars).map fun tokens => (found ++ tokens.map entry, [])) := by
  fun_induction scanFrom offset glued chars generalizing found with
  | case1 offset glued chars fault skipped =>
    have trivia := follows_skipTrivia here
    rw [skipped] at trivia
    rw [run_eq]
    exact Refuses.bind trivia
  | case2 offset glued chars skipped =>
    have trivia := follows_skipTrivia here
    rw [skipped] at trivia
    rw [run_eq]
    refine Reads.finds trivia fun start began => finds_get ((reads_peek began).finds fun stop there => ⟨stop, ?_, there⟩)
    rw [List.map_nil, List.append_nil]
    rfl
  | case3 =>
    rename_i offset glued chars c tail skipped gap fault read
    have trivia := follows_skipTrivia here
    rw [skipped] at trivia
    rw [run_eq]
    refine Reads.finds trivia fun start began => finds_get ((reads_peek began).finds fun stop there => ?_)
    obtain rfl := began.unique there
    obtain ⟨place, kinds⟩ := finds_next here word skipped there
    rw [read] at kinds
    exact Refuses.bind kinds
  | case4 =>
    rename_i offset glued chars c tail skipped gap kind next read token ih
    have trivia := follows_skipTrivia here
    rw [skipped] at trivia
    rw [run_eq]
    refine Reads.finds trivia fun start began => finds_get ((reads_peek began).finds fun stop there => ?_)
    obtain rfl := began.unique there
    obtain ⟨place, kinds⟩ := finds_next here word skipped there
    rw [read] at kinds
    refine Reads.finds kinds fun stop behind => finds_get ?_
    have body : (c :: consumed tail next) ++ next = c :: tail := by
      rw [List.cons_append, consumed_append_self (readToken_spec read).1]
    rw [← body] at there
    obtain rfl : stop = token.stop := by
      rw [there.move.unique behind, place]
      rfl
    have goes := @ih (found ++ [entry token]) behind fun start later => by
      rw [List.getLast?_concat, Option.any_some]
      exact congrArg (decide (kind = .ident) && ·) (decide_eq_decide.mpr eq_comm)
    have kept : (kind, ⟨_, token.stop⟩) = entry token := congrArg (fun start => (kind, Span.mk start token.stop)) place
    rw [kept]
    cases later : scanFrom token.stop (decide (kind = .ident)) next with
    | error fault =>
      rw [later] at goes
      exact goes
    | ok tokens =>
      rw [later] at goes
      have whole : found ++ (token :: tokens).map entry = found ++ [entry token] ++ tokens.map entry := by
        rw [List.map_cons, List.append_cons]
      show Reads _ _ _ (found ++ (token :: tokens).map entry) []
      rw [whole]
      exact goes

/-! ### Places on the way -/

/-- What the scanner does where it stands: it comes to an end at a boundary without a panic,
between tokens and inside of them, and every token takes it further. Strings have room for as
many others as there are characters, which is what they are read with. -/
structure SteadyAt (source : List Char) (offset : Nat) : Prop where
  trivia : Steady source ByteScanner.skipTrivia offset
  comment : ∀ tail, At source offset ('/' :: '*' :: tail) → Steady source blockComment offset
  string : ∀ room interpolated tail, source.length < room → At source offset ('"' :: tail) →
    Steady source (ByteScanner.string room interpolated) offset
  splice : ∀ room tail, source.length < room → At source offset ('$' :: '\x7b' :: tail) →
    Steady source (spliceWith (ByteScanner.string room)) offset
  token : ∀ c tail previous, At source offset (c :: tail) → Steady source (nextKind c previous) offset
  further : ∀ c tail previous kind stop, At source offset (c :: tail) →
    exec source (nextKind c previous) offset = some (.ok kind, stop) → offset < stop

theorem nextKind_further {previous : Option (TokenKind × Span)} {kind : TokenKind} (here : At source offset (c :: tail))
    (ran : exec source (nextKind c previous) offset = some (.ok kind, stop)) : offset < stop := by
  have found := finds_nextKind here previous
  cases read : readToken (previous.any fun (kind, span) => kind = .ident && span.stop = offset) c tail with
  | error fault =>
    rw [read] at found
    obtain ⟨_, ran', -⟩ := found
    cases ran.symm.trans ran'
  | ok result =>
    rw [read] at found
    obtain ⟨_, ran', there⟩ := found
    cases ran.symm.trans ran'
    obtain ⟨body, rfl⟩ := (readToken_spec read).1
    have behind := (@At.move source _ offset (c :: body) here).unique there
    have width := byteLength_pos (List.cons_ne_nil c body)
    omega

theorem steadyAt (boundary : isBoundary source offset = true) : SteadyAt source offset := by
  obtain ⟨left, rest, whole, width⟩ := isBoundary_iff.mp boundary
  exact {
    trivia := (follows_skipTrivia (.of_cut whole width)).steady
    comment := fun _ here => (follows_blockComment here).steady
    string := fun _ interpolated _ enough here =>
      (follows_string_here interpolated (Nat.lt_of_le_of_lt here.length_le enough) here).steady
    splice := fun _ tail enough here =>
      have short : tail.length + 1 ≤ source.length := Nat.le_of_succ_le here.length_le
      (follows_splice (stringsFollow source (tail.length + 1)) (Nat.le_trans short (Nat.le_of_lt enough)) (Nat.lt_succ_self _) here).steady
    token := fun _ _ previous here => (finds_nextKind here previous).steady
    further := fun _ _ _ _ _ here ran => nextKind_further here ran }

/-- The scanner among the bytes ends for every text. It finds tokens that tile the text: they
are not empty, they stand one behind the other at boundaries, and every gap consists of white
space and complete comments. Or it refuses the text, where it is at a boundary, for something
that begins at one of the characters. At whatever boundary it stands on the way, it does not
panic before the next one, strings in splices in strings included, and each token takes it
further. -/
theorem tokenize_tiles (source : List Char) :
    (match scan source with
      | .ok tokens =>
        tokenize source = some (.ok (tokens.map entry), byteLength source) ∧ Tiled 0 source tokens ∧
          (tokens.Pairwise fun a b => a.stop ≤ b.start) ∧ ∀ token ∈ tokens, Addressed source token
      | .error error =>
        (∃ stop, tokenize source = some (.error (.refused error), stop) ∧ isBoundary source stop = true) ∧
          isBoundary source error.offset = true ∧ ∃ rest, Opens source rest ∧ error.offset + byteLength rest = byteLength source) ∧
    ∀ offset, isBoundary source offset = true → SteadyAt source offset := by
  refine ⟨?_, fun offset boundary => steadyAt boundary⟩
  have word : WordEnds [] 0 false := fun start later => (Bool.false_and _).symm
  have here : At source 0 source := .of_cut (List.nil_append source).symm rfl
  have ran := finds_run here word
  cases scanned : scanFrom 0 false source with
  | ok tokens =>
    rw [scanned] at ran
    obtain ⟨stop, ran, there⟩ := ran
    have whole : scan source = .ok tokens := by rw [scan, scanned]
    obtain ⟨apart, addressed⟩ := inOrder_apart (scan_inOrder whole)
    obtain rfl : stop = byteLength source := there.offset_eq
    rw [whole]
    exact ⟨ran, scanFrom_tiled scanned, apart, fun token member => (addressed token member).2⟩
  | error fault =>
    rw [scanned] at ran
    obtain ⟨stop, ran, there⟩ := ran
    have opens := scanFrom_fault scanned (List.suffix_refl source)
    rw [show scan source = .error (.locate source (byteLength source - byteLength fault.rest) fault.cause) by rw [scan, scanned]]
    exact ⟨⟨stop, ran, there⟩, (locate_opens opens _).1, fault.rest, opens, (locate_opens opens _).2⟩

end KindLift.ByteScanning
