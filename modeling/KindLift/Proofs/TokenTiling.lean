import KindLift.Proofs.ScanSteps

/-! The tokens of a text tile it: between them there is nothing but white space and
complete comments. A text that is not accepted is given up where something begins that
cannot be read. -/
namespace KindLift.TokenTiling
open Token Text TextBoundary TokenPlacement TriviaGaps TokenLocality ScanSteps

/-! ### Gaps -/

/-- What stands between the marks of a block comment. Comments nest, and no other
character begins a mark together with the one behind it. -/
inductive Comment : List Char → Prop where
  | nil : Comment []
  | char (c : Char) (body : List Char) (opens : ¬ ['/', '*'] <+: c :: (body ++ ['*', '/']))
      (closes : ¬ ['*', '/'] <+: c :: (body ++ ['*', '/'])) (rest : Comment body) : Comment (c :: body)
  | nested (inner body : List Char) (inside : Comment inner) (rest : Comment body) :
      Comment ('/' :: '*' :: (inner ++ '*' :: '/' :: body))

/-- White space and complete comments. A line comment goes up to the end of its line,
which only the last line of a text can do without. -/
inductive Gap (final : Bool) : List Char → Prop where
  | nil : Gap final []
  | space (c : Char) (gap : List Char) (blank : isWhiteSpace c = true) (rest : Gap final gap) : Gap final (c :: gap)
  | line (body gap : List Char) (inLine : '\n' ∉ body) (rest : Gap final gap) :
      Gap final ('/' :: '/' :: (body ++ '\n' :: gap))
  | lastLine (body : List Char) (last : final = true) (inLine : '\n' ∉ body) : Gap final ('/' :: '/' :: body)
  | block (body gap : List Char) (inside : Comment body) (rest : Gap final gap) :
      Gap final ('/' :: '*' :: (body ++ '*' :: '/' :: gap))

/-- A comment, the comments around it, and what comes behind them. -/
inductive Ends (final : Bool) : Nat → List Char → Prop where
  | last {body gap : List Char} (inside : Comment body) (behind : Gap final gap) :
      Ends final 0 (body ++ '*' :: '/' :: gap)
  | outer {enclosing : Nat} {body more : List Char} (inside : Comment body) (behind : Ends final enclosing more) :
      Ends final (enclosing + 1) (body ++ '*' :: '/' :: more)

/-- The gap begins inside of what is being skipped. -/
def GapIn (final : Bool) : Trivia → List Char → Prop
  | .blank, gap => Gap final gap
  | .lineComment, gap => Gap final ('/' :: '/' :: gap)
  | .blockComment enclosing _, gap => Ends final enclosing gap

variable {source chars rest next tail gap body : List Char} {c : Char} {glued final : Bool} {kind : TokenKind}
  {offset enclosing : Nat} {tokens : List Token} {token : Token} {fault : Fault}

/-- One more character on the line of a comment. -/
theorem Gap.inLine (comment : Gap final ('/' :: '/' :: gap)) (other : c ≠ '\n') : Gap final ('/' :: '/' :: c :: gap) := by
  generalize shape : '/' :: '/' :: gap = chars at comment
  cases comment with
  | nil => cases shape
  | space _ _ blank =>
    cases shape
    exact absurd blank (by decide)
  | line body gap inLine rest =>
    cases shape
    exact .line (c :: body) gap (List.not_mem_cons_of_ne_of_not_mem other.symm inLine) rest
  | lastLine body last inLine =>
    cases shape
    exact .lastLine (c :: _) last (List.not_mem_cons_of_ne_of_not_mem other.symm inLine)
  | block => cases shape

/-- The first character decides alike whether a mark begins, whatever comes behind the
closing mark. -/
theorem mark_ahead (first second : Char) (after : List Char) :
    [first, second] <+: c :: (body ++ ['*', '/']) ↔ [first, second] <+: c :: (body ++ '*' :: '/' :: after) := by
  cases body <;> simp [List.cons_prefix_cons]

/-- One more character inside of a comment. -/
theorem Ends.char (ends : Ends final enclosing gap) (opens : ¬ ['/', '*'] <+: c :: gap) (closes : ¬ ['*', '/'] <+: c :: gap) :
    Ends final enclosing (c :: gap) := by
  cases ends with
  | last inside behind => exact .last (.char c _ (by rwa [mark_ahead]) (by rwa [mark_ahead]) inside) behind
  | outer inside behind => exact .outer (.char c _ (by rwa [mark_ahead]) (by rwa [mark_ahead]) inside) behind

/-- A comment that ends begins a nested one where it was opened. -/
theorem Ends.nested (ends : Ends final (enclosing + 1) gap) : Ends final enclosing ('/' :: '*' :: gap) := by
  cases ends with | outer inside behind => ?_
  cases behind with
  | last inside' behind =>
    have nested : Ends final 0 _ := .last (.nested _ _ inside inside') behind
    simpa using nested
  | outer inside' behind =>
    have nested : Ends final _ _ := .outer (.nested _ _ inside inside') behind
    simpa using nested

/-- What is skipped in front of a token is a gap. -/
theorem skipTrivia_gap {trivia : Trivia} (skipped : skipTrivia trivia chars = .ok rest) :
    ∃ gap, chars = gap ++ rest ∧ GapIn (decide (rest = [])) trivia gap := by
  fun_induction skipTrivia trivia chars with
  | case1 => cases skipped
  | case2 trivia notBlock =>
    cases skipped
    refine ⟨[], rfl, ?_⟩
    cases trivia with
    | blank => exact .nil
    | lineComment => exact .lastLine [] (by simp) (by simp)
    | blockComment enclosing opened => exact absurd rfl (notBlock enclosing opened)
  | case3 c rest blank ih =>
    obtain ⟨gap, rfl, inside⟩ := ih skipped
    exact ⟨c :: gap, rfl, .space c gap blank inside⟩
  | case4 tail solid ih =>
    obtain ⟨gap, rfl, inside⟩ := ih skipped
    exact ⟨'/' :: '/' :: gap, rfl, inside⟩
  | case5 tail solid ih =>
    obtain ⟨gap, rfl, inside⟩ := ih skipped
    cases inside with
    | last inside behind => exact ⟨_, rfl, .block _ _ inside behind⟩
  | case6 c others solid noLine noBlock =>
    cases skipped
    exact ⟨[], rfl, .nil⟩
  | case7 rest ih =>
    obtain ⟨gap, rfl, inside⟩ := ih skipped
    exact ⟨'\n' :: gap, rfl, .line [] gap (by simp) inside⟩
  | case8 c rest other ih =>
    obtain ⟨gap, rfl, inside⟩ := ih skipped
    exact ⟨c :: gap, rfl, Gap.inLine inside other⟩
  | case9 enclosing opened tail ih =>
    obtain ⟨gap, rfl, inside⟩ := ih skipped
    exact ⟨'/' :: '*' :: gap, rfl, inside.nested⟩
  | case10 opened tail ih =>
    obtain ⟨gap, rfl, inside⟩ := ih skipped
    exact ⟨'*' :: '/' :: gap, rfl, .last .nil inside⟩
  | case11 opened tail outer ih =>
    obtain ⟨gap, rfl, inside⟩ := ih skipped
    exact ⟨'*' :: '/' :: gap, rfl, .outer .nil inside⟩
  | case12 enclosing opened c tail opens closes ih =>
    obtain ⟨gap, rfl, inside⟩ := ih skipped
    refine ⟨c :: gap, rfl, Ends.char inside (fun mark => ?_) (fun mark => ?_)⟩
    · obtain ⟨more, same⟩ := mark
      cases same
      exact opens _ rfl rfl
    · obtain ⟨more, same⟩ := mark
      cases same
      exact closes _ rfl rfl

/-! ### Tilings -/

/-- The text is made up of the tokens and gaps between them, from `offset` on. -/
inductive Tiled : Nat → List Char → List Token → Prop where
  | last {offset : Nat} {gap : List Char} (behind : Gap true gap) : Tiled offset gap []
  | token {offset : Nat} {gap rest : List Char} {token : Token} {tokens : List Token} (front : Gap false gap)
      (start : token.start = offset + byteLength gap) (nonempty : token.lexeme ≠ []) (behind : Tiled token.stop rest tokens) :
      Tiled offset (gap ++ (token.lexeme ++ rest)) (token :: tokens)

theorem scanFrom_tiled (scanned : scanFrom offset glued chars = .ok tokens) : Tiled offset chars tokens := by
  fun_induction scanFrom offset glued chars generalizing tokens with
  | case1 => cases scanned
  | case2 offset glued chars skipped =>
    cases scanned
    obtain ⟨gap, rfl, behind⟩ := skipTrivia_gap skipped
    rw [List.append_nil]
    exact .last behind
  | case3 => cases scanned
  | case4 =>
    rename_i offset glued chars c tail skipped gap kind next read token ih
    obtain ⟨rest, later, rfl⟩ := map_eq_ok scanned
    obtain ⟨front, whole, between⟩ := skipTrivia_gap skipped
    have same : gap = front := by
      show consumed chars (c :: tail) = front
      rw [whole, consumed_append]
    have lexeme : token.lexeme ++ next = c :: tail := by
      show c :: consumed tail next ++ next = c :: tail
      rw [List.cons_append, consumed_append_self (readToken_spec read).1]
    rw [whole, ← lexeme]
    exact .token between (congrArg (offset + byteLength ·) same) (List.cons_ne_nil _ _) (ih later)

/-- The span of the token addresses the characters that the token was read from. -/
structure Addressed (source : List Char) (token : Token) : Prop where
  nonempty : token.start < token.stop
  start : isBoundary source token.start = true
  stop : isBoundary source token.stop = true
  text : slice? source token.start token.stop = some token.lexeme

theorem addressed_of_stands (stands : Stands source token) : Addressed source token where
  nonempty := start_lt_stop stands
  start := isBoundary_iff.mpr (start_cut stands)
  stop := isBoundary_iff.mpr (stop_cut stands)
  text := by
    obtain ⟨left, right, whole, start⟩ := stands.placed
    exact slice?_eq_some_iff.mpr ⟨left, right, whole, start, rfl⟩

theorem inOrder_apart {low : Nat} (ordered : InOrder source low tokens) :
    tokens.Pairwise (fun a b => a.stop ≤ b.start) ∧ ∀ token ∈ tokens, low ≤ token.start ∧ Addressed source token := by
  induction tokens generalizing low with
  | nil => exact ⟨.nil, by simp⟩
  | cons token tokens ih =>
    obtain ⟨behind, stands, later⟩ := ordered
    obtain ⟨apart, all⟩ := ih later
    have addressed := addressed_of_stands stands
    refine ⟨.cons (fun other member => (all other member).1) apart, List.forall_mem_cons.mpr ⟨⟨behind, addressed⟩, ?_⟩⟩
    intro other member
    have := (all other member).1
    have := addressed.nonempty
    exact ⟨by omega, (all other member).2⟩

/-! ### Faults -/

/-- A place in the text in front of some character. -/
def Opens (source opened : List Char) : Prop := opened <:+ source ∧ opened ≠ []

/-- A fixed number of characters is read in a frame only if they are there. -/
theorem advance_fits {frame : Frame} {inner : List Frame} {more : Nat} (advanced : frame.advance c rest = .ok (inner, more)) :
    more ≤ rest.length := by
  have one : ∀ d, [d].isPrefixOf rest = true → 1 ≤ rest.length := fun d starts => (List.isPrefixOf_iff_prefix.mp starts).length_le
  have two : ∀ d e, [d, e].isPrefixOf rest = true → 2 ≤ rest.length :=
    fun d e starts => (List.isPrefixOf_iff_prefix.mp starts).length_le
  cases frame <;> dsimp only [Frame.advance] at advanced <;> repeat' split at advanced
  all_goals cases advanced
  all_goals grind

/-- What is opened in a frame begins where the scanner is. -/
theorem advance_opens {frame : Frame} {inner : List Frame} {more : Nat} (advanced : frame.advance c rest = .ok (inner, more))
    (here : Opens source (c :: rest)) (opened : Opens source frame.unterminated.rest) :
    ∀ frame ∈ inner, Opens source frame.unterminated.rest := by
  cases frame <;> dsimp only [Frame.advance] at advanced <;> repeat' split at advanced
  all_goals cases advanced
  all_goals simp_all [Frame.unterminated]

/-- A frame is given up where it was opened. -/
theorem advance_fault {frame : Frame} (failed : frame.advance c rest = .error fault) : fault.rest = frame.unterminated.rest := by
  cases frame <;> dsimp only [Frame.advance] at failed <;> repeat' split at failed
  all_goals cases failed
  all_goals rfl

theorem Opens.of_suffix (here : c :: rest <:+ source) : Opens source (c :: rest) := ⟨here, List.cons_ne_nil _ _⟩

theorem closeFrames_fault {frames : List Frame} (failed : closeFrames frames chars = .error fault) (here : chars <:+ source)
    (opened : ∀ frame ∈ frames, Opens source frame.unterminated.rest) : Opens source fault.rest := by
  fun_induction closeFrames frames chars with
  | case1 => cases failed
  | case2 frame outer =>
    cases failed
    exact opened frame (List.mem_cons_self ..)
  | case3 frame outer c rest given advanced =>
    cases failed
    rw [advance_fault advanced]
    exact opened frame (List.mem_cons_self ..)
  | case4 frame outer c rest inner more advanced ih =>
    obtain ⟨first, others⟩ := List.forall_mem_cons.mp opened
    have inside := advance_opens advanced (.of_suffix here) first
    refine ih failed (((List.drop_suffix more rest).trans (List.suffix_cons c rest)).trans here) ?_
    exact fun frame member => (List.mem_append.mp member).elim (inside frame) (others frame)

theorem skipString_fault (failed : skipString glued rest = .error fault) (here : '"' :: rest <:+ source) :
    Opens source fault.rest := by
  have opened : Opens source ('"' :: rest) := .of_suffix here
  unfold skipString at failed
  split at failed
  · rename_i tail
    refine closeFrames_fault failed (List.IsSuffix.trans ⟨['"', '"', '"'], rfl⟩ here) ?_
    simpa [Frame.unterminated] using opened
  · refine closeFrames_fault failed (List.IsSuffix.trans (List.suffix_cons _ _) here) ?_
    simpa [Frame.unterminated] using opened

theorem skipQuote_fault (failed : skipQuote rest = .error fault) : fault.rest = '\'' :: rest := by
  unfold skipQuote at failed
  repeat' split at failed
  all_goals cases failed
  all_goals rfl

/-- A token that cannot be read is given up at some character at or behind its first one. -/
theorem readToken_fault (failed : readToken glued c rest = .error fault) (here : c :: rest <:+ source) :
    Opens source fault.rest := by
  have opened : Opens source (c :: rest) := .of_suffix here
  unfold readToken at failed
  split at failed
  · cases failed
  split at failed
  · rename_i quote
    subst quote
    cases read : skipString glued rest with
    | error given =>
      rw [read] at failed
      cases failed
      exact skipString_fault read here
    | ok next =>
      rw [read] at failed
      cases failed
  split at failed
  · rename_i quote
    subst quote
    cases read : skipQuote rest with
    | error given =>
      rw [read] at failed
      cases failed
      rw [skipQuote_fault read]
      exact opened
    | ok next =>
      rw [read] at failed
      cases failed
  split at failed
  · split at failed <;> cases failed
    exact opened
  split at failed
  · cases failed
  split at failed
  · cases failed
  split at failed
  · cases failed
  · cases failed
    exact opened

/-- Where a comment that is being skipped was opened. -/
def openings : Trivia → List (List Char)
  | .blockComment _ opened => [opened]
  | _ => []

/-- A comment that does not end is given up where it was opened. -/
theorem skipTrivia_fault {trivia : Trivia} (failed : skipTrivia trivia chars = .error fault) (here : chars <:+ source)
    (opened : ∀ opening ∈ openings trivia, Opens source opening) : Opens source fault.rest := by
  have behind : ∀ {c rest}, c :: rest <:+ source → rest <:+ source := fun here => (List.suffix_cons _ _).trans here
  fun_induction skipTrivia trivia chars with
  | case1 enclosing opened =>
    cases failed
    exact opened _ (List.mem_singleton.mpr rfl)
  | case2 => cases failed
  | case3 c rest blank ih => exact ih failed (behind here) opened
  | case4 tail solid ih => exact ih failed (behind (behind here)) opened
  | case5 tail solid ih =>
    refine ih failed (behind (behind here)) fun opening member => ?_
    rw [List.mem_singleton.mp member]
    exact .of_suffix here
  | case6 => cases failed
  | case7 rest ih => exact ih failed (behind here) opened
  | case8 c rest other ih => exact ih failed (behind here) opened
  | case9 enclosing opening tail ih => exact ih failed (behind (behind here)) opened
  | case10 opening tail ih => exact ih failed (behind (behind here)) (by simp [openings])
  | case11 opening tail outer ih => exact ih failed (behind (behind here)) opened
  | case12 enclosing opening c tail opens closes ih => exact ih failed (behind here) opened

/-- A text that is not accepted is given up at one of its characters. -/
theorem scanFrom_fault (failed : scanFrom offset glued chars = .error fault) (here : chars <:+ source) :
    Opens source fault.rest := by
  fun_induction scanFrom offset glued chars with
  | case1 offset glued chars given skipped =>
    cases failed
    exact skipTrivia_fault skipped here (by simp [openings])
  | case2 => cases failed
  | case3 offset glued chars c tail skipped gap given read =>
    cases failed
    exact readToken_fault read ((skipTrivia_suffix skipped).trans here)
  | case4 =>
    rename_i offset glued chars c tail skipped gap kind next read token ih
    cases later : scanFrom token.stop (decide (kind = .ident)) next with
    | ok rest =>
      rw [later] at failed
      cases failed
    | error given =>
      rw [later] at failed
      cases failed
      have suffix := (readToken_spec read).1.trans (List.suffix_cons c tail)
      exact ih later ((suffix.trans (skipTrivia_suffix skipped)).trans here)

/-- The fault is reported exactly where the construct begins that cannot be read. -/
theorem locate_opens (opens : Opens source rest) (cause : ParseCause) :
    isBoundary source (ParseError.locate source (byteLength source - byteLength rest) cause).offset = true ∧
      (ParseError.locate source (byteLength source - byteLength rest) cause).offset + byteLength rest = byteLength source := by
  obtain ⟨⟨front, rfl⟩, -⟩ := opens
  have place : byteLength (front ++ rest) - byteLength rest = byteLength front := by
    rw [byteLength_append, Nat.add_sub_cancel]
  rw [place]
  show isBoundary _ (floorBoundary _ _) = true ∧ floorBoundary _ _ + _ = _
  rw [floorBoundary, before_append, byteLength_append]
  exact ⟨isBoundary_iff.mpr ⟨front, rest, rfl, rfl⟩, rfl⟩

end KindLift.TokenTiling
