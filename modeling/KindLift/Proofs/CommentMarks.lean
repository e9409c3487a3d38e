import KindLift.Proofs.TokenEnds
import KindLift.Proofs.TokenTiling
import KindLift.Proofs.Traversal

/-! Marks of comments. What stands between tokens is white space and comments, and so a mark
opens a comment or stands in one, unless it belongs to a token. An operator goes on over the
marks that it meets, and so does an operator at the end of a word: these are the only marks
outside of literals and quoted names that do not open comments. -/
namespace KindLift.CommentMarks
open Token Text TextBoundary TokenPlacement TokenLocality ScanSteps TokenTiling
open Traversal (toOption_eq_some_iff)

/-- The two marks that open comments. -/
def IsMark (mark : List Char) : Prop := mark = ['/', '/'] ∨ mark = ['/', '*']

/-- The token is neither a literal nor written in back quotes. -/
def Plain (token : Token) : Prop := token.kind ≠ .literal ∧ token.lexeme.head? ≠ some '\x60'

instance : DecidablePred Plain := fun _ => inferInstanceAs (Decidable (_ ∧ _))

/-- An operator goes on behind the character. -/
def Draws (c : Char) : Prop := isOperatorChar c = true ∨ c = '_'

instance : DecidablePred Draws := fun _ => inferInstanceAs (Decidable (_ ∨ _))

/-- The text is one comment, where `after` follows it. -/
inductive IsComment (after : List Char) : List Char → Prop where
  | line (body : List Char) (inLine : '\n' ∉ body) (ends : ∀ c ∈ after.head?, c = '\n') : IsComment after ('/' :: '/' :: body)
  | block (body : List Char) (inside : Comment body) : IsComment after ('/' :: '*' :: (body ++ ['*', '/']))

/-- The span addresses a comment of the text. -/
def CommentAt (source : List Char) (span : Span) : Prop :=
  ∃ before comment after, source = before ++ (comment ++ after) ∧ IsComment after comment ∧
    byteLength before = span.start ∧ byteLength (before ++ comment) = span.stop

/-- The offset is in a comment, and no token has a part of that. -/
def Commented (source : List Char) (tokens : List Token) (offset : Nat) : Prop :=
  ∃ span, CommentAt source span ∧ span.contains offset = true ∧
    ∀ token ∈ tokens, token.stop ≤ span.start ∨ span.stop ≤ token.start

/-- A plain token comes up to the end of `left`, which an operator goes on behind. -/
def Drawn (tokens : List Token) (left : List Char) : Prop :=
  (∃ c ∈ left.getLast?, Draws c) ∧ ∃ token ∈ tokens, Plain token ∧ token.start < byteLength left ∧ byteLength left ≤ token.stop

/-- The token is a word and an operator, where `next` follows it. An operator stands behind a
word only if that ends in an underscore, and it goes on as long as it can. -/
structure Greedy (lexeme next word run : List Char) : Prop where
  whole : lexeme = word ++ run
  inWord : ∀ c ∈ word, isOperatorChar c = false
  inRun : ∀ c ∈ run, isOperatorChar c = true
  joined : run ≠ [] → ∀ c ∈ word.getLast?, c = '_'
  ends : (∃ c ∈ lexeme.getLast?, Draws c) → ∀ c ∈ next.head?, isOperatorChar c = false

/-- The token is read behind `front`, where `next` follows it, and no comment begins with it. -/
structure ReadAt (source : List Char) (token : Token) (front next : List Char) : Prop where
  shape : source = front ++ (token.lexeme ++ next)
  stays : skipTrivia .blank (token.lexeme ++ next) = .ok (token.lexeme ++ next)
  greedy : Plain token → ∃ word run, Greedy token.lexeme next word run

variable {source chars left right front back next body word run gap mark : List Char} {c d : Char} {kind : TokenKind}
  {glued final : Bool} {offset : Nat} {tokens : List Token} {token : Token}

/-! ### Characters -/

theorem punctuation?_draws {rest : List Char} (found : punctuation? c rest = some kind) : ¬ Draws c := by
  unfold punctuation? at found
  split at found
  case h_10 => cases found
  all_goals
    rintro (symbol | under)
    · revert symbol
      decide
    · revert under
      decide

/-- Both characters of a mark are symbols. -/
theorem IsMark.symbols (isMark : IsMark mark) : ∃ d, mark = ['/', d] ∧ isOperatorChar d = true := by
  rcases isMark with rfl | rfl
  · exact ⟨'/', rfl, by decide⟩
  · exact ⟨'*', rfl, by decide⟩

/-- The scanner does not stay in front of a mark. -/
theorem IsMark.skipped (isMark : IsMark mark) (back : List Char) : skipTrivia .blank (mark ++ back) ≠ .ok (mark ++ back) := by
  intro stays
  rcases isMark with rfl | rfl
  · have shorter : (['/', '/'] ++ back).length ≤ back.length := @skipTrivia_length_le .lineComment _ _ stays
    simp only [List.length_append, List.length_cons] at shorter
    omega
  · have shorter : (['/', '*'] ++ back).length ≤ back.length :=
      @skipTrivia_length_le (.blockComment 0 (['/', '*'] ++ back)) _ _ stays
    simp only [List.length_append, List.length_cons] at shorter
    omega

/-! ### Tokens -/

theorem skipWord_greedy (read : skipWord c (body ++ next) = next) (starts : isIdentStart c = true) :
    ∃ word run, Greedy (c :: body) next word run := by
  obtain ⟨front, run, rfl, part, operator, -, under⟩ := skipWord_parts read
  have first := not_operator_of_part (identPart_of_start starts)
  have inWord : ∀ d ∈ c :: front, isOperatorChar d = false :=
    List.forall_mem_cons.mpr ⟨first, fun d member => not_operator_of_part (part d member)⟩
  refine ⟨c :: front, run, rfl, inWord, operator, ?_, ?_⟩
  · rintro filled d last
    rcases under with ⟨under, -⟩ | ⟨-, rfl⟩
    · exact Option.some.inj (last.symm.trans under)
    · exact absurd rfl filled
  · rintro ⟨d, last, draws⟩
    rcases under with ⟨-, ends⟩ | ⟨plain, rfl⟩
    · exact ends
    · rw [List.append_nil] at last
      rcases draws with symbol | rfl
      · rw [inWord d (List.mem_of_getLast? last)] at symbol
        cases symbol
      · exact absurd last plain

theorem readToken_greedy (read : readToken glued c (body ++ next) = .ok (kind, next)) (other : kind ≠ .literal)
    (bare : c ≠ '\x60') : ∃ word run, Greedy (c :: body) next word run := by
  unfold readToken at read
  split at read
  · rename_i found
    obtain ⟨-, same⟩ := Prod.mk.inj (Except.ok.inj read)
    obtain rfl : body = [] := List.append_left_eq_self.mp same
    have still := punctuation?_draws found
    refine ⟨[c], [], rfl, ?_, by simp, by simp, ?_⟩
    · rintro d member
      rw [List.mem_singleton.mp member, ← Bool.not_eq_true]
      exact fun symbol => still (.inl symbol)
    · rintro ⟨d, last, draws⟩
      cases last
      exact absurd draws still
  split at read
  · obtain ⟨_, -, same⟩ := map_eq_ok read
    cases same
    exact absurd rfl other
  split at read
  · obtain ⟨_, -, same⟩ := map_eq_ok read
    cases same
    exact absurd rfl other
  split at read
  · exact absurd (Prod.mk.inj (Except.ok.inj read)).1.symm other
  split at read
  · rename_i starts
    exact skipWord_greedy (Prod.mk.inj (Except.ok.inj read)).2 starts
  split at read
  · rename_i symbol
    have dropped := (Prod.mk.inj (Except.ok.inj read)).2
    refine ⟨[], c :: body, rfl, by simp, ?_, by simp, fun _ => dropWhile_ends dropped⟩
    exact List.forall_mem_cons.mpr ⟨symbol, TokenEnds.run_of_dropWhile dropped⟩
  · cases read

/-- A symbol inside of a token stands behind a symbol or behind an underscore. -/
theorem Greedy.draws (greedy : Greedy (front ++ d :: back) next word run) (symbol : isOperatorChar d = true)
    (inside : front ≠ []) : ∃ c ∈ front.getLast?, Draws c := by
  obtain ⟨c, last⟩ : ∃ c, front.getLast? = some c := ⟨_, List.getLast?_eq_some_getLast inside⟩
  refine ⟨c, last, ?_⟩
  have joined (ends : word = front) (begins : run = d :: back) : Draws c :=
    .inr (greedy.joined (begins ▸ List.cons_ne_nil _ _) c (ends ▸ last))
  rcases List.append_eq_append_iff.mp greedy.whole with ⟨more, rfl, same⟩ | ⟨more, rfl, same⟩
  · cases more with
    | nil => exact joined (List.append_nil _) same.symm
    | cons e more =>
      cases same
      rw [greedy.inWord d (by simp)] at symbol
      cases symbol
  · cases more with
    | nil => exact joined (List.append_nil _).symm same
    | cons e more =>
      rw [List.getLast?_append_of_ne_nil _ (List.cons_ne_nil _ _)] at last
      exact .inl (greedy.inRun c (same ▸ List.mem_append_left _ (List.mem_of_getLast? last)))

/-- An operator takes all of a mark that it meets. -/
theorem Greedy.covers (greedy : Greedy (front ++ back) next word run) (draws : ∃ c ∈ front.getLast?, Draws c)
    (isMark : IsMark mark) (behind : back ++ next = mark ++ right) : 2 ≤ byteLength back := by
  obtain ⟨d, rfl, symbol⟩ := isMark.symbols
  match back with
  | [] =>
    rw [List.nil_append] at behind
    rw [List.append_nil] at greedy
    exact absurd (greedy.ends draws '/' (behind ▸ rfl)) (by decide)
  | [e] =>
    cases behind
    have last : ∃ c ∈ (front ++ ['/']).getLast?, Draws c := ⟨'/', by simp, .inl (by decide)⟩
    rw [greedy.ends last d rfl] at symbol
    cases symbol
  | e :: e' :: more =>
    have first := e.utf8Size_pos
    have second := e'.utf8Size_pos
    rw [byteLength_cons, byteLength_cons]
    omega

/-- A token of a text, with what stands in front of it and behind it. -/
theorem scanFrom_readAt (scanned : scanFrom offset glued chars = .ok tokens) (member : token ∈ tokens) :
    ∃ front next, ReadAt chars token front next ∧ token.start = offset + byteLength front := by
  induction tokens generalizing offset glued chars with
  | nil => cases member
  | cons first rest ih =>
    obtain ⟨gap, c, body, next, rfl, skipped, read, same, later⟩ := scanFrom_first scanned
    rcases List.mem_cons.mp member with rfl | behind
    · have lexeme := congrArg Token.lexeme same
      have start := congrArg Token.start same
      refine ⟨gap, next, ⟨by rw [lexeme, List.cons_append], ?_, fun plain => ?_⟩, start⟩
      · rw [lexeme]
        exact skipTrivia_token skipped rfl
      · rw [Plain, lexeme] at plain
        rw [lexeme]
        exact readToken_greedy read plain.1 fun quote => plain.2 (congrArg some quote)
    · obtain ⟨front, next', ⟨rfl, stays, greedy⟩, start⟩ := ih later behind
      refine ⟨gap ++ first.lexeme ++ front, next', ⟨?_, stays, greedy⟩, ?_⟩
      · rw [same]
        simp
      · rw [start, byteLength_append, byteLength_append, Token.stop, congrArg Token.start same]
        simp only [Nat.add_assoc]

/-- A mark that begins in a plain token stands behind a character that an operator goes on
behind. -/
theorem ReadAt.draws (readAt : ReadAt source token left next) (plain : Plain token) (isMark : IsMark mark)
    (shape : token.lexeme = front ++ back) (behind : back ++ next = mark ++ right) (nonempty : back ≠ []) :
    ∃ c ∈ front.getLast?, Draws c := by
  obtain ⟨word, run, greedy⟩ := readAt.greedy plain
  obtain ⟨d, rfl, -⟩ := isMark.symbols
  obtain ⟨e, back, rfl⟩ := List.exists_cons_of_ne_nil nonempty
  obtain ⟨rfl, -⟩ := List.cons.inj behind
  rw [shape] at greedy
  refine greedy.draws (by decide) ?_
  rintro rfl
  have stays := readAt.stays
  rw [shape, List.nil_append, behind] at stays
  exact isMark.skipped right stays

/-! ### Comments -/

theorem CommentAt.prepend {span : Span} (comment : CommentAt chars span) (front : List Char) :
    CommentAt (front ++ chars) ⟨byteLength front + span.start, byteLength front + span.stop⟩ := by
  obtain ⟨before, comment, after, rfl, isComment, start, stop⟩ := comment
  refine ⟨front ++ before, comment, after, by rw [List.append_assoc], isComment, ?_, ?_⟩
  · rw [byteLength_append, start]
  · rw [List.append_assoc, byteLength_append, stop]

theorem contains_shift {span : Span} (contains : span.contains offset = true) (width : Nat) :
    Span.contains ⟨width + span.start, width + span.stop⟩ (width + offset) = true := by
  obtain ⟨low, high⟩ := Span.contains_iff.mp contains
  exact Span.contains_iff.mpr ⟨Nat.add_le_add_left low width, Nat.add_lt_add_left high width⟩

/-- A comment of the text has the offset in it, and ends in front of `right`. -/
def CommentIn (chars right : List Char) (offset : Nat) : Prop :=
  ∃ span, CommentAt (chars ++ right) span ∧ span.contains offset = true ∧ span.stop ≤ byteLength chars

theorem CommentIn.prepend (inside : CommentIn chars right offset) (front : List Char) :
    CommentIn (front ++ chars) right (byteLength front + offset) := by
  obtain ⟨span, comment, contains, fits⟩ := inside
  refine ⟨_, List.append_assoc front chars right ▸ comment.prepend front, contains_shift contains _, ?_⟩
  rw [byteLength_append]
  exact Nat.add_le_add_left fits _

/-- What begins with a comment is in it, or it is behind it. -/
theorem commentIn_append {comment : List Char} (isComment : IsComment (gap ++ right) comment)
    (whole : comment ++ gap = front ++ c :: back)
    (later : ∀ front', gap = front' ++ c :: back → CommentIn gap right (byteLength front')) :
    CommentIn (comment ++ gap) right (byteLength front) := by
  by_cases inside : byteLength front < byteLength comment
  · refine ⟨⟨0, byteLength comment⟩, ⟨[], comment, gap ++ right, ?_, isComment, rfl, rfl⟩, ?_, ?_⟩
    · rw [List.append_assoc, List.nil_append]
    · exact Span.contains_iff.mpr ⟨Nat.zero_le _, inside⟩
    · rw [byteLength_append]
      exact Nat.le_add_right _ _
  · obtain ⟨front', rfl⟩ := cuts_nested whole (Nat.le_of_not_lt inside)
    rw [List.append_assoc, List.append_cancel_left_eq] at whole
    rw [byteLength_append]
    exact (later front' whole).prepend comment

/-- What is no white space in a gap belongs to a comment. -/
theorem gap_comment (between : Gap final gap) (whole : gap = front ++ c :: back) (solid : isWhiteSpace c = false)
    (right : List Char) (last : final = true → right = []) : CommentIn gap right (byteLength front) := by
  induction between generalizing front with
  | nil => simp at whole
  | space d gap blank _ ih =>
    cases front with
    | nil =>
      cases whole
      rw [blank] at solid
      cases solid
    | cons e front =>
      rw [List.cons_append, List.cons.injEq] at whole
      obtain ⟨rfl, whole⟩ := whole
      exact (ih whole).prepend [d]
  | line body gap inLine _ ih =>
    have isComment : IsComment ('\n' :: gap ++ right) ('/' :: '/' :: body) := .line body inLine (by simp)
    refine commentIn_append isComment whole fun front' whole' => ?_
    cases front' with
    | nil =>
      cases whole'
      cases solid
    | cons e front' =>
      rw [List.cons_append, List.cons.injEq] at whole'
      obtain ⟨rfl, whole'⟩ := whole'
      exact (ih whole').prepend ['\n']
  | lastLine body final inLine =>
    obtain rfl := last final
    have only : IsComment ([] ++ []) ('/' :: '/' :: body) := .line body inLine (by simp)
    simpa using commentIn_append only (by simpa using whole) (by simp)
  | block body gap inside _ ih =>
    have shape : '/' :: '*' :: (body ++ '*' :: '/' :: gap) = ('/' :: '*' :: (body ++ ['*', '/'])) ++ gap := by simp
    rw [shape] at whole ⊢
    exact commentIn_append (.block body inside) whole fun front' => ih

/-- The place belongs to a token, or to a comment that is apart from all tokens. The text
begins at `offset`, which the tokens are counted from. -/
def Taken (offset : Nat) (chars : List Char) (tokens : List Token) (place : Nat) : Prop :=
  (∃ token ∈ tokens, token.span.contains (offset + place) = true) ∨
    ∃ span, CommentAt chars span ∧ span.contains place = true ∧
      ∀ token ∈ tokens, token.stop ≤ offset + span.start ∨ offset + span.stop ≤ token.start

theorem tiled_starts (tiled : Tiled offset chars tokens) : ∀ token ∈ tokens, offset ≤ token.start := by
  induction tiled with
  | last => simp
  | token front start _ _ ih =>
    refine List.forall_mem_cons.mpr ⟨by omega, fun other member => ?_⟩
    have later := ih other member
    rw [Token.stop] at later
    omega

/-- A comment in the gap in front of a token is in front of all the others. -/
theorem taken_gap {rest : List Char} {place : Nat} (inside : CommentIn gap (token.lexeme ++ rest) place)
    (start : token.start = offset + byteLength gap) (behind : Tiled token.stop rest tokens) :
    Taken offset (gap ++ (token.lexeme ++ rest)) (token :: tokens) place := by
  obtain ⟨span, comment, contains, fits⟩ := inside
  have first : offset + span.stop ≤ token.start := start ▸ Nat.add_le_add_left fits offset
  refine .inr ⟨span, comment, contains, List.forall_mem_cons.mpr ⟨.inr first, fun other member => .inr ?_⟩⟩
  exact Nat.le_trans (Nat.le_trans first (Nat.le_add_right _ _)) (tiled_starts behind other member)

/-- A place behind a token is taken as it is in the text behind that. -/
theorem Taken.behind {rest : List Char} {place : Nat} (taken : Taken token.stop rest tokens place)
    (stop : token.stop = offset + byteLength front) :
    Taken offset (front ++ rest) (token :: tokens) (byteLength front + place) := by
  rcases taken with ⟨other, member, contains⟩ | ⟨span, comment, contains, apart⟩
  · refine .inl ⟨other, List.mem_cons_of_mem _ member, ?_⟩
    rwa [← Nat.add_assoc, ← stop]
  · refine .inr ⟨_, comment.prepend front, contains_shift contains _, ?_⟩
    dsimp only
    rw [← Nat.add_assoc, ← Nat.add_assoc, ← stop]
    exact List.forall_mem_cons.mpr ⟨.inl (Nat.le_add_right _ _), apart⟩

/-- What is no white space belongs to a token or to a comment. -/
theorem tiled_taken (tiled : Tiled offset chars tokens) (whole : chars = left ++ c :: right) (solid : isWhiteSpace c = false) :
    Taken offset chars tokens (byteLength left) := by
  induction tiled generalizing left with
  | last behind =>
    obtain ⟨span, comment, contains, -⟩ := gap_comment behind whole solid [] fun _ => rfl
    exact .inr ⟨span, by rwa [List.append_nil] at comment, contains, by simp⟩
  | @token offset gap rest token tokens front start nonempty behind ih =>
    by_cases inGap : byteLength left < byteLength gap
    · obtain ⟨middle, rfl⟩ := cuts_nested whole.symm (Nat.le_of_lt inGap)
      have filled : middle ≠ [] := by
        rintro rfl
        simp at inGap
      obtain ⟨d, middle, rfl⟩ := List.exists_cons_of_ne_nil filled
      obtain ⟨rfl, -⟩ : d = c ∧ _ := by simpa using whole
      exact taken_gap (gap_comment front rfl solid _ (by simp)) start behind
    have stop : token.stop = offset + byteLength (gap ++ token.lexeme) := by
      rw [Token.stop, start, byteLength_append, Nat.add_assoc]
    by_cases inToken : byteLength left < byteLength (gap ++ token.lexeme)
    · have low : token.start ≤ offset + byteLength left := start ▸ Nat.add_le_add_left (Nat.le_of_not_lt inGap) offset
      have high : offset + byteLength left < token.stop := stop ▸ Nat.add_lt_add_left inToken offset
      exact .inl ⟨token, List.mem_cons_self .., Span.contains_iff.mpr ⟨low, high⟩⟩
    · rw [← List.append_assoc] at whole ⊢
      obtain ⟨middle, rfl⟩ := cuts_nested whole (Nat.le_of_not_lt inToken)
      rw [List.append_assoc (gap ++ token.lexeme), List.append_cancel_left_eq] at whole
      rw [byteLength_append]
      exact (ih whole).behind stop

/-! ### Marks -/

theorem scan_readAt (scanned : scan source = .ok tokens) (member : token ∈ tokens) :
    ∃ front next, ReadAt source token front next ∧ token.start = byteLength front := by
  obtain ⟨front, next, readAt, start⟩ := scanFrom_readAt (scan_eq_ok_iff.mp scanned) member
  exact ⟨front, next, readAt, by rw [start, Nat.zero_add]⟩

/-- A text that is cut in a token or at an end of it has the token cut in two. -/
theorem token_cut (scanned : scan source = .ok tokens) (member : token ∈ tokens) (whole : source = left ++ right)
    (low : token.start ≤ byteLength left) (high : byteLength left ≤ token.stop) :
    ∃ front head tail next, ReadAt source token front next ∧ left = front ++ head ∧ token.lexeme = head ++ tail ∧
      tail ++ next = right ∧ token.start + byteLength head = byteLength left ∧
      token.stop = byteLength left + byteLength tail := by
  obtain ⟨front, next, readAt, start⟩ := scan_readAt scanned member
  rw [Token.stop, start] at high
  rw [start] at low
  obtain ⟨head, tail, rfl, shape, behind⟩ := cut_inside (whole.symm.trans readAt.shape) low high
  refine ⟨front, head, tail, next, readAt, rfl, shape, behind.symm, ?_, ?_⟩
  · rw [start, byteLength_append]
  · rw [Token.stop, start, shape, byteLength_append, byteLength_append, Nat.add_assoc]

/-- A mark that begins in a plain token is drawn into it. -/
theorem drawn_of_contains (scanned : scan source = .ok tokens) (isMark : IsMark mark) (whole : source = left ++ (mark ++ right))
    (member : token ∈ tokens) (plain : Plain token) (inside : token.span.contains (byteLength left) = true) : Drawn tokens left := by
  obtain ⟨low, high⟩ := Span.contains_iff.mp inside
  obtain ⟨front, head, tail, next, readAt, rfl, shape, behind, start, stop⟩ :=
    token_cut scanned member whole low (Nat.le_of_lt high)
  have filled : tail ≠ [] := by
    rintro rfl
    exact absurd high (Nat.not_lt_of_le (Nat.le_of_eq stop))
  obtain ⟨c, last, draws⟩ := readAt.draws plain isMark shape behind filled
  have first : head ≠ [] := by
    rintro rfl
    cases last
  refine ⟨⟨c, ?_, draws⟩, token, member, plain, ?_, Nat.le_of_lt high⟩
  · rwa [List.getLast?_append_of_ne_nil _ first]
  · exact start ▸ Nat.lt_add_of_pos_right (byteLength_pos first)

/-- The token that a mark is drawn into takes all of it. -/
theorem Drawn.covered (drawn : Drawn tokens left) (scanned : scan source = .ok tokens) (isMark : IsMark mark)
    (whole : source = left ++ (mark ++ right)) :
    ∃ token ∈ tokens, Plain token ∧ token.start < byteLength left ∧ byteLength left + 2 ≤ token.stop := by
  obtain ⟨⟨c, last, draws⟩, token, member, plain, low, high⟩ := drawn
  obtain ⟨front, head, tail, next, readAt, rfl, shape, behind, start, stop⟩ :=
    token_cut scanned member whole (Nat.le_of_lt low) high
  have first : head ≠ [] := by
    rintro rfl
    exact absurd low (Nat.not_lt_of_le (Nat.le_of_eq start.symm))
  rw [List.getLast?_append_of_ne_nil _ first] at last
  obtain ⟨word, run, greedy⟩ := readAt.greedy plain
  have width := (shape ▸ greedy).covers ⟨c, last, draws⟩ isMark behind
  exact ⟨token, member, plain, low, stop ▸ Nat.add_le_add_left width _⟩

/-- No mark in a comment is drawn into a token. -/
theorem Commented.not_drawn (commented : Commented source tokens (byteLength left)) (scanned : scan source = .ok tokens)
    (isMark : IsMark mark) (whole : source = left ++ (mark ++ right)) : ¬ Drawn tokens left := by
  obtain ⟨span, -, contains, apart⟩ := commented
  obtain ⟨low, high⟩ := Span.contains_iff.mp contains
  intro drawn
  obtain ⟨token, member, -, start, stop⟩ := drawn.covered scanned isMark whole
  have outside := apart token member
  omega

/-- The mark of a comment is either in a comment or drawn into a token, outside of literals
and quoted names. An operator, also one at the end of a word, draws the marks right behind
it, and no other plain token has a mark in it. -/
theorem marks_settled (scanned : scan source = .ok tokens) :
    (∀ token ∈ tokens, Plain token → ∀ front mark back, IsMark mark → token.lexeme = front ++ (mark ++ back) →
      ∃ c ∈ front.getLast?, Draws c) ∧
    ∀ left mark right, IsMark mark → source = left ++ (mark ++ right) →
      (∀ token ∈ tokens, token.span.contains (byteLength left) = true → Plain token) →
        (Commented source tokens (byteLength left) ↔ ¬ Drawn tokens left) ∧
        (Drawn tokens left →
          ∃ token ∈ tokens, Plain token ∧ token.start < byteLength left ∧ byteLength left + 2 ≤ token.stop) := by
  refine ⟨fun token member plain front mark back isMark shape => ?_, fun left mark right isMark whole outside => ?_⟩
  · obtain ⟨_, next, readAt, -⟩ := scan_readAt scanned member
    have filled : mark ++ back ≠ [] := by
      obtain ⟨d, rfl, -⟩ := isMark.symbols
      exact List.cons_ne_nil _ _
    exact readAt.draws plain isMark shape (List.append_assoc mark back next) filled
  have drawn_or_commented : Drawn tokens left ∨ Commented source tokens (byteLength left) := by
    obtain ⟨d, rfl, -⟩ := isMark.symbols
    have taken := tiled_taken (scanFrom_tiled (scan_eq_ok_iff.mp scanned)) whole (by decide)
    simp only [Taken, Nat.zero_add] at taken
    rcases taken with ⟨token, member, inside⟩ | commented
    · exact .inl (drawn_of_contains scanned isMark whole member (outside token member inside) inside)
    · exact .inr commented
  exact ⟨⟨fun commented => commented.not_drawn scanned isMark whole, drawn_or_commented.resolve_left⟩,
    fun drawn => drawn.covered scanned isMark whole⟩

/-- The first mark is drawn into an operator, and so the parenthesis is a token. The second
one opens a comment, which the third one is in, although it stands behind an underscore. -/
def drawnText : List Char := "a +// )\nb // c_/*".toList

def drawnTokens : List Token :=
  [⟨.ident, 0, ['a']⟩, ⟨.operator, 2, ['+', '/', '/']⟩, ⟨.closer .paren, 6, [')']⟩, ⟨.ident, 8, ['b']⟩]

theorem drawnText_marks : scan drawnText = .ok drawnTokens ∧
    (¬ Commented drawnText drawnTokens 3 ∧ ∃ token ∈ drawnTokens, Plain token ∧ token.start < 3 ∧ 3 + 2 ≤ token.stop) ∧
    Commented drawnText drawnTokens 10 ∧ Commented drawnText drawnTokens 15 := by
  have scanned : scan drawnText = .ok drawnTokens := toOption_eq_some_iff.mp (by decide +kernel)
  obtain ⟨-, marks⟩ := marks_settled scanned
  have operator := marks "a +".toList ['/', '/'] " )\nb // c_/*".toList (.inl rfl) (by decide) (by decide)
  have opener := marks "a +// )\nb ".toList ['/', '/'] " c_/*".toList (.inl rfl) (by decide) (by decide)
  have inner := marks "a +// )\nb // c_".toList ['/', '*'] [] (.inr rfl) (by decide) (by decide)
  have drawn : Drawn drawnTokens "a +".toList := ⟨⟨'+', by decide⟩, ⟨.operator, 2, ['+', '/', '/']⟩, by decide⟩
  refine ⟨scanned, ⟨fun commented => operator.1.mp commented drawn, operator.2 drawn⟩, opener.1.mpr ?_, inner.1.mpr ?_⟩
  · rintro ⟨-, token, member, -, low, reaches⟩
    revert token
    decide
  · rintro ⟨-, token, member, -, low, reaches⟩
    revert token
    decide

end KindLift.CommentMarks
