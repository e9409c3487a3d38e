import KindLift.Proofs.TextBoundary
import KindLift.Proofs.TokenLocality

/-! Reading a text token by token. What is read from the beginning of a text does not
depend on how the text goes on, as long as it goes on with the same character. -/
namespace KindLift.ScanSteps
open Token Text TextBoundary TokenPlacement TriviaGaps TokenLocality

/-- The texts are the same, or they are the same up to some character that no token
looks behind. -/
def Alike (chars others : List Char) : Prop :=
  chars = others ∨ ∃ front c rest rest', c ≠ '"' ∧
    (c = '.' → rest.head?.any Char.isDigit = rest'.head?.any Char.isDigit) ∧
    chars = front ++ c :: rest ∧ others = front ++ c :: rest'

variable {chars others next next' rest tail z : List Char} {c e : Char} {kind : TokenKind} {glued : Bool}

theorem Alike.prepend (alike : Alike chars others) (front : List Char) :
    Alike (front ++ chars) (front ++ others) := by
  rcases alike with rfl | ⟨middle, c, rest, rest', quote, point, rfl, rfl⟩
  · exact .inl rfl
  · exact .inr ⟨front ++ middle, c, rest, rest', quote, point, by simp, by simp⟩

theorem Alike.head (alike : Alike chars others) : others.head? = chars.head? := by
  rcases alike with rfl | ⟨front, c, rest, rest', -, -, rfl, rfl⟩
  · rfl
  · cases front <;> rfl

theorem Alike.readToken {body : List Char} (alike : Alike next next')
    (read : readToken glued c (body ++ next) = .ok (kind, next)) :
    Token.readToken glued c (body ++ next') = .ok (kind, next') := by
  rcases alike with rfl | ⟨middle, e, x, y, quote, point, rfl, rfl⟩
  · exact read
  · rw [← List.append_assoc] at read ⊢
    exact readToken_local quote point read

/-- Nothing is skipped in front of a token, if no mark of a comment comes behind its first
character where there was none. -/
theorem skipTrivia_ahead {trivia : Trivia} (skipped : skipTrivia trivia chars = .ok (c :: tail))
    (ahead : ∀ e ∈ rest.head?, e ∈ tail.head? ∨ e ≠ '/' ∧ e ≠ '*') : skipTrivia .blank (c :: rest) = .ok (c :: rest) := by
  have marks : ∀ d, d = '/' ∨ d = '*' → (∀ more, tail ≠ d :: more) → [d].isPrefixOf rest = false := by
    intro d mark absent
    refine isPrefixOf_false fun more same => ?_
    subst same
    rcases ahead d rfl with stands | other
    · cases tail with
      | nil => cases stands
      | cons e tail =>
        cases stands
        exact absent tail rfl
    · exact mark.elim other.1 other.2
  fun_induction Token.skipTrivia trivia chars with
  | case6 d others solid noLine noBlock =>
    cases skipped
    refine skipTrivia_done solid ?_ ?_
    · rintro rfl
      exact marks _ (.inl rfl) fun tail => noLine tail rfl
    · rintro rfl
      exact marks _ (.inr rfl) fun tail => noBlock tail rfl
  | _ => simp_all

/-- Nothing is skipped in front of a token, whatever follows its first two characters. -/
theorem skipTrivia_token {trivia : Trivia} (skipped : skipTrivia trivia chars = .ok (c :: tail))
    (ahead : rest.head? = tail.head?) : skipTrivia .blank (c :: rest) = .ok (c :: rest) :=
  skipTrivia_ahead skipped fun _ first => .inl (ahead ▸ first)

/-- Only a string depends on what stands right before it. -/
theorem readToken_glued (quote : c ≠ '"') (glued glued' : Bool) (rest : List Char) :
    readToken glued c rest = readToken glued' c rest := by
  unfold Token.readToken
  rw [if_neg quote, if_neg quote]

/-! ### Names -/

theorem head_dropWhile_false {p : Char → Bool} (dropped : chars.dropWhile p = c :: tail) : p c = false := by
  have stops := List.head_dropWhile_not p (l := chars) (by simp [dropped])
  simpa only [dropped, List.head_cons] using stops

/-- What is left behind a run begins with no character of its class. -/
theorem dropWhile_ends {p : Char → Bool} (dropped : chars.dropWhile p = next) : ∀ c ∈ next.head?, p c = false := by
  intro c first
  cases next with
  | nil => cases first
  | cons d next =>
    cases first
    exact head_dropWhile_false dropped

/-- A run of characters of a class ends in front of one that is not of the class. -/
theorem dropWhile_stop {p : Char → Bool} {body : List Char} (all : ∀ e ∈ body, p e = true)
    (stop : ∀ e ∈ next.head?, p e = false) : (body ++ next).dropWhile p = next ∧ (body ++ next).takeWhile p = body := by
  rw [List.dropWhile_append_of_pos all, List.takeWhile_append_of_pos all]
  cases next with
  | nil => simp
  | cons e next =>
    have outside : ¬ p e = true := by rw [stop e rfl]; simp
    rw [List.dropWhile_cons_of_neg outside, List.takeWhile_cons_of_neg outside, List.append_nil]
    exact ⟨rfl, rfl⟩

/-- A character that no word and no operator goes on with. -/
def Stops (e : Char) : Prop := isIdentPart e = false ∧ isOperatorChar e = false

/-- A word is made of parts of words, and of symbols if those end in an underscore. Both runs
go as far as they can. -/
theorem skipWord_parts {first : Char} {body : List Char} (read : skipWord first (body ++ next) = next) :
    ∃ front run, body = front ++ run ∧ (∀ d ∈ front, isIdentPart d = true) ∧ (∀ d ∈ run, isOperatorChar d = true) ∧
      (∀ d ∈ (run ++ next).head?, isIdentPart d = false) ∧
      ((first :: front).getLast? = some '_' ∧ (∀ d ∈ next.head?, isOperatorChar d = false) ∨
        (first :: front).getLast? ≠ some '_' ∧ run = []) := by
  have word := @List.takeWhile_append_dropWhile _ isIdentPart (body ++ next)
  have part := List.all_eq_true.mp (@List.all_takeWhile _ isIdentPart (body ++ next))
  have stop := @dropWhile_ends (body ++ next) _ isIdentPart rfl
  unfold skipWord at read
  dsimp only at read
  generalize (body ++ next).takeWhile isIdentPart = front at *
  generalize (body ++ next).dropWhile isIdentPart = back at *
  split at read
  · rename_i under
    have symbols := @List.takeWhile_append_dropWhile _ isOperatorChar back
    have operator := List.all_eq_true.mp (@List.all_takeWhile _ isOperatorChar back)
    rw [read] at symbols
    rw [← symbols, ← List.append_assoc, List.append_cancel_right_eq] at word
    exact ⟨front, _, word.symm, part, operator, symbols.symm ▸ stop, .inl ⟨under, dropWhile_ends read⟩⟩
  · rename_i plain
    subst read
    rw [List.append_cancel_right_eq] at word
    exact ⟨front, [], by rw [word, List.append_nil], part, List.forall_mem_nil _, stop, .inr ⟨plain, rfl⟩⟩

/-- A word is the same word in front of a character that it does not go on with. -/
theorem skipWord_stop {first : Char} {body : List Char} (read : skipWord first (body ++ next) = next) (stops : Stops e)
    (z : List Char) : skipWord first (body ++ e :: z) = e :: z := by
  obtain ⟨front, run, rfl, part, operator, stop, under⟩ := skipWord_parts read
  have outside : ∀ d ∈ (run ++ e :: z).head?, isIdentPart d = false := by
    intro d first
    cases run with
    | nil =>
      cases first
      exact stops.1
    | cons d run =>
      cases first
      exact stop d rfl
  obtain ⟨dropped, taken⟩ := dropWhile_stop part outside
  unfold skipWord
  dsimp only
  rw [List.append_assoc, dropped, taken]
  rcases under with ⟨under, -⟩ | ⟨plain, rfl⟩
  · rw [if_pos under]
    exact (dropWhile_stop operator (by rintro d ⟨⟩; exact stops.2)).1
  · rw [if_neg plain, List.nil_append]

/-- Punctuation names nothing. -/
theorem punctuation?_name (found : punctuation? c rest = some kind) : ¬ (kind = .ident ∨ kind = .operator) := by
  unfold punctuation? at found
  split at found
  case h_9 =>
    split at found
    · cases found
    · cases found
      simp
  all_goals
    cases found
    try simp

/-- How a name is read: as a quoted identifier, a word or an operator. -/
theorem name_cases {body : List Char} (read : readToken glued c (body ++ next) = .ok (kind, next))
    (name : kind = .ident ∨ kind = .operator) :
    (∀ rest, punctuation? c rest = none) ∧ c ≠ '"' ∧ c ≠ '\'' ∧
      (c = '\x60' ∧ kind = .ident ∧ (body ++ next).dropWhile (fun d => d ≠ '\x60' && d ≠ '\n') = '\x60' :: next ∨
        c ≠ '\x60' ∧ ¬ (c.isDigit || c = '.') = true ∧
          (isIdentStart c = true ∧ wordKind (c :: body) = kind ∧ skipWord c (body ++ next) = next ∨
            ¬ isIdentStart c = true ∧ isOperatorChar c = true ∧ operatorKind (c :: body) = kind ∧
              ∀ d ∈ body, isOperatorChar d = true)) := by
  unfold Token.readToken at read
  split at read
  · rename_i found
    obtain ⟨rfl, -⟩ := Prod.mk.inj (Except.ok.inj read)
    exact absurd name (punctuation?_name found)
  rename_i alone
  split at read
  · obtain ⟨_, _, same⟩ := map_eq_ok read
    cases same
    simp at name
  rename_i quote
  split at read
  · obtain ⟨_, _, same⟩ := map_eq_ok read
    cases same
    simp at name
  rename_i tick
  split at read
  · rename_i back
    have alone' : ∀ rest, punctuation? c rest = none := by
      rw [back]
      exact fun _ => rfl
    split at read
    · rename_i tail dropped
      obtain ⟨same, rfl⟩ := Prod.mk.inj (Except.ok.inj read)
      exact ⟨alone', quote, tick, .inl ⟨back, same.symm, dropped⟩⟩
    · cases read
  rename_i back
  split at read
  · obtain ⟨rfl, -⟩ := Prod.mk.inj (Except.ok.inj read)
    simp at name
  rename_i number
  have point : c ≠ '.' := by
    rintro rfl
    exact number rfl
  have alone' : ∀ rest, punctuation? c rest = none := by
    intro rest
    unfold punctuation? at alone ⊢
    split at alone <;> first
      | exact absurd rfl point
      | rfl
      | cases alone
  refine ⟨alone', quote, tick, .inr ⟨back, number, ?_⟩⟩
  split at read
  · rename_i starts
    obtain ⟨same, skipped⟩ := Prod.mk.inj (Except.ok.inj read)
    rw [skipped, consumed_append] at same
    exact .inl ⟨starts, same, skipped⟩
  rename_i starts
  split at read
  · rename_i symbol
    obtain ⟨same, dropped⟩ := Prod.mk.inj (Except.ok.inj read)
    have taken : (body ++ next).takeWhile isOperatorChar = body := by
      rw [takeWhile_eq_consumed, dropped, consumed_append]
    rw [taken] at same
    refine .inr ⟨starts, symbol, same, ?_⟩
    rw [← taken]
    exact List.all_eq_true.mp (@List.all_takeWhile _ isOperatorChar (body ++ next))
  · cases read

/-- A name is the same name in front of a character that it does not go on with. -/
theorem readToken_stop {body : List Char} (read : readToken glued c (body ++ next) = .ok (kind, next))
    (name : kind = .ident ∨ kind = .operator) (stops : Stops e) (z : List Char) :
    readToken glued c (body ++ e :: z) = .ok (kind, e :: z) := by
  obtain ⟨alone, quote, tick, ⟨back, rfl, dropped⟩ | ⟨back, number, ⟨starts, word, skipped⟩ |
    ⟨starts, symbol, operator, run⟩⟩⟩ := name_cases read name
  · have inside := List.all_eq_true.mp (@List.all_takeWhile _ (fun d => d ≠ '\x60' && d ≠ '\n') (body ++ next))
    have whole := @List.takeWhile_append_dropWhile _ (fun d => d ≠ '\x60' && d ≠ '\n') (body ++ next)
    rw [dropped, List.append_cons, List.append_cancel_right_eq] at whole
    have ends : (body ++ e :: z).dropWhile (fun d => d ≠ '\x60' && d ≠ '\n') = '\x60' :: e :: z := by
      rw [← whole, List.append_assoc]
      exact (dropWhile_stop inside (by rintro d ⟨⟩; rfl)).1
    unfold Token.readToken
    simp only [alone, if_neg quote, if_neg tick, if_pos back, ends]
  · have ends := skipWord_stop skipped stops z
    unfold Token.readToken
    simp only [alone, if_neg quote, if_neg tick, if_neg back, if_neg number, if_pos starts, ends, consumed_append, word]
  · obtain ⟨ends, taken⟩ := @dropWhile_stop (e :: z) _ _ run (by rintro d ⟨⟩; exact stops.2)
    unfold Token.readToken
    simp only [alone, if_neg quote, if_neg tick, if_neg back, if_neg number, if_neg starts, if_pos symbol, ends, taken,
      operator]

/-! ### Tokens one after the other -/

theorem scanFrom_nil (offset : Nat) (skipped : skipTrivia .blank chars = .ok []) :
    scanFrom offset glued chars = .ok [] := by
  rw [scanFrom]
  split
  · simp_all
  · rfl
  · simp_all

theorem skipTrivia_nothing (scanned : scanFrom offset glued chars = .ok []) : skipTrivia .blank chars = .ok [] := by
  rw [scanFrom] at scanned
  split at scanned
  · cases scanned
  · assumption
  · dsimp only at scanned
    split at scanned
    · cases scanned
    · obtain ⟨_, -, impossible⟩ := map_eq_ok scanned
      cases impossible

/-- One step of the scanner, by what it passes over and what it reads. -/
theorem scanFrom_cons (offset : Nat) (gap body : List Char)
    (skipped : skipTrivia .blank (gap ++ c :: (body ++ next)) = .ok (c :: (body ++ next)))
    (read : readToken (glued && gap.isEmpty) c (body ++ next) = .ok (kind, next)) :
    scanFrom offset glued (gap ++ c :: (body ++ next)) =
      (scanFrom (Token.mk kind (offset + byteLength gap) (c :: body)).stop (kind = .ident) next).map
        (⟨kind, offset + byteLength gap, c :: body⟩ :: ·) := by
  rw [scanFrom]
  split
  · simp_all
  · simp_all
  · rename_i d tail found
    rw [skipped] at found
    cases found
    dsimp only
    split
    · rename_i failed
      rw [consumed_append, read] at failed
      cases failed
    · rename_i kind' next' found
      rw [consumed_append, read] at found
      cases found
      rw [consumed_append, consumed_append]

/-- A text whose tokens begin with a given one, by what is passed over and what is read. -/
theorem scanFrom_first {offset : Nat} {token : Token} {rest : List Token}
    (scanned : scanFrom offset glued chars = .ok (token :: rest)) :
    ∃ gap c body next, chars = gap ++ c :: (body ++ next) ∧
      skipTrivia .blank (gap ++ c :: (body ++ next)) = .ok (c :: (body ++ next)) ∧
      readToken (glued && gap.isEmpty) c (body ++ next) = .ok (token.kind, next) ∧
      token = ⟨token.kind, offset + byteLength gap, c :: body⟩ ∧
      scanFrom token.stop (token.kind = .ident) next = .ok rest := by
  rw [scanFrom] at scanned
  split at scanned
  · cases scanned
  · cases scanned
  rename_i c tail skipped
  dsimp only at scanned
  split at scanned
  · cases scanned
  rename_i kind next read
  obtain ⟨others, later, same⟩ := map_eq_ok scanned
  cases same
  have lexeme : consumed tail next ++ next = tail := consumed_append_self (readToken_spec read).1
  have blank : consumed chars (c :: tail) ++ c :: tail = chars := consumed_append_self (skipTrivia_suffix skipped)
  refine ⟨consumed chars (c :: tail), c, consumed tail next, next, ?_, ?_, ?_, rfl, later⟩
  · rw [lexeme, blank]
  · rw [lexeme, blank, skipped]
  · rw [lexeme, read]

theorem scanned_behind {tokens : List Token} {offset : Nat} (scanned : scanFrom offset glued chars = .ok tokens) :
    ∀ token ∈ tokens, offset ≤ token.start := by
  fun_induction scanFrom offset glued chars generalizing tokens with
  | case1 => cases scanned
  | case2 =>
    cases scanned
    simp
  | case3 => cases scanned
  | case4 =>
    rename_i offset glued chars c tail skipped gap kind next read token ih
    obtain ⟨rest, later, rfl⟩ := map_eq_ok scanned
    have first : offset ≤ token.start := Nat.le_add_right _ _
    refine List.forall_mem_cons.mpr ⟨first, fun other member => ?_⟩
    exact Nat.le_trans (Nat.le_trans first (Nat.le_add_right _ _)) (ih later other member)

/-- White space is kept between tokens that had some. -/
theorem respaced_isEmpty {gap gap' : List Char} (respaced : Respaced gap gap') : gap'.isEmpty = gap.isEmpty := by
  cases respaced <;> rfl

/-- A step of the scanner can be repeated where the lines of the gap are moved in and the
text goes on differently. -/
theorem scanFrom_step {gap gap' body : List Char}
    (skipped : skipTrivia .blank (gap ++ c :: (body ++ next)) = .ok (c :: (body ++ next)))
    (read : readToken (glued && gap.isEmpty) c (body ++ next) = .ok (kind, next))
    (respaced : Respaced gap gap') (alike : Alike next next') (offset : Nat) :
    scanFrom offset glued (gap' ++ c :: (body ++ next')) =
      (scanFrom (Token.mk kind (offset + byteLength gap') (c :: body)).stop (kind = .ident) next').map
        (⟨kind, offset + byteLength gap', c :: body⟩ :: ·) := by
  have alone := skipTrivia_token skipped (alike.prepend body).head
  refine scanFrom_cons offset gap' body ?_ ?_
  · exact skipTrivia_respaced skipped rfl respaced rfl (.inr ⟨by simp, alone⟩)
  · rw [respaced_isEmpty respaced]
    exact alike.readToken read

end KindLift.ScanSteps
