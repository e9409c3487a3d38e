import KindLift.Token.Literal

/-! Splitting a source text into tokens. Each step skips trivia, reads the
longest token at that point and goes on with what is left. -/
namespace KindLift.Token

/-- The kind of a word: a reserved word, a lone underscore or an identifier. -/
def wordKind (lexeme : List Char) : TokenKind :=
  if lexeme = ['_'] then .underscore
  else match Keyword.ofText? (String.ofList lexeme) with
    | some word => .keyword word
    | none => .ident

/-- The kind of a run of operator characters. -/
def operatorKind (lexeme : List Char) : TokenKind :=
  match lexeme with
  | ['='] => .equals
  | ['=', '>'] => .arrow
  | ['⇒'] => .arrow
  | [':'] => .colon
  | ['@'] => .atSign
  | _ => .operator

/-- The rest after a word. A word that ends in an underscore takes the operator
characters that follow it, as in a setter's name. -/
def skipWord (first : Char) (rest : List Char) : List Char :=
  let tail := rest.dropWhile isIdentPart
  if (first :: rest.takeWhile isIdentPart).getLast? = some '_' then tail.dropWhile isOperatorChar
  else tail

/-- The characters of `chars` in front of `rest`, where it ends in `rest`. -/
def consumed (chars rest : List Char) : List Char := chars.take (chars.length - rest.length)

/-- Punctuation that is a token by itself. A point in front of a digit begins a
number instead. -/
def punctuation? (c : Char) (rest : List Char) : Option TokenKind :=
  match c with
  | '(' => some (.opener .paren)
  | ')' => some (.closer .paren)
  | '[' => some (.opener .square)
  | ']' => some (.closer .square)
  | '\x7b' => some (.opener .brace)
  | '\x7d' => some (.closer .brace)
  | ',' => some .comma
  | ';' => some .semi
  | '.' => if rest.head?.any Char.isDigit then none else some .dot
  | _ => none

/-- Reads the token that begins with `c`. A string is interpolated when an
identifier stands right before it, which `glued` says. -/
def readToken (glued : Bool) (c : Char) (rest : List Char) : Except Fault (TokenKind × List Char) :=
  match punctuation? c rest with
  | some kind => .ok (kind, rest)
  | none =>
    if c = '"' then (skipString glued rest).map (TokenKind.literal, ·)
    else if c = '\'' then (skipQuote rest).map (TokenKind.literal, ·)
    else if c = '\x60' then
      match rest.dropWhile (fun d => d ≠ '\x60' && d ≠ '\n') with
      | '\x60' :: tail => .ok (.ident, tail)
      | _ => .error ⟨c :: rest, .unterminatedQuotedIdent⟩
    else if c.isDigit || c = '.' then .ok (.literal, skipNumber c rest)
    else if isIdentStart c then
      let tail := skipWord c rest
      .ok (wordKind (c :: consumed rest tail), tail)
    else if isOperatorChar c then
      .ok (operatorKind (c :: rest.takeWhile isOperatorChar), rest.dropWhile isOperatorChar)
    else .error ⟨c :: rest, .unexpectedCharacter c⟩

theorem skipWord_length_le (first : Char) (rest : List Char) :
    (skipWord first rest).length ≤ rest.length := by
  have word := length_dropWhile_le isIdentPart rest
  unfold skipWord
  split
  · exact Nat.le_trans (length_dropWhile_le _ _) word
  · exact word

/-- A token takes its first character, so reading on is reading less. -/
theorem readToken_length_le {glued : Bool} {c : Char} {rest tail : List Char} {kind : TokenKind}
    (read : readToken glued c rest = .ok (kind, tail)) : tail.length ≤ rest.length := by
  unfold readToken at read
  split at read
  · cases read
    exact Nat.le_refl _
  · split at read
    · cases inner : skipString glued rest with
      | error fault => simp [inner, Except.map] at read
      | ok found =>
        simp only [inner, Except.map, Except.ok.injEq, Prod.mk.injEq] at read
        exact read.2 ▸ skipString_length_le inner
    split at read
    · cases inner : skipQuote rest with
      | error fault => simp [inner, Except.map] at read
      | ok found =>
        simp only [inner, Except.map, Except.ok.injEq, Prod.mk.injEq] at read
        exact read.2 ▸ skipQuote_length_le inner
    split at read
    · split at read
      · rename_i shape
        cases read
        refine Nat.le_of_succ_le (?_ : ('\x60' :: tail).length ≤ _)
        rw [← shape]
        exact length_dropWhile_le _ _
      · simp at read
    split at read
    · cases read
      exact skipNumber_length_le _ _
    split at read
    · cases read
      exact skipWord_length_le _ _
    split at read
    · cases read
      exact length_dropWhile_le _ _
    · simp at read

/-- The tokens of `rest`, which begins at byte `offset` of the source. -/
def scanFrom (offset : Nat) (afterIdent : Bool) (rest : List Char) : Except Fault (List Token) :=
  match _ : skipTrivia .blank rest with
  | .error fault => .error fault
  | .ok [] => .ok []
  | .ok (c :: tail) =>
    let gap := consumed rest (c :: tail)
    match _ : readToken (afterIdent && gap.isEmpty) c tail with
    | .error fault => .error fault
    | .ok (kind, next) =>
      let token : Token := ⟨kind, offset + Text.byteLength gap, c :: consumed tail next⟩
      (scanFrom token.stop (kind = .ident) next).map (token :: ·)
termination_by rest.length
decreasing_by
  have skipped := skipTrivia_length_le (by assumption)
  have shorter := readToken_length_le (by assumption)
  simp only [List.length_cons] at skipped
  omega

/-- The tokens of a source text. -/
def scan (source : List Char) : Except ParseError (List Token) :=
  match scanFrom 0 false source with
  | .ok tokens => .ok tokens
  | .error fault =>
    .error (.locate source (Text.byteLength source - Text.byteLength fault.rest) fault.cause)

end KindLift.Token
