import KindLift.Token

/-! White space and comments between tokens. Block comments nest. -/
namespace KindLift.Token

/-- A lexical fault, placed by what is left of the source at that point. -/
structure Fault where
  rest : List Char
  cause : ParseCause
deriving DecidableEq, Repr

/-- What the characters being skipped belong to. A block comment knows how many
comments enclose it and where the outermost of them began. -/
inductive Trivia where
  | blank
  | lineComment
  | blockComment (enclosing : Nat) (opened : List Char)

/-- The rest of the source after white space and complete comments. -/
def skipTrivia : Trivia → List Char → Except Fault (List Char)
  | .blockComment _ opened, [] => .error ⟨opened, .unterminatedComment⟩
  | _, [] => .ok []
  | .blank, c :: rest =>
    if Text.isWhiteSpace c then skipTrivia .blank rest
    else match c, rest with
      | '/', '/' :: tail => skipTrivia .lineComment tail
      | '/', '*' :: tail => skipTrivia (.blockComment 0 (c :: rest)) tail
      | _, _ => .ok (c :: rest)
  | .lineComment, c :: rest =>
    if c = '\n' then skipTrivia .blank rest else skipTrivia .lineComment rest
  | .blockComment enclosing opened, c :: rest =>
    match c, rest with
    | '/', '*' :: tail => skipTrivia (.blockComment (enclosing + 1) opened) tail
    | '*', '/' :: tail =>
      match enclosing with
      | 0 => skipTrivia .blank tail
      | outer + 1 => skipTrivia (.blockComment outer opened) tail
    | _, tail => skipTrivia (.blockComment enclosing opened) tail

/-- Skipping never lengthens the source. -/
theorem skipTrivia_length_le {trivia : Trivia} {chars rest : List Char}
    (skipped : skipTrivia trivia chars = .ok rest) : rest.length ≤ chars.length := by
  fun_induction skipTrivia trivia chars <;> simp_all <;> grind

end KindLift.Token
