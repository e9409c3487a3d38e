import KindLift.Token

/-! Bracket groups: an opening bracket, anything well bracketed, and the closing
bracket of the same kind. -/
namespace KindLift.Token

/-- The index of the token that closes the innermost open bracket of `first`
and all brackets around it in `outer`. -/
def closeAll (first : Bracket) (outer : List Bracket) : List Token → Option Nat
  | [] => none
  | token :: rest =>
    match token.kind with
    | .opener bracket => (closeAll bracket (first :: outer) rest).map (· + 1)
    | .closer bracket =>
      if bracket = first then
        match outer with
        | [] => some 0
        | next :: others => (closeAll next others rest).map (· + 1)
      else none
    | _ => (closeAll first outer rest).map (· + 1)

/-- The index of the token that closes the group the list begins with. -/
def groupEnd? : List Token → Option Nat
  | [] => none
  | token :: rest =>
    match token.kind with
    | .opener bracket => (closeAll bracket [] rest).map (· + 1)
    | _ => none

/-- The index of the token that closes the group opened at index `opening`. -/
def matchingClose? (tokens : List Token) (opening : Nat) : Option Nat :=
  (groupEnd? (tokens.drop opening)).map (opening + ·)

/-- The closing token of the group the list begins with, and what follows it. -/
def splitGroup? (tokens : List Token) : Option (Token × List Token) := do
  let index ← groupEnd? tokens
  let closing ← tokens[index]?
  return (closing, tokens.drop (index + 1))

theorem splitGroup?_length_lt {tokens rest : List Token} {closing : Token}
    (split : splitGroup? tokens = some (closing, rest)) : rest.length < tokens.length := by
  simp only [splitGroup?, Option.bind_eq_bind, Option.bind_eq_some_iff, Option.pure_def,
    Option.some.injEq, Prod.mk.injEq] at split
  obtain ⟨index, _, _, found, _, rfl⟩ := split
  obtain ⟨bound, _⟩ := List.getElem?_eq_some_iff.mp found
  rw [List.length_drop]
  omega

end KindLift.Token
