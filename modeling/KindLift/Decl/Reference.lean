import KindLift.Decl
import KindLift.Token.Group

/-! Uses of a name with type arguments. The name of a definition and the bracket
group that follows it are no uses. -/
namespace KindLift.TypeRef

/-- How many tokens after a definition's keyword belong to its name and its type
parameters; none when the keyword introduces no name. -/
def definedTokens (keyword : Keyword) (rest : List Token) : Nat :=
  match rest with
  | name :: after =>
    if keyword.isDefinition && name.isName then
      match after with
      | bracket :: _ =>
        if bracket.kind = .opener .square then
          match Token.groupEnd? after with
          | some last => last + 2
          | none => 1
        else 1
      | [] => 1
    else 0
  | [] => 0

/-- The uses among the tokens, of which the first `hidden` ones do not count. -/
def usesFrom (hidden : Nat) : List Token → List Token
  | [] => []
  | token :: rest =>
    let defined := match token.kind with
      | .keyword word => definedTokens word rest
      | _ => 0
    let later := usesFrom (max (hidden - 1) defined) rest
    if hidden = 0 && token.kind = .ident && (rest.head?.map Token.kind) = some (.opener .square) then
      token :: later
    else later

/-- The name of the first object whose body contains the offset. -/
def enclosingHolder? (decls : List Decl) (offset : Nat) : Option String :=
  (decls.filterMap Decl.holder?).findSome? fun holder =>
    match holder.body with
    | some body => if body.span.contains offset then some holder.name else none
    | none => none

/-- The references of a unit in source order. -/
def collect (tokens : List Token) (decls : List Decl) : List TypeRef :=
  (usesFrom 0 tokens).map fun token => ⟨token.text, token.span, enclosingHolder? decls token.start⟩

end KindLift.TypeRef
