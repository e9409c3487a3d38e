import KindLift.Decl.Trait

/-! Objects: their members by name, and the traits nested in them. -/
namespace KindLift.Parser

structure HolderMembers where
  members : List Member
  nested : List Interface
deriving DecidableEq, Repr

/-- What a keyword defines inside an object. -/
def memberKind? : Keyword → Option MemberKind
  | .defKw => some .method
  | .valKw => some .val
  | .varKw => some .var
  | .typeKw => some .typeAlias
  | .objectKw => some .object
  | .classKw | .enumKw => some .classLike
  | _ => none

/-- The members with one more, if it has a name. -/
def HolderMembers.addMember (seen : HolderMembers) (name : Option Token) (kind : MemberKind)
    (isImplicit : Bool) (span : Span) : HolderMembers :=
  match name with
  | some token => { seen with members := seen.members ++ [⟨token.text, kind, isImplicit, span⟩] }
  | none => seen

/-- Reads a definition whose inside does not matter, from its keyword on, and
returns its name if it has one. -/
def namedStatement : Parser (Option Token) := do
  let _ ← bump
  let name ← name?
  skipRest
  return name

/-- Reads one statement of an object's body that begins at `start`. Only what
has a name is a member. -/
def holderStatement (start : Nat) (seen : HolderMembers) : Parser HolderMembers := do
  let mods ← modifiers
  match ← peekKind? with
  | some (.keyword .traitKw) =>
    let nested ← interface
    let member : Member := ⟨nested.name, .interface, mods.isImplicit, ⟨start, ← lastStop⟩⟩
    return ⟨seen.members ++ [member], seen.nested ++ [nested]⟩
  | some (.keyword .importKw) =>
    let _ ← importClauses
    return seen
  | some (.keyword word) =>
    match memberKind? word with
    | some kind =>
      let name ← namedStatement
      let span : Span := ⟨start, ← lastStop⟩
      return seen.addMember name kind mods.isImplicit span
    | none =>
      skipStatement
      return seen
  | _ =>
    skipStatement
    return seen

/-- Reads the body of an object. -/
def holderBody : Parser (HolderMembers × Body) := do
  let openBrace ← openBody
  iterate (fun (seen : HolderMembers) => do
    match ← closeBody? openBrace with
    | some body => return .done (seen, body)
    | none => return .again (← holderStatement (← here) seen)) ⟨[], []⟩

/-- Reads the body of an object, if it has one. -/
def optionalHolderBody : Parser (HolderMembers × Option Body) := do
  if ← isAt (.opener .brace) then
    let (members, body) ← holderBody
    return (members, some body)
  else return (⟨[], []⟩, none)

/-- Reads an object. -/
def holder : Parser Holder := do
  let keyword ← expect (.keyword .objectKw) "object"
  let name ← expectName "object name"
  let _ ← extendsClause
  let (members, body) ← optionalHolderBody
  return ⟨name.text, name.span, ⟨keyword.start, ← lastStop⟩, members.members, members.nested, body⟩

end KindLift.Parser
