import KindLift.Decl.Header

/-! Traits: type parameters, parents and the methods of the body. -/
namespace KindLift.Parser

/-- What the modifiers in front of a declaration say about it. -/
structure Modifiers where
  isImplicit : Bool
  isCase : Bool
deriving DecidableEq, Repr

/-- Words that are modifiers only in front of a definition. -/
def softModifiers : List String :=
  ["inline", "opaque", "open", "transparent", "infix", "erased"]

/-- Reads a group in square brackets if one comes. -/
def skipSquare : Parser Unit := do
  if ← isAt (.opener .square) then
    let _ ← skipGroup
    return ()
  else return ()

/-- Reads an annotation from its sign on. -/
def annotation : Parser Unit := do
  let _ ← bump
  let _ ← path "annotation"
  skipSquare
  skipGroups .paren

/-- Reads one annotation or modifier, if it comes. -/
def modifierStep (seen : Modifiers) : Parser (Step Modifiers Modifiers) := do
  match ← peek? with
  | none => return .done seen
  | some token =>
    match token.kind with
    | .atSign =>
      annotation
      return .again seen
    | .keyword .overrideKw | .keyword .sealedKw | .keyword .abstractKw | .keyword .finalKw
    | .keyword .lazyKw =>
      let _ ← bump
      return .again seen
    | .keyword .implicitKw =>
      let _ ← bump
      return .again { seen with isImplicit := true }
    | .keyword .privateKw | .keyword .protectedKw =>
      let _ ← bump
      skipSquare
      return .again seen
    | .keyword .caseKw =>
      match ← secondKind? with
      | some (.keyword .classKw) | some (.keyword .objectKw) =>
        let _ ← bump
        return .again { seen with isCase := true }
      | _ => return .done seen
    | .ident =>
      match ← secondKind? with
      | some (.keyword word) =>
        if softModifiers.contains token.text && word.isDefinition then
          let _ ← bump
          return .again seen
        else return .done seen
      | _ => return .done seen
    | _ => return .done seen

/-- Reads annotations and modifiers. -/
def modifiers : Parser Modifiers := iterate modifierStep ⟨false, false⟩

/-- The text inside a bracket group, trimmed. -/
def groupText (group : Span) : Parser String := return group.interior.trimmed (← read)

/-- Reads the variance mark of a type parameter, if it has one. -/
def skipVariance : Parser Unit := do
  match ← peek? with
  | some token =>
    if token.kind = .operator && (token.text = "+" || token.text = "-") then
      let _ ← bump
      return ()
    else return ()
  | none => return ()

/-- Reads the name of a type parameter. -/
def typeParamName : Parser Token := do
  match ← peek? with
  | some token =>
    if token.kind = .ident || token.kind = .underscore then
      let _ ← bump
      return token
    else fail (.expected "type parameter")
  | none => fail (.expected "type parameter")

/-- Reads the parameters of a type parameter: one that has any is higher kinded. -/
def typeParamKind : Parser ParamKind := do
  if ← isAt (.opener .square) then
    let _ ← skipGroup
    return .higherKinded
  else return .proper

/-- Reads one type parameter; its bounds are read over. -/
def typeParam : Parser TypeParam := do
  skipVariance
  let start ← here
  let name ← typeParamName
  let kind ← typeParamKind
  let _ ← scanUntil fun kind => kind = .comma || kind = .closer .square
  return ⟨name.text, kind, ⟨start, ← lastStop⟩⟩

/-- Reads one more type parameter, and the comma or the bracket behind it. -/
def typeParamStep (opening : Token) (params : List TypeParam) :
    Parser (Step (List TypeParam) (List TypeParam × Span)) := do
  let params := params ++ [← typeParam]
  if ← eats .comma then return .again params
  else
    let closing ← expect (.closer .square) "`]`"
    return .done (params, opening.span.cover closing.span)

/-- Reads type parameters in brackets. -/
def typeParams : Parser (List TypeParam × Span) := do
  let opening ← expect (.opener .square) "`[`"
  iterate (typeParamStep opening) []

/-- Reads the constructor arguments of a parent and returns the span so far. -/
def parentArgs (span : Span) : Parser Span :=
  iterate (fun (span : Span) => do
    if ← isAt (.opener .paren) then return .again (span.cover (← skipGroup))
    return .done span) span

/-- Reads the type arguments of a parent, and returns them and the span so far. -/
def parentTypeArgs (span : Span) : Parser (Option String × Span) := do
  if ← isAt (.opener .square) then
    let group ← skipGroup
    return (some (← groupText group), span.cover group)
  else return (none, span)

/-- Reads one parent type. -/
def parent : Parser Parent := do
  let (name, span) ← path "parent type"
  let (typeArgs, span) ← parentTypeArgs span
  return ⟨name, typeArgs, ← parentArgs span⟩

/-- Reads parent types with `with` or commas between them. -/
def parents : Parser (List Parent) :=
  iterate (fun (parents : List Parent) => do
    let parents := parents ++ [← parent]
    if ← eats (.keyword .withKw) then return .again parents
    else if ← eats .comma then return .again parents
    else return .done parents) []

/-- Reads `val` or `var` if it comes. -/
def skipValVar : Parser Unit := do
  if (← isAt (.keyword .valKw)) || (← isAt (.keyword .varKw)) then
    let _ ← bump
    return ()
  else return ()

/-- Reads the name of a parameter and the colon after it. A parameter without a
name is called `_`. -/
def paramName : Parser String := do
  match ← peek? with
  | some token =>
    if (token.kind = .ident || token.kind = .underscore) && (← secondKind?) = some .colon then
      let _ ← bump
      let _ ← bump
      return token.text
    else return "_"
  | none => return "_"

/-- Reads the default of a parameter, if it has one. -/
def skipDefault : Parser Unit := do
  if ← eats .equals then
    let _ ← scanUntil fun kind => kind = .comma || kind = .closer .paren
    return ()
  else return ()

/-- Reads one parameter of a list. -/
def param : Parser Param := do
  let _ ← modifiers
  skipValVar
  let name ← paramName
  let type ← scanUntil fun kind => kind = .comma || kind = .closer .paren || kind = .equals
  match type with
  | none => fail (.expected "parameter type")
  | some span =>
    skipDefault
    return ⟨name, span.trimmed (← read)⟩

/-- Reads the word `using` at the beginning of a list, if it is there. -/
def usingMark : Parser Bool := do
  match ← peek? with
  | some token =>
    if token.kind = .ident && token.text = "using" then
      let _ ← bump
      return true
    else return false
  | none => return false

/-- Reads the mark of an implicit list, which a list with `using` is by itself. -/
def implicitMark (isUsing : Bool) : Parser Bool :=
  if isUsing then return true else eats (.keyword .implicitKw)

/-- Reads the parameters of a list. -/
def params : Parser (List Param) :=
  iterate (fun (params : List Param) => do
    if ← isAt (.closer .paren) then return .done params
    else
      let params := params ++ [← param]
      if ← eats .comma then return .again params
      else return .done params) []

/-- Reads a parameter list in parentheses. -/
def paramList : Parser ParamList := do
  let opening ← expect (.opener .paren) "`(`"
  let isUsing ← usingMark
  let isImplicit ← implicitMark isUsing
  let params ← params
  let closing ← expect (.closer .paren) "`)`"
  return ⟨isImplicit, isUsing, params, opening.span.cover closing.span⟩

/-- A result type ends in front of a body, a statement or an annotation. -/
def endsResultType : TokenKind → Bool
  | .equals | .opener .brace | .semi | .atSign => true
  | .keyword word => word.startsStatement
  | _ => false

/-- Reads the brackets after the head of a result type, if there are any. -/
def resultArg : Parser (Option String) := do
  if ← isAt (.opener .square) then
    let group ← skipGroup
    return some (← groupText group)
  else return none

/-- Reads a result type that begins with an identifier at `start`: its path is the
head, and it has an argument when nothing follows the head's brackets. -/
def namedResult (start : Nat) : Parser ResultType := do
  let (name, headSpan) ← path "return type"
  let arg ← resultArg
  let more ← scanUntil endsResultType
  let span : Span := ⟨start, ← lastStop⟩
  return {
    text := String.ofList (span.chars (← read))
    span := span
    head := name.last?.getD ""
    headSpan := headSpan
    arg := if more.isSome then none else arg }

/-- Reads a result type without a head. -/
def otherResult (start : Nat) : Parser ResultType := do
  match ← scanUntil endsResultType with
  | none => fail (.expected "return type")
  | some span => return ⟨span.trimmed (← read), span, "", ⟨start, start⟩, none⟩

/-- Reads a result type. -/
def resultType : Parser ResultType := do
  let start ← here
  if (← peekKind?) = some .ident then namedResult start else otherResult start

/-- Reads the type parameters of a method, if it has any, and their text. -/
def methodTypeParams : Parser (List TypeParam × Option String) := do
  if ← isAt (.opener .square) then
    let (params, span) ← typeParams
    return (params, some (← groupText span))
  else return ([], none)

/-- Reads parameter lists for as long as they come. -/
def paramLists : Parser (List ParamList) :=
  iterate (fun (lists : List ParamList) => do
    if ← isAt (.opener .paren) then return .again (lists ++ [← paramList])
    else return .done lists) []

/-- Reads the result type of a method, if it is given. -/
def methodResult : Parser (Option ResultType) := do
  if ← eats .colon then return some (← resultType) else return none

/-- Reads the body of a method and tells whether there is none. -/
def methodBody : Parser Bool := do
  match ← peekKind? with
  | some .equals =>
    let _ ← bump
    skipStatement
    return false
  | some (.opener .brace) =>
    let _ ← skipGroup
    return false
  | _ => return true

/-- Reads a method and tells whether it is abstract. -/
def method : Parser (Method × Bool) := do
  let keyword ← expect (.keyword .defKw) "def"
  let name ← expectName "method name"
  let (tparams, tparamsText) ← methodTypeParams
  let params ← paramLists
  let result ← methodResult
  let span : Span := ⟨keyword.start, ← lastStop⟩
  let isAbstract ← methodBody
  return (⟨name.text, span, tparams, tparamsText, params, result⟩, isAbstract)

/-- The abstract methods of a trait's body, and whether it has other members. -/
structure TraitMembers where
  methods : List Method
  hasConcrete : Bool
deriving DecidableEq, Repr

/-- The members with one more method, of which only abstract ones are kept. -/
def TraitMembers.addMethod (seen : TraitMembers) (method : Method) (isAbstract : Bool) :
    TraitMembers :=
  if isAbstract then { seen with methods := seen.methods ++ [method] }
  else { seen with hasConcrete := true }

/-- Reads one statement of a trait's body. -/
def traitStatement (seen : TraitMembers) : Parser TraitMembers := do
  let _ ← modifiers
  match ← peekKind? with
  | some (.keyword .defKw) =>
    let (method, isAbstract) ← method
    return seen.addMethod method isAbstract
  | some (.keyword .importKw) =>
    let _ ← importClauses
    return seen
  | _ =>
    skipStatement
    return { seen with hasConcrete := true }

/-- Reads the body of a trait. -/
def traitBody : Parser (TraitMembers × Body) := do
  let openBrace ← openBody
  iterate (fun (seen : TraitMembers) => do
    match ← closeBody? openBrace with
    | some body => return .done (seen, body)
    | none => return .again (← traitStatement seen)) ⟨[], false⟩

/-- Reads the type parameters of a trait, if it has any, and their span. -/
def traitTypeParams : Parser (List TypeParam × Option Span) := do
  if ← isAt (.opener .square) then
    let (params, span) ← typeParams
    return (params, some span)
  else return ([], none)

/-- Reads the parents of a trait or an object, if it has any. -/
def extendsClause : Parser (List Parent) := do
  if ← eats (.keyword .extendsKw) then parents else return []

/-- Reads the body of a trait, if it has one. -/
def optionalTraitBody : Parser (TraitMembers × Option Body) := do
  if ← isAt (.opener .brace) then
    let (members, body) ← traitBody
    return (members, some body)
  else return (⟨[], false⟩, none)

/-- Reads a trait. -/
def interface : Parser Interface := do
  let keyword ← expect (.keyword .traitKw) "trait"
  let name ← expectName "trait name"
  let (tparams, tparamsSpan) ← traitTypeParams
  skipGroups .paren
  let parents ← extendsClause
  let (members, body) ← optionalTraitBody
  return {
    name := name.text
    nameSpan := name.span
    span := ⟨keyword.start, ← lastStop⟩
    typeParams := tparams
    typeParamsSpan := tparamsSpan
    parents := parents
    methods := members.methods
    hasConcreteMembers := members.hasConcrete
    body := body }

end KindLift.Parser
