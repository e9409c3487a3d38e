import KindLift.Decl.Trait
import KindLift.Proofs.WrittenGroups
import Mathlib.Data.List.TakeWhile

/-! Traits as they are written: names with points, parameters, methods and bodies.
The parser makes of each of them what was written. -/
namespace KindLift.WrittenTraits
open Token Text KindLift.Parser QualifiedTokens WrittenTokens WrittenReading WrittenGroups

variable {source : List Char} {offset : Nat} {gap : List Char} {rest tokens : List Token} {what : String} {name : Name}

/-! ### Names -/

theorem text_name : ((Piece.mk gap (.name name)).token offset).text = name.text := by
  obtain ⟨c, body, shape, letter, -⟩ := name.chars_eq
  have bare : unquote (c :: body) = c :: body := by
    unfold unquote
    split
    · rename_i same
      obtain ⟨rfl, -⟩ := List.cons.inj same
      exact absurd letter (by decide)
    · rfl
  rw [Token.text, Piece.token_lexeme, Lexeme.chars, shape, bare, ← shape, String.ofList_toList]

/-- Names with points between them. -/
structure Path where
  first : Name
  more : List Name

namespace Path

def segments (path : Path) : List String := (path.first :: path.more).map Name.text

def pieces (gap : List Char) (path : Path) : List Piece :=
  ⟨gap, .name path.first⟩ :: path.more.flatMap fun name => [⟨[], .dot⟩, ⟨[], .name name⟩]

end Path

theorem reads_path_more {more : List Name} {segments : List String} {before : List Piece} (nonempty : before ≠ [])
    (ends : rest.head?.map Token.kind ≠ some .dot) :
    ReadsAs source (iterate (pathStep what) (⟨segments⟩, reach offset before)) (offset + width before)
      (more.flatMap fun name => [⟨[], .dot⟩, ⟨[], .name name⟩]) rest
      (⟨segments ++ more.map Name.text⟩,
        reach offset (before ++ more.flatMap fun name => [⟨[], .dot⟩, ⟨[], .name name⟩])) := by
  induction more generalizing segments before with
  | nil =>
    refine .done (.look (reads_isAt_other ends) ?_)
    simp only [List.map_nil, List.append_nil, List.flatMap_nil]
    exact .pure
  | cons name more ih =>
    have covered := cover_reach_past nonempty offset [⟨[], .dot⟩] [⟨[], .name name⟩]
    have further := @ih (segments ++ [name.text]) (before ++ [⟨[], .dot⟩, ⟨[], .name name⟩]) (by simp)
    rw [List.append_assoc, List.append_assoc, width_append, ← Nat.add_assoc] at further
    refine .again [⟨[], .dot⟩, ⟨[], .name name⟩] ?_ (by simp) further
    refine .look (reads_isAt rfl) (.look reads_secondKind? (ReadsAs.next reads_bump (ReadsAs.next reads_expectName ?_)))
    rw [text_name, span_token, ← width_singleton, covered]
    exact .pure

theorem reads_path {path : Path} (ends : rest.head?.map Token.kind ≠ some .dot) :
    ReadsAs source (Parser.path what) offset (path.pieces gap) rest (⟨path.segments⟩, reach offset (path.pieces gap)) := by
  have more := @reads_path_more source offset _ what path.more [path.first.text] [⟨gap, .name path.first⟩] (by simp) ends
  refine ReadsAs.next reads_expectName ?_
  rw [text_name, span_token, ← width_singleton]
  exact more

/-! ### Brackets around a name -/

theorem dropWhile_solid {chars : List Char} (first : ∀ c ∈ chars.head?, isWhiteSpace c = false) :
    chars.dropWhile isWhiteSpace = chars := by
  cases chars with
  | nil => rfl
  | cons c rest => rw [List.dropWhile_cons, first c rfl, if_neg Bool.false_ne_true]

theorem trimEnd_solid {chars : List Char} (last : ∀ c ∈ chars.getLast?, isWhiteSpace c = false) : trimEnd chars = chars := by
  have back : chars.reverse.dropWhile isWhiteSpace = chars.reverse := dropWhile_solid (by rwa [List.head?_reverse])
  rw [trimEnd, back, List.reverse_reverse]

/-- A text that neither begins nor ends with white space. -/
theorem trim_solid {chars : List Char} (first : ∀ c ∈ chars.head?, isWhiteSpace c = false)
    (last : ∀ c ∈ chars.getLast?, isWhiteSpace c = false) : trim chars = chars := by
  rw [trim, trimStart, dropWhile_solid first, trimEnd_solid last]

theorem trimEnd_name (name : Name) : trimEnd name.text.toList = name.text.toList :=
  trimEnd_solid fun c last => solid_of_alphanum (name.alphanum c (List.mem_of_getLast? last))

theorem trim_name (name : Name) : trim name.text.toList = name.text.toList :=
  trim_solid (fun c first => solid_of_alphanum (name.alphanum c (List.mem_of_mem_head? first)))
    fun c last => solid_of_alphanum (name.alphanum c (List.mem_of_getLast? last))

/-- The text of the pieces, if it neither begins nor ends with white space. -/
theorem trimmed_reach {pieces : List Piece} (sits : Sits source offset pieces) (solid : trim (body pieces) = body pieces) :
    (reach offset pieces).trimmed source = String.ofList (body pieces) := by
  rw [Span.trimmed, chars_reach sits, solid]

theorem body_name : String.ofList (body [⟨gap, .name name⟩]) = name.text := by
  rw [body, written_nil, List.append_nil, Lexeme.chars, String.ofList_toList]

theorem solid_name : trim (body [⟨gap, .name name⟩]) = body [⟨gap, .name name⟩] := by
  rw [body, written_nil, List.append_nil, Lexeme.chars, trim_name]

/-- A name in square brackets. -/
def bracketed (name : Name) : List Piece := group [] .square [⟨[], .name name⟩] []

theorem nested_single {piece : Piece} (single : IsPlain piece.lexeme.kind) : IsNested [piece] := by
  intro opened
  obtain ⟨gap, lexeme⟩ := piece
  cases lexeme with
  | opener bracket => exact absurd rfl (single.1 bracket)
  | closer bracket => exact absurd rfl (single.2 bracket)
  | _ => simp [track]

theorem isPlain_name (name : Name) : IsPlain (Piece.mk gap (.name name)).lexeme.kind := ⟨by simp, by simp⟩

theorem reads_bracketed : ReadsAs source skipGroup offset (bracketed name) rest (reach offset (bracketed name)) :=
  reads_skipGroup (nested_single (isPlain_name name))

/-- The text between brackets. -/
theorem reads_innerText {inner : List Piece} {bracket : Bracket} (sits : Sits source offset (group [] bracket inner []))
    (front : leadOf inner = []) (solid : trim (body inner) = body inner) {at' : Nat} :
    ReadsAs source (groupText (reach offset (group [] bracket inner []))) at' [] tokens (String.ofList (body inner)) := by
  have narrower : (reach offset (group [] bracket inner [])).interior =
      reach (offset + (Piece.mk [] (.opener bracket)).width) inner := by
    have opening : (Piece.mk [] (.opener bracket)).width = 1 := by cases bracket <;> rfl
    have closing : (Piece.mk [] (.closer bracket)).width = 1 := by cases bracket <;> rfl
    have lead : leadOf (group [] bracket inner []) = [] := rfl
    simp only [Span.interior, reach, width_group, opening, closing, lead, front, Span.mk.injEq]
    exact ⟨rfl, by omega⟩
  refine .look reads_source ?_
  rw [narrower, trimmed_reach (sits.tail.left inner) solid]
  exact .pure

theorem reads_groupText (sits : Sits source offset (bracketed name)) {at' : Nat} :
    ReadsAs source (groupText (reach offset (bracketed name))) at' [] tokens name.text :=
  body_name ▸ reads_innerText sits rfl solid_name

/-! ### Parameters -/

/-- What is no modifier, as the next token. -/
def isBare : TokenKind → Bool
  | .keyword word => word ∈ [.packageKw, .importKw, .traitKw, .objectKw, .classKw, .defKw, .valKw, .varKw, .typeKw, .enumKw]
  | .ident => false
  | .atSign => false
  | _ => true

theorem reads_modifiers_bare {token : Token} (bare : isBare token.kind = true) {seen : Modifiers} :
    ReadsAs source (iterate modifierStep seen) offset [] (token :: tokens) seen := by
  refine .done (.glance reads_peek? ?_)
  dsimp only [List.head?_cons]
  cases kind : token.kind with
  | keyword word =>
    rw [kind] at bare
    cases word <;> first
      | exact .pure
      | cases bare
  | ident | atSign =>
    rw [kind] at bare
    cases bare
  | _ => exact .pure

theorem reads_modifiers_name {other : Token} (plain : ∀ word, other.kind ≠ .keyword word) {seen : Modifiers} :
    ReadsAs source (iterate modifierStep seen) offset [] ((Piece.mk gap (.name name)).token offset :: other :: tokens)
      seen := by
  refine .done (.look reads_peek? ?_)
  refine .look reads_secondKind? ?_
  dsimp only [place_nil, List.nil_append, List.getElem?_cons_succ, List.getElem?_cons_zero, Option.map_some]
  split
  · exact absurd (Option.some.inj ‹_›) (plain _)
  · exact .pure

/-- A parameter and its type. -/
structure Field where
  name : Name
  type : Name

namespace Field

def pieces (gap : List Char) (field : Field) : List Piece :=
  [⟨gap, .name field.name⟩, ⟨[], .colon⟩, ⟨[' '], .name field.type⟩]

def param (field : Field) : Param := ⟨field.name.text, field.type.text⟩

end Field

/-- The next token ends a parameter. -/
def EndsField (tokens : List Token) : Prop := ∃ token rest, tokens = token :: rest ∧
  (token.kind = .comma ∨ token.kind = .closer .paren)

theorem reads_paramName :
    ReadsAs source paramName offset [⟨gap, .name name⟩, ⟨[], .colon⟩] rest name.text := by
  refine .look reads_peek? (.look reads_secondKind? (.next reads_bump (.next reads_bump ?_)))
  rw [text_name]
  exact .pure

/-- What the type of a parameter ends in front of. -/
def endsParam (kind : TokenKind) : Bool := kind = .comma || kind = .closer .paren || kind = .equals

/-- A parameter with a type of any form. -/
theorem reads_typedParam {type : List Piece} (free : Items endsParam type) (filled : type ≠ [])
    (sits : Sits source offset ([⟨gap, .name name⟩, ⟨[], .colon⟩] ++ type)) (solid : trim (body type) = body type)
    (ends : EndsField rest) :
    ReadsAs source param offset ([⟨gap, .name name⟩, ⟨[], .colon⟩] ++ type) rest
      ⟨name.text, String.ofList (body type)⟩ := by
  obtain ⟨token, later, rfl, kind⟩ := ends
  have closes : EndsScan endsParam (token :: later) := by
    rintro _ ⟨⟩
    rcases kind with same | same <;> exact .inl (by simp [endsParam, same])
  have noDefault : (token :: later).head?.map Token.kind ≠ some .equals := by
    rcases kind with same | same <;> simp [same]
  have text := trimmed_reach (sits.right _) solid
  refine .look (reads_modifiers_name (by simp)) ?_
  refine .look (.look (reads_isAt_other (by simp)) (.look (reads_isAt_other (by simp)) .pure)) ?_
  refine .bind _ reads_paramName (.last (reads_scanUntil free closes filled) ?_)
  refine .look (.look (reads_eats_other noDefault) .pure) (.look reads_source ?_)
  rw [text]
  exact .pure

theorem reads_param {field : Field} (sits : Sits source offset (field.pieces gap)) (ends : EndsField rest) :
    ReadsAs source param offset (field.pieces gap) rest field.param := by
  have typed := @reads_typedParam source offset gap rest field.name [⟨[' '], .name field.type⟩] (items_of_track rfl)
    (by simp) sits solid_name ends
  rwa [body_name] at typed

/-- Items with commas between them. -/
def separated (write : List Char → α → List Piece) : List α → List Piece
  | [] => []
  | first :: others => write [] first ++ others.flatMap fun item => ⟨[], .comma⟩ :: write [' '] item

theorem nested_separated {write : List Char → α → List Piece} (each : ∀ gap item, IsNested (write gap item))
    (items : List α) : IsNested (separated write items) := by
  cases items with
  | nil => exact .nil
  | cons first others =>
    exact (each [] first).append (.flatMap fun item _ => .cons ⟨by simp, by simp⟩ (each _ item))

def fieldPieces (fields : List Field) : List Piece := separated Field.pieces fields

/-- One more parameter list. -/
def paramListsStep (lists : List ParamList) : Parser (Step (List ParamList) (List ParamList)) := do
  if ← isAt (.opener .paren) then return .again (lists ++ [← paramList])
  else return .done lists

/-- One more parameter of a list. -/
def paramsStep (seen : List Param) : Parser (Step (List Param) (List Param)) := do
  if ← isAt (.closer .paren) then return .done seen
  else
    let params := seen ++ [← param]
    if ← eats .comma then return .again params
    else return .done params

section Lists

variable {write : List Char → α → List Piece} {toParam : α → Param} {item : α} {items : List α}

/-- The item is written as a parameter, which begins with its name. -/
structure IsParam (source : List Char) (write : List Char → α → List Piece) (toParam : α → Param) (item : α) : Prop where
  named : ∀ gap, ∃ name later, write gap item = ⟨gap, .name name⟩ :: later
  reads : ∀ gap offset rest, Sits source offset (write gap item) → EndsField rest →
    ReadsAs source param offset (write gap item) rest (toParam item)

theorem IsParam.ne_closer (isParam : IsParam source write toParam item) (gap : List Char) :
    (place offset (write gap item) ++ tokens).head?.map Token.kind ≠ some (.closer .paren) := by
  obtain ⟨name, later, shape⟩ := isParam.named gap
  simp [shape]

theorem reads_params_more {others : List α} {seen : List Param}
    (each : ∀ entry ∈ item :: others, IsParam source write toParam entry)
    (sits : Sits source offset (write gap item ++ others.flatMap fun item => ⟨[], .comma⟩ :: write [' '] item))
    (closes : rest.head?.map Token.kind = some (.closer .paren)) :
    ReadsAs source (iterate paramsStep seen) offset
      (write gap item ++ others.flatMap fun item => ⟨[], .comma⟩ :: write [' '] item) rest
      (seen ++ (item :: others).map toParam) := by
  induction others generalizing item gap offset seen with
  | nil =>
    obtain ⟨token, first, kind⟩ := Option.map_eq_some_iff.mp closes
    obtain ⟨tokens, rfl⟩ : ∃ tokens, rest = token :: tokens := by
      cases rest <;> cases first
      exact ⟨_, rfl⟩
    have isParam := each item (List.mem_cons_self ..)
    simp only [List.flatMap_nil, List.append_nil] at sits ⊢
    refine .done (.look (reads_isAt_other (isParam.ne_closer gap)) ?_)
    refine .last (isParam.reads _ _ _ sits ⟨token, tokens, rfl, .inr kind⟩) (.look (reads_eats_other (by simp [kind])) ?_)
    exact .pure
  | cons next others ih =>
    have shape : (write gap item ++ (next :: others).flatMap fun item => ⟨[], .comma⟩ :: write [' '] item) =
        (write gap item ++ [⟨[], .comma⟩]) ++
          (write [' '] next ++ others.flatMap fun item => ⟨[], .comma⟩ :: write [' '] item) := by simp
    obtain ⟨isParam, later⟩ := List.forall_mem_cons.mp each
    rw [shape] at sits ⊢
    have further := @ih _ [' '] next (seen ++ [toParam item]) later (sits.right _)
    have apart := @IsParam.ne_closer _ source offset
      (place (offset + width (write gap item)) [⟨[], .comma⟩] ++ (place (offset + width (write gap item ++ [⟨[], .comma⟩]))
        (write [' '] next ++ others.flatMap fun item => ⟨[], .comma⟩ :: write [' '] item) ++ rest)) _ _ _ isParam gap
    rw [List.append_assoc] at further
    refine .again _ (.look (reads_isAt_other (by rwa [place_append, List.append_assoc])) ?_) (by simp) further
    exact .bind _ (isParam.reads _ _ _ ((sits.left _).left _) ⟨_, _, rfl, .inl rfl⟩) (.last (reads_eats rfl) .pure)

theorem reads_params (each : ∀ item ∈ items, IsParam source write toParam item)
    (sits : Sits source offset (separated write items)) (closes : rest.head?.map Token.kind = some (.closer .paren)) :
    ReadsAs source params offset (separated write items) rest (items.map toParam) := by
  cases items with
  | nil => exact .done (.look (reads_isAt closes) .pure)
  | cons item others => exact reads_params_more each sits closes

/-- A parameter list. -/
def listOf (write : List Char → α → List Piece) (items : List α) : List Piece := group [] .paren (separated write items) []

/-- The parameter list that stands at `offset`. -/
def paramListAt (write : List Char → α → List Piece) (toParam : α → Param) (offset : Nat) (items : List α) : ParamList :=
  ⟨false, false, items.map toParam, reach offset (listOf write items)⟩

/-- A parameter list begins with a name, or is empty. -/
theorem separated_begins (each : ∀ item ∈ items, IsParam source write toParam item) :
    (∃ name later, separated write items = ⟨[], .name name⟩ :: later) ∨ separated write items = [] := by
  cases items with
  | nil => exact .inr rfl
  | cons item others =>
    obtain ⟨name, later, shape⟩ := (each item (List.mem_cons_self ..)).named []
    exact .inl ⟨name, _, by rw [separated, shape, List.cons_append]⟩

theorem reads_usingMark {before : List Piece} (begins : (∃ name later, before = ⟨[], .name name⟩ :: later) ∨ before = []) :
    ReadsAs source usingMark offset [] (place offset (before ++ [⟨[], .closer .paren⟩]) ++ rest) false := by
  refine .glance reads_peek? ?_
  rcases begins with ⟨name, later, rfl⟩ | rfl
  · obtain ⟨-, -, -, -, -, -, ordinary⟩ := name.chars_eq
    have passes : ¬ (decide (((Piece.mk [] (.name name)).token offset).kind = .ident) &&
        decide (((Piece.mk [] (.name name)).token offset).text = "using")) = true := by
      rw [text_name]
      simp [ordinary]
    show ReadsAs source (if (decide (((Piece.mk [] (.name name)).token offset).kind = .ident) &&
      decide (((Piece.mk [] (.name name)).token offset).text = "using")) = true then _ else _) _ _ _ _
    rw [if_neg passes]
    exact .pure
  · exact .pure

theorem reads_implicitMark (other : tokens.head?.map Token.kind ≠ some (.keyword .implicitKw)) :
    ReadsAs source (implicitMark false) offset [] tokens false := reads_eats_other other

theorem reads_paramList (each : ∀ item ∈ items, IsParam source write toParam item)
    (sits : Sits source offset (listOf write items)) :
    ReadsAs source paramList offset (listOf write items) rest (paramListAt write toParam offset items) := by
  have inside : Sits source (offset + (Piece.mk [] (.opener .paren)).width) (separated write items) := sits.tail.left _
  have begins := separated_begins each
  refine .next (reads_expect rfl) (.look (reads_usingMark begins) (.look (reads_implicitMark ?_) ?_))
  · rcases begins with ⟨name, later, shape⟩ | shape <;> simp [shape]
  refine .bind _ (reads_params each inside rfl) (.last (reads_expect rfl) ?_)
  rw [span_token, span_token, ← width_singleton, cover_reach_past (by simp)]
  exact .pure

/-- Parameter lists one after the other. -/
theorem reads_paramLists {lists : List (List α)} {seen : List ParamList}
    (each : ∀ items ∈ lists, ∀ item ∈ items, IsParam source write toParam item)
    (sits : Sits source offset (lists.flatMap (listOf write)))
    (ends : rest.head?.map Token.kind ≠ some (.opener .paren)) :
    ReadsAs source (iterate paramListsStep seen) offset (lists.flatMap (listOf write)) rest
      (seen ++ readAll (listOf write) (paramListAt write toParam) offset lists) := by
  induction lists generalizing offset seen with
  | nil =>
    rw [readAll, List.append_nil]
    exact .done (.look (reads_isAt_other ends) .pure)
  | cons items lists ih =>
    obtain ⟨here, there⟩ := List.forall_mem_cons.mp each
    rw [List.flatMap_cons] at sits ⊢
    have further := @ih (offset + width (listOf write items)) (seen ++ [paramListAt write toParam offset items]) there
      (sits.right _)
    rw [List.append_assoc] at further
    exact .again _ (.look (reads_isAt rfl) (.last (reads_paramList here (sits.left _)) .pure)) (by simp [listOf, group]) further

end Lists

/-- A parameter list. -/
def listPieces (fields : List Field) : List Piece := group [] .paren (fieldPieces fields) []

theorem isParam_field (field : Field) : IsParam source Field.pieces Field.param field :=
  ⟨fun _ => ⟨_, _, rfl⟩, fun _ _ _ => reads_param⟩

/-! ### Methods -/

/-- An abstract method with one parameter list. Its result is a name applied to
another. -/
structure Signature where
  name : Name
  fields : List Field
  head : Name
  arg : Name

namespace Signature

/-- The result type. -/
def resultPieces (signature : Signature) : List Piece := ⟨[' '], .name signature.head⟩ :: bracketed signature.arg

def opening (gap : List Char) (signature : Signature) : List Piece :=
  [⟨gap, .keyword .defKw⟩, ⟨[' '], .name signature.name⟩]

def pieces (gap : List Char) (signature : Signature) : List Piece :=
  signature.opening gap ++ (listPieces signature.fields ++ ⟨[], .colon⟩ :: signature.resultPieces)

/-- Where the result type stands behind `offset`, at which the method begins. -/
def resultOffset (offset : Nat) (gap : List Char) (signature : Signature) : Nat :=
  offset + width (signature.opening gap) + width (listPieces signature.fields) + (Piece.mk [] .colon).width

/-- The result type that stands at `offset`. -/
def result (offset : Nat) (signature : Signature) : ResultType where
  text := String.ofList (body signature.resultPieces)
  span := reach offset signature.resultPieces
  head := signature.head.text
  headSpan := reach offset [⟨[' '], .name signature.head⟩]
  arg := some signature.arg.text

/-- The method that stands at `offset`. -/
def method (gap : List Char) (offset : Nat) (signature : Signature) : Method where
  name := signature.name.text
  span := reach offset (signature.pieces gap)
  typeParams := []
  typeParamsText := none
  params := [⟨false, false, signature.fields.map Field.param,
    reach (offset + width (signature.opening gap)) (listPieces signature.fields)⟩]
  result := some (signature.result (signature.resultOffset offset gap))

end Signature

/-- A result type: a name applied to what stands in brackets. -/
def resultForm (head : Name) (argument : List Piece) : List Piece := ⟨[' '], .name head⟩ :: group [] .square argument []

/-- The result type that stands at `offset`. -/
def resultAt (head : Name) (argument : List Piece) (offset : Nat) : ResultType where
  text := String.ofList (body (resultForm head argument))
  span := reach offset (resultForm head argument)
  head := head.text
  headSpan := reach offset [⟨[' '], .name head⟩]
  arg := some (String.ofList (body argument))

variable {signature : Signature} {head : Name} {argument : List Piece}

theorem reads_resultArg (nested : IsNested argument) (sits : Sits source offset (group [] .square argument []))
    (front : leadOf argument = []) (solid : trim (body argument) = body argument) :
    ReadsAs source resultArg offset (group [] .square argument []) rest (some (String.ofList (body argument))) :=
  .look (reads_isAt rfl) (.last (reads_skipGroup nested) (.glance (reads_innerText sits front solid) .pure))

theorem reads_resultType (nested : IsNested argument) (front : leadOf argument = []) (solid : trim (body argument) = body argument)
    (sits : Sits source offset (resultForm head argument)) (ends : EndsStatement rest) :
    ReadsAs source resultType offset (resultForm head argument) rest (resultAt head argument offset) := by
  have noPoint : (place (offset + width [⟨[' '], .name head⟩]) (group [] .square argument []) ++ rest).head?.map
      Token.kind ≠ some .dot := by simp [group]
  have closes : EndsScan endsResultType rest := ends.endsScan fun word starts => starts
  have whole : reach offset (resultForm head argument) = ⟨offset + byteLength [' '],
      offset + width [⟨[' '], .name head⟩] + width (group [] .square argument [])⟩ := by
    rw [Nat.add_assoc, ← width_append]
    rfl
  refine .look reads_here (.look reads_peekKind? ?_)
  refine .bind [⟨[' '], .name head⟩] (@reads_path _ _ _ _ _ ⟨head, []⟩ noPoint) ?_
  refine .last (reads_resultArg nested (sits.right [_]) front solid)
    (.glance (reads_scanUntil_nothing closes) (.glance reads_lastStop ?_))
  refine .glance reads_source ?_
  rw [resultAt, ← chars_reach sits, whole]
  exact .pure

theorem reads_methodBody (ends : EndsStatement tokens) : ReadsAs source methodBody offset [] tokens true := by
  refine .glance reads_peekKind? ?_
  cases tokens with
  | nil => exact .pure
  | cons token rest =>
    rcases ends token rfl with closes | ⟨word, begins, -⟩
    · simp only [List.head?_cons, Option.map_some, closes]
      exact .pure
    · simp only [List.head?_cons, Option.map_some, begins]
      exact .pure

/-- The pieces of an abstract method with parameter lists of any form. -/
def methodForm (write : List Char → α → List Piece) (gap : List Char) (name : Name) (lists : List (List α)) (head : Name)
    (argument : List Piece) : List Piece :=
  [⟨gap, .keyword .defKw⟩, ⟨[' '], .name name⟩] ++ (lists.flatMap (listOf write) ++ ⟨[], .colon⟩ :: resultForm head argument)

/-- The method that stands at `offset`. -/
def methodAt (write : List Char → α → List Piece) (toParam : α → Param) (gap : List Char) (name : Name)
    (lists : List (List α)) (head : Name) (argument : List Piece) (offset : Nat) : Method :=
  let listOffset := offset + width [⟨gap, .keyword .defKw⟩, ⟨[' '], .name name⟩]
  { name := name.text
    span := reach offset (methodForm write gap name lists head argument)
    typeParams := []
    typeParamsText := none
    params := readAll (listOf write) (paramListAt write toParam) listOffset lists
    result := some (resultAt head argument (listOffset + width (lists.flatMap (listOf write)) + (Piece.mk [] .colon).width)) }

theorem reads_methodForm {write : List Char → α → List Piece} {toParam : α → Param} {lists : List (List α)}
    (each : ∀ items ∈ lists, ∀ item ∈ items, IsParam source write toParam item) (nested : IsNested argument)
    (front : leadOf argument = []) (solid : trim (body argument) = body argument)
    (sits : Sits source offset (methodForm write gap name lists head argument)) (ends : EndsStatement rest) :
    ReadsAs source method offset (methodForm write gap name lists head argument) rest
      (methodAt write toParam gap name lists head argument offset, true) := by
  have behind := sits.right [⟨gap, .keyword .defKw⟩, ⟨[' '], .name name⟩]
  have opened : offset + (Piece.mk gap (.keyword .defKw)).width + (Piece.mk [' '] (.name name)).width =
      offset + width [⟨gap, .keyword .defKw⟩, ⟨[' '], .name name⟩] := by simp [Nat.add_assoc]
  have noSquare : ∀ offset, (place offset (lists.flatMap (listOf write) ++ ⟨[], .colon⟩ :: resultForm head argument) ++
      rest).head?.map Token.kind ≠ some (.opener .square) := by
    intro offset
    cases lists <;> simp [listOf, group]
  refine .next (reads_expect rfl) (.next reads_expectName ?_)
  rw [opened, text_name]
  show ReadsAs source _ _ (lists.flatMap (listOf write) ++ ⟨[], .colon⟩ :: resultForm head argument) rest _
  refine .look (.glance (reads_isAt_other (noSquare _)) .pure) ?_
  refine .bind _ (reads_paramLists each (behind.left _) (by simp)) ?_
  refine .last (.next (reads_eats rfl) (.last (reads_resultType nested front solid (behind.right _).tail ends) .pure)) ?_
  refine .glance reads_lastStop (.glance (reads_methodBody ends) ?_)
  have whole : reach offset (methodForm write gap name lists head argument) = ⟨offset + byteLength gap,
      offset + width [⟨gap, .keyword .defKw⟩, ⟨[' '], .name name⟩] + width (lists.flatMap (listOf write)) +
        width (⟨[], .colon⟩ :: resultForm head argument)⟩ := by
    rw [Nat.add_assoc, Nat.add_assoc, ← width_append, ← width_append]
    rfl
  rw [methodAt, whole, List.nil_append]
  exact .pure

theorem Signature.pieces_eq (signature : Signature) : signature.pieces gap =
    methodForm Field.pieces gap signature.name [signature.fields] signature.head [⟨[], .name signature.arg⟩] := by
  rw [methodForm, List.flatMap_singleton]
  rfl

theorem Signature.method_eq (signature : Signature) : signature.method gap offset = methodAt Field.pieces Field.param gap
    signature.name [signature.fields] signature.head [⟨[], .name signature.arg⟩] offset := by
  rw [methodAt, resultAt, body_name, List.flatMap_singleton, ← signature.pieces_eq]
  rfl

theorem reads_method (sits : Sits source offset (signature.pieces gap)) (ends : EndsStatement rest) :
    ReadsAs source method offset (signature.pieces gap) rest (signature.method gap offset, true) := by
  rw [signature.method_eq]
  rw [signature.pieces_eq] at sits ⊢
  exact reads_methodForm (fun _ _ field _ => isParam_field field) (nested_single (isPlain_name _)) rfl solid_name sits ends

/-! ### The head of a trait -/

/-- A type parameter, which may have a parameter itself. -/
structure Abstraction where
  name : Name
  kind : ParamKind

namespace Abstraction

def kindPieces : ParamKind → List Piece
  | .proper => []
  | .higherKinded => group [] .square [⟨[], .wildcard⟩] []

def inner (param : Abstraction) : List Piece := ⟨[], .name param.name⟩ :: kindPieces param.kind

def pieces (param : Abstraction) : List Piece := group [] .square param.inner []

/-- The type parameter whose brackets stand at `offset`. -/
def typeParam (offset : Nat) (param : Abstraction) : TypeParam :=
  ⟨param.name.text, param.kind, reach (offset + (Piece.mk [] (.opener .square)).width) param.inner⟩

end Abstraction

theorem reads_typeParamKind {kind : ParamKind} (closes : rest.head?.map Token.kind = some (.closer .square)) :
    ReadsAs source typeParamKind offset (Abstraction.kindPieces kind) rest kind := by
  cases kind with
  | proper => exact .look (reads_isAt_other (by simp [Abstraction.kindPieces, closes])) .pure
  | higherKinded => exact .look (reads_isAt rfl) (.last (reads_skipGroup (nested_single ⟨by simp, by simp⟩)) .pure)

theorem reads_typeParam {param : Abstraction} (closes : rest.head?.map Token.kind = some (.closer .square)) :
    ReadsAs source typeParam offset param.inner rest ⟨param.name.text, param.kind, reach offset param.inner⟩ := by
  have ends : EndsScan (fun kind => kind = .comma || kind = .closer .square) rest := by
    intro token first
    rw [Option.mem_def] at first
    rw [first] at closes
    exact .inr ⟨_, Option.some.inj closes⟩
  have named : ReadsAs source typeParamName offset [⟨[], .name param.name⟩]
      (place (offset + (Piece.mk [] (.name param.name)).width) (Abstraction.kindPieces param.kind) ++ rest)
      ((Piece.mk [] (.name param.name)).token offset) := .look reads_peek? (.next reads_bump .pure)
  refine .look (.glance reads_peek? .pure) (.look reads_here (.next named (.last (reads_typeParamKind closes) ?_)))
  refine .glance (reads_scanUntil_nothing ends) (.glance reads_lastStop ?_)
  rw [text_name]
  have whole : reach offset param.inner = ⟨offset, offset + (Piece.mk [] (.name param.name)).width +
      width (Abstraction.kindPieces param.kind)⟩ := by
    rw [Nat.add_assoc, ← width_cons]
    rfl
  rw [whole]
  exact .pure

theorem reads_typeParams {param : Abstraction} :
    ReadsAs source typeParams offset param.pieces rest ([param.typeParam offset], reach offset param.pieces) := by
  refine .next (reads_expect rfl) (.done (.bind param.inner (reads_typeParam rfl) ?_))
  refine .look (reads_eats_other (by simp)) (.last (reads_expect rfl) ?_)
  rw [span_token, span_token, ← width_singleton, cover_reach_past (by simp)]
  exact .pure

/-- A parent type, which may have one argument. -/
structure Ancestor where
  path : Path
  arg : Option Name

namespace Ancestor

def argPieces : Option Name → List Piece
  | none => []
  | some name => bracketed name

def pieces (ancestor : Ancestor) : List Piece := ancestor.path.pieces [' '] ++ argPieces ancestor.arg

/-- The parent that stands at `offset`. -/
def parent (offset : Nat) (ancestor : Ancestor) : Parent :=
  ⟨⟨ancestor.path.segments⟩, ancestor.arg.map Name.text, reach offset ancestor.pieces⟩

end Ancestor

theorem reads_parentTypeArgs {arg : Option Name} {before : List Piece} (nonempty : before ≠ [])
    (sits : Sits source (offset + width before) (Ancestor.argPieces arg))
    (ends : rest.head?.map Token.kind ≠ some (.opener .square)) :
    ReadsAs source (parentTypeArgs (reach offset before)) (offset + width before) (Ancestor.argPieces arg) rest
      (arg.map Name.text, reach offset (before ++ Ancestor.argPieces arg)) := by
  cases arg with
  | none =>
    rw [Ancestor.argPieces, List.append_nil]
    exact .look (reads_isAt_other ends) .pure
  | some name =>
    refine .look (reads_isAt rfl) (.last reads_bracketed (.glance (reads_groupText sits) ?_))
    rw [cover_reach nonempty]
    exact .pure

/-- The next token, if there is one, begins a body or ends the statement. -/
def EndsHead (tokens : List Token) : Prop :=
  tokens.head?.map Token.kind = some (.opener .brace) ∨ EndsStatement tokens

theorem EndsHead.ne {kind : TokenKind} (ends : EndsHead tokens) (opens : kind ≠ .opener .brace)
    (inside : kind ≠ .closer .brace) (within : ∀ word, kind = .keyword word → word.startsStatement = false) :
    tokens.head?.map Token.kind ≠ some kind := by
  rcases ends with begins | ends
  · rw [begins]
    intro same
    exact opens (Option.some.inj same).symm
  · exact ends.ne inside within

theorem reads_parent {ancestor : Ancestor} (sits : Sits source offset ancestor.pieces) (ends : EndsHead rest) :
    ReadsAs source parent offset ancestor.pieces rest (ancestor.parent offset) := by
  have noPoint : (place (offset + width (ancestor.path.pieces [' '])) (Ancestor.argPieces ancestor.arg) ++ rest).head?.map
      Token.kind ≠ some .dot := by
    cases ancestor.arg with
    | none => exact ends.ne (by simp) (by simp) (by simp)
    | some name => simp [Ancestor.argPieces, bracketed, group]
  refine .bind _ (reads_path noPoint) (.last (reads_parentTypeArgs (by simp [Path.pieces]) (sits.right _) ?_) ?_)
  · exact ends.ne (by simp) (by simp) (by simp)
  · exact .glance (.done (.glance (reads_isAt_other (ends.ne (by simp) (by simp) (by simp))) .pure)) .pure

/-- What the trait extends. -/
def parentPieces : Option Ancestor → List Piece
  | none => []
  | some ancestor => ⟨[' '], .keyword .extendsKw⟩ :: ancestor.pieces

/-- The parents whose clause stands at `offset`. -/
def parentsAt (offset : Nat) : Option Ancestor → List Parent
  | none => []
  | some ancestor => [ancestor.parent (offset + (Piece.mk [' '] (.keyword .extendsKw)).width)]

theorem reads_extendsClause {ancestor : Option Ancestor} (sits : Sits source offset (parentPieces ancestor))
    (ends : EndsHead rest) :
    ReadsAs source extendsClause offset (parentPieces ancestor) rest (parentsAt offset ancestor) := by
  cases ancestor with
  | none => exact .look (reads_eats_other (ends.ne (by simp) (by simp) (by simp [Keyword.startsStatement]))) .pure
  | some ancestor =>
    refine .next (reads_eats rfl) (.done (.last (reads_parent sits.tail ends) ?_))
    refine .glance (reads_eats_other (ends.ne (by simp) (by simp) (by simp [Keyword.startsStatement]))) ?_
    exact .glance (reads_eats_other (ends.ne (by simp) (by simp) (by simp))) .pure

/-- The type parameters of the trait. -/
def paramPieces : Option Abstraction → List Piece
  | none => []
  | some param => param.pieces

/-- The type parameters whose brackets stand at `offset`. -/
def typeParamsAt (offset : Nat) : Option Abstraction → List TypeParam × Option Span
  | none => ([], none)
  | some param => ([param.typeParam offset], some (reach offset param.pieces))

theorem reads_traitTypeParams {param : Option Abstraction} (ends : rest.head?.map Token.kind ≠ some (.opener .square)) :
    ReadsAs source traitTypeParams offset (paramPieces param) rest (typeParamsAt offset param) := by
  cases param with
  | none => exact .look (reads_isAt_other ends) .pure
  | some param => exact .look (reads_isAt rfl) (.last reads_typeParams .pure)

/-! ### Bodies -/

theorem reads_skipSelfType (plain : ∀ token ∈ tokens.head?, token.kind ≠ .ident ∧ token.kind ≠ .underscore) :
    ReadsAs source skipSelfType offset [] tokens () := by
  have absent : selfType? tokens = none := by
    unfold selfType?
    split
    · rename_i first second rest
      obtain ⟨named, blank⟩ := plain first rfl
      simp [named, blank]
    · rfl
  have current : ReadsAs source (get : Parser Cursor) offset [] tokens ⟨tokens, offset⟩ := rfl
  refine .glance current ?_
  dsimp only
  rw [absent]
  exact .pure

theorem reads_openBody (plain : ∀ token ∈ rest.head?, token.kind ≠ .ident ∧ token.kind ≠ .underscore) :
    ReadsAs source openBody offset [⟨gap, .opener .brace⟩] rest (offset + byteLength gap) :=
  .next (reads_expect rfl) (.glance (reads_skipSelfType plain) .pure)

theorem reads_eatAll_other {kind : TokenKind} (other : tokens.head?.map Token.kind ≠ some kind) :
    ReadsAs source (eatAll kind) offset [] tokens () := .done (.glance (reads_eats_other other) .pure)

theorem reads_closeBody? (openBrace : Nat) :
    ReadsAs source (closeBody? openBrace) offset [⟨gap, .closer .brace⟩] rest
      (some ⟨openBrace, offset + byteLength gap⟩) :=
  .look (reads_eatAll_other (by simp)) (.look reads_peek? (.next reads_bump .pure))

theorem reads_closeBody?_other {token : Token} {openBrace : Nat} (other : token.kind ≠ .closer .brace)
    (solid : token.kind ≠ .semi) : ReadsAs source (closeBody? openBrace) offset [] (token :: tokens) none := by
  refine .glance (reads_eatAll_other (by simp [solid])) (.glance reads_peek? ?_)
  dsimp only [List.head?_cons]
  rw [if_neg other]
  exact .pure

/-- Methods one after the other, behind the same blanks. -/
def methodPieces (gap : List Char) (methods : List Signature) : List Piece := methods.flatMap (Signature.pieces gap)

theorem methodPieces_cons (gap : List Char) (signature : Signature) (methods : List Signature) :
    methodPieces gap (signature :: methods) = signature.pieces gap ++ methodPieces gap methods := rfl

/-- The methods that stand from `offset` on. -/
def methodsAt (gap : List Char) : Nat → List Signature → List Method := readAll (Signature.pieces gap) (Signature.method gap)

/-- One more statement of a trait, or the end of its body. -/
def traitBodyStep (openBrace : Nat) (seen : TraitMembers) : Parser (Step TraitMembers (TraitMembers × Body)) := do
  match ← closeBody? openBrace with
  | some body => return .done (seen, body)
  | none => return .again (← traitStatement seen)

section Methods

variable {write : α → List Piece} {read : Nat → α → Method} {items : List α} {gap' : List Char} {openBrace : Nat}

/-- The item is written as an abstract method. -/
structure IsMethod (source : List Char) (write : α → List Piece) (read : Nat → α → Method) (item : α) : Prop where
  begins : ∃ gap later, write item = ⟨gap, .keyword .defKw⟩ :: later
  reads : ∀ offset rest, Sits source offset (write item) → EndsStatement rest →
    ReadsAs source method offset (write item) rest (read offset item, true)

theorem endsStatement_items (each : ∀ item ∈ items, IsMethod source write read item) :
    EndsStatement (place offset (items.flatMap write ++ [⟨gap', .closer .brace⟩]) ++ rest) := by
  cases items with
  | nil =>
    rintro _ ⟨⟩
    exact .inl rfl
  | cons item items =>
    obtain ⟨gap, later, shape⟩ := (each item (List.mem_cons_self ..)).begins
    rw [List.flatMap_cons, shape]
    rintro _ ⟨⟩
    exact .inr ⟨_, rfl, rfl⟩

theorem reads_traitBodySteps {seen : List Method} (each : ∀ item ∈ items, IsMethod source write read item)
    (sits : Sits source offset (items.flatMap write)) :
    ReadsAs source (iterate (traitBodyStep openBrace) ⟨seen, false⟩) offset
      (items.flatMap write ++ [⟨gap', .closer .brace⟩]) rest
      (⟨seen ++ readAll write read offset items, false⟩,
        ⟨openBrace, offset + width (items.flatMap write) + byteLength gap'⟩) := by
  induction items generalizing offset seen with
  | nil =>
    refine .done (.last (reads_closeBody? openBrace) ?_)
    rw [readAll, List.append_nil]
    exact .pure
  | cons item items ih =>
    obtain ⟨isMethod, others⟩ := List.forall_mem_cons.mp each
    obtain ⟨gap, later, shape⟩ := isMethod.begins
    rw [List.flatMap_cons] at sits ⊢
    have further := @ih _ (seen ++ [read offset item]) others (sits.right _)
    have first := isMethod.reads _ (place (offset + width (write item)) (items.flatMap write ++ [⟨gap', .closer .brace⟩]) ++ rest)
      (sits.left _) (endsStatement_items others)
    have placed : readAll write read offset (item :: items) =
        [read offset item] ++ readAll write read (offset + width (write item)) items := rfl
    rw [List.append_assoc, ← placed] at further
    rw [List.append_assoc, width_append, ← Nat.add_assoc]
    rw [shape] at first further ⊢
    refine .again _ ?_ (by simp) further
    refine .look (reads_closeBody?_other (by simp) (by simp)) ?_
    refine .last (.look (reads_modifiers_bare rfl) (.look reads_peekKind? ?_)) .pure
    exact .last first .pure

/-- The body of a trait. -/
theorem reads_methodsBody (each : ∀ item ∈ items, IsMethod source write read item)
    (sits : Sits source offset (group gap .brace (items.flatMap write) gap')) :
    ReadsAs source optionalTraitBody offset (group gap .brace (items.flatMap write) gap') rest
      (⟨readAll write read (offset + (Piece.mk gap (.opener .brace)).width) items, false⟩,
        some ⟨offset + byteLength gap, offset + (Piece.mk gap (.opener .brace)).width + width (items.flatMap write) +
          byteLength gap'⟩) := by
  have body : ReadsAs source traitBody offset (group gap .brace (items.flatMap write) gap') rest
      (⟨readAll write read (offset + (Piece.mk gap (.opener .brace)).width) items, false⟩,
        ⟨offset + byteLength gap, offset + (Piece.mk gap (.opener .brace)).width + width (items.flatMap write) +
          byteLength gap'⟩) := by
    refine .next (reads_openBody ?_) (reads_traitBodySteps each (sits.tail.left _))
    intro token first
    rcases endsStatement_items each token first with closes | ⟨word, begins, -⟩
    · simp [closes]
    · simp [begins]
  exact .look (reads_isAt rfl) (.last body .pure)

end Methods

theorem isMethod_signature (signature : Signature) :
    IsMethod source (Signature.pieces gap) (Signature.method gap) signature :=
  ⟨⟨_, _, rfl⟩, fun _ _ => reads_method⟩

theorem width_closer (gap : List Char) (bracket : Bracket) :
    (Piece.mk gap (.closer bracket)).width = byteLength gap + 1 := by
  have single : byteLength (Lexeme.closer bracket).chars = 1 := by cases bracket <;> rfl
  rw [Piece.width, Piece.chars, byteLength_append, single]

/-- The body of a trait: methods, each on a line of its own, and the closing brace on
the last line. -/
def bodyPieces (indent : List Char) : Option (List Signature) → List Piece
  | none => []
  | some methods => group [' '] .brace (methodPieces ('\n' :: (indent ++ [' ', ' '])) methods) ('\n' :: indent)

/-- The methods of the body that stands at `offset`. -/
def membersAt (indent : List Char) (offset : Nat) : Option (List Signature) → List Method
  | none => []
  | some methods =>
    methodsAt ('\n' :: (indent ++ [' ', ' '])) (offset + (Piece.mk [' '] (.opener .brace)).width) methods

/-- The braces of the body that stands at `offset`. -/
def bodyAt (indent : List Char) (offset : Nat) : Option (List Signature) → Option Body
  | none => none
  | some methods => some ⟨offset + 1, offset + width (bodyPieces indent (some methods)) - 1⟩

theorem reads_optionalTraitBody {indent : List Char} {methods : Option (List Signature)}
    (sits : Sits source offset (bodyPieces indent methods)) (ends : EndsStatement rest) :
    ReadsAs source optionalTraitBody offset (bodyPieces indent methods) rest
      (⟨membersAt indent offset methods, false⟩, bodyAt indent offset methods) := by
  cases methods with
  | none => exact .look (reads_isAt_other (ends.ne (by simp) (by simp))) .pure
  | some methods =>
    have braces : (⟨offset + 1, offset + width (bodyPieces indent (some methods)) - 1⟩ : Body) =
        ⟨offset + byteLength [' '], offset + (Piece.mk [' '] (.opener .brace)).width +
          width (methodPieces ('\n' :: (indent ++ [' ', ' '])) methods) + byteLength ('\n' :: indent)⟩ := by
      rw [bodyPieces, width_group, width_closer]
      simp only [Body.mk.injEq]
      exact ⟨rfl, by omega⟩
    rw [bodyAt, braces]
    exact reads_methodsBody (fun method _ => isMethod_signature method) sits

/-! ### Traits -/

/-- A trait with at most one type parameter and one parent. -/
structure Trait where
  name : Name
  param : Option Abstraction
  ancestor : Option Ancestor
  methods : Option (List Signature)

namespace Trait

def opening (gap : List Char) (trait : Trait) : List Piece := [⟨gap, .keyword .traitKw⟩, ⟨[' '], .name trait.name⟩]

/-- The trait behind blanks, of which the last line is `indent`. -/
def pieces (gap indent : List Char) (trait : Trait) : List Piece :=
  trait.opening gap ++ (paramPieces trait.param ++ (parentPieces trait.ancestor ++ bodyPieces indent trait.methods))

/-- Where the clause with the parents begins, in a trait at `offset`. -/
def parentOffset (gap : List Char) (offset : Nat) (trait : Trait) : Nat :=
  offset + width (trait.opening gap) + width (paramPieces trait.param)

/-- Where the body begins, in a trait at `offset`. -/
def bodyOffset (gap : List Char) (offset : Nat) (trait : Trait) : Nat :=
  trait.parentOffset gap offset + width (parentPieces trait.ancestor)

/-- The trait that stands at `offset`. -/
def interface (gap indent : List Char) (offset : Nat) (trait : Trait) : Interface where
  name := trait.name.text
  nameSpan := reach (offset + (Piece.mk gap (.keyword .traitKw)).width) [⟨[' '], .name trait.name⟩]
  span := reach offset (trait.pieces gap indent)
  typeParams := (typeParamsAt (offset + width (trait.opening gap)) trait.param).1
  typeParamsSpan := (typeParamsAt (offset + width (trait.opening gap)) trait.param).2
  parents := parentsAt (trait.parentOffset gap offset) trait.ancestor
  methods := membersAt indent (trait.bodyOffset gap offset) trait.methods
  hasConcreteMembers := false
  body := bodyAt indent (trait.bodyOffset gap offset) trait.methods

end Trait

theorem endsHead_body {indent : List Char} {methods : Option (List Signature)} (ends : EndsStatement rest) :
    EndsHead (place offset (bodyPieces indent methods) ++ rest) := by
  cases methods with
  | none => exact .inr ends
  | some methods => exact .inl rfl

/-- A trait with a body of any form. -/
theorem reads_interfaceForm {param : Option Abstraction} {ancestor : Option Ancestor} {bodyPieces : List Piece}
    {members : TraitMembers} {body : Option Body}
    (sits : Sits source offset ([⟨gap, .keyword .traitKw⟩, ⟨[' '], .name name⟩] ++
      (paramPieces param ++ (parentPieces ancestor ++ bodyPieces))))
    (reads : Sits source (offset + width [⟨gap, .keyword .traitKw⟩, ⟨[' '], .name name⟩] + width (paramPieces param) +
        width (parentPieces ancestor)) bodyPieces →
      ReadsAs source optionalTraitBody (offset + width [⟨gap, .keyword .traitKw⟩, ⟨[' '], .name name⟩] +
        width (paramPieces param) + width (parentPieces ancestor)) bodyPieces rest (members, body))
    (ends : ∀ offset, EndsHead (place offset bodyPieces ++ rest)) :
    ReadsAs source interface offset ([⟨gap, .keyword .traitKw⟩, ⟨[' '], .name name⟩] ++
        (paramPieces param ++ (parentPieces ancestor ++ bodyPieces))) rest
      { name := name.text
        nameSpan := reach (offset + (Piece.mk gap (.keyword .traitKw)).width) [⟨[' '], .name name⟩]
        span := reach offset ([⟨gap, .keyword .traitKw⟩, ⟨[' '], .name name⟩] ++
          (paramPieces param ++ (parentPieces ancestor ++ bodyPieces)))
        typeParams := (typeParamsAt (offset + width [⟨gap, .keyword .traitKw⟩, ⟨[' '], .name name⟩]) param).1
        typeParamsSpan := (typeParamsAt (offset + width [⟨gap, .keyword .traitKw⟩, ⟨[' '], .name name⟩]) param).2
        parents := parentsAt (offset + width [⟨gap, .keyword .traitKw⟩, ⟨[' '], .name name⟩] +
          width (paramPieces param)) ancestor
        methods := members.methods
        hasConcreteMembers := members.hasConcrete
        body := body } := by
  have opened : offset + (Piece.mk gap (.keyword .traitKw)).width + (Piece.mk [' '] (.name name)).width =
      offset + width [⟨gap, .keyword .traitKw⟩, ⟨[' '], .name name⟩] := by simp [Nat.add_assoc]
  have behind := (sits.right _).right _
  have other : ∀ offset (bracket : Bracket), bracket ≠ .brace →
      (place offset (parentPieces ancestor ++ bodyPieces) ++ rest).head?.map Token.kind ≠ some (.opener bracket) := by
    intro offset bracket other
    cases ancestor with
    | none => exact (ends offset).ne (by simpa using other) (by simp) (by simp)
    | some ancestor => simp [parentPieces]
  refine .next (reads_expect rfl) (.next reads_expectName ?_)
  rw [opened, text_name]
  show ReadsAs source _ _ (paramPieces param ++ (parentPieces ancestor ++ bodyPieces)) rest _
  refine .bind _ (reads_traitTypeParams (other _ _ (by simp))) ?_
  refine .look (.done (.glance (reads_isAt_other (other _ _ (by simp))) .pure)) ?_
  refine .bind _ (reads_extendsClause (behind.left _) (ends _)) ?_
  refine .last (reads (behind.right _)) (.glance reads_lastStop ?_)
  have whole : reach offset ([⟨gap, .keyword .traitKw⟩, ⟨[' '], .name name⟩] ++
      (paramPieces param ++ (parentPieces ancestor ++ bodyPieces))) = ⟨offset + byteLength gap,
        offset + width [⟨gap, .keyword .traitKw⟩, ⟨[' '], .name name⟩] + width (paramPieces param) +
          width (parentPieces ancestor) + width bodyPieces⟩ := by
    rw [Nat.add_assoc, Nat.add_assoc, Nat.add_assoc, ← width_append, ← width_append, ← width_append]
    rfl
  rw [whole, span_token]
  exact .pure

theorem reads_interface {trait : Trait} {indent : List Char} (sits : Sits source offset (trait.pieces gap indent))
    (ends : EndsStatement rest) :
    ReadsAs source interface offset (trait.pieces gap indent) rest (trait.interface gap indent offset) :=
  reads_interfaceForm sits (fun body => reads_optionalTraitBody body ends) fun _ => endsHead_body ends

/-! ### Layout -/

section Layout

variable {before : Option Lexeme} {indent : List Char}

theorem laid_bracketed : Laid before (bracketed name) := by simp [bracketed, group, Laid]

theorem laid_path {path : Path} : Laid before (path.pieces [' ']) := by
  have more : ∀ names : List Name, ∀ name, Laid (some (.name name)) (names.flatMap fun name => [⟨[], .dot⟩, ⟨[], .name name⟩]) := by
    intro names
    induction names with
    | nil => exact fun _ => trivial
    | cons next names ih => exact fun name => by simp [Laid, ih]
  simp [Path.pieces, Laid, more]

theorem laid_listPieces {fields : List Field} : Laid before (listPieces fields) := by
  have each : ∀ field ∈ fields, ∀ before, Laid before (⟨[], .comma⟩ :: field.pieces [' ']) := by
    simp [Field.pieces, Laid]
  cases fields with
  | nil => simp [listPieces, fieldPieces, separated, group, Laid]
  | cons field fields =>
    have more := laid_flatMap fun other member => each other (List.mem_cons_of_mem _ member)
    simp only [listPieces, fieldPieces, separated, group, laid_cons, laid_append, more]
    simp [Field.pieces, Laid]

theorem laid_signature (blank : IsBlank gap) (nonempty : gap ≠ []) : Laid before (signature.pieces gap) := by
  simp only [Signature.pieces, Signature.opening, Signature.resultPieces, laid_append, laid_listPieces, laid_cons,
    laid_bracketed]
  simp [Laid, listPieces, group, blank, nonempty]

theorem laid_paramPieces {param : Option Abstraction} : Laid before (paramPieces param) := by
  cases param with
  | none => trivial
  | some param =>
    obtain ⟨name, kind⟩ := param
    cases kind <;>
      simp [paramPieces, Abstraction.pieces, Abstraction.inner, Abstraction.kindPieces, group, Laid]

theorem laid_parentPieces {ancestor : Option Ancestor} : Laid before (parentPieces ancestor) := by
  cases ancestor with
  | none => trivial
  | some ancestor =>
    have arg : ∀ before, Laid before (Ancestor.argPieces ancestor.arg) := by
      intro before
      cases ancestor.arg with
      | none => trivial
      | some name => exact laid_bracketed
    simp [parentPieces, Ancestor.pieces, laid_cons, laid_append, laid_path, arg]

theorem laid_bodyPieces {methods : Option (List Signature)} (blank : IsBlank indent) :
    Laid before (bodyPieces indent methods) := by
  cases methods with
  | none => trivial
  | some methods =>
    have each : ∀ method ∈ methods, ∀ before, Laid before (method.pieces ('\n' :: (indent ++ [' ', ' ']))) :=
      fun method _ before => laid_signature (by simpa [IsBlank, or_imp, forall_and] using blank) (by simp)
    have body := laid_flatMap each
    simp [bodyPieces, methodPieces, group, laid_cons, laid_append, body, blank, Laid]

/-- A trait may be written behind a blank, and at the beginning of a text. -/
theorem laid_trait {trait : Trait} (blank : IsBlank gap) (apart : gap = [] → before = none) (inner : IsBlank indent) :
    Laid before (trait.pieces gap indent) := by
  have first : gap = [] → ∀ last ∈ before, last.separate (.keyword .traitKw) = true := by
    intro empty last member
    rw [apart empty] at member
    cases member
  simp only [Trait.pieces, Trait.opening, laid_append, laid_paramPieces, laid_parentPieces, laid_bodyPieces inner,
    laid_cons, and_true]
  exact ⟨blank, first, by simp [Laid]⟩

end Layout

end KindLift.WrittenTraits
