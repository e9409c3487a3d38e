import KindLift.Proofs.WrittenServices
import KindLift.Service.Match

/-! Services as they are printed: a package clause, a blank line, and a trait with one
line for each of its methods. Reading a printed service gives back its name, its type
parameter and its methods, with the names and types of their parameters and their
results, whatever the number of methods, parameter lists and parameters and however
deep the types. -/
namespace KindLift.PrintedServices
open Token Text TokenPlacement KindLift.Parser QualifiedTokens WrittenTokens WrittenReading WrittenGroups WrittenTraits WrittenUnits
open WrittenInstances (effect)
open WrittenServices (future)

/-! ### Types -/

mutual

/-- A name, or a name applied to types. -/
inductive PlainType where
  | name (name : Name)
  | applied (head : Name) (args : PlainArgs)

/-- Types with commas between them, and so many blanks behind each comma. -/
inductive PlainArgs where
  | last (type : PlainType)
  | more (type : PlainType) (blanks : Nat) (others : PlainArgs)

end

mutual

def PlainType.text : PlainType → String
  | .name name => name.text
  | .applied head args => head.text ++ "[" ++ args.text ++ "]"

def PlainArgs.text : PlainArgs → String
  | .last type => type.text
  | .more type blanks others => type.text ++ "," ++ String.ofList (List.replicate blanks ' ') ++ others.text

end

mutual

def PlainType.pieces (gap : List Char) : PlainType → List Piece
  | .name name => [⟨gap, .name name⟩]
  | .applied head args => ⟨gap, .name head⟩ :: group [] .square (args.pieces []) []

def PlainArgs.pieces (gap : List Char) : PlainArgs → List Piece
  | .last type => type.pieces gap
  | .more type blanks others => type.pieces gap ++ ⟨[], .comma⟩ :: others.pieces (List.replicate blanks ' ')

end

variable {source : List Char} {offset : Nat} {gap : List Char} {rest : List Token} {before : Option Lexeme}
  {stops : TokenKind → Bool}

/-- A type begins with a name. -/
theorem PlainType.begins (type : PlainType) (gap : List Char) :
    ∃ name later, type.pieces gap = ⟨gap, .name name⟩ :: later := by
  cases type with
  | name name => exact ⟨name, [], rfl⟩
  | applied head args => exact ⟨head, _, rfl⟩

theorem PlainType.lead (type : PlainType) (gap : List Char) : leadOf (type.pieces gap) = gap := by
  obtain ⟨name, later, shape⟩ := type.begins gap
  rw [shape]
  rfl

theorem PlainArgs.lead (args : PlainArgs) (gap : List Char) : leadOf (args.pieces gap) = gap := by
  cases args with
  | last type => exact type.lead gap
  | more type blanks others =>
    obtain ⟨name, later, shape⟩ := type.begins gap
    rw [PlainArgs.pieces, shape]
    rfl

mutual

theorem PlainType.written (gap : List Char) : ∀ type : PlainType, written (type.pieces gap) = gap ++ type.text.toList
  | .name name => by simp [PlainType.pieces, PlainType.text, Piece.chars, Lexeme.chars]
  | .applied head args => by
    simp [PlainType.pieces, PlainType.text, Piece.chars, Lexeme.chars, group, args.written [], openingChar, closingChar]

theorem PlainArgs.written (gap : List Char) : ∀ args : PlainArgs, written (args.pieces gap) = gap ++ args.text.toList
  | .last type => type.written gap
  | .more type blanks others => by
    simp [PlainArgs.pieces, PlainArgs.text, Piece.chars, Lexeme.chars, type.written gap, others.written]

end

mutual

/-- The brackets of a type match. -/
theorem PlainType.nested (gap : List Char) : ∀ type : PlainType, IsNested (type.pieces gap)
  | .name name => nested_single (isPlain_name name)
  | .applied head args => .cons (isPlain_name head) (.group (args.nested []))

theorem PlainArgs.nested (gap : List Char) : ∀ args : PlainArgs, IsNested (args.pieces gap)
  | .last type => type.nested gap
  | .more type _ others => (type.nested gap).append (.cons ⟨by simp, by simp⟩ (others.nested _))

end

theorem separate_name {last : Lexeme} (other : last.isWord = false) (name : Name) : last.separate (.name name) = true := by
  cases last <;> first
    | rfl
    | cases other

theorem isBlank_spaces (blanks : Nat) : IsBlank (List.replicate blanks ' ') :=
  fun _ member => .inl (List.eq_of_mem_replicate member)

mutual

/-- A type may stand behind a blank, and behind what no name runs into. -/
theorem PlainType.laid {gap : List Char} {before : Option Lexeme} (blank : IsBlank gap)
    (apart : gap = [] → ∀ last ∈ before, last.isWord = false) : ∀ type : PlainType, Laid before (type.pieces gap)
  | .name name => laid_cons.mpr ⟨blank, fun empty last member => separate_name (apart empty last member) name, trivial⟩
  | .applied head args => by
    have inside : Laid (some (.opener .square)) (args.pieces []) := args.laid isBlank_nil (by simp)
    refine laid_cons.mpr ⟨blank, fun empty last member => separate_name (apart empty last member) head, ?_⟩
    refine laid_cons.mpr ⟨isBlank_nil, by simp, laid_append.mpr ⟨inside, ?_⟩⟩
    exact laid_cons.mpr ⟨isBlank_nil, by simp, trivial⟩

theorem PlainArgs.laid {gap : List Char} {before : Option Lexeme} (blank : IsBlank gap)
    (apart : gap = [] → ∀ last ∈ before, last.isWord = false) : ∀ args : PlainArgs, Laid before (args.pieces gap)
  | .last type => type.laid blank apart
  | .more type blanks others => by
    refine laid_append.mpr ⟨type.laid blank apart, laid_cons.mpr ⟨isBlank_nil, by simp, ?_⟩⟩
    exact others.laid (isBlank_spaces blanks) (by simp)

end

theorem first_text (type : PlainType) : ∃ c rest, type.text.toList = c :: rest ∧ c.isAlpha = true := by
  have named (name : Name) : ∃ c rest, name.text.toList = c :: rest ∧ c.isAlpha = true := by
    obtain ⟨c, rest, shape, letter, -⟩ := name.chars_eq
    exact ⟨c, rest, shape, letter⟩
  cases type with
  | name name => exact named name
  | applied head args =>
    obtain ⟨c, rest, shape, letter⟩ := named head
    refine ⟨c, rest ++ ("[" ++ args.text ++ "]").toList, ?_, letter⟩
    simp [PlainType.text, shape]

theorem last_text (type : PlainType) : ∀ c ∈ type.text.toList.getLast?, isWhiteSpace c = false := by
  intro c last
  cases type with
  | name name => exact solid_of_alphanum (name.alphanum c (List.mem_of_getLast? last))
  | applied head args =>
    have whole : (PlainType.applied head args).text.toList = (head.text ++ "[" ++ args.text).toList ++ [']'] := by
      simp [PlainType.text]
    rw [whole, List.getLast?_concat] at last
    cases last
    rfl

theorem body_pieces (type : PlainType) : body (type.pieces gap) = type.text.toList := by
  have whole := written_eq (type.pieces gap)
  rw [type.lead, type.written] at whole
  exact (List.append_cancel_left whole).symm

theorem solid_pieces (type : PlainType) : trim (body (type.pieces gap)) = body (type.pieces gap) := by
  rw [body_pieces]
  refine trim_solid (fun c first => ?_) (last_text type)
  obtain ⟨d, rest, shape, letter⟩ := first_text type
  rw [shape] at first
  cases first
  exact solid_of_alphanum (isAlphanum_of_alpha letter)

/-- A type is read over as a whole where neither names nor brackets stop. -/
theorem items_pieces (word : stops .ident = false) (bracket : stops (.opener .square) = false) (type : PlainType) :
    Items stops (type.pieces gap) := by
  cases type with
  | name name => exact .plain word (isPlain_name name) .nil
  | applied head args =>
    have group := @Items.group stops [] [] .square (args.pieces []) [] bracket (args.nested []) .nil
    rw [List.append_nil] at group
    exact .plain word (isPlain_name head) group

/-! ### Parameters -/

structure Parameter where
  name : Name
  type : PlainType

namespace Parameter

def text (parameter : Parameter) : String := parameter.name.text ++ ": " ++ parameter.type.text

def pieces (gap : List Char) (parameter : Parameter) : List Piece :=
  [⟨gap, .name parameter.name⟩, ⟨[], .colon⟩] ++ parameter.type.pieces [' ']

def param (parameter : Parameter) : Param := ⟨parameter.name.text, parameter.type.text⟩

theorem isParam (parameter : Parameter) : IsParam source pieces param parameter := by
  refine ⟨fun gap => ⟨_, _, rfl⟩, fun gap offset rest sits ends => ?_⟩
  have filled : parameter.type.pieces [' '] ≠ [] := by
    obtain ⟨name, later, shape⟩ := parameter.type.begins [' ']
    simp [shape]
  have read := reads_typedParam (items_pieces rfl rfl parameter.type) filled sits (solid_pieces parameter.type) ends
  rwa [body_pieces, String.ofList_toList] at read

theorem written (gap : List Char) (parameter : Parameter) :
    written (parameter.pieces gap) = gap ++ parameter.text.toList := by
  simp [pieces, text, Piece.chars, Lexeme.chars, parameter.type.written]

theorem laid {gap : List Char} {before : Option Lexeme} (blank : IsBlank gap)
    (apart : gap = [] → ∀ last ∈ before, last.isWord = false) (parameter : Parameter) :
    Laid before (parameter.pieces gap) := by
  refine laid_cons.mpr ⟨blank, fun empty last member => separate_name (apart empty last member) parameter.name, ?_⟩
  exact laid_cons.mpr ⟨isBlank_nil, by simp, parameter.type.laid (by simp) (by simp)⟩

end Parameter

def listText (parameters : List Parameter) : String :=
  "(" ++ String.intercalate ", " (parameters.map Parameter.text) ++ ")"

theorem laid_list (parameters : List Parameter) : Laid before (listOf Parameter.pieces parameters) := by
  have inside : ∀ last : Lexeme, last = .opener .paren → Laid (some last) (separated Parameter.pieces parameters) := by
    rintro _ rfl
    cases parameters with
    | nil => trivial
    | cons parameter parameters =>
      refine laid_append.mpr ⟨parameter.laid (by simp) (by simp), laid_flatMap (fun other _ before => ?_) _⟩
      exact laid_cons.mpr ⟨isBlank_nil, by simp, other.laid (by simp) (by simp)⟩
  refine laid_cons.mpr ⟨isBlank_nil, by simp, laid_append.mpr ⟨inside _ rfl, ?_⟩⟩
  exact laid_cons.mpr ⟨isBlank_nil, by simp, trivial⟩

theorem written_list (parameters : List Parameter) :
    WrittenTokens.written (listOf Parameter.pieces parameters) = (listText parameters).toList := by
  have inner := @WrittenInstances.written_separated _ Parameter.pieces
    (fun gap parameter => by rw [parameter.written, parameter.written, List.nil_append]) parameters
  have each : (fun parameter : Parameter => WrittenTokens.written (parameter.pieces [])) = fun parameter => parameter.text.toList := by
    funext parameter
    rw [parameter.written, List.nil_append]
  rw [each] at inner
  simp [listOf, listText, group, inner, Piece.chars, Lexeme.chars, openingChar, closingChar, Function.comp_def]

/-! ### Services -/

/-- An abstract method, with the type that its result is about. -/
structure PrintedMethod where
  name : Name
  lists : List (List Parameter)
  result : PlainType

/-- A service is modern or legacy by the name and kind of its type parameter. -/
structure PrintedService where
  name : Name
  shape : Shape
  methods : List PrintedMethod

/-- The type parameter of the service. -/
def effectOf : Shape → Abstraction
  | .modern => ⟨effect, .higherKinded⟩
  | .legacy => ⟨future, .proper⟩

def effectText : Shape → String
  | .modern => "F[_]"
  | .legacy => "Future"

def methodText (head : String) (method : PrintedMethod) : String :=
  "  def " ++ method.name.text ++ String.join (method.lists.map listText) ++ ": " ++ head ++ "[" ++ method.result.text ++ "]\n"

def serviceText (service : PrintedService) : String :=
  "package gen\n\ntrait " ++ service.name.text ++ "[" ++ effectText service.shape ++ "] \x7b\n" ++
    String.join (service.methods.map (methodText (effectOf service.shape).name.text)) ++ "\x7d"

def lineGap : List Char := ['\n', ' ', ' ']

def methodPieces (head : Name) (method : PrintedMethod) : List Piece :=
  methodForm Parameter.pieces lineGap method.name method.lists head (method.result.pieces [])

/-- The method that stands at `offset`. -/
def methodRead (head : Name) (offset : Nat) (method : PrintedMethod) : Method :=
  methodAt Parameter.pieces Parameter.param lineGap method.name method.lists head (method.result.pieces []) offset

def bodyOf (service : PrintedService) : List Piece :=
  group [' '] .brace (service.methods.flatMap (methodPieces (effectOf service.shape).name)) ['\n']

def traitOf (service : PrintedService) : List Piece :=
  [⟨['\n', '\n'], .keyword .traitKw⟩, ⟨[' '], .name service.name⟩] ++
    (paramPieces (some (effectOf service.shape)) ++ (parentPieces none ++ bodyOf service))

theorem isPlain_gen : isPlain "gen" = true := by decide

def genPackage : Path := ⟨⟨"gen", isPlain_gen⟩, []⟩

def servicePieces (service : PrintedService) : List Piece := packagePieces (some genPackage) ++ traitOf service

/-! The text of a service, token by token. -/

theorem written_lists (lists : List (List Parameter)) :
    written (lists.flatMap (listOf Parameter.pieces)) = (String.join (lists.map listText)).toList := by
  induction lists with
  | nil => rfl
  | cons list lists ih =>
    rw [List.flatMap_cons, written_append, written_list, ih, List.map_cons, String.join_cons, String.toList_append]

theorem written_method (head : Name) (method : PrintedMethod) :
    written (methodPieces head method) ++ ['\n'] = '\n' :: (methodText head.text method).toList := by
  simp [methodPieces, methodForm, methodText, resultForm, group, Piece.chars, Lexeme.chars, openingChar, closingChar,
    Keyword.spelling, written_lists, method.result.written, lineGap]

theorem written_methods (head : Name) (methods : List PrintedMethod) :
    written (methods.flatMap (methodPieces head)) ++ ['\n'] =
      '\n' :: (String.join (methods.map (methodText head.text))).toList := by
  induction methods with
  | nil => rfl
  | cons method methods ih =>
    rw [List.flatMap_cons, written_append, List.append_assoc, ih, List.map_cons, String.join_cons, String.toList_append,
      ← List.cons_append, ← written_method, List.append_assoc]
    rfl

theorem written_effect (shape : Shape) :
    written (paramPieces (some (effectOf shape))) = ("[" ++ effectText shape ++ "]").toList := by
  cases shape <;>
    simp [effectOf, effect, future, effectText, paramPieces, Abstraction.pieces, Abstraction.inner, Abstraction.kindPieces, group, Piece.chars,
      Lexeme.chars, openingChar, closingChar]

theorem written_service (service : PrintedService) : written (servicePieces service) = (serviceText service).toList := by
  have methods := written_methods (effectOf service.shape).name service.methods
  have body : written (bodyOf service) = [' ', '\x7b'] ++
      ('\n' :: (String.join (service.methods.map (methodText (effectOf service.shape).name.text))).toList ++ ['\x7d']) := by
    rw [← methods]
    simp [bodyOf, group, Piece.chars, Lexeme.chars, openingChar, closingChar]
  have package : written (packagePieces (some genPackage)) = "package gen".toList := rfl
  have opening : written [⟨['\n', '\n'], .keyword .traitKw⟩, ⟨[' '], .name service.name⟩] =
      "\n\ntrait ".toList ++ service.name.text.toList := by
    simp [Piece.chars, Lexeme.chars, Keyword.spelling]
  have ancestor : written (parentPieces none) = [] := rfl
  rw [servicePieces, traitOf, written_append, written_append, written_append, written_append, written_effect, body, package,
    opening, ancestor]
  have front : "package gen\n\ntrait ".toList = "package gen".toList ++ "\n\ntrait ".toList := rfl
  have brace : "] \x7b\n".toList = "]".toList ++ [' ', '\x7b', '\n'] := rfl
  have last : "\x7d".toList = ['\x7d'] := rfl
  unfold serviceText
  simp only [String.toList_append, front, brace, last, List.append_assoc, List.nil_append, List.cons_append]

/-! The layout of a service. -/

theorem lastOf_lists (lists : List (List Parameter)) (last : Lexeme) :
    lastOf (some last) (lists.flatMap (listOf Parameter.pieces)) = some last ∨
      lastOf (some last) (lists.flatMap (listOf Parameter.pieces)) = some (.closer .paren) := by
  induction lists generalizing last with
  | nil => exact .inl rfl
  | cons list lists ih =>
    have ends : lastOf (some last) (listOf Parameter.pieces list) = some (.closer .paren) := by simp [listOf, group]
    rw [List.flatMap_cons, lastOf_append, ends]
    exact .inr ((ih _).elim id id)

theorem laid_result (head : Name) (type : PlainType) : Laid before (resultForm head (type.pieces [])) := by
  have inside : Laid (some (.opener .square)) (type.pieces []) := type.laid isBlank_nil (by simp)
  refine laid_cons.mpr ⟨by simp, by simp, laid_cons.mpr ⟨isBlank_nil, by simp, laid_append.mpr ⟨inside, ?_⟩⟩⟩
  exact laid_cons.mpr ⟨isBlank_nil, by simp, trivial⟩

theorem laid_method (head : Name) (method : PrintedMethod) : Laid before (methodPieces head method) := by
  have lists : Laid (some (.name method.name)) (method.lists.flatMap (listOf Parameter.pieces)) :=
    laid_flatMap (fun list _ _ => laid_list list) _
  have opening : Laid before [⟨lineGap, .keyword .defKw⟩, ⟨[' '], .name method.name⟩] :=
    laid_cons.mpr ⟨by simp [lineGap], by simp [lineGap], laid_cons.mpr ⟨by simp, by simp, trivial⟩⟩
  refine laid_append.mpr ⟨opening, laid_append.mpr ⟨lists, laid_cons.mpr ⟨isBlank_nil, fun _ last member => ?_, laid_result head method.result⟩⟩⟩
  have ends : lastOf before [⟨lineGap, .keyword .defKw⟩, ⟨[' '], .name method.name⟩] = some (.name method.name) := rfl
  rw [ends] at member
  rcases lastOf_lists method.lists (.name method.name) with same | same <;>
    · rw [same] at member
      cases member
      simp

theorem laid_service (service : PrintedService) : Laid none (servicePieces service) := by
  have methods : ∀ before, Laid before (service.methods.flatMap (methodPieces (effectOf service.shape).name)) :=
    laid_flatMap fun method _ _ => laid_method _ method
  have body : ∀ before, Laid before (bodyOf service) := by
    intro before
    refine laid_cons.mpr ⟨by simp, by simp, laid_append.mpr ⟨methods _, ?_⟩⟩
    exact laid_cons.mpr ⟨by simp, by simp, trivial⟩
  have package : Laid none (packagePieces (some genPackage)) := laid_cons.mpr ⟨isBlank_nil, by simp, laid_path⟩
  refine laid_append.mpr ⟨package, laid_append.mpr ⟨?_, laid_append.mpr ⟨laid_paramPieces, laid_append.mpr ⟨trivial, body _⟩⟩⟩⟩
  exact laid_cons.mpr ⟨by simp, by simp, laid_cons.mpr ⟨by simp, by simp, trivial⟩⟩

/-! ### Reading -/

theorem isMethod_printed (head : Name) (method : PrintedMethod) :
    IsMethod source (methodPieces head) (methodRead head) method := by
  refine ⟨⟨_, _, rfl⟩, fun offset rest sits ends => ?_⟩
  exact reads_methodForm (fun _ _ parameter _ => parameter.isParam) (method.result.nested []) (method.result.lead [])
    (solid_pieces method.result) sits ends

/-- The trait that stands at `offset`. -/
def interfaceRead (offset : Nat) (service : PrintedService) : Interface :=
  let paramOffset := offset + width [⟨['\n', '\n'], .keyword .traitKw⟩, ⟨[' '], .name service.name⟩]
  let bodyOffset := paramOffset + width (paramPieces (some (effectOf service.shape))) + width (parentPieces none)
  let methodOffset := bodyOffset + (Piece.mk [' '] (.opener .brace)).width
  { name := service.name.text
    nameSpan := reach (offset + (Piece.mk ['\n', '\n'] (.keyword .traitKw)).width) [⟨[' '], .name service.name⟩]
    span := reach offset (traitOf service)
    typeParams := [(effectOf service.shape).typeParam paramOffset]
    typeParamsSpan := some (reach paramOffset (effectOf service.shape).pieces)
    parents := []
    methods := readAll (methodPieces (effectOf service.shape).name) (methodRead (effectOf service.shape).name) methodOffset
      service.methods
    hasConcreteMembers := false
    body := some ⟨bodyOffset + byteLength [' '],
      methodOffset + width (service.methods.flatMap (methodPieces (effectOf service.shape).name)) + byteLength ['\n']⟩ }

theorem reads_trait (service : PrintedService) (sits : Sits source offset (traitOf service)) :
    ReadsAs source interface offset (traitOf service) rest (interfaceRead offset service) :=
  reads_interfaceForm sits (reads_methodsBody fun method _ => isMethod_printed _ method) fun _ => .inl rfl

/-- The outline of a printed service, but for its references. -/
def outlineRead (service : PrintedService) : Outline where
  package := packageRead (some genPackage)
  imports := []
  decls := [.interface (interfaceRead (width (packagePieces (some genPackage))) service)]
  typeRefs := []

theorem reads_service (service : PrintedService) (sits : Sits source 0 (servicePieces service)) :
    ReadsAs source Parser.outline 0 (servicePieces service) [] (outlineRead service) := by
  have behind := sits.right (packagePieces (some genPackage))
  rw [Nat.zero_add] at behind
  have ends : EndsStatement (place (0 + width (packagePieces (some genPackage))) (traitOf service)) := by
    rintro _ ⟨⟩
    exact .inr ⟨_, rfl, rfl⟩
  have clause := @reads_packageClause source 0 [] _ genPackage ends
  have trait : ReadsAs source (iterate outlineStep ⟨packageRead (some genPackage), [], [], []⟩)
      (width (packagePieces (some genPackage))) (traitOf service ++ []) [] (outlineRead service) := by
    refine .again (traitOf service) (.look (reads_eatAll_other (by simp [traitOf])) (.look reads_peek? ?_)) (by simp [traitOf])
      (.done (.glance (reads_eatAll_other (by simp)) (.glance reads_peek? .pure)))
    refine .look (reads_atPackageClause_other (by simp [traitOf])) (.look (reads_isAt_other (by simp [traitOf])) ?_)
    refine .last (.look (reads_isAt_other (by simp [traitOf])) ?_) .pure
    refine .look (reads_modifiers_bare rfl) (.look reads_peekKind? ?_)
    exact .last (reads_trait service behind) .pure
  rw [List.append_nil, ← Nat.zero_add (width (packagePieces (some genPackage)))] at trait
  rw [← List.append_nil (place _ (traitOf service))] at clause
  refine .again (packagePieces (some genPackage)) (.look (reads_eatAll_other (by simp [packagePieces]))
    (.look reads_peek? ?_)) (by simp [packagePieces]) trait
  exact .look (.look (reads_isAt rfl) (.look reads_secondKind? .pure)) (.last clause .pure)

/-! ### What is read -/

/-- The parameters were printed, and no mark in front of them. -/
structure RecoveredList (printed : List Parameter) (list : ParamList) : Prop where
  unmarked : list.isImplicit = false ∧ list.isUsing = false
  params : list.params = printed.map Parameter.param

/-- The method has the name, the parameter lists and the result that were printed. -/
structure Recovered (head : String) (printed : PrintedMethod) (method : Method) : Prop where
  name : method.name = printed.name.text
  typeParams : method.typeParams = [] ∧ method.typeParamsText = none
  lists : List.Forall₂ RecoveredList printed.lists method.params
  result : ∃ result, method.result = some result ∧ result.head = head ∧ result.arg = some printed.result.text

theorem recovered_read (head : Name) (offset : Nat) (printed : PrintedMethod) :
    Recovered head.text printed (methodRead head offset printed) := by
  refine ⟨rfl, ⟨rfl, rfl⟩, related_readAll (fun list _ offset => ⟨⟨rfl, rfl⟩, rfl⟩) _, _, rfl, rfl, ?_⟩
  rw [resultAt, body_pieces, String.ofList_toList]

/-- The trait is the printed one: an interface over the type parameter, with the printed
methods in their order and without other members. -/
structure RecoveredTrait (printed : PrintedService) (interface : Interface) : Prop where
  name : interface.name = printed.name.text
  typeParams : interface.typeParams.map (fun param => (param.name, param.kind)) =
    [((effectOf printed.shape).name.text, (effectOf printed.shape).kind)]
  parents : interface.parents = []
  abstract : interface.hasConcreteMembers = false
  methods : List.Forall₂ (Recovered (effectOf printed.shape).name.text) printed.methods interface.methods

/-- Reading a printed service gives back what was printed, and nothing else. -/
theorem parse_printed (service : PrintedService) (newlines : Nat) :
    ∃ outline interface,
      Outline.parse ((serviceText service).toList ++ List.replicate newlines '\n') = .ok outline ∧
      outline.packageName = ⟨["gen"]⟩ ∧ outline.imports = [] ∧ outline.decls = [.interface interface] ∧
      RecoveredTrait service interface := by
  have blank : IsBlank (List.replicate newlines '\n') := fun _ member => .inr (List.eq_of_mem_replicate member)
  have sits : Sits (written (servicePieces service) ++ List.replicate newlines '\n') 0 (servicePieces service) :=
    ⟨[], _, rfl, rfl⟩
  have read := reads_service service sits
  have parsed : Outline.parse (written (servicePieces service) ++ List.replicate newlines '\n') = .ok
      { outlineRead service with typeRefs := TypeRef.collect (place 0 (servicePieces service)) (outlineRead service).decls } := by
    rw [ReadsAs, List.append_nil] at read
    rw [Outline.parse, scan_written (laid_service service) blank]
    show (onTokens Parser.outline _ _ >>= _) = _
    rw [onTokens, read]
    rfl
  rw [← written_service]
  refine ⟨_, _, parsed, rfl, rfl, rfl, rfl, rfl, rfl, rfl, ?_⟩
  exact related_readAll (fun method _ offset => recovered_read _ offset method) _

end KindLift.PrintedServices
