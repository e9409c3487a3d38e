import KindLift.Decl
import KindLift.Service.Conventions

/-! The code that is generated for a service. -/
namespace KindLift.Template

def readerTBinding (service : String) : String := service ++ "ReaderT"

def functorKBinding (service : String) : String := service ++ "FunctorK"

structure RenderedParam where
  name : String
  type : String
  isRepeated : Bool
deriving DecidableEq, Repr

structure RenderedList where
  isImplicit : Bool
  isUsing : Bool
  params : List RenderedParam
deriving DecidableEq, Repr

/-- Gives the parameters names, of which `anonymous` have been made up before,
and returns how many have been made up after. -/
def nameParams (anonymous : Nat) : List Param → List RenderedParam × Nat
  | [] => ([], anonymous)
  | param :: rest =>
    if param.name = "_" then
      let (others, total) := nameParams (anonymous + 1) rest
      (⟨"ev" ++ toString (anonymous + 1), param.type, param.isRepeated⟩ :: others, total)
    else
      let (others, total) := nameParams anonymous rest
      (⟨param.name, param.type, param.isRepeated⟩ :: others, total)

/-- Made-up names count through all lists of a method. -/
def nameLists (anonymous : Nat) : List ParamList → List RenderedList
  | [] => []
  | list :: rest =>
    let (params, total) := nameParams anonymous list.params
    ⟨list.isImplicit, list.isUsing, params⟩ :: nameLists total rest

/-- The parameter lists of a method with all parameters named. -/
def renderedLists (method : Method) : List RenderedList := nameLists 0 method.params

/-- A parameter list as it is declared. -/
def declareList (list : RenderedList) : String :=
  let mark := if list.isUsing then "using " else if list.isImplicit then "implicit " else ""
  "(" ++ mark ++
    String.intercalate ", " (list.params.map fun param => param.name ++ ": " ++ param.type) ++ ")"

/-- The declaration of a method with the given result type. -/
def signature (method : Method) (lists : List RenderedList) (result : String) : String :=
  "def " ++ method.name ++
    (match method.typeParamsText with
      | some text => "[" ++ text ++ "]"
      | none => "") ++
    String.join (lists.map declareList) ++ ": " ++ result

/-- A parameter list as it is passed on. -/
def passList (list : RenderedList) : String :=
  "(" ++ (if list.isUsing then "using " else "") ++
    String.intercalate ", " (list.params.map fun param =>
      if param.isRepeated then param.name ++ ": _*" else param.name) ++ ")"

/-- The call that passes all parameters on to `receiver`. -/
def call (receiver : String) (method : Method) (lists : List RenderedList) : String :=
  receiver ++ "." ++ method.name ++
    (if method.typeParams.isEmpty then ""
      else "[" ++ String.intercalate ", " (method.typeParams.map TypeParam.name) ++ "]") ++
    String.join (lists.map passList)

/-- What a method computes under the effect. -/
def resultArg (method : Method) : String := (method.result.bind ResultType.arg).getD "Unit"

/-- The instance that reads the service from its environment. -/
def readerT (service : String) (methods : List Method) (conventions : Conventions) : String :=
  let f := conventions.effectParam
  let reader := conventions.imports.readerTName
  let reads (result : String) := reader ++ "[" ++ f ++ ", " ++ service ++ "[" ++ f ++ "], " ++ result ++ "]"
  let applied := service ++ "[" ++ reads "*" ++ "]"
  let member (method : Method) :=
    let lists := renderedLists method
    "  " ++ signature method lists (reads (resultArg method)) ++ " = " ++ reader ++ "(" ++
      call "_" method lists ++ ")\n"
  "implicit def " ++ readerTBinding service ++ "[" ++ f ++ "[_]]: " ++ applied ++ " = new " ++
    applied ++ " \x7b\n" ++ String.join (methods.map member) ++ "\x7d"

/-- A method of the mapped service: it passes its parameters on to the same method of
the value called `receiver` and applies the value called `transformation` to the result. -/
structure MappedMethod where
  method : Method
  lists : List RenderedList
  result : String
  transformation : String
  receiver : String

def MappedMethod.render (mapped : MappedMethod) : String :=
  "    " ++ signature mapped.method mapped.lists mapped.result ++ " = " ++ mapped.transformation ++ "(" ++
    call mapped.receiver mapped.method mapped.lists ++ ")\n"

/-- The function that maps the service: what its two parameters are called, the service
and the transformation, and the methods of the instance that it makes. -/
structure Mapping where
  receiver : String
  transformation : String
  methods : List MappedMethod

/-- The effect that the service is mapped to. -/
def mappedEffect (conventions : Conventions) : String := if conventions.effectParam = "G" then "H" else "G"

/-- The parameters of the mapping function, and what each method does with them. -/
def mapping (methods : List Method) (conventions : Conventions) : Mapping where
  receiver := "af"
  transformation := "fk"
  methods := methods.map fun method =>
    { method := method
      lists := renderedLists method
      result := mappedEffect conventions ++ "[" ++ resultArg method ++ "]"
      transformation := "fk"
      receiver := "af" }

/-- The mapping function as it is written. -/
def Mapping.render (mapping : Mapping) (service : String) (conventions : Conventions) : String :=
  let f := conventions.effectParam
  let g := mappedEffect conventions
  let target := service ++ "[" ++ g ++ "]"
  "  def mapK[" ++ f ++ "[_], " ++ g ++ "[_]](" ++ mapping.receiver ++ ": " ++ service ++ "[" ++ f ++ "])(" ++
    mapping.transformation ++ ": " ++ f ++ " " ++ conventions.imports.arrowName ++ " " ++ g ++ "): " ++ target ++
    " = new " ++ target ++ " \x7b\n" ++ String.join (mapping.methods.map MappedMethod.render) ++ "  \x7d\n"

/-- The instance that maps the service along a natural transformation. -/
def functorK (service : String) (methods : List Method) (conventions : Conventions) : String :=
  let functor := conventions.imports.functorKName ++ "[" ++ service ++ "]"
  "implicit val " ++ functorKBinding service ++ ": " ++ functor ++ " = new " ++ functor ++ " \x7b\n" ++
    (mapping methods conventions).render service conventions ++ "\x7d"

/-- The text from `cursor` to `stop` with each of the given ranges replaced. -/
def substitute (source : List Char) (replacement : List Char) (cursor stop : Nat) :
    List Span → Option (List Char)
  | [] => Text.slice? source cursor stop
  | range :: rest => do
    let gap ← Text.slice? source cursor range.start
    let later ← substitute source replacement range.stop stop rest
    return gap ++ replacement ++ later

/-- The heads of the result types in source order. -/
def resultHeads (methods : List Method) : List Span :=
  ((methods.filterMap Method.result).map ResultType.headSpan).filter (fun span => span.start < span.stop)
    |>.mergeSort fun a b => a.start < b.start || (a.start = b.start && a.stop ≤ b.stop)

/-- A last line of blanks keeps its line feed only. -/
def emptyBlankLastLine (chars : List Char) : List Char :=
  if chars.contains '\n' && Text.isBlank (Text.lastLine chars) then
    chars.take (chars.length - (Text.lastLine chars).length)
  else chars

/-- The clause that names the parents, as it is written in the source. -/
def extendsText? (source : List Char) (parents : List Parent) : Option String :=
  match parents.head?, parents.getLast? with
  | some first, some last =>
    (Text.slice? source first.span.start last.span.stop).map fun text =>
      " extends " ++ String.ofList text
  | _, _ => some ""

/-- The interface as it is nested in its object: over the effect parameter, with
its parents, and with every result head replaced. There is none when a span does
not address the source. -/
def nestedInterface? (source : List Char) (interface : Interface) (conventions : Conventions) :
    Option String := do
  let f := conventions.effectParam
  let parents ← extendsText? source interface.parents
  let header := "trait " ++ interface.name ++ "[" ++ f ++ "[_]]" ++ parents
  match interface.body with
  | none => return header
  | some body =>
    let inner ← substitute source f.toList (body.openBrace + 1) body.closeBrace
      (resultHeads interface.methods)
    return header ++ " \x7b" ++ String.ofList (emptyBlankLastLine inner) ++ "\x7d"

/-- Every line that is not blank moved in; blank lines become empty. -/
def indentLines (indent : List Char) (chars : List Char) : List Char :=
  Text.joinWith '\n' ((Text.splitOn '\n' chars).map fun line =>
    if Text.isBlank line then [] else indent ++ line)

def indentBlock (text indent : String) : String :=
  String.ofList (indentLines indent.toList text.toList)

/-- The spaces and tabs that the line around an offset begins with. -/
def lineIndent? (source : List Char) (offset : Nat) : Option String := do
  let left ← Text.takeBytes? offset source
  let right ← Text.dropBytes? offset source
  return String.ofList ((Text.lastLine left ++ right).takeWhile fun c => c = ' ' || c = '\t')

end KindLift.Template
