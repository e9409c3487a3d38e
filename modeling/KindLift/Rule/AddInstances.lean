import KindLift.Rule
import KindLift.Service.Phase
import KindLift.Service.Template

/-! The rule that gives every service its instances. A legacy service is moved
into its object as a higher-kinded interface, and an alias takes its place; the
instances a service lacks are added to its object, which is created if need be;
the names they use are imported. -/
namespace KindLift.AddInstances

def ruleName : String := "add-instances"

/-- What is to be done for one service. -/
structure Plan where
  service : Service
  phase : Phase
  bindings : List String
  edits : List Edit

/-- Entries of an object, indented, with empty lines between them. -/
def renderEntries (entries : List String) (indent : String) : String :=
  String.intercalate "\n\n" (entries.map (Template.indentBlock · indent))

/-- A new object for an interface, indented as the interface is. -/
def newHolder? (source : List Char) (interface : Interface) (entries : List String) :
    Option String := do
  let indent ← Template.lineIndent? source interface.span.start
  return indent ++ "object " ++ interface.name ++ " \x7b\n" ++ renderEntries entries (indent ++ "  ") ++
    "\n" ++ indent ++ "\x7d"

/-- Members are indented as the first one is, or else one step further than the
object. -/
def memberIndent? (source : List Char) (holderIndent : String) : List Member → Option String
  | [] => some (holderIndent ++ "  ")
  | first :: _ => Template.lineIndent? source first.span.start

/-- The edit that adds rendered entries at the end of a body. A closing brace on a
line of its own stays there. -/
def extendBody? (source : List Char) (body : Body) (holderIndent rendered : String) : Option Edit := do
  let left ← Text.takeBytes? body.closeBrace source
  let line := Text.lastLine left
  let lineStart := body.closeBrace - Text.byteLength line
  if body.openBrace < lineStart && Text.isBlank line then
    let inner ← body.inner? source
    let separator := if Text.isBlank inner then "" else "\n"
    return .insertion lineStart (separator ++ rendered ++ "\n")
  else return .insertion body.closeBrace ("\n" ++ rendered ++ "\n" ++ holderIndent)

/-- The edit that adds entries at the end of an object, which gets a body if it
has none. -/
def extendHolder? (source : List Char) (holder : Holder) (entries : List String) : Option Edit := do
  let holderIndent ← Template.lineIndent? source holder.span.start
  let memberIndent ← memberIndent? source holderIndent holder.members
  let rendered := renderEntries entries memberIndent
  match holder.body with
  | none => return .insertion holder.span.stop (" \x7b\n" ++ rendered ++ "\n" ++ holderIndent ++ "\x7d")
  | some body => extendBody? source body holderIndent rendered

/-- The object of the service has the member already. -/
def isBound (service : Service) (binding : String) : Bool :=
  service.holder.any fun (_, holder) => holder.hasMember binding

/-- The instances a service lacks: the member's name and its definition. -/
def missingInstances (conventions : Conventions) (service : Service) : List (String × String) :=
  let name := service.interface.name
  let methods := service.interface.methods
  [(Template.readerTBinding name, Template.readerT name methods conventions),
   (Template.functorKBinding name, Template.functorK name methods conventions)].filter
    fun (binding, _) => !isBound service binding

/-- The interface that stands in for a relocated one. -/
def aliasText (conventions : Conventions) (name : String) : String :=
  "trait " ++ name ++ " extends " ++ name ++ "." ++ name ++ "[" ++ conventions.asyncType ++ "]"

/-- The edits that put entries into the object of a service, relocating the
interface when the phase says so. -/
def edits? (source : List Char) (conventions : Conventions) (service : Service) (phase : Phase)
    (entries : List String) : Option (List Edit) := do
  let interface := service.interface
  if phase.relocates then
    let replacement := aliasText conventions interface.name
    match service.holder with
    | some (_, holder) =>
      return [← Edit.replace? interface.span.start interface.span.stop replacement,
        ← extendHolder? source holder entries]
    | none =>
      let created ← newHolder? source interface entries
      return [← Edit.replace? interface.span.start interface.span.stop
        (replacement ++ "\n\n" ++ created)]
  else if entries.isEmpty then return []
  else match service.holder with
    | some (_, holder) => return [← extendHolder? source holder entries]
    | none => return [.insertion interface.span.stop ("\n\n" ++ (← newHolder? source interface entries))]

/-- The interface as an entry of its object, when the phase says so. -/
def relocatedEntry? (source : List Char) (conventions : Conventions) (interface : Interface)
    (phase : Phase) : Option (List String) :=
  if phase.relocates then (Template.nestedInterface? source interface conventions).map ([·])
  else some []

/-- The plan for one service. -/
def plan? (source : List Char) (conventions : Conventions) (service : Service) : Option Plan := do
  let phase := (Phase.ofService service).advance
  let relocated ← relocatedEntry? source conventions service.interface phase
  let missing := missingInstances conventions service
  let edits ← edits? source conventions service phase (relocated ++ missing.map Prod.snd)
  return ⟨service, phase.advance, missing.map Prod.fst, edits⟩

/-- The plans for all services of a unit. -/
def plans (conventions : Conventions) (unit : SourceUnit) : Except RuleError (List Plan) := do
  (← Service.findAll unit conventions).mapM fun service =>
    match plan? unit.text.toList conventions service with
    | some plan => .ok plan
    | none => .error (.brokenSpan unit.id)

/-- The library names that no import of the unit makes visible. -/
def missingImports (conventions : Conventions) (imports : List Import) : List DottedName :=
  conventions.imports.all.filter fun name => !imports.any (·.imports name)

/-- The edit that imports the missing names: after the last import, or else after
the package clause, or else at the beginning. -/
def importEdit? (conventions : Conventions) (outline : Outline) : Option Edit :=
  match missingImports conventions outline.imports with
  | [] => none
  | missing =>
    let lines := String.intercalate "\n" (missing.map fun name => "import " ++ name.render)
    match (outline.imports.map fun clause => clause.span.stop).max? with
    | some last => some (.insertion last ("\n" ++ lines))
    | none =>
      match outline.package with
      | some clause => some (.insertion clause.span.stop ("\n\n" ++ lines))
      | none => some (.insertion 0 (lines ++ "\n\n"))

/-- All edits of the rule: those of the plans, then the import if an instance was
added. -/
def editSet (conventions : Conventions) (unit : SourceUnit) : Except RuleError EditSet := do
  let plans ← plans conventions unit
  let imports := if plans.any fun plan => !plan.bindings.isEmpty then
      (importEdit? conventions unit.outline).toList
    else []
  Rule.validated ruleName unit (plans.flatMap Plan.edits ++ imports)

def rule (conventions : Conventions) : Rule := ⟨ruleName, true, editSet conventions⟩

end KindLift.AddInstances
