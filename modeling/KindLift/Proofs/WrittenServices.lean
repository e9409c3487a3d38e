import KindLift.Proofs.WrittenNesting

/-! Services as they are written: a trait of one of the shapes, and the object beside it.
What an object lacks, what is added to it, and what it is then. -/
namespace KindLift.WrittenServices
open Token Text TextBoundary TokenPlacement KindLift.Parser WrittenTokens WrittenReading WrittenGroups WrittenTraits
open WrittenObjects WrittenUnits WrittenTemplates WrittenInstances WrittenNesting

variable {source gap : List Char} {offset : Nat}

/-! ### Services -/

def future : Name := ⟨"Future", by decide⟩

def option : Name := ⟨"Option", by decide⟩

def thriftService : Name := ⟨"ThriftService", by decide⟩

/-- The type parameter of a trait, by the shape of the service it declares. -/
def paramOf : Option Shape → Option Abstraction
  | none => none
  | some .legacy => some ⟨future, .proper⟩
  | some .modern => some ⟨effect, .higherKinded⟩

/-- The parent of a trait. -/
def ancestorOf : Option Shape → Option Ancestor
  | some .legacy => some ⟨⟨thriftService, []⟩, none⟩
  | _ => none

/-- What the methods of a trait return. -/
def headOf : Option Shape → Name
  | none => option
  | some .legacy => future
  | some .modern => effect

/-- A trait of one of the shapes of a service, or of none, and the object beside it,
which may do without a body. The object does not map the service yet, and reads it
at most once. -/
structure Specimen where
  name : Name
  shape : Option Shape
  signatures : List Signature
  nonempty : signatures ≠ []
  object : Option (Option (List Definition))
  unmapped : ∀ inside ∈ object, ∀ definitions ∈ inside, ∀ definition ∈ definitions,
    definition.name ≠ functorKName name
  readOnce : ∀ inside ∈ object, ∀ definitions ∈ inside,
    (definitions.filter fun definition => definition.name = readerTName name).length ≤ 1

namespace Specimen

/-- The methods of the trait. -/
def methods (specimen : Specimen) : List Signature := specimen.signatures.map (headed (headOf specimen.shape))

def trait (specimen : Specimen) : Trait :=
  ⟨specimen.name, paramOf specimen.shape, ancestorOf specimen.shape, some specimen.methods⟩

/-- The definitions in the object. -/
def definitions (specimen : Specimen) : List Definition := (specimen.object.bind id).getD []

/-- A body with the given entries. Without any the braces stand on one line. -/
def insideOf (entries : List Entry) : Inside :=
  ⟨spread ('\n' :: step) emptyLine entries, if entries.isEmpty then [] else ['\n']⟩

/-- The object as it is beside the trait. -/
def holder? (specimen : Specimen) : Option Object :=
  specimen.object.map fun inside => ⟨specimen.name, inside.map fun definitions => insideOf (definitions.map .defined)⟩

/-- The instances that the object lacks. -/
def missing (specimen : Specimen) : List Definition :=
  (if specimen.definitions.any fun definition => definition.name = readerTName specimen.name then []
    else [readerDefinition specimen.name specimen.methods]) ++ [functorDefinition specimen.name specimen.methods]

/-- The interface that is moved into the object. -/
def relocated (specimen : Specimen) : List Entry :=
  if specimen.shape = some .legacy then [.nested (nested specimen.trait specimen.methods)] else []

/-- What is added to the object. -/
def added (specimen : Specimen) : List Entry := specimen.relocated ++ specimen.missing.map .defined

/-- The trait that takes the place of the service. -/
def aliased (specimen : Specimen) : Trait :=
  ⟨specimen.name, none, some ⟨⟨specimen.name, [specimen.name]⟩, some future⟩, none⟩

/-- The object with everything it lacks. -/
def extended (specimen : Specimen) : Object :=
  ⟨specimen.name, some (insideOf (specimen.definitions.map .defined ++ specimen.added.map movedEntry))⟩

/-- The declarations of the specimen. -/
def decls (specimen : Specimen) : List Declaration :=
  .trait specimen.trait :: specimen.holder?.toList.map .object

/-- The declarations when the service has its instances. -/
def migrated (specimen : Specimen) : List Declaration :=
  match specimen.shape with
  | none => specimen.decls
  | some .legacy => [.trait specimen.aliased, .object specimen.extended]
  | some .modern => [.trait specimen.trait, .object specimen.extended]

/-- The interface of the specimen at `offset`. -/
def interface (gap : List Char) (offset : Nat) (specimen : Specimen) : Interface := specimen.trait.interface gap [] offset

/-- Where the object begins. -/
def holderOffset (gap : List Char) (offset : Nat) (specimen : Specimen) : Nat :=
  offset + width (specimen.trait.pieces gap [])

/-- The object behind the interface at `offset`. -/
def holder (gap : List Char) (offset : Nat) (specimen : Specimen) : Option Holder :=
  specimen.holder?.map (Object.holder ['\n', '\n'] (specimen.holderOffset gap offset))

end Specimen

variable {specimen : Specimen}

/-! ### What is missing -/

theorem name_eq_iff {first second : Name} : first = second ↔ first.text = second.text := by
  constructor
  · rintro rfl
    rfl
  · intro same
    cases first
    cases second
    cases same
    rfl

/-- The name that an entry gives to its member. -/
def entryName : Entry → String
  | .nested trait => trait.name.text
  | .defined definition => definition.name.text

theorem entriesAt_names (entries : List (List Char × Entry)) (offset : Nat) :
    (entriesAt step offset entries).map (fun entry => entry.1.name) = (entries.map Prod.snd).map entryName := by
  rw [List.map_map]
  refine map_readAll (fun entry _ offset => ?_) offset
  obtain ⟨gap, nested | defined⟩ := entry <;> rfl

/-- The members of the object are its definitions. -/
theorem members_names (specimen : Specimen) (gap : List Char) (offset : Nat) :
    ∀ holder ∈ specimen.holder gap offset, holder.members.map Member.name =
      specimen.definitions.map fun definition => definition.name.text := by
  intro holder found
  unfold Specimen.holder Specimen.holder? at found
  unfold Specimen.definitions
  cases object : specimen.object with
  | none =>
    rw [object] at found
    cases found
  | some inside =>
    rw [object] at found
    cases found
    cases inside with
    | none => rfl
    | some definitions =>
      have plain := spread_snd ('\n' :: step) emptyLine (definitions.map Entry.defined)
      simp only [Object.holder, Object.entriesRead, Option.map_some, Inside.readOptional, Inside.read, List.map_map,
        Function.comp_def, entriesAt_names, Specimen.insideOf, plain]
      rfl

/-- An instance is bound when a definition has its name. -/
theorem isBound_eq {specimen : Specimen} {gap : List Char} {offset : Nat} {service : Service} {place : Nat}
    (beside : service.holder = (specimen.holder gap offset).map (place, ·)) (name : Name) :
    AddInstances.isBound service name.text = specimen.definitions.any fun definition => definition.name = name := by
  have same : ∀ definition : Definition, decide (definition.name.text = name.text) = decide (definition.name = name) :=
    fun definition => decide_eq_decide.mpr name_eq_iff.symm
  rw [AddInstances.isBound, beside]
  cases found : specimen.holder gap offset with
  | none =>
    have none : specimen.definitions = [] := by
      unfold Specimen.holder Specimen.holder? at found
      simp only [Option.map_map, Option.map_eq_none_iff] at found
      rw [Specimen.definitions, found]
      rfl
    rw [none]
    rfl
  | some holder =>
    have names := members_names specimen gap offset holder found
    have byName := congrArg (fun names => names.any fun found => decide (found = name.text)) names
    simp only [List.any_map, Function.comp_def, same] at byName
    exact byName

theorem readerTName_ne_functorKName (name : Name) : readerTName name ≠ functorKName name := by
  intro same
  have texts : name.text ++ "ReaderT" = name.text ++ "FunctorK" := congrArg Name.text same
  exact absurd (String.append_right_inj name.text |>.mp texts) (by decide)

namespace Specimen

theorem unmapped_any (specimen : Specimen) :
    (specimen.definitions.any fun definition => definition.name = functorKName specimen.name) = false := by
  rw [List.any_eq_false]
  intro definition member
  have unmapped := specimen.unmapped
  unfold definitions at member
  cases object : specimen.object with
  | none =>
    rw [object] at member
    cases member
  | some inside =>
    cases inside with
    | none =>
      rw [object] at member
      cases member
    | some definitions =>
      rw [object] at member
      simpa using unmapped _ object definitions rfl definition member

end Specimen

/-- The instances that are found missing, and their texts. -/
theorem missingInstances_eq {specimen : Specimen} {service : Service} {place : Nat}
    (at' : service.interface = specimen.interface gap offset)
    (beside : service.holder = (specimen.holder gap offset).map (place, ·)) :
    (AddInstances.missingInstances .default service).map Prod.fst = specimen.missing.map (fun definition => definition.name.text) ∧
      List.Forall₂ Renders ((AddInstances.missingInstances .default service).map Prod.snd) (specimen.missing.map .defined) := by
  have named : service.interface.name = specimen.name.text := by rw [at']; rfl
  have methods : service.interface.methods = methodsAt ['\n', ' ', ' ']
      (specimen.trait.bodyOffset gap offset + (Piece.mk [' '] (.opener .brace)).width) specimen.methods := by
    rw [at']
    rfl
  have reader : AddInstances.isBound service (Template.readerTBinding specimen.name.text) =
      specimen.definitions.any fun definition => definition.name = readerTName specimen.name :=
    isBound_eq beside (readerTName specimen.name)
  have functor : AddInstances.isBound service (Template.functorKBinding specimen.name.text) = false :=
    (isBound_eq beside (functorKName specimen.name)).trans specimen.unmapped_any
  have renders := renders_readerT specimen.name specimen.methods ['\n', ' ', ' ']
    (specimen.trait.bodyOffset gap offset + (Piece.mk [' '] (.opener .brace)).width)
  have renders' := renders_functorK specimen.name specimen.methods ['\n', ' ', ' ']
    (specimen.trait.bodyOffset gap offset + (Piece.mk [' '] (.opener .brace)).width)
  simp only [AddInstances.missingInstances, named, methods, List.filter_cons, reader, functor, List.filter_nil, Specimen.missing]
  cases specimen.definitions.any fun definition => definition.name = readerTName specimen.name with
  | true => exact ⟨rfl, .cons renders' .nil⟩
  | false => exact ⟨rfl, .cons renders (.cons renders' .nil)⟩

end KindLift.WrittenServices
