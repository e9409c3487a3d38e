import KindLift.Proofs.WrittenMigration

/-! What a migrated unit declares. Under the name of a specimen there stand the
declarations that the specimen is migrated to, and the imports of the unit show every
name that its instances use. -/
namespace KindLift.WrittenOutcomes
open Token Text RuleSafety WrittenTokens WrittenReading WrittenGroups WrittenTraits WrittenObjects WrittenUnits WrittenTemplates
open WrittenInstances WrittenNesting WrittenServices WrittenPlans WrittenMatching WrittenImports WrittenMigration

variable {source tail : List Char} {offset : Nat} {package : Option Path} {imports : List Line} {specimens : List Specimen}
  {specimen : Specimen} {declaration : Declaration} {decl : Decl}

/-! ### What is compared -/

/-- The declarations of a name. -/
def declared (unit : SourceUnit) (name : String) : List Decl :=
  unit.outline.decls.filter fun decl => decl.name? = some name

/-- The text of a declaration. -/
def declText (unit : SourceUnit) (decl : Decl) : List Char := decl.span.chars unit.text.toList

/-- A method but for its places and the head of its result. -/
def methodFacts (method : Method) : String × List (Bool × Bool × List Param) × Option String :=
  (method.name, method.params.map fun list => (list.isImplicit, list.isUsing, list.params), method.result.bind ResultType.arg)

/-- A member but for its place. -/
def memberFacts (member : Member) : String × MemberKind × Bool := (member.name, member.kind, member.isImplicit)

/-- The object has both instances, once each, behind the members it had before. -/
structure Instantiates (name : String) (before : List Decl) (object : Holder) : Prop where
  readerT : (object.members.map Member.name).count (Template.readerTBinding name) = 1
  functorK : (object.members.map Member.name).count (Template.functorKBinding name) = 1
  kept : ∀ former, .holder former ∈ before → former.members.map memberFacts <+: object.members.map memberFacts

/-- The object nests one trait of the name: the given one, over the effect. -/
structure Relocates (name : String) (interface : Interface) (object : Holder) : Prop where
  nested : ∃ nested, (object.nested.filter fun trait => trait.name = name) = [nested] ∧
    nested.typeParams.map TypeParam.kind = [.higherKinded] ∧
    nested.methods.map methodFacts = interface.methods.map methodFacts ∧
    ∀ method ∈ nested.methods, method.returnsApplied "F" = true

/-- What becomes of the declarations of a name, by the shape of the trait among them. -/
def Becomes (before after : SourceUnit) (name : String) : Option Shape → Prop
  | none => (∃ interface others, declared before name = .interface interface :: others) ∧
      List.Forall₂ (fun decl decl' => declText after decl' = declText before decl) (declared before name) (declared after name)
  | some .legacy => ∃ interface others standIn object, declared before name = .interface interface :: others ∧
      declared after name = [.interface standIn, .holder object] ∧ standIn.typeParams = [] ∧
      Relocates name interface object ∧ Instantiates name (declared before name) object
  | some .modern => ∃ interface others trait object, declared before name = .interface interface :: others ∧
      declared after name = [.interface trait, .holder object] ∧
      declText after (.interface trait) = declText before (.interface interface) ∧
      Instantiates name (declared before name) object

/-! ### Declarations where they are written -/

/-- The declaration is read where it is written. -/
def ReadFrom (source : List Char) (declaration : Declaration) (decl : Decl) : Prop :=
  ∃ gap offset, Sits source offset (declaration.pieces gap) ∧ decl = declaration.decl gap offset

def declarationName : Declaration → Name
  | .trait trait => trait.name
  | .object object => object.name

theorem ReadFrom.name? (read : ReadFrom source declaration decl) : decl.name? = some (declarationName declaration).text := by
  obtain ⟨gap, offset, -, rfl⟩ := read
  cases declaration <;> rfl

/-- A declaration without the blanks in front of it. -/
theorem ReadFrom.chars (read : ReadFrom source declaration decl) : decl.span.chars source = body (declaration.pieces []) := by
  obtain ⟨gap, offset, sits, rfl⟩ := read
  cases declaration <;> exact chars_reach sits

theorem declsAt_readFrom {decls : List (List Char × Declaration)} (sits : Sits source offset (declPieces decls)) :
    List.Forall₂ (ReadFrom source) (decls.map Prod.snd) (declsAt offset decls) := by
  induction decls generalizing offset with
  | nil => exact .nil
  | cons decl decls ih => exact .cons ⟨decl.1, offset, sits.left (decl.2.pieces decl.1), rfl⟩ (ih (sits.right (decl.2.pieces decl.1)))

/-- The declarations of a name are those that are written under it. -/
theorem declared_written {unit : Written} (laid : unit.IsLaid) (blank : IsBlank tail) (id : UnitId) (name : String) :
    List.Forall₂ (ReadFrom (written unit.pieces ++ tail))
      ((unit.decls.map Prod.snd).filter fun declaration => (declarationName declaration).text = name)
      (declared (.load .empty id (textOf unit tail)) name) := by
  obtain ⟨references, scope, loaded⟩ := load_written laid blank id
  have sits : Sits (written unit.pieces ++ tail) 0 unit.pieces := ⟨[], tail, rfl, rfl⟩
  have behind := (sits.right _).right _
  rw [Nat.zero_add] at behind
  rw [declared, textOf, loaded]
  refine List.rel_filter (fun declaration decl read => ?_) (declsAt_readFrom behind)
  simp [read.name?]

theorem decls_assemble (decls : List Declaration) : (assemble package imports decls).decls.map Prod.snd = decls :=
  spread_snd _ _ decls

theorem name_decls (specimen : Specimen) : ∀ declaration ∈ specimen.decls,
    (declarationName declaration).text = specimen.name.text := by
  refine List.forall_mem_cons.mpr ⟨rfl, fun declaration member => ?_⟩
  obtain ⟨object, found, rfl⟩ := List.mem_map.mp member
  obtain ⟨inside, -, rfl⟩ := Option.map_eq_some_iff.mp (Option.mem_toList.mp found)
  rfl

theorem name_migrated (specimen : Specimen) : ∀ declaration ∈ specimen.migrated,
    (declarationName declaration).text = specimen.name.text := by
  unfold Specimen.migrated
  split
  · exact name_decls specimen
  · simp [declarationName, Specimen.aliased, Specimen.extended]
  · simp [declarationName, Specimen.trait, Specimen.extended]

section Units

variable (distinct : (specimens.map fun specimen => specimen.name.text).Nodup) (listed : specimen ∈ specimens)
include distinct listed

/-- Before the migration a specimen's name has the declarations of the specimen. -/
theorem declared_unitOf (blank : IsBlank tail) (id : UnitId) :
    List.Forall₂ (ReadFrom (textOf (unitOf package imports specimens) tail).toList) specimen.decls
      (declared (.load .empty id (textOf (unitOf package imports specimens) tail)) specimen.name.text) := by
  have read := declared_written (laid_unitOf package imports specimens) blank id specimen.name.text
  rw [unitOf, decls_assemble, filter_named (fun specimen => specimen.name.text) Specimen.decls
    (fun declaration => (declarationName declaration).text) (fun specimen _ => name_decls specimen) distinct listed] at read
  rwa [textOf, String.toList_ofList]

/-- After the migration it has the migrated ones. -/
theorem declared_migratedOf (blank : IsBlank tail) (id : UnitId) :
    List.Forall₂ (ReadFrom (textOf (migratedOf package imports specimens) tail).toList) specimen.migrated
      (declared (.load .empty id (textOf (migratedOf package imports specimens) tail)) specimen.name.text) := by
  have read := declared_written (laid_migratedOf package imports specimens) blank id specimen.name.text
  rw [migratedOf, decls_assemble, filter_named (fun specimen => specimen.name.text) Specimen.migrated
    (fun declaration => (declarationName declaration).text) (fun specimen _ => name_migrated specimen) distinct listed] at read
  rwa [textOf, String.toList_ofList]

end Units

/-! ### Members -/

def entryFacts : Entry → String × MemberKind × Bool
  | .nested trait => (trait.name.text, .interface, false)
  | .defined definition => (definition.name.text, definition.kind, definition.isImplicit)

/-- The members of an object with the given entries. -/
theorem members_insideOf (name : Name) (entries : List Entry) (gap : List Char) (offset : Nat) :
    ((Object.mk name (some (Specimen.insideOf entries))).holder gap offset).members.map memberFacts = entries.map entryFacts := by
  have facts : ∀ offset, (entriesAt step offset (spread ('\n' :: step) emptyLine entries)).map (fun entry => memberFacts entry.1) =
      (spread ('\n' :: step) emptyLine entries).map fun entry => entryFacts entry.2 := by
    refine map_readAll fun entry _ offset => ?_
    obtain ⟨gap, nested | defined⟩ := entry <;> rfl
  have plain : ((spread ('\n' :: step) emptyLine entries).map Prod.snd).map entryFacts = entries.map entryFacts := by
    rw [spread_snd]
  rw [List.map_map] at plain
  rw [Object.holder, List.map_map]
  exact (facts _).trans plain

def entryTrait : Entry → Option Trait
  | .nested trait => some trait
  | .defined _ => none

/-- The traits that are nested in an object with the given entries. -/
theorem nested_insideOf (name : Name) (entries : List Entry) (gap : List Char) (offset : Nat) :
    List.Forall₂ (fun trait interface => ∃ gap offset, interface = trait.interface gap step offset) (entries.filterMap entryTrait)
      ((Object.mk name (some (Specimen.insideOf entries))).holder gap offset).nested := by
  have each : ∀ (items : List (List Char × Entry)) (offset : Nat),
      List.Forall₂ (fun trait interface => ∃ gap offset, interface = trait.interface gap step offset)
        ((items.map Prod.snd).filterMap entryTrait) ((entriesAt step offset items).filterMap Prod.snd) := by
    intro items
    induction items with
    | nil => exact fun _ => .nil
    | cons item items ih =>
      intro offset
      have later := ih (offset + width (item.2.pieces item.1 step))
      obtain ⟨gap, trait | definition⟩ := item
      · exact .cons ⟨gap, offset, rfl⟩ later
      · exact later
  have all := each (spread ('\n' :: step) emptyLine entries)
    (offset + width ((Object.mk name (some (Specimen.insideOf entries))).opening gap) + (Piece.mk [' '] (.opener .brace)).width)
  rw [spread_snd] at all
  exact all

def signatureFacts (signature : Signature) : String × List (Bool × Bool × List Param) × Option String :=
  (signature.name.text, [(false, false, signature.fields.map Field.param)], some signature.arg.text)

/-- The methods that a trait is read with. -/
theorem methods_interface {trait : Trait} {signatures : List Signature} (methods : trait.methods = some signatures)
    (gap indent : List Char) (offset : Nat) :
    (trait.interface gap indent offset).methods.map methodFacts = signatures.map signatureFacts := by
  have members : (trait.interface gap indent offset).methods = methodsAt ('\n' :: (indent ++ [' ', ' ']))
      (trait.bodyOffset gap offset + (Piece.mk [' '] (.opener .brace)).width) signatures := by
    rw [Trait.interface, methods]
    rfl
  rw [members]
  exact map_readAll (f := methodFacts) (g := signatureFacts) (fun _ _ _ => rfl) _

/-! ### Objects of services -/

/-- The definitions of the object when it is extended. -/
def boundOf (specimen : Specimen) : List Definition := specimen.definitions ++ specimen.missing

theorem readerT_once (specimen : Specimen) :
    ((boundOf specimen).filter fun definition => definition.name = readerTName specimen.name).length = 1 := by
  have once : (specimen.definitions.filter fun definition => definition.name = readerTName specimen.name).length ≤ 1 := by
    have atMost := specimen.readOnce
    unfold Specimen.definitions
    rcases object : specimen.object with _ | _ | definitions
    · exact Nat.zero_le _
    · exact Nat.zero_le _
    · exact atMost _ object definitions rfl
  have functor : (functorDefinition specimen.name specimen.methods).name ≠ readerTName specimen.name :=
    (readerTName_ne_functorKName specimen.name).symm
  rw [boundOf, Specimen.missing, List.filter_append, List.length_append]
  cases present : specimen.definitions.any fun definition => definition.name = readerTName specimen.name with
  | true =>
    obtain ⟨definition, member, named⟩ := List.any_eq_true.mp present
    have some : 0 < (specimen.definitions.filter fun definition => definition.name = readerTName specimen.name).length :=
      List.length_pos_of_mem (List.mem_filter.mpr ⟨member, named⟩)
    simp only [if_true, List.nil_append, List.filter_singleton, functor, decide_false, Bool.cond_false, List.length_nil]
    omega
  | false =>
    have none : (specimen.definitions.filter fun definition => definition.name = readerTName specimen.name) = [] :=
      List.filter_eq_nil_iff.mpr (List.any_eq_false.mp present)
    have reader : (readerDefinition specimen.name specimen.methods).name = readerTName specimen.name := rfl
    simp [none, functor, reader]

theorem functorK_once (specimen : Specimen) :
    ((boundOf specimen).filter fun definition => definition.name = functorKName specimen.name).length = 1 := by
  have none : (specimen.definitions.filter fun definition => definition.name = functorKName specimen.name) = [] :=
    List.filter_eq_nil_iff.mpr (List.any_eq_false.mp specimen.unmapped_any)
  have reader : (readerDefinition specimen.name specimen.methods).name ≠ functorKName specimen.name :=
    readerTName_ne_functorKName specimen.name
  have functor : (functorDefinition specimen.name specimen.methods).name = functorKName specimen.name := rfl
  rw [boundOf, Specimen.missing, List.filter_append, List.filter_append, none]
  cases specimen.definitions.any fun definition => definition.name = readerTName specimen.name <;> simp [reader, functor]

/-- The entries of the extended object. -/
def entriesOf (specimen : Specimen) : List Entry := specimen.definitions.map .defined ++ specimen.added.map movedEntry

theorem entryFacts_entries (specimen : Specimen) : (entriesOf specimen).map entryFacts =
    specimen.definitions.map (fun definition => entryFacts (.defined definition)) ++ specimen.relocated.map entryFacts ++
      specimen.missing.map fun definition => entryFacts (.defined definition) := by
  have nested : specimen.relocated.map (entryFacts ∘ movedEntry) = specimen.relocated.map entryFacts := by
    unfold Specimen.relocated
    split <;> rfl
  simp only [entriesOf, Specimen.added, List.map_append, List.map_map, nested, List.append_assoc]
  rfl

/-- How often a name other than that of the service is bound. -/
theorem count_entries (specimen : Specimen) (name : Name) (other : name ≠ specimen.name) :
    (((entriesOf specimen).map entryFacts).map Prod.fst).count name.text =
      ((boundOf specimen).filter fun definition => definition.name = name).length := by
  have plain : ∀ definitions : List Definition, ((definitions.map fun definition => entryFacts (.defined definition)).map
      Prod.fst).count name.text = (definitions.filter fun definition => definition.name = name).length := by
    intro definitions
    rw [List.map_map, List.count, List.countP_map, List.countP_eq_length_filter]
    refine congrArg List.length (List.filter_congr fun definition _ => ?_)
    show (definition.name.text == name.text) = _
    rw [beq_eq_decide]
    exact decide_eq_decide.mpr name_eq_iff.symm
  have nested : ((specimen.relocated.map entryFacts).map Prod.fst).count name.text = 0 := by
    unfold Specimen.relocated
    split
    · have differs : ¬ specimen.name.text = name.text := fun same => other (name_eq_iff.mpr same.symm)
      simp [entryFacts, nested, Specimen.trait, differs]
    · rfl
  rw [entryFacts_entries, List.map_append, List.map_append, List.count_append, List.count_append, plain, plain, nested, boundOf,
    List.filter_append, List.length_append, Nat.add_zero]

/-- The members of the object before the service is migrated. -/
theorem members_former {former : Holder} {before : List Decl} (read : List.Forall₂ (ReadFrom source) specimen.decls before)
    (listed : .holder former ∈ before) :
    former.members.map memberFacts = specimen.definitions.map fun definition => entryFacts (.defined definition) := by
  obtain ⟨declaration, member, gap, offset, -, same⟩ := Traversal.related_right read listed
  rcases List.mem_cons.mp member with rfl | member
  · cases same
  obtain ⟨object, found, rfl⟩ := List.mem_map.mp member
  cases same
  obtain ⟨inside, holds, rfl⟩ := Option.map_eq_some_iff.mp (Option.mem_toList.mp found)
  rw [Specimen.definitions, holds]
  cases inside with
  | none => rfl
  | some definitions =>
    have facts := members_insideOf specimen.name (definitions.map .defined) gap offset
    rw [List.map_map] at facts
    exact facts

/-- A name with a suffix is another name. -/
theorem ne_of_suffix {service name : Name} {suffix : String} (same : name.text = service.text ++ suffix) (nonempty : suffix ≠ "") :
    name ≠ service := by
  rintro rfl
  exact nonempty (String.append_eq_left_iff.mp same.symm)

/-- The object of a service when it is extended. -/
theorem instantiates_extended {gap : List Char} {before : List Decl}
    (read : List.Forall₂ (ReadFrom source) specimen.decls before) :
    Instantiates specimen.name.text before (specimen.extended.holder gap offset) := by
  have facts := members_insideOf specimen.name (entriesOf specimen) gap offset
  have names := congrArg (List.map Prod.fst) facts
  rw [List.map_map] at names
  refine ⟨?_, ?_, fun former listed => ?_⟩
  · have once := count_entries specimen (readerTName specimen.name) (ne_of_suffix rfl (by decide))
    rw [readerT_once, ← names] at once
    exact once
  · have once := count_entries specimen (functorKName specimen.name) (ne_of_suffix rfl (by decide))
    rw [functorK_once, ← names] at once
    exact once
  · rw [entryFacts_entries, List.append_assoc] at facts
    exact members_former read listed ▸ ⟨_, facts.symm⟩

/-! ### Relocated traits -/

/-- The trait that the object of a legacy service nests. -/
theorem relocates_extended {gap gap' : List Char} {offset' : Nat} (legacy : specimen.shape = some .legacy) :
    Relocates specimen.name.text (specimen.trait.interface gap' [] offset') (specimen.extended.holder gap offset) := by
  have traits : (entriesOf specimen).filterMap entryTrait = [nested specimen.trait specimen.methods] := by
    have plain : ∀ definitions : List Definition, (definitions.map Entry.defined).filterMap entryTrait = [] := by
      simp [List.filterMap_map, Function.comp_def, entryTrait]
    have added : specimen.added.map movedEntry = Entry.nested (nested specimen.trait specimen.methods) ::
        (specimen.missing.map movedDefinition).map Entry.defined := by
      rw [Specimen.added, Specimen.relocated, if_pos legacy]
      simp [movedEntry]
    rw [entriesOf, added, List.filterMap_append, plain, List.nil_append,
      List.filterMap_cons_some (show entryTrait (.nested _) = some _ from rfl), plain]
  have read := nested_insideOf specimen.name (entriesOf specimen) gap offset
  rw [traits] at read
  obtain ⟨interface, none, only, ⟨gap'', offset'', rfl⟩, empty⟩ := forall₂_cons_inv read
  cases empty
  refine ⟨(nested specimen.trait specimen.methods).interface gap'' step offset'', ?_, rfl, ?_, ?_⟩
  · exact (congrArg (List.filter _) only).trans (List.filter_eq_self.mpr fun trait member => by
      rw [List.mem_singleton.mp member]
      simp [nested, Trait.interface, Specimen.trait])
  · rw [methods_interface (show (nested specimen.trait specimen.methods).methods = some _ from rfl),
      methods_interface (show specimen.trait.methods = some _ from rfl), List.map_map]
    rfl
  · have all := all_returnsApplied ('\n' :: (step ++ [' ', ' '])) ((nested specimen.trait specimen.methods).bodyOffset gap'' offset'' +
      (Piece.mk [' '] (.opener .brace)).width) effect specimen.methods
    exact List.all_eq_true.mp all

/-! ### Outcomes -/

/-- Two lists that come from the same one. -/
theorem forall₂_of_common {relation : α → β → Prop} {relation' : α → γ → Prop} {items : List α} {others : List β}
    {others' : List γ} (related : List.Forall₂ relation items others) (related' : List.Forall₂ relation' items others') :
    List.Forall₂ (fun other other' => ∃ item, relation item other ∧ relation' item other') others others' := by
  induction related generalizing others' with
  | nil =>
    cases related'
    exact .nil
  | cons first _ ih =>
    obtain ⟨other', rest, rfl, first', related'⟩ := forall₂_cons_inv related'
    exact .cons ⟨_, first, first'⟩ (ih related')

/-- What becomes of the declarations under the name of a specimen. -/
theorem becomes_migrated (distinct : (specimens.map fun specimen => specimen.name.text).Nodup) (listed : specimen ∈ specimens)
    (blank : IsBlank tail) (id : UnitId) :
    Becomes (.load .empty id (textOf (unitOf package imports specimens) tail))
      (.load .empty id (textOf (migratedOf package imports specimens) tail)) specimen.name.text specimen.shape := by
  have before := @declared_unitOf _ package imports _ _ distinct listed blank id
  have after := @declared_migratedOf _ package imports _ _ distinct listed blank id
  have instantiates : ∀ gap offset, Instantiates specimen.name.text
      (declared (.load .empty id (textOf (unitOf package imports specimens) tail)) specimen.name.text)
      (specimen.extended.holder gap offset) := fun gap offset => instantiates_extended before
  obtain ⟨interface, others, first, read, -⟩ := forall₂_cons_inv before
  have same : ∀ {declaration decl decl'}, ReadFrom (textOf (unitOf package imports specimens) tail).toList declaration decl →
      ReadFrom (textOf (migratedOf package imports specimens) tail).toList declaration decl' →
      declText (.load .empty id (textOf (migratedOf package imports specimens) tail)) decl' =
        declText (.load .empty id (textOf (unitOf package imports specimens) tail)) decl := by
    intro declaration decl decl' read read'
    rw [declText, declText, load_text, load_text]
    exact read'.chars.trans read.chars.symm
  rw [Specimen.migrated] at after
  cases shape : specimen.shape with
  | none =>
    rw [shape] at after
    obtain ⟨gap', offset', -, rfl⟩ := read
    refine ⟨⟨_, others, first⟩, (forall₂_of_common before after).imp fun decl decl' common => ?_⟩
    obtain ⟨declaration, read, read'⟩ := common
    exact same read read'
  | some found =>
    cases found with
    | legacy =>
      rw [shape] at after
      obtain ⟨gap', offset', -, rfl⟩ := read
      obtain ⟨_, rest, only, ⟨gap, offset, -, rfl⟩, after⟩ := forall₂_cons_inv after
      obtain ⟨_, none, rfl, ⟨gap'', offset'', -, rfl⟩, empty⟩ := forall₂_cons_inv after
      cases empty
      exact ⟨_, others, _, _, first, only, rfl, relocates_extended shape, instantiates gap'' offset''⟩
    | modern =>
      rw [shape] at after
      obtain ⟨trait, rest, only, read', after⟩ := forall₂_cons_inv after
      obtain ⟨_, none, rfl, ⟨gap'', offset'', -, rfl⟩, empty⟩ := forall₂_cons_inv after
      cases empty
      have kept := same read read'
      obtain ⟨gap', offset', -, rfl⟩ := read
      obtain ⟨gap, offset, -, rfl⟩ := read'
      exact ⟨_, others, _, _, first, only, kept, instantiates gap'' offset''⟩

/-- The imports of the migrated unit show all libraries when there is a service. -/
theorem libraries_imported (service : (specimens.any fun specimen => specimen.shape.isSome) = true) (blank : IsBlank tail) (id : UnitId) :
    ∀ name ∈ Conventions.default.imports.all,
      (SourceUnit.load .empty id (textOf (migratedOf package imports specimens) tail)).outline.imports.any
        (·.imports name) = true := by
  obtain ⟨references, scope, loaded⟩ := load_written (laid_migratedOf package imports specimens) blank id
  have none : AddInstances.missingImports .default (migratedOf package imports specimens).outline.imports = [] := by
    have lines : ((migratedOf package imports specimens).imports.map Prod.snd) = imports ++ (lacking imports).map Prod.snd := by
      rw [migratedOf, importsFor, if_pos service]
      exact spread_snd _ _ _
    show AddInstances.missingImports .default (importsAt _ _) = []
    rw [missingImports_lines, lines, lacking_covered]
    rfl
  intro name listed
  rw [textOf, loaded]
  have covered := List.filter_eq_nil_iff.mp none name listed
  simpa using covered

end KindLift.WrittenOutcomes
