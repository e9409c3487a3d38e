import KindLift.Proofs.QualifiedReferences

/-! A relocated service is recognised in two ways: by the declarations of the unit
it stands in, and by the symbols that unit offers to all others. The two agree on
every name but for those that an object of another name nests. -/
namespace KindLift.LocalAliases
open ParserLogic IndexGrowth QualifiedReferences
open DeclPlacement (parse_eq_ok)

variable {unit importer : SourceUnit} {scope : Scope} {outline : Outline} {package : DottedName} {name : String}
  {symbol : Symbol} {id : UnitId} {index before after : Index} {source : List Char} {cursor : Cursor}

/-- The object nests a higher-kinded interface of the name. -/
def Nests (holder : Holder) (name : String) : Prop :=
  ∃ nested, holder.nestedInterface? name = some nested ∧ nested.typeParams.map TypeParam.kind = [.higherKinded]

/-- The unit has an interface of the name that takes no parameters. -/
def HasAlias (outline : Outline) (name : String) : Prop :=
  ∃ interface ∈ outline.decls.filterMap Decl.interface?, interface.name = name ∧ interface.typeParams = []

/-- The unit has an alias of the name, and an object of another name that nests the
higher-kinded interface. -/
def NestedElsewhere (outline : Outline) (name : String) : Prop :=
  HasAlias outline name ∧ ∃ holder ∈ outline.decls.filterMap Decl.holder?, holder.name ≠ name ∧ Nests holder name

/-- The symbols of a name that the unit offers, the interface of that name and the
object, say that it has been relocated. -/
def OfferedRelocated (unit : SourceUnit) (name : String) : Prop :=
  Relocated.isRelocated (unit.exportedSymbols.filter fun symbol => symbol.name = unit.packageName.child name) name = true

theorem isNested_iff : Relocated.isNested outline name = true ↔
    ∃ holder ∈ outline.decls.filterMap Decl.holder?, Nests holder name := by
  simp only [Relocated.isNested, List.any_eq_true]
  refine exists_congr fun holder => and_congr_right fun _ => ?_
  unfold Nests
  cases holder.nestedInterface? name with
  | none => simp
  | some nested => simp

theorem mem_localAliases_iff : name ∈ (Relocated.localAliases outline).map Interface.name ↔
    HasAlias outline name ∧ ∃ holder ∈ outline.decls.filterMap Decl.holder?, Nests holder name := by
  simp only [List.mem_map, Relocated.localAliases, List.mem_filter, Bool.and_eq_true, isNested_iff, List.isEmpty_iff]
  constructor
  · rintro ⟨interface, ⟨listed, plain, nested⟩, rfl⟩
    exact ⟨⟨interface, listed, rfl, plain⟩, nested⟩
  · rintro ⟨⟨interface, listed, rfl, plain⟩, nested⟩
    exact ⟨interface, ⟨listed, plain, nested⟩, rfl⟩

/-! The symbols of a unit. -/

/-- The declaration is not taken for an interface or an object when it is neither. -/
def IsOpaque (decl : Decl) : Prop :=
  ∀ found, decl = .other found → ∀ kind ∈ found.symbolKind, kind ≠ .interface ∧ kind ≠ .holder

theorem ensures_any {parser : Parser α} : Ensures source cursor parser fun _ _ => True := fun _ _ _ => trivial

theorem packageObject_opaque :
    Ensures source cursor Parser.packageObject fun found _ => found.symbolKind = none := by
  unfold Parser.packageObject
  iterate 4 refine ensures_then ensures_any fun _ _ _ => ?_
  refine ensures_then ensures_any fun _ _ _ => ?_
  exact ensures_pure.mpr rfl

theorem opaqueDecl_opaque {word : Keyword} {mods : Parser.Modifiers} :
    Ensures source cursor (Parser.opaqueDecl word mods) fun found _ =>
      found.symbolKind = some (Parser.opaqueKind word) := by
  unfold Parser.opaqueDecl
  iterate 3 refine ensures_then ensures_any fun _ _ _ => ?_
  refine ensures_then ensures_any fun _ _ _ => ?_
  exact ensures_pure.mpr rfl

theorem topLevel_opaque : Ensures source cursor Parser.topLevel fun decl _ => IsOpaque decl := by
  unfold Parser.topLevel
  refine ensures_then ensures_any fun atPackage _ _ => ?_
  split
  · refine ensures_then packageObject_opaque fun found _ absent => ensures_pure.mpr ?_
    rintro _ ⟨⟩ kind member
    rw [absent] at member
    cases member
  · unfold Parser.modifiedDecl
    refine ensures_then ensures_any fun mods _ _ => ?_
    refine ensures_then ensures_any fun kind _ _ => ?_
    split
    · refine ensures_then ensures_any fun interface _ _ => ensures_pure.mpr ?_
      rintro _ ⟨⟩
    · rename_i word _
      split
      · refine ensures_then ensures_any fun holder _ _ => ensures_pure.mpr ?_
        rintro _ ⟨⟩
      · split
        · refine ensures_then opaqueDecl_opaque fun found _ same => ensures_pure.mpr ?_
          rintro _ ⟨⟩ kind member
          rw [same] at member
          cases member
          unfold Parser.opaqueKind
          split <;> decide
        · exact ensures_fail
    · exact ensures_fail

/-- What is shown of every declaration is true of all declarations of an outline. -/
theorem outline_decls {property : Decl → Prop}
    (each : ∀ cursor, Ensures source cursor Parser.topLevel fun decl _ => property decl) :
    Ensures source cursor Parser.outline fun outline _ => ∀ decl ∈ outline.decls, property decl := by
  refine ensures_iterate (fun seen _ => ∀ decl ∈ seen.decls, property decl) (by simp [Outline.empty]) ?_
  intro seen current placed
  refine ensures_then ensures_any fun _ _ _ => ?_
  refine ensures_then ensures_any fun token _ _ => ?_
  split
  · exact ensures_pure.mpr placed
  refine ensures_then ensures_any fun _ _ _ => ?_
  split
  · split
    · exact ensures_then ensures_any fun _ _ _ => ensures_pure.mpr placed
    · exact ensures_fail
  refine ensures_then ensures_any fun _ _ _ => ?_
  split
  · exact ensures_then ensures_any fun _ _ _ => ensures_pure.mpr placed
  · refine ensures_then (each _) fun decl _ holds => ensures_pure.mpr ?_
    intro found member
    rcases List.mem_append.mp member with earlier | last
    · exact placed found earlier
    · exact List.mem_singleton.mp last ▸ holds

theorem parse_opaque (parsed : Outline.parse source = .ok outline) : ∀ decl ∈ outline.decls, IsOpaque decl := by
  obtain ⟨tokens, bare, next, -, read, rfl⟩ := parse_eq_ok parsed
  exact outline_decls (fun _ => topLevel_opaque) bare next read

theorem load_opaque (index : Index) (id : UnitId) (text : String) :
    ∀ decl ∈ (SourceUnit.load index id text).outline.decls, IsOpaque decl := by
  unfold SourceUnit.load
  split
  · rename_i parsed
    exact parse_opaque parsed
  · simp [Outline.empty]

/-- The interfaces and objects a unit offers are those it declares. -/
theorem exported_cases (plain : ∀ decl ∈ unit.outline.decls, IsOpaque decl) (offered : symbol ∈ unit.exportedSymbols) :
    (∃ interface ∈ unit.outline.decls.filterMap Decl.interface?,
      symbol = SourceUnit.interfaceSymbol unit.id unit.packageName interface) ∨
    (∃ holder ∈ unit.outline.decls.filterMap Decl.holder?,
      symbol = SourceUnit.holderSymbol unit.id unit.packageName holder) ∨
    symbol.kind ≠ .interface ∧ symbol.kind ≠ .holder := by
  obtain ⟨decl, listed, exported⟩ := List.mem_filterMap.mp offered
  cases decl with
  | interface interface =>
    cases exported
    exact .inl ⟨interface, List.mem_filterMap.mpr ⟨_, listed, rfl⟩, rfl⟩
  | holder holder =>
    cases exported
    exact .inr (.inl ⟨holder, List.mem_filterMap.mpr ⟨_, listed, rfl⟩, rfl⟩)
  | other found =>
    simp only [SourceUnit.declSymbol?] at exported
    split at exported
    · rename_i known
      cases exported
      exact .inr (.inr (plain _ listed found rfl _ known))
    · cases exported

theorem exported_of_interface {interface : Interface} (declared : interface ∈ unit.outline.decls.filterMap Decl.interface?) :
    SourceUnit.interfaceSymbol unit.id unit.packageName interface ∈ unit.exportedSymbols := by
  obtain ⟨decl, listed, same⟩ := List.mem_filterMap.mp declared
  cases decl <;> cases same
  exact List.mem_filterMap.mpr ⟨_, listed, rfl⟩

theorem exported_of_holder {holder : Holder} (declared : holder ∈ unit.outline.decls.filterMap Decl.holder?) :
    SourceUnit.holderSymbol unit.id unit.packageName holder ∈ unit.exportedSymbols := by
  obtain ⟨decl, listed, same⟩ := List.mem_filterMap.mp declared
  cases decl <;> cases same
  exact List.mem_filterMap.mpr ⟨_, listed, rfl⟩

/-- All symbols of a unit stand in its package. -/
theorem exported_name (offered : symbol ∈ unit.exportedSymbols) : ∃ name, symbol.name = unit.packageName.child name := by
  obtain ⟨decl, -, exported⟩ := List.mem_filterMap.mp offered
  unfold SourceUnit.declSymbol? at exported
  split at exported
  · cases exported
    exact ⟨_, rfl⟩
  · cases exported
    exact ⟨_, rfl⟩
  · split at exported <;> cases exported
    exact ⟨_, rfl⟩

theorem names_iff (inside : symbol.name = package.child name') : Names ⟨package, name⟩ symbol ↔ name' = name := by
  have parent : symbol.parent = package := by
    simp [Symbol.parent, inside, DottedName.parent?, DottedName.child]
  have simple : symbol.simpleName = name' := by
    simp [Symbol.simpleName, inside, DottedName.last?, DottedName.child]
  simp only [Names, parent, simple, true_and]

/-- An object's interfaces, looked for by name, are its nested interfaces. -/
theorem member?_holderSymbol (holder : Holder) :
    (SourceUnit.holderSymbol id package holder).member? name .interface =
      (holder.nestedInterface? name).map (SourceUnit.interfaceSymbol id (package.child holder.name)) := by
  have simple (interface : Interface) :
      (SourceUnit.interfaceSymbol id (package.child holder.name) interface).simpleName = interface.name := by
    simp [Symbol.simpleName, SourceUnit.interfaceSymbol, Symbol.name, DottedName.last?, DottedName.child]
  have none : (holder.members.filterMap fun member => (SourceUnit.memberSymbolKind? member.kind).map fun kind =>
      Symbol.mk ((package.child holder.name).child member.name) kind id [] []).find?
        (fun member => member.kind = .interface && member.simpleName = name) = .none := by
    refine List.find?_eq_none.mpr fun symbol member found => ?_
    obtain ⟨declared, -, same⟩ := List.mem_filterMap.mp member
    obtain ⟨kind, known, rfl⟩ := Option.map_eq_some_iff.mp same
    rw [Bool.and_eq_true, decide_eq_true_eq] at found
    obtain rfl : kind = .interface := found.1
    revert known
    cases declared.kind <;> simp [SourceUnit.memberSymbolKind?]
  show List.find? _ (_ ++ _) = _
  rw [List.find?_append, none, Option.or_none, List.find?_map]
  unfold Holder.nestedInterface?
  congr 2
  funext interface
  simp only [Function.comp_apply, simple]
  rfl

theorem isHigherKinded_holderSymbol_iff (holder : Holder) :
    ((SourceUnit.holderSymbol id package holder).member? name .interface).any Symbol.isHigherKindedInterface = true ↔
      Nests holder name := by
  rw [member?_holderSymbol]
  unfold Nests
  cases holder.nestedInterface? name with
  | none => simp
  | some nested =>
    simp only [Option.map_some, Option.any_some, Option.some.injEq, exists_eq_left', Symbol.isHigherKindedInterface,
      SourceUnit.interfaceSymbol, Symbol.kind, Symbol.typeParams, Bool.and_eq_true, decide_eq_true_eq, true_and]
    exact decide_eq_true_iff

/-- The symbols of a unit show a service where it has an alias, and an object of the
same name that nests the interface. -/
theorem shows_exported_iff (plain : ∀ decl ∈ unit.outline.decls, IsOpaque decl) :
    Shows unit.exportedSymbols ⟨unit.packageName, name⟩ ↔ HasAlias unit.outline name ∧
      ∃ holder ∈ unit.outline.decls.filterMap Decl.holder?, holder.name = name ∧ Nests holder name := by
  constructor
  · rintro ⟨⟨interface, offered, named, isInterface, noParams⟩, holder, offered', named', isHolder, nests⟩
    constructor
    · rcases exported_cases plain offered with ⟨found, declared, rfl⟩ | ⟨_, _, rfl⟩ | other
      · rw [List.isEmpty_iff] at noParams
        exact ⟨found, declared, (names_iff rfl).mp named, List.map_eq_nil_iff.mp noParams⟩
      · cases isInterface
      · exact absurd isInterface other.1
    · rcases exported_cases plain offered' with ⟨_, _, rfl⟩ | ⟨found, declared, rfl⟩ | other
      · cases isHolder
      · exact ⟨found, declared, (names_iff rfl).mp named', (isHigherKinded_holderSymbol_iff found).mp nests⟩
      · exact absurd isHolder other.2
  · rintro ⟨⟨interface, declared, named, noParams⟩, holder, declared', named', nests⟩
    refine ⟨⟨_, exported_of_interface declared, (names_iff rfl).mpr named, rfl, ?_⟩,
      _, exported_of_holder declared', (names_iff rfl).mpr named', rfl, (isHigherKinded_holderSymbol_iff holder).mpr nests⟩
    rw [List.isEmpty_iff]
    exact List.map_eq_nil_iff.mpr noParams

theorem offeredRelocated_iff : OfferedRelocated unit name ↔ Shows unit.exportedSymbols ⟨unit.packageName, name⟩ := by
  have same : (unit.exportedSymbols.filter fun symbol => symbol.name = unit.packageName.child name) =
      (unit.exportedSymbols.filter fun symbol => symbol.simpleName = name).filter
        fun symbol => symbol.parent = unit.packageName := by
    rw [List.filter_filter]
    refine List.filter_congr fun symbol offered => ?_
    obtain ⟨name', inside⟩ := exported_name offered
    rw [inside]
    have names : Names ⟨unit.packageName, name⟩ symbol ↔ name' = name := names_iff inside
    unfold Names at names
    grind [DottedName.child_inj]
  rw [OfferedRelocated, same]
  exact @isRelocated_iff ⟨unit.packageName, name⟩ _

/-- A name is an alias of the unit when the unit offers it as relocated, or when an
object of another name nests the interface. -/
theorem mem_localAliases_iff_offered (plain : ∀ decl ∈ unit.outline.decls, IsOpaque decl) :
    name ∈ (Relocated.localAliases unit.outline).map Interface.name ↔
      OfferedRelocated unit name ∨ NestedElsewhere unit.outline name := by
  rw [mem_localAliases_iff, offeredRelocated_iff, shows_exported_iff plain]
  unfold NestedElsewhere
  constructor
  · rintro ⟨stands, holder, declared, nests⟩
    by_cases own : holder.name = name
    · exact .inl ⟨stands, holder, declared, own, nests⟩
    · exact .inr ⟨stands, holder, declared, own, nests⟩
  · rintro (⟨stands, holder, declared, -, nests⟩ | ⟨stands, holder, declared, -, nests⟩)
    · exact ⟨stands, holder, declared, nests⟩
    · exact ⟨stands, holder, declared, nests⟩

/-! A reference in the unit itself. -/

theorem aliasSpan?_isSome_iff : (Relocated.aliasSpan? outline name).isSome = true ↔
    name ∈ (Relocated.localAliases outline).map Interface.name := by
  simp only [Relocated.aliasSpan?, Option.isSome_map, List.find?_isSome, List.mem_reverse, decide_eq_true_eq, List.mem_map]

/-- The reference stands neither in the object of its name nor in the alias. -/
def StandsOutside (outline : Outline) (reference : TypeRef) : Prop :=
  reference.enclosingHolder ≠ some reference.name ∧
    ∀ span ∈ Relocated.aliasSpan? outline reference.name, span.contains reference.span.start = false

/-- A reference to a name of the unit itself means the service when the name is an
alias of the unit. -/
theorem ofReference_local_iff {reference : TypeRef} (outside : StandsOutside unit.outline reference)
    (known : scope.isLocal reference.name = true) :
    Relocated.ofReference unit scope reference = .ok (some ⟨scope.package, reference.name⟩) ↔
      reference.name ∈ (Relocated.localAliases unit.outline).map Interface.name := by
  rw [← aliasSpan?_isSome_iff, Relocated.ofReference, if_neg outside.1, if_pos known]
  cases found : Relocated.aliasSpan? unit.outline reference.name with
  | none => simp
  | some span => simp [outside.2 span found]

/-! A reference in another unit. -/

/-- All imports of the name stand for one path: clauses that name it, or else
wildcards. -/
def ImportsAs (imports : List Import) (name : String) (path : DottedName) : Prop :=
  Scope.explicitTargets imports name ≠ [] ∧ (∀ target ∈ Scope.explicitTargets imports name, target = path) ∨
    Scope.explicitTargets imports name = [] ∧ Scope.wildcardTargets imports name ≠ [] ∧
      ∀ target ∈ Scope.wildcardTargets imports name, target = path

theorem mem_flatMap_lookup {targets : List DottedName} {path : DottedName} (filled : targets ≠ [])
    (same : ∀ target ∈ targets, target = path) :
    symbol ∈ targets.flatMap (Scope.lookupPath index) ↔ symbol ∈ Scope.lookupPath index path := by
  rw [List.mem_flatMap]
  constructor
  · rintro ⟨target, member, found⟩
    exact same target member ▸ found
  · intro found
    obtain ⟨target, member⟩ := List.exists_mem_of_ne_nil targets filled
    exact ⟨target, member, (same target member).symm ▸ found⟩

/-- An imported name means what its path means. -/
theorem mem_meanings_imported {imports : List Import} {path : DottedName} (imported : ImportsAs imports name path)
    (offered : Scope.lookupPath index path ≠ []) :
    symbol ∈ meanings index id package imports name ↔ symbol ∈ Scope.lookupPath index path := by
  obtain ⟨first, found⟩ := List.exists_mem_of_ne_nil _ offered
  rw [meanings_eq]
  rcases imported with ⟨filled, same⟩ | ⟨empty, filled, same⟩
  · rw [if_pos (List.ne_nil_of_mem ((mem_flatMap_lookup filled same).mpr found)), mem_flatMap_lookup filled same]
  · rw [empty, List.flatMap_nil, if_neg (fun nonempty => nonempty rfl),
      if_pos (List.ne_nil_of_mem ((mem_flatMap_lookup filled same).mpr found)), mem_flatMap_lookup filled same]

theorem eraseReps_loop_of_same {first : DottedName} {items taken : List DottedName} (same : ∀ item ∈ items, item = first) :
    List.eraseRepsBy.loop (· == ·) first items taken = (first :: taken).reverse := by
  induction items generalizing taken with
  | nil => rfl
  | cons item rest ih =>
    obtain rfl := same item (List.mem_cons_self ..)
    rw [List.eraseRepsBy.loop, beq_self_eq_true]
    exact ih fun other member => same other (List.mem_cons_of_mem _ member)

/-- Repetitions of one package leave it once. -/
theorem eraseReps_of_same {items : List DottedName} (filled : items ≠ []) (same : ∀ item ∈ items, item = package) :
    items.eraseReps = [package] := by
  cases items with
  | nil => exact absurd rfl filled
  | cons first rest =>
    obtain rfl := same first (List.mem_cons_self ..)
    exact eraseReps_loop_of_same fun item member => same item (List.mem_cons_of_mem _ member)

/-- A name whose candidates all stand in one package means a service there, or none. -/
theorem resolve_of_package {scope : Scope} (inScope : importer.scope = .ok scope)
    (inside : ∀ symbol ∈ scope.candidates name, symbol.simpleName = name → symbol.parent = package) :
    Relocated.resolve importer name = .ok (some ⟨package, name⟩) ↔ Shows (scope.candidates name) ⟨package, name⟩ := by
  refine ⟨fun meant => (resolve_shows inScope meant).2, fun shown => ?_⟩
  have found := isRelocated_iff.mpr shown
  obtain ⟨⟨interface, listed, named, -⟩, -⟩ := shown
  have packages : ((((scope.candidates name).filter fun symbol => symbol.simpleName = name).map Symbol.parent).mergeSort
      fun a b => (compare a b).isLE).eraseReps = [package] := by
    refine eraseReps_of_same ?_ ?_
    · have candidate : interface ∈ (scope.candidates name).filter fun symbol => symbol.simpleName = name :=
        List.mem_filter.mpr ⟨listed, decide_eq_true named.2⟩
      exact List.ne_nil_of_mem (List.mem_mergeSort.mpr (List.mem_map_of_mem candidate))
    · intro parent member
      obtain ⟨symbol, listed, rfl⟩ := List.mem_map.mp (List.mem_mergeSort.mp member)
      obtain ⟨listed, named⟩ := List.mem_filter.mp listed
      exact inside symbol listed (of_decide_eq_true named)
  rw [Relocated.resolve, SettledUnits.scopeOf_eq_ok_iff.mpr inScope]
  simp only [bind, Except.bind, packages, List.filter_cons, found]
  rfl

/-- An object that encloses a reference is one of the unit's own declarations. -/
theorem enclosingHolder_declared {reference : TypeRef} (parsed : Outline.parse source = .ok outline)
    (refers : reference ∈ outline.typeRefs) (encloses : reference.enclosingHolder = some name) :
    name ∈ outline.decls.filterMap Decl.name? := by
  obtain ⟨tokens, -, references⟩ := parse_typeRefs parsed
  rw [references] at refers
  obtain ⟨token, -, rfl⟩ := List.mem_map.mp refers
  obtain ⟨holder, declared, found⟩ := List.exists_of_findSome?_eq_some encloses
  obtain ⟨decl, listed, same⟩ := List.mem_filterMap.mp declared
  split at found
  · split at found
    · cases found
      cases decl <;> cases same
      exact List.mem_filterMap.mpr ⟨_, listed, rfl⟩
    · cases found
  · cases found

/-- Another unit refers to a name that it imports from a unit of its program, which
alone offers something under that path. -/
structure ImportedFrom (unit importer : SourceUnit) (scope : Scope) (reference : TypeRef) : Prop where
  offered : ∃ symbol ∈ unit.exportedSymbols, symbol.name = unit.packageName.child reference.name
  loaded : ∃ before after id text, before.units.get? unit.id = none ∧
    before.lookup (unit.packageName.child reference.name) = [] ∧ unit.register before = .ok after ∧
      importer = .load after id text
  inScope : importer.scope = .ok scope
  refers : reference ∈ importer.outline.typeRefs
  foreign : scope.isLocal reference.name = false
  imported : ImportsAs importer.outline.imports reference.name (unit.packageName.child reference.name)

/-- Such a reference means the service when the unit offers it as relocated. -/
theorem ofReference_imported_iff {reference : TypeRef} (imports : ImportedFrom unit importer scope reference) :
    Relocated.ofReference importer scope reference = .ok (some ⟨unit.packageName, reference.name⟩) ↔
      OfferedRelocated unit reference.name := by
  obtain ⟨⟨symbol, offered, named⟩, ⟨before, after, id, text, fresh, alone, registered, rfl⟩, inScope, refers, foreign,
    imported⟩ := imports
  obtain ⟨parsed, resolved⟩ := load_scope inScope
  have known := register_lookup fresh registered (unit.packageName.child reference.name)
  rw [alone, List.nil_append] at known
  have filled : after.lookup (unit.packageName.child reference.name) ≠ [] := by
    rw [known]
    exact List.ne_nil_of_mem (List.mem_filter.mpr ⟨offered, decide_eq_true (congrArg Index.key named)⟩)
  have path := lookupPath_found filled
  have candidates : ∀ symbol, symbol ∈ scope.candidates reference.name ↔
      symbol ∈ unit.exportedSymbols ∧ Index.key symbol.name = Index.key (unit.packageName.child reference.name) := by
    intro symbol
    rw [candidates_eq resolved (List.mem_map_of_mem refers) foreign, mem_meanings_imported imported (path ▸ filled), path,
      known, List.mem_filter, decide_eq_true_iff]
  have outside : reference.enclosingHolder ≠ some reference.name := fun encloses => by
    have declared := enclosingHolder_declared parsed refers encloses
    rw [← resolve_locals resolved] at declared
    simp [Scope.isLocal, declared] at foreign
  rw [Relocated.ofReference, if_neg outside, if_neg (Bool.eq_false_iff.mp foreign), resolve_of_package inScope ?_,
    offeredRelocated_iff]
  · have same : ∀ symbol, Names ⟨unit.packageName, reference.name⟩ symbol →
        (symbol ∈ scope.candidates reference.name ↔ symbol ∈ unit.exportedSymbols) := by
      intro symbol names
      rw [candidates]
      refine and_iff_left_of_imp fun offered => ?_
      obtain ⟨name', inside⟩ := exported_name offered
      rw [inside, (names_iff inside).mp names]
    constructor
    · rintro ⟨⟨interface, listed, names, facts⟩, holder, listed', names', facts'⟩
      exact ⟨⟨interface, (same _ names).mp listed, names, facts⟩, holder, (same _ names').mp listed', names', facts'⟩
    · rintro ⟨⟨interface, listed, names, facts⟩, holder, listed', names', facts'⟩
      exact ⟨⟨interface, (same _ names).mpr listed, names, facts⟩, holder, (same _ names').mpr listed', names', facts'⟩
  · intro symbol listed named
    obtain ⟨name', inside⟩ := exported_name ((candidates symbol).mp listed).1
    simp [Symbol.parent, inside, DottedName.parent?, DottedName.child]

theorem resolve_package (resolved : Scope.resolve index id outline = .ok scope) : scope.package = outline.packageName := by
  unfold Scope.resolve at resolved
  split at resolved
  · cases resolved
  · cases resolved
    rfl

/-- A name is an alias of a unit exactly when the unit offers it as relocated, or has
the alias and an object of another name that nests the interface. So a reference in
the unit itself, neither in the object of its name nor in the alias, is taken for
the service exactly when a reference of a unit that imports the name is, or when
only such a foreign object nests the interface. -/
theorem local_aliases_offered (index : Index) (id : UnitId) (text : String) :
    (∀ name, name ∈ (Relocated.localAliases (SourceUnit.load index id text).outline).map Interface.name ↔
      OfferedRelocated (.load index id text) name ∨ NestedElsewhere (SourceUnit.load index id text).outline name) ∧
    ∀ scope reference importer scope' reference', (SourceUnit.load index id text).scope = .ok scope →
      scope.isLocal reference.name = true → StandsOutside (SourceUnit.load index id text).outline reference →
      reference'.name = reference.name → ImportedFrom (.load index id text) importer scope' reference' →
        (Relocated.ofReference (.load index id text) scope reference = .ok (some ⟨scope.package, reference.name⟩) ↔
          Relocated.ofReference importer scope' reference' = .ok (some ⟨scope.package, reference.name⟩) ∨
            NestedElsewhere (SourceUnit.load index id text).outline reference.name) := by
  have plain := load_opaque index id text
  refine ⟨fun name => mem_localAliases_iff_offered plain, ?_⟩
  intro scope reference importer scope' reference' inScope known outside same imports
  have package : scope.package = (SourceUnit.load index id text).packageName := resolve_package (load_scope inScope).2
  have elsewhere := ofReference_imported_iff imports
  rw [same] at elsewhere
  rw [ofReference_local_iff outside known, mem_localAliases_iff_offered plain, package, elsewhere]

/-- An interface that another object nests in its higher-kinded form. -/
def foreignText : String := "package a\ntrait Foo\nobject Bar\x7btrait Foo[F[_]]\x7d\nclass C(x:Foo[I])"

def importingText : String := "package b\nimport a.Foo\nclass D(x:Foo[I])"

/-- The unit, read by itself. -/
def foreignUnit : SourceUnit := .load .empty "A" foreignText

/-- The program of that unit alone. -/
def foreignProgram : Index := (foreignUnit.register .empty).toOption.getD .empty

theorem foreignUnit_read : foreignUnit.scope.toOption.map (·.isLocal "Foo") = some true ∧
    (foreignUnit.register .empty).toOption.isSome = true ∧
    foreignUnit.packageName.child "Foo" ∈ foreignUnit.exportedSymbols.map Symbol.name ∧
    "Foo" ∈ (Relocated.localAliases foreignUnit.outline).map Interface.name ∧
    Relocated.isRelocated (foreignUnit.exportedSymbols.filter fun symbol =>
      symbol.name = foreignUnit.packageName.child "Foo") "Foo" = false ∧
    ⟨"Foo", ⟨58, 61⟩, none⟩ ∈ foreignUnit.outline.typeRefs ∧
    (∀ span ∈ Relocated.aliasSpan? foreignUnit.outline "Foo", span.contains 58 = false) := by decide +kernel

theorem importingText_read :
    (SourceUnit.load foreignProgram "B" importingText).scope.toOption.map (·.isLocal "Foo") = some false ∧
    ⟨"Foo", ⟨33, 36⟩, none⟩ ∈ (SourceUnit.load foreignProgram "B" importingText).outline.typeRefs ∧
    Scope.explicitTargets (SourceUnit.load foreignProgram "B" importingText).outline.imports "Foo" =
      [foreignUnit.packageName.child "Foo"] := by decide +kernel

/-- In the unit itself the name is taken for a relocated service, in a unit that
imports it it is not. -/
theorem foreignText_differs : ∃ scope reference importer scope' reference',
    foreignUnit.scope = .ok scope ∧ reference ∈ foreignUnit.outline.typeRefs ∧ scope.isLocal reference.name = true ∧
    StandsOutside foreignUnit.outline reference ∧ reference'.name = reference.name ∧
    ImportedFrom foreignUnit importer scope' reference' ∧
    Relocated.ofReference foreignUnit scope reference = .ok (some ⟨scope.package, reference.name⟩) ∧
    Relocated.ofReference importer scope' reference' ≠ .ok (some ⟨scope.package, reference.name⟩) := by
  obtain ⟨known, accepted, offered, isAlias, notOffered, refers, apart⟩ := foreignUnit_read
  obtain ⟨foreign, refers', target⟩ := importingText_read
  have registered : foreignUnit.register .empty = .ok foreignProgram := by
    unfold foreignProgram
    cases registered : foreignUnit.register .empty with
    | error => simp [registered, Except.toOption] at accepted
    | ok => rfl
  cases inScope : foreignUnit.scope with
  | error => simp [inScope, Except.toOption] at known
  | ok scope =>
  cases inScope' : (SourceUnit.load foreignProgram "B" importingText).scope with
  | error => simp [inScope', Except.toOption] at foreign
  | ok scope' =>
  replace known : scope.isLocal "Foo" = true := by simpa [inScope, Except.toOption] using known
  replace foreign : scope'.isLocal "Foo" = false := by simpa [inScope', Except.toOption] using foreign
  have outside : StandsOutside foreignUnit.outline ⟨"Foo", ⟨58, 61⟩, none⟩ := ⟨by simp, apart⟩
  have imports : ImportedFrom foreignUnit (.load foreignProgram "B" importingText) scope' ⟨"Foo", ⟨33, 36⟩, none⟩ := by
    refine ⟨List.mem_map.mp offered, ⟨.empty, foreignProgram, "B", importingText, rfl, rfl, registered, rfl⟩, inScope',
      refers', foreign, .inl ?_⟩
    rw [target]
    exact ⟨by simp, by simp⟩
  obtain ⟨aliases, references⟩ := local_aliases_offered .empty "A" foreignText
  have elsewhere := ((aliases "Foo").mp isAlias).resolve_left (Bool.eq_false_iff.mp notOffered)
  have meant := references scope ⟨"Foo", ⟨58, 61⟩, none⟩ _ scope' ⟨"Foo", ⟨33, 36⟩, none⟩ inScope known outside rfl imports
  refine ⟨scope, ⟨"Foo", ⟨58, 61⟩, none⟩, _, scope', ⟨"Foo", ⟨33, 36⟩, none⟩, rfl, refers, known, outside, rfl, imports,
    meant.mpr (.inr elsewhere), fun found => ?_⟩
  have package : scope.package = foreignUnit.packageName := resolve_package (load_scope inScope).2
  rw [package] at found
  exact Bool.eq_false_iff.mp notOffered ((ofReference_imported_iff imports).mp found)

end KindLift.LocalAliases
