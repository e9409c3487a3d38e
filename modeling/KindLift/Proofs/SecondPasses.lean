import KindLift.Proofs.MendedUnits

/-! The second pass of the rule for instances. The text with its edits is parsed again, and
every service in it has an object with both instances: the instances it had, or else those
that have been added. A service that was moved is an alias by now, which is no service. So
there is nothing left for the rule to do. -/
namespace KindLift.SecondPasses
open AddInstances Traversal RuleLogic ServiceMatching SettledUnits SeamParsers SeamBodies GrownOutlines MendedOutlines MendedUnits PlannedWork WorkPlaces

variable {source : List Char} {outline later : Outline} {services : List Service} {service : Service} {planned : List (List Work)}
  {change : Decl → Change} {decls decls' objects : List Decl} {decl : Decl} {interface old new : Interface} {holder : Holder} {name : String}
  {added' : Option (List String)}

/-! ### What a text declares after its edits -/

theorem beside_parts (beside : Beside name added' objects) : objects.filterMap Decl.interface? = [] ∧
    (objects.filterMap Decl.holder?).map holderGist = added'.toList.map fun members => (name, members) := by
  cases added' with
  | none =>
    obtain rfl : objects = [] := beside
    exact ⟨rfl, rfl⟩
  | some members =>
    obtain ⟨holder, rfl, gist⟩ := beside
    exact ⟨rfl, congrArg (fun gist => [gist]) gist⟩

/-- Every trait stands for the one it was. -/
theorem interfaces_grown (grown : Grown change decls decls') :
    List.Forall₂ (fun old new => StandsFor (change (.interface old)).aliased old new) (decls.filterMap Decl.interface?)
      (decls'.filterMap Decl.interface?) := by
  induction grown with
  | nil => exact .nil
  | snoc before becomes ih =>
    rw [List.filterMap_append, List.filterMap_append]
    refine List.rel_append ih ?_
    cases becomes with
    | interface stands beside =>
      have single := (beside_parts beside).1
      exact .cons stands (single ▸ .nil)
    | holder => exact .nil
    | other => exact .nil

/-- What is in the objects that come of a declaration: their names and those of their members. -/
def gistsOf (change : Decl → Change) (decl : Decl) : List (String × List String) :=
  match decl with
  | .interface old => (change decl).added.toList.map fun members => (old.name, members)
  | .holder old => [(old.name, (holderGist old).2 ++ (change decl).added.getD [])]
  | .other _ => []

theorem holders_grown (grown : Grown change decls decls') : (decls'.filterMap Decl.holder?).map holderGist = decls.flatMap (gistsOf change) := by
  induction grown with
  | nil => rfl
  | snoc before becomes ih =>
    rw [List.filterMap_append, List.map_append, List.flatMap_append, ih, List.flatMap_singleton]
    refine congrArg _ ?_
    cases becomes with
    | interface stands beside => exact (beside_parts beside).2
    | holder grown => exact congrArg (fun gist => [gist]) grown
    | other => rfl

/-! ### What becomes of a service -/

variable (plan : Planned source .default outline services planned)

include plan

/-- Services of one name are the same. -/
theorem service_unique {other : Service} (listed : service ∈ services) (listed' : other ∈ services)
    (same : other.interface.name = service.interface.name) : other = service := by
  by_contra different
  have apart : Std.Symm fun a b : Service => a.interface.name ≠ b.interface.name := ⟨fun _ _ differ => differ.symm⟩
  exact plan.apart.forall listed' listed different same

/-- The work on a declaration of the name of a service is the work on the service. -/
theorem work_of_name (listed : service ∈ services) {work : Work} (member : work ∈ planned.flatten)
    (named : work.decl.name? = some service.interface.name) :
    ∃ entries works, Works source .default service entries works ∧ work ∈ works := by
  obtain ⟨other, listed', entries, works, -, made, -, worked⟩ := plan.mem_flatten member
  have name := (made.declared (plan.stands other listed') worked).2
  obtain rfl := service_unique plan listed listed' (Option.some.inj (name.symm.trans named))
  exact ⟨entries, works, made, worked⟩

/-- A service is worked on. -/
theorem works_planned (listed : service ∈ services) :
    ∃ entries works, Works source .default service entries works ∧ ∀ work ∈ works, work ∈ planned.flatten := by
  obtain ⟨works, worked, entries, -, made⟩ := related_left plan.works listed
  exact ⟨entries, works, made, fun work member => List.mem_flatten.mpr ⟨works, worked, member⟩⟩

omit plan

/-- The declarations that are worked on for a service, and what becomes of them. -/
def changesOf (service : Service) : List (Decl × Change) :=
  match service.shape, service.holder with
  | .legacy, some (_, holder) => [(.interface service.interface, ⟨true, none⟩), (.holder holder, ⟨false, some (added .default service)⟩)]
  | .legacy, none => [(.interface service.interface, ⟨true, some (added .default service)⟩)]
  | .modern, object =>
    if missingInstances .default service = [] then []
    else match object with
      | some (_, holder) => [(.holder holder, ⟨false, some (added .default service)⟩)]
      | none => [(.interface service.interface, ⟨false, some (added .default service)⟩)]

theorem works_changes {entries : List String} {works : List Work} (made : Works source .default service entries works) :
    works.map (fun work => (work.decl, work.change)) = changesOf service := by
  cases made with
  | moved legacy beside => simp [changesOf, legacy, beside]
  | replaced legacy alone => simp [changesOf, legacy, alone]
  | complete modern complete => simp [changesOf, modern, complete]
  | extended modern incomplete beside => simp [changesOf, modern, incomplete, beside]
  | created modern incomplete alone => simp [changesOf, modern, incomplete, alone]

/-- What becomes of its declarations is determined by the service. -/
theorem works_same {entries entries' : List String} {works works' : List Work} (made : Works source .default service entries works)
    (made' : Works source .default service entries' works') {work : Work} (member : work ∈ works) :
    ∃ work' ∈ works', work'.decl = work.decl ∧ work'.change = work.change := by
  have same := List.mem_map_of_mem (f := fun work : Work => (work.decl, work.change)) member
  rw [works_changes made, ← works_changes made'] at same
  obtain ⟨work', member', equal⟩ := List.mem_map.mp same
  exact ⟨work', member', congrArg Prod.fst equal, congrArg Prod.snd equal⟩

include plan

theorem changeOf_named (listed : service ∈ services) {entries : List String} {works : List Work}
    (made : Works source .default service entries works) (named : decl.name? = some service.interface.name) :
    changeOf planned.flatten decl = changeOf works decl := by
  by_cases worked : ∃ work ∈ works, work.decl = decl
  · obtain ⟨work, member, rfl⟩ := worked
    obtain ⟨_, _, made', inside⟩ := works_planned plan listed
    obtain ⟨work', member', decl, change⟩ := works_same made made' member
    rw [changeOf_work made.apart member, ← change, ← decl, changeOf_work plan.keys (inside work' member')]
  · rw [changeOf_none fun work member same => worked ⟨work, member, same⟩]
    refine changeOf_none fun work member same => worked ?_
    obtain ⟨_, _, made', worked'⟩ := work_of_name plan listed member (same ▸ named)
    obtain ⟨work', member', decl, -⟩ := works_same made' made worked'
    exact ⟨work', member', decl.trans same⟩

/-- A service that is moved leaves an alias behind. -/
theorem legacy_aliased (listed : service ∈ services) (legacy : service.shape = .legacy) :
    (changeOf planned.flatten (.interface service.interface)).aliased = true := by
  obtain ⟨entries, works, made, -⟩ := works_planned plan listed
  rw [changeOf_named plan listed made rfl]
  cases made <;> simp_all [changeOf]

/-- The object of another service gets the instances that it lacks. -/
theorem modern_extended (listed : service ∈ services) (modern : service.shape = .modern) {index : Nat} (beside : service.holder = some (index, holder)) :
    (changeOf planned.flatten (.holder holder)).added.getD [] = added .default service ∧
      (changeOf planned.flatten (.interface service.interface)).added = none := by
  obtain ⟨entries, works, made, -⟩ := works_planned plan listed
  have named : (Decl.holder holder).name? = some service.interface.name := congrArg some ((plan.stands service listed).beside beside).2
  rw [changeOf_named plan listed made named, changeOf_named plan listed made rfl]
  cases made <;> simp_all [changeOf, added]

/-- A service without an object gets one. -/
theorem modern_created (listed : service ∈ services) (modern : service.shape = .modern) (alone : service.holder = none) :
    (changeOf planned.flatten (.interface service.interface)).added = some (added .default service) := by
  obtain ⟨entries, works, made, -⟩ := works_planned plan listed
  rw [changeOf_named plan listed made rfl]
  cases made <;> simp_all [changeOf, missingInstances, isBound]

omit plan

/-! ### Shapes of traits -/

theorem all_returns (methods : List Method) (head : String) : (methods.all fun method => method.returnsApplied head) =
    (methods.map methodGist).all fun gist => gist.any fun result => decide (result.1 = head) && result.2 := by
  rw [List.all_map]
  refine congrArg methods.all (funext fun method => ?_)
  cases result : method.result <;> simp [Method.returnsApplied, methodGist, resultGist, result]

theorem serviceBody_of_gist (same : interfaceGist new = interfaceGist old) (head : String) : new.isServiceBody head = old.isServiceBody head := by
  obtain ⟨-, same⟩ := Prod.mk.inj same
  obtain ⟨-, same⟩ := Prod.mk.inj same
  obtain ⟨-, same⟩ := Prod.mk.inj same
  obtain ⟨methods, concrete⟩ := Prod.mk.inj same
  have empty : new.methods.isEmpty = old.methods.isEmpty := by
    rw [← List.isEmpty_map (f := methodGist), methods, List.isEmpty_map]
  rw [Interface.isServiceBody, Interface.isServiceBody, all_returns, all_returns, methods, concrete, empty]

theorem single_of_gist (same : new.typeParams.map typeParamGist = old.typeParams.map typeParamGist) :
    new.singleTypeParam?.map typeParamGist = old.singleTypeParam?.map typeParamGist := by
  have single (interface : Interface) : interface.singleTypeParam?.map typeParamGist =
      if (interface.typeParams.map typeParamGist).length = 1 then (interface.typeParams.map typeParamGist).head? else none := by
    unfold Interface.singleTypeParam?
    rcases interface.typeParams with _ | ⟨first, _ | ⟨second, others⟩⟩ <;> simp
  rw [single, single, same]

/-- The shape of a trait is in what is kept of it. -/
theorem shape_of_gist (same : interfaceGist new = interfaceGist old) (conventions : Conventions) :
    new.isLegacyService conventions = old.isLegacyService conventions ∧ new.isModernService = old.isModernService := by
  have body := serviceBody_of_gist same
  obtain ⟨-, same⟩ := Prod.mk.inj same
  obtain ⟨params, same⟩ := Prod.mk.inj same
  obtain ⟨parents, -⟩ := Prod.mk.inj same
  have extends' : new.extendsNamed conventions.markerName = old.extendsNamed conventions.markerName := by
    have any (interface : Interface) : interface.extendsNamed conventions.markerName =
        (interface.parents.map Parent.name).any fun name => decide (name.last? = some conventions.markerName) := by
      rw [List.any_map]
      rfl
    rw [any, any, parents]
  have single := single_of_gist params
  unfold Interface.isLegacyService Interface.isModernService
  cases first : new.singleTypeParam? <;> cases second : old.singleTypeParam? <;> simp only [first, second, Option.map_none, Option.map_some, reduceCtorEq, Option.some.injEq] at single
  · exact ⟨rfl, rfl⟩
  · obtain ⟨name, kind⟩ := Prod.mk.inj single
    simp [name, kind, extends', body]

/-- A trait without type parameters is no service. -/
theorem no_service (plain : new.typeParams = []) (conventions : Conventions) :
    new.isLegacyService conventions = false ∧ new.isModernService = false := by
  simp [Interface.isLegacyService, Interface.isModernService, Interface.singleTypeParam?, plain]

theorem stands_name {aliased : Bool} (stands : StandsFor aliased old new) : new.name = old.name := by
  cases aliased with
  | true => exact stands.1
  | false => exact congrArg Prod.fst stands

/-! ### Attached services -/

/-- Where only one item counts, which is there once, only that counts. -/
theorem flatMap_once {α γ : Type} [DecidableEq α] {items : List α} {part : α → List γ} (one : α) (once : items.count one = 1)
    (others : ∀ item ∈ items, item ≠ one → part item = []) : items.flatMap part = part one := by
  induction items with
  | nil => cases once
  | cons first items ih =>
    have others' : ∀ item ∈ items, item ≠ one → part item = [] := fun item member => others item (List.mem_cons_of_mem _ member)
    rw [List.flatMap_cons]
    by_cases same : first = one
    · subst same
      have gone : first ∉ items := List.count_eq_zero.mp (by simpa using once)
      have nothing : items.flatMap part = [] :=
        List.flatMap_eq_nil_iff.mpr fun item member => others' item member fun same => gone (same ▸ member)
      rw [nothing, List.append_nil]
    · rw [List.count_cons_of_ne same] at once
      rw [others first List.mem_cons_self same, List.nil_append, ih once others']

theorem count_interface (decls : List Decl) (interface : Interface) :
    decls.count (.interface interface) = (decls.filterMap Decl.interface?).count interface := by
  rw [List.count_filterMap, List.count]
  refine List.countP_congr fun decl _ => ?_
  cases decl <;> simp [Decl.interface?]

theorem count_holder (decls : List Decl) (holder : Holder) : decls.count (.holder holder) = (decls.filterMap Decl.holder?).count holder := by
  rw [List.count_filterMap, List.count]
  refine List.countP_congr fun decl _ => ?_
  cases decl <;> simp [Decl.holder?]

theorem count_alone {α : Type} [DecidableEq α] {items : List α} {test : α → Bool} {one : α} (alone : items.filter test = [one]) :
    items.count one = 1 := by
  have passes : test one = true := (List.mem_filter.mp (alone ▸ List.mem_singleton_self one)).2
  rw [← List.count_filter passes, alone, List.count_singleton_self]

/-- What the objects of a name hold after the edits. -/
def gistsNamed (change : Decl → Change) (name : String) (decl : Decl) : List (String × List String) :=
  (gistsOf change decl).filter fun gist => gist.1 = name

theorem gistsNamed_other (named : decl.name? ≠ some name) : gistsNamed change name decl = [] := by
  cases decl with
  | interface other =>
    refine List.filter_eq_nil_iff.mpr fun gist member => ?_
    obtain ⟨members, -, rfl⟩ := List.mem_map.mp member
    simpa [Decl.name?] using named
  | holder other => simpa [gistsNamed, gistsOf, Decl.name?] using named
  | other => rfl

/-- The traits and objects of the name of a service are its own. -/
theorem own_decl (stands : Stands outline service) (declared : decl ∈ outline.decls) (named : decl.name? = some service.interface.name) :
    decl = .interface service.interface ∨ (∃ found, service.holder = some found ∧ decl = .holder found.2) ∨ ∃ last, decl = .other last := by
  cases decl with
  | interface other =>
    have member : other ∈ (interfacesOf outline).filter fun other => other.name = service.interface.name :=
      List.mem_filter.mpr ⟨mem_interfacesOf.mpr declared, by simpa [Decl.name?] using named⟩
    rw [stands.alone] at member
    exact .inl (congrArg _ (List.mem_singleton.mp member))
  | holder other =>
    have member : other ∈ (holdersOf outline).filter fun other => other.name = service.interface.name :=
      List.mem_filter.mpr ⟨mem_holdersOf.mpr declared, by simpa [Decl.name?] using named⟩
    rw [stands.objects, Option.mem_toList] at member
    obtain ⟨found, beside, rfl⟩ := Option.map_eq_some_iff.mp member
    exact .inr (.inl ⟨found, beside, rfl⟩)
  | other => exact .inr (.inr ⟨_, rfl⟩)

include plan

/-- After the edits there is one object beside a service, with its old members and the added ones. -/
theorem object_grown (listed : service ∈ services) (modern : service.shape = .modern) :
    outline.decls.flatMap (gistsNamed (changeOf planned.flatten) service.interface.name) =
      [(service.interface.name, (service.holder.map fun found => (holderGist found.2).2).getD [] ++ added .default service)] := by
  have stands := plan.stands service listed
  cases beside : service.holder with
  | some found =>
    obtain ⟨index, holder⟩ := found
    obtain ⟨declared, named⟩ := stands.beside beside
    obtain ⟨grows, keeps⟩ := modern_extended plan listed modern beside
    have alone := stands.objects
    rw [beside] at alone
    rw [flatMap_once (.holder holder) ((count_holder _ _).trans (count_alone alone))]
    · simp [gistsNamed, gistsOf, named, grows]
    · intro decl member different
      by_cases same : decl.name? = some service.interface.name
      · rcases own_decl stands member same with rfl | ⟨found, beside', rfl⟩ | ⟨_, rfl⟩
        · simp [gistsNamed, gistsOf, keeps]
        · cases beside.symm.trans beside'
          exact absurd rfl different
        · rfl
      · exact gistsNamed_other same
  | none =>
    have creates := modern_created plan listed modern beside
    rw [flatMap_once (.interface service.interface) ((count_interface _ _).trans (count_alone stands.alone))]
    · simp [gistsNamed, gistsOf, creates]
    · intro decl member different
      by_cases same : decl.name? = some service.interface.name
      · rcases own_decl stands member same with rfl | ⟨found, beside', -⟩ | ⟨_, rfl⟩
        · exact absurd rfl different
        · cases beside.symm.trans beside'
        · rfl
      · exact gistsNamed_other same

omit plan

/-- Both instances are in the object of a service, or they are added. -/
theorem instances_bound (modern : service.shape = .modern) {binding : String}
    (instance' : binding = Template.readerTBinding service.interface.name ∨ binding = Template.functorKBinding service.interface.name) :
    binding ∈ (service.holder.map fun found => (holderGist found.2).2).getD [] ++ added .default service := by
  rw [List.mem_append]
  by_cases bound : isBound service binding = true
  · unfold isBound at bound
    cases beside : service.holder with
    | none => simp [beside] at bound
    | some found => exact .inl (by simpa [beside, Holder.hasMember, holderGist] using bound)
  · refine .inr ?_
    rw [added, if_neg (by simp [modern]), List.nil_append]
    unfold missingInstances
    rcases instance' with rfl | rfl <;> simp [bound]

include plan

/-- A service that is kept is attached in the new text. -/
theorem attached_grown {names : List DottedName} (kept : Kept (changeOf planned.flatten) names outline later) (listed : service ∈ services)
    (modern : service.shape = .modern) (declared : new ∈ interfacesOf later) (named : new.name = service.interface.name) : IsAttached later new := by
  have objects := object_grown plan listed modern
  rw [← named] at objects
  constructor
  · have related := List.rel_filter (p := fun interface : Interface => decide (interface.name = new.name))
      (q := fun interface : Interface => decide (interface.name = new.name))
      (fun old new stands => by simp [stands_name stands]) (interfaces_grown kept.decls)
    have alone := (plan.stands service listed).alone
    rw [← named] at alone
    change List.Forall₂ _ ((interfacesOf outline).filter _) ((interfacesOf later).filter _) at related
    rw [alone] at related
    obtain ⟨only, others, -, rest, same⟩ := List.forall₂_cons_left_iff.mp related
    rw [List.forall₂_nil_left_iff.mp rest] at same
    have member : new ∈ (interfacesOf later).filter fun interface => interface.name = new.name :=
      List.mem_filter.mpr ⟨declared, by simp⟩
    rw [same] at member ⊢
    rw [List.mem_singleton.mp member]
  · have gists : ((holdersOf later).filter fun other => other.name = new.name).map holderGist =
        outline.decls.flatMap (gistsNamed (changeOf planned.flatten) new.name) := by
      have grown := congrArg (List.filter fun gist => decide (gist.1 = new.name)) (holders_grown kept.decls)
      rw [List.filter_map, List.filter_flatMap] at grown
      exact grown
    rw [objects] at gists
    obtain ⟨holder, alone, gist⟩ := List.map_eq_singleton_iff.mp gists
    obtain ⟨-, members⟩ := Prod.mk.inj gist
    have bound {binding : String} (instance' : binding = Template.readerTBinding service.interface.name ∨
        binding = Template.functorKBinding service.interface.name) : holder.hasMember binding = true := by
      have member := instances_bound modern instance'
      rw [← members] at member
      simpa [Holder.hasMember] using member
    refine ⟨holder, alone, ?_, ?_⟩
    · rw [named]
      exact bound (.inl rfl)
    · rw [named]
      exact bound (.inr rfl)

/-! ### The second pass -/

/-- The unit has no services left to work on. -/
theorem settled_grown {names : List DottedName} (kept : Kept (changeOf planned.flatten) names outline later) : Settled .default later := by
  intro new declared
  obtain ⟨old, declared', stands⟩ := related_right (interfaces_grown kept.decls) declared
  cases aliased : (changeOf planned.flatten (.interface old)).aliased with
  | true =>
    rw [aliased] at stands
    obtain ⟨legacy, modern⟩ := no_service stands.2 .default
    exact ⟨legacy, fun serves => by rw [modern] at serves; cases serves⟩
  | false =>
    rw [aliased] at stands
    obtain ⟨legacy, modern⟩ := shape_of_gist stands .default
    rw [legacy, modern]
    constructor
    · -- A legacy service has become an alias.
      by_contra serves
      obtain ⟨service, listed, rfl, shape⟩ := plan.legacy old declared' (by simpa using serves)
      rw [legacy_aliased plan listed shape] at aliased
      cases aliased
    · intro serves
      obtain ⟨service, listed, rfl, shape⟩ := plan.modern old declared' serves
      exact attached_grown plan kept listed shape declared (stands_name stands)

omit plan

theorem importsFound_grown {index : Index} {names : List DottedName} (kept : Kept change names outline later) (found : ImportsFound index outline)
    (known : ∀ name ∈ names, Scope.isMissing index name = false) : ImportsFound index later := by
  intro target member
  obtain ⟨clause, listed, member⟩ := List.mem_flatMap.mp member
  rcases kept.imports clause listed target member with ⟨old, listed', member'⟩ | isNew
  · exact found target (List.mem_flatMap.mpr ⟨old, listed', member'⟩)
  · exact known target isNew

/-- If the imports are added, no token goes on behind them, and they are found. -/
def TakesImports (index : Index) (source : List Char) (outline : Outline) (edits : List Edit) : Prop :=
  ∀ edit ∈ edits, importEdit? .default outline = some edit →
    Parted source outline ∧ ∀ name ∈ missingImports .default outline.imports, Scope.isMissing index name = false

instance (index : Index) (source : List Char) (outline : Outline) (edits : List Edit) : Decidable (TakesImports index source outline edits) :=
  inferInstanceAs (Decidable (∀ edit ∈ edits, _))

/-- What the rule returns for a unit leaves nothing to do, if what it writes can be read. -/
theorem second_pass_of_written {index : Index} {id : UnitId} {text : String} {group : EditSet}
    (resolved : ∃ scope, (SourceUnit.load index id text).scope = .ok scope) (returned : editSet .default (.load index id text) = .ok group)
    (imports : TakesImports index text.toList (SourceUnit.load index id text).outline group.edits)
    (written : ∀ services, Service.findAll (.load index id text) .default = .ok services → ∀ service ∈ services, Written text.toList service) :
    ∃ new, group.apply text = .ok new ∧ (∃ scope, (SourceUnit.load index id new).scope = .ok scope) ∧
      ∃ again, editSet .default (.load index id new) = .ok again ∧ again.edits = [] := by
  obtain ⟨outline, parsed, found⟩ := load_resolved_iff.mp resolved
  rw [load_outline parsed] at imports
  obtain ⟨services, planned, imported, arrangement⟩ := arrangement_of_editSet parsed returned
  have taken : ∀ edit ∈ imported, Parted text.toList outline ∧ ∀ name ∈ lacked outline, Scope.isMissing index name = false := by
    intro edit member
    have listed := (arrangement.arranged.parts edit).mpr (.inr member)
    exact imports edit (List.mem_mergeSort.mp listed) (arrangement.isImport edit member)
  obtain ⟨new, later, applied, read, kept⟩ := parse_mended parsed arrangement (written services arrangement.found) fun edit member =>
    (taken edit member).1
  have known : ∀ name ∈ gained imported outline, Scope.isMissing index name = false := by
    intro name gains
    cases given : imported with
    | none =>
      rw [gained, given] at gains
      cases gains
    | some edit =>
      rw [gained_of_mem given] at gains
      exact (taken edit given).2 name gains
  have resolved' := (@load_resolved_iff index id new).mpr ⟨later, read, importsFound_grown kept found known⟩
  refine ⟨new, applied, resolved', ?_⟩
  obtain ⟨scope, resolved'⟩ := resolved'
  refine no_edits_of_settled resolved' ?_
  rw [load_outline read]
  exact settled_grown arrangement.plan kept

end KindLift.SecondPasses
