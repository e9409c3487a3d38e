import KindLift.Proofs.RuleSafety

/-! The units the rule for instances has nothing to do in. They are the resolved
units in which every service is attached: the only one of its name, beside the only
object of that name, which has both instances. -/
namespace KindLift.SettledUnits
open Traversal RuleLogic ServiceMatching RuleSafety

def interfacesOf (outline : Outline) : List Interface := outline.decls.filterMap Decl.interface?

def holdersOf (outline : Outline) : List Holder := outline.decls.filterMap Decl.holder?

/-- The interface is the only one of its name, and so is the object beside it,
which has both instances. -/
def IsAttached (outline : Outline) (interface : Interface) : Prop :=
  ((interfacesOf outline).filter fun other => other.name = interface.name) = [interface] ∧
    ∃ holder, ((holdersOf outline).filter fun other => other.name = interface.name) = [holder] ∧
      holder.hasMember (Template.readerTBinding interface.name) = true ∧
      holder.hasMember (Template.functorKBinding interface.name) = true

/-- No legacy service is left, and every other service is attached. -/
def Settled (conventions : Conventions) (outline : Outline) : Prop :=
  ∀ interface ∈ interfacesOf outline, interface.isLegacyService conventions = false ∧
    (interface.isModernService = true → IsAttached outline interface)

/-- All names the imports refer to are known, as far as they should be. -/
def ImportsFound (index : Index) (outline : Outline) : Prop :=
  ∀ target ∈ outline.imports.flatMap Import.targets, Scope.isMissing index target = false

variable {unit : SourceUnit} {conventions : Conventions} {shape : Shape} {service : Service}
  {interface : Interface} {index : Index} {id : UnitId} {text : String} {scope : Scope}

theorem map_zipIdx_filterMap (pick : Decl → Option β) (decls : List Decl) (first : Nat) :
    ((decls.zipIdx first).filterMap fun (decl, place) =>
      (pick decl).map fun found => (place, found)).map Prod.snd = decls.filterMap pick := by
  induction decls generalizing first with
  | nil => rfl
  | cons decl decls ih =>
    rw [List.zipIdx_cons, List.filterMap_cons, List.filterMap_cons]
    cases picked : pick decl with
    | none => simp [picked, ih (first + 1)]
    | some found => simp [picked, ih (first + 1)]

theorem interfaces_snd (unit : SourceUnit) : unit.interfaces.map Prod.snd = interfacesOf unit.outline :=
  map_zipIdx_filterMap Decl.interface? unit.outline.decls 0

theorem holders_snd (unit : SourceUnit) : unit.holders.map Prod.snd = holdersOf unit.outline :=
  map_zipIdx_filterMap Decl.holder? unit.outline.decls 0

theorem filter_named (unit : SourceUnit) (name : String) :
    ((unit.interfaces.filter fun (_, other) => other.name = name).map Prod.snd) =
      (interfacesOf unit.outline).filter fun other => other.name = name := by
  rw [← interfaces_snd, List.filter_map]
  rfl

/-- An interface is one of its name. -/
theorem mem_named {found : Nat × Interface} (listed : found ∈ unit.interfaces) :
    found ∈ unit.interfaces.filter fun (_, other) => other.name = found.2.name := List.mem_filter.mpr ⟨listed, decide_eq_true rfl⟩

theorem filter_holders (unit : SourceUnit) (name : String) :
    ((unit.holders.filter fun (_, other) => other.name = name).map Prod.snd) =
      (holdersOf unit.outline).filter fun other => other.name = name := by
  rw [← holders_snd, List.filter_map]
  rfl

theorem scopeOf_eq_ok_iff : unit.scopeOf = .ok scope ↔ unit.scope = .ok scope := by
  unfold SourceUnit.scopeOf
  cases unit.scope with
  | ok found => simp only [Except.ok.injEq]
  | error cause => exact ⟨by simp, by simp⟩

/-- A modern service is identified together with the object that has its instances. -/
theorem identify_attached {found : Nat × Interface} (resolved : unit.scope = .ok scope)
    (attached : IsAttached unit.outline found.2) :
    ∃ service, Service.identify unit .modern found = .ok service ∧
      service.shape = .modern ∧ AddInstances.missingInstances conventions service = [] := by
  obtain ⟨alone, holder, single, reader, functor⟩ := attached
  rw [← filter_named] at alone
  rw [← filter_holders] at single
  obtain ⟨only, alone, -⟩ := List.map_eq_singleton_iff.mp alone
  obtain ⟨beside, objects, rfl⟩ := List.map_eq_singleton_iff.mp single
  have unique : unit.uniqueInterface found.2.name = .ok (some only) := by
    refine bind_eq_ok_iff.mpr ⟨scope, scopeOf_eq_ok_iff.mpr resolved, ?_⟩
    rw [alone]
    rfl
  have companion : unit.companion found.2 = .ok (some beside) := by
    refine bind_eq_ok_iff.mpr ⟨scope, scopeOf_eq_ok_iff.mpr resolved, ?_⟩
    rw [objects]
    rfl
  refine ⟨⟨.modern, found.1, found.2, some beside⟩, ?_, rfl, ?_⟩
  · refine bind_eq_ok_iff.mpr ⟨_, unique, bind_eq_ok_iff.mpr ⟨_, companion, ?_⟩⟩
    rfl
  · simp [AddInstances.missingInstances, AddInstances.isBound, reader, functor]

/-- An identified service that lacks no instance is attached. -/
theorem attached_of_identify {found : Nat × Interface} (listed : found ∈ unit.interfaces)
    (identified : Service.identify unit .modern found = .ok service)
    (complete : AddInstances.missingInstances conventions service = []) :
    IsAttached unit.outline found.2 := by
  obtain ⟨only, unique, rest⟩ := bind_eq_ok_iff.mp identified
  obtain ⟨holder, companion, rest⟩ := bind_eq_ok_iff.mp rest
  cases rest
  obtain ⟨-, -, unique⟩ := bind_eq_ok_iff.mp unique
  obtain ⟨-, -, companion⟩ := bind_eq_ok_iff.mp companion
  have named := mem_named listed
  refine ⟨?_, ?_⟩
  · rw [← filter_named]
    split at unique
    · rename_i none
      rw [none] at named
      cases named
    · rename_i single
      rw [single, List.mem_singleton] at named
      rw [single, named]
      rfl
    · cases unique
  · simp only [AddInstances.missingInstances, AddInstances.isBound] at complete
    split at companion
    · cases companion
      simp at complete
    · rename_i beside single
      cases companion
      refine ⟨beside.2, ?_, ?_⟩
      · rw [← filter_holders, single]
        rfl
      · simpa using complete
    · cases companion

/-- A legacy service is always relocated. -/
theorem plan?_edits_ne_nil {source : List Char} {plan : AddInstances.Plan}
    (legacy : service.shape = .legacy)
    (planned : AddInstances.plan? source conventions service = some plan) : plan.edits ≠ [] := by
  have relocates : ((Phase.ofService service).advance).relocates = true := by
    rw [Phase.ofService, legacy]
    rfl
  simp only [AddInstances.plan?, Option.bind_eq_bind, Option.bind_eq_some_iff, Option.pure_def,
    Option.some.injEq] at planned
  obtain ⟨relocated, -, edits, edited, rfl⟩ := planned
  simp only [AddInstances.edits?, relocates, if_true] at edited
  rintro rfl
  split at edited <;> simp [Option.bind_eq_some_iff] at edited

/-- A modern service is edited when it lacks an instance, and only then. -/
theorem plan?_modern {source : List Char} {plan : AddInstances.Plan} (modern : service.shape = .modern)
    (planned : AddInstances.plan? source conventions service = some plan) :
    plan.edits = [] ↔ AddInstances.missingInstances conventions service = [] := by
  have stays : ((Phase.ofService service).advance).relocates = false := by
    rw [Phase.ofService, modern]
    rfl
  simp only [AddInstances.plan?, AddInstances.relocatedEntry?, stays, Bool.false_eq_true, if_false,
    Option.bind_eq_bind, Option.bind_eq_some_iff, Option.pure_def, Option.some.injEq] at planned
  obtain ⟨_, rfl, edits, edited, rfl⟩ := planned
  simp only [AddInstances.edits?, stays, Bool.false_eq_true, if_false, List.nil_append] at edited
  constructor
  · rintro rfl
    split at edited
    · rename_i empty
      exact List.map_eq_nil_iff.mp (List.isEmpty_iff.mp empty)
    · split at edited <;> simp [Option.bind_eq_some_iff] at edited
  · intro complete
    rw [complete] at edited
    exact (Option.some.inj edited).symm

theorem validated_edits {edits : List Edit} {group : EditSet} {rule : String}
    (valid : Rule.validated rule unit edits = .ok group) : group.edits = edits := by
  unfold Rule.validated at valid
  dsimp only at valid
  split at valid
  · cases valid
    rfl
  · cases valid

/-- The plans of a unit are made for its services, one for each. -/
theorem plans_eq_ok {plans : List AddInstances.Plan} (made : AddInstances.plans conventions unit = .ok plans) :
    ∃ services, Service.findAll unit conventions = .ok services ∧
      ∀ service ∈ services, ∃ plan ∈ plans,
        AddInstances.plan? unit.text.toList conventions service = some plan := by
  obtain ⟨services, found, each⟩ := bind_eq_ok_iff.mp made
  refine ⟨services, found, fun service member => ?_⟩
  obtain ⟨plan, listed, planned⟩ := mapM_mem each member
  split at planned
  · rename_i made
    cases planned
    exact ⟨plan, listed, made⟩
  · cases planned

/-- Each interface of a shape leads to a service of that shape. -/
theorem findShape_mem {test : Interface → Bool} {services : List Service}
    (found : Service.findShape unit shape test = .ok services) {place : Nat × Interface}
    (listed : place ∈ unit.interfaces) (passes : test place.2 = true) :
    ∃ service ∈ services, Service.identify unit shape place = .ok service ∧ service.shape = shape := by
  obtain ⟨items, filtered, each⟩ := bind_eq_ok_iff.mp found
  obtain ⟨-, -, same⟩ := bind_eq_ok_iff.mp filtered
  cases same
  obtain ⟨service, member, identified⟩ := mapM_mem each (List.mem_filter.mpr ⟨listed, passes⟩)
  refine ⟨service, member, identified, ?_⟩
  obtain ⟨-, -, rest⟩ := bind_eq_ok_iff.mp identified
  obtain ⟨holder, -, rest⟩ := bind_eq_ok_iff.mp rest
  dsimp only at rest
  split at rest
  · obtain ⟨-, -, same⟩ := bind_eq_ok_iff.mp rest
    cases same
    rfl
  · cases rest
    rfl

/-- A unit for which the rule has no edits is settled. -/
theorem settled_of_no_edits {group : EditSet} (returned : AddInstances.editSet conventions unit = .ok group)
    (empty : group.edits = []) : Settled conventions unit.outline := by
  obtain ⟨plans, made, valid⟩ := bind_eq_ok_iff.mp returned
  rw [validated_edits valid, List.append_eq_nil_iff, List.flatMap_eq_nil_iff] at empty
  obtain ⟨services, found, planned⟩ := plans_eq_ok made
  obtain ⟨legacy, foundLegacy, rest⟩ := bind_eq_ok_iff.mp found
  obtain ⟨modern, foundModern, same⟩ := bind_eq_ok_iff.mp rest
  cases same
  intro interface listed
  rw [← interfaces_snd] at listed
  obtain ⟨place, member, rfl⟩ := List.mem_map.mp listed
  constructor
  · by_contra passes
    obtain ⟨service, found, -, shaped⟩ :=
      findShape_mem foundLegacy member (Bool.not_eq_false _ ▸ passes)
    obtain ⟨plan, used, planned⟩ := planned service (List.mem_append_left _ found)
    exact plan?_edits_ne_nil shaped planned (empty.1 plan used)
  · intro passes
    obtain ⟨service, found, identified, shaped⟩ := findShape_mem foundModern member passes
    obtain ⟨plan, used, planned⟩ := planned service (List.mem_append_right _ found)
    exact attached_of_identify member identified ((plan?_modern shaped planned).mp (empty.1 plan used))

theorem plan?_complete (source : List Char) (modern : service.shape = .modern)
    (complete : AddInstances.missingInstances conventions service = []) :
    ∃ plan, AddInstances.plan? source conventions service = some plan ∧
      plan.edits = [] ∧ plan.bindings = [] := by
  have stays : ((Phase.ofService service).advance).relocates = false := by
    rw [Phase.ofService, modern]
    rfl
  refine ⟨⟨service, (Phase.ofService service).advance.advance, [], []⟩, ?_, rfl, rfl⟩
  simp [AddInstances.plan?, AddInstances.relocatedEntry?, AddInstances.edits?, stays, complete]

theorem findAll_of_settled (resolved : unit.scope = .ok scope) (settled : Settled conventions unit.outline) :
    ∃ services, Service.findAll unit conventions = .ok services ∧
      ∀ service ∈ services, service.shape = .modern ∧
        AddInstances.missingInstances conventions service = [] := by
  have known := scopeOf_eq_ok_iff.mpr resolved
  have listed : ∀ place ∈ unit.interfaces, place.2 ∈ interfacesOf unit.outline := by
    intro place member
    rw [← interfaces_snd]
    exact List.mem_map_of_mem member
  have none : unit.interfaces.filter (fun (_, interface) => interface.isLegacyService conventions) = [] := by
    refine List.filter_eq_nil_iff.mpr fun place member => ?_
    exact Bool.not_eq_true _ ▸ (settled place.2 (listed place member)).1
  have legacy : Service.findShape unit .legacy (·.isLegacyService conventions) = .ok [] := by
    refine bind_eq_ok_iff.mpr ⟨[], bind_eq_ok_iff.mpr ⟨scope, known, ?_⟩, rfl⟩
    rw [none]
    rfl
  have each : ∀ place ∈ unit.interfaces.filter (fun (_, interface) => interface.isModernService),
      ∃ service, Service.identify unit .modern place = .ok service ∧
        service.shape = .modern ∧ AddInstances.missingInstances conventions service = [] := by
    intro place member
    obtain ⟨member, passes⟩ := List.mem_filter.mp member
    exact identify_attached resolved ((settled place.2 (listed place member)).2 passes)
  obtain ⟨services, modern, complete⟩ := mapM_ok_of_forall each
  refine ⟨services, bind_eq_ok_iff.mpr ⟨[], legacy, bind_eq_ok_iff.mpr ⟨services, ?_, rfl⟩⟩, complete⟩
  exact bind_eq_ok_iff.mpr ⟨_, bind_eq_ok_iff.mpr ⟨scope, known, rfl⟩, modern⟩

theorem plans_of_settled (resolved : unit.scope = .ok scope) (settled : Settled conventions unit.outline) :
    ∃ plans, AddInstances.plans conventions unit = .ok plans ∧
      ∀ plan ∈ plans, plan.edits = [] ∧ plan.bindings = [] := by
  obtain ⟨services, found, complete⟩ := findAll_of_settled resolved settled
  unfold AddInstances.plans
  rw [found]
  refine mapM_ok_of_forall fun service member => ?_
  obtain ⟨shaped, complete⟩ := complete service member
  obtain ⟨plan, planned, empty⟩ := plan?_complete unit.text.toList shaped complete
  rw [planned]
  exact ⟨plan, rfl, empty⟩

/-- In a settled unit the rule has nothing to edit. -/
theorem no_edits_of_settled (resolved : unit.scope = .ok scope) (settled : Settled conventions unit.outline) :
    ∃ group, AddInstances.editSet conventions unit = .ok group ∧ group.edits = [] := by
  obtain ⟨plans, made, empty⟩ := plans_of_settled resolved settled
  have noEdits : plans.flatMap AddInstances.Plan.edits = [] :=
    List.flatMap_eq_nil_iff.mpr fun plan member => (empty plan member).1
  have noBindings : (plans.any fun plan => !plan.bindings.isEmpty) = false := by
    refine List.any_eq_false.mpr fun plan member => ?_
    rw [(empty plan member).2]
    exact Bool.false_ne_true
  have valid : (EditSet.onText AddInstances.ruleName unit.text []).validate = .ok () :=
    EditApplication.validate_of_apart .nil
  refine ⟨EditSet.onText AddInstances.ruleName unit.text [], ?_, rfl⟩
  refine bind_eq_ok_iff.mpr ⟨plans, made, ?_⟩
  simp only [noEdits, noBindings, Bool.false_eq_true, if_false, List.append_nil, Rule.validated, valid]

/-- The settled units are those that resolve and in which every service is attached. -/
theorem no_edits_iff : (∃ group, AddInstances.editSet conventions unit = .ok group ∧ group.edits = []) ↔
    (∃ scope, unit.scope = .ok scope) ∧ Settled conventions unit.outline := by
  constructor
  · rintro ⟨group, returned, empty⟩
    refine ⟨?_, settled_of_no_edits returned empty⟩
    obtain ⟨_, made, -⟩ := bind_eq_ok_iff.mp returned
    obtain ⟨_, found, -⟩ := bind_eq_ok_iff.mp made
    obtain ⟨_, legacy, -⟩ := bind_eq_ok_iff.mp found
    obtain ⟨_, filtered, -⟩ := bind_eq_ok_iff.mp legacy
    obtain ⟨scope, known, -⟩ := bind_eq_ok_iff.mp filtered
    exact ⟨scope, scopeOf_eq_ok_iff.mp known⟩
  · rintro ⟨⟨scope, resolved⟩, settled⟩
    exact no_edits_of_settled resolved settled

/-- A text is resolved when it parses and no import of it fails. -/
theorem load_resolved_iff : (∃ scope, (SourceUnit.load index id text).scope = .ok scope) ↔
    ∃ outline, Outline.parse text.toList = .ok outline ∧ ImportsFound index outline := by
  unfold SourceUnit.load
  cases parsed : Outline.parse text.toList with
  | error error => simp
  | ok outline =>
    simp only [Except.ok.injEq, exists_eq_left', Scope.resolve, ImportsFound]
    split
    · rename_i target missing
      have failed := List.find?_some missing
      constructor
      · rintro ⟨_, same⟩
        cases same
      · intro found
        rw [found target (List.mem_of_find?_eq_some missing)] at failed
        cases failed
    · rename_i none
      refine ⟨fun _ target member => ?_, fun _ => ⟨_, rfl⟩⟩
      exact Bool.not_eq_true _ ▸ List.find?_eq_none.mp none target member

theorem load_outline {outline : Outline} (parsed : Outline.parse text.toList = .ok outline) :
    (SourceUnit.load index id text).outline = outline := by
  unfold SourceUnit.load
  rw [parsed]

end KindLift.SettledUnits
