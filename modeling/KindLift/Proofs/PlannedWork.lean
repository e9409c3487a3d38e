import KindLift.Proofs.OutlineGrowth
import KindLift.Proofs.SettledUnits

/-! The work that is planned for the services of a unit. A service is worked on in its trait
and in its object, with one edit for each; these say what becomes of the declaration. No
declaration is worked on twice, so what is edited while one declaration is read is its own
work. -/
namespace KindLift.PlannedWork
open AddInstances EditApplication EditSplicing InstancePlacement GrownOutlines ServiceMatching SettledUnits RuleLogic Traversal
open MendedOutlines OutlineGrowth

/-- An edit of a declaration, and what it makes of that. -/
structure Work where
  decl : Decl
  change : Change
  edit : Edit

/-- The members that the object of a service gets. -/
def added (conventions : Conventions) (service : Service) : List String :=
  (if service.shape = .legacy then [service.interface.name] else []) ++ (missingInstances conventions service).map Prod.fst

/-- The entries in which these are written. -/
def entries? (source : List Char) (conventions : Conventions) (service : Service) : Option (List String) :=
  ( relocatedEntry? source conventions service.interface (Phase.ofService service).advance).map
    (· ++ (missingInstances conventions service).map Prod.snd)

/-- The work on a service. -/
inductive Works (source : List Char) (conventions : Conventions) (service : Service) (entries : List String) : List Work → Prop where
  | moved {index : Nat} {holder : Holder} {edit extension : Edit} (legacy : service.shape = .legacy) (beside : service.holder = some (index, holder))
      (start : edit.start = service.interface.span.start) (stop : edit.stop = service.interface.span.stop)
      (text : edit.replacement = aliasText conventions service.interface.name) (extended : extendHolder? source holder entries = some extension) :
      Works source conventions service entries [⟨.interface service.interface, ⟨true, none⟩, edit⟩,
        ⟨.holder holder, ⟨false, some (added conventions service)⟩, extension⟩]
  | replaced {created : String} {edit : Edit} (legacy : service.shape = .legacy) (alone : service.holder = none)
      (made : newHolder? source service.interface entries = some created)
      (start : edit.start = service.interface.span.start) (stop : edit.stop = service.interface.span.stop)
      (text : edit.replacement = aliasText conventions service.interface.name ++ "\n\n" ++ created) :
      Works source conventions service entries [⟨.interface service.interface, ⟨true, some (added conventions service)⟩, edit⟩]
  | complete (modern : service.shape = .modern) (complete : missingInstances conventions service = []) :
      Works source conventions service entries []
  | extended {index : Nat} {holder : Holder} {extension : Edit} (modern : service.shape = .modern)
      (incomplete : missingInstances conventions service ≠ []) (beside : service.holder = some (index, holder))
      (extended : extendHolder? source holder entries = some extension) :
      Works source conventions service entries [⟨.holder holder, ⟨false, some (added conventions service)⟩, extension⟩]
  | created {created : String} (modern : service.shape = .modern) (incomplete : missingInstances conventions service ≠ [])
      (alone : service.holder = none) (made : newHolder? source service.interface entries = some created) :
      Works source conventions service entries [⟨.interface service.interface, ⟨false, some (added conventions service)⟩,
        .insertion service.interface.span.stop ("\n\n" ++ created)⟩]

variable {source : List Char} {conventions : Conventions} {service : Service} {entries : List String} {plan : Plan} {works : List Work}
  {outline : Outline} {unit : SourceUnit}

theorem replace?_some {start stop : Nat} {text : String} {edit : Edit} (made : Edit.replace? start stop text = some edit) :
    edit.start = start ∧ edit.stop = stop ∧ edit.replacement = text := by
  unfold Edit.replace? at made
  split at made
  · cases made
    exact ⟨rfl, rfl, rfl⟩
  · cases made

theorem relocates_iff (service : Service) : (Phase.ofService service).advance.relocates = true ↔ service.shape = .legacy := by
  simp [Phase.ofService, Phase.advance, Phase.relocates]

/-- What is planned for a service is the work on it. -/
theorem works_of_plan (planned : plan? source conventions service = some plan) :
    ∃ entries works, entries? source conventions service = some entries ∧ Works source conventions service entries works ∧
      plan.edits = works.map Work.edit ∧ plan.bindings = (missingInstances conventions service).map Prod.fst := by
  simp only [plan?, Option.bind_eq_bind, Option.bind_eq_some_iff, Option.pure_def, Option.some.injEq] at planned
  obtain ⟨relocated, moved, edits, edited, rfl⟩ := planned
  have given : entries? source conventions service = some (relocated ++ (missingInstances conventions service).map Prod.snd) := by
    rw [entries?, moved]
    rfl
  suffices ∃ works, Works source conventions service (relocated ++ (missingInstances conventions service).map Prod.snd) works ∧
      edits = works.map Work.edit from
    this.elim fun works made => ⟨_, works, given, made.1, made.2, rfl⟩
  simp only [edits?] at edited
  cases shape : service.shape with
  | legacy =>
    rw [if_pos ((relocates_iff service).mpr shape)] at edited
    cases beside : service.holder with
    | none =>
      simp only [beside, Option.bind_eq_bind, Option.bind_eq_some_iff, Option.pure_def, Option.some.injEq] at edited
      obtain ⟨created, made, edit, replaced, rfl⟩ := edited
      obtain ⟨start, stop, text⟩ := replace?_some replaced
      exact ⟨_, .replaced shape beside made start stop text, rfl⟩
    | some found =>
      simp only [beside, Option.bind_eq_bind, Option.bind_eq_some_iff, Option.pure_def, Option.some.injEq] at edited
      obtain ⟨edit, replaced, extension, extended, rfl⟩ := edited
      obtain ⟨start, stop, text⟩ := replace?_some replaced
      exact ⟨_, .moved shape beside start stop text extended, rfl⟩
  | modern =>
    have stays : ¬ (Phase.ofService service).advance.relocates = true := by simp [relocates_iff, shape]
    rw [if_neg stays] at edited
    rw [ relocatedEntry?, if_neg stays] at moved
    cases moved
    split at edited
    · rename_i empty
      cases edited
      exact ⟨[], .complete shape (List.map_eq_nil_iff.mp (List.isEmpty_iff.mp empty)), rfl⟩
    · rename_i incomplete
      have lacks : missingInstances conventions service ≠ [] := by
        intro none
        simp [none] at incomplete
      cases beside : service.holder with
      | none =>
        simp only [beside, Option.bind_eq_bind, Option.bind_eq_some_iff, Option.pure_def, Option.some.injEq] at edited
        obtain ⟨created, made, rfl⟩ := edited
        exact ⟨_, .created shape lacks beside made, rfl⟩
      | some found =>
        simp only [beside, Option.bind_eq_bind, Option.bind_eq_some_iff, Option.pure_def, Option.some.injEq] at edited
        obtain ⟨extension, extended, rfl⟩ := edited
        exact ⟨_, .extended shape lacks beside extended, rfl⟩

/-! ### Services and their declarations -/

/-- A service stands in an outline as the only trait of its name, and its object is the only
object of that name. -/
structure Stands (outline : Outline) (service : Service) : Prop where
  alone : ((interfacesOf outline).filter fun other => other.name = service.interface.name) = [service.interface]
  objects : ((holdersOf outline).filter fun other => other.name = service.interface.name) = (service.holder.map Prod.snd).toList

theorem mem_interfacesOf {interface : Interface} : interface ∈ interfacesOf outline ↔ .interface interface ∈ outline.decls := by
  rw [interfacesOf, List.mem_filterMap]
  constructor
  · rintro ⟨decl, listed, found⟩
    cases decl with
    | interface declared =>
      cases found
      exact listed
    | _ => cases found
  · exact fun listed => ⟨_, listed, rfl⟩

theorem mem_holdersOf {holder : Holder} : holder ∈ holdersOf outline ↔ .holder holder ∈ outline.decls := by
  rw [holdersOf, List.mem_filterMap]
  constructor
  · rintro ⟨decl, listed, found⟩
    cases decl with
    | holder declared =>
      cases found
      exact listed
    | _ => cases found
  · exact fun listed => ⟨_, listed, rfl⟩

theorem Stands.declared (stands : Stands outline service) : .interface service.interface ∈ outline.decls := by
  have member : service.interface ∈ [service.interface] := List.mem_cons_self
  rw [← stands.alone] at member
  exact mem_interfacesOf.mp (List.mem_filter.mp member).1

theorem Stands.beside (stands : Stands outline service) {index : Nat} {holder : Holder} (beside : service.holder = some (index, holder)) :
    .holder holder ∈ outline.decls ∧ holder.name = service.interface.name := by
  have member : holder ∈ (service.holder.map Prod.snd).toList := by simp [beside]
  rw [← stands.objects] at member
  obtain ⟨listed, named⟩ := List.mem_filter.mp member
  exact ⟨mem_holdersOf.mp listed, of_decide_eq_true named⟩

theorem stands_of_identify {shape : Shape} {found : Nat × Interface} (listed : found ∈ unit.interfaces)
    (identified : Service.identify unit shape found = .ok service) :
    Stands unit.outline service ∧ service.shape = shape ∧ service.interface = found.2 := by
  obtain ⟨only, unique, rest⟩ := bind_eq_ok_iff.mp identified
  obtain ⟨holder, companion, rest⟩ := bind_eq_ok_iff.mp rest
  obtain rfl : service = ⟨shape, found.1, found.2, holder⟩ := by
    dsimp only at rest
    split at rest
    · obtain ⟨-, -, same⟩ := bind_eq_ok_iff.mp rest
      exact (Except.ok.inj same).symm
    · exact (Except.ok.inj rest).symm
  obtain ⟨-, -, unique⟩ := bind_eq_ok_iff.mp unique
  obtain ⟨-, -, companion⟩ := bind_eq_ok_iff.mp companion
  refine ⟨⟨?_, ?_⟩, rfl, rfl⟩
  · rw [← filter_named]
    have named := mem_named listed
    split at unique
    · rename_i none
      rw [none] at named
      cases named
    · rename_i single
      rw [single, List.mem_singleton] at named
      rw [single, named]
      rfl
    · cases unique
  · rw [← filter_holders]
    split at companion
    · rename_i none
      cases companion
      rw [none]
      rfl
    · rename_i single
      cases companion
      rw [single]
      rfl
    · cases companion

/-- The services of a unit and what is planned for them. -/
structure Planned (source : List Char) (conventions : Conventions) (outline : Outline) (services : List Service) (planned : List (List Work)) :
    Prop where
  stands : ∀ service ∈ services, Stands outline service
  apart : services.Pairwise fun a b => a.interface.name ≠ b.interface.name
  works : List.Forall₂ (fun service works => ∃ entries, entries? source conventions service = some entries ∧
    Works source conventions service entries works) services planned
  legacy : ∀ interface ∈ interfacesOf outline, interface.isLegacyService conventions = true →
    ∃ service ∈ services, service.interface = interface ∧ service.shape = .legacy
  modern : ∀ interface ∈ interfacesOf outline, interface.isModernService = true →
    ∃ service ∈ services, service.interface = interface ∧ service.shape = .modern

theorem findShape_stands {shape : Shape} {test : Interface → Bool} {services : List Service}
    (found : Service.findShape unit shape test = .ok services) : ∀ service ∈ services, Stands unit.outline service := by
  intro service member
  obtain ⟨items, filtered, each⟩ := bind_eq_ok_iff.mp found
  obtain ⟨-, -, same⟩ := bind_eq_ok_iff.mp filtered
  cases same
  obtain ⟨place, among, identified⟩ := mem_of_mapM each member
  exact (stands_of_identify (List.mem_filter.mp among).1 identified).1

theorem findShape_each {shape : Shape} {test : Interface → Bool} {services : List Service}
    (found : Service.findShape unit shape test = .ok services) {interface : Interface} (listed : interface ∈ interfacesOf unit.outline)
    (passes : test interface = true) : ∃ service ∈ services, service.interface = interface ∧ service.shape = shape := by
  rw [← interfaces_snd] at listed
  obtain ⟨place, member, rfl⟩ := List.mem_map.mp listed
  obtain ⟨service, among, identified, -⟩ := findShape_mem found member passes
  obtain ⟨-, shaped, same⟩ := stands_of_identify member identified
  exact ⟨service, among, same, shaped⟩

/-- The edits of the rule are those of the work on the services of the unit, and the import
when an instance is added. -/
theorem planned_of_editSet {group : EditSet} (returned : editSet conventions unit = .ok group) :
    ∃ services planned, Service.findAll unit conventions = .ok services ∧ Planned unit.text.toList conventions unit.outline services planned ∧
      (group.edits = planned.flatten.map Work.edit ∨
        group.edits = planned.flatten.map Work.edit ++ (importEdit? conventions unit.outline).toList) := by
  obtain ⟨plans, made, valid⟩ := bind_eq_ok_iff.mp returned
  have edits := validated_edits valid
  obtain ⟨services, found, each⟩ := bind_eq_ok_iff.mp made
  have related := mapM_eq_ok_iff.mp each
  obtain ⟨planned, works, flat⟩ : ∃ planned, List.Forall₂ (fun service works => ∃ entries,
      entries? unit.text.toList conventions service = some entries ∧ Works unit.text.toList conventions service entries works) services planned ∧
      plans.flatMap Plan.edits = planned.flatten.map Work.edit := by
    clear found made valid edits each
    induction related with
    | nil => exact ⟨[], .nil, rfl⟩
    | @cons service plan services plans first _ ih =>
      obtain ⟨planned, works, flat⟩ := ih
      split at first
      on_goal 2 => cases first
      rename_i found
      cases first
      obtain ⟨entries, work, given, done, same, -⟩ := works_of_plan found
      exact ⟨work :: planned, .cons ⟨entries, given, done⟩ works, by simp [flat, same]⟩
  have distinct := @findAll_safely unit conventions
  rw [found] at distinct
  obtain ⟨legacy, foundLegacy, rest⟩ := bind_eq_ok_iff.mp found
  obtain ⟨modern, foundModern, same⟩ := bind_eq_ok_iff.mp rest
  cases same
  refine ⟨_, planned, found, ⟨?_, distinct.2, works, ?_, ?_⟩, ?_⟩
  · exact List.forall_mem_append.mpr ⟨findShape_stands foundLegacy, findShape_stands foundModern⟩
  · intro interface listed passes
    obtain ⟨service, member, known⟩ := findShape_each foundLegacy listed passes
    exact ⟨service, List.mem_append_left _ member, known⟩
  · intro interface listed passes
    obtain ⟨service, member, known⟩ := findShape_each foundModern listed passes
    exact ⟨service, List.mem_append_right _ member, known⟩
  · rw [edits, flat]
    split
    · exact .inr rfl
    · exact .inl (List.append_nil _)

/-! ### Work on declarations -/

variable {services : List Service} {planned : List (List Work)} {work other : Work}

/-- A service is worked on in its trait and in its object. -/
theorem Works.decl (made : Works source conventions service entries works) (member : work ∈ works) :
    work.decl = .interface service.interface ∨ ∃ index holder, service.holder = some (index, holder) ∧ work.decl = .holder holder := by
  cases made with
  | complete => cases member
  | moved _ beside =>
    rcases List.mem_cons.mp member with rfl | member
    · exact .inl rfl
    · obtain rfl := List.mem_singleton.mp member
      exact .inr ⟨_, _, beside, rfl⟩
  | extended _ _ beside =>
    obtain rfl := List.mem_singleton.mp member
    exact .inr ⟨_, _, beside, rfl⟩
  | replaced | created =>
    obtain rfl := List.mem_singleton.mp member
    exact .inl rfl

theorem Works.apart (made : Works source conventions service entries works) : works.Pairwise fun a b => a.decl ≠ b.decl := by
  cases made with
  | complete => exact .nil
  | moved => exact List.pairwise_pair.mpr (by simp)
  | _ => exact List.pairwise_singleton _ _

theorem Works.declared (made : Works source conventions service entries works) (stands : Stands outline service) (member : work ∈ works) :
    work.decl ∈ outline.decls ∧ work.decl.name? = some service.interface.name := by
  rcases made.decl member with decl | ⟨index, holder, beside, decl⟩ <;> rw [decl]
  · exact ⟨stands.declared, rfl⟩
  · obtain ⟨listed, named⟩ := stands.beside beside
    exact ⟨listed, congrArg some named⟩

theorem Planned.mem_flatten (plan : Planned source conventions outline services planned) (member : work ∈ planned.flatten) :
    ∃ service ∈ services, ∃ entries works, entries? source conventions service = some entries ∧
      Works source conventions service entries works ∧ works ∈ planned ∧ work ∈ works := by
  obtain ⟨works, listed, among⟩ := List.mem_flatten.mp member
  obtain ⟨service, found, entries, given, made⟩ := related_right plan.works listed
  exact ⟨service, found, entries, works, given, made, listed, among⟩

theorem Planned.declared (plan : Planned source conventions outline services planned) (member : work ∈ planned.flatten) :
    work.decl ∈ outline.decls := by
  obtain ⟨service, found, _, _, -, made, -, among⟩ := plan.mem_flatten member
  exact (made.declared (plan.stands service found) among).1

/-- No declaration is worked on twice. -/
theorem Planned.keys (plan : Planned source conventions outline services planned) :
    planned.flatten.Pairwise fun a b => a.decl ≠ b.decl := by
  obtain ⟨stands, apart, works, -, -⟩ := plan
  induction works with
  | nil => exact .nil
  | @cons service works services planned first later ih =>
    obtain ⟨_, -, made⟩ := first
    obtain ⟨different, apart⟩ := List.pairwise_cons.mp apart
    obtain ⟨here, stands⟩ := List.forall_mem_cons.mp stands
    rw [List.flatten_cons]
    refine List.pairwise_append.mpr ⟨made.apart, ih stands apart, fun work member other member' same => ?_⟩
    obtain ⟨works', listed, among⟩ := List.mem_flatten.mp member'
    obtain ⟨service', found, _, -, made'⟩ := related_right later listed
    have named := (made.declared here member).2
    rw [same, (made'.declared (stands service' found) among).2] at named
    exact different service' found (Option.some.inj named).symm

/-- What becomes of a declaration. -/
def changeOf (works : List Work) (decl : Decl) : Change :=
  ((works.find? fun work => work.decl = decl).map Work.change).getD ⟨false, none⟩

theorem changeOf_work (keys : works.Pairwise fun a b => a.decl ≠ b.decl) (member : work ∈ works) : changeOf works work.decl = work.change := by
  induction keys with
  | nil => cases member
  | @cons first works different _ ih =>
    rcases List.mem_cons.mp member with rfl | later
    · simp [changeOf]
    · have other : ¬ first.decl = work.decl := different work later
      rw [changeOf, List.find?_cons_of_neg (by simpa using other)]
      exact ih later

theorem changeOf_none {decl : Decl} (none : ∀ work ∈ works, work.decl ≠ decl) : changeOf works decl = ⟨false, .none⟩ := by
  have nothing : (works.find? fun work => work.decl = decl) = Option.none :=
    List.find?_eq_none.mpr fun work member => by simpa using none work member
  rw [changeOf, nothing]
  rfl

end KindLift.PlannedWork
