import KindLift.Proofs.RuleLogic

/-! The services found in a unit are of pairwise different names: a name that
more than one interface or more than one object has makes the rule refuse the
unit. -/
namespace KindLift.ServiceMatching
open RuleLogic

variable {unit : SourceUnit} {conventions : Conventions} {shape : Shape} {name : String}

/-- The interface is of the shape a service of that kind has. -/
def HasShape (conventions : Conventions) : Shape → Interface → Prop
  | .legacy, interface => interface.isLegacyService conventions = true
  | .modern, interface => interface.isModernService = true

/-- An interface of the unit that no other interface shares the name of, and the
object of that name. -/
structure Identified (unit : SourceUnit) (service : Service) : Prop where
  listed : (service.index, service.interface) ∈ unit.interfaces
  unique : ∀ found ∈ unit.interfaces, found.2.name = service.interface.name →
    found = (service.index, service.interface)
  holder : ∀ found ∈ service.holder, found ∈ unit.holders ∧ found.2.name = service.interface.name

theorem scopeOf_safely : Safely unit.scopeOf fun scope => unit.scope = .ok scope := by
  unfold SourceUnit.scopeOf
  split
  · assumption
  · rfl

/-- Whoever asks for the interface of a name is refused if there is more than one. -/
theorem uniqueInterface_safely : Safely (unit.uniqueInterface name) fun _ =>
    ∀ first ∈ unit.interfaces, ∀ second ∈ unit.interfaces,
      first.2.name = name → second.2.name = name → first = second := by
  refine scopeOf_safely.bind fun scope _ => ?_
  have named : ∀ found ∈ unit.interfaces, found.2.name = name →
      found ∈ unit.interfaces.filter fun place => place.2.name = name := by
    intro found member same
    exact List.mem_filter.mpr ⟨member, decide_eq_true same⟩
  split
  · rename_i none
    replace none : (unit.interfaces.filter fun place => place.2.name = name) = [] := none
    intro first member _ _ same
    have found := named first member same
    rw [none] at found
    cases found
  · rename_i only single
    replace single : (unit.interfaces.filter fun place => place.2.name = name) = [only] := single
    intro first member second member' same same'
    have left := named first member same
    have right := named second member' same'
    rw [single, List.mem_singleton] at left right
    rw [left, right]
  · rfl

theorem companion_safely (interface : Interface) : Safely (unit.companion interface) fun holder =>
    ∀ found ∈ holder, found ∈ unit.holders ∧ found.2.name = interface.name := by
  refine scopeOf_safely.bind fun scope _ => ?_
  split
  · intro found member
    cases member
  · rename_i only single
    intro found member
    cases member
    have listed := List.mem_singleton_self only
    rw [← single] at listed
    obtain ⟨member, named⟩ := List.mem_filter.mp listed
    exact ⟨member, of_decide_eq_true named⟩
  · rfl

theorem checkNested_safely (interface : Interface) (holder : Option (Nat × Holder)) :
    Safely (Service.checkNested unit interface holder) fun _ => True := by
  unfold Service.checkNested
  split
  · trivial
  · split
    · trivial
    · rfl

theorem identify_safely {found : Nat × Interface} (listed : found ∈ unit.interfaces) :
    Safely (Service.identify unit shape found) fun service =>
      Identified unit service ∧ (service.index, service.interface) = found := by
  refine uniqueInterface_safely.bind fun _ unique => ?_
  refine (companion_safely found.2).bind fun holder companion => ?_
  have identified : Identified unit ⟨shape, found.1, found.2, holder⟩ :=
    ⟨listed, fun other member same => unique other member found listed same rfl, companion⟩
  split
  · exact (checkNested_safely found.2 holder).bind fun _ _ => ⟨identified, rfl⟩
  · exact ⟨identified, rfl⟩

theorem interfacesWith_safely (test : Interface → Bool) :
    Safely (unit.interfacesWith test) fun found =>
      found = unit.interfaces.filter fun (_, interface) => test interface :=
  scopeOf_safely.bind fun _ _ => rfl

/-- The indexes of the interfaces increase. -/
theorem interfaces_increasing (unit : SourceUnit) :
    unit.interfaces.Pairwise fun first second => first.1 < second.1 := by
  have indexes : (unit.outline.decls.zipIdx.map Prod.snd).Pairwise (· < ·) := by
    rw [List.zipIdx_map_snd]
    exact List.pairwise_lt_range'
  refine List.Pairwise.filterMap _ ?_ (List.pairwise_map.mp indexes)
  rintro ⟨decl, index⟩ ⟨decl', index'⟩ less found same found' same'
  simp only [Option.map_eq_some_iff] at same same'
  obtain ⟨_, _, rfl⟩ := same
  obtain ⟨_, _, rfl⟩ := same'
  exact less

/-- Services of the same place have the same name, those of different places do not. -/
theorem Identified.index_eq {first second : Service} (identified : Identified unit first)
    (other : Identified unit second) (named : first.interface.name = second.interface.name) :
    (first.index, first.interface) = (second.index, second.interface) :=
  other.unique _ identified.listed named

/-- No interface has both shapes. -/
theorem shapes_exclusive {interface : Interface} (legacy : HasShape conventions .legacy interface)
    (modern : HasShape conventions .modern interface) : False := by
  unfold HasShape Interface.isLegacyService at legacy
  unfold HasShape Interface.isModernService at modern
  cases single : interface.singleTypeParam? with
  | none => simp [single] at legacy
  | some param =>
    simp only [single, Bool.and_eq_true, decide_eq_true_eq] at legacy modern
    rw [legacy.1.1.1] at modern
    cases modern.1

/-- The services of one shape, one for each interface of that shape. -/
theorem findShape_safely (unit : SourceUnit) {test : Interface → Bool}
    (shaped : ∀ interface, test interface = true → HasShape conventions shape interface) :
    Safely (Service.findShape unit shape test) fun services =>
      (∀ service ∈ services, Identified unit service ∧ HasShape conventions shape service.interface) ∧
      services.Pairwise fun a b => a.interface.name ≠ b.interface.name := by
  refine (interfacesWith_safely test).bind fun found same => ?_
  subst same
  refine (Safely.mapM fun item member => identify_safely (List.mem_filter.mp member).1).mono ?_
  intro services each
  have increasing := (interfaces_increasing unit).filter fun (_, interface) => test interface
  have members : ∀ item ∈ unit.interfaces.filter fun (_, interface) => test interface,
      test item.2 = true := fun item member => (List.mem_filter.mp member).2
  generalize unit.interfaces.filter (fun (_, interface) => test interface) = items at *
  induction each with
  | nil => exact ⟨by simp, .nil⟩
  | @cons item service items services first others ih =>
    obtain ⟨identified, place⟩ := first
    obtain ⟨behind, rest⟩ := List.pairwise_cons.mp increasing
    obtain ⟨each, apart⟩ := ih rest fun other member => members other (List.mem_cons_of_mem _ member)
    have passes : HasShape conventions shape service.interface := by
      apply shaped
      have passed := members item (List.mem_cons_self ..)
      rwa [← place] at passed
    refine ⟨List.forall_mem_cons.mpr ⟨⟨identified, passes⟩, each⟩, List.pairwise_cons.mpr ⟨?_, apart⟩⟩
    intro later member named
    obtain ⟨index, listed, related⟩ : ∃ item ∈ items, (later.index, later.interface) = item := by
      obtain ⟨position, bound, rfl⟩ := List.mem_iff_getElem.mp member
      have related := List.forall₂_iff_get.mp others
      exact ⟨items.get ⟨position, by rw [related.1]; exact bound⟩, List.get_mem .., (related.2 position _ bound).2⟩
    have equal := identified.index_eq (each later member).1 named
    have less := behind index listed
    rw [← related, ← place, equal] at less
    exact Nat.lt_irrefl _ less

/-- The services of a unit: identified, of their shape, and no two of one name. -/
theorem findAll_safely : Safely (Service.findAll unit conventions) fun services =>
    (∀ service ∈ services, Identified unit service) ∧
      services.Pairwise fun a b => a.interface.name ≠ b.interface.name := by
  have isLegacy : ∀ interface : Interface, interface.isLegacyService conventions = true →
      HasShape conventions .legacy interface := fun _ test => test
  have isModern : ∀ interface : Interface, interface.isModernService = true →
      HasShape conventions .modern interface := fun _ test => test
  refine (findShape_safely unit isLegacy).bind fun legacy found => ?_
  refine (findShape_safely unit isModern).bind fun modern found' => ?_
  refine ⟨?_, List.pairwise_append.mpr ⟨found.2, found'.2, ?_⟩⟩
  · intro service member
    rcases List.mem_append.mp member with member | member
    · exact (found.1 service member).1
    · exact (found'.1 service member).1
  · intro first member second member' named
    obtain ⟨identified, shaped⟩ := found.1 first member
    obtain ⟨other, shaped'⟩ := found'.1 second member'
    have same := identified.index_eq other named
    rw [(Prod.mk.inj same).2] at shaped
    exact shapes_exclusive shaped shaped'

end KindLift.ServiceMatching
