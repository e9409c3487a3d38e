import KindLift.Proofs.SettledUnits
import KindLift.Proofs.WrittenPlans

/-! Which services are found in a unit that is written token by token: those of the
specimens that have the shape of a service, each with the object beside it. -/
namespace KindLift.WrittenMatching
open Token Text Traversal RuleLogic SettledUnits EditApplication WrittenTokens WrittenReading WrittenGroups WrittenTraits WrittenObjects WrittenUnits
open WrittenTemplates WrittenInstances WrittenNesting WrittenServices WrittenPlans

variable {gap : List Char} {offset : Nat}

/-! ### Shapes -/

theorem all_returnsApplied (gap : List Char) (offset : Nat) (head : Name) (signatures : List Signature) :
    (methodsAt gap offset (signatures.map (headed head))).all (fun method => method.returnsApplied head.text) = true := by
  induction signatures generalizing offset with
  | nil => rfl
  | cons signature signatures ih =>
    have later := ih (offset + width ((headed head signature).pieces gap))
    have first : ((headed head signature).method gap offset).returnsApplied head.text = true := by
      simp [Method.returnsApplied, Signature.method, Signature.result, headed]
    rw [methodsAt] at later ⊢
    rw [List.map_cons, readAll, List.all_cons, first, later]
    rfl

theorem isServiceBody_interface (specimen : Specimen) (gap : List Char) (offset : Nat) :
    (specimen.interface gap offset).isServiceBody (headOf specimen.shape).text = true := by
  have members : (specimen.interface gap offset).methods = methodsAt ['\n', ' ', ' ']
      (specimen.trait.bodyOffset gap offset + (Piece.mk [' '] (.opener .brace)).width)
      (specimen.signatures.map (headed (headOf specimen.shape))) := rfl
  have filled : (specimen.interface gap offset).methods.isEmpty = false := by
    rw [members]
    cases shape : specimen.signatures with
    | nil => exact absurd shape specimen.nonempty
    | cons signature signatures => rfl
  have concrete : (specimen.interface gap offset).hasConcreteMembers = false := rfl
  rw [Interface.isServiceBody, filled, concrete, members, all_returnsApplied]
  rfl

theorem isLegacyService_interface (specimen : Specimen) (gap : List Char) (offset : Nat) :
    (specimen.interface gap offset).isLegacyService .default = decide (specimen.shape = some .legacy) := by
  have body := isServiceBody_interface specimen gap offset
  have params : (specimen.interface gap offset).typeParams =
      (typeParamsAt (offset + width (specimen.trait.opening gap)) (paramOf specimen.shape)).1 := rfl
  have parents : (specimen.interface gap offset).parents =
      parentsAt (specimen.trait.parentOffset gap offset) (ancestorOf specimen.shape) := rfl
  rw [Interface.isLegacyService, Interface.singleTypeParam?, params]
  cases shape : specimen.shape with
  | none => rfl
  | some found =>
    rw [shape] at body parents
    cases found with
    | legacy =>
      have marked : (specimen.interface gap offset).extendsNamed Conventions.default.markerName = true := by
        have marker : Conventions.default.markerName = thriftService.text := by decide +kernel
        rw [Interface.extendsNamed, parents, marker]
        simp [parentsAt, ancestorOf, Ancestor.parent, Path.segments, DottedName.last?]
      have body : (specimen.interface gap offset).isServiceBody Conventions.default.asyncType = true := body
      simp only [paramOf, typeParamsAt, marked, body]
      rfl
    | modern => rfl

theorem isModernService_interface (specimen : Specimen) (gap : List Char) (offset : Nat) :
    (specimen.interface gap offset).isModernService = decide (specimen.shape = some .modern) := by
  have body := isServiceBody_interface specimen gap offset
  have params : (specimen.interface gap offset).typeParams =
      (typeParamsAt (offset + width (specimen.trait.opening gap)) (paramOf specimen.shape)).1 := rfl
  rw [Interface.isModernService, Interface.singleTypeParam?, params]
  cases shape : specimen.shape with
  | none => rfl
  | some found =>
    rw [shape] at body
    cases found with
    | legacy => rfl
    | modern => exact body

/-! ### Names -/

/-- Items with different names are told apart by them. -/
theorem filter_named {items : List α} (key : α → String) (write : α → List β) (name : β → String)
    (named : ∀ item ∈ items, ∀ written ∈ write item, name written = key item)
    (distinct : (items.map key).Nodup) (member : item ∈ items) :
    (items.flatMap write).filter (fun written => name written = key item) = write item := by
  induction items with
  | nil => cases member
  | cons first others ih =>
    obtain ⟨here, there⟩ := List.forall_mem_cons.mp named
    rw [List.map_cons, List.nodup_cons] at distinct
    rw [List.flatMap_cons, List.filter_append]
    rcases List.mem_cons.mp member with rfl | later
    · have kept : (write item).filter (fun written => name written = key item) = write item :=
        List.filter_eq_self.mpr fun written listed => by simpa using here written listed
      have dropped : (others.flatMap write).filter (fun written => name written = key item) = [] := by
        rw [List.filter_eq_nil_iff]
        intro written listed same
        obtain ⟨other, found, inside⟩ := List.mem_flatMap.mp listed
        rw [decide_eq_true_eq, there other found written inside] at same
        exact distinct.1 (List.mem_map.mpr ⟨other, found, same⟩)
      rw [kept, dropped, List.append_nil]
    · have dropped : (write first).filter (fun written => name written = key item) = [] := by
        rw [List.filter_eq_nil_iff]
        intro written listed same
        rw [decide_eq_true_eq, here written listed] at same
        exact distinct.1 (List.mem_map.mpr ⟨item, later, same.symm⟩)
      rw [dropped, List.nil_append, ih there distinct.2 later]

/-! ### Declarations of blocks -/

/-- The declarations of a specimen, with the blanks in front of them. -/
def blockDecls (block : List Char × Specimen) : List (List Char × Declaration) := spread block.1 blankLine block.2.decls

def blockPieces (block : List Char × Specimen) : List Piece := declPieces (blockDecls block)

/-- A specimen that stands behind blanks that begin at `offset`. -/
structure Placed where
  offset : Nat
  gap : List Char
  specimen : Specimen

namespace Placed

def pieces (placed : Placed) : List Piece := blockPieces (placed.gap, placed.specimen)

def interface (placed : Placed) : Interface := placed.specimen.interface placed.gap placed.offset

def holder (placed : Placed) : Option Holder := placed.specimen.holder placed.gap placed.offset

def decls (placed : Placed) : List Decl := .interface placed.interface :: placed.holder.toList.map .holder

end Placed

/-- The specimens with the places where they begin. -/
def placeAll : Nat → List (List Char × Specimen) → List Placed :=
  readAll blockPieces fun offset block => ⟨offset, block.1, block.2⟩

theorem placeAll_cons (offset : Nat) (block : List Char × Specimen) (blocks : List (List Char × Specimen)) :
    placeAll offset (block :: blocks) = ⟨offset, block.1, block.2⟩ :: placeAll (offset + width (blockPieces block)) blocks := rfl

theorem declsAt_append (offset : Nat) (front back : List (List Char × Declaration)) :
    declsAt offset (front ++ back) = declsAt offset front ++ declsAt (offset + width (declPieces front)) back :=
  readAll_append front back offset

theorem declsAt_block (offset : Nat) (block : List Char × Specimen) :
    declsAt offset (blockDecls block) = (Placed.mk offset block.1 block.2).decls := by
  obtain ⟨gap, specimen⟩ := block
  rw [blockDecls, Specimen.decls, Placed.decls, Placed.holder, Specimen.holder]
  cases specimen.holder? <;> rfl

/-- What is read off blocks are the declarations of their specimens. -/
theorem declsAt_blocks (offset : Nat) (blocks : List (List Char × Specimen)) :
    declsAt offset (blocks.flatMap blockDecls) = (placeAll offset blocks).flatMap Placed.decls := by
  induction blocks generalizing offset with
  | nil => rfl
  | cons block blocks ih =>
    rw [List.flatMap_cons, declsAt_append, declsAt_block, ih, placeAll_cons, List.flatMap_cons]
    rfl

theorem interfaces_placed (placed : List Placed) :
    (placed.flatMap Placed.decls).filterMap Decl.interface? = placed.map Placed.interface := by
  induction placed with
  | nil => rfl
  | cons first placed ih =>
    have none : (first.holder.toList.map Decl.holder).filterMap Decl.interface? = [] := by
      cases first.holder <;> rfl
    have some : (Decl.interface first.interface).interface? = some first.interface := rfl
    rw [List.flatMap_cons, List.filterMap_append, ih, Placed.decls, List.filterMap_cons_some some, none]
    rfl

theorem holders_placed (placed : List Placed) :
    (placed.flatMap Placed.decls).filterMap Decl.holder? = placed.flatMap fun placed => placed.holder.toList := by
  induction placed with
  | nil => rfl
  | cons first placed ih =>
    have all : (first.holder.toList.map Decl.holder).filterMap Decl.holder? = first.holder.toList := by
      cases first.holder <;> rfl
    have none : (Decl.interface first.interface).holder? = none := rfl
    rw [List.flatMap_cons, List.filterMap_append, ih, Placed.decls, List.filterMap_cons_none none, all, List.flatMap_cons]

/-! ### Services of a unit -/

section Services

variable {unit : SourceUnit} {scope : Scope} {shape : Shape} {test : Interface → Bool} {all : List Placed}

/-- An interface that is alone with its name, beside at most one object of the name that
nests nothing, is a service. -/
theorem identify_eq {found : Nat × Interface} {holder : Option Holder} (inScope : unit.scope = .ok scope)
    (single : ((interfacesOf unit.outline).filter fun interface => interface.name = found.2.name) = [found.2])
    (beside : ((holdersOf unit.outline).filter fun holder => holder.name = found.2.name) = holder.toList)
    (bare : ∀ inner ∈ holder, inner.nested = []) :
    ∃ place, Service.identify unit shape found = .ok ⟨shape, found.1, found.2, holder.map (place, ·)⟩ := by
  have scopes : unit.scopeOf = .ok scope := scopeOf_eq_ok_iff.mpr inScope
  rw [← SettledUnits.filter_named] at single
  rw [← filter_holders] at beside
  obtain ⟨only, alone, -⟩ := List.map_eq_singleton_iff.mp single
  have unique : unit.uniqueInterface found.2.name = .ok (some only) := by
    refine bind_eq_ok_iff.mpr ⟨scope, scopes, ?_⟩
    rw [alone]
    rfl
  cases holder with
  | none =>
    have companion : unit.companion found.2 = .ok none := by
      refine bind_eq_ok_iff.mpr ⟨scope, scopes, ?_⟩
      rw [List.map_eq_nil_iff.mp beside]
      rfl
    refine ⟨0, bind_eq_ok_iff.mpr ⟨_, unique, bind_eq_ok_iff.mpr ⟨_, companion, ?_⟩⟩⟩
    cases shape <;> rfl
  | some inner =>
    obtain ⟨⟨place, other⟩, listed, same⟩ := List.map_eq_singleton_iff.mp beside
    obtain rfl : other = inner := same
    have companion : unit.companion found.2 = .ok (some (place, other)) := by
      refine bind_eq_ok_iff.mpr ⟨scope, scopes, ?_⟩
      rw [listed]
      rfl
    have none : other.nestedInterface? found.2.name = none := by
      rw [Holder.nestedInterface?, bare other rfl]
      rfl
    refine ⟨place, bind_eq_ok_iff.mpr ⟨_, unique, bind_eq_ok_iff.mpr ⟨_, companion, ?_⟩⟩⟩
    cases shape <;> simp [bind, Except.bind, Service.checkNested, none, pure, Except.pure]

/-- The unit declares the specimens, at their places in its text and under names of
their own. -/
structure Declares (unit : SourceUnit) (scope : Scope) (all : List Placed) : Prop where
  inScope : unit.scope = .ok scope
  decls : unit.outline.decls = all.flatMap Placed.decls
  distinct : (all.map fun placed => placed.specimen.name.text).Nodup
  sits : ∀ placed ∈ all, Sits unit.text.toList placed.offset placed.pieces
  begins : ∀ placed ∈ all, placed.gap = [] ∧ placed.offset = 0 ∨ ∃ front, placed.gap = front ++ ['\n']

/-- The text of the specimen when it is migrated. -/
def Placed.migrated (placed : Placed) : List Char :=
  written (declPieces (spread placed.gap blankLine placed.specimen.migrated))

/-- The plan for a specimen: what is bound, and edits that leave the migrated text. -/
structure Planned (placed : Placed) (plan : AddInstances.Plan) : Prop where
  bindings : plan.bindings = placed.specimen.missing.map fun definition => definition.name.text
  spliced : Spliced placed.offset (written placed.pieces) plan.edits placed.migrated

/-- The objects of specimens nest nothing. -/
theorem nested_holder (placed : Placed) : ∀ holder ∈ placed.holder, holder.nested = [] := by
  intro holder found
  obtain ⟨offset, gap, specimen⟩ := placed
  unfold Placed.holder Specimen.holder Specimen.holder? at found
  cases object : specimen.object with
  | none =>
    rw [object] at found
    cases found
  | some inside =>
    rw [object] at found
    cases found
    cases inside with
    | none => rfl
    | some definitions =>
      refine nested_defined (fun entry member => ?_) _
      have listed : entry ∈ (spread ('\n' :: step) emptyLine (definitions.map Entry.defined)).map Prod.snd := member
      rw [spread_snd] at listed
      obtain ⟨definition, -, same⟩ := List.mem_map.mp listed
      exact ⟨definition, same.symm⟩

theorem holder_name (placed : Placed) {holder : Holder} (found : holder ∈ placed.holder) :
    holder.name = placed.specimen.name.text := by
  obtain ⟨object, declared, rfl⟩ := Option.map_eq_some_iff.mp found
  obtain ⟨inside, -, rfl⟩ := Option.map_eq_some_iff.mp declared
  rfl

/-- The service at a specimen, and the plan for it. -/
theorem identify_planned (declares : Declares unit scope all) {placed : Placed} (listed : placed ∈ all)
    (is : placed.specimen.shape = some shape) {found : Nat × Interface} (same : found.2 = placed.interface) :
    ∃ service, Service.identify unit shape found = .ok service ∧
      ∃ plan, AddInstances.plan? unit.text.toList .default service = some plan ∧ Planned placed plan := by
  have interfaces : interfacesOf unit.outline = all.flatMap fun placed => [placed.interface] := by
    rw [interfacesOf, declares.decls, interfaces_placed, List.map_eq_flatMap]
  have holders : holdersOf unit.outline = all.flatMap fun placed => placed.holder.toList := by
    rw [holdersOf, declares.decls, holders_placed]
  have single := filter_named (fun placed => placed.specimen.name.text) (fun placed => [placed.interface]) Interface.name
    (fun placed _ interface member => by rw [List.mem_singleton.mp member]; rfl) declares.distinct listed
  have beside := filter_named (fun placed => placed.specimen.name.text) (fun placed => placed.holder.toList) Holder.name
    (fun placed _ holder member => holder_name placed (Option.mem_toList.mp member)) declares.distinct listed
  have named : found.2.name = placed.specimen.name.text := by rw [same]; rfl
  obtain ⟨place, identified⟩ := @identify_eq unit scope shape found placed.holder declares.inScope
    (by rw [interfaces, named, single, same]) (by rw [holders, named, beside]) (nested_holder placed)
  obtain ⟨plan, made, bindings, spliced⟩ := plan?_spliced is (declares.sits placed listed) (declares.begins placed listed)
    found.1 place
  rw [same] at identified
  exact ⟨_, identified, plan, made, bindings, spliced⟩

theorem forall₂_of_map_eq {items : List α} {others : List β} {f : α → γ} {g : β → γ} (same : items.map f = others.map g) :
    List.Forall₂ (fun item other => f item = g other) items others := by
  have equal : List.Forall₂ Eq (items.map f) (others.map g) := by rw [same, List.forall₂_eq_eq_eq]
  exact List.forall₂_map_left_iff.mp (List.forall₂_map_right_iff.mp equal)

/-- What there is for each item of a list, one after the other. -/
theorem forall₂_choose {found : β → γ → Prop} {relation : α → γ → Prop} {items : List α} {others : List β}
    (each : List.Forall₂ (fun item other => ∃ result, found other result ∧ relation item result) items others) :
    ∃ results, List.Forall₂ found others results ∧ List.Forall₂ relation items results := by
  induction each with
  | nil => exact ⟨[], .nil, .nil⟩
  | cons first _ ih =>
    obtain ⟨result, ran, related⟩ := first
    obtain ⟨results, others, rest⟩ := ih
    exact ⟨result :: results, .cons ran others, .cons related rest⟩

/-- The services of one shape, and the plans for them. -/
theorem findShape_planned (declares : Declares unit scope all)
    (tells : ∀ placed : Placed, test placed.interface = decide (placed.specimen.shape = some shape)) :
    ∃ services, Service.findShape unit shape test = .ok services ∧
      List.Forall₂ (fun placed service => ∃ plan, AddInstances.plan? unit.text.toList .default service = some plan ∧
        Planned placed plan) (all.filter fun placed => placed.specimen.shape = some shape) services := by
  have found : (all.filter fun placed => placed.specimen.shape = some shape).map Placed.interface =
      (unit.interfaces.filter (test ∘ Prod.snd)).map Prod.snd := by
    have interfaces : interfacesOf unit.outline = all.map Placed.interface := by
      rw [interfacesOf, declares.decls, interfaces_placed]
    rw [← List.filter_map, interfaces_snd, interfaces, List.filter_map]
    exact congrArg _ (List.filter_congr fun placed _ => (tells placed).symm)
  have listed : ∀ placed ∈ all.filter fun placed => placed.specimen.shape = some shape,
      placed ∈ all ∧ placed.specimen.shape = some shape := by
    intro placed member
    obtain ⟨member, is⟩ := List.mem_filter.mp member
    exact ⟨member, of_decide_eq_true is⟩
  have each := (List.forall₂_and_left _ _).mpr ⟨listed, forall₂_of_map_eq found⟩
  obtain ⟨services, ran, planned⟩ := forall₂_choose (each.imp fun placed other both =>
    @identify_planned unit scope shape all declares placed both.1.1 both.1.2 other both.2.symm)
  exact ⟨services, bind_eq_ok_iff.mpr ⟨_, bind_eq_ok_iff.mpr ⟨scope, scopeOf_eq_ok_iff.mpr declares.inScope, rfl⟩,
    mapM_eq_ok_iff.mpr ran⟩, planned⟩

theorem plans_of_services {services : List Service} {plans : List AddInstances.Plan}
    (found : Service.findAll unit .default = .ok services)
    (planned : List.Forall₂ (fun service plan => AddInstances.plan? unit.text.toList .default service = some plan)
      services plans) : AddInstances.plans .default unit = .ok plans := by
  refine bind_eq_ok_iff.mpr ⟨services, found, mapM_eq_ok_iff.mpr (planned.imp fun service plan made => ?_)⟩
  rw [made]

/-- The plans for all services of the unit, the legacy ones first. -/
theorem plans_planned (declares : Declares unit scope all) :
    ∃ legacy modern, AddInstances.plans .default unit = .ok (legacy ++ modern) ∧
      List.Forall₂ Planned (all.filter fun placed => placed.specimen.shape = some .legacy) legacy ∧
      List.Forall₂ Planned (all.filter fun placed => placed.specimen.shape = some .modern) modern := by
  obtain ⟨services, found, planned⟩ := findShape_planned declares fun placed =>
    isLegacyService_interface placed.specimen placed.gap placed.offset
  obtain ⟨others, found', planned'⟩ := findShape_planned declares fun placed =>
    isModernService_interface placed.specimen placed.gap placed.offset
  obtain ⟨legacy, made, holds⟩ := forall₂_choose planned
  obtain ⟨modern, made', holds'⟩ := forall₂_choose planned'
  have both : Service.findAll unit .default = .ok (services ++ others) :=
    bind_eq_ok_iff.mpr ⟨services, found, bind_eq_ok_iff.mpr ⟨others, found', rfl⟩⟩
  exact ⟨legacy, modern, plans_of_services both (List.rel_append made made'), holds, holds'⟩

end Services

/-! ### Edits in source order -/

theorem forall₂_cons_inv {relation : α → β → Prop} {item : α} {items : List α} {results : List β}
    (related : List.Forall₂ relation (item :: items) results) :
    ∃ first others, results = first :: others ∧ relation item first ∧ List.Forall₂ relation items others := by
  cases related with
  | cons here there => exact ⟨_, _, rfl, here, there⟩

/-- The edits of all plans, taken in the order in which the specimens stand, leave the
text of all specimens when they are migrated. -/
theorem plans_spliced {blocks : List (List Char × Specimen)} {legacy modern : List AddInstances.Plan}
    (planned : List.Forall₂ Planned ((placeAll offset blocks).filter fun placed => placed.specimen.shape = some .legacy) legacy)
    (planned' : List.Forall₂ Planned ((placeAll offset blocks).filter fun placed => placed.specimen.shape = some .modern) modern) :
    ∃ ordered, ((legacy ++ modern).flatMap AddInstances.Plan.edits).Perm ordered ∧
      Spliced offset (written (blocks.flatMap blockPieces)) ordered
        ((placeAll offset blocks).flatMap Placed.migrated) := by
  induction blocks generalizing offset legacy modern with
  | nil =>
    cases planned
    cases planned'
    exact ⟨[], .nil, .done⟩
  | cons block blocks ih =>
    obtain ⟨gap, specimen⟩ := block
    rw [placeAll_cons] at planned planned' ⊢
    rw [List.flatMap_cons, List.flatMap_cons, written_append]
    cases shape : specimen.shape with
    | none =>
      rw [List.filter_cons_of_neg (by simp [shape])] at planned planned'
      obtain ⟨ordered, permuted, spliced⟩ := ih planned planned'
      have kept : (Placed.mk offset gap specimen).migrated = written (blockPieces (gap, specimen)) := by
        rw [Placed.migrated, Specimen.migrated, shape]
        rfl
      rw [kept]
      exact ⟨ordered, permuted, spliced_behind spliced⟩
    | some found =>
      cases found with
      | legacy =>
        rw [List.filter_cons_of_pos (by simp [shape])] at planned
        rw [List.filter_cons_of_neg (by simp [shape])] at planned'
        obtain ⟨plan, others, rfl, first, rest⟩ := forall₂_cons_inv planned
        obtain ⟨ordered, permuted, spliced⟩ := ih rest planned'
        refine ⟨plan.edits ++ ordered, ?_, spliced_append first.spliced spliced⟩
        rw [List.cons_append, List.flatMap_cons]
        exact permuted.append_left _
      | modern =>
        rw [List.filter_cons_of_neg (by simp [shape])] at planned
        rw [List.filter_cons_of_pos (by simp [shape])] at planned'
        obtain ⟨plan, others, rfl, first, rest⟩ := forall₂_cons_inv planned'
        obtain ⟨ordered, permuted, spliced⟩ := ih planned rest
        refine ⟨plan.edits ++ ordered, ?_, spliced_append first.spliced spliced⟩
        rw [List.flatMap_append] at permuted ⊢
        rw [List.flatMap_cons]
        exact List.perm_append_comm_assoc _ _ _ |>.trans (permuted.append_left _)

end KindLift.WrittenMatching
