import KindLift.Proofs.InstanceTexts
import KindLift.Proofs.RelocatedEntries
import KindLift.Proofs.SecondPasses

/-! The second pass over texts that can be written again. Where the names of the services are
plain words, and their types are read as they are between brackets, everything the rule writes
is read as what it stands for. So the new text is one that the rule leaves alone. -/
namespace KindLift.SettledPasses
open AddInstances Template GrownObjects InsertedTexts EntryTexts InstanceTexts MendedUnits PlannedWork RelocatedTokens RuleLogic ServiceMatching Traversal
open IndentedTexts (spell Inline)
open SecondPasses (TakesImports)

variable {source : List Char} {outline : Outline} {unit : SourceUnit} {conventions : Conventions} {services : List Service} {service : Service}
  {index : Index} {id : UnitId} {text : String} {group : EditSet}

/-- What the rule writes for the service is read as it is. The name of the service is a plain
word, and so are the names of its instances. If it lacks an instance, the names and types of its
methods can be written again. If it is moved into its object, none of its tokens goes over the
end of a line. -/
structure Rewritable (source : List Char) (service : Service) : Prop where
  named : Named service.interface.name
  methods : missingInstances .default service ≠ [] → ∀ method ∈ service.interface.methods, Reprinted method
  inline : service.shape = .legacy → ∀ all, Token.scan source = .ok all → Inline (relocated all service.interface)

instance (words : List Word) : Decidable (Inline words) := inferInstanceAs (Decidable (∀ word ∈ words, '\n' ∉ word.2))

instance (source : List Char) (service : Service) : Decidable (Rewritable source service) :=
  decidable_of_iff (Named service.interface.name ∧ (missingInstances .default service ≠ [] → ∀ method ∈ service.interface.methods, Reprinted method) ∧
      (service.shape = .legacy → ∀ all ∈ (Token.scan source).toOption, Inline (relocated all service.interface)))
    ⟨fun ⟨named, methods, inline⟩ => ⟨named, methods, fun legacy all scanned => inline legacy all (toOption_eq_some_iff.mpr scanned)⟩,
      fun rewritable => ⟨rewritable.named, rewritable.methods, fun legacy all scanned => rewritable.inline legacy all (toOption_eq_some_iff.mp scanned)⟩⟩

/-- Something is written for the service: it is moved into its object or lacks an instance. -/
def Lacks (service : Service) : Prop := service.shape = .legacy ∨ missingInstances .default service ≠ []

instance (service : Service) : Decidable (Lacks service) := inferInstanceAs (Decidable (_ ∨ _))

/-! ### Services -/

/-- Services are looked for where the imports are found. -/
theorem findShape_shaped {shape : Shape} {test : Interface → Bool} (found : Service.findShape unit shape test = .ok services) :
    (∃ scope, unit.scope = .ok scope) ∧ ∀ service ∈ services,
      Decl.interface service.interface ∈ unit.outline.decls ∧ service.shape = shape ∧ test service.interface = true := by
  obtain ⟨items, filtered, each⟩ := bind_eq_ok_iff.mp found
  obtain ⟨scope, resolved, same⟩ := bind_eq_ok_iff.mp filtered
  cases same
  have safe := @scopeOf_safely unit
  rw [resolved] at safe
  refine ⟨⟨scope, safe⟩, fun service member => ?_⟩
  obtain ⟨place, among, identified⟩ := mem_of_mapM each member
  obtain ⟨listed, passes⟩ := List.mem_filter.mp among
  obtain ⟨stands, shaped, same⟩ := stands_of_identify listed identified
  exact ⟨stands.declared, shaped, same ▸ passes⟩

/-- A service is a trait of the unit of the shape that it is found for. -/
theorem findAll_shaped (found : Service.findAll unit conventions = .ok services) : (∃ scope, unit.scope = .ok scope) ∧
    ∀ service ∈ services, Decl.interface service.interface ∈ unit.outline.decls ∧ HasShape conventions service.shape service.interface := by
  obtain ⟨legacy, foundLegacy, rest⟩ := bind_eq_ok_iff.mp found
  obtain ⟨modern, foundModern, same⟩ := bind_eq_ok_iff.mp rest
  cases same
  obtain ⟨resolved, isLegacy⟩ := findShape_shaped foundLegacy
  refine ⟨resolved, List.forall_mem_append.mpr ⟨fun service member => ?_, fun service member => ?_⟩⟩
  · obtain ⟨listed, shaped, passes⟩ := isLegacy service member
    exact ⟨listed, shaped ▸ passes⟩
  · obtain ⟨listed, shaped, passes⟩ := (findShape_shaped foundModern).2 service member
    exact ⟨listed, shaped ▸ passes⟩

/-! ### What is written for a service -/

/-- Entries that are read one by one are read behind one another. -/
theorem renders_all {items : List (String × String)} (filled : items ≠ []) (each : ∀ item ∈ items, Renders [item.1] [item.2]) :
    Renders (items.map Prod.fst) (items.map Prod.snd) := by
  induction items with
  | nil => exact absurd rfl filled
  | cons item items ih =>
    obtain ⟨first, others⟩ := List.forall_mem_cons.mp each
    cases items with
    | nil => exact first
    | cons next items =>
      have all := renders_append first (ih (List.cons_ne_nil _ _) others) (List.cons_ne_nil _ _) (List.cons_ne_nil _ _)
      rwa [List.singleton_append, List.singleton_append] at all

theorem renders_missing (rewritable : Rewritable source service) :
    ∀ item ∈ missingInstances .default service, Renders [item.1] [item.2] := by
  intro item member
  have reprinted := rewritable.methods (List.ne_nil_of_mem member)
  rcases List.mem_cons.mp (List.mem_filter.mp member).1 with rfl | second
  · exact renders_readerT rewritable.named reprinted
  · obtain rfl := List.mem_singleton.mp second
    exact renders_functorK rewritable.named reprinted

/-- What is written for a service is read as the members that it is to get. -/
theorem written_of_rewritable (parsed : Outline.parse source = .ok outline) (listed : Decl.interface service.interface ∈ outline.decls)
    (shaped : HasShape .default service.shape service.interface) (rewritable : Lacks service → Rewritable source service) : Written source service := by
  intro entries given filled
  obtain ⟨moved, relocated, rfl⟩ := Option.map_eq_some_iff.mp given
  unfold relocatedEntry? at relocated
  split at relocated
  · rename_i relocates
    have legacy := (relocates_iff service).mp relocates
    have rewritable := rewritable (.inl legacy)
    refine ⟨rewritable.named, ?_⟩
    rw [legacy] at shaped
    obtain ⟨text, rendered, same⟩ := Option.map_eq_some_iff.mp relocated
    obtain ⟨text', rendered', entry⟩ := RelocatedEntries.renders_relocated parsed listed shaped rewritable.named (rewritable.inline legacy)
    cases rendered.symm.trans rendered'
    cases same
    have all := @renders_all ((service.interface.name, text) :: missingInstances .default service) (List.cons_ne_nil _ _)
      (List.forall_mem_cons.mpr ⟨entry, renders_missing rewritable⟩)
    rwa [added, if_pos legacy]
  · rename_i stays
    cases relocated
    have lacks : missingInstances .default service ≠ [] := fun none => filled (by rw [none]; rfl)
    have rewritable := rewritable (.inr lacks)
    refine ⟨rewritable.named, ?_⟩
    have modern : service.shape ≠ .legacy := fun legacy => stays ((relocates_iff service).mpr legacy)
    rw [added, if_neg modern]
    exact renders_all lacks (renders_missing rewritable)

/-! ### The second pass -/

/-- If the rule returns an edit set, what it writes for the services can be read again and the
imports it adds can be taken in, then the text that it makes parses and its imports are found,
and the rule leaves that text alone. -/
theorem second_pass_settled {index : Index} {id : UnitId} {text : String} {group : EditSet}
    (returned : editSet .default (.load index id text) = .ok group)
    (imports : TakesImports index text.toList (SourceUnit.load index id text).outline group.edits)
    (rewritable : ∀ services, Service.findAll (.load index id text) .default = .ok services →
      ∀ service ∈ services, Lacks service → Rewritable text.toList service) :
    ∃ new, group.apply text = .ok new ∧ (∃ scope, (SourceUnit.load index id new).scope = .ok scope) ∧
      ∃ again, editSet .default (.load index id new) = .ok again ∧ again.edits = [] := by
  obtain ⟨services, -, found, -⟩ := planned_of_editSet returned
  obtain ⟨resolved, -⟩ := findAll_shaped found
  obtain ⟨outline, parsed, -⟩ := SettledUnits.load_resolved_iff.mp resolved
  refine SecondPasses.second_pass_of_written resolved returned imports fun services found service member => ?_
  obtain ⟨listed, shaped⟩ := (findAll_shaped found).2 service member
  rw [SettledUnits.load_outline parsed] at listed
  exact written_of_rewritable parsed listed shaped (rewritable services found service member)

/-- A legacy service without an object. -/
def variadicText : String :=
  "import cats._,cats.data._,cats.tagless._\ntrait A[Future] extends ThriftService\x7bdef m(a: X, Y*): Future[K[I]] // b\n\x7d"

/-- The service can be written again. -/
theorem variadicText_settled : ∃ group, editSet .default (.load .empty "A" variadicText) = .ok group ∧ group.edits ≠ [] ∧
    TakesImports .empty variadicText.toList (SourceUnit.load .empty "A" variadicText).outline group.edits ∧
    (∀ services, Service.findAll (.load .empty "A" variadicText) .default = .ok services →
      ∀ service ∈ services, Lacks service → Rewritable variadicText.toList service) ∧
    ∃ new, group.apply variadicText = .ok new ∧ (∃ scope, (SourceUnit.load .empty "A" new).scope = .ok scope) ∧
      ∃ again, editSet .default (.load .empty "A" new) = .ok again ∧ again.edits = [] := by
  have edited : (editSet .default (.load .empty "A" variadicText)).toOption.map (fun group => (group.edits.isEmpty,
      decide (TakesImports .empty variadicText.toList (SourceUnit.load .empty "A" variadicText).outline group.edits))) = some (false, true) := by
    decide +kernel
  have facts : (Service.findAll (.load .empty "A" variadicText) .default).toOption.all (fun services =>
      services.all fun service => decide (Rewritable variadicText.toList service)) = true := by decide +kernel
  obtain ⟨group, returned, both⟩ := Option.map_eq_some_iff.mp edited
  obtain ⟨filled, imports⟩ := Prod.mk.inj both
  replace returned := toOption_eq_some_iff.mp returned
  replace imports := of_decide_eq_true imports
  have each : ∀ services, Service.findAll (.load .empty "A" variadicText) .default = .ok services →
      ∀ service ∈ services, Lacks service → Rewritable variadicText.toList service := by
    intro services found service member _
    rw [toOption_eq_some_iff.mpr found] at facts
    exact of_decide_eq_true (List.all_eq_true.mp facts service member)
  exact ⟨group, returned, by simpa using filled, imports, each, second_pass_settled returned imports each⟩

end KindLift.SettledPasses
