import KindLift.Proofs.EditSplicing
import KindLift.Proofs.RuleSafety
import KindLift.Proofs.WrittenImports

/-! The migration of a unit that is written token by token. The rule for instances
returns edits, and applied to the text of the unit they leave the text of the migrated
unit. -/
namespace KindLift.WrittenMigration
open Token Text TextBoundary EditApplication EditSplicing RuleSafety RuleLogic Traversal WrittenTokens WrittenReading
open WrittenTraits WrittenObjects WrittenUnits WrittenTemplates WrittenInstances WrittenServices WrittenPlans WrittenMatching
open WrittenImports

variable {chars result tail : List Char} {offset : Nat} {edits ordered : List Edit} {package : Option Path} {imports : List Line}
  {specimens : List Specimen}

/-! ### Splices and sorted edits -/

/-- Edits that are made one after the other are sorted. -/
theorem spliced_increasing (spliced : Spliced offset chars edits result) :
    Increasing edits ∧ ∀ edit ∈ edits, offset ≤ edit.start := by
  induction spliced with
  | done => exact ⟨.nil, by simp⟩
  | @replaced offset gapText old after edits result edit gap range _ ih =>
    obtain ⟨sorted, behind⟩ := ih
    have order := edit.ordered
    refine ⟨List.pairwise_cons.mpr ⟨fun later member => ?_, sorted⟩, List.forall_mem_cons.mpr ⟨by omega, fun later member => ?_⟩⟩
    · have above := behind later member
      have order' := later.ordered
      rw [le_iff]
      omega
    · have above := behind later member
      omega

/-- Edits that can be applied leave what they leave when they are made one after the
other, in the order of the text. -/
theorem apply_of_spliced {group : EditSet} {text : String} (applicable : Applicable group text)
    (permuted : group.edits.Perm ordered) (spliced : Spliced 0 text.toList ordered result) :
    group.apply text = .ok (String.ofList result) := by
  have sorted : group.edits.mergeSort Edit.le = ordered :=
    increasing_unique (applicable.apart.perm (List.mergeSort_perm ..).symm) (mergeSort_increasing group.edits)
      (spliced_increasing spliced).1 ((List.mergeSort_perm ..).trans permuted)
  have whole : splice ([] ++ text.toList) 0 ordered = result := splice_of_spliced spliced rfl
  rw [applicable.apply_eq, sorted]
  exact congrArg (fun chars => Except.ok (String.ofList chars)) whole

/-- What the rule for instances returns, when its plans are known. -/
theorem editSet_of_plans {id : UnitId} {text : String} {plans : List AddInstances.Plan} {added : List Edit}
    (planned : AddInstances.plans .default (.load .empty id text) = .ok plans)
    (imported : (if plans.any fun plan => !plan.bindings.isEmpty then
      (AddInstances.importEdit? .default (SourceUnit.load .empty id text).outline).toList else []) = added)
    (permuted : (plans.flatMap AddInstances.Plan.edits ++ added).Perm ordered) (spliced : Spliced 0 text.toList ordered result) :
    ∃ set, (AddInstances.rule .default).editSet (.load .empty id text) = .ok set ∧
      set.apply text = .ok (String.ofList result) := by
  have safe := standard_safely (.inr ⟨.default, rfl⟩) .empty id text
  have returned : (AddInstances.rule .default).editSet (.load .empty id text) =
      Rule.validated AddInstances.ruleName (.load .empty id text) (plans.flatMap AddInstances.Plan.edits ++ added) := by
    show AddInstances.editSet .default _ = _
    rw [AddInstances.editSet, planned]
    show Rule.validated _ _ (_ ++ if _ then _ else _) = _
    rw [imported]
  rw [returned, Rule.validated] at safe
  rw [returned, Rule.validated]
  split at safe
  · obtain ⟨_, applied⟩ := safe
    exact ⟨_, rfl, apply_of_spliced (applicable_of_apply applied) permuted spliced⟩
  · cases safe

/-! ### Units of specimens -/

/-- The specimens with the blanks in front of them. -/
def blocksOf (package : Option Path) (imports : List Line) (specimens : List Specimen) : List (List Char × Specimen) :=
  spread (declLead package imports) blankLine specimens

/-- The unit of the specimens. -/
def unitOf (package : Option Path) (imports : List Line) (specimens : List Specimen) : Written :=
  assemble package imports (specimens.flatMap Specimen.decls)

/-- The imports when services have their instances. -/
def importsFor (imports : List Line) (specimens : List Specimen) : List Line :=
  if specimens.any fun specimen => specimen.shape.isSome then imports ++ (lacking imports).map Prod.snd else imports

/-- The unit of the migrated specimens. -/
def migratedOf (package : Option Path) (imports : List Line) (specimens : List Specimen) : Written :=
  assemble package (importsFor imports specimens) (specimens.flatMap Specimen.migrated)

theorem decls_ne_nil (specimen : Specimen) : specimen.decls ≠ [] := by simp [Specimen.decls]

theorem migrated_ne_nil (specimen : Specimen) : specimen.migrated ≠ [] := by
  unfold Specimen.migrated
  split
  · exact decls_ne_nil specimen
  · simp
  · simp

theorem decls_unitOf (package : Option Path) (imports : List Line) (specimens : List Specimen) :
    (unitOf package imports specimens).decls = (blocksOf package imports specimens).flatMap blockDecls :=
  (spread_flatMap decls_ne_nil _ _ specimens).symm

theorem declPieces_append (front back : List (List Char × Declaration)) :
    declPieces (front ++ back) = declPieces front ++ declPieces back := List.flatMap_append

theorem declPieces_blocks (blocks : List (List Char × Specimen)) :
    declPieces (blocks.flatMap blockDecls) = blocks.flatMap blockPieces := List.flatMap_assoc

theorem placeAll_specimens (offset : Nat) (blocks : List (List Char × Specimen)) :
    (placeAll offset blocks).map Placed.specimen = blocks.map Prod.snd :=
  map_readAll (f := Placed.specimen) (g := Prod.snd) (fun _ _ _ => rfl) offset

theorem placeAll_sits {source : List Char} {blocks : List (List Char × Specimen)} (sits : Sits source offset (blocks.flatMap blockPieces)) :
    ∀ placed ∈ placeAll offset blocks, Sits source placed.offset placed.pieces := by
  induction blocks generalizing offset with
  | nil => exact fun _ member => by cases member
  | cons block blocks ih =>
    rw [List.flatMap_cons] at sits
    rw [placeAll_cons]
    exact List.forall_mem_cons.mpr ⟨sits.left _, ih (sits.right _)⟩

theorem placeAll_begins (package : Option Path) (imports : List Line) (specimens : List Specimen) :
    ∀ placed ∈ placeAll (unitOf package imports specimens).declOffset (blocksOf package imports specimens),
      placed.gap = [] ∧ placed.offset = 0 ∨ ∃ front, placed.gap = front ++ ['\n'] := by
  have others : ∀ specimens : List Specimen, ∀ offset, ∀ placed ∈ placeAll offset (specimens.map (blankLine, ·)),
      ∃ front, placed.gap = front ++ ['\n'] := by
    intro specimens
    induction specimens with
    | nil => exact fun _ _ member => by cases member
    | cons specimen specimens ih =>
      intro offset
      rw [List.map_cons, placeAll_cons]
      exact List.forall_mem_cons.mpr ⟨⟨['\n'], rfl⟩, ih _⟩
  cases specimens with
  | nil => exact fun _ member => by cases member
  | cons specimen specimens =>
    rw [blocksOf, spread, placeAll_cons]
    refine List.forall_mem_cons.mpr ⟨?_, fun placed member => .inr (others _ _ placed member)⟩
    show declLead package imports = [] ∧ (unitOf package imports (specimen :: specimens)).declOffset = 0 ∨
      ∃ front, declLead package imports = front ++ ['\n']
    by_cases bare : (package.isNone && imports.isEmpty) = true
    · rw [Bool.and_eq_true, Option.isNone_iff_eq_none, List.isEmpty_iff] at bare
      obtain ⟨rfl, rfl⟩ := bare
      exact .inl ⟨rfl, rfl⟩
    · rw [declLead, if_neg bare]
      exact .inr ⟨['\n'], rfl⟩

theorem laid_holder (specimen : Specimen) : ∀ object ∈ specimen.holder?, ∀ inside ∈ object.inside, inside.IsLaid := by
  intro object found inside member
  obtain ⟨inner, -, rfl⟩ := Option.map_eq_some_iff.mp found
  obtain ⟨definitions, -, rfl⟩ := Option.map_eq_some_iff.mp member
  exact laid_insideOf _

theorem laid_unitOf (package : Option Path) (imports : List Line) (specimens : List Specimen) :
    (unitOf package imports specimens).IsLaid := by
  refine laid_assemble fun object member => ?_
  obtain ⟨specimen, -, inside⟩ := List.mem_flatMap.mp member
  rcases List.mem_cons.mp inside with same | later
  · cases same
  · obtain ⟨other, found, same⟩ := List.mem_map.mp later
    cases same
    exact laid_holder specimen object (Option.mem_toList.mp found)

theorem laid_migratedOf (package : Option Path) (imports : List Line) (specimens : List Specimen) :
    (migratedOf package imports specimens).IsLaid := by
  refine laid_assemble fun object member => ?_
  obtain ⟨specimen, -, inside⟩ := List.mem_flatMap.mp member
  have extended : ∀ inside ∈ specimen.extended.inside, inside.IsLaid := by
    rintro _ ⟨⟩
    exact laid_insideOf _
  unfold Specimen.migrated at inside
  split at inside
  · rcases List.mem_cons.mp inside with same | later
    · cases same
    · obtain ⟨other, found, same⟩ := List.mem_map.mp later
      cases same
      exact laid_holder specimen object (Option.mem_toList.mp found)
  all_goals
    simp only [List.mem_cons, reduceCtorEq, Declaration.object.injEq, List.not_mem_nil, or_false, false_or] at inside
    subst inside
    exact extended

/-! ### The migration -/

/-- The text of the unit. -/
def textOf (unit : Written) (tail : List Char) : String := String.ofList (written unit.pieces ++ tail)

/-- The unit declares its specimens when it is loaded. -/
theorem declares_unitOf (blank : IsBlank tail) (distinct : (specimens.map fun specimen => specimen.name.text).Nodup) (id : UnitId) :
    ∃ scope, Declares (.load .empty id (textOf (unitOf package imports specimens) tail)) scope
      (placeAll (unitOf package imports specimens).declOffset (blocksOf package imports specimens)) := by
  obtain ⟨references, scope, loaded⟩ := load_written (laid_unitOf package imports specimens) blank id
  rw [textOf, loaded]
  refine ⟨scope, rfl, ?_, ?_, ?_, placeAll_begins package imports specimens⟩
  · show declsAt _ (unitOf package imports specimens).decls = _
    rw [decls_unitOf, declsAt_blocks]
  · have names := congrArg (List.map fun specimen : Specimen => specimen.name.text)
      (placeAll_specimens (unitOf package imports specimens).declOffset (blocksOf package imports specimens))
    rw [List.map_map, blocksOf, spread_snd, ← blocksOf] at names
    exact names.symm ▸ distinct
  · refine placeAll_sits ?_
    have sits : Sits (written (unitOf package imports specimens).pieces ++ tail) 0 (unitOf package imports specimens).pieces :=
      ⟨[], tail, rfl, rfl⟩
    have behind := (sits.right _).right _
    rw [decls_unitOf, declPieces_blocks, Nat.zero_add] at behind
    rw [String.toList_ofList]
    exact behind

theorem any_planned {all : List Placed} {plans : List AddInstances.Plan} {shape : Shape}
    (planned : List.Forall₂ Planned (all.filter fun placed => placed.specimen.shape = some shape) plans) :
    (plans.any fun plan => !plan.bindings.isEmpty) = (all.map Placed.specimen).any fun specimen => specimen.shape = some shape := by
  have bound : ∀ placed plan, Planned placed plan → (!plan.bindings.isEmpty) = true := by
    intro placed plan holds
    rw [holds.bindings, Specimen.missing]
    simp
  induction all generalizing plans with
  | nil =>
    cases planned
    rfl
  | cons placed all ih =>
    by_cases is : placed.specimen.shape = some shape
    · rw [List.filter_cons_of_pos (by simpa using is)] at planned
      obtain ⟨plan, others, rfl, first, -⟩ := forall₂_cons_inv planned
      simp [bound placed plan first, is]
    · rw [List.filter_cons_of_neg (by simpa using is)] at planned
      simp [ih planned, is]

/-- Instances are bound as soon as one specimen is a service. -/
theorem any_services {all : List Placed} {legacy modern : List AddInstances.Plan}
    (planned : List.Forall₂ Planned (all.filter fun placed => placed.specimen.shape = some .legacy) legacy)
    (planned' : List.Forall₂ Planned (all.filter fun placed => placed.specimen.shape = some .modern) modern) :
    ((legacy ++ modern).any fun plan => !plan.bindings.isEmpty) =
      (all.map Placed.specimen).any fun specimen => specimen.shape.isSome := by
  rw [List.any_append, any_planned planned, any_planned planned']
  induction all.map Placed.specimen with
  | nil => rfl
  | cons specimen specimens ih =>
    simp only [List.any_cons, ← ih]
    cases specimen.shape with
    | none => rfl
    | some shape => cases shape <;> simp

/-- The text of migrated specimens, one behind the other. -/
theorem migrated_text (package : Option Path) (imports : List Line) (specimens : List Specimen) (offset : Nat) :
    (placeAll offset (blocksOf package imports specimens)).flatMap Placed.migrated =
      written (declPieces (spread (declLead package imports) blankLine (specimens.flatMap Specimen.migrated))) := by
  have each : ∀ (blocks : List (List Char × Specimen)) offset, (placeAll offset blocks).flatMap Placed.migrated =
      written (declPieces (blocks.flatMap fun block => spread block.1 blankLine block.2.migrated)) := by
    intro blocks
    induction blocks with
    | nil => exact fun _ => rfl
    | cons block blocks ih =>
      intro offset
      rw [placeAll_cons, List.flatMap_cons, ih, List.flatMap_cons, declPieces_append, written_append]
      rfl
  rw [each, blocksOf, spread_flatMap migrated_ne_nil]

theorem written_decl (declaration : Declaration) (gap : List Char) :
    written (declaration.pieces gap) = gap ++ written (declaration.pieces []) := by
  cases declaration with
  | trait trait => exact written_trait trait gap
  | object object => exact written_object object gap

/-- More blanks in front of the declarations, if there are any. -/
theorem written_decls_lead {decls : List Declaration} {extra : List Char} (lead : List Char)
    (nothing : decls = [] → extra = []) :
    extra ++ written (declPieces (spread lead blankLine decls)) = written (declPieces (spread (extra ++ lead) blankLine decls)) := by
  by_cases empty : decls = []
  · rw [nothing empty, List.nil_append, List.nil_append]
  · have leads : ∀ gap (declaration : Declaration), written (declaration.pieces gap) = gap ++ written (declaration.pieces []) :=
      fun gap declaration => written_decl declaration gap
    rw [declPieces, declPieces, written_spread leads empty, written_spread leads empty, List.append_assoc]

/-- The edit for the imports is made when there is a service. -/
theorem imports_spliced {outline : Outline} {services : Bool}
    (counts : services = specimens.any fun specimen => specimen.shape.isSome) (clause : outline.package = packageRead package)
    (listed : outline.imports = importsAt (width (packagePieces package)) (linesBehind package imports)) :
    ∃ extra, (specimens = [] → extra = []) ∧
      declLead package (importsFor imports specimens) = extra ++ declLead package imports ∧
      Spliced 0 (headText package imports)
        (if services then (AddInstances.importEdit? .default outline).toList else [])
        (headText package (importsFor imports specimens) ++ extra) := by
  cases present : specimens.any fun specimen => specimen.shape.isSome with
  | true =>
    obtain ⟨extra, lead, head⟩ := importEdit?_spliced clause listed
    refine ⟨extra, fun empty => ?_, ?_, ?_⟩
    · subst empty
      cases present
    · rw [importsFor, present, if_pos rfl, lead]
    · rw [counts, present, if_pos rfl, importsFor, present, if_pos rfl]
      exact head
  | false =>
    refine ⟨[], fun _ => rfl, ?_, ?_⟩
    · rw [importsFor, present, if_neg Bool.false_ne_true, List.nil_append]
    · rw [counts, present, if_neg Bool.false_ne_true, importsFor, present, if_neg Bool.false_ne_true, List.append_nil]
      exact .done

/-- The rule for instances turns the text of a unit into the text of the migrated unit. -/
theorem migration_applies (package : Option Path) (imports : List Line) (blank : IsBlank tail)
    (distinct : (specimens.map fun specimen => specimen.name.text).Nodup) (id : UnitId) :
    ∃ plans set, AddInstances.plans .default (.load .empty id (textOf (unitOf package imports specimens) tail)) = .ok plans ∧
      (plans.any fun plan => !plan.bindings.isEmpty) = (specimens.any fun specimen => specimen.shape.isSome) ∧
      (AddInstances.rule .default).editSet (.load .empty id (textOf (unitOf package imports specimens) tail)) = .ok set ∧
      set.apply (textOf (unitOf package imports specimens) tail) = .ok (textOf (migratedOf package imports specimens) tail) := by
  obtain ⟨scope, declares⟩ := @declares_unitOf _ package imports _ blank distinct id
  obtain ⟨legacy, modern, planned, first, second⟩ := plans_planned declares
  obtain ⟨ordered, permuted, decls⟩ := plans_spliced first second
  have bound := any_services first second
  rw [placeAll_specimens, blocksOf, spread_snd] at bound
  rw [migrated_text, ← declPieces_blocks, ← decls_unitOf] at decls
  obtain ⟨references, scope', loaded⟩ := load_written (laid_unitOf package imports specimens) blank id
  obtain ⟨extra, nothing, lead, head⟩ := @imports_spliced package imports specimens
    { (unitOf package imports specimens).outline with typeRefs := references } _ bound rfl rfl
  have source : (textOf (unitOf package imports specimens) tail).toList = headText package imports ++
      (written (declPieces (unitOf package imports specimens).decls) ++ tail) := by
    rw [textOf, String.toList_ofList, unitOf, written_assemble, List.append_assoc]
    rfl
  have target : written (migratedOf package imports specimens).pieces ++ tail =
      (headText package (importsFor imports specimens) ++ extra) ++ (written (declPieces (spread (declLead package imports)
        blankLine (specimens.flatMap Specimen.migrated))) ++ tail) := by
    have blanks := written_decls_lead (declLead package imports) (fun empty : specimens.flatMap Specimen.migrated = [] =>
      nothing (by
        cases specimens with
        | nil => rfl
        | cons specimen specimens =>
          rw [List.flatMap_cons, List.append_eq_nil_iff] at empty
          exact absurd empty.1 (migrated_ne_nil specimen)))
    rw [migratedOf, written_assemble, lead, ← blanks]
    simp
  have offset : 0 + byteLength (headText package imports) = (unitOf package imports specimens).declOffset := by
    rw [Nat.zero_add, headText, written_append, byteLength_append]
    rfl
  rw [← offset] at decls
  have whole := spliced_append head (spliced_append decls (show Spliced _ tail [] tail from .done))
  rw [← source, ← target, List.append_nil] at whole
  obtain ⟨set, returned, applied⟩ := editSet_of_plans planned (by rw [textOf, loaded, ← textOf])
    ((permuted.append_right _).trans List.perm_append_comm) whole
  exact ⟨_, set, planned, bound, returned, applied⟩

end KindLift.WrittenMigration
