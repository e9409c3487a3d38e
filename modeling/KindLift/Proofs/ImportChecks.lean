import KindLift.Proofs.FileOrder
import KindLift.Proofs.IndexMirror

/-! Which units are skipped because of an import. A unit is resolved against the
units that come before it. An import is missed if its package is known by then and
nobody offers it yet; the order of processing makes sure of that for packages that
the unit imports from, but not for the unit's own package or for the root. -/
namespace KindLift.ImportChecks
open Traversal RunSession RuleSafety IndexRefinement MigrationCompleteness IndexMirror PackageCycles FileOrder

/-- If the unit is reported as unavailable, then for the reason that its scope gives. -/
def Explains (unit : SourceUnit) (outcome : Except RuleError α) : Prop :=
  ∀ id cause, outcome = .error (.unavailable id cause) → unit.scope = .error cause

/-- The unit can be imported under the name: as its package, as one of its
declarations, or as a member of one of its objects. -/
def Offers (unit : UnitId × String) (target : DottedName) : Prop :=
  packageOf unit = target ∨ ∃ symbol ∈ declared unit, symbol.name = target ∨
    symbol.kind = .holder ∧ ∃ member ∈ symbol.members, symbol.name.child member.simpleName = target

/-- The index knows the package that the name belongs to, and nothing of that name. -/
structure Misses (index : Index) (target parent : DottedName) : Prop where
  above : target.parent? = some parent
  known : index.hasPackage parent = true
  noPackage : index.hasPackage target = false
  noSymbol : Scope.lookupPath index target = []

/-- The unit was skipped because it imports the name. -/
def SkippedFor (processed : Run.Processed) (target : DottedName) : Prop :=
  ∃ id, processed.outcome = .skipped (.rule (.unavailable id (.missingImport target)))

variable {unit : SourceUnit} {rule : Rule} {rules : List Rule} {index next last : Index} {ledger : Ledger} {id : UnitId}
  {text : String} {target parent package : DottedName} {file : SourceFile} {files : List SourceFile}
  {processed : Run.Processed} {results front behind : List Run.Processed}

/-! What rules say of units that they skip. -/

theorem Explains.bind {outcome : Except RuleError α} {next : α → Except RuleError β} (first : Explains unit outcome)
    (rest : ∀ value, outcome = .ok value → Explains unit (next value)) : Explains unit (outcome >>= next) := by
  intro id cause failed
  rcases bind_eq_error_iff.mp failed with stopped | ⟨value, returned, stopped⟩
  · exact first id cause stopped
  · exact rest value returned id cause stopped

theorem explains_ok {value : α} : Explains unit (.ok value) := by
  intro _ _ failed
  cases failed

theorem Explains.mapM {step : ι → Except RuleError α} {items : List ι} (each : ∀ item, Explains unit (step item)) :
    Explains unit (items.mapM step) := by
  induction items with
  | nil => exact explains_ok
  | cons item items ih =>
    rw [List.mapM_cons]
    exact (each item).bind fun _ _ => ih.bind fun _ _ => explains_ok

theorem scopeOf_explains : Explains unit unit.scopeOf := by
  intro id cause failed
  unfold SourceUnit.scopeOf at failed
  split at failed
  · cases failed
  · cases failed
    assumption

theorem validated_explains (name : String) (edits : List Edit) : Explains unit (Rule.validated name unit edits) := by
  intro id cause failed
  unfold Rule.validated at failed
  dsimp only at failed
  split at failed <;> cases failed

theorem companion_explains (interface : Interface) : Explains unit (unit.companion interface) := by
  apply scopeOf_explains.bind
  intro scope _
  split <;> intro _ _ failed <;> cases failed

theorem uniqueInterface_explains (name : String) : Explains unit (unit.uniqueInterface name) := by
  apply scopeOf_explains.bind
  intro scope _
  split <;> intro _ _ failed <;> cases failed

theorem checkNested_explains (interface : Interface) (holder : Option (Nat × Holder)) :
    Explains unit (Service.checkNested unit interface holder) := by
  intro id cause failed
  unfold Service.checkNested at failed
  split at failed
  · cases failed
  · split at failed <;> cases failed

theorem identify_explains (shape : Shape) (found : Nat × Interface) : Explains unit (Service.identify unit shape found) := by
  apply (uniqueInterface_explains found.2.name).bind
  intro _ _
  apply (companion_explains found.2).bind
  intro holder _
  split
  · exact (checkNested_explains found.2 holder).bind fun _ _ => explains_ok
  · exact explains_ok

theorem findShape_explains (shape : Shape) (test : Interface → Bool) : Explains unit (Service.findShape unit shape test) :=
  (scopeOf_explains.bind fun _ _ => explains_ok).bind fun _ _ => .mapM (identify_explains shape)

theorem addInstances_explains (conventions : Conventions) : Explains unit (AddInstances.editSet conventions unit) := by
  have services : Explains unit (Service.findAll unit conventions) :=
    (findShape_explains _ _).bind fun _ _ => (findShape_explains _ _).bind fun _ _ => explains_ok
  have plans : Explains unit (AddInstances.plans conventions unit) := by
    apply services.bind
    intro _ _
    apply Explains.mapM
    intro service
    split <;> intro _ _ failed <;> cases failed
  exact plans.bind fun _ _ => validated_explains _ _

theorem resolve_explains (name : String) : Explains unit (Relocated.resolve unit name) := by
  apply scopeOf_explains.bind
  intro scope _
  dsimp only
  split <;> intro _ _ failed <;> cases failed

theorem adaptReferences_explains : Explains unit (AdaptReferences.editSet unit) := by
  have found : Explains unit (RelocatedRef.findAll unit) := by
    apply scopeOf_explains.bind
    intro scope _
    apply Explains.bind _ fun _ _ => explains_ok
    apply Explains.mapM
    rintro ⟨reference, place⟩
    apply Explains.bind _ fun _ _ => explains_ok
    unfold Relocated.ofReference
    split
    · exact explains_ok
    · split
      · split
        · split <;> exact explains_ok
        · exact explains_ok
      · exact resolve_explains _
  exact found.bind fun _ _ => validated_explains _ _

theorem standard_explains (standard : IsStandard rule) (unit : SourceUnit) : Explains unit (rule.editSet unit) := by
  rcases standard with rfl | ⟨conventions, rfl⟩
  · exact adaptReferences_explains
  · exact addInstances_explains conventions

/-- Rules that fail on a unit fail on a text that the rules before them have left. -/
theorem foldlM_explains (standard : ∀ rule ∈ rules, IsStandard rule) {start : Run.Progress} {cause : Unresolved}
    (loaded : start.unit = .load index id start.unit.text)
    (failed : rules.foldlM (Run.applyRule index) start = .error (.unavailable other cause)) :
    ∃ text, (SourceUnit.load index id text).scope = .error cause := by
  induction rules generalizing start with
  | nil => cases failed
  | cons rule rules ih =>
    obtain ⟨here, others⟩ := List.forall_mem_cons.mp standard
    rw [List.foldlM_cons] at failed
    rcases bind_eq_error_iff.mp failed with stopped | ⟨reached, first, stopped⟩
    · rcases bind_eq_error_iff.mp stopped with refused | ⟨group, -, stopped⟩
      · exact ⟨start.unit.text, loaded ▸ standard_explains here start.unit _ cause refused⟩
      · split at stopped
        · cases stopped
        · split at stopped <;> cases stopped
    · have ran : [rule].foldlM (Run.applyRule index) start = .ok reached := by
        rw [List.foldlM_cons, first]
        rfl
      exact ih others (foldlM_load loaded ran) stopped

/-- A file that is not read is too large. -/
theorem load_problem [Storage σ] {storage : σ} {limit : Nat} {path : String} {problem : Problem}
    (loaded : SourceFile.load limit storage path = .ok file) (unread : file.text = .error problem) :
    ∃ size, problem = .tooLarge size limit := by
  unfold SourceFile.load at loaded
  split at loaded
  · cases loaded
  · split at loaded <;> cases loaded <;> cases unread
    exact ⟨_, rfl⟩

theorem process_skipped (standard : ∀ rule ∈ rules, IsStandard rule) (skipped : SkippedFor processed target)
    (large : ∀ problem, file.text = .error problem → ∃ size limit, problem = .tooLarge size limit)
    (ran : Run.process rules index file = .ok (processed, next)) :
    ∃ text, (SourceUnit.load index file.path text).scope = .error (.missingImport target) := by
  obtain ⟨id, skipped⟩ := skipped
  cases process_cases ran with
  | unread unread =>
    obtain ⟨size, limit, rfl⟩ := large _ unread
    cases skipped
  | refused _ stopped =>
    dsimp only at skipped
    unfold Run.refusal at skipped
    split at skipped <;> cases skipped
    exact foldlM_explains standard (by rw [load_text]) stopped
  | givenUp => cases skipped
  | unchanged => cases skipped
  | changed => cases skipped

/-! What the index knows of the units before. -/

theorem load_misses (failed : (SourceUnit.load index id text).scope = .error (.missingImport target)) :
    ∃ parent, Misses index target parent := by
  unfold SourceUnit.load at failed
  split at failed
  · dsimp only at failed
    unfold Scope.resolve at failed
    split at failed
    · rename_i missed found
      cases failed
      have missing := List.find?_some found
      simp only [Scope.isMissing, Bool.and_eq_true, Bool.not_eq_true'] at missing
      obtain ⟨noPackage, inside⟩ := missing
      split at inside
      · rename_i parent above
        rw [Bool.and_eq_true] at inside
        exact ⟨parent, above, inside.1, noPackage, List.isEmpty_iff.mp inside.2⟩
      · cases inside
    · cases failed
  · cases failed

theorem lookupPath_ne_nil_of_symbol {symbol : Symbol} (found : symbol ∈ index.lookup target) :
    Scope.lookupPath index target ≠ [] := by
  intro missing
  unfold Scope.lookupPath at missing
  split at missing
  · rename_i none
    rw [none] at found
    cases found
  · rename_i some
    exact some missing

theorem lookupPath_ne_nil_of_member {symbol member : Symbol} (found : symbol ∈ index.lookup parent)
    (holder : symbol.kind = .holder) (inside : member ∈ symbol.members) :
    Scope.lookupPath index (parent.child member.simpleName) ≠ [] := by
  intro missing
  unfold Scope.lookupPath at missing
  split at missing
  · simp only [DottedName.parent?_child, DottedName.last?_child, List.flatMap_eq_nil_iff] at missing
    have listed : symbol ∈ (index.lookupIn parent .term).filter fun symbol => symbol.kind = .holder := by
      simp [Index.lookupIn, found, holder, SymbolKind.inhabits]
    have none := List.filter_eq_nil_iff.mp (missing symbol listed) member inside
    simp at none
  · rename_i some
    exact some missing

/-- A unit in the ledger can be found under everything that it offers. -/
theorem Misses.not_offers (misses : Misses index target parent) (refines : Refines index ledger) {unit : UnitId × String}
    (entered : ledger.get? unit.1 = some (packageOf unit, declared unit)) : ¬ Offers unit target := by
  have filed : ∀ symbol ∈ declared unit, symbol ∈ index.lookup symbol.name := fun symbol member =>
    (refines.filed _).symm.subset ((mem_symbolsAt refines.distinct).mpr ⟨_, _, entered, member, rfl⟩)
  rintro (package | ⟨symbol, member, same | ⟨holder, inner, inside, same⟩⟩)
  · obtain ⟨count, -, counted⟩ := refines.counted_pos entered
    have noPackage := misses.noPackage
    simp [Index.hasPackage, Table.contains, ← package, counted] at noPackage
  · exact lookupPath_ne_nil_of_symbol (same ▸ filed symbol member) misses.noSymbol
  · exact lookupPath_ne_nil_of_member (filed symbol member) holder inside (same ▸ misses.noSymbol)

/-- A package that the index knows is the package of a unit in the ledger. -/
theorem hasPackage_declared (mirrors : Mirrors index results ledger) (known : index.hasPackage parent = true) :
    ∃ unit ∈ results, packageOf (finalUnit unit) = parent := by
  have counted := mirrors.refines.counted parent
  have some : ledger.unitsIn parent ≠ 0 := by
    intro none
    rw [if_pos none] at counted
    simp [Index.hasPackage, Table.contains, counted] at known
  obtain ⟨registration, listed, same⟩ := List.countP_pos_iff.mp (Nat.pos_of_ne_zero some)
  obtain ⟨⟨unit, _⟩, entry, rfl⟩ := List.mem_map.mp listed
  obtain ⟨processed, member, -, registered⟩ :=
    mirrors.known _ _ ((get?_eq_some_iff mirrors.refines.distinct).mpr entry)
  refine ⟨processed, member, ?_⟩
  rw [← of_decide_eq_true same, registered]

/-! The run. -/

theorem processAll_split (ran : Run.processAll rules index files = .ok (front ++ processed :: behind)) :
    ∃ reached next, advance rules index (front.map Run.Processed.file) = .ok (front, reached) ∧
      Run.process rules reached processed.file = .ok (processed, next) := by
  induction front generalizing index files with
  | nil =>
    cases files with
    | nil => cases ran
    | cons file files =>
      obtain ⟨first, next, others, here, -, same⟩ := processAll_cons_iff.mp ran
      cases same
      rw [← (process_settled here).1] at here
      exact ⟨index, next, rfl, here⟩
  | cons unit front ih =>
    cases files with
    | nil => cases ran
    | cons file files =>
      obtain ⟨first, next, others, here, there, same⟩ := processAll_cons_iff.mp ran
      cases same
      obtain ⟨reached, last, advanced, processed⟩ := ih there
      rw [← (process_settled here).1] at here
      refine ⟨reached, last, ?_, processed⟩
      exact advance_cons_iff.mpr ⟨_, _, _, here, advanced, rfl⟩

/-- Any run of the standard rules over distinct files. If a unit is skipped because
it imports a name, then that name lies in the package of a unit that was processed
before, and no unit processed before offers it, apart from files that were not read
and units that were given up or refused as duplicates. If the unit's text itself
imports the name, and the package of the program it lies in is neither the unit's
own nor the root, then all units of that package were processed before. -/
theorem skipped_import [Storage σ] (run : Run) (storage : σ) (paths : List String) (distinct : paths.Nodup)
    (standard : ∀ rule ∈ run.rules, IsStandard rule) (files : List SourceFile)
    (loaded : run.loadAll storage paths = .ok files) (front behind : List Run.Processed) (processed : Run.Processed)
    (ran : Run.processAll run.rules .empty files = .ok (front ++ processed :: behind)) (target : DottedName)
    (skipped : SkippedFor processed target) :
    (∃ parent, target.parent? = some parent ∧ ∃ unit ∈ front, packageOf (finalUnit unit) = parent) ∧
    (∃ reached, advance run.rules .empty (front.map Run.Processed.file) = .ok (front, reached) ∧
      ∀ unit ∈ front, Offers (finalUnit unit) target → (∃ problem, unit.file.text = .error problem) ∨ GivenUp unit ∨
        Refused reached (finalUnit unit)) ∧
    (target ∈ processed.file.header.targets →
      ∀ package, LongestPackage (packagesOf (headersOf files)) target package →
        package ≠ processed.file.header.packageName →
          ∀ unit ∈ front ++ processed :: behind, unit.file.header.packageName = package → unit ∈ front) := by
  obtain ⟨read, fetched, perm, inOrder⟩ := loaded_order loaded
  have whole : (front ++ processed :: behind).map Run.Processed.file = files := (processAll_settled ran).1
  obtain ⟨reached, next, advanced, here⟩ := processAll_split ran
  have large : ∀ problem, processed.file.text = .error problem → ∃ size limit, problem = .tooLarge size limit := by
    intro problem unread
    have listed : processed.file ∈ read := perm.subset (by simp [← whole])
    obtain ⟨path, -, fetched⟩ := mem_of_mapM fetched listed
    obtain ⟨size, rfl⟩ := load_problem fetched unread
    exact ⟨size, _, rfl⟩
  obtain ⟨text, failed⟩ := process_skipped standard skipped large here
  obtain ⟨parent, misses⟩ := load_misses failed
  have earlier : ((front.map Run.Processed.file).map SourceFile.path).Nodup := by
    have once := loaded_distinct loaded distinct
    rw [← whole, List.map_append, List.map_append] at once
    exact once.of_append_left
  obtain ⟨ledger, mirrors⟩ := advance_mirrors advanced earlier
  refine ⟨⟨parent, misses.above, hasPackage_declared mirrors misses.known⟩, ⟨reached, advanced, ?_⟩, ?_⟩
  · intro unit member offers
    cases content : unit.file.text with
    | error problem => exact .inl ⟨problem, rfl⟩
    | ok old =>
      cases mirrors.entered unit member old content with
      | registered _ entered => exact (misses.not_offers mirrors.refines entered offers).elim
      | refused _ _ clashes => exact .inr (.inr ((Refines.refused_iff mirrors.refines _).mpr clashes))
      | givenUp givenUp _ => exact .inr (.inl givenUp)
  · intro imported package longest foreign unit member same
    rcases List.mem_append.mp member with earlier | later
    · exact earlier
    · rcases List.mem_cons.mp later with rfl | later
      · exact absurd same.symm foreign
      · have back := pairwise_behind (whole ▸ inOrder) unit later
        have imports : Imports files processed.file unit.file := ⟨same ▸ foreign, target, imported, same ▸ longest⟩
        exact absurd (imports.of_perm perm) back.1

/-- Three units of one package, the first of them processed last. -/
def siblingFiles : MemoryFiles :=
  .ofList [("Y", "package a\nclass Y"), ("X", "package a\nimport a.Y\nclass X"), ("Z", "package a\nclass Z")]

/-- The second unit is skipped for a name that the first one offers. -/
theorem sibling_skipped :
    ∃ files front processed behind, Run.loadAll ⟨.default, standardRules⟩ siblingFiles ["Y", "X", "Z"] = .ok files ∧
      Run.processAll standardRules .empty files = .ok (front ++ processed :: behind) ∧
      SkippedFor processed ⟨["a", "Y"]⟩ ∧
      (∃ unit ∈ front, packageOf (finalUnit unit) = ⟨["a"]⟩) ∧ ∃ unit ∈ behind, Offers (finalUnit unit) ⟨["a", "Y"]⟩ := by
  have seen : ((Run.loadAll ⟨.default, standardRules⟩ siblingFiles ["Y", "X", "Z"]).toOption.bind fun files =>
      (Run.processAll standardRules .empty files).toOption.map fun results =>
        results.map fun processed => (processed.outcome, finalUnit processed)) =
      some [(.unchanged, "Z", "package a\nclass Z"),
        (.skipped (.rule (.unavailable "X" (.missingImport ⟨["a", "Y"]⟩))), "X", "package a\nimport a.Y\nclass X"),
        (.unchanged, "Y", "package a\nclass Y")] := by decide +kernel
  obtain ⟨files, loaded, seen⟩ := Option.bind_eq_some_iff.mp seen
  obtain ⟨results, ran, seen⟩ := Option.map_eq_some_iff.mp seen
  obtain ⟨first, _, rfl, -, seen⟩ := List.map_eq_cons_iff.mp seen
  obtain ⟨second, _, rfl, isSecond, seen⟩ := List.map_eq_cons_iff.mp seen
  obtain ⟨third, _, rfl, isThird, seen⟩ := List.map_eq_cons_iff.mp seen
  rw [Prod.mk.injEq] at isSecond isThird
  have loaded := toOption_eq_some_iff.mp loaded
  have ran : Run.processAll standardRules .empty files = .ok ([first] ++ second :: third :: _) := toOption_eq_some_iff.mp ran
  have skipped : SkippedFor second ⟨["a", "Y"]⟩ := ⟨"X", isSecond.1⟩
  have standard : ∀ rule ∈ standardRules, IsStandard rule := by
    simp [standardRules, IsStandard]
  have distinct : ["Y", "X", "Z"].Nodup := by decide
  obtain ⟨⟨parent, above, declaring⟩, -⟩ := skipped_import ⟨.default, standardRules⟩ siblingFiles ["Y", "X", "Z"] distinct
    standard files loaded [first] _ second ran _ skipped
  cases above
  have offers : ((declared ("Y", "package a\nclass Y")).any fun symbol => symbol.name = ⟨["a", "Y"]⟩) = true := by
    decide +kernel
  obtain ⟨symbol, member, same⟩ := List.any_eq_true.mp offers
  refine ⟨files, [first], second, _, loaded, ran, skipped, declaring, third, List.mem_cons_self .., ?_⟩
  rw [isThird.2]
  exact .inr ⟨symbol, member, .inl (of_decide_eq_true same)⟩

end KindLift.ImportChecks
