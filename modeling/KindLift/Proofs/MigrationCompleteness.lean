import KindLift.Proofs.FileOrder
import KindLift.Proofs.QualifiedReferences
import KindLift.Proofs.RunAtomicity

/-! What a migration leaves behind. A run of both rules that reports no problem
qualifies every reference to a relocated service that was in the program when the
unit of the reference was processed: the unit's own services, and those of the
units before it. -/
namespace KindLift.MigrationCompleteness
open Traversal RunSession RuleSafety IndexGrowth QualifiedReferences FileOrder
open RunAtomicity (session_memory)

/-- The text a unit is left with: the new one if it has changed, else the old one. -/
def finalText (processed : Run.Processed) : String :=
  processed.newText.getD (processed.file.text.toOption.getD "")

/-- A unit as the run leaves it. -/
def finalUnit (processed : Run.Processed) : UnitId × String := (processed.file.path, finalText processed)

/-- The index with the units registered one after the other. -/
def registerAll (index : Index) : List (UnitId × String) → Except DuplicateSymbol Index
  | [] => .ok index
  | (id, text) :: rest => do registerAll (← (SourceUnit.load index id text).register index) rest

/-- What a unit with the given text declares. -/
def declared (unit : UnitId × String) : List Symbol := (SourceUnit.load .empty unit.1 unit.2).exportedSymbols

/-- The unit declares the service, at top level or in an object. -/
def Declares (unit : UnitId × String) (target : Relocated) : Prop :=
  ∃ symbol ∈ declared unit, ∃ found ∈ symbol :: symbol.members, Names target found

/-- The rules of the migration in the order in which they run. -/
def standardRules : List Rule := [AddInstances.rule .default, AdaptReferences.rule]

/-- Both rules, run over a unit of the program: the text after the first one, and
the text after the second one. -/
structure Adapts (index : Index) (id : UnitId) (old middle new : String) : Prop where
  instances : ∃ group, AddInstances.editSet .default (.load index id old) = .ok group ∧ group.apply old = .ok middle
  references : ∃ group, AdaptReferences.editSet (.load index id middle) = .ok group ∧ group.apply middle = .ok new

/-- The unit was rewritten against the index and then registered in it. -/
def Migrates (index : Index) (processed : Run.Processed) (next : Index) : Prop :=
  ∃ old middle, processed.file.text = .ok old ∧ Adapts index processed.file.path old middle (finalText processed) ∧
    (SourceUnit.load index processed.file.path (finalText processed)).register index = .ok next

/-- The units were migrated one after the other. -/
inductive MigratesAll : Index → List Run.Processed → Index → Prop where
  | nil : MigratesAll index [] index
  | cons (first : Migrates index processed next) (rest : MigratesAll next results last) :
      MigratesAll index (processed :: results) last

variable {index next last : Index} {id : UnitId} {text : String} {processed : Run.Processed}
  {results front back : List Run.Processed} {file : SourceFile} {files : List SourceFile} {target : Relocated}

theorem load_id (index : Index) (id : UnitId) (text : String) : (SourceUnit.load index id text).id = id := by
  unfold SourceUnit.load
  split <;> rfl

/-- What a unit declares does not depend on the program. -/
theorem exportedSymbols_load (index : Index) (id : UnitId) (text : String) :
    (SourceUnit.load index id text).exportedSymbols = declared (id, text) := by
  unfold declared SourceUnit.load
  dsimp only
  cases Outline.parse text.toList <;> rfl

theorem apply_of_no_edits {group : EditSet} {new : String} (empty : group.edits = []) (applied : group.apply text = .ok new) :
    new = text := by
  unfold EditSet.apply at applied
  simp only [empty, List.isEmpty_nil, if_true] at applied
  split at applied
  · cases applied
  · cases applied
    rfl

theorem applyRule_eq_ok {rule : Rule} (standard : IsStandard rule) {applied : List String} {edits : Nat}
    {progress : Run.Progress} (ran : Run.applyRule index ⟨.load index id text, applied, edits⟩ rule = .ok progress) :
    ∃ group new, rule.editSet (.load index id text) = .ok group ∧ group.apply text = .ok new ∧
      progress.unit = .load index id new := by
  have safe := standard_safely standard index id text
  obtain ⟨group, returned, rest⟩ := bind_eq_ok_iff.mp ran
  rw [returned] at safe
  obtain ⟨new, applies⟩ := safe
  refine ⟨group, new, returned, applies, ?_⟩
  split at rest
  · rename_i empty
    cases rest
    rw [apply_of_no_edits (List.isEmpty_iff.mp empty) applies]
  · rw [load_text, applies] at rest
    cases rest
    rw [load_id]

theorem finalText_kept (outcome : Outcome) (read : file.text = .ok text) : finalText ⟨file, outcome, none⟩ = text := by
  simp [finalText, read, Except.toOption]

/-- Both rules go over the unit, and it is read again with what they leave. -/
theorem adapts_of_rewrites {progress : Run.Progress} (rewritten : Rewrites standardRules index id text progress) :
    (∃ middle, Adapts index id text middle progress.unit.text) ∧ progress.unit = .load index id progress.unit.text := by
  rw [Rewrites, standardRules, List.foldlM_cons] at rewritten
  obtain ⟨⟨unit, names, edits⟩, first, rest⟩ := bind_eq_ok_iff.mp rewritten
  rw [List.foldlM_cons] at rest
  obtain ⟨done, second, same⟩ := bind_eq_ok_iff.mp rest
  cases same
  obtain ⟨group, middle, returned, applied, loaded⟩ := applyRule_eq_ok (.inr ⟨.default, rfl⟩) first
  subst loaded
  obtain ⟨group', new, returned', applied', loaded⟩ := applyRule_eq_ok (.inl rfl) second
  have texts : progress.unit.text = new := by rw [loaded, load_text]
  rw [texts]
  exact ⟨⟨middle, ⟨group, returned, applied⟩, ⟨group', returned', applied'⟩⟩, loaded⟩

theorem process_migrates (ran : Run.process standardRules index file = .ok (processed, next))
    (clean : processed.outcome.isProblem = false) : Migrates index processed next := by
  cases process_cases ran with
  | unread => cases clean
  | refused =>
    dsimp only at clean
    unfold Run.refusal at clean
    split at clean <;> cases clean
  | givenUp => cases clean
  | unchanged read rewritten registered same =>
    obtain ⟨⟨middle, adapts⟩, loaded⟩ := adapts_of_rewrites rewritten
    rw [loaded, same] at registered
    rw [same] at adapts
    have final := finalText_kept .unchanged read
    exact ⟨_, middle, read, final.symm ▸ adapts, final.symm ▸ registered⟩
  | changed read rewritten registered =>
    obtain ⟨⟨middle, adapts⟩, loaded⟩ := adapts_of_rewrites rewritten
    rw [loaded] at registered
    exact ⟨_, middle, read, adapts, registered⟩

/-- A run without problems migrates all its units. -/
theorem processAll_migrates (ran : Run.processAll standardRules index files = .ok results)
    (clean : ∀ processed ∈ results, processed.outcome.isProblem = false) : ∃ last, MigratesAll index results last := by
  induction files generalizing index results with
  | nil =>
    cases ran
    exact ⟨index, .nil⟩
  | cons file files ih =>
    obtain ⟨processed, next, others, first, later, rfl⟩ := processAll_cons_iff.mp ran
    obtain ⟨here, there⟩ := List.forall_mem_cons.mp clean
    obtain ⟨last, migrated⟩ := ih later there
    exact ⟨last, .cons (process_migrates first here) migrated⟩

theorem MigratesAll.registerAll (migrated : MigratesAll index results last) :
    registerAll index (results.map finalUnit) = .ok last := by
  induction migrated with
  | nil => rfl
  | cons first _ ih =>
    obtain ⟨old, middle, -, -, registered⟩ := first
    exact bind_eq_ok_iff.mpr ⟨_, registered, ih⟩

theorem MigratesAll.split (migrated : MigratesAll index (front ++ processed :: back) last) :
    ∃ reached next, MigratesAll index front reached ∧ Migrates reached processed next ∧ MigratesAll next back last := by
  induction front generalizing index with
  | nil =>
    cases migrated with
    | cons first rest => exact ⟨index, _, .nil, first, rest⟩
  | cons other front ih =>
    cases migrated with
    | cons first rest =>
      obtain ⟨reached, next, before, here, after⟩ := ih rest
      exact ⟨reached, next, .cons first before, here, after⟩

/-- None of the units is registered, and no two of them are the same. -/
structure Fresh (index : Index) (results : List Run.Processed) : Prop where
  unregistered : ∀ processed ∈ results, index.units.get? processed.file.path = none
  distinct : (results.map fun processed => processed.file.path).Nodup

theorem Migrates.grows (migrated : Migrates index processed next)
    (fresh : index.units.get? processed.file.path = none) : Grows index (declared (finalUnit processed)) next := by
  obtain ⟨old, middle, -, -, registered⟩ := migrated
  unfold SourceUnit.register at registered
  rw [load_id, exportedSymbols_load] at registered
  exact register_grows fresh registered

theorem Migrates.fresh (migrated : Migrates index processed next) (fresh : Fresh index (processed :: results)) :
    Fresh next results := by
  obtain ⟨old, middle, -, -, registered⟩ := migrated
  obtain ⟨here, others⟩ := List.forall_mem_cons.mp fresh.unregistered
  have distinct := fresh.distinct
  rw [List.map_cons, List.nodup_cons] at distinct
  unfold SourceUnit.register at registered
  rw [load_id] at registered
  refine ⟨fun other member => ?_, distinct.2⟩
  have differs : other.file.path ≠ processed.file.path := fun same =>
    distinct.1 (List.mem_map.mpr ⟨other, member, same⟩)
  rw [register_units here registered differs]
  exact others other member

theorem MigratesAll.grows (migrated : MigratesAll index results last) (fresh : Fresh index results) :
    Grows index (results.flatMap fun processed => declared (finalUnit processed)) last := by
  induction migrated with
  | nil => exact .refl _
  | cons first _ ih =>
    rw [List.flatMap_cons]
    exact (first.grows (fresh.unregistered _ (List.mem_cons_self ..))).trans (ih (first.fresh fresh))

/-- After some of the units the others are still fresh. -/
theorem MigratesAll.fresh (migrated : MigratesAll index front next) (fresh : Fresh index (front ++ results)) :
    Fresh next results := by
  induction migrated with
  | nil => exact fresh
  | cons first _ ih => exact ih (first.fresh fresh)

/-- The names of the services can be put in front of all references that the rule for
references finds, when it comes to the unit behind the given ones. -/
def FindsFitting (before : List Run.Processed) (processed : Run.Processed) : Prop :=
  ∀ index old middle new found, registerAll .empty (before.map finalUnit) = .ok index →
    processed.file.text = .ok old → Adapts index processed.file.path old middle new →
      RelocatedRef.findAll (.load index processed.file.path middle) = .ok found →
        ∀ relocated ∈ found, Fits middle relocated

/-- The unit declares a name of its own, whatever it means elsewhere. -/
def HasOwn (unit : UnitId × String) (name : String) : Prop :=
  name ∈ (SourceUnit.load .empty unit.1 unit.2).outline.decls.filterMap Decl.name?

theorem outline_load (index : Index) (id : UnitId) (text : String) :
    (SourceUnit.load index id text).outline = (SourceUnit.load .empty id text).outline := by
  unfold SourceUnit.load
  cases Outline.parse text.toList <;> rfl

theorem undeclared_of_units {units : List Run.Processed} (apart : ∀ unit ∈ units, ¬ Declares (finalUnit unit) target) :
    Undeclared (units.flatMap fun unit => declared (finalUnit unit)) target := by
  intro symbol member found listed names
  obtain ⟨unit, chosen, exported⟩ := List.mem_flatMap.mp member
  exact apart unit chosen ⟨symbol, exported, found, listed, names⟩

/-- One unit of a migration, read again when all units are registered. -/
theorem MigratesAll.preceded (migrated : MigratesAll .empty (front ++ processed :: back) last)
    (distinct : ((front ++ processed :: back).map fun processed => processed.file.path).Nodup)
    (fitting : FindsFitting front processed) {found : List RelocatedRef}
    (ran : RelocatedRef.findAll (.load last processed.file.path (finalText processed)) = .ok found) :
    ∀ relocated ∈ found, HasOwn (finalUnit processed) relocated.reference.name ∨
      (∀ unit ∈ processed :: back, ¬ Declares (finalUnit unit) relocated.target) →
        Preceded (finalText processed) relocated := by
  obtain ⟨reached, next, before, here, after⟩ := migrated.split
  have fresh : Fresh reached (processed :: back) := before.fresh ⟨fun _ _ => rfl, distinct⟩
  have grows := (MigratesAll.cons here after).grows fresh
  obtain ⟨old, middle, read, adapts, -⟩ := here
  obtain ⟨group, returned, applied⟩ := adapts.references
  obtain ⟨found', ran', -⟩ := bind_eq_ok_iff.mp returned
  have fit := fitting reached old middle _ found' before.registerAll read adapts ran'
  intro relocated listed settled
  refine adapted_preceded grows ran' fit returned applied ran relocated listed (settled.imp ?_ undeclared_of_units)
  intro own
  rw [outline_load]
  exact own

/-- A run of both rules over distinct files that reports no problem. All units can
be registered as it leaves them. Each of them is read again in that program: a
reference to a relocated service stands behind the service's name and a point if
its unit declares that name itself, or if the service is declared only by units
that were processed earlier. Units that come later are not of a package that the
unit imports from, and those of its own package that declare a name it refers to
depend on it themselves. Units in which the rule for references puts a name in front
of a reference that it runs together with, or that is no word, are left out. -/
theorem references_qualified [Storage σ] (settings : Settings) (storage after : σ) (paths : List String)
    (report : Report) (distinct : paths.Nodup)
    (ran : Run.files ⟨settings, standardRules⟩ storage paths = .ok (report, after))
    (success : report.isSuccess = true) :
    ∃ read results index, paths.mapM (SourceFile.load settings.maxFileSize storage) = .ok read ∧
      computed ⟨settings, standardRules⟩ storage paths = .ok results ∧
      report.units = results.map Run.Processed.report ∧
      registerAll .empty (results.map finalUnit) = .ok index ∧
      ∀ before processed behind, results = before ++ processed :: behind →
        (∀ later ∈ behind, ¬ Imports read processed.file later.file ∧
          (Refers processed.file later.file → DependsOn read later.file processed.file)) ∧
        (FindsFitting before processed →
          ∀ found, RelocatedRef.findAll (.load index processed.file.path (finalText processed)) = .ok found →
            ∀ relocated ∈ found, HasOwn (finalUnit processed) relocated.reference.name ∨
              (∀ unit ∈ processed :: behind, ¬ Declares (finalUnit unit) relocated.target) →
                Preceded (finalText processed) relocated) := by
  obtain ⟨results, computation, concluded⟩ := files_eq_ok ran
  have units := conclude_ok concluded
  obtain ⟨files, loaded, done⟩ := bind_eq_ok_iff.mp computation
  have clean : ∀ processed ∈ results, processed.outcome.isProblem = false := by
    intro processed member
    have problems := List.isEmpty_iff.mp success
    rw [Report.problems, List.filter_eq_nil_iff, units] at problems
    exact Bool.not_eq_true _ ▸ problems _ (List.mem_map_of_mem member)
  obtain ⟨index, migrated⟩ := processAll_migrates done clean
  obtain ⟨read, fetched, perm, inOrder⟩ := loaded_order loaded
  have whole : results.map Run.Processed.file = files := (processAll_settled done).1
  have once : (results.map fun processed => processed.file.path).Nodup := by
    have same : (results.map fun processed => processed.file.path) = files.map SourceFile.path := by
      rw [← whole, List.map_map]
      rfl
    rw [same]
    exact loaded_distinct loaded distinct
  refine ⟨read, results, index, fetched, computation, units, migrated.registerAll, ?_⟩
  rintro before processed behind rfl
  constructor
  · exact pairwise_behind (whole ▸ inOrder)
  · intro fitting found ran' relocated listed settled
    exact migrated.preceded once fitting ran' relocated listed settled

/-! Runs over given texts. -/

/-- The header of a text, by what the parser finds in it. -/
theorem header_eq {package : Option PackageClause} {imports : List Import} {names used : List String}
    (seen : (Outline.parse text.toList).toOption.map (fun outline => (outline.package, outline.imports,
      outline.decls.filterMap Decl.name?, outline.typeRefs.map TypeRef.name)) = some (package, imports, names, used)) :
    Header.ofText text = ⟨package, imports, sortedSet names, sortedSet used, none⟩ := by
  obtain ⟨outline, parsed, seen⟩ := Option.map_eq_some_iff.mp seen
  cases seen
  rw [Header.ofText, toOption_eq_some_iff.mp parsed]

theorem sortedSet_of_sorted {items : List String} (sorted : items.Pairwise fun a b => (compare a b).isLE = true) :
    sortedSet items = items.eraseReps := by
  rw [sortedSet, List.mergeSort_of_pairwise sorted]

/-- A run without problems over files in a known order. -/
theorem files_ok {storage : MemoryFiles} {paths : List String} {settings : Settings}
    (loaded : Run.loadAll ⟨settings, standardRules⟩ storage paths = .ok files)
    (done : Run.processAll standardRules .empty files = .ok results)
    (clean : results.all fun processed => !processed.outcome.isProblem) :
    ∃ report after, Run.files ⟨settings, standardRules⟩ storage paths = .ok (report, after) ∧ report.isSuccess = true := by
  have computation : computed ⟨settings, standardRules⟩ storage paths = .ok results :=
    bind_eq_ok_iff.mpr ⟨files, loaded, done⟩
  have success : ∀ dryRun written, Report.isSuccess ⟨results.map Run.Processed.report, dryRun, written⟩ = true := by
    intro dryRun written
    rw [Report.isSuccess, Report.problems, List.isEmpty_iff, List.filter_eq_nil_iff]
    intro unit member
    obtain ⟨processed, listed, rfl⟩ := List.mem_map.mp member
    have outcome : processed.report.outcome = processed.outcome := rfl
    rw [outcome]
    simpa using List.all_eq_true.mp clean processed listed
  rw [Run.files, session_memory, computation]
  cases settings.dryRun
  · exact ⟨_, _, rfl, success ..⟩
  · exact ⟨_, _, rfl, success ..⟩

/-- What is computed of a program of one unit: the names that the unit declares and uses, its
place in the order, its size, and the text that the edits of the rule for references make of it. -/
abbrev LoneEdited (text text' : String) (names used : List String) (count : Nat) : Prop :=
  (Outline.parse text.toList).toOption.map (fun outline => (outline.package, outline.imports,
    outline.decls.filterMap Decl.name?, outline.typeRefs.map TypeRef.name)) = some (none, [], names, used) ∧
  (names.Pairwise fun a b => (compare a b).isLE = true) ∧
  (used.Pairwise fun a b => (compare a b).isLE = true) ∧
  (DependencyGraph.build [("A", ⟨none, [], names.eraseReps, used.eraseReps, none⟩)]).leafFirst.toOption = some [0] ∧
  ¬ Settings.default.maxFileSize < text.utf8ByteSize ∧
  (Run.processAll standardRules .empty [⟨"A", .ok text⟩]).toOption.map (fun results =>
    results.map fun processed => (processed.outcome, finalUnit processed)) =
    some [(.changed ["adapt-references"] count, "A", text')]

/-- The one unit of a program is loaded as it is. -/
theorem lone_loaded {text' : String} {names used : List String} {count : Nat}
    (edited : LoneEdited text text' names used count) :
    Run.loadAll ⟨.default, standardRules⟩ (.ofList [("A", text)] : MemoryFiles) ["A"] = .ok [⟨"A", .ok text⟩] := by
  obtain ⟨seen, namesSorted, usedSorted, order, small, -⟩ := edited
  have held : (MemoryFiles.ofList [("A", text)]).get? "A" = some text := by
    show (Table.insert .empty (Path.components "A") text).get? (Path.components "A") = some text
    rw [Table.get?_insert, if_pos rfl]
  have stored : Storage.read (MemoryFiles.ofList [("A", text)]) "A" = .ok text := by
    simp only [Storage.read, held]
  have read : ["A"].mapM (SourceFile.load Settings.default.maxFileSize (.ofList [("A", text)] : MemoryFiles)) =
      .ok [⟨"A", .ok text⟩] := by
    refine mapM_eq_ok_iff.mpr (.cons ?_ .nil)
    rw [SourceFile.load, stored]
    exact if_neg small
  have header : Header.ofText text = ⟨none, [], names.eraseReps, used.eraseReps, none⟩ := by
    rw [← sortedSet_of_sorted namesSorted, ← sortedSet_of_sorted usedSorted]
    exact header_eq seen
  refine bind_eq_ok_iff.mpr ⟨_, read, ?_⟩
  simp only [Run.leafFirst, List.map_cons, List.map_nil, SourceFile.header, header, toOption_eq_some_iff.mp order]
  rfl

/-- What becomes of the one unit of a program in which the rule for references makes edits. -/
theorem lone_processed {text' : String} {names used : List String} {count : Nat}
    (edited : LoneEdited text text' names used count) : ∃ processed,
    Run.processAll standardRules .empty [⟨"A", .ok text⟩] = .ok [processed] ∧
      processed.outcome = .changed ["adapt-references"] count ∧ finalUnit processed = ("A", text') := by
  obtain ⟨-, -, -, -, -, seen⟩ := edited
  obtain ⟨results, done, seen⟩ := Option.map_eq_some_iff.mp seen
  obtain ⟨processed, _, rfl, same, seen⟩ := List.map_eq_cons_iff.mp seen
  cases List.map_eq_nil_iff.mp seen
  rw [Prod.mk.injEq] at same
  exact ⟨processed, toOption_eq_some_iff.mp done, same⟩

/-- A class beside a relocated service that it refers to in back quotes. -/
def ownText : String := "class C(y:\x60Y\x60[F])\ntrait Y\nobject Y\x7btrait Y[F[_]]\x7d"

/-- The same with the reference qualified. -/
def ownText' : String := "class C(y:Y.\x60Y\x60[F])\ntrait Y\nobject Y\x7btrait Y[F[_]]\x7d"

/-- What is computed from the text: the unit that the run leaves, the edits of the first rule,
what the second one finds and the tokens there, and the references found in the new text. -/
theorem ownText_computed : LoneEdited ownText ownText' ["C", "Y", "Y"] ["Y"] 1 ∧
    ((AddInstances.editSet .default (.load .empty "A" ownText)).toOption.map (fun group => group.edits) = some [] ∧
    (RelocatedRef.findAll (.load .empty "A" ownText)).toOption.map (fun found =>
      found.map fun relocated => (relocated.target.name, relocated.reference.span.start)) = some [("Y", 10)] ∧
    (Token.scan ownText.toList).toOption.map (fun tokens => tokens.all fun token =>
      token.stop = 10 → ¬ QualifiedScan.Running token) = some true) ∧
    ((registerAll .empty [("A", ownText')]).toOption.bind fun index =>
      (RelocatedRef.findAll (.load index "A" ownText')).toOption.map fun found =>
        found.map fun relocated => relocated.reference.name) = some ["Y"] ∧
    "Y" ∈ (SourceUnit.load .empty "A" ownText').outline.decls.filterMap Decl.name? := by
  decide +kernel

/-- The first rule leaves the text as it is, and the name of the service fits in front of the
reference there. -/
theorem ownText_fitting (file : processed.file = ⟨"A", .ok ownText⟩) : FindsFitting [] processed := by
  intro index old middle new found started read adapts ran relocated listed _
  cases started
  cases (congrArg SourceFile.text file).symm.trans read
  obtain ⟨group, returned, applied⟩ := adapts.instances
  obtain ⟨_, ⟨none, found', tokens'⟩, _⟩ := ownText_computed
  rw [file] at returned ran
  rw [returned, Except.toOption, Option.map_some, Option.some.injEq] at none
  rw [apply_of_no_edits none applied] at ran ⊢
  rw [ran, Except.toOption, Option.map_some, Option.some.injEq] at found'
  have only : (relocated.target.name, relocated.reference.span.start) ∈
      found.map fun relocated => (relocated.target.name, relocated.reference.span.start) := List.mem_map_of_mem listed
  rw [found', List.mem_singleton] at only
  obtain ⟨name, start⟩ := Prod.mk.inj only
  constructor
  · rw [name]
    exact ⟨'Y', [], rfl, by decide, by rfl⟩
  · intro tokens scanned before member touches
    rw [scanned, Except.toOption, Option.map_some, Option.some.injEq] at tokens'
    exact of_decide_eq_true (List.all_eq_true.mp tokens' before member) (touches.trans start)

/-- The reference is qualified, and it is still reported when the unit is read
again. -/
theorem ownText_qualified :
    ∃ report after index found,
      Run.files ⟨.default, standardRules⟩ (.ofList [("A", ownText)] : MemoryFiles) ["A"] = .ok (report, after) ∧
      report.isSuccess = true ∧ registerAll .empty [("A", ownText')] = .ok index ∧
      RelocatedRef.findAll (.load index "A" ownText') = .ok found ∧ found.length = 1 ∧
      ∀ relocated ∈ found, Preceded ownText' relocated := by
  have distinct : ["A"].Nodup := by decide
  obtain ⟨edited, _, reported, named⟩ := ownText_computed
  have loaded := lone_loaded edited
  obtain ⟨processed, done, changed, final⟩ := lone_processed edited
  have file : processed.file = ⟨"A", .ok ownText⟩ := List.singleton_inj.mp (processAll_settled done).1
  obtain ⟨report, after, ran, success⟩ := files_ok loaded done (by simp [changed, Outcome.isProblem])
  obtain ⟨_, results, index, -, computation, -, registered, each⟩ :=
    references_qualified .default _ after ["A"] report distinct ran success
  cases computation.symm.trans (bind_eq_ok_iff.mpr ⟨_, loaded, done⟩)
  obtain ⟨-, qualified⟩ := each [] processed [] rfl
  rw [List.map_singleton, final] at registered
  rw [registered, Except.toOption, Option.bind_some] at reported
  obtain ⟨found, reported, names⟩ := Option.map_eq_some_iff.mp reported
  have reported := toOption_eq_some_iff.mp reported
  obtain ⟨path, text⟩ : processed.file.path = "A" ∧ finalText processed = ownText' := Prod.mk.inj final
  rw [path, text] at qualified
  refine ⟨report, after, index, found, ran, success, registered, reported, ?_, fun relocated listed => ?_⟩
  · rw [← List.length_map, names]
    rfl
  · have name : relocated.reference.name ∈ ["Y"] := names ▸ List.mem_map_of_mem listed
    refine qualified (ownText_fitting file) found reported relocated listed (.inl ?_)
    rw [final, List.mem_singleton.mp name]
    exact named

/-! References that are left. -/

/-- A run over the files reports no problem, and a reference of that name to a relocated service
is left without the name of the service in front of it. -/
def LeavesReference (files : MemoryFiles) (paths : List String) (name : String) : Prop :=
  ∃ report after results index processed found,
    Run.files ⟨.default, standardRules⟩ files paths = .ok (report, after) ∧ report.isSuccess = true ∧
    computed ⟨.default, standardRules⟩ files paths = .ok results ∧
    registerAll .empty (results.map finalUnit) = .ok index ∧ processed ∈ results ∧
    RelocatedRef.findAll (.load index processed.file.path (finalText processed)) = .ok found ∧
    ∃ relocated ∈ found, relocated.reference.name = name ∧ ¬ Preceded (finalText processed) relocated

theorem mem_zip_tail (front back : List α) (first second : α) :
    (first, second) ∈ (front ++ first :: second :: back).zip (front ++ first :: second :: back).tail := by
  induction front with
  | nil => exact List.mem_cons_self ..
  | cons other front ih => cases front <;> exact List.mem_cons_of_mem _ ih

/-- Nowhere in the text does a point follow the name. -/
theorem not_preceded {relocated : RelocatedRef}
    (apart : (Token.scan text.toList).toOption.map (fun tokens => (tokens.zip tokens.tail).all fun (token, next) =>
      token.text = relocated.target.name → next.kind ≠ .dot) = some true) : ¬ Preceded text relocated := by
  rintro ⟨front, qualifier, dot, token, back, scanned, -, -, spelled, point⟩
  rw [scanned, Except.toOption, Option.map_some, Option.some.injEq] at apart
  exact of_decide_eq_true (List.all_eq_true.mp apart _ (mem_zip_tail front (token :: back) qualifier dot)) spelled point

/-- What is computed of a text that has one reference to a relocated service, with no point
behind a name of that service. -/
abbrev LoneLeft (text name : String) : Prop :=
  ((registerAll .empty [("A", text)]).toOption.bind fun index =>
    (RelocatedRef.findAll (.load index "A" text)).toOption.map fun found =>
      found.map fun relocated => (relocated.reference.name, relocated.target.name)) = some [(name, name)] ∧
  (Token.scan text.toList).toOption.map (fun tokens => (tokens.zip tokens.tail).all fun (token, next) =>
    token.text = name → next.kind ≠ .dot) = some true

/-- The one unit of a program is edited, and still has a reference that no point stands in
front of. -/
theorem lone_left {text' name : String} {names used : List String} {count : Nat}
    (shown : LoneEdited text text' names used count ∧ LoneLeft text' name) :
    LeavesReference (.ofList [("A", text)]) ["A"] name := by
  obtain ⟨edited, reported, apart⟩ := shown
  have loaded := lone_loaded edited
  obtain ⟨processed, done, changed, final⟩ := lone_processed edited
  obtain ⟨report, after, ran, success⟩ := files_ok loaded done (by simp [changed, Outcome.isProblem])
  obtain ⟨index, registered, found⟩ := Option.bind_eq_some_iff.mp reported
  obtain ⟨found, ran', only⟩ := Option.map_eq_some_iff.mp found
  obtain ⟨relocated, rest, rfl, same, -⟩ := List.map_eq_cons_iff.mp only
  obtain ⟨refers, means⟩ := Prod.mk.inj same
  obtain ⟨path, text⟩ : processed.file.path = "A" ∧ finalText processed = text' := Prod.mk.inj final
  rw [← means] at apart
  refine ⟨report, after, [processed], index, processed, relocated :: rest, ran, success,
    bind_eq_ok_iff.mpr ⟨_, loaded, done⟩, ?_, List.mem_cons_self .., ?_, relocated, List.mem_cons_self .., refers, ?_⟩
  · rw [List.map_singleton, final]
    exact toOption_eq_some_iff.mp registered
  · rw [path, text]
    exact toOption_eq_some_iff.mp ran'
  · rw [text]
    exact not_preceded apart

/-- A reference in back quotes right behind a word. -/
def fusedText : String := "trait A\nobject A\x7btrait A[F[_]]\x7d\nclass C extends\x60A\x60[I]"

/-- The name of the service becomes the end of the word. -/
theorem fusedText_left : LeavesReference (.ofList [("A", fusedText)]) ["A"] "A" := by
  exact @lone_left fusedText "trait A\nobject A\x7btrait A[F[_]]\x7d\nclass C extendsA.\x60A\x60[I]" "A"
    ["A", "A", "C"] ["A"] 1 (by decide +kernel)

/-- A reference in back quotes to a service called by a quotation mark, and a string that would
refer to another service if it were none. -/
def strayText : String := "trait \x60\"\x60\nobject \x60\"\x60\x7btrait \x60\"\x60[F[_]]\x7d\n" ++
  "class C(x:\x60\"\x60[I]=\"\x60,w:Y[I])//\")\ntrait Y\nobject Y\x7btrait Y[F[_]]\x7d"

/-- The name of the service closes the string before it begins: the unit gets a reference that
it did not have before, and that is not in quotes. -/
theorem strayText_left : LeavesReference (.ofList [("A", strayText)]) ["A"] "Y" :=
  @lone_left strayText ("trait \x60\"\x60\nobject \x60\"\x60\x7btrait \x60\"\x60[F[_]]\x7d\n" ++
      "class C(x:\".\x60\"\x60[I]=\"\x60,w:Y[I])//\")\ntrait Y\nobject Y\x7btrait Y[F[_]]\x7d") "Y"
    ["\"", "\"", "C", "Y", "Y"] ["\""] 1 (by decide +kernel)

/-! Two units that refer to each other. The unit of the class is processed first,
when the service it refers to is not yet known. -/

def classText : String := "class C(y:Y[F])"

def serviceText : String := "trait Y\nobject Y\x7btrait Y[F[_]]\x7bdef m:C[F]\x7d\x7d"

def crossedFiles : MemoryFiles := .ofList [("S", serviceText), ("C", classText)]

/-- What is computed from the two texts: their outlines, the order of the units, the units
that the run leaves, and what the name of the service means in the class when both are
registered. -/
theorem crossedFiles_computed :
    ((Outline.parse serviceText.toList).toOption.map (fun outline => (outline.package, outline.imports,
      outline.decls.filterMap Decl.name?, outline.typeRefs.map TypeRef.name)) = some (none, [], ["Y", "Y"], ["C"]) ∧
    (Outline.parse classText.toList).toOption.map (fun outline => (outline.package, outline.imports,
      outline.decls.filterMap Decl.name?, outline.typeRefs.map TypeRef.name)) = some (none, [], ["C"], ["Y"]) ∧
    (DependencyGraph.build [("S", ⟨none, [], ["Y"], sortedSet ["C"], none⟩),
      ("C", ⟨none, [], sortedSet ["C"], sortedSet ["Y"], none⟩)]).leafFirst.toOption = some [1, 0]) ∧
    (Run.processAll standardRules .empty [⟨"C", .ok classText⟩, ⟨"S", .ok serviceText⟩]).toOption.map
      (fun results => results.map fun processed => (processed.outcome, finalUnit processed)) =
      some [(.unchanged, "C", classText), (.unchanged, "S", serviceText)] ∧
    ((registerAll .empty [("C", classText), ("S", serviceText)]).toOption.bind fun index =>
      (SourceUnit.load index "C" classText).scope.toOption.map fun scope =>
        (scope.isLocal "Y", ((scope.candidates "Y").filter fun symbol => symbol.simpleName = "Y").map Symbol.parent,
          Relocated.isRelocated (((scope.candidates "Y").filter fun symbol => symbol.simpleName = "Y").filter
            fun symbol => symbol.parent = .root) "Y")) = some (false, [.root, .root], true) ∧
    (SourceUnit.load .empty "C" classText).outline.typeRefs = [⟨"Y", ⟨10, 11⟩, none⟩] ∧
    (Token.scan classText.toList).toOption.map (fun tokens => (tokens.zip tokens.tail).all fun (token, next) =>
      token.text = "Y" → next.kind ≠ .dot) = some true := by
  refine ⟨⟨?_, ?_, ?_⟩, ?_, ?_⟩ <;> decide +kernel

theorem crossedFiles_loaded : Run.loadAll ⟨.default, standardRules⟩ crossedFiles ["S", "C"] =
    .ok [⟨"C", .ok classText⟩, ⟨"S", .ok serviceText⟩] := by
  have read : ["S", "C"].mapM (SourceFile.load Settings.default.maxFileSize crossedFiles) =
      .ok [⟨"S", .ok serviceText⟩, ⟨"C", .ok classText⟩] := rfl
  obtain ⟨⟨ofService, ofClass, order⟩, _⟩ := crossedFiles_computed
  have service : Header.ofText serviceText = ⟨none, [], sortedSet ["Y", "Y"], sortedSet ["C"], none⟩ :=
    header_eq ofService
  have user : Header.ofText classText = ⟨none, [], sortedSet ["C"], sortedSet ["Y"], none⟩ := header_eq ofClass
  have names : sortedSet ["Y", "Y"] = ["Y"] := (sortedSet_of_sorted (by decide)).trans (by decide)
  have sorted : (DependencyGraph.build [("S", ⟨none, [], ["Y"], sortedSet ["C"], none⟩),
      ("C", ⟨none, [], sortedSet ["C"], sortedSet ["Y"], none⟩)]).leafFirst = .ok [1, 0] :=
    toOption_eq_some_iff.mp order
  refine bind_eq_ok_iff.mpr ⟨_, read, ?_⟩
  simp only [Run.leafFirst, List.map_cons, List.map_nil, SourceFile.header, service, user, names, sorted]
  rfl

theorem compareSegments_self (segments : List String) : DottedName.compareSegments segments segments = .eq := by
  induction segments with
  | nil => rfl
  | cons segment segments ih => simp [DottedName.compareSegments, ih]

/-- Two symbols of one name in one package that show a service. -/
theorem resolve_of_pair {unit : SourceUnit} {scope : Scope} {name : String} {package : DottedName}
    (inScope : unit.scope = .ok scope)
    (parents : ((scope.candidates name).filter fun symbol => symbol.simpleName = name).map Symbol.parent = [package, package])
    (shown : Relocated.isRelocated (((scope.candidates name).filter fun symbol => symbol.simpleName = name).filter
      fun symbol => symbol.parent = package) name = true) : Relocated.resolve unit name = .ok (some ⟨package, name⟩) := by
  have sorted : [package, package].mergeSort (fun a b => (compare a b).isLE) = [package, package] := by
    apply List.mergeSort_of_pairwise
    simp [compare, compareSegments_self]
  have once : [package, package].eraseReps = [package] := by
    simp [List.eraseReps, List.eraseRepsBy, List.eraseRepsBy.loop]
  rw [Relocated.resolve, SettledUnits.scopeOf_eq_ok_iff.mpr inScope]
  simp only [bind, Except.bind, parents, sorted, once, List.filter_cons, shown]
  rfl

theorem crossedFiles_processed : ∃ first second,
    Run.processAll standardRules .empty [⟨"C", .ok classText⟩, ⟨"S", .ok serviceText⟩] = .ok [first, second] ∧
      first.outcome = .unchanged ∧ finalUnit first = ("C", classText) ∧
      second.outcome = .unchanged ∧ finalUnit second = ("S", serviceText) := by
  obtain ⟨_, seen, _⟩ := crossedFiles_computed
  obtain ⟨results, done, seen⟩ := Option.map_eq_some_iff.mp seen
  obtain ⟨first, _, rfl, same, seen⟩ := List.map_eq_cons_iff.mp seen
  obtain ⟨second, _, rfl, same', seen⟩ := List.map_eq_cons_iff.mp seen
  cases List.map_eq_nil_iff.mp seen
  rw [Prod.mk.injEq] at same same'
  exact ⟨first, second, toOption_eq_some_iff.mp done, same.1, same.2, same'.1, same'.2⟩

/-- When both units are registered, the reference of the class means the service. -/
theorem classText_found : ∃ index, registerAll .empty [("C", classText), ("S", serviceText)] = .ok index ∧
    RelocatedRef.findAll (.load index "C" classText) = .ok [⟨0, ⟨"Y", ⟨10, 11⟩, none⟩, ⟨.root, "Y"⟩⟩] := by
  obtain ⟨_, _, known, read, _⟩ := crossedFiles_computed
  obtain ⟨index, registered, known⟩ := Option.bind_eq_some_iff.mp known
  obtain ⟨scope, inScope, known⟩ := Option.map_eq_some_iff.mp known
  simp only [Prod.mk.injEq] at known
  obtain ⟨foreign, parents, shown⟩ := known
  have inScope := toOption_eq_some_iff.mp inScope
  have resolved := resolve_of_pair inScope parents shown
  have uses : (SourceUnit.load index "C" classText).outline.typeRefs = [⟨"Y", ⟨10, 11⟩, none⟩] := by
    rw [outline_load, read]
  refine ⟨index, toOption_eq_some_iff.mp registered, ?_⟩
  rw [RelocatedRef.findAll, SettledUnits.scopeOf_eq_ok_iff.mpr inScope]
  simp [bind, Except.bind, pure, Except.pure, uses, Relocated.ofReference, foreign, resolved]

/-- The reference of the class is left as it is. -/
theorem crossedFiles_left : LeavesReference crossedFiles ["S", "C"] "Y" := by
  obtain ⟨first, second, done, unchanged, final, unchanged', final'⟩ := crossedFiles_processed
  obtain ⟨report, after, ran, success⟩ :=
    files_ok crossedFiles_loaded done (by simp [unchanged, unchanged', Outcome.isProblem])
  obtain ⟨index, registered, found⟩ := classText_found
  obtain ⟨_, _, _, _, apart⟩ := crossedFiles_computed
  have computation : computed ⟨.default, standardRules⟩ crossedFiles ["S", "C"] = .ok [first, second] :=
    bind_eq_ok_iff.mpr ⟨_, crossedFiles_loaded, done⟩
  obtain ⟨path, text⟩ : first.file.path = "C" ∧ finalText first = classText := Prod.mk.inj final
  rw [← path, ← text] at found
  rw [← text] at apart
  refine ⟨report, after, _, index, first, _, ran, success, computation, ?_, List.mem_cons_self .., found, _,
    List.mem_cons_self .., rfl, not_preceded apart⟩
  simpa [final, final'] using registered

/-- Runs that report no problem and leave a reference as it is: where the dependency on the
unit of the service was dropped for a cycle, where the name of the service does not stay apart
from what it is put behind, and where it is no word. -/
theorem references_left : LeavesReference crossedFiles ["S", "C"] "Y" ∧
    LeavesReference (.ofList [("A", fusedText)]) ["A"] "A" ∧ LeavesReference (.ofList [("A", strayText)]) ["A"] "Y" :=
  ⟨crossedFiles_left, fusedText_left, strayText_left⟩

end KindLift.MigrationCompleteness
