import KindLift.Proofs.RunSession

/-! A run over files in memory takes place as a whole or not at all. A run that
fails, or that is dry, leaves the files alone; any other run writes every changed
file once and nothing else. -/
namespace KindLift.RunAtomicity
open Traversal RunSession

variable {run : Run} {storage after : MemoryFiles} {paths : List String} {report : Report}

/-- The same run without writing. -/
def rehearsal (run : Run) : Run := { run with settings := { run.settings with dryRun := true } }

/-- The units of a report, as a dry run reports them. -/
def rehearsed (report : Report) : Report := ⟨report.units, true, 0⟩

/-- The report lists the files in the order of processing, each of them once. -/
def ListsInOrder (run : Run) (storage : MemoryFiles) (paths : List String) (report : Report) : Prop :=
  ∃ files order, paths.mapM (SourceFile.load run.settings.maxFileSize storage) = .ok files ∧
    (DependencyGraph.build (files.map fun file => (file.path, file.header))).leafFirst = .ok order ∧
    report.units.map UnitReport.unit = order.filterMap (paths[·]?) ∧
    (report.units.map UnitReport.unit).Perm paths

/-- The unit is in the storage with the text that the rules have left of it. -/
def HoldsRewritten (rules : List Rule) (storage after : MemoryFiles) (unit : UnitReport) : Prop :=
  ∃ old index progress, storage.get? unit.unit = some old ∧ Rewrites rules index unit.unit old progress ∧
    unit.outcome = .changed progress.applied progress.edits ∧ progress.unit.text ≠ old ∧
    after.get? unit.unit = some progress.unit.text ∧
    unit.diff = some (Diff.unified unit.unit old progress.unit.text)

/-- What a run that writes leaves behind. -/
structure Writes (run : Run) (storage : MemoryFiles) (report : Report) (after : MemoryFiles) : Prop where
  changed : ∀ unit ∈ report.changed, HoldsRewritten run.rules storage after unit
  others : ∀ path, (∀ unit ∈ report.changed, Path.components unit.unit ≠ Path.components path) →
    after.get? path = storage.get? path
  count : after.writes = storage.writes + report.written
  written : report.written = report.changed.length

/-- The files with one of them replaced. -/
def replaced (storage : MemoryFiles) (path text : String) : MemoryFiles :=
  ⟨storage.files.insert (Path.components path) text, storage.writes + 1⟩

/-- The files with the texts written back in order. -/
def rewritten (storage : MemoryFiles) (texts : List (String × String)) : MemoryFiles :=
  texts.foldl (fun storage file => replaced storage file.1 file.2) storage

/-- Files in memory take every text. -/
theorem writeBack_memory (storage : MemoryFiles) (texts : List (String × String)) :
    writeBack storage texts = (none, rewritten storage texts) := by
  induction texts generalizing storage with
  | nil => rfl
  | cons file rest ih => exact ih _

theorem rewritten_writes (texts : List (String × String)) (storage : MemoryFiles) :
    (rewritten storage texts).writes = storage.writes + texts.length := by
  induction texts generalizing storage with
  | nil => rfl
  | cons file rest ih =>
    rw [rewritten, List.foldl_cons]
    refine (ih _).trans ?_
    rw [List.length_cons]
    show storage.writes + 1 + rest.length = _
    omega

theorem replaced_get? (storage : MemoryFiles) (path text probe : String) :
    (replaced storage path text).get? probe =
      if Path.components path = Path.components probe then some text else storage.get? probe :=
  Table.get?_insert ..

theorem rewritten_others {texts : List (String × String)}
    (apart : ∀ file ∈ texts, Path.components file.1 ≠ Path.components path) (storage : MemoryFiles) :
    (rewritten storage texts).get? path = storage.get? path := by
  induction texts generalizing storage with
  | nil => rfl
  | cons file rest ih =>
    obtain ⟨first, others⟩ := List.forall_mem_cons.mp apart
    rw [rewritten, List.foldl_cons]
    refine (ih others _).trans ?_
    rw [replaced_get?, if_neg first]

theorem rewritten_written {texts : List (String × String)}
    (distinct : (texts.map fun file => Path.components file.1).Nodup) (listed : (path, text) ∈ texts)
    (storage : MemoryFiles) : (rewritten storage texts).get? path = some text := by
  induction texts generalizing storage with
  | nil => cases listed
  | cons file rest ih =>
    rw [List.map_cons, List.nodup_cons] at distinct
    rw [rewritten, List.foldl_cons]
    rcases List.mem_cons.mp listed with rfl | later
    · refine (rewritten_others ?_ _).trans ?_
      · intro other member same
        exact distinct.1 (List.mem_map.mpr ⟨other, member, same⟩)
      · rw [replaced_get?, if_pos rfl]
    · exact ih distinct.2 later _

theorem pending_length {results : List Run.Processed}
    (settled : ∀ processed ∈ results, Settled rules processed) :
    (pending results).length =
      ((results.map Run.Processed.report).filter fun unit => unit.outcome.isChanged).length := by
  induction results with
  | nil => rfl
  | cons processed results ih =>
    obtain ⟨first, others⟩ := List.forall_mem_cons.mp settled
    have same : (Run.Processed.report processed).outcome.isChanged = processed.newText.isSome := first.changed
    have rest := ih others
    rw [pending] at rest
    rw [pending, List.filterMap_cons, List.map_cons, List.filter_cons, same]
    cases shape : processed.newText with
    | none => simpa [Run.Processed.pending?, shape] using rest
    | some text => simpa [Run.Processed.pending?, shape] using rest

theorem mem_pending {results : List Run.Processed} :
    (path, text) ∈ pending results ↔
      ∃ processed ∈ results, processed.newText = some text ∧ processed.file.path = path := by
  rw [pending, List.mem_filterMap]
  refine exists_congr fun processed => and_congr_right fun _ => ?_
  unfold Run.Processed.pending?
  rw [Option.map_eq_some_iff]
  constructor
  · rintro ⟨found, same, pair⟩
    cases pair
    exact ⟨same, rfl⟩
  · rintro ⟨same, rfl⟩
    exact ⟨text, same, rfl⟩

theorem pending_paths (results : List Run.Processed) :
    ((pending results).map Prod.fst).Sublist (results.map fun processed => processed.file.path) := by
  induction results with
  | nil => exact .slnil
  | cons processed results ih =>
    rw [pending, List.filterMap_cons]
    cases shape : processed.newText with
    | none =>
      simp only [Run.Processed.pending?, shape, Option.map_none]
      exact ih.cons _
    | some text =>
      simp only [Run.Processed.pending?, shape, Option.map_some]
      exact ih.cons_cons _

theorem loaded_texts {files : List SourceFile}
    (read : paths.mapM (SourceFile.load limit storage) = .ok files) (listed : file ∈ files)
    (text : file.text = .ok old) : storage.get? file.path = some old := by
  obtain ⟨position, bound, rfl⟩ := List.mem_iff_getElem.mp listed
  have each := List.forall₂_iff_get.mp (mapM_eq_ok_iff.mp read)
  obtain ⟨named, texts⟩ := load_eq_ok (each.2 position (by rw [each.1]; exact bound) bound)
  have found := texts old text
  rw [← named] at found
  simp only [Storage.read] at found
  split at found
  · cases found
    assumption
  · cases found

/-- What a run computes from files in memory. -/
structure Computation (run : Run) (storage : MemoryFiles) (paths : List String)
    (results : List Run.Processed) : Prop where
  lists : ∀ dryRun written, ListsInOrder run storage paths
    ⟨results.map Run.Processed.report, dryRun, written⟩
  paths : (results.map fun processed => processed.file.path).Perm paths
  settled : ∀ processed ∈ results, Settled run.rules processed
  texts : ∀ processed ∈ results, ∀ old, processed.file.text = .ok old →
    storage.get? processed.file.path = some old

theorem computed_computation (computation : computed run storage paths = .ok results) :
    Computation run storage paths results := by
  obtain ⟨files, loaded, done⟩ := bind_eq_ok_iff.mp computation
  obtain ⟨named, settled⟩ := processAll_settled done
  obtain ⟨read, order, fetched, sorted, -, ordered, perm⟩ := loadAll_eq_ok loaded
  have units : (results.map Run.Processed.report).map UnitReport.unit = files.map SourceFile.path := by
    rw [← named, List.map_map, List.map_map]
    rfl
  have paths' := loaded_paths fetched
  have once : (files.map SourceFile.path).Perm paths := by
    rw [← paths']
    exact perm.map _
  have inOrder : files.map SourceFile.path = order.filterMap (paths[·]?) := by
    rw [ordered, List.map_filterMap, ← paths']
    simp only [List.getElem?_map]
  refine ⟨fun _ _ => ⟨read, order, fetched, sorted, units.trans inOrder, ?_⟩, ?_, settled, ?_⟩
  · rw [units]
    exact once
  · rw [show (fun processed : Run.Processed => processed.file.path) = SourceFile.path ∘ Run.Processed.file
      from rfl, ← List.map_map, named]
    exact once
  · intro processed member old text
    have listed : processed.file ∈ files := by
      rw [← named]
      exact List.mem_map_of_mem member
    exact loaded_texts fetched (perm.subset listed) text

/-- Every changed file is written once, and nothing else is. -/
theorem writes_of_computation (distinct : (paths.map Path.components).Nodup)
    (computation : Computation run storage paths results) (dryRun : Bool) :
    Writes run storage ⟨results.map Run.Processed.report, dryRun, (pending results).length⟩
      (rewritten storage (pending results)) := by
  have once : ((pending results).map fun file => Path.components file.1).Nodup := by
    have all := (computation.paths.map Path.components).nodup_iff.mpr distinct
    have some := all.sublist ((pending_paths results).map Path.components)
    rwa [List.map_map] at some
  constructor
  · intro unit member
    obtain ⟨listed, changed⟩ := List.mem_filter.mp member
    obtain ⟨processed, found, rfl⟩ := List.mem_map.mp listed
    have settled := computation.settled processed found
    obtain ⟨text, new⟩ := Option.isSome_iff_exists.mp (settled.changed.symm.trans changed)
    obtain ⟨old, index, progress, read, rewritten, outcome, rfl, different⟩ := settled.rewritten text new
    refine ⟨old, index, progress, computation.texts processed found old read, rewritten, outcome,
      different, ?_, ?_⟩
    · exact rewritten_written once (mem_pending.mpr ⟨processed, found, new, rfl⟩) storage
    · simp only [Run.Processed.report, new, read]
  · intro path apart
    apply rewritten_others
    rintro ⟨written, text⟩ member
    obtain ⟨processed, found, new, rfl⟩ := mem_pending.mp member
    apply apart (Run.Processed.report processed)
    refine List.mem_filter.mpr ⟨List.mem_map_of_mem found, ?_⟩
    exact (computation.settled processed found).changed.trans (by rw [new]; rfl)
  · exact rewritten_writes (pending results) storage
  · exact pending_length computation.settled

/-- A run over files in memory computes first, and then writes unless it is a dry run. -/
theorem session_memory (run : Run) (storage : MemoryFiles) (paths : List String) :
    (run.session paths).run.run storage =
      match computed run storage paths with
      | .error error => (.error error, storage)
      | .ok results =>
        if run.settings.dryRun then (.ok ⟨results.map Run.Processed.report, true, 0⟩, storage)
        else (.ok ⟨results.map Run.Processed.report, false, (pending results).length⟩,
          rewritten storage (pending results)) := by
  rw [session_run]
  cases computed run storage paths with
  | error error => rfl
  | ok results =>
    dsimp only
    rw [conclude, writeBack_memory]

/-- A run takes place as a whole or not at all. -/
structure Atomic (run : Run) (storage : MemoryFiles) (paths : List String) : Prop where
  /-- A run that fails leaves no trace. -/
  failed : ∀ error after, (run.session paths).run.run storage = (.error error, after) → after = storage
  /-- A dry run leaves no trace. -/
  dry : run.settings.dryRun = true → ((run.session paths).run.run storage).2 = storage
  lists : ∀ report after, (run.session paths).run.run storage = (.ok report, after) →
    ListsInOrder run storage paths report
  writes : ∀ report after, (run.session paths).run.run storage = (.ok report, after) →
    run.settings.dryRun = false → Writes run storage report after
  /-- A dry run fails as the run fails, and reports the same of every unit. -/
  rehearsed : ((rehearsal run).session paths).run.run storage =
    (((run.session paths).run.run storage).1.map rehearsed, storage)

theorem session_atomic (run : Run) (storage : MemoryFiles) (paths : List String)
    (distinct : (paths.map Path.components).Nodup) : Atomic run storage paths := by
  have same : computed (rehearsal run) storage paths = computed run storage paths := rfl
  have dryRun : (rehearsal run).settings.dryRun = true := rfl
  constructor
  · intro error after ran
    rw [session_memory] at ran
    split at ran
    · cases ran
      rfl
    · split at ran <;> cases ran
  · intro dry
    rw [session_memory]
    split
    · rfl
    · rw [if_pos dry]
  · intro report after ran
    rw [session_memory] at ran
    split at ran
    · cases ran
    · rename_i results computation
      have lists := (computed_computation computation).lists
      split at ran <;> (cases ran; exact lists _ _)
  · intro report after ran wet
    rw [session_memory] at ran
    split at ran
    · cases ran
    · rename_i results computation
      rw [wet, if_neg Bool.false_ne_true] at ran
      cases ran
      exact writes_of_computation distinct (computed_computation computation) false
  · rw [session_memory, session_memory, same]
    cases computed run storage paths with
    | error error => rfl
    | ok results =>
      rw [dryRun]
      cases run.settings.dryRun <;> rfl

/-- A rule that adds a comment behind the seventh byte of every unit. -/
def markRule : Rule := Rule.constant "mark" [.insertion 7 " // seen"]

/-- The second file is too short for the rule. The first one has been rewritten by
then, but it is not written. -/
theorem late_failure_atomic :
    (["A", "B"].map Path.components).Nodup ∧
    ∃ error, (Run.session ⟨.default, [markRule]⟩ ["A", "B"]).run.run
      (MemoryFiles.ofList [("A", "trait A"), ("B", "")]) =
        (.error error, MemoryFiles.ofList [("A", "trait A"), ("B", "")]) := by
  have distinct : (["A", "B"].map Path.components).Nodup := by decide +kernel
  have atomic := session_atomic ⟨.default, [markRule]⟩
    (MemoryFiles.ofList [("A", "trait A"), ("B", "")]) ["A", "B"] distinct
  have fails : ((Run.session ⟨.default, [markRule]⟩ ["A", "B"]).run.run
      (MemoryFiles.ofList [("A", "trait A"), ("B", "")])).1.toOption.isNone = true := by
    decide +kernel
  refine ⟨distinct, ?_⟩
  rcases ran : (Run.session ⟨.default, [markRule]⟩ ["A", "B"]).run.run
      (MemoryFiles.ofList [("A", "trait A"), ("B", "")]) with ⟨error | report, after⟩
  · rw [atomic.failed error after ran]
    exact ⟨error, rfl⟩
  · rw [ran] at fails
    cases fails

end KindLift.RunAtomicity
