import KindLift.Proofs.ProcessingOrder
import KindLift.Proofs.Traversal
import KindLift.Run

/-! What a run does, step by step. It reads, computes and only then writes: the
storage after a run is a function of what was computed, and what was computed
does not depend on whether it is written. Writing stops at the first text that the
storage refuses. -/
namespace KindLift.RunSession
open Traversal

variable {run : Run} {rules : List Rule} {index next : Index} {file : SourceFile} {files : List SourceFile}
  {processed : Run.Processed} {results : List Run.Processed}

/-- Everything a run computes from the storage. -/
def computed [Storage σ] (run : Run) (storage : σ) (paths : List String) :
    Except RunError (List Run.Processed) := do
  Run.processAll run.rules .empty (← run.loadAll storage paths)

/-- The texts to be written back. -/
def pending (results : List Run.Processed) : List (String × String) :=
  results.filterMap Run.Processed.pending?

/-- What writing texts back in order ends in: why it stops, if a text is refused, and the
storage with the texts in front of that. -/
def writeBack [Storage σ] (storage : σ) : List (String × String) → Option RunError × σ
  | [] => (none, storage)
  | file :: rest =>
    match Storage.write storage file.1 file.2 with
    | .error fault => (some (.unwritable file.1 fault), storage)
    | .ok after => writeBack after rest

/-- What is left of a computation: the report or why it cannot be written, and the storage. -/
def conclude [Storage σ] (dryRun : Bool) (storage : σ) (results : List Run.Processed) : Except RunError Report × σ :=
  if dryRun then (.ok ⟨results.map Run.Processed.report, true, 0⟩, storage)
  else match writeBack storage (pending results) with
    | (none, after) => (.ok ⟨results.map Run.Processed.report, false, (pending results).length⟩, after)
    | (some error, after) => (.error error, after)

theorem run_bind_ok {first : Run.Session σ α} {second : α → Run.Session σ β}
    (ran : first.run.run storage = (.ok value, after)) :
    (first >>= second).run.run storage = (second value).run.run after := by
  rw [ExceptT.run_bind, StateT.run_bind, ran]
  rfl

theorem run_bind_error {first : Run.Session σ α} {second : α → Run.Session σ β}
    (ran : first.run.run storage = (.error error, after)) :
    (first >>= second).run.run storage = (.error error, after) := by
  rw [ExceptT.run_bind, StateT.run_bind, ran]
  rfl

theorem run_lift (outcome : Except RunError α) (storage : σ) :
    (liftM outcome : Run.Session σ α).run.run storage = (outcome, storage) := rfl

theorem get_run (storage : σ) : (get : Run.Session σ σ).run.run storage = (.ok storage, storage) := rfl

theorem persist_run [Storage σ] (texts : List (String × String)) (storage : σ) :
    (Run.persist texts).run.run storage =
      match writeBack storage texts with
      | (none, after) => (.ok texts.length, after)
      | (some error, after) => (.error error, after) := by
  induction texts generalizing storage with
  | nil => rfl
  | cons file rest ih =>
    rw [Run.persist, run_bind_ok (get_run storage), writeBack]
    cases Storage.write storage file.1 file.2 with
    | error fault => rfl
    | ok next =>
      have written : (set next : Run.Session σ PUnit).run.run storage = (.ok ⟨⟩, next) := rfl
      dsimp only
      rw [run_bind_ok written]
      have later := ih next
      rcases ended : writeBack next rest with ⟨_ | error, after⟩
      · rw [ended] at later
        rw [run_bind_ok later]
        rfl
      · rw [ended] at later
        rw [run_bind_error later]

/-- A run computes first, and then writes unless it is a dry run. -/
theorem session_run [Storage σ] (run : Run) (paths : List String) (storage : σ) :
    (run.session paths).run.run storage =
      match computed run storage paths with
      | .error error => (.error error, storage)
      | .ok results => conclude run.settings.dryRun storage results := by
  rw [Run.session, run_bind_ok (get_run storage)]
  cases computation : computed run storage paths with
  | error error =>
    rcases bind_eq_error_iff.mp computation with unloaded | ⟨files, loaded, stopped⟩
    · rw [unloaded, run_bind_error (run_lift _ storage)]
    · rw [loaded, run_bind_ok (run_lift _ storage), stopped, run_bind_error (run_lift _ storage)]
  | ok results =>
    obtain ⟨files, loaded, done⟩ := bind_eq_ok_iff.mp computation
    rw [loaded, run_bind_ok (run_lift _ storage), done, run_bind_ok (run_lift _ storage)]
    dsimp only
    unfold conclude
    split
    · rfl
    · have written := persist_run (pending results) storage
      rcases ended : writeBack storage (pending results) with ⟨_ | error, after⟩
      · rw [ended] at written
        exact run_bind_ok written
      · rw [ended] at written
        exact run_bind_error written

theorem conclude_ok [Storage σ] {dryRun : Bool} {storage after : σ} {report : Report}
    (concluded : conclude dryRun storage results = (.ok report, after)) :
    report.units = results.map Run.Processed.report := by
  unfold conclude at concluded
  repeat' split at concluded
  all_goals cases concluded
  all_goals rfl

/-- Only a text that cannot be written stands in the way of a report. -/
theorem conclude_error [Storage σ] {dryRun : Bool} {storage after : σ} {error : RunError}
    (concluded : conclude dryRun storage results = (.error error, after)) :
    dryRun = false ∧ writeBack storage (pending results) = (some error, after) := by
  unfold conclude at concluded
  split at concluded
  · cases concluded
  · rename_i wet
    split at concluded
    · cases concluded
    · rename_i ended
      cases concluded
      exact ⟨Bool.eq_false_iff.mpr wet, ended⟩

/-- Writing stops at a text that the storage refuses, when all in front of it are written. -/
theorem writeBack_stops [Storage σ] {storage after : σ} {texts : List (String × String)} {error : RunError}
    (stops : writeBack storage texts = (some error, after)) :
    ∃ front file back fault, texts = front ++ file :: back ∧ writeBack storage front = (none, after) ∧
      Storage.write after file.1 file.2 = .error fault ∧ error = .unwritable file.1 fault := by
  induction texts generalizing storage with
  | nil => cases stops
  | cons file rest ih =>
    rw [writeBack] at stops
    cases written : Storage.write storage file.1 file.2 with
    | error fault =>
      rw [written] at stops
      cases stops
      exact ⟨[], file, rest, fault, rfl, rfl, written, rfl⟩
    | ok next =>
      rw [written] at stops
      obtain ⟨front, other, back, fault, rfl, before, refused, same⟩ := ih stops
      refine ⟨file :: front, other, back, fault, rfl, ?_, refused, same⟩
      rw [writeBack, written]
      exact before

/-- The result of a run with the storage it leaves. -/
theorem files_eq [Storage σ] (run : Run) (storage : σ) (paths : List String) :
    run.files storage paths = (computed run storage paths).bind fun results =>
      match conclude run.settings.dryRun storage results with
      | (.ok report, after) => .ok (report, after)
      | (.error error, _) => .error error := by
  rw [Run.files, session_run]
  cases computed run storage paths with
  | error error => rfl
  | ok results => rfl

theorem files_eq_ok [Storage σ] {storage after : σ} {paths : List String} {report : Report}
    (ran : run.files storage paths = .ok (report, after)) :
    ∃ results, computed run storage paths = .ok results ∧
      conclude run.settings.dryRun storage results = (.ok report, after) := by
  rw [files_eq] at ran
  obtain ⟨results, computation, concluded⟩ := bind_eq_ok_iff.mp ran
  refine ⟨results, computation, ?_⟩
  split at concluded
  · rename_i ended
    cases concluded
    exact ended
  · cases concluded

/-- A run that ends in an error has computed nothing, or it has come to a text that cannot be
written. -/
theorem files_eq_error [Storage σ] {storage : σ} {paths : List String} {error : RunError}
    (ran : run.files storage paths = .error error) :
    computed run storage paths = .error error ∨ ∃ path fault, error = .unwritable path fault := by
  rw [files_eq] at ran
  refine (bind_eq_error_iff.mp ran).imp_right ?_
  rintro ⟨results, -, concluded⟩
  split at concluded
  · cases concluded
  · rename_i ended
    cases concluded
    obtain ⟨-, file, -, fault, -, -, -, same⟩ := writeBack_stops (conclude_error ended).2
    exact ⟨file.1, fault, same⟩

/-- The rules, run over a text against the index, leave the progress. -/
def Rewrites (rules : List Rule) (index : Index) (unit : UnitId) (text : String)
    (progress : Run.Progress) : Prop :=
  rules.foldlM (Run.applyRule index) ⟨.load index unit text, [], 0⟩ = .ok progress

/-- A file has a new text exactly when it is reported as changed, and then the
rules have left that text in place of another one. -/
structure Settled (rules : List Rule) (processed : Run.Processed) : Prop where
  changed : processed.outcome.isChanged = processed.newText.isSome
  rewritten : ∀ text ∈ processed.newText, ∃ old index progress,
    processed.file.text = .ok old ∧ Rewrites rules index processed.file.path old progress ∧
      processed.outcome = .changed progress.applied progress.edits ∧
      progress.unit.text = text ∧ text ≠ old

theorem settled_of_none {outcome : Outcome} (kept : outcome.isChanged = false) :
    Settled rules ⟨file, outcome, none⟩ :=
  ⟨kept, by simp⟩

theorem refusal_kept (error : RuleError) : (Run.refusal error).isChanged = false := by
  unfold Run.refusal
  split <;> rfl

/-- What can become of a file that does not end the run, and the index after it. -/
inductive Processing (rules : List Rule) (index : Index) (file : SourceFile) : Run.Processed → Index → Prop where
  | unread (unread : file.text = .error problem) : Processing rules index file ⟨file, .skipped problem, none⟩ index
  | refused (read : file.text = .ok text)
      (stopped : rules.foldlM (Run.applyRule index) ⟨.load index file.path text, [], 0⟩ = .error error) :
      Processing rules index file ⟨file, Run.refusal error, none⟩
        (Run.registerIfNew index (.load index file.path text))
  | givenUp (read : file.text = .ok text) (rewritten : Rewrites rules index file.path text progress)
      (clash : progress.unit.register index = .error duplicate) :
      Processing rules index file ⟨file, .failed (.duplicate duplicate), none⟩ index
  | unchanged {next : Index} (read : file.text = .ok text) (rewritten : Rewrites rules index file.path text progress)
      (registered : progress.unit.register index = .ok next) (same : progress.unit.text = text) :
      Processing rules index file ⟨file, .unchanged, none⟩ next
  | changed {next : Index} (read : file.text = .ok text) (rewritten : Rewrites rules index file.path text progress)
      (registered : progress.unit.register index = .ok next) (different : progress.unit.text ≠ text) :
      Processing rules index file ⟨file, .changed progress.applied progress.edits, some progress.unit.text⟩ next

theorem process_cases (ran : Run.process rules index file = .ok (processed, next)) :
    Processing rules index file processed next := by
  unfold Run.process at ran
  split at ran
  · rename_i unread
    cases ran
    exact .unread unread
  · rename_i text read
    unfold Run.processText at ran
    dsimp only at ran
    split at ran
    · rename_i stopped
      split at ran
      · cases ran
      · cases ran
        exact .refused read stopped
    · rename_i rewritten
      split at ran
      · rename_i clash
        cases ran
        exact .givenUp read rewritten clash
      · rename_i registered
        split at ran
        · rename_i same
          cases ran
          exact .unchanged read rewritten registered same
        · rename_i different
          cases ran
          exact .changed read rewritten registered different

theorem process_settled (ran : Run.process rules index file = .ok (processed, next)) :
    processed.file = file ∧ Settled rules processed := by
  cases process_cases ran with
  | unread => exact ⟨rfl, settled_of_none rfl⟩
  | refused => exact ⟨rfl, settled_of_none (refusal_kept _)⟩
  | givenUp => exact ⟨rfl, settled_of_none rfl⟩
  | unchanged => exact ⟨rfl, settled_of_none rfl⟩
  | changed read rewritten _ different =>
    refine ⟨rfl, rfl, ?_⟩
    rintro _ ⟨⟩
    exact ⟨_, index, _, read, rewritten, rfl, rfl, different⟩

theorem processAll_cons_iff : Run.processAll rules index (file :: files) = .ok results ↔
    ∃ processed next others, Run.process rules index file = .ok (processed, next) ∧
      Run.processAll rules next files = .ok others ∧ results = processed :: others := by
  rw [Run.processAll, bind_eq_ok_iff]
  constructor
  · rintro ⟨⟨processed, next⟩, first, later⟩
    obtain ⟨others, rest, same⟩ := bind_eq_ok_iff.mp later
    cases same
    exact ⟨processed, next, others, first, rest, rfl⟩
  · rintro ⟨processed, next, others, first, rest, rfl⟩
    exact ⟨_, first, bind_eq_ok_iff.mpr ⟨others, rest, rfl⟩⟩

/-- The files are processed in their order, and each of them is settled. -/
theorem processAll_settled (ran : Run.processAll rules index files = .ok results) :
    results.map Run.Processed.file = files ∧ ∀ processed ∈ results, Settled rules processed := by
  induction files generalizing index results with
  | nil =>
    cases ran
    exact ⟨rfl, by simp⟩
  | cons file files ih =>
    obtain ⟨processed, next, others, first, later, rfl⟩ := processAll_cons_iff.mp ran
    obtain ⟨here, settled⟩ := process_settled first
    obtain ⟨there, all⟩ := ih later
    exact ⟨by rw [List.map_cons, here, there], List.forall_mem_cons.mpr ⟨settled, all⟩⟩

theorem load_eq_ok [Storage σ] {storage : σ} (read : SourceFile.load limit storage path = .ok file) :
    file.path = path ∧ ∀ text, file.text = .ok text → Storage.read storage path = .ok text := by
  unfold SourceFile.load at read
  split at read
  · cases read
  · rename_i text found
    split at read
    · cases read
      exact ⟨rfl, by simp⟩
    · cases read
      refine ⟨rfl, ?_⟩
      rintro _ ⟨⟩
      exact found

theorem loaded_paths [Storage σ] {storage : σ} {paths : List String} {limit : Nat}
    (read : paths.mapM (SourceFile.load limit storage) = .ok files) : files.map SourceFile.path = paths := by
  have each := mapM_eq_ok_iff.mp read
  clear read
  induction each with
  | nil => rfl
  | cons first _ ih => rw [List.map_cons, (load_eq_ok first).1, ih]

theorem filterMap_range (items : List α) : (List.range items.length).filterMap (items[·]?) = items := by
  induction items with
  | nil => rfl
  | cons item rest ih =>
    rw [List.length_cons, List.range_succ_eq_map, List.filterMap_cons, List.filterMap_map]
    simpa using ih

/-- The files of a run: what the storage has under the given paths, in an order
that holds each of them once. -/
theorem loadAll_eq_ok [Storage σ] {storage : σ} {paths : List String}
    (loaded : run.loadAll storage paths = .ok files) :
    ∃ read order, paths.mapM (SourceFile.load run.settings.maxFileSize storage) = .ok read ∧
      (DependencyGraph.build (read.map fun file => (file.path, file.header))).leafFirst = .ok order ∧
      order.Perm (List.range paths.length) ∧ files = order.filterMap (read[·]?) ∧ files.Perm read := by
  obtain ⟨read, fetched, ordered⟩ := bind_eq_ok_iff.mp loaded
  unfold Run.leafFirst at ordered
  split at ordered
  · rename_i order sorted
    cases ordered
    have perm := ProcessingOrder.leafFirst_perm sorted
    rw [List.length_map] at perm
    have length : paths.length = read.length := (mapM_eq_ok_iff.mp fetched).length_eq
    refine ⟨read, order, fetched, sorted, length ▸ perm, rfl, ?_⟩
    exact (perm.filterMap _).trans (.of_eq (filterMap_range read))
  · cases ordered

theorem loaded_distinct [Storage σ] {storage : σ} {paths : List String} (loaded : run.loadAll storage paths = .ok files)
    (distinct : paths.Nodup) : (files.map SourceFile.path).Nodup := by
  obtain ⟨read, order, fetched, -, -, -, perm⟩ := loadAll_eq_ok loaded
  rw [(perm.map SourceFile.path).nodup_iff, loaded_paths fetched]
  exact distinct

end KindLift.RunSession
