import KindLift.CommandLine
import KindLift.Proofs.MigrationCompleteness

/-! What the commands that apply rules leave: an exit code and the files. Both are
read off from what the run computes, and that is the same whether anything is
written or not. A check and a run with the flag for it leave the files alone. The
flag decides alone: where it is not given the run writes, also when the
configuration file asks for a dry run. It stops at the first file that cannot be
written, and fails. -/
namespace KindLift.CommandContract
open Traversal RunSession MigrationCompleteness

variable {command : Command} {tree : FileTree} {run : Run} {settings : Settings} {error : RunError}
  {results : List Run.Processed}

/-- The configuration file in effect: the named one, or else the usual one if it
exists. -/
def configFile? (command : Command) (tree : FileTree) : Option String :=
  match command.arguments.config, tree.resolve Settings.fileName with
  | some path, _ => some path
  | none, .ok _ => some Settings.fileName
  | none, .error _ => none

/-- The configuration file in effect is a text that gives no settings. -/
def Malformed (command : Command) (tree : FileTree) : Prop :=
  ∃ path text, configFile? command tree = some path ∧ tree.read path = .ok text ∧ Settings.parse? text = none

/-- A rule is asked for, by the file or on the command line, that does not exist. -/
def AsksUnknown (command : Command) (tree : FileTree) : Prop :=
  ∃ settings name, command.settings tree = .ok settings ∧ name ∈ settings.rules ∧
    name ∉ [AddInstances.ruleName, AdaptReferences.ruleName]

def Misconfigured (command : Command) (tree : FileTree) : Prop :=
  Malformed command tree ∨ AsksUnknown command tree

/-- What the command computes from the files: what becomes of each source file. -/
def planned (command : Command) (tree : FileTree) : Except RunError (List Run.Processed) := do
  let settings ← command.settings tree
  let run ← Run.prepare settings (.standard settings.conventions)
  computed run tree (← run.discover tree command.roots)

/-- What the report of a run over the tree ends in. -/
def ended (command : Command) (tree : FileTree) (dryRun : Bool) : Except RunError Report × FileTree :=
  match planned command tree with
  | .error error => (.error error, tree)
  | .ok results => conclude dryRun tree results

/-- Whether the settings ask for a dry run makes no difference to what is computed. -/
theorem reportOf_run (command : Command) (tree : FileTree) (dryRun : Bool) :
    (Answer.reportOf command dryRun).run.run tree = ended command tree dryRun := by
  rw [Answer.reportOf, run_bind_ok (get_run tree), ended, planned]
  cases effective : command.settings tree with
  | error error => exact run_bind_error (run_lift _ tree)
  | ok settings =>
    rw [run_bind_ok (run_lift _ tree)]
    cases selected : (Registry.standard settings.conventions).select settings.rules with
    | error error =>
      have prepared : ∀ settings', settings'.rules = settings.rules →
          Run.prepare settings' (.standard settings.conventions) = .error (.unknownRule error) := by
        intro settings' rules
        rw [Run.prepare, rules, selected]
      simp only [bind, Except.bind, prepared settings rfl]
      have refused := prepared (settings.withDryRun dryRun) rfl
      exact run_bind_error (congrArg (·, tree) refused)
    | ok rules =>
      have prepared : ∀ settings', settings'.rules = settings.rules →
          Run.prepare settings' (.standard settings.conventions) = .ok ⟨settings', rules⟩ := by
        intro settings' same
        rw [Run.prepare, same, selected]
      simp only [bind, Except.bind, prepared settings rfl]
      have ready := prepared (settings.withDryRun dryRun) rfl
      refine (run_bind_ok (congrArg (·, tree) ready)).trans ?_
      rw [Run.treeSession, run_bind_ok (get_run tree), Run.discover, Run.discover]
      cases found : tree.discover settings.extensions command.roots with
      | error error =>
        have lost : tree.discover (settings.withDryRun dryRun).extensions command.roots = .error error := found
        simp only [lost]
        exact run_bind_error (run_lift _ tree)
      | ok paths =>
        have same : tree.discover (settings.withDryRun dryRun).extensions command.roots = .ok paths := found
        simp only [same]
        rw [run_bind_ok (run_lift _ tree), session_run]
        rfl

/-! ### Errors -/

theorem loadAll_error {paths : List String} (failed : run.loadAll tree paths = .error error) :
    error.exitCode = 1 := by
  rcases bind_eq_error_iff.mp failed with unread | ⟨files, -, unordered⟩
  · obtain ⟨path, -, unreadable⟩ := mapM_eq_error unread
    unfold SourceFile.load at unreadable
    split at unreadable
    · cases unreadable
      rfl
    · split at unreadable <;> cases unreadable
  · unfold Run.leafFirst at unordered
    split at unordered
    · cases unordered
    · cases unordered
      rfl

theorem processText_error {rules : List Rule} {index : Index} {file : SourceFile} {text : String}
    (failed : Run.processText rules index file text = .error error) : ∃ cause, error = .aborted cause := by
  unfold Run.processText at failed
  dsimp only at failed
  split at failed
  · split at failed
    · cases failed
      exact ⟨_, rfl⟩
    · cases failed
  · split at failed
    · cases failed
    · split at failed <;> cases failed

theorem processAll_error {rules : List Rule} {index : Index} {files : List SourceFile}
    (failed : Run.processAll rules index files = .error error) : ∃ cause, error = .aborted cause := by
  induction files generalizing index with
  | nil => cases failed
  | cons file files ih =>
    rcases bind_eq_error_iff.mp failed with first | ⟨⟨processed, next⟩, -, later⟩
    · unfold Run.process at first
      split at first
      · cases first
      · exact processText_error first
    · rcases bind_eq_error_iff.mp later with others | ⟨_, -, done⟩
      · exact ih others
      · cases done

theorem computed_error {paths : List String} (failed : computed run tree paths = .error error) :
    error.exitCode = 1 := by
  rcases bind_eq_error_iff.mp failed with unloaded | ⟨files, -, stopped⟩
  · exact loadAll_error unloaded
  · obtain ⟨cause, rfl⟩ := processAll_error stopped
    rfl

theorem settings_eq (command : Command) (tree : FileTree) :
    command.settings tree = (match configFile? command tree with
      | some path => Settings.readFile tree path
      | none => .ok .default) >>= fun settings => .ok (settings.withRules command.arguments.rules) := by
  unfold Command.settings Settings.discover configFile?
  cases command.arguments.config with
  | some path => rfl
  | none => cases tree.resolve Settings.fileName <;> rfl

theorem settings_of_malformed (malformed : Malformed command tree) :
    command.settings tree = .error .badSettings := by
  obtain ⟨path, text, file, read, wrong⟩ := malformed
  rw [settings_eq, file]
  simp only [Settings.readFile, read, wrong]
  rfl

theorem settings_error (failed : command.settings tree = .error error) :
    error.exitCode = 1 ∨ error.exitCode = 2 ∧ Malformed command tree := by
  rw [settings_eq] at failed
  rcases bind_eq_error_iff.mp failed with unread | ⟨_, -, done⟩
  · split at unread
    · rename_i path file
      unfold Settings.readFile at unread
      split at unread
      · cases unread
        exact .inl rfl
      · rename_i text read
        split at unread
        · cases unread
        · rename_i wrong
          cases unread
          exact .inr ⟨rfl, path, text, file, read, wrong⟩
    · cases unread
  · cases done

theorem standard_contains (conventions : Conventions) (name : String) :
    (Registry.standard conventions).contains name = true ↔
      name ∈ [AddInstances.ruleName, AdaptReferences.ruleName] := by
  have names : (Registry.standard conventions).contains name =
      (decide (AddInstances.ruleName = name) || decide (AdaptReferences.ruleName = name)) := by
    unfold Registry.standard Registry.register Registry.contains Table.contains
    rw [Table.get?_insert, Table.get?_insert]
    by_cases last : AdaptReferences.ruleName = name
    · simp [AdaptReferences.rule, last]
    · by_cases first : AddInstances.ruleName = name <;>
        simp [AdaptReferences.rule, AddInstances.rule, first, last, Registry.empty, Table.empty, Table.get?,
          Table.find]
  rw [names, Bool.or_eq_true, decide_eq_true_iff, decide_eq_true_iff, List.mem_pair, eq_comm,
    eq_comm (b := name)]

theorem prepare_of_unknown (listed : name ∈ settings.rules)
    (unknown : name ∉ [AddInstances.ruleName, AdaptReferences.ruleName]) :
    ∃ error, Run.prepare settings (.standard settings.conventions) = .error error ∧ error.exitCode = 2 := by
  unfold Run.prepare Registry.select
  cases found : settings.rules.find? fun name => !(Registry.standard settings.conventions).contains name with
  | some _ => exact ⟨_, rfl, rfl⟩
  | none =>
    have known := List.find?_eq_none.mp found name listed
    rw [Bool.not_eq_true, Bool.not_eq_false', standard_contains] at known
    exact absurd known unknown

theorem prepare_error (failed : Run.prepare settings (.standard settings.conventions) = .error error) :
    error.exitCode = 2 ∧
      ∃ name ∈ settings.rules, name ∉ [AddInstances.ruleName, AdaptReferences.ruleName] := by
  unfold Run.prepare Registry.select at failed
  split at failed
  · cases failed
  · rename_i refused
    cases failed
    split at refused
    · rename_i name found
      have unknown := List.find?_some found
      rw [Bool.not_eq_true', Bool.eq_false_iff, Ne, standard_contains] at unknown
      exact ⟨rfl, name, List.mem_of_find?_eq_some found, unknown⟩
    · cases refused

theorem planned_of_misconfigured (wrong : Misconfigured command tree) :
    ∃ error, planned command tree = .error error ∧ error.exitCode = 2 := by
  unfold planned
  rcases wrong with malformed | ⟨settings, name, effective, listed, unknown⟩
  · rw [settings_of_malformed malformed]
    exact ⟨_, rfl, rfl⟩
  · obtain ⟨error, refused, code⟩ := prepare_of_unknown listed unknown
    refine ⟨error, ?_, code⟩
    rw [effective]
    exact bind_eq_error_iff.mpr (.inr ⟨settings, rfl, bind_eq_error_iff.mpr (.inl refused)⟩)

theorem planned_error (failed : planned command tree = .error error) :
    error.exitCode = 1 ∨ error.exitCode = 2 ∧ Misconfigured command tree := by
  rcases bind_eq_error_iff.mp failed with unsettled | ⟨settings, effective, later⟩
  · exact (settings_error unsettled).imp_right fun ⟨code, malformed⟩ => ⟨code, .inl malformed⟩
  rcases bind_eq_error_iff.mp later with refused | ⟨run, -, later⟩
  · obtain ⟨code, name, listed, unknown⟩ := prepare_error refused
    exact .inr ⟨code, .inr ⟨settings, name, effective, listed, unknown⟩⟩
  rcases bind_eq_error_iff.mp later with lost | ⟨paths, -, stopped⟩
  · unfold Run.discover at lost
    split at lost
    · cases lost
    · cases lost
      exact .inl rfl
  · exact .inl (computed_error stopped)

/-- The two ways a computation can end in an error are told apart by the exit code. -/
theorem exitCode_of_planned (failed : planned command tree = .error error) :
    (Misconfigured command tree → error.exitCode = 2) ∧ (¬ Misconfigured command tree → error.exitCode = 1) := by
  constructor
  · intro wrong
    obtain ⟨_, same, code⟩ := planned_of_misconfigured wrong
    rw [failed] at same
    cases same
    exact code
  · intro right
    exact (planned_error failed).resolve_right fun wrong => right wrong.2

/-! ### Exit codes -/

theorem isSuccess_iff (dryRun : Bool) (written : Nat) :
    Report.isSuccess ⟨results.map Run.Processed.report, dryRun, written⟩ = true ↔
      ∀ processed ∈ results, processed.outcome.isProblem = false := by
  rw [Report.isSuccess, Report.problems, List.isEmpty_iff, List.filter_eq_nil_iff, List.forall_mem_map]
  exact forall₂_congr fun processed _ => Bool.eq_false_iff.symm

theorem changed_isEmpty_iff (dryRun : Bool) (written : Nat) :
    (Report.changed ⟨results.map Run.Processed.report, dryRun, written⟩).isEmpty = true ↔
      ∀ processed ∈ results, processed.outcome.isChanged = false := by
  rw [Report.changed, List.isEmpty_iff, List.filter_eq_nil_iff, List.forall_mem_map]
  exact forall₂_congr fun processed _ => Bool.eq_false_iff.symm

theorem code_eq_zero_iff {condition : Prop} [Decidable condition] :
    (if condition then 0 else 1) = 0 ↔ condition := by
  split <;> simp [*]

/-- No file of the run is skipped or failed. -/
def Succeeds (results : List Run.Processed) : Prop :=
  ∀ processed ∈ results, processed.outcome.isProblem = false

/-- No file of the run would change. -/
def Leaves (results : List Run.Processed) : Prop :=
  ∀ processed ∈ results, processed.outcome.isChanged = false

/-- What a command that applies rules leaves. -/
structure Contract (command : Command) (tree : FileTree) (execution : Execution) : Prop where
  /-- A check and a run with the flag for it leave all files alone. -/
  dry : command.action = .check ∨ command.has .dryRun = true → execution.tree = tree
  /-- A run without the flag writes the new texts, whatever the settings say of a dry run. -/
  wet : command.action = .run → command.has .dryRun = false → ∀ results,
    planned command tree = .ok results → execution.tree = (writeBack tree (pending results)).2
  /-- A run that cannot write one of the new texts fails. Those in front of it stay written,
  those behind it are not tried. -/
  unwritten : command.action = .run → command.has .dryRun = false → ∀ results error,
    planned command tree = .ok results → (writeBack tree (pending results)).1 = some error →
    execution.exitCode = 1 ∧ ∃ front file back fault, pending results = front ++ file :: back ∧
      writeBack tree front = (none, execution.tree) ∧
      Storage.write execution.tree file.1 file.2 = .error fault
  run : command.action = .run → (execution.exitCode = 0 ↔
    ∃ results, planned command tree = .ok results ∧ Succeeds results ∧
      (command.has .dryRun = true ∨ (writeBack tree (pending results)).1 = none))
  check : command.action = .check → (execution.exitCode = 0 ↔
    ∃ results, planned command tree = .ok results ∧ Succeeds results ∧ Leaves results)
  misconfigured : Misconfigured command tree → execution.exitCode = 2 ∧ execution.tree = tree
  failed : ∀ error, planned command tree = .error error → ¬ Misconfigured command tree →
    execution.exitCode = 1 ∧ execution.tree = tree
  finished : ∀ results, planned command tree = .ok results → execution.exitCode ≤ 1

/-- What a command leaves whose computation fails. -/
theorem contract_of_error (failed : planned command tree = .error error) :
    Contract command tree (.ofOutcome (.error error, tree)) := by
  obtain ⟨wrong, right⟩ := exitCode_of_planned failed
  have nonzero : error.exitCode ≠ 0 := by
    by_cases misconfigured : Misconfigured command tree
    · rw [wrong misconfigured]
      decide
    · rw [right misconfigured]
      decide
  have unfinished : ∀ results, planned command tree ≠ .ok results := by
    rw [failed]
    rintro results ⟨⟩
  exact {
    dry := fun _ => rfl
    wet := fun _ _ results done => absurd done (unfinished results)
    unwritten := fun _ _ results _ done => absurd done (unfinished results)
    run := fun _ => iff_of_false nonzero fun ⟨results, done, _⟩ => unfinished results done
    check := fun _ => iff_of_false nonzero fun ⟨results, done, _⟩ => unfinished results done
    misconfigured := fun misconfigured => ⟨wrong misconfigured, rfl⟩
    failed := by
      intro other same configured
      exact ⟨right configured, rfl⟩
    finished := fun results done => absurd done (unfinished results) }

theorem configured_of_planned (done : planned command tree = .ok results) : ¬ Misconfigured command tree := by
  intro misconfigured
  obtain ⟨_, failed, _⟩ := planned_of_misconfigured misconfigured
  rw [done] at failed
  cases failed

theorem exitCode_le_one (report : Report) : report.exitCode ≤ 1 := by
  unfold Report.exitCode
  split <;> decide

/-- A run that prints a report is a dry run, or has written all new texts. -/
theorem contract_of_report (named : command.action = .run) (done : planned command tree = .ok results)
    {written : Nat} {after : FileTree}
    (ended : command.has .dryRun = true ∧ after = tree ∨
      command.has .dryRun = false ∧ writeBack tree (pending results) = (none, after)) :
    let report : Report := ⟨results.map Run.Processed.report, command.has .dryRun, written⟩
    Contract command tree ⟨report.exitCode, Answer.printReport command report, none, after⟩ := by
  intro report
  have written : command.has .dryRun = true ∨ (writeBack tree (pending results)).1 = none :=
    ended.imp And.left fun ⟨_, all⟩ => congrArg Prod.fst all
  have code : report.exitCode = 0 ↔ Succeeds results := code_eq_zero_iff.trans (isSuccess_iff ..)
  constructor
  · rintro (check | dry)
    · rw [named] at check
      cases check
    · rcases ended with ⟨-, kept⟩ | ⟨wet, -⟩
      · exact kept
      · rw [dry] at wet
        cases wet
  · intro _ wet other same
    rw [done] at same
    cases same
    rcases ended with ⟨dry, -⟩ | ⟨-, all⟩
    · rw [dry] at wet
      cases wet
    · rw [all]
  · intro _ wet other error same refused
    rw [done] at same
    cases same
    rw [wet, refused] at written
    simp at written
  · refine fun _ => code.trans ⟨fun succeeds => ⟨results, done, succeeds, written⟩, ?_⟩
    rintro ⟨other, same, succeeds, -⟩
    rw [done] at same
    cases same
    exact succeeds
  · intro check
    rw [named] at check
    cases check
  · exact fun misconfigured => absurd misconfigured (configured_of_planned done)
  · intro error failed
    rw [done] at failed
    cases failed
  · exact fun _ _ => exitCode_le_one report

/-- A run that comes to a text that cannot be written leaves those in front of it written. -/
theorem contract_of_unwritten (named : command.action = .run) (done : planned command tree = .ok results)
    {after : FileTree} (wet : command.has .dryRun = false)
    (stops : writeBack tree (pending results) = (some error, after)) :
    Contract command tree (.ofOutcome (.error error, after)) := by
  obtain ⟨front, file, back, fault, texts, before, refused, rfl⟩ := writeBack_stops stops
  constructor
  · rintro (check | dry)
    · rw [named] at check
      cases check
    · rw [wet] at dry
      cases dry
  · intro _ _ other same
    rw [done] at same
    cases same
    rw [stops]
    rfl
  · intro _ _ other _ same _
    rw [done] at same
    cases same
    exact ⟨rfl, front, file, back, fault, texts, before, refused⟩
  · refine fun _ => iff_of_false Nat.one_ne_zero ?_
    rintro ⟨other, same, -, written⟩
    rw [done] at same
    cases same
    rw [wet, stops] at written
    simp at written
  · intro check
    rw [named] at check
    cases check
  · exact fun misconfigured => absurd misconfigured (configured_of_planned done)
  · intro error failed
    rw [done] at failed
    cases failed
  · exact fun _ _ => Nat.le_refl 1

theorem contract_of_check (named : command.action = .check) (done : planned command tree = .ok results) :
    let report : Report := ⟨results.map Run.Processed.report, true, 0⟩
    Contract command tree ⟨if report.changed.isEmpty && report.isSuccess then 0 else 1,
      Answer.printReport command report, none, tree⟩ := by
  intro report
  have code : (if report.changed.isEmpty && report.isSuccess then 0 else 1) = 0 ↔
      Succeeds results ∧ Leaves results := by
    rw [code_eq_zero_iff, Bool.and_eq_true, and_comm]
    exact and_congr (isSuccess_iff ..) (changed_isEmpty_iff ..)
  constructor
  · exact fun _ => rfl
  · intro run
    rw [named] at run
    cases run
  · intro run
    rw [named] at run
    cases run
  · intro run
    rw [named] at run
    cases run
  · refine fun _ => code.trans ⟨fun leaves => ⟨results, done, leaves⟩, ?_⟩
    rintro ⟨other, same, leaves⟩
    rw [done] at same
    cases same
    exact leaves
  · exact fun misconfigured => absurd misconfigured (configured_of_planned done)
  · intro error failed
    rw [done] at failed
    cases failed
  · intro _ _
    dsimp only
    split <;> decide

theorem contract_of_command (named : command.action ≠ .order) :
    Contract command tree (.ofOutcome ((Answer.ofCommand command).run.run tree)) := by
  unfold Answer.ofCommand
  cases action : command.action with
  | order => exact absurd action named
  | run =>
    have reported := reportOf_run command tree (command.has .dryRun)
    cases outcome : planned command tree with
    | error error =>
      rw [ended, outcome] at reported
      dsimp only
      rw [Answer.ofRun, run_bind_error reported]
      exact contract_of_error outcome
    | ok results =>
      rw [ended, outcome] at reported
      dsimp only at reported ⊢
      rw [Answer.ofRun]
      unfold conclude at reported
      split at reported
      · rename_i dry
        rw [run_bind_ok reported, ← dry]
        exact contract_of_report action outcome (.inl ⟨dry, rfl⟩)
      · rename_i wet
        have wet := Bool.eq_false_iff.mpr wet
        split at reported
        · rename_i all
          rw [run_bind_ok reported, ← wet]
          exact contract_of_report action outcome (.inr ⟨wet, all⟩)
        · rename_i stops
          rw [run_bind_error reported]
          exact contract_of_unwritten action outcome wet stops
  | check =>
    have reported := reportOf_run command tree true
    cases outcome : planned command tree with
    | error error =>
      rw [ended, outcome] at reported
      dsimp only
      rw [Answer.ofCheck, run_bind_error reported]
      exact contract_of_error outcome
    | ok results =>
      rw [ended, outcome] at reported
      dsimp only
      rw [Answer.ofCheck, run_bind_ok reported]
      exact contract_of_check action outcome

/-- What a command line leaves that is not understood, or that asks for help. -/
structure Refusal (interrupt : Interrupt) (tree : FileTree) (execution : Execution) : Prop where
  kept : execution.tree = tree
  usage : (∃ error, interrupt = .usage error) → execution.exitCode = 2
  answered : interrupt = .help ∨ interrupt = .version → execution.exitCode = 0

/-- Every command line to run or to check keeps the contract. -/
theorem execute_contract (arguments : List String) (tree : FileTree) :
    (∀ interrupt, Command.parse arguments = .error interrupt →
      Refusal interrupt tree (CommandLine.execute arguments tree)) ∧
    ∀ command, Command.parse arguments = .ok command → command.action ≠ .order →
      Contract command tree (CommandLine.execute arguments tree) := by
  unfold CommandLine.execute
  constructor
  · intro interrupt refused
    rw [refused]
    cases interrupt with
    | usage error => exact ⟨rfl, fun _ => rfl, by simp⟩
    | help => exact ⟨rfl, by simp, fun _ => rfl⟩
    | version => exact ⟨rfl, by simp, fun _ => rfl⟩
  · intro command understood named
    rw [understood]
    exact contract_of_command named

/-! ### A dry run that only the settings ask for -/

/-- A reference to a service that has moved into its object. -/
def movedText : String := "trait A\nobject A{trait A[F[_]]}\nclass C(a:A[_])"

/-- Files with settings that ask for a dry run. -/
def rehearsing : FileTree :=
  .ofList [("hkfix.toml", .text "driver.dry_run=true\ndriver.rules=[\"adapt-references\"]"), ("A.scala", .text movedText)]

/-- The run that the settings ask for. -/
def rehearsal : Run :=
  ⟨{ Settings.default with rules := [AdaptReferences.ruleName], dryRun := true }, [AdaptReferences.rule]⟩

/-- What is computed from the files: the text that is read, its outline, the order of
its one unit, the sources found, the settings in effect and the text that the run plans. -/
theorem rehearsing_computed :
    (rehearsing.read "A.scala" = .ok movedText ∧ ¬ rehearsal.settings.maxFileSize < movedText.utf8ByteSize) ∧
    ((Outline.parse movedText.toList).toOption.map (fun outline => (outline.package, outline.imports,
      outline.decls.filterMap Decl.name?, outline.typeRefs.map TypeRef.name)) = some (none, [], ["A", "A", "C"], ["A"]) ∧
    (DependencyGraph.build [("A.scala", ⟨none, [], ["A", "C"], ["A"], none⟩)]).leafFirst.toOption = some [0]) ∧
    ((rehearsing.sourcesOf ["scala"] .empty ["."]).toOption = some ["./A.scala"] ∧
    Path.sortedSet (["./A.scala"].map Path.withoutDot) = ["A.scala"]) ∧
    (Command.settings ⟨.run, .empty⟩ rehearsing).toOption = some rehearsal.settings ∧
    (Run.processAll rehearsal.rules .empty [⟨"A.scala", .ok movedText⟩]).toOption.map pending =
      some [("A.scala", "trait A\nobject A{trait A[F[_]]}\nclass C(a:A.A[_])")] := by
  refine ⟨⟨?_, ?_⟩, ⟨?_, ?_⟩, ⟨?_, ?_⟩, ?_, ?_⟩ <;> decide +kernel

theorem rehearsing_loaded : rehearsal.loadAll rehearsing ["A.scala"] = .ok [⟨"A.scala", .ok movedText⟩] := by
  obtain ⟨⟨found, small⟩, ⟨outlined, order⟩, _⟩ := rehearsing_computed
  have read : ["A.scala"].mapM (SourceFile.load rehearsal.settings.maxFileSize rehearsing) =
      .ok [⟨"A.scala", .ok movedText⟩] := by
    refine mapM_eq_ok_iff.mpr (.cons ?_ .nil)
    have found : Storage.read rehearsing "A.scala" = .ok movedText := found
    simp only [SourceFile.load, found, if_neg small]
  have names : sortedSet ["A", "A", "C"] = ["A", "C"] := (sortedSet_of_sorted (by decide)).trans (by decide)
  have used : sortedSet ["A"] = ["A"] := (sortedSet_of_sorted (by decide)).trans (by decide)
  have header : Header.ofText movedText = ⟨none, [], ["A", "C"], ["A"], none⟩ := by
    rw [← names, ← used]
    exact header_eq outlined
  have sorted : (DependencyGraph.build [("A.scala", Header.ofText movedText)]).leafFirst = .ok [0] := by
    rw [header]
    exact toOption_eq_some_iff.mp order
  refine bind_eq_ok_iff.mpr ⟨_, read, ?_⟩
  simp only [Run.leafFirst, List.map_cons, List.map_nil, SourceFile.header, sorted]
  rfl

theorem rehearsing_discovered : rehearsal.discover rehearsing ["."] = .ok ["A.scala"] := by
  obtain ⟨_, _, ⟨sources, sorted⟩, _⟩ := rehearsing_computed
  have found : rehearsing.discover rehearsal.settings.extensions ["."] = .ok ["A.scala"] := by
    rw [← sorted]
    exact bind_eq_ok_iff.mpr ⟨_, toOption_eq_some_iff.mp sources, rfl⟩
  rw [Run.discover, found]

theorem rehearsing_planned : ∃ results, planned ⟨.run, .empty⟩ rehearsing = .ok results ∧
    pending results = [("A.scala", "trait A\nobject A{trait A[F[_]]}\nclass C(a:A.A[_])")] := by
  obtain ⟨_, _, _, effective, processed⟩ := rehearsing_computed
  obtain ⟨results, done, texts⟩ := Option.map_eq_some_iff.mp processed
  have computation : computed rehearsal rehearsing ["A.scala"] = .ok results :=
    bind_eq_ok_iff.mpr ⟨_, rehearsing_loaded, toOption_eq_some_iff.mp done⟩
  refine ⟨results, bind_eq_ok_iff.mpr ⟨_, toOption_eq_some_iff.mp effective, ?_⟩, texts⟩
  exact bind_eq_ok_iff.mpr ⟨rehearsal, rfl, bind_eq_ok_iff.mpr ⟨_, rehearsing_discovered, computation⟩⟩

/-- The settings in effect ask for a dry run, and the run writes. -/
theorem configured_dryRun_writes :
    ∃ command settings, Command.parse ["run"] = .ok command ∧ command.action ≠ .order ∧
      command.settings rehearsing = .ok settings ∧ settings.dryRun = true ∧
      rehearsing.read "A.scala" = .ok "trait A\nobject A{trait A[F[_]]}\nclass C(a:A[_])" ∧
      (CommandLine.execute ["run"] rehearsing).tree.read "A.scala" =
        .ok "trait A\nobject A{trait A[F[_]]}\nclass C(a:A.A[_])" := by
  have understood : (Command.parse ["run"]).toOption = some ⟨.run, .empty⟩ := by decide +kernel
  obtain ⟨⟨found, _⟩, _, _, effective, _⟩ := rehearsing_computed
  have parsed := toOption_eq_some_iff.mp understood
  have contract := (execute_contract ["run"] rehearsing).2 _ parsed (by decide)
  obtain ⟨results, done, texts⟩ := rehearsing_planned
  have left := contract.wet rfl rfl results done
  rw [texts] at left
  refine ⟨_, _, parsed, by decide, toOption_eq_some_iff.mp effective, rfl, found, ?_⟩
  rw [left]
  decide +kernel

end KindLift.CommandContract
