import KindLift.Proofs.ReferencePlacement
import KindLift.Proofs.RunSession

/-! The two rules of the migration never end a run. On every unit that is read
from a text they refuse the unit, or they return edits that can be applied to it;
so a run of these rules alone is not aborted. -/
namespace KindLift.RuleSafety
open Traversal RuleLogic RunSession DeclPlacement InstancePlacement ReferencePlacement

/-- One of the two rules of the migration. -/
def IsStandard (rule : Rule) : Prop :=
  rule = AdaptReferences.rule ∨ ∃ conventions, rule = AddInstances.rule conventions

variable {rule : Rule} {rules : List Rule} {index : Index} {id : UnitId} {text : String}

/-- The edits of a standard rule on a unit that is read from a text. -/
theorem standard_safely (standard : IsStandard rule) (index : Index) (id : UnitId) (text : String) :
    Safely (rule.editSet (.load index id text)) fun set => ∃ result, set.apply text = .ok result := by
  unfold SourceUnit.load
  split
  · rename_i outline parsed
    obtain ⟨high, placed⟩ := parse_placed parsed
    rcases standard with rfl | ⟨conventions, rfl⟩
    · exact @adaptReferences_safely ⟨id, text, outline, _⟩ (parse_refs_placed parsed)
    · exact @addInstances_safely high ⟨id, text, outline, _⟩ placed conventions
  · rcases standard with rfl | ⟨conventions, rfl⟩ <;> rfl

theorem foldlM_safely {step : σ → ι → Except RuleError σ} {invariant : σ → Prop} {items : List ι}
    (each : ∀ item ∈ items, ∀ state, invariant state → Safely (step state item) invariant)
    (begins : invariant state) : Safely (items.foldlM step state) invariant := by
  induction items generalizing state with
  | nil => exact begins
  | cons item rest ih =>
    rw [List.foldlM_cons]
    refine (each item (List.mem_cons_self ..) state begins).bind fun next holds => ?_
    exact ih (fun other member => each other (List.mem_cons_of_mem _ member)) holds

/-- The unit of the progress is read from a text against the index. -/
def Loaded (index : Index) (progress : Run.Progress) : Prop :=
  ∃ id text, progress.unit = .load index id text

theorem load_text (index : Index) (id : UnitId) (text : String) :
    (SourceUnit.load index id text).text = text := by
  unfold SourceUnit.load
  split <;> rfl

theorem applyRule_safely (standard : IsStandard rule) {progress : Run.Progress}
    (loaded : Loaded index progress) :
    Safely (Run.applyRule index progress rule) (Loaded index) := by
  obtain ⟨id, text, same⟩ := loaded
  have safe := standard_safely standard index id text
  simp only [Run.applyRule, same]
  refine safe.bind fun set applies => ?_
  obtain ⟨result, applied⟩ := applies
  split
  · exact ⟨id, text, same⟩
  · rw [load_text, applied]
    exact ⟨_, result, rfl⟩

theorem process_not_aborted (standard : ∀ rule ∈ rules, IsStandard rule) (index : Index)
    (file : SourceFile) : ∃ result, Run.process rules index file = .ok result := by
  unfold Run.process
  split
  · exact ⟨_, rfl⟩
  · rename_i text _
    have safe : Safely (rules.foldlM (Run.applyRule index) ⟨.load index file.path text, [], 0⟩)
        (Loaded index) :=
      foldlM_safely (fun rule member _ loaded => applyRule_safely (standard rule member) loaded)
        ⟨file.path, text, rfl⟩
    unfold Run.processText
    dsimp only
    split
    · rename_i error refused
      rw [refused] at safe
      rw [show error.isFatal = false from safe]
      exact ⟨_, rfl⟩
    · split
      · exact ⟨_, rfl⟩
      · split <;> exact ⟨_, rfl⟩

theorem processAll_not_aborted (standard : ∀ rule ∈ rules, IsStandard rule) (index : Index)
    (files : List SourceFile) : ∃ result, Run.processAll rules index files = .ok result := by
  induction files generalizing index with
  | nil => exact ⟨[], rfl⟩
  | cons file files ih =>
    obtain ⟨⟨processed, next⟩, done⟩ := process_not_aborted standard index file
    obtain ⟨others, rest⟩ := ih next
    exact ⟨processed :: others, bind_eq_ok_iff.mpr ⟨_, done, bind_eq_ok_iff.mpr ⟨_, rest, rfl⟩⟩⟩

theorem leafFirst_not_aborted (files : List SourceFile) (error : RuleError) :
    Run.leafFirst files ≠ .error (.aborted error) := by
  unfold Run.leafFirst
  split <;> simp

theorem load_not_aborted [Storage σ] (limit : Nat) (storage : σ) (path : String) (error : RuleError) :
    SourceFile.load limit storage path ≠ .error (.aborted error) := by
  unfold SourceFile.load
  split
  · simp
  · split <;> simp

theorem loadAll_not_aborted [Storage σ] (run : Run) (storage : σ) (paths : List String)
    (error : RuleError) : run.loadAll storage paths ≠ .error (.aborted error) := by
  intro failed
  rcases bind_eq_error_iff.mp failed with unread | ⟨files, -, cyclic⟩
  · obtain ⟨path, -, unread⟩ := mapM_eq_error unread
    exact load_not_aborted _ storage path error unread
  · exact leafFirst_not_aborted files error cyclic

/-- A rule of the migration never conflicts with itself and never loses its place
in the text; whatever edits it returns can be applied to the unit they were made
for. A run of these rules is not aborted. -/
theorem standard_rules_apply :
    (∀ (index : Index) (id : UnitId) (text : String) (rule : Rule), IsStandard rule →
      (∀ unit error, rule.editSet (.load index id text) ≠ .error (.overlapping unit error)) ∧
      (∀ unit, rule.editSet (.load index id text) ≠ .error (.brokenSpan unit)) ∧
      ∀ set, rule.editSet (.load index id text) = .ok set →
        ∃ result, set.apply (SourceUnit.load index id text).text = .ok result) ∧
    ∀ (σ : Type) [Storage σ] (run : Run) (storage : σ) (paths : List String),
      (∀ rule ∈ run.rules, IsStandard rule) →
        ∀ error, run.files storage paths ≠ .error (.aborted error) := by
  constructor
  · intro index id text rule standard
    have safe := standard_safely standard index id text
    refine ⟨fun unit error failed => ?_, fun unit failed => ?_, fun set returned => ?_⟩
    · rw [failed] at safe
      cases safe
    · rw [failed] at safe
      cases safe
    · rw [returned] at safe
      rwa [load_text]
  · intro σ _ run storage paths standard error failed
    rcases files_eq_error failed with uncomputed | ⟨path, fault, unwritten⟩
    · rcases bind_eq_error_iff.mp uncomputed with unloaded | ⟨files, -, stopped⟩
      · exact loadAll_not_aborted run storage paths error unloaded
      · obtain ⟨processed, done⟩ := processAll_not_aborted standard .empty files
        rw [done] at stopped
        cases stopped
    · cases unwritten

/-- A legacy service with all the imports it needs. -/
def legacyText : String :=
  "import cats._, cats.data._, cats.tagless._\n" ++
    "trait A[Future] extends ThriftService \x7b def m: Future[Int] \x7d"

/-- The service is relocated by one edit, which can be applied, and the run over
it ends with a report. -/
theorem legacyText_apply :
    (∃ set, (AddInstances.rule .default).editSet (.load .empty "A" legacyText) = .ok set ∧
      set.edits.length = 1 ∧
      ∃ result, set.apply (SourceUnit.load .empty "A" legacyText).text = .ok result) ∧
    ∀ error, Run.files ⟨.default, [AddInstances.rule .default, AdaptReferences.rule]⟩
      (MemoryFiles.ofList [("A", legacyText)]) ["A"] ≠ .error (.aborted error) := by
  have instances : IsStandard (AddInstances.rule .default) := .inr ⟨.default, rfl⟩
  have references : IsStandard AdaptReferences.rule := .inl rfl
  constructor
  · have edited : ((AddInstances.rule .default).editSet (.load .empty "A" legacyText)).toOption.map
        (·.edits.length) = some 1 := by decide +kernel
    cases returned : (AddInstances.rule .default).editSet (.load .empty "A" legacyText) with
    | error error =>
      rw [returned] at edited
      cases edited
    | ok set =>
      rw [returned] at edited
      exact ⟨set, rfl, Option.some.inj edited,
        (standard_rules_apply.1 .empty "A" legacyText _ instances).2.2 set returned⟩
  · refine standard_rules_apply.2 MemoryFiles _ _ _ ?_
    exact List.forall_mem_cons.mpr ⟨instances, List.forall_mem_singleton.mpr references⟩

end KindLift.RuleSafety
