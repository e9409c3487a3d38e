import KindLift.Proofs.IndexRefinement
import KindLift.Proofs.MigrationCompleteness

/-! What the index knows of the units that a run has come past. The symbols of a
unit are those of the text the run leaves for it, so that the units behind it are
resolved against the program as it will be written. The exception are units whose
new text is refused as a duplicate: their old text stays, but is not registered. -/
namespace KindLift.IndexMirror
open Traversal RunSession IndexRefinement MigrationCompleteness

/-- The package of a unit with the given text. -/
def packageOf (unit : UnitId × String) : DottedName := (SourceUnit.load .empty unit.1 unit.2).packageName

/-- The symbols of a unit under a key of the index. -/
def held (index : Index) (unit : UnitId) (key : String) : List Symbol :=
  ((index.entries.get? key).getD []).filter fun symbol => symbol.unit = unit

/-- The unit is in the index with the package and the symbols of the given text. -/
structure Holds (index : Index) (unit : UnitId × String) : Prop where
  listed : ∃ keys, index.units.get? unit.1 = some ⟨packageOf unit, keys⟩
  filed : ∀ key, (held index unit.1 key).Perm ((declared unit).filter fun symbol => Index.key symbol.name = key)

/-- The unit is not in the index. -/
structure Lacks (index : Index) (unit : UnitId) : Prop where
  unlisted : index.units.get? unit = none
  unfiled : ∀ key, held index unit key = []

/-- The symbols of the text clash with those of other units in the index. -/
def Refused (index : Index) (unit : UnitId × String) : Prop :=
  ∃ duplicate, (SourceUnit.load index unit.1 unit.2).register index = .error duplicate

/-- The unit was given up because of a duplicate. -/
def GivenUp (processed : Run.Processed) : Prop := ∃ duplicate, processed.outcome = .failed (.duplicate duplicate)

/-- What became of the first files of a run, and the index after them. -/
def advance (rules : List Rule) : Index → List SourceFile → Except RunError (List Run.Processed × Index)
  | index, [] => .ok ([], index)
  | index, file :: files => do
    let (processed, next) ← Run.process rules index file
    let (results, last) ← advance rules next files
    return (processed :: results, last)

/-- What the ledger says of a unit that was read: its final text is entered, unless
it clashes with that of another unit, or the unit was given up. -/
inductive Entered (ledger : Ledger) (processed : Run.Processed) : Prop where
  | registered (kept : ¬ GivenUp processed)
      (entered : ledger.get? processed.file.path = some (packageOf (finalUnit processed), declared (finalUnit processed)))
  | refused (kept : ¬ GivenUp processed) (absent : ledger.get? processed.file.path = none)
      (clashes : ∃ symbol ∈ declared (finalUnit processed), ledger.Clashes processed.file.path symbol)
  | givenUp (givenUp : GivenUp processed) (absent : ledger.get? processed.file.path = none)

/-- The ledger of the index after some units: each of them is entered as its fate
says, and no other unit is entered. -/
structure Mirrors (index : Index) (results : List Run.Processed) (ledger : Ledger) : Prop where
  refines : Refines index ledger
  known : ∀ unit registration, ledger.get? unit = some registration → ∃ processed ∈ results,
    processed.file.path = unit ∧ registration = (packageOf (finalUnit processed), declared (finalUnit processed))
  entered : ∀ processed ∈ results, ∀ text, processed.file.text = .ok text → Entered ledger processed

/-- What a step leaves: the unit is registered with its final text, or the index is
as it was. -/
inductive Step (index : Index) (processed : Run.Processed) : Index → Prop where
  | unread (unread : ∀ text, processed.file.text ≠ .ok text) : Step index processed index
  | registered (kept : ¬ GivenUp processed)
      (registered : (SourceUnit.load index processed.file.path (finalText processed)).register index = .ok next) :
      Step index processed next
  | refused (kept : ¬ GivenUp processed) (refused : Refused index (finalUnit processed)) : Step index processed index
  | givenUp (givenUp : GivenUp processed) : Step index processed index

variable {rules : List Rule} {index next last : Index} {ledger : Ledger} {id : UnitId} {text : String}
  {file : SourceFile} {files done rest : List SourceFile} {processed : Run.Processed} {results : List Run.Processed}

theorem advance_cons_iff : advance rules index (file :: files) = .ok (results, last) ↔
    ∃ processed next others, Run.process rules index file = .ok (processed, next) ∧
      advance rules next files = .ok (others, last) ∧ results = processed :: others := by
  rw [advance, bind_eq_ok_iff]
  constructor
  · rintro ⟨⟨processed, next⟩, first, later⟩
    obtain ⟨⟨others, reached⟩, rest, same⟩ := bind_eq_ok_iff.mp later
    cases same
    exact ⟨processed, next, others, first, rest, rfl⟩
  · rintro ⟨processed, next, others, first, rest, rfl⟩
    exact ⟨_, first, bind_eq_ok_iff.mpr ⟨_, rest, rfl⟩⟩

/-- A run goes on from the index after its first files. -/
theorem processAll_append (ran : advance rules index done = .ok (results, last)) :
    Run.processAll rules index (done ++ rest) = (Run.processAll rules last rest).map (results ++ ·) := by
  induction done generalizing index results with
  | nil =>
    cases ran
    rw [List.nil_append]
    cases Run.processAll rules last rest <;> rfl
  | cons file done ih =>
    obtain ⟨processed, next, others, first, advanced, rfl⟩ := advance_cons_iff.mp ran
    rw [List.cons_append, Run.processAll, first]
    show (do return processed :: (← Run.processAll rules next (done ++ rest))) = _
    rw [ih advanced]
    cases Run.processAll rules last rest <;> rfl

theorem advance_files (ran : advance rules index files = .ok (results, last)) :
    results.map Run.Processed.file = files := by
  have whole : Run.processAll rules index (files ++ []) = .ok (results ++ []) := processAll_append ran
  rw [List.append_nil, List.append_nil] at whole
  exact (processAll_settled whole).1

/-! One unit. -/

theorem packageName_load (index : Index) (id : UnitId) (text : String) :
    (SourceUnit.load index id text).packageName = packageOf (id, text) := by
  unfold packageOf SourceUnit.load
  cases Outline.parse text.toList <;> rfl

theorem register_load (index : Index) (id : UnitId) (text : String) :
    (SourceUnit.load index id text).register index = index.register id (packageOf (id, text)) (declared (id, text)) := by
  rw [SourceUnit.register, load_id, packageName_load, exportedSymbols_load]

theorem declSymbol?_unit {package : DottedName} {decl : Decl} {symbol : Symbol}
    (exported : SourceUnit.declSymbol? id package decl = some symbol) : symbol.unit = id := by
  unfold SourceUnit.declSymbol? at exported
  split at exported
  · cases exported
    rfl
  · cases exported
    rfl
  · split at exported <;> cases exported
    rfl

/-- A unit declares symbols of its own only. -/
theorem declared_owned (unit : UnitId × String) : ∀ symbol ∈ declared unit, symbol.unit = unit.1 := by
  intro symbol member
  obtain ⟨decl, -, exported⟩ := List.mem_filterMap.mp member
  rw [declSymbol?_unit exported, load_id]

/-- Rules change the text of a unit and nothing else. -/
theorem foldlM_load {start progress : Run.Progress} (loaded : start.unit = .load index id start.unit.text)
    (ran : rules.foldlM (Run.applyRule index) start = .ok progress) :
    progress.unit = .load index id progress.unit.text := by
  induction rules generalizing start with
  | nil =>
    cases ran
    exact loaded
  | cons rule rules ih =>
    rw [List.foldlM_cons] at ran
    obtain ⟨reached, first, later⟩ := bind_eq_ok_iff.mp ran
    refine ih ?_ later
    obtain ⟨group, -, first⟩ := bind_eq_ok_iff.mp first
    split at first
    · cases first
      exact loaded
    · split at first
      · cases first
      · cases first
        rw [RuleSafety.load_text, loaded, load_id]

theorem refusal_ne_duplicate (error : RuleError) : ∀ duplicate, Run.refusal error ≠ .failed (.duplicate duplicate) := by
  intro duplicate
  unfold Run.refusal
  split <;> simp

theorem not_givenUp_of_refusal (error : RuleError) : ¬ GivenUp ⟨file, Run.refusal error, none⟩ := by
  rintro ⟨duplicate, same⟩
  exact refusal_ne_duplicate error duplicate same

theorem process_step (ran : Run.process rules index file = .ok (processed, next)) :
    processed.file = file ∧ Step index processed next := by
  refine ⟨(process_settled ran).1, ?_⟩
  cases process_cases ran with
  | unread unread => exact .unread fun text read => by simp [unread] at read
  | @refused text error read =>
    have final := finalText_kept (Run.refusal error) read
    unfold Run.registerIfNew
    split
    · rename_i registered
      exact .registered (not_givenUp_of_refusal error) (final.symm ▸ registered)
    · rename_i duplicate refused
      exact .refused (not_givenUp_of_refusal error) ⟨duplicate, by rw [finalUnit, final]; exact refused⟩
  | givenUp => exact .givenUp ⟨_, rfl⟩
  | unchanged read rewritten registered same =>
    rw [foldlM_load (by rw [RuleSafety.load_text]) rewritten, same] at registered
    refine .registered (by simp [GivenUp]) ?_
    rw [finalText_kept .unchanged read]
    exact registered
  | changed read rewritten registered =>
    rw [foldlM_load (by rw [RuleSafety.load_text]) rewritten] at registered
    exact .registered (by simp [GivenUp]) registered

/-! The ledger of a run. -/

theorem Clashes.insert {other : UnitId} {registration : DottedName × List Symbol} {symbol : Symbol}
    (fresh : ledger.get? other = none) (clash : ledger.Clashes id symbol) :
    Ledger.Clashes (ledger.insert other registration) id symbol := by
  obtain ⟨owner, rivals, found, facts⟩ := clash
  have differs : other ≠ owner := by
    rintro rfl
    rw [fresh] at found
    cases found
  refine ⟨owner, rivals, ?_, facts⟩
  rw [Table.get?_insert, if_neg differs]
  exact found

/-- A new entry changes nothing for the other units. -/
theorem Entered.insert {other : UnitId} {registration : DottedName × List Symbol} (told : Entered ledger processed)
    (fresh : ledger.get? other = none) (differs : other ≠ processed.file.path) :
    Entered (ledger.insert other registration) processed := by
  have same : (ledger.insert other registration).get? processed.file.path = ledger.get? processed.file.path := by
    rw [Table.get?_insert, if_neg differs]
  cases told with
  | registered kept entered => exact .registered kept (same.trans entered)
  | refused kept absent clashes =>
    obtain ⟨symbol, member, clash⟩ := clashes
    exact .refused kept (same.trans absent) ⟨symbol, member, Clashes.insert fresh clash⟩
  | givenUp givenUp absent => exact .givenUp givenUp (same.trans absent)

theorem Refines.register (refines : Refines index ledger) (unit : UnitId × String)
    (registered : (SourceUnit.load index unit.1 unit.2).register index = .ok next) :
    Refines next (ledger.insert unit.1 (packageOf unit, declared unit)) := by
  have performed : Call.perform ⟨unit.1, packageOf unit, declared unit⟩ index = (.ok (declared unit).length, next) := by
    rw [register_load] at registered
    rw [Call.perform, Index.enter, registered]
  have owned : Call.IsOwned ⟨unit.1, packageOf unit, declared unit⟩ := declared_owned unit
  rcases refines.perform owned with
    ⟨-, duplicate, refused⟩ | ⟨-, -, entered⟩
  · cases performed.symm.trans refused
  · rw [performed] at entered
    exact entered

theorem Refines.refused_iff (refines : Refines index ledger) (unit : UnitId × String) :
    Refused index unit ↔ ∃ symbol ∈ declared unit, ledger.Clashes unit.1 symbol := by
  have free := refines.duplicate?_eq_none_iff unit.1 (declared unit)
  unfold Refused
  rw [register_load, Index.register]
  cases found : index.duplicate? unit.1 (declared unit) with
  | none =>
    constructor
    · rintro ⟨duplicate, refused⟩
      cases refused
    · rintro ⟨symbol, member, clash⟩
      exact absurd clash (free.mp found symbol member)
  | some duplicate =>
    refine ⟨fun _ => ?_, fun _ => ⟨duplicate, rfl⟩⟩
    by_contra none
    simp only [not_exists, not_and] at none
    rw [free.mpr none] at found
    cases found

/-- One unit that is not yet in the ledger. -/
theorem Mirrors.step (mirrors : Mirrors index results ledger)
    (fresh : ∀ other ∈ results, other.file.path ≠ processed.file.path)
    (step : Step index processed next) : ∃ ledger, Mirrors next (results ++ [processed]) ledger := by
  have absent : ledger.get? processed.file.path = none := by
    cases found : ledger.get? processed.file.path with
    | none => rfl
    | some registration =>
      obtain ⟨other, member, same, -⟩ := mirrors.known _ _ found
      exact absurd same (fresh other member)
  -- In all cases but one the ledger stays as it is.
  have stays : (∀ text, processed.file.text = .ok text → Entered ledger processed) →
      Mirrors index (results ++ [processed]) ledger := by
    intro told
    refine ⟨mirrors.refines, fun unit registration found => ?_, fun other member => ?_⟩
    · obtain ⟨other, member, facts⟩ := mirrors.known unit registration found
      exact ⟨other, List.mem_append_left _ member, facts⟩
    · rcases List.mem_append.mp member with earlier | last
      · exact mirrors.entered other earlier
      · rw [List.mem_singleton.mp last]
        exact told
  cases step with
  | unread unread => exact ⟨ledger, stays fun text read => absurd read (unread text)⟩
  | refused kept refused =>
    have clashes := (Refines.refused_iff mirrors.refines (finalUnit processed)).mp refused
    exact ⟨ledger, stays fun _ _ => .refused kept absent clashes⟩
  | givenUp givenUp => exact ⟨ledger, stays fun _ _ => .givenUp givenUp absent⟩
  | registered kept registered =>
    have refines := Refines.register mirrors.refines (finalUnit processed) registered
    refine ⟨_, refines, fun unit registration found => ?_, fun other member text read => ?_⟩
    · rw [Table.get?_insert] at found
      split at found
      · rename_i same
        cases found
        exact ⟨processed, by simp, same, rfl⟩
      · obtain ⟨other, member, facts⟩ := mirrors.known unit registration found
        exact ⟨other, List.mem_append_left _ member, facts⟩
    · rcases List.mem_append.mp member with earlier | last
      · exact (mirrors.entered other earlier text read).insert absent (fresh other earlier).symm
      · rw [List.mem_singleton.mp last]
        have own : (finalUnit processed).1 = processed.file.path := rfl
        exact .registered kept (by rw [Table.get?_insert, if_pos own])

/-- A run that starts from an index with a ledger ends with one. -/
theorem Mirrors.advance {more : List Run.Processed} (mirrors : Mirrors index results ledger)
    (ran : advance rules index files = .ok (more, last))
    (distinct : ((results ++ more).map fun processed => processed.file.path).Nodup) :
    ∃ ledger, Mirrors last (results ++ more) ledger := by
  induction files generalizing index results ledger more with
  | nil =>
    cases ran
    rw [List.append_nil]
    exact ⟨ledger, mirrors⟩
  | cons file files ih =>
    obtain ⟨processed, next, others, first, advanced, rfl⟩ := advance_cons_iff.mp ran
    have fresh : ∀ other ∈ results, other.file.path ≠ processed.file.path := by
      intro other member same
      rw [List.map_append, List.nodup_append] at distinct
      exact distinct.2.2 _ (List.mem_map_of_mem member) _ (List.mem_map_of_mem (List.mem_cons_self ..)) same
    obtain ⟨entered, step⟩ := mirrors.step fresh (process_step first).2
    rw [List.append_cons] at distinct ⊢
    exact ih step advanced distinct

/-! The ledger and the tables. -/

theorem Refines.holds (refines : Refines index ledger) {unit : UnitId × String}
    (entered : ledger.get? unit.1 = some (packageOf unit, declared unit)) : Holds index unit := by
  refine ⟨?_, fun key => ?_⟩
  · obtain ⟨keys, listed, -⟩ := refines.listed _ _ entered
    exact ⟨keys, listed⟩
  · have others := erase_symbolsAt refines.distinct refines.owned unit.1 key
    have all : (ledger.symbolsAt key).Perm
        (((declared unit).filter fun symbol => Index.key symbol.name = key) ++ Ledger.symbolsAt (ledger.erase unit.1) key) :=
      ((entries_perm refines.distinct entered).map Prod.snd).flatMap_right _
    have own : (((declared unit).filter fun symbol => Index.key symbol.name = key).filter fun symbol => symbol.unit = unit.1) =
        (declared unit).filter fun symbol => Index.key symbol.name = key := by
      refine List.filter_eq_self.mpr fun symbol member => decide_eq_true ?_
      exact declared_owned unit symbol (List.mem_filter.mp member).1
    have foreign : ((Ledger.symbolsAt (ledger.erase unit.1) key).filter fun symbol => symbol.unit = unit.1) = [] := by
      rw [others]
      simp
    refine (((refines.filed key).trans all).filter _).trans (.of_eq ?_)
    rw [List.filter_append, own, foreign, List.append_nil]

theorem Refines.lacks (refines : Refines index ledger) (absent : ledger.get? id = none) : Lacks index id := by
  refine ⟨refines.unlisted id absent, fun key => List.filter_eq_nil_iff.mpr fun symbol member own => ?_⟩
  obtain ⟨owner, registration, found, exported, -⟩ :=
    (mem_symbolsAt refines.distinct).mp ((refines.filed key).subset member)
  have same : owner = id := (refines.owned owner registration found symbol exported).symm.trans (of_decide_eq_true own)
  rw [same, absent] at found
  cases found

theorem mirrors_empty : Mirrors .empty [] .empty where
  refines := refines_empty
  known _ _ found := by cases found
  entered _ member := by cases member

theorem advance_mirrors (ran : advance rules .empty files = .ok (results, index))
    (distinct : (files.map SourceFile.path).Nodup) : ∃ ledger, Mirrors index results ledger := by
  refine mirrors_empty.advance ran ?_
  rw [← advance_files ran, List.map_map] at distinct
  exact distinct

/-- Any run over distinct files, stopped after some of them. It goes on from the
index it has by then. A unit that was given up because of a duplicate is not in the
index. Of all other units that were read the index holds exactly what the text
declares that the run leaves for them, or nothing if that text clashes with the
other units in the index. -/
theorem index_mirrors_units [Storage σ] (run : Run) (storage : σ) (paths : List String) (distinct : paths.Nodup)
    (done rest : List SourceFile) (loaded : run.loadAll storage paths = .ok (done ++ rest))
    (results : List Run.Processed) (index : Index) (ran : advance run.rules .empty done = .ok (results, index)) :
    computed run storage paths = (Run.processAll run.rules index rest).map (results ++ ·) ∧
    ∀ processed ∈ results, ∀ text, processed.file.text = .ok text →
      (GivenUp processed → Lacks index processed.file.path) ∧
      (¬ GivenUp processed → Holds index (finalUnit processed) ∨
        Lacks index processed.file.path ∧ Refused index (finalUnit processed)) := by
  constructor
  · rw [computed, loaded]
    exact processAll_append ran
  · have once := loaded_distinct loaded distinct
    rw [List.map_append] at once
    obtain ⟨ledger, mirrors⟩ := advance_mirrors ran once.of_append_left
    intro processed member text read
    cases mirrors.entered processed member text read with
    | registered kept entered =>
      have holds : Holds index (finalUnit processed) := Refines.holds mirrors.refines entered
      exact ⟨fun givenUp => absurd givenUp kept, fun _ => .inl holds⟩
    | refused kept absent clashes =>
      have refused := (Refines.refused_iff mirrors.refines (finalUnit processed)).mpr clashes
      exact ⟨fun givenUp => absurd givenUp kept, fun _ => .inr ⟨Refines.lacks mirrors.refines absent, refused⟩⟩
    | givenUp givenUp absent =>
      exact ⟨fun _ => Refines.lacks mirrors.refines absent, fun kept => absurd givenUp kept⟩

/-- A rule that adds an object. -/
def objectRule : Rule := .constant "object" [.insertion 0 "object A\n"]

/-- The rule gives the class an object that is there already. The class is left as
it is and is not registered, although nothing stands in the way of that. -/
theorem givenUp_class_lacks :
    ∃ files results index processed,
      Run.loadAll ⟨.default, [objectRule]⟩ (MemoryFiles.ofList [("B", "class B"), ("A", "object A")]) ["B", "A"] = .ok files ∧
      advance [objectRule] .empty files = .ok (results, index) ∧ processed ∈ results ∧
      finalUnit processed = ("B", "class B") ∧ Lacks index "B" ∧ ¬ Refused index ("B", "class B") := by
  have seen : ((Run.loadAll ⟨.default, [objectRule]⟩
      (MemoryFiles.ofList [("B", "class B"), ("A", "object A")]) ["B", "A"]).toOption.bind fun files =>
        (advance [objectRule] .empty files).toOption.bind fun advanced =>
          advanced.1[1]?.map fun processed => (processed.file.path, finalText processed, processed.file.text.toOption.isSome,
            (processed.outcome matches .failed (.duplicate _)),
            ((SourceUnit.load advanced.2 "B" "class B").register advanced.2).toOption.isSome)) =
      some ("B", "class B", true, true, true) := by decide +kernel
  obtain ⟨files, loaded, seen⟩ := Option.bind_eq_some_iff.mp seen
  obtain ⟨⟨results, index⟩, ran, seen⟩ := Option.bind_eq_some_iff.mp seen
  obtain ⟨processed, second, seen⟩ := Option.map_eq_some_iff.mp seen
  simp only [Prod.mk.injEq] at seen
  obtain ⟨path, final, read, isGivenUp, accepted⟩ := seen
  have loaded := toOption_eq_some_iff.mp loaded
  have ran := toOption_eq_some_iff.mp ran
  have member := List.mem_of_getElem? second
  have givenUp : GivenUp processed := by
    split at isGivenUp
    · rename_i duplicate failed
      exact ⟨duplicate, failed⟩
    · cases isGivenUp
  obtain ⟨text, read⟩ := Option.isSome_iff_exists.mp read
  have distinct : ["B", "A"].Nodup := by decide
  have mirrored := index_mirrors_units ⟨.default, [objectRule]⟩ _ _ distinct files [] (by simpa using loaded) results
    index ran
  refine ⟨files, results, index, processed, loaded, ran, member, ?_, ?_, ?_⟩
  · rw [finalUnit, path, final]
  · rw [← path]
    exact (mirrored.2 processed member text (toOption_eq_some_iff.mp read)).1 givenUp
  · rintro ⟨duplicate, refused⟩
    rw [refused] at accepted
    cases accepted

end KindLift.IndexMirror
