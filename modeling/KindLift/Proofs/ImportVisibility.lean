import KindLift.SourceUnit

/-! Which imports make a name visible. The rule that adds imports asks each clause, and the
resolution of names asks for the targets of all clauses. Both read named selectors alike.
They part at a clause that hides a name from its own wildcard: resolution does not look the
name up there, and the clause still counts as an import of it. -/
namespace KindLift.ImportVisibility

variable {imports : List Import} {clause : Import} {path target : DottedName} {name : String} {selector : Selector}

/-- A named selector of the clause makes its member `name` visible under that name. -/
def Names (clause : Import) (name : String) : Prop := ∃ rename, .named name rename ∈ clause.selectors ∧ rename.getD name = name

/-- The clause makes `name` visible as a member of `path`. -/
def Shows (clause : Import) (path : DottedName) (name : String) : Prop :=
  clause.path = path ∧ (Names clause name ∨ clause.isWildcard = true ∧ Scope.hides clause name = false)

/-- The clause has a wildcard for the members of `path`, and hides `name` from it. -/
def Hides (clause : Import) (path : DottedName) (name : String) : Prop :=
  clause.path = path ∧ clause.isWildcard = true ∧ Scope.hides clause name = true

/-- Resolution looks the target up for the name. -/
def LooksUp (imports : List Import) (name : String) (target : DottedName) : Prop :=
  target ∈ Scope.explicitTargets imports name ∨ target ∈ Scope.wildcardTargets imports name

/-- The name is bound through an import. -/
def BoundByImport (binding : Binding) : Prop := binding.origin ≠ .package

/-! ### Resolution -/

theorem mem_explicitTargets (proper : name ≠ "_") :
    path.child name ∈ Scope.explicitTargets imports name ↔ ∃ clause ∈ imports, clause.path = path ∧ Names clause name := by
  simp only [Scope.explicitTargets, List.mem_flatMap, List.mem_filterMap]
  refine exists_congr fun clause => and_congr_right fun _ => ?_
  constructor
  · rintro ⟨selector, member, selects⟩
    split at selects
    · rename_i other rename
      split at selects
      · rename_i visible
        rw [Option.some.injEq] at selects
        have same := congrArg DottedName.last? selects
        have inside := congrArg DottedName.parent? selects
        simp only [DottedName.last?_child, DottedName.parent?_child, Option.some.injEq] at same inside
        subst same
        simp only [Bool.and_eq_true, decide_eq_true_eq] at visible
        exact ⟨inside, rename, member, visible.1⟩
      · cases selects
    · cases selects
  · rintro ⟨rfl, rename, member, visible⟩
    refine ⟨_, member, ?_⟩
    dsimp only
    rw [visible, if_pos (by simp [proper])]

theorem mem_wildcardTargets : path.child name ∈ Scope.wildcardTargets imports name ↔
    ∃ clause ∈ imports, clause.path = path ∧ clause.isWildcard = true ∧ Scope.hides clause name = false := by
  simp only [Scope.wildcardTargets, List.mem_map, List.mem_filter, Bool.and_eq_true, Bool.not_eq_true']
  constructor
  · rintro ⟨clause, ⟨listed, shown⟩, same⟩
    have inside := congrArg DottedName.parent? same
    simp only [DottedName.parent?_child, Option.some.injEq] at inside
    exact ⟨clause, listed, inside, shown⟩
  · rintro ⟨clause, listed, rfl, shown⟩
    exact ⟨clause, ⟨listed, shown⟩, rfl⟩

/-- A path is looked up when some clause shows it. -/
theorem looksUp_iff (proper : name ≠ "_") : LooksUp imports name (path.child name) ↔ ∃ clause ∈ imports, Shows clause path name := by
  rw [LooksUp, mem_explicitTargets proper, mem_wildcardTargets]
  constructor
  · rintro (⟨clause, listed, inside, named⟩ | ⟨clause, listed, inside, shown⟩)
    · exact ⟨clause, listed, inside, .inl named⟩
    · exact ⟨clause, listed, inside, .inr shown⟩
  · rintro ⟨clause, listed, inside, named | shown⟩
    · exact .inl ⟨clause, listed, inside, named⟩
    · exact .inr ⟨clause, listed, inside, shown⟩

theorem found_iff {index : Index} {targets : List DottedName} :
    targets.flatMap (Scope.lookupPath index) ≠ [] ↔ ∃ target ∈ targets, Scope.lookupPath index target ≠ [] := by
  simp [List.flatMap_eq_nil_iff]

/-- An import binds a name when something is found at one of the paths that are looked up. -/
theorem bound_iff (index : Index) (unit : UnitId) (package : DottedName) :
    (∃ binding ∈ Scope.bind? index unit package imports name, BoundByImport binding) ↔
      ∃ target, LooksUp imports name target ∧ Scope.lookupPath index target ≠ [] := by
  unfold Scope.bind?
  constructor
  · rintro ⟨binding, bound, origin⟩
    split at bound
    · rename_i unnamed
      split at bound
      · split at bound
        · cases bound
        · cases bound
          exact absurd rfl origin
      · rename_i found
        obtain ⟨target, listed, filled⟩ := found_iff.mp found
        exact ⟨target, .inr listed, filled⟩
    · rename_i found
      obtain ⟨target, listed, filled⟩ := found_iff.mp found
      exact ⟨target, .inl listed, filled⟩
  · rintro ⟨target, looked, filled⟩
    split
    · rename_i unnamed
      split
      · rename_i unshown
        rcases looked with named | shown
        · exact absurd unnamed (found_iff.mpr ⟨target, named, filled⟩)
        · exact absurd unshown (found_iff.mpr ⟨target, shown, filled⟩)
      · exact ⟨_, rfl, nofun⟩
    · exact ⟨_, rfl, nofun⟩

/-! ### Clauses -/

theorem any_selects_iff : clause.selectors.any (Import.selects name) = true ↔ clause.isWildcard = true ∨ Names clause name := by
  rw [List.any_eq_true, Import.isWildcard, List.contains_iff_mem]
  constructor
  · rintro ⟨selector, member, selects⟩
    cases selector with
    | wildcard => exact .inl member
    | named other rename =>
      simp only [Import.selects, Bool.and_eq_true, decide_eq_true_eq] at selects
      obtain ⟨rfl, visible⟩ := selects
      refine .inr ⟨rename, member, ?_⟩
      cases rename with
      | none => rfl
      | some new => simpa using visible
  · rintro (wildcard | ⟨rename, member, visible⟩)
    · exact ⟨_, wildcard, rfl⟩
    · refine ⟨_, member, ?_⟩
      cases rename with
      | none => simp [Import.selects]
      | some new => simpa [Import.selects] using visible

theorem imports_iff : clause.imports (path.child name) = true ↔ Shows clause path name ∨ Hides clause path name := by
  rw [Import.imports, DottedName.parent?_child, DottedName.last?_child]
  simp only [Bool.and_eq_true, decide_eq_true_eq, any_selects_iff, Shows, Hides]
  cases Scope.hides clause name <;> grind

/-- A name is looked up at a path when some clause shows it there, and is bound by an import
when one of the paths that are looked up has something. Some clause counts as an import of
the path exactly when the path is looked up, or when a clause hides the name from its own
wildcard. -/
theorem imports_iff_looksUp (imports : List Import) (path : DottedName) (name : String) (proper : name ≠ "_") :
    (LooksUp imports name (path.child name) ↔ ∃ clause ∈ imports, Shows clause path name) ∧
    (∀ index unit package, (∃ binding ∈ Scope.bind? index unit package imports name, BoundByImport binding) ↔
      ∃ target, LooksUp imports name target ∧ Scope.lookupPath index target ≠ []) ∧
    ((∃ clause ∈ imports, clause.imports (path.child name) = true) ↔
      LooksUp imports name (path.child name) ∨ ∃ clause ∈ imports, Hides clause path name) := by
  refine ⟨looksUp_iff proper, bound_iff, ?_⟩
  rw [looksUp_iff proper]
  simp only [imports_iff]
  grind

/-- The import of `text`, as it is read. -/
def importsOf (text : String) : List Import :=
  (Outline.parse text.toList).toOption.elim [] Outline.imports

/-- A name that is hidden, and one that is imported under another name and through a wildcard. -/
def hidingImports : List Import := importsOf "import cats.data.\x7bReaderT => _, _\x7d, cats.\x7b~> => Arrow, _\x7d"

/-- The hidden name counts as imported and is not looked up. -/
theorem hidingImports_part : "ReaderT" ≠ "_" ∧ (∃ clause ∈ hidingImports, clause.imports ⟨["cats", "data", "ReaderT"]⟩ = true) ∧
    ¬ LooksUp hidingImports "ReaderT" ⟨["cats", "data", "ReaderT"]⟩ ∧ LooksUp hidingImports "~>" ⟨["cats", "~>"]⟩ ∧
    ∃ clause ∈ hidingImports, clause.imports ⟨["cats", "~>"]⟩ = true := by
  have hidden := (imports_iff_looksUp hidingImports ⟨["cats", "data"]⟩ "ReaderT" (by decide)).2.2
  have shown := imports_iff_looksUp hidingImports ⟨["cats"]⟩ "~>" (by decide)
  have unseen : ¬ LooksUp hidingImports "ReaderT" ⟨["cats", "data", "ReaderT"]⟩ := by
    unfold LooksUp
    decide +kernel
  have seen : LooksUp hidingImports "~>" ⟨["cats", "~>"]⟩ := by
    unfold LooksUp
    decide +kernel
  have hides : ∃ clause ∈ hidingImports, Hides clause ⟨["cats", "data"]⟩ "ReaderT" := by
    unfold Hides
    decide +kernel
  exact ⟨by decide, hidden.mpr (.inr hides), unseen, seen, shown.2.2.mpr (.inl seen)⟩

end KindLift.ImportVisibility
