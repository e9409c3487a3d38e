import KindLift.Proofs.ResolutionOrder

/-! What a look-up finds. Symbols are filed under their segments with slashes between them, and
a segment may hold slashes of its own: a name that is read in back quotes, or an operator. Two
names have one key exactly when they are the same once every segment is cut at its slashes, and
so a look-up, or a registration, can meet a symbol of another name. It never does among names
without slashes. -/
namespace KindLift.ExactLookups
open IndexRefinement IndexMirror MigrationCompleteness ResolutionOrder

variable {index : Index} {units : List (UnitId × String)} {symbol : Symbol} {symbols : List Symbol} {unit : UnitId}
  {duplicate : DuplicateSymbol} {first second name : DottedName}

/-- The segments of a name, cut at their slashes. -/
def pieces (name : DottedName) : List (List Char) :=
  match name.segments with
  | [] => [[]]
  | segments => segments.flatMap fun segment => segment.toList.splitOn '/'

/-- No other name like this one has its key: no segment holds a slash, and the name is not a
single empty segment, whose key is that of the root. -/
def Plain (name : DottedName) : Prop := Slashless name ∧ name.segments ≠ [""]

instance (name : DottedName) : Decidable (Plain name) := inferInstanceAs (Decidable (_ ∧ _))

/-- Loads a unit and registers what it exports. An index that refuses the unit stays as it is. -/
def registerLoaded (index : Index) (unit : UnitId × String) : Except DuplicateSymbol Nat × Index :=
  let loaded := SourceUnit.load index unit.1 unit.2
  index.enter loaded.id loaded.packageName loaded.exportedSymbols

/-- The index after the registrations, the first on an empty index. -/
def registered (units : List (UnitId × String)) : Index := units.foldl (fun index unit => (registerLoaded index unit).2) .empty

/-- The call that registers a unit. -/
def callOf (unit : UnitId × String) : Call := ⟨unit.1, packageOf unit, declared unit⟩

/-- What the units have registered last. -/
def ledgerOf (units : List (UnitId × String)) : Ledger := (performAll (units.map callOf)).2

/-- The symbol is one that the unit has registered last. -/
def Holds (units : List (UnitId × String)) (unit : UnitId) (symbol : Symbol) : Prop :=
  ∃ registration, (ledgerOf units).get? unit = some registration ∧ symbol ∈ registration.2

/-! ### Keys -/

theorem splitOn_intercalate (texts : List (List Char)) (filled : texts ≠ []) :
    (['/'].intercalate texts).splitOn '/' = texts.flatMap (List.splitOn '/') := by
  induction texts with
  | nil => exact absurd rfl filled
  | cons text texts ih =>
    cases texts with
    | nil => simp
    | cons second texts =>
      rw [List.intercalate_cons_cons, List.append_assoc, List.singleton_append, List.splitOn_append_cons_self,
        ih (List.cons_ne_nil _ _)]
      rfl

theorem splitOn_pieces (name : DottedName) : (Index.key name).toList.splitOn '/' = pieces name := by
  obtain ⟨segments⟩ := name
  rw [Index.key, DottedName.join, String.toList_intercalate]
  cases segments with
  | nil => rfl
  | cons segment segments =>
    have cut := splitOn_intercalate ((segment :: segments).map String.toList) (by simp)
    rw [List.flatMap_map] at cut
    exact cut

/-- Two names share a key when they are cut into the same pieces. -/
theorem key_eq_iff : Index.key first = Index.key second ↔ pieces first = pieces second := by
  constructor
  · intro same
    rw [← splitOn_pieces, same, splitOn_pieces]
  · intro same
    have joined : ∀ name, (Index.key name).toList = ['/'].intercalate (pieces name) := fun name => by
      rw [← splitOn_pieces, List.intercalate_splitOn]
    rw [← String.toList_inj, joined, joined, same]

theorem pieces_slashless (slashless : Slashless name) (proper : name.segments ≠ []) : pieces name = name.segments.map String.toList := by
  rw [← splitOn_pieces, splitOn_key slashless proper]

theorem Plain.eq_of_pieces (plain : Plain first) (plain' : Plain second) (same : pieces first = pieces second) : first = second := by
  -- The root is cut into one empty piece, which no other plain name is.
  have root : ∀ {name}, Plain name → pieces name = [[]] → name.segments = [] := by
    intro name plain cut
    by_contra proper
    rw [pieces_slashless plain.1 proper] at cut
    obtain ⟨segment, single, empty⟩ := List.map_eq_singleton_iff.mp cut
    exact plain.2 (by rw [single, String.toList_eq_nil_iff.mp empty])
  by_cases empty : first.segments = []
  · have alone : pieces first = [[]] := by rw [pieces, empty]
    exact segments_inj (empty.trans (root plain' (same ▸ alone)).symm)
  by_cases empty' : second.segments = []
  · have alone : pieces second = [[]] := by rw [pieces, empty']
    exact absurd (root plain (same ▸ alone)) empty
  rw [pieces_slashless plain.1 empty, pieces_slashless plain'.1 empty'] at same
  exact segments_inj (List.map_injective_iff.mpr (fun _ _ => String.toList_inj.mp) same)

/-! ### Registrations -/

theorem registerLoaded_eq (index : Index) (unit : UnitId × String) : registerLoaded index unit = (callOf unit).perform index := by
  obtain ⟨id, text⟩ := unit
  show index.enter (SourceUnit.load index id text).id (SourceUnit.load index id text).packageName
    (SourceUnit.load index id text).exportedSymbols = _
  rw [load_id, packageName_load, exportedSymbols_load]
  rfl

theorem registered_eq (units : List (UnitId × String)) : registered units = (performAll (units.map callOf)).1 := by
  have along : ∀ state : Index × Ledger, units.foldl (fun index unit => (registerLoaded index unit).2) state.1 =
      ((units.map callOf).foldl step state).1 := by
    induction units with
    | nil => exact fun _ => rfl
    | cons unit units ih =>
      intro state
      rw [List.foldl_cons, List.map_cons, List.foldl_cons, registerLoaded_eq]
      exact ih (step state (callOf unit))
  exact along (.empty, .empty)

theorem refines_registered (units : List (UnitId × String)) : Refines (registered units) (ledgerOf units) := by
  rw [registered_eq]
  refine foldl_refines refines_empty fun call member => ?_
  obtain ⟨unit, -, rfl⟩ := List.mem_map.mp member
  exact declared_owned unit

theorem mem_lookup_iff : symbol ∈ (registered units).lookup name ↔ (∃ unit, Holds units unit symbol) ∧ pieces symbol.name = pieces name := by
  have refines := refines_registered units
  rw [Index.lookup, (refines.filed _).mem_iff, mem_symbolsAt refines.distinct]
  simp only [key_eq_iff, Holds]
  constructor
  · rintro ⟨unit, registration, entered, listed, same⟩
    exact ⟨⟨unit, registration, entered, listed⟩, same⟩
  · rintro ⟨⟨unit, registration, entered, listed⟩, same⟩
    exact ⟨unit, registration, entered, listed, same⟩

theorem Holds.owned (held : Holds units unit symbol) : symbol.unit = unit := by
  obtain ⟨registration, entered, listed⟩ := held
  exact (refines_registered units).owned unit registration entered symbol listed

/-- A duplicate names a symbol of the unit, and a unit with a symbol that is in its place. -/
theorem duplicate?_some (found : index.duplicate? unit symbols = some duplicate) :
    (∃ symbol ∈ symbols, symbol.name = duplicate.name ∧ symbol.kind.inhabits = duplicate.space) ∧
      ∃ rival ∈ index.lookup duplicate.name, rival.unit = duplicate.existing ∧ rival.unit ≠ unit ∧ rival.kind.inhabits = duplicate.space := by
  obtain ⟨symbol, member, clashes⟩ := List.exists_of_findSome?_eq_some found
  obtain ⟨rival, taken, rfl⟩ := Option.map_eq_some_iff.mp clashes
  have differs := List.find?_some taken
  simp only [Bool.and_eq_true, decide_eq_true_eq] at differs
  exact ⟨⟨symbol, member, rfl, rfl⟩, rival, List.mem_of_find?_eq_some taken, rfl, differs⟩

theorem registerLoaded_error {unit : UnitId × String} (refused : (registerLoaded index unit).1 = .error duplicate) :
    index.duplicate? unit.1 (declared unit) = some duplicate := by
  rw [registerLoaded_eq] at refused
  unfold Call.perform Index.enter Index.register at refused
  cases found : index.duplicate? (callOf unit).unit (callOf unit).symbols with
  | none =>
    rw [found] at refused
    cases refused
  | some other =>
    rw [found] at refused
    cases refused
    exact found

/-- Units are loaded and registered, whatever their texts, with whatever ids, in whatever order.
A look-up finds the symbols that were registered last and are cut into the same pieces as the
name, which is the name itself among plain names. A unit is refused only for a symbol of the
same pieces and namespace that another unit holds, and again these are symbols of one name if
both are plain. -/
theorem lookups_exact (units : List (UnitId × String)) :
    (∀ name symbol, symbol ∈ (registered units).lookup name ↔ (∃ unit, Holds units unit symbol) ∧ pieces symbol.name = pieces name) ∧
    (∀ name, Plain name → ∀ symbol ∈ (registered units).lookup name, symbol.name = name ↔ Plain symbol.name) ∧
    ∀ unit duplicate, (registerLoaded (registered units) unit).1 = .error duplicate →
      (∃ symbol ∈ declared unit, symbol.name = duplicate.name ∧ symbol.kind.inhabits = duplicate.space) ∧
      ∃ rival, Holds units duplicate.existing rival ∧ duplicate.existing ≠ unit.1 ∧ rival.kind.inhabits = duplicate.space ∧
        pieces rival.name = pieces duplicate.name ∧ (Plain duplicate.name → (rival.name = duplicate.name ↔ Plain rival.name)) := by
  have exact_iff : ∀ {name symbol}, Plain name → pieces (Symbol.name symbol) = pieces name → (symbol.name = name ↔ Plain symbol.name) :=
    fun plain same => ⟨fun named => named ▸ plain, fun plain' => plain'.eq_of_pieces plain same⟩
  refine ⟨fun _ _ => mem_lookup_iff, fun name plain symbol found => exact_iff plain (mem_lookup_iff.mp found).2, ?_⟩
  intro unit duplicate refused
  obtain ⟨offered, rival, found, owner, differs, space⟩ := duplicate?_some (registerLoaded_error refused)
  obtain ⟨⟨holder, held⟩, same⟩ := mem_lookup_iff.mp found
  obtain rfl : holder = duplicate.existing := held.owned.symm.trans owner
  exact ⟨offered, rival, held, owner ▸ differs, space, same, fun plain => exact_iff plain same⟩

/-- A class of package `a`, a unit with the same class, and one with an operator. -/
def namedUnits : List (UnitId × String) := [("A", "package a\nclass b"), ("B", "package c\nobject /\nclass b")]

/-- A unit that declares the class a second time. -/
def secondUnit : UnitId × String := ("C", "package a\ntrait b")

/-- The class is found under its name alone, and is what the second unit is refused for. -/
theorem namedUnits_exact : Plain ⟨["a", "b"]⟩ ∧ (∃ symbol ∈ (registered namedUnits).lookup ⟨["a", "b"]⟩, symbol.name = ⟨["a", "b"]⟩) ∧
    ∃ rival, Holds namedUnits "A" rival ∧ (rival.name = ⟨["a", "b"]⟩ ↔ Plain rival.name) := by
  obtain ⟨-, named, refusals⟩ := lookups_exact namedUnits
  have plain : Plain ⟨["a", "b"]⟩ := by decide
  have facts : ((registered namedUnits).lookup ⟨["a", "b"]⟩).map Symbol.name = [⟨["a", "b"]⟩] := by decide +kernel
  have refused : (registerLoaded (registered namedUnits) secondUnit).1 = .error ⟨⟨["a", "b"]⟩, .type, "A"⟩ := by decide +kernel
  obtain ⟨symbol, found, name⟩ := List.mem_map.mp (facts ▸ List.mem_singleton_self _)
  obtain ⟨-, rival, held, -, -, -, same⟩ := refusals secondUnit _ refused
  exact ⟨plain, ⟨symbol, found, (named _ plain symbol found).mpr (name ▸ plain)⟩, rival, held, same plain⟩

end KindLift.ExactLookups
