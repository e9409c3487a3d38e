import KindLift.Service.Relocation

/-! The index of a program while units are added to it. What a name meant before it
means afterwards too, as far as it is declared by none of the added units. -/
namespace KindLift.IndexGrowth

/-- `later` has the symbols of `earlier`, and behind them some that were added. -/
def Grows (earlier : Index) (added : List Symbol) (later : Index) : Prop :=
  ∀ name, ∃ more, later.lookup name = earlier.lookup name ++ more ∧ ∀ symbol ∈ more, symbol ∈ added

variable {earlier middle later index next : Index} {added more : List Symbol} {symbol : Symbol} {path package : DottedName}
  {unit : UnitId} {imports : List Import} {name : String}

theorem Grows.refl (index : Index) : Grows index [] index := fun _ => ⟨[], (List.append_nil _).symm, by simp⟩

theorem Grows.trans (first : Grows earlier added middle) (second : Grows middle more later) :
    Grows earlier (added ++ more) later := by
  intro name
  obtain ⟨before, same, all⟩ := first name
  obtain ⟨behind, same', all'⟩ := second name
  refine ⟨before ++ behind, by rw [same', same, List.append_assoc], ?_⟩
  intro symbol member
  exact List.mem_append.mpr ((List.mem_append.mp member).imp (all symbol) (all' symbol))

theorem foldl_file (symbols : List Symbol) (entries : Table String (List Symbol)) (key : String) :
    ((symbols.foldl Index.file entries).get? key).getD [] =
      (entries.get? key).getD [] ++ symbols.filter fun symbol => Index.key symbol.name = key := by
  induction symbols generalizing entries with
  | nil => exact (List.append_nil _).symm
  | cons symbol rest ih =>
    rw [List.foldl_cons, ih, Index.file, Table.get?_insert]
    by_cases same : Index.key symbol.name = key
    · have kept : decide (Index.key symbol.name = key) = true := decide_eq_true same
      rw [if_pos same, List.filter_cons, if_pos kept, Option.getD_some, List.append_assoc, same]
      rfl
    · have dropped : ¬ decide (Index.key symbol.name = key) = true := fun kept => same (of_decide_eq_true kept)
      rw [if_neg same, List.filter_cons, if_neg dropped]

/-- A unit that is not registered yet adds its symbols under their keys. -/
theorem register_lookup {symbols : List Symbol} (fresh : index.units.get? unit = none)
    (registered : index.register unit package symbols = .ok next) (name : DottedName) :
    next.lookup name = index.lookup name ++ symbols.filter fun symbol => Index.key symbol.name = Index.key name := by
  unfold Index.register at registered
  split at registered
  · cases registered
  · cases registered
    simp only [Index.withdraw, fresh, Index.enroll, Index.lookup, foldl_file]

theorem register_grows {symbols : List Symbol} (fresh : index.units.get? unit = none)
    (registered : index.register unit package symbols = .ok next) : Grows index symbols next :=
  fun name => ⟨_, register_lookup fresh registered name, fun _ member => (List.mem_filter.mp member).1⟩

theorem register_units {symbols : List Symbol} (fresh : index.units.get? unit = none)
    (registered : index.register unit package symbols = .ok next) {other : UnitId} (differs : other ≠ unit) :
    next.units.get? other = index.units.get? other := by
  unfold Index.register at registered
  split at registered
  · cases registered
  · cases registered
    simp only [Index.withdraw, fresh, Index.enroll, Table.get?_insert, if_neg differs.symm]

/-- The members that the objects at the parent of a path have under its last name. -/
def membersAt (index : Index) (path : DottedName) : List Symbol :=
  match path.parent?, path.last? with
  | some parent, some last =>
    ((index.lookupIn parent .term).filter fun symbol => symbol.kind = .holder).flatMap fun holder =>
      holder.members.filter fun member => member.simpleName = last
  | _, _ => []

theorem lookupPath_found (found : index.lookup path ≠ []) : Scope.lookupPath index path = index.lookup path := by
  unfold Scope.lookupPath
  split
  · exact absurd ‹_› found
  · rfl

theorem lookupPath_members (missing : index.lookup path = []) : Scope.lookupPath index path = membersAt index path := by
  unfold Scope.lookupPath
  rw [missing]
  rfl

theorem Grows.lookup_nil (grows : Grows earlier added later) (missing : later.lookup path = []) :
    earlier.lookup path = [] := by
  obtain ⟨more, same, -⟩ := grows path
  rw [missing] at same
  exact (List.append_eq_nil_iff.mp same.symm).1

/-- A symbol that was found under a path is still there, unless it was added. -/
theorem Grows.mem_lookup (grows : Grows earlier added later) (found : symbol ∈ later.lookup path) :
    symbol ∈ earlier.lookup path ∨ symbol ∈ added := by
  obtain ⟨more, same, all⟩ := grows path
  rw [same] at found
  exact (List.mem_append.mp found).imp_right (all symbol)

theorem mem_membersAt : symbol ∈ membersAt index path ↔ ∃ parent last holder, path.parent? = some parent ∧
    path.last? = some last ∧ holder ∈ index.lookup parent ∧ holder.kind = .holder ∧ symbol ∈ holder.members ∧
    symbol.simpleName = last := by
  unfold membersAt
  constructor
  · intro member
    split at member
    · rename_i parent last isParent isLast
      obtain ⟨holder, listed, inside⟩ := List.mem_flatMap.mp member
      obtain ⟨listed, isHolder⟩ := List.mem_filter.mp listed
      obtain ⟨inside, named⟩ := List.mem_filter.mp inside
      exact ⟨parent, last, holder, isParent, isLast, (List.mem_filter.mp listed).1, of_decide_eq_true isHolder, inside,
        of_decide_eq_true named⟩
    · cases member
  · rintro ⟨parent, last, holder, isParent, isLast, listed, isHolder, inside, named⟩
    rw [isParent, isLast]
    refine List.mem_flatMap.mpr ⟨holder, ?_, List.mem_filter.mpr ⟨inside, decide_eq_true named⟩⟩
    refine List.mem_filter.mpr ⟨List.mem_filter.mpr ⟨listed, ?_⟩, decide_eq_true isHolder⟩
    rw [isHolder]
    rfl

theorem Grows.membersAt (grows : Grows earlier added later) (found : symbol ∈ membersAt earlier path) :
    symbol ∈ membersAt later path := by
  obtain ⟨parent, last, holder, isParent, isLast, listed, facts⟩ := mem_membersAt.mp found
  obtain ⟨more, same, -⟩ := grows parent
  exact mem_membersAt.mpr ⟨parent, last, holder, isParent, isLast, same ▸ List.mem_append_left _ listed, facts⟩

/-- A path that meant something means something later. -/
theorem Grows.lookupPath_nil (grows : Grows earlier added later) (missing : Scope.lookupPath later path = []) :
    Scope.lookupPath earlier path = [] := by
  by_cases found : later.lookup path = []
  · rw [lookupPath_members found] at missing
    rw [lookupPath_members (grows.lookup_nil found), List.eq_nil_iff_forall_not_mem]
    intro symbol member
    have still := grows.membersAt member
    rw [missing] at still
    cases still
  · rw [lookupPath_found found] at missing
    exact absurd missing found

/-- The symbol is neither one that was added nor a member of one. -/
def IsOld (added : List Symbol) (symbol : Symbol) : Prop := ∀ other ∈ added, symbol ≠ other ∧ symbol ∉ other.members

theorem Grows.mem_lookupPath (grows : Grows earlier added later) (old : IsOld added symbol)
    (found : symbol ∈ Scope.lookupPath later path) : symbol ∈ Scope.lookupPath earlier path := by
  by_cases missing : later.lookup path = []
  · rw [lookupPath_members missing] at found
    rw [lookupPath_members (grows.lookup_nil missing)]
    obtain ⟨parent, last, holder, isParent, isLast, listed, isHolder, inside, named⟩ := mem_membersAt.mp found
    refine mem_membersAt.mpr ⟨parent, last, holder, isParent, isLast, ?_, isHolder, inside, named⟩
    exact (grows.mem_lookup listed).resolve_right fun new => (old holder new).2 inside
  · rw [lookupPath_found missing] at found
    have before := (grows.mem_lookup found).resolve_right fun new => (old symbol new).1 rfl
    rw [lookupPath_found (List.ne_nil_of_mem before)]
    exact before

theorem Grows.flatMap_nil (grows : Grows earlier added later) {targets : List DottedName}
    (missing : targets.flatMap (Scope.lookupPath later) = []) : targets.flatMap (Scope.lookupPath earlier) = [] := by
  rw [List.flatMap_eq_nil_iff] at missing ⊢
  exact fun target member => grows.lookupPath_nil (missing target member)

theorem Grows.mem_flatMap (grows : Grows earlier added later) (old : IsOld added symbol) {targets : List DottedName}
    (found : symbol ∈ targets.flatMap (Scope.lookupPath later)) :
    symbol ∈ targets.flatMap (Scope.lookupPath earlier) := by
  obtain ⟨target, member, found⟩ := List.mem_flatMap.mp found
  exact List.mem_flatMap.mpr ⟨target, member, grows.mem_lookupPath old found⟩

/-- What a name may mean. -/
def meanings (index : Index) (unit : UnitId) (package : DottedName) (imports : List Import) (name : String) :
    List Symbol :=
  ((Scope.bind? index unit package imports name).map Binding.candidates).getD []

theorem meanings_eq (index : Index) (unit : UnitId) (package : DottedName) (imports : List Import) (name : String) :
    meanings index unit package imports name =
      if (Scope.explicitTargets imports name).flatMap (Scope.lookupPath index) ≠ [] then
        (Scope.explicitTargets imports name).flatMap (Scope.lookupPath index)
      else if (Scope.wildcardTargets imports name).flatMap (Scope.lookupPath index) ≠ [] then
        (Scope.wildcardTargets imports name).flatMap (Scope.lookupPath index)
      else (index.lookup (package.child name)).filter fun symbol => symbol.unit ≠ unit := by
  unfold meanings Scope.bind?
  split
  · rename_i explicit
    rw [explicit, if_neg (fun nonempty => nonempty rfl)]
    split
    · rename_i wildcard
      rw [wildcard, if_neg (fun nonempty => nonempty rfl)]
      split
      · rename_i own
        rw [own]
        rfl
      · rfl
    · rename_i nonempty
      rw [if_pos nonempty]
      rfl
  · rename_i nonempty
    rw [if_pos nonempty]
    rfl

/-- What a name means it meant before, unless that was added. -/
theorem Grows.mem_meanings (grows : Grows earlier added later) (old : IsOld added symbol)
    (found : symbol ∈ meanings later unit package imports name) : symbol ∈ meanings earlier unit package imports name := by
  rw [meanings_eq] at found ⊢
  split at found
  · have before := grows.mem_flatMap old found
    rw [if_pos (List.ne_nil_of_mem before)]
    exact before
  · rename_i explicit
    rw [grows.flatMap_nil (Decidable.not_not.mp explicit), if_neg (fun nonempty => nonempty rfl)]
    split at found
    · have before := grows.mem_flatMap old found
      rw [if_pos (List.ne_nil_of_mem before)]
      exact before
    · rename_i wildcard
      rw [grows.flatMap_nil (Decidable.not_not.mp wildcard), if_neg (fun nonempty => nonempty rfl)]
      obtain ⟨listed, foreign⟩ := List.mem_filter.mp found
      refine List.mem_filter.mpr ⟨?_, foreign⟩
      exact (grows.mem_lookup listed).resolve_right fun new => (old symbol new).1 rfl

/-- The symbol is declared under the name of the service. -/
def Names (target : Relocated) (symbol : Symbol) : Prop :=
  symbol.parent = target.package ∧ symbol.simpleName = target.name

/-- The symbols show that a service has been relocated. -/
def Shows (symbols : List Symbol) (target : Relocated) : Prop :=
  (∃ symbol ∈ symbols, Names target symbol ∧ symbol.kind = .interface ∧ symbol.typeParams.isEmpty = true) ∧
    ∃ symbol ∈ symbols, Names target symbol ∧ symbol.kind = .holder ∧
      (symbol.member? target.name .interface).any Symbol.isHigherKindedInterface = true

/-- None of the added symbols and none of their members is declared under the name
of the service. -/
def Undeclared (added : List Symbol) (target : Relocated) : Prop :=
  ∀ symbol ∈ added, ∀ found ∈ symbol :: symbol.members, ¬ Names target found

variable {target : Relocated} {source : SourceUnit} {scope : Scope} {symbols : List Symbol}

theorem Undeclared.isOld (undeclared : Undeclared added target) (names : Names target symbol) : IsOld added symbol := by
  intro other new
  refine ⟨?_, fun inside => ?_⟩
  · rintro rfl
    exact undeclared symbol new symbol (List.mem_cons_self ..) names
  · exact undeclared other new symbol (List.mem_cons_of_mem _ inside) names

theorem Grows.shows (grows : Grows earlier added later) (undeclared : Undeclared added target)
    (shown : Shows (meanings later unit package imports name) target) :
    Shows (meanings earlier unit package imports name) target := by
  obtain ⟨⟨interface, listed, names, facts⟩, holder, listed', names', facts'⟩ := shown
  exact ⟨⟨interface, grows.mem_meanings (undeclared.isOld names) listed, names, facts⟩,
    holder, grows.mem_meanings (undeclared.isOld names') listed', names', facts'⟩

theorem isRelocated_iff : Relocated.isRelocated ((symbols.filter fun symbol => symbol.simpleName = target.name).filter
    fun symbol => symbol.parent = target.package) target.name = true ↔ Shows symbols target := by
  simp only [Relocated.isRelocated, Shows, Names, Bool.and_eq_true, List.any_eq_true, List.mem_filter, decide_eq_true_eq]
  constructor
  · rintro ⟨⟨interface, ⟨⟨listed, named⟩, inside⟩, facts⟩, holder, ⟨⟨listed', named'⟩, inside'⟩, facts'⟩
    exact ⟨⟨interface, listed, ⟨inside, named⟩, facts⟩, holder, listed', ⟨inside', named'⟩, facts'⟩
  · rintro ⟨⟨interface, listed, ⟨inside, named⟩, facts⟩, holder, listed', ⟨inside', named'⟩, facts'⟩
    exact ⟨⟨interface, ⟨⟨listed, named⟩, inside⟩, facts⟩, holder, ⟨⟨listed', named'⟩, inside'⟩, facts'⟩

theorem mem_eraseReps_loop [BEq α] [LawfulBEq α] {item first : α} {items taken : List α} :
    item ∈ List.eraseRepsBy.loop (· == ·) first items taken ↔ item ∈ first :: items ∨ item ∈ taken := by
  induction items generalizing first taken with
  | nil => simp [List.eraseRepsBy.loop, or_comm]
  | cons second items ih =>
    rw [List.eraseRepsBy.loop]
    split
    · rename_i same
      have equal : first = second := eq_of_beq same
      simp [ih, equal]
    · rw [ih]
      grind

/-- Repetitions next to each other are dropped, and no member is lost. -/
theorem mem_eraseReps [BEq α] [LawfulBEq α] {item : α} {items : List α} : item ∈ items.eraseReps ↔ item ∈ items := by
  cases items with
  | nil => exact Iff.rfl
  | cons first rest => exact mem_eraseReps_loop.trans (or_iff_left List.not_mem_nil)

/-- A name that is resolved means a service that its candidates show. -/
theorem resolve_shows (inScope : source.scope = .ok scope) (resolved : Relocated.resolve source name = .ok (some target)) :
    target.name = name ∧ Shows (scope.candidates name) target := by
  unfold Relocated.resolve SourceUnit.scopeOf at resolved
  rw [inScope] at resolved
  simp only [bind, Except.bind] at resolved
  split at resolved
  · cases resolved
  · rename_i only single
    cases resolved
    have member := List.mem_singleton.mpr (rfl : only = only)
    rw [← single] at member
    exact ⟨rfl, isRelocated_iff.mp (List.mem_filter.mp member).2⟩
  · cases resolved

/-- A name whose candidates show a service is not taken for anything else. -/
theorem resolve_ne_none (inScope : source.scope = .ok scope) (shown : Shows (scope.candidates target.name) target) :
    Relocated.resolve source target.name ≠ .ok none := by
  intro resolved
  unfold Relocated.resolve SourceUnit.scopeOf at resolved
  rw [inScope] at resolved
  simp only [bind, Except.bind] at resolved
  split at resolved
  · rename_i empty
    rw [List.filter_eq_nil_iff] at empty
    refine empty target.package ?_ (isRelocated_iff.mpr shown)
    obtain ⟨⟨interface, listed, ⟨inside, named⟩, -⟩, -⟩ := shown
    refine mem_eraseReps.mpr (List.mem_mergeSort.mpr (List.mem_map.mpr ⟨interface, ?_, inside⟩))
    exact List.mem_filter.mpr ⟨listed, decide_eq_true named⟩
  · cases resolved
  · cases resolved

/-- A reference that is bound stays bound, and any other reference is bound to what
it may mean. -/
theorem foldl_bindRef (locals names : List String) (bindings : Table String Binding) (probe : String) :
    (names.foldl (Scope.bindRef index unit package imports locals) bindings).get? probe =
      if (bindings.get? probe).isSome then bindings.get? probe
      else if probe ∈ names ∧ probe ∉ locals then Scope.bind? index unit package imports probe
      else none := by
  induction names generalizing bindings with
  | nil =>
    rw [List.foldl_nil]
    cases bindings.get? probe <;> simp
  | cons name names ih =>
    rw [List.foldl_cons, ih, Scope.bindRef, Table.contains]
    by_cases same : name = probe
    · subst same
      by_cases isLocal : name ∈ locals
      · simp [isLocal]
      · cases known : bindings.get? name with
        | some binding => simp [known]
        | none =>
          cases found : Scope.bind? index unit package imports name with
          | none => simp [isLocal, known]
          | some binding => simp [isLocal]
    · split
      · simp [Ne.symm same]
      · split
        · simp [Ne.symm same, same]
        · simp [Ne.symm same]

/-- The candidates of a name that the unit refers to and does not declare. -/
theorem candidates_eq {outline : Outline} (resolved : Scope.resolve index unit outline = .ok scope)
    (refers : name ∈ outline.typeRefs.map TypeRef.name) (foreign : scope.isLocal name = false) :
    scope.candidates name = meanings index unit outline.packageName outline.imports name := by
  unfold Scope.resolve at resolved
  split at resolved
  · cases resolved
  · cases resolved
    have unbound : ((Table.empty : Table String Binding).get? name).isSome = false := rfl
    have undeclared : name ∉ outline.decls.filterMap Decl.name? := fun declared => by
      simp [Scope.isLocal, declared] at foreign
    have bound := @foldl_bindRef index outline.packageName unit outline.imports (outline.decls.filterMap Decl.name?)
      (outline.typeRefs.map TypeRef.name) .empty name
    rw [unbound, if_neg Bool.false_ne_true, if_pos ⟨refers, undeclared⟩] at bound
    simp only [Scope.candidates, meanings]
    rw [bound]
    cases Scope.bind? index unit outline.packageName outline.imports name <;> rfl

end KindLift.IndexGrowth
