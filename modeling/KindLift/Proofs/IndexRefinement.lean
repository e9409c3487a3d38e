import KindLift.Proofs.IndexGrowth
import Mathlib.Data.List.Nodup
import Mathlib.Data.List.Perm.Basic

/-! The index of a program as a map from units to what they registered last. Its
three tables are kept by hand: symbols are filed under their keys, keys are listed
by unit, and units are counted by package. Whatever units are registered, in
whatever order, the tables say the same as the map. -/
namespace KindLift.IndexRefinement

section Tables
variable {α β : Type} [DecidableEq α] {entries : List (α × β)} {table : Table α β} {key : α} {value : β}

/-- In a table without repeated keys an entry takes the place of the one with its
key. -/
theorem put_perm (distinct : (entries.map Prod.fst).Nodup) :
    (Table.put entries key value).Perm ((key, value) :: entries.filter fun entry => entry.1 ≠ key) := by
  induction entries with
  | nil => exact .refl _
  | cons entry rest ih =>
    obtain ⟨k, v⟩ := entry
    rw [List.map_cons, List.nodup_cons] at distinct
    by_cases same : k = key
    · subst same
      have others : (rest.filter fun entry => entry.1 ≠ k) = rest := by
        refine List.filter_eq_self.mpr fun entry member => decide_eq_true fun clash => ?_
        exact distinct.1 (List.mem_map.mpr ⟨entry, member, clash⟩)
      rw [Table.put, if_pos rfl, List.filter_cons, others]
      simp
    · simp only [Table.put, if_neg same, List.filter_cons, decide_eq_true (show (k, v).1 ≠ key from same), if_true]
      exact ((ih distinct.2).cons (k, v)).trans (.swap ..)

theorem find_eq_some_iff (distinct : (entries.map Prod.fst).Nodup) :
    Table.find entries key = some value ↔ (key, value) ∈ entries := by
  induction entries with
  | nil => simp [Table.find]
  | cons entry rest ih =>
    obtain ⟨k, v⟩ := entry
    rw [List.map_cons, List.nodup_cons] at distinct
    by_cases same : k = key
    · subst same
      have alone : (k, value) ∉ rest := fun member => distinct.1 (List.mem_map.mpr ⟨_, member, rfl⟩)
      simp [Table.find, alone, eq_comm]
    · simp [Table.find, same, Ne.symm same, ih distinct.2]

theorem get?_eq_some_iff (distinct : table.keys.Nodup) : table.get? key = some value ↔ (key, value) ∈ table.entries :=
  find_eq_some_iff distinct

theorem insert_perm (distinct : table.keys.Nodup) :
    (table.insert key value).entries.Perm ((key, value) :: (table.erase key).entries) :=
  put_perm distinct

theorem put_found (found : Table.find entries key = some value) : Table.put entries key value = entries := by
  induction entries with
  | nil => cases found
  | cons entry rest ih =>
    obtain ⟨k, v⟩ := entry
    by_cases same : k = key
    · simp_all [Table.find, Table.put]
    · simp_all [Table.find, Table.put]

/-- The entry of a key and the entries of the other keys. -/
theorem entries_perm (distinct : table.keys.Nodup) (found : table.get? key = some value) :
    table.entries.Perm ((key, value) :: (table.erase key).entries) := by
  have same : (table.insert key value).entries = table.entries := put_found found
  rw [← same]
  exact insert_perm distinct

theorem erase_absent (distinct : table.keys.Nodup) (absent : table.get? key = none) : table.erase key = table := by
  refine congrArg Table.mk (List.filter_eq_self.mpr fun entry member => decide_eq_true fun same => ?_)
  have found := (get?_eq_some_iff distinct).mpr (show (key, entry.2) ∈ table.entries from same ▸ member)
  rw [absent] at found
  cases found

theorem erase_distinct (distinct : table.keys.Nodup) : (table.erase key).keys.Nodup :=
  distinct.sublist (List.filter_sublist.map Prod.fst)

theorem insert_distinct (distinct : table.keys.Nodup) : (table.insert key value).keys.Nodup := by
  refine ((insert_perm distinct).map Prod.fst).nodup_iff.mpr ?_
  refine List.nodup_cons.mpr ⟨fun member => ?_, erase_distinct distinct⟩
  obtain ⟨entry, member, same⟩ := List.mem_map.mp member
  exact of_decide_eq_true (List.mem_filter.mp member).2 same

end Tables

/-- A call to the index. -/
structure Call where
  unit : UnitId
  package : DottedName
  symbols : List Symbol

/-- The call registers symbols of its own unit only. -/
def Call.IsOwned (call : Call) : Prop := ∀ symbol ∈ call.symbols, symbol.unit = call.unit

/-- What the call answers, and the index it leaves. -/
def Call.perform (call : Call) (index : Index) : Except DuplicateSymbol Nat × Index :=
  index.enter call.unit call.package call.symbols

/-- For each unit the package and the symbols of its last registration. -/
abbrev Ledger := Table UnitId (DottedName × List Symbol)

namespace Ledger

/-- The registered symbols that belong under a key. -/
def symbolsAt (ledger : Ledger) (key : String) : List Symbol :=
  ledger.values.flatMap fun registration => registration.2.filter fun symbol => Index.key symbol.name = key

/-- How many units are registered under a package. -/
def unitsIn (ledger : Ledger) (package : DottedName) : Nat :=
  ledger.values.countP fun registration => registration.1 = package

/-- A symbol takes the place of a symbol that another unit has registered. -/
def Clashes (ledger : Ledger) (unit : UnitId) (symbol : Symbol) : Prop :=
  ∃ other registration, ledger.get? other = some registration ∧ other ≠ unit ∧ ∃ rival ∈ registration.2,
    Index.key rival.name = Index.key symbol.name ∧ rival.kind.inhabits = symbol.kind.inhabits

/-- The call is entered in the ledger if it was answered with a number. -/
def enter (ledger : Ledger) (call : Call) : Except DuplicateSymbol Nat → Ledger
  | .ok _ => ledger.insert call.unit (call.package, call.symbols)
  | .error _ => ledger

end Ledger

/-- The index and the ledger after a call. -/
def step (state : Index × Ledger) (call : Call) : Index × Ledger :=
  ((call.perform state.1).2, state.2.enter call (call.perform state.1).1)

/-- The index and the ledger after the calls, made on an empty index. -/
def performAll (calls : List Call) : Index × Ledger := calls.foldl step (.empty, .empty)

/-- The tables of the index say the same as the ledger. No unit is in the ledger
twice, and no two of its units have a symbol of the same key and namespace. -/
structure Refines (index : Index) (ledger : Ledger) : Prop where
  distinct : ledger.keys.Nodup
  owned : ∀ unit registration, ledger.get? unit = some registration → ∀ symbol ∈ registration.2, symbol.unit = unit
  filled : ∀ key, index.entries.get? key ≠ some []
  filed : ∀ key, ((index.entries.get? key).getD []).Perm (ledger.symbolsAt key)
  counted : ∀ package, index.packages.get? package =
    if ledger.unitsIn package = 0 then none else some (ledger.unitsIn package)
  listed : ∀ unit registration, ledger.get? unit = some registration →
    ∃ keys, index.units.get? unit = some ⟨registration.1, keys⟩ ∧ keys.Nodup ∧
      ∀ key, key ∈ keys ↔ ∃ symbol ∈ registration.2, Index.key symbol.name = key
  unlisted : ∀ unit, ledger.get? unit = none → index.units.get? unit = none
  apart : ∀ unit registration, ledger.get? unit = some registration →
    ∀ symbol ∈ registration.2, ¬ ledger.Clashes unit symbol

variable {index : Index} {ledger : Ledger} {call : Call} {unit : UnitId} {symbol : Symbol} {symbols : List Symbol}
  {package : DottedName} {key : String}

theorem mem_symbolsAt (distinct : ledger.keys.Nodup) : symbol ∈ ledger.symbolsAt key ↔
    ∃ unit registration, ledger.get? unit = some registration ∧ symbol ∈ registration.2 ∧ Index.key symbol.name = key := by
  simp only [Ledger.symbolsAt, Table.values, List.mem_flatMap, List.mem_map, List.mem_filter, decide_eq_true_eq,
    get?_eq_some_iff distinct]
  constructor
  · rintro ⟨_, ⟨⟨unit, registration⟩, member, rfl⟩, found⟩
    exact ⟨unit, registration, member, found⟩
  · rintro ⟨unit, registration, member, found⟩
    exact ⟨registration, ⟨(unit, registration), member, rfl⟩, found⟩

/-! Withdrawing a unit. -/

theorem get?_dropFrom (entries : Table String (List Symbol)) (unit : UnitId) (dropped key : String) :
    (((Index.dropFrom unit entries dropped).get? key).getD [] =
      if dropped = key then ((entries.get? key).getD []).filter fun symbol => symbol.unit ≠ unit
      else (entries.get? key).getD []) ∧
    (entries.get? key ≠ some [] → (Index.dropFrom unit entries dropped).get? key ≠ some []) := by
  unfold Index.dropFrom
  by_cases same : dropped = key
  · subst same
    cases found : entries.get? dropped with
    | none => simp [found]
    | some symbols =>
      rw [if_pos rfl, Option.getD_some]
      dsimp only
      split
      · rename_i none
        rw [none]
        simp
      · rename_i some
        rw [Table.get?_insert, if_pos rfl]
        exact ⟨rfl, fun _ empty => some (Option.some.inj empty)⟩
  · split
    · exact ⟨(if_neg same).symm, id⟩
    · split <;> simp [same]

/-- Dropping a unit from a list of keys takes its symbols away from these keys. -/
theorem get?_foldl_dropFrom (keys : List String) (entries : Table String (List Symbol)) (unit : UnitId) (key : String) :
    (((keys.foldl (Index.dropFrom unit) entries).get? key).getD [] =
      if key ∈ keys then ((entries.get? key).getD []).filter fun symbol => symbol.unit ≠ unit
      else (entries.get? key).getD []) ∧
    (entries.get? key ≠ some [] → (keys.foldl (Index.dropFrom unit) entries).get? key ≠ some []) := by
  induction keys generalizing entries with
  | nil => simp
  | cons dropped keys ih =>
    obtain ⟨first, filled⟩ := get?_dropFrom entries unit dropped key
    obtain ⟨rest, still⟩ := ih (Index.dropFrom unit entries dropped)
    refine ⟨?_, fun nonempty => still (filled nonempty)⟩
    rw [List.foldl_cons, rest, first]
    by_cases same : dropped = key
    · by_cases again : key ∈ keys <;> simp [same, again, List.filter_filter]
    · simp [same, Ne.symm same]

theorem erase_symbolsAt (distinct : ledger.keys.Nodup)
    (owned : ∀ unit registration, ledger.get? unit = some registration → ∀ symbol ∈ registration.2, symbol.unit = unit)
    (unit : UnitId) (key : String) :
    (Ledger.symbolsAt (ledger.erase unit) key) = (ledger.symbolsAt key).filter fun symbol => symbol.unit ≠ unit := by
  have each : ∀ entry ∈ ledger.entries, ∀ symbol ∈ entry.2.2, symbol.unit = entry.1 := fun entry member =>
    owned entry.1 entry.2 ((get?_eq_some_iff distinct).mpr member)
  simp only [Ledger.symbolsAt, Table.values, Table.erase]
  clear owned distinct
  generalize ledger.entries = entries at each
  induction entries with
  | nil => rfl
  | cons entry rest ih =>
    obtain ⟨first, others⟩ := List.forall_mem_cons.mp each
    rw [List.filter_cons, List.map_cons, List.flatMap_cons, List.filter_append, ← ih others]
    by_cases same : entry.1 = unit
    · have none : (entry.2.2.filter fun symbol => Index.key symbol.name = key).filter (fun symbol => symbol.unit ≠ unit)
          = [] := by
        refine List.filter_eq_nil_iff.mpr fun symbol member => ?_
        simp [first symbol (List.mem_filter.mp member).1, same]
      rw [if_neg (by simp [same]), none]
      rfl
    · have all : (entry.2.2.filter fun symbol => Index.key symbol.name = key).filter (fun symbol => symbol.unit ≠ unit)
          = entry.2.2.filter fun symbol => Index.key symbol.name = key := by
        refine List.filter_eq_self.mpr fun symbol member => ?_
        simp [first symbol (List.mem_filter.mp member).1, same]
      rw [if_pos (by simp [same]), all]
      rfl

/-- The symbols under a key after a registration. -/
theorem insert_symbolsAt (distinct : ledger.keys.Nodup) (unit : UnitId) (registration : DottedName × List Symbol)
    (key : String) : (Ledger.symbolsAt (ledger.insert unit registration) key).Perm
      ((registration.2.filter fun symbol => Index.key symbol.name = key) ++ Ledger.symbolsAt (ledger.erase unit) key) :=
  ((insert_perm distinct).map Prod.snd).flatMap_right _

theorem insert_unitsIn (distinct : ledger.keys.Nodup) (unit : UnitId) (registration : DottedName × List Symbol)
    (package : DottedName) : Ledger.unitsIn (ledger.insert unit registration) package =
      Ledger.unitsIn (ledger.erase unit) package + if registration.1 = package then 1 else 0 := by
  have perm : (ledger.insert unit registration).entries.Perm _ := insert_perm distinct
  have counted := (perm.map Prod.snd).countP_eq fun registration => registration.1 = package
  rw [Ledger.unitsIn, Table.values, counted, List.map_cons, List.countP_cons]
  simp [Ledger.unitsIn, Table.values]

theorem erase_unitsIn (distinct : ledger.keys.Nodup) {registration : DottedName × List Symbol}
    (found : ledger.get? unit = some registration) (package : DottedName) : ledger.unitsIn package =
      Ledger.unitsIn (ledger.erase unit) package + if registration.1 = package then 1 else 0 := by
  have counted := ((entries_perm distinct found).map Prod.snd).countP_eq fun registration => registration.1 = package
  rw [Ledger.unitsIn, Table.values, counted, List.map_cons, List.countP_cons]
  simp [Ledger.unitsIn, Table.values]

theorem get?_leavePackage (packages : Table DottedName Nat) (left package : DottedName) (count : Nat)
    (known : packages.get? left = some (count + 1)) : (Index.leavePackage packages left).get? package =
      if left = package then (if count = 0 then none else some count) else packages.get? package := by
  unfold Index.leavePackage
  rw [known]
  by_cases last : count = 0
  · simp [last]
  · have more : ¬ count + 1 ≤ 1 := by omega
    simp [last, more]

theorem Clashes.of_erase (clash : Ledger.Clashes (ledger.erase unit) other symbol) : ledger.Clashes other symbol := by
  obtain ⟨owner, registration, found, facts⟩ := clash
  rw [Table.get?_erase] at found
  split at found
  · cases found
  · exact ⟨owner, registration, found, facts⟩

/-- A unit in the ledger is counted in its package. -/
theorem Refines.counted_pos (refines : Refines index ledger) {registration : DottedName × List Symbol}
    (found : ledger.get? unit = some registration) : ∃ count, ledger.unitsIn registration.1 = count + 1 ∧
      index.packages.get? registration.1 = some (count + 1) := by
  have units := erase_unitsIn refines.distinct found registration.1
  rw [if_pos rfl] at units
  refine ⟨_, units, ?_⟩
  rw [refines.counted, units, if_neg (Nat.succ_ne_zero _)]

/-- All symbols of a unit are filed under the keys that are listed for it. -/
theorem Refines.withdraw_filed (refines : Refines index ledger) (unit : UnitId) (key : String) :
    (((index.withdraw unit).entries.get? key).getD [] =
      ((index.entries.get? key).getD []).filter fun symbol => symbol.unit ≠ unit) ∧
    (index.withdraw unit).entries.get? key ≠ some [] := by
  have foreign : (∀ registration, ledger.get? unit = some registration →
      ∀ symbol ∈ registration.2, Index.key symbol.name ≠ key) →
      (((index.entries.get? key).getD []).filter fun symbol => symbol.unit ≠ unit) = (index.entries.get? key).getD [] := by
    intro absent
    refine List.filter_eq_self.mpr fun symbol member => decide_eq_true fun own => ?_
    obtain ⟨owner, registration, found, exported, same⟩ :=
      (mem_symbolsAt refines.distinct).mp ((refines.filed key).subset member)
    have owner_eq : owner = unit := (refines.owned owner registration found symbol exported).symm.trans own
    exact absent registration (owner_eq ▸ found) symbol exported same
  unfold Index.withdraw
  cases known : ledger.get? unit with
  | none =>
    rw [refines.unlisted unit known]
    refine ⟨(foreign ?_).symm, refines.filled key⟩
    rw [known]
    simp
  | some registration =>
    obtain ⟨keys, listed, -, keyed⟩ := refines.listed unit registration known
    rw [listed]
    obtain ⟨dropped, filled⟩ := get?_foldl_dropFrom keys index.entries unit key
    refine ⟨dropped.trans ?_, filled (refines.filled key)⟩
    split
    · rfl
    · rename_i unlisted
      refine (foreign ?_).symm
      rw [known]
      rintro _ ⟨⟩ symbol exported same
      exact unlisted ((keyed key).mpr ⟨symbol, exported, same⟩)

theorem Refines.withdraw (refines : Refines index ledger) (unit : UnitId) :
    Refines (index.withdraw unit) (ledger.erase unit) where
  distinct := erase_distinct refines.distinct
  owned other registration found := by
    rw [Table.get?_erase] at found
    split at found
    · cases found
    · exact refines.owned other registration found
  filled key := (refines.withdraw_filed unit key).2
  filed key := by
    rw [(refines.withdraw_filed unit key).1, erase_symbolsAt refines.distinct refines.owned]
    exact (refines.filed key).filter _
  counted package := by
    unfold Index.withdraw
    cases known : ledger.get? unit with
    | none =>
      rw [refines.unlisted unit known, erase_absent refines.distinct known]
      exact refines.counted package
    | some registration =>
      obtain ⟨keys, listed, -⟩ := refines.listed unit registration known
      obtain ⟨count, units, recorded⟩ := refines.counted_pos known
      have left := erase_unitsIn refines.distinct known package
      rw [listed]
      dsimp only
      rw [get?_leavePackage _ _ _ count recorded]
      split
      · rename_i same
        rw [← same, units, if_pos rfl] at left
        rw [← same, Nat.succ.inj left]
      · rename_i differs
        rw [refines.counted, left, if_neg differs, Nat.add_zero]
  listed other registration found := by
    rw [Table.get?_erase] at found
    split at found
    · cases found
    · rename_i differs
      unfold Index.withdraw
      split
      · exact refines.listed other registration found
      · rw [Table.get?_erase, if_neg differs]
        exact refines.listed other registration found
  unlisted other absent := by
    rw [Table.get?_erase] at absent
    unfold Index.withdraw
    split
    · rename_i none
      split at absent
      · rename_i same
        exact same ▸ none
      · exact refines.unlisted other absent
    · rw [Table.get?_erase]
      split
      · rfl
      · rename_i differs
        rw [if_neg differs] at absent
        exact refines.unlisted other absent
  apart other registration found symbol exported clash := by
    rw [Table.get?_erase] at found
    split at found
    · cases found
    · exact refines.apart other registration found symbol exported (Clashes.of_erase clash)

/-! Registering a unit. -/

theorem foldl_file_filled (symbols : List Symbol) (entries : Table String (List Symbol)) (key : String)
    (filled : entries.get? key ≠ some []) : (symbols.foldl Index.file entries).get? key ≠ some [] := by
  induction symbols generalizing entries with
  | nil => exact filled
  | cons symbol rest ih =>
    refine ih _ ?_
    rw [Index.file, Table.get?_insert]
    split
    · simp
    · exact filled

theorem foldl_addKey (added keys : List String) (distinct : keys.Nodup) :
    (added.foldl Index.addKey keys).Nodup ∧ ∀ key, key ∈ added.foldl Index.addKey keys ↔ key ∈ keys ∨ key ∈ added := by
  induction added generalizing keys with
  | nil => exact ⟨distinct, fun key => by simp⟩
  | cons first added ih =>
    have step : (Index.addKey keys first).Nodup ∧ ∀ key, key ∈ Index.addKey keys first ↔ key ∈ keys ∨ key = first := by
      unfold Index.addKey
      split
      · rename_i present
        refine ⟨distinct, fun key => ⟨.inl, fun found => found.elim id ?_⟩⟩
        rintro rfl
        exact List.contains_iff_mem.mp present
      · rename_i absent
        refine ⟨?_, fun key => by simp⟩
        rw [← List.concat_eq_append]
        exact distinct.concat fun present => absent (List.contains_iff_mem.mpr present)
    obtain ⟨distinct', same⟩ := ih _ step.1
    refine ⟨distinct', fun key => ?_⟩
    rw [List.foldl_cons, same, step.2, List.mem_cons, or_assoc]

theorem Refines.enroll (refines : Refines index ledger) (owned : call.IsOwned) (fresh : ledger.get? call.unit = none)
    (free : ∀ symbol ∈ call.symbols, ¬ ledger.Clashes call.unit symbol) :
    Refines (index.enroll call.unit call.package call.symbols)
      (ledger.insert call.unit (call.package, call.symbols)) where
  distinct := insert_distinct refines.distinct
  owned other registration found := by
    rw [Table.get?_insert] at found
    split at found
    · rename_i same
      cases found
      exact same ▸ owned
    · exact refines.owned other registration found
  filled key := foldl_file_filled _ _ key (refines.filled key)
  filed key := by
    have added := insert_symbolsAt refines.distinct call.unit (call.package, call.symbols) key
    rw [erase_absent refines.distinct fresh] at added
    rw [Index.enroll, IndexGrowth.foldl_file]
    exact (((refines.filed key).append_right _).trans List.perm_append_comm).trans added.symm
  counted package := by
    rw [insert_unitsIn refines.distinct, erase_absent refines.distinct fresh, Index.enroll, Table.get?_insert]
    split
    · rename_i same
      subst same
      rw [refines.counted, if_neg (Nat.succ_ne_zero _)]
      split
      · rename_i none
        rw [none]
        rfl
      · rfl
    · rw [refines.counted, Nat.add_zero]
  listed other registration found := by
    rw [Table.get?_insert] at found
    rw [Index.enroll, Table.get?_insert]
    split at found
    · rename_i same
      rw [if_pos same]
      cases found
      obtain ⟨distinct, same⟩ := foldl_addKey (call.symbols.map fun symbol => Index.key symbol.name) [] List.nodup_nil
      exact ⟨_, rfl, distinct, fun key => by simp [same]⟩
    · rename_i differs
      rw [if_neg differs]
      exact refines.listed other registration found
  unlisted other absent := by
    rw [Table.get?_insert] at absent
    rw [Index.enroll, Table.get?_insert]
    split at absent
    · cases absent
    · rename_i differs
      rw [if_neg differs]
      exact refines.unlisted other absent
  apart other registration found symbol exported clash := by
    obtain ⟨owner, rivals, held, differs, rival, listed, same, space⟩ := clash
    rw [Table.get?_insert] at found held
    split at found
    · rename_i isCall
      cases found
      rw [if_neg (isCall ▸ differs.symm)] at held
      exact free symbol exported ⟨owner, rivals, held, isCall ▸ differs, rival, listed, same, space⟩
    · rename_i foreign
      split at held
      · rename_i isCall
        cases held
        exact free rival listed ⟨other, registration, found, isCall ▸ differs.symm, symbol, exported, same.symm, space.symm⟩
      · exact refines.apart other registration found symbol exported
          ⟨owner, rivals, held, differs, rival, listed, same, space⟩

/-- The order of the units in the ledger does not matter. -/
theorem Refines.of_perm {other : Ledger} (refines : Refines index ledger) (perm : ledger.entries.Perm other.entries) :
    Refines index other := by
  have distinct : other.keys.Nodup := (perm.map Prod.fst).nodup_iff.mp refines.distinct
  have same : other.get? = ledger.get? := by
    funext unit
    refine Option.ext fun registration => ?_
    rw [get?_eq_some_iff distinct, get?_eq_some_iff refines.distinct]
    exact perm.symm.mem_iff
  have clashes : other.Clashes = ledger.Clashes := by
    unfold Ledger.Clashes
    rw [same]
  have units : ∀ package, other.unitsIn package = ledger.unitsIn package := fun package =>
    (perm.symm.map Prod.snd).countP_eq _
  have filed : ∀ key, (ledger.symbolsAt key).Perm (other.symbolsAt key) := fun key => (perm.map Prod.snd).flatMap_right _
  refine ⟨distinct, ?_, refines.filled, fun key => (refines.filed key).trans (filed key), ?_, ?_, ?_, ?_⟩
  · rw [same]
    exact refines.owned
  · intro package
    rw [units]
    exact refines.counted package
  · rw [same]
    exact refines.listed
  · rw [same]
    exact refines.unlisted
  · rw [same, clashes]
    exact refines.apart

theorem erase_insert_perm (distinct : ledger.keys.Nodup) (unit : UnitId) (registration : DottedName × List Symbol) :
    (Table.insert (ledger.erase unit) unit registration).entries.Perm (ledger.insert unit registration).entries := by
  have again : (ledger.erase unit).erase unit = ledger.erase unit :=
    erase_absent (erase_distinct distinct) (by rw [Table.get?_erase, if_pos rfl])
  have added : (Table.insert (ledger.erase unit) unit registration).entries.Perm _ := insert_perm (erase_distinct distinct)
  rw [again] at added
  exact added.trans (insert_perm distinct).symm

/-- The index refuses a unit exactly when one of its symbols clashes with the ledger. -/
theorem Refines.duplicate?_eq_none_iff (refines : Refines index ledger) (unit : UnitId) (symbols : List Symbol) :
    index.duplicate? unit symbols = none ↔ ∀ symbol ∈ symbols, ¬ ledger.Clashes unit symbol := by
  simp only [Index.duplicate?, List.findSome?_eq_none_iff, Option.map_eq_none_iff, Index.rival?, List.find?_eq_none,
    Bool.and_eq_true, decide_eq_true_eq, not_and]
  refine forall_congr' fun symbol => imp_congr_right fun _ => ?_
  constructor
  · rintro none ⟨owner, registration, found, differs, rival, listed, same, space⟩
    have entered := (mem_symbolsAt refines.distinct).mpr ⟨owner, registration, found, listed, same⟩
    have filed := (refines.filed _).symm.subset entered
    refine none rival filed ?_ space
    rwa [refines.owned owner registration found rival listed]
  · intro free rival filed differs space
    obtain ⟨owner, registration, found, listed, same⟩ :=
      (mem_symbolsAt refines.distinct).mp ((refines.filed _).subset filed)
    rw [refines.owned owner registration found rival listed] at differs
    exact free ⟨owner, registration, found, differs, rival, listed, same, space⟩

/-- A call is refused, and changes nothing, exactly when it clashes. -/
theorem Refines.perform (refines : Refines index ledger) (owned : call.IsOwned) :
    (∃ symbol ∈ call.symbols, ledger.Clashes call.unit symbol) ∧
        (∃ duplicate, call.perform index = (.error duplicate, index)) ∨
      (∀ symbol ∈ call.symbols, ¬ ledger.Clashes call.unit symbol) ∧
        (call.perform index).1 = .ok call.symbols.length ∧
        Refines (call.perform index).2 (ledger.insert call.unit (call.package, call.symbols)) := by
  have refused := refines.duplicate?_eq_none_iff call.unit call.symbols
  unfold Call.perform Index.enter Index.register
  cases duplicate : index.duplicate? call.unit call.symbols with
  | some found =>
    rw [duplicate] at refused
    refine .inl ⟨?_, found, rfl⟩
    by_contra free
    simp only [not_exists, not_and] at free
    exact absurd (refused.mpr free) (by simp)
  | none =>
    have free := refused.mp duplicate
    have withdrawn := refines.withdraw call.unit
    have enrolled := withdrawn.enroll owned (by rw [Table.get?_erase, if_pos rfl])
      fun symbol member clash => free symbol member (Clashes.of_erase clash)
    exact .inr ⟨free, rfl, enrolled.of_perm (erase_insert_perm refines.distinct _ _)⟩

theorem refines_empty : Refines .empty .empty where
  distinct := List.nodup_nil
  owned _ _ found := by cases found
  filled _ filled := by cases filled
  filed _ := .refl _
  counted _ := rfl
  listed _ _ found := by cases found
  unlisted _ _ := rfl
  apart _ _ found := by cases found

/-- One call keeps the index and the ledger together. -/
theorem Refines.step (refines : Refines index ledger) (owned : call.IsOwned) :
    Refines (step (index, ledger) call).1 (step (index, ledger) call).2 := by
  unfold IndexRefinement.step
  rcases refines.perform owned with ⟨-, duplicate, refused⟩ | ⟨-, answered, entered⟩
  · rw [refused]
    exact refines
  · rw [answered]
    exact entered

theorem foldl_refines {calls : List Call} {state : Index × Ledger} (refines : Refines state.1 state.2)
    (owned : ∀ call ∈ calls, call.IsOwned) :
    Refines (calls.foldl step state).1 (calls.foldl step state).2 := by
  induction calls generalizing state with
  | nil => exact refines
  | cons call calls ih =>
    obtain ⟨first, others⟩ := List.forall_mem_cons.mp owned
    exact ih (refines.step first) others

/-- Any calls on an empty index, each with symbols of its own unit. The tables say
the same as the ledger of the calls that were accepted, and a unit that can be
withdrawn is counted in its package. One more call is refused exactly when a symbol
of it has the key and the namespace of a symbol of another unit. Then the index is
as it was; otherwise the call answers with the number of its symbols, and they take
the place of those the unit had. -/
theorem registrations_refine (calls : List Call) (owned : ∀ call ∈ calls, call.IsOwned) :
    Refines (performAll calls).1 (performAll calls).2 ∧
    (∀ unit registration, (performAll calls).1.units.get? unit = some registration →
      ∃ count, (performAll calls).1.packages.get? registration.package = some (count + 1)) ∧
    ∀ call : Call, call.IsOwned →
      ((∃ duplicate, (call.perform (performAll calls).1).1 = .error duplicate) ↔
        ∃ symbol ∈ call.symbols, (performAll calls).2.Clashes call.unit symbol) ∧
      (∀ duplicate, (call.perform (performAll calls).1).1 = .error duplicate →
        (call.perform (performAll calls).1).2 = (performAll calls).1) ∧
      ∀ count, (call.perform (performAll calls).1).1 = .ok count → count = call.symbols.length ∧
        Refines (call.perform (performAll calls).1).2
          ((performAll calls).2.insert call.unit (call.package, call.symbols)) := by
  have refines : Refines (performAll calls).1 (performAll calls).2 := foldl_refines refines_empty owned
  refine ⟨refines, fun unit registration listed => ?_, fun call isOwned => ?_⟩
  · cases known : (performAll calls).2.get? unit with
    | none =>
      rw [refines.unlisted unit known] at listed
      cases listed
    | some entry =>
      obtain ⟨keys, same, -⟩ := refines.listed unit entry known
      cases listed.symm.trans same
      obtain ⟨count, -, counted⟩ := refines.counted_pos known
      exact ⟨count, counted⟩
  · rcases refines.perform isOwned with ⟨clashes, duplicate, refused⟩ | ⟨free, answered, entered⟩
    · rw [refused]
      exact ⟨⟨fun _ => clashes, fun _ => ⟨duplicate, rfl⟩⟩, fun _ _ => rfl, by simp⟩
    · rw [answered]
      refine ⟨⟨by simp, ?_⟩, by simp, ?_⟩
      · rintro ⟨symbol, member, clash⟩
        exact absurd clash (free symbol member)
      · rintro _ ⟨⟩
        exact ⟨rfl, entered⟩

/-- A trait and an object of one name in two units, and then the trait's unit moves
to another package. -/
def movingUnit : List Call :=
  [⟨"T", ⟨["a"]⟩, [.mk ⟨["a", "N"]⟩ .interface "T" [] []]⟩,
   ⟨"O", ⟨["a"]⟩, [.mk ⟨["a", "N"]⟩ .holder "O" [] [], .mk ⟨["a", "N"]⟩ .holder "O" [] []]⟩,
   ⟨"T", ⟨["b"]⟩, [.mk ⟨["b", "N"]⟩ .interface "T" [] []]⟩]

/-- A value of the object's name, in a third unit. -/
def lateValue : Call := ⟨"V", ⟨["a"]⟩, [.mk ⟨["a", "N"]⟩ .value "V" [] []]⟩

/-- The package that was left has one unit, the late value is refused, and the
index is as it was. -/
theorem movingUnit_refines :
    (∀ call ∈ movingUnit, call.IsOwned) ∧ lateValue.IsOwned ∧
      Refines (performAll movingUnit).1 (performAll movingUnit).2 ∧
      (performAll movingUnit).1.packages.get? ⟨["a"]⟩ = some 1 ∧
      (∃ duplicate, (lateValue.perform (performAll movingUnit).1).1 = .error duplicate) ∧
      (lateValue.perform (performAll movingUnit).1).2 = (performAll movingUnit).1 := by
  have owned : ∀ call ∈ movingUnit, call.IsOwned := by simp [movingUnit, Call.IsOwned, Symbol.unit]
  have isOwned : lateValue.IsOwned := by simp [lateValue, Call.IsOwned, Symbol.unit]
  obtain ⟨refines, -, next⟩ := registrations_refine movingUnit owned
  obtain ⟨refused, unchanged, -⟩ := next lateValue isOwned
  have clash : ∃ symbol ∈ lateValue.symbols, (performAll movingUnit).2.Clashes lateValue.unit symbol := by
    refine ⟨_, List.mem_singleton_self _, "O", _, rfl, by decide, _, List.mem_cons_self .., rfl, rfl⟩
  obtain ⟨duplicate, failed⟩ := refused.mpr clash
  exact ⟨owned, isOwned, refines, by decide +kernel, ⟨duplicate, failed⟩, unchanged duplicate failed⟩

end KindLift.IndexRefinement
