/-! Finite maps that remember the order in which their keys first came in. -/
namespace KindLift

/-- Entries in insertion order; the operations keep at most one entry per key. -/
structure Table (α β : Type) where
  entries : List (α × β)

namespace Table

variable {α β : Type} [DecidableEq α]

def empty : Table α β := ⟨[]⟩

instance : Inhabited (Table α β) := ⟨empty⟩

def keys (table : Table α β) : List α := table.entries.map Prod.fst

def values (table : Table α β) : List β := table.entries.map Prod.snd

def size (table : Table α β) : Nat := table.entries.length

/-- The value of the first entry with the key. -/
def find : List (α × β) → α → Option β
  | [], _ => none
  | (k, v) :: rest, key => if k = key then some v else find rest key

def get? (table : Table α β) (key : α) : Option β := find table.entries key

def contains (table : Table α β) (key : α) : Bool := (table.get? key).isSome

/-- Overwrites the entry with the key where it stands, or adds one at the end. -/
def put : List (α × β) → α → β → List (α × β)
  | [], key, value => [(key, value)]
  | (k, v) :: rest, key, value => if k = key then (k, value) :: rest else (k, v) :: put rest key value

def insert (table : Table α β) (key : α) (value : β) : Table α β := ⟨put table.entries key value⟩

def erase (table : Table α β) (key : α) : Table α β :=
  ⟨table.entries.filter fun entry => entry.1 ≠ key⟩

/-- The table with the given entries, later ones overwriting earlier ones. -/
def ofList (entries : List (α × β)) : Table α β :=
  entries.foldl (fun table entry => table.insert entry.1 entry.2) empty

theorem find_put (entries : List (α × β)) (key probe : α) (value : β) :
    find (put entries key value) probe = if key = probe then some value else find entries probe := by
  induction entries with
  | nil => rfl
  | cons entry rest ih =>
    obtain ⟨k, v⟩ := entry
    by_cases same : k = key
    · subst same
      by_cases hit : k = probe <;> simp [put, find, hit]
    · by_cases hit : k = probe
      · subst hit
        simp [put, find, same, Ne.symm same]
      · simp [put, find, same, hit, ih]

/-- Insertion changes the requested key alone. -/
@[simp] theorem get?_insert (table : Table α β) (key probe : α) (value : β) :
    (table.insert key value).get? probe = if key = probe then some value else table.get? probe :=
  find_put table.entries key probe value

theorem find_filter (entries : List (α × β)) (key probe : α) :
    find (entries.filter fun entry => entry.1 ≠ key) probe =
      if key = probe then none else find entries probe := by
  induction entries with
  | nil => simp [find]
  | cons entry rest ih =>
    obtain ⟨k, v⟩ := entry
    by_cases same : k = key
    · subst same
      by_cases hit : k = probe <;> simp_all [find]
    · by_cases hit : k = probe
      · subst hit
        simp [find, same, Ne.symm same]
      · simp_all [find]

/-- Erasure removes the requested key alone. -/
@[simp] theorem get?_erase (table : Table α β) (key probe : α) :
    (table.erase key).get? probe = if key = probe then none else table.get? probe :=
  find_filter table.entries key probe

end Table
end KindLift
