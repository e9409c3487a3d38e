/-! Values of the TOML format, and how the parts of a document build them up. -/
namespace KindLift.Toml

/-- How a table came to be, which decides what may still be added to it. -/
inductive Origin where
  | inline
  | header
  | implied
  | dotted
deriving DecidableEq, Repr

/-- A value. An array is open while headers may still append tables to it. -/
inductive Value where
  | string (text : String)
  | integer (number : Int)
  | float
  | boolean (truth : Bool)
  | datetime
  | array (isOpen : Bool) (items : List Value)
  | table (origin : Origin) (entries : List (String × Value))

abbrev Entries := List (String × Value)

/-- The value of a key. -/
def Entries.find? (entries : Entries) (key : String) : Option Value :=
  (List.find? (fun entry => entry.1 = key) entries).map Prod.snd

/-- The entries with a key's value changed, or added at the end. -/
def Entries.put : Entries → String → Value → Entries
  | [], key, value => [(key, value)]
  | (k, v) :: rest, key, value => if k = key then (k, value) :: rest else (k, v) :: put rest key value

/-- Changes the table at a path, which is created as far as it is missing. Names
between points in front of a value may only lead through tables that other such
names have made; names in a header lead through any table that is not inline and
to the last table of an open array. The table reached passes its origin on. -/
def update (isDotted : Bool) (change : Origin → Entries → Option Entries) :
    Origin → List String → Entries → Option Entries
  | origin, [], entries => change origin entries
  | _, key :: path, entries =>
    match entries.find? key with
    | none => do
      let origin := if isDotted then Origin.dotted else Origin.implied
      let inner ← update isDotted change origin path []
      return entries.put key (.table origin inner)
    | some (.table origin inner) =>
      if origin = .inline || (isDotted && origin = .header) then none
      else do return entries.put key (.table origin (← update isDotted change origin path inner))
    | some (.array true items) =>
      match items.getLast? with
      | some (.table origin inner) => do
        let changed ← update isDotted change origin path inner
        return entries.put key (.array true (items.dropLast ++ [.table origin changed]))
      | _ => none
    | some _ => none

/-- Adds a value under a key that is not there yet. -/
def addNew (key : String) (value : Value) (entries : Entries) : Option Entries :=
  match entries.find? key with
  | some _ => none
  | none => some (entries.put key value)

/-- Adds a value under the last of the names, inside the tables named before. Only
tables made by such names take values with several names. -/
def assign (names : List String) (value : Value) (origin : Origin) (entries : Entries) : Option Entries :=
  match names.getLast? with
  | none => none
  | some key =>
    let path := names.dropLast
    update true (fun reached entries =>
      if path.isEmpty || reached = .dotted then addNew key value entries else none) origin path entries

/-- Opens the table a header names. It may have been implied by another header. -/
def openTable (names : List String) (entries : Entries) : Option Entries :=
  match names.getLast? with
  | none => none
  | some key =>
    update false (fun _ entries =>
      match entries.find? key with
      | none => some (entries.put key (.table .header []))
      | some (.table .implied inner) => some (entries.put key (.table .header inner))
      | some _ => none) .header names.dropLast entries

/-- Appends a table to the array a double header names. -/
def appendTable (names : List String) (entries : Entries) : Option Entries :=
  match names.getLast? with
  | none => none
  | some key =>
    update false (fun _ entries =>
      match entries.find? key with
      | none => some (entries.put key (.array true [.table .header []]))
      | some (.array true items) => some (entries.put key (.array true (items ++ [.table .header []])))
      | some _ => none) .header names.dropLast entries

/-- Adds a value to the table the last header has opened. -/
def assignIn (current : List String) (names : List String) (value : Value) (entries : Entries) :
    Option Entries :=
  update false (fun _ inner => assign names value .header inner) .header current entries

end KindLift.Toml
