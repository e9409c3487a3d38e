import KindLift.Toml.Text

/-! Whole documents: assignments and table headers, one a line. -/
namespace KindLift.Toml

/-- Repeats a step that reads something until it ends the loop. -/
def loop (step : σ → List Char → Option (Option ρ × σ × List Char)) (state : σ) (chars : List Char) :
    Option (ρ × List Char) :=
  match step state chars with
  | none => none
  | some (some result, _, rest) => some (result, rest)
  | some (none, next, rest) => if rest.length < chars.length then loop step next rest else none
termination_by chars.length

def skipBlanks (chars : List Char) : List Char := chars.dropWhile isBlank

/-- Blanks, line ends and comments inside an array. -/
def skipLines (inComment : Bool) : List Char → List Char
  | [] => []
  | c :: rest =>
    if c = '\n' then skipLines false rest
    else match c, rest with
      | '\r', '\n' :: tail => skipLines false tail
      | '#', tail => skipLines true tail
      | _, tail =>
        if inComment then (if isLineChar c then skipLines true tail else c :: tail)
        else if isBlank c then skipLines false tail
        else c :: tail

def isBareKeyChar (c : Char) : Bool := c.isAlphanum || c = '-' || c = '_'

/-- Reads one name of a key, bare or quoted on one line. -/
def readName (chars : List Char) : Option (String × List Char) :=
  match chars with
  | '"' :: rest => (readBasic rest).map fun (text, rest) => (String.ofList text, rest)
  | '\'' :: rest => (readLiteral rest).map fun (text, rest) => (String.ofList text, rest)
  | _ =>
    match chars.takeWhile isBareKeyChar with
    | [] => none
    | name => some (String.ofList name, chars.dropWhile isBareKeyChar)

/-- How many names a key may have, and one more than how deep values may nest. -/
def limit : Nat := 80

/-- Reads names with points between them, and the blanks around each. -/
def readKey (chars : List Char) : Option (List String × List Char) := do
  let (names, rest) ← loop (fun (names : List String) chars => do
    let (name, rest) ← readName (skipBlanks chars)
    let names := names ++ [name]
    match skipBlanks rest with
    | '.' :: more => return (none, names, more)
    | more => return (some names, names, more)) [] chars
  if names.length < limit then return (names, rest) else none

/-- Reads a key, an equals sign and a value. -/
def readPair (value : List Char → Option (Value × List Char)) (chars : List Char) :
    Option ((List String × Value) × List Char) := do
  let (names, rest) ← readKey chars
  match rest with
  | '=' :: rest =>
    let (found, rest) ← value (skipBlanks rest)
    return ((names, found), rest)
  | _ => none

/-- Reads the items of an array and its closing bracket. -/
def readItems (value : List Char → Option (Value × List Char)) (chars : List Char) :
    Option (List Value × List Char) :=
  loop (fun (items : List Value) chars =>
    match skipLines false chars with
    | ']' :: rest => some (some items, items, rest)
    | start => do
      let (item, rest) ← value start
      let items := items ++ [item]
      match skipLines false rest with
      | ',' :: rest => return (none, items, rest)
      | ']' :: rest => return (some items, items, rest)
      | _ => none) [] chars

/-- Reads the entries of an inline table and its closing brace. -/
def readEntries (value : List Char → Option (Value × List Char)) (chars : List Char) :
    Option (Entries × List Char) :=
  match skipBlanks chars with
  | '\x7d' :: rest => some ([], rest)
  | start =>
    loop (fun (entries : Entries) chars => do
      let ((names, found), rest) ← readPair value chars
      let entries ← assign names found .inline entries
      match skipBlanks rest with
      | ',' :: rest => return (none, entries, rest)
      | '\x7d' :: rest => return (some entries, entries, rest)
      | _ => none) [] start

/-- Reads a value that nests at most `depth` levels deep. -/
def readValue : Nat → List Char → Option (Value × List Char)
  | depth, chars =>
    match depth, chars with
    | inner + 1, '[' :: rest =>
      (readItems (readValue inner) rest).map fun (items, rest) => (.array false items, rest)
    | inner + 1, '\x7b' :: rest =>
      (readEntries (readValue inner) rest).map fun (entries, rest) => (.table .inline entries, rest)
    | _, '"' :: _ | _, '\'' :: _ => (readString chars).map fun (text, rest) => (.string text, rest)
    | _, _ => readScalar chars

/-- Reads to the end of a line, where only a comment may stand. -/
def endLine (chars : List Char) : Option (List Char) :=
  let rest := match skipBlanks chars with
    | '#' :: comment => comment.dropWhile isLineChar
    | other => other
  match rest with
  | [] => some []
  | '\n' :: rest => some rest
  | '\r' :: '\n' :: rest => some rest
  | _ => none

/-- What has been read: the table of the last header, and all entries. -/
structure Draft where
  current : List String
  entries : Entries

/-- Reads one line. -/
def readLine (draft : Draft) (chars : List Char) : Option (Draft × List Char) :=
  match skipBlanks chars with
  | '[' :: '[' :: rest => do
    let (names, rest) ← readKey rest
    match rest with
    | ']' :: ']' :: rest => return (⟨names, ← appendTable names draft.entries⟩, ← endLine rest)
    | _ => none
  | '[' :: rest => do
    let (names, rest) ← readKey rest
    match rest with
    | ']' :: rest => return (⟨names, ← openTable names draft.entries⟩, ← endLine rest)
    | _ => none
  | start =>
    match endLine start with
    | some rest => some (draft, rest)
    | none => do
      let ((names, value), rest) ← readPair (readValue (limit - 1)) start
      return ({ draft with entries := ← assignIn draft.current names value draft.entries },
        ← endLine rest)

/-- A mark of the byte order may stand in front. -/
def dropMark : List Char → List Char
  | '\ufeff' :: rest => rest
  | chars => chars

/-- The entries of a document. -/
def parse (text : String) : Option Entries :=
  (loop (fun (draft : Draft) chars =>
    match chars with
    | [] => some (some draft.entries, draft, [])
    | _ => do
      let (next, rest) ← readLine draft chars
      return (none, next, rest)) ⟨[], []⟩ (dropMark text.toList)).map Prod.fst

end KindLift.Toml
