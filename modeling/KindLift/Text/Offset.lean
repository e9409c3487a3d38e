/-! Source texts are sequences of characters, addressed by byte offsets into
their UTF-8 form. An offset past the end or inside a character addresses
nothing, and every operation that can fail here says so by returning `none`. -/
namespace KindLift.Text

/-- The number of bytes of the UTF-8 form. -/
def byteLength (chars : List Char) : Nat :=
  chars.foldr (fun c length => c.utf8Size + length) 0

@[simp] theorem byteLength_nil : byteLength [] = 0 := rfl

@[simp] theorem byteLength_cons (c : Char) (rest : List Char) :
    byteLength (c :: rest) = c.utf8Size + byteLength rest := rfl

@[simp] theorem byteLength_append (left right : List Char) :
    byteLength (left ++ right) = byteLength left + byteLength right := by
  induction left with
  | nil => simp
  | cons c rest ih => simp [ih, Nat.add_assoc]

/-- The characters from byte offset `n` on. -/
def dropBytes? : Nat → List Char → Option (List Char)
  | 0, chars => some chars
  | _ + 1, [] => none
  | n + 1, c :: rest => if c.utf8Size ≤ n + 1 then dropBytes? (n + 1 - c.utf8Size) rest else none

/-- The longest run of leading characters that fits into `n` bytes. -/
def before : Nat → List Char → List Char
  | _, [] => []
  | n, c :: rest => if c.utf8Size ≤ n then c :: before (n - c.utf8Size) rest else []

/-- The characters up to byte offset `n`. -/
def takeBytes? (n : Nat) (chars : List Char) : Option (List Char) :=
  let taken := before n chars
  if byteLength taken = n then some taken else none

/-- An offset is a boundary when it lies between two characters or at an end. -/
def isBoundary (chars : List Char) (offset : Nat) : Bool :=
  (dropBytes? offset chars).isSome

/-- The characters between two offsets, when both are boundaries in order. -/
def slice? (chars : List Char) (start stop : Nat) : Option (List Char) :=
  if start ≤ stop then dropBytes? start chars >>= takeBytes? (stop - start) else none

/-- The nearest boundary that is not above `offset`, looked for step by step. -/
def boundaryBelow (chars : List Char) : Nat → Nat
  | 0 => 0
  | offset + 1 => if isBoundary chars (offset + 1) then offset + 1 else boundaryBelow chars offset

/-- The offset of the last occurrence of a character. -/
def lastOffset? (c : Char) : List Char → Option Nat
  | [] => none
  | d :: rest =>
    match lastOffset? c rest with
    | some offset => some (d.utf8Size + offset)
    | none => if d = c then some 0 else none

/-- The largest boundary that is not above `offset`. -/
def floorBoundary (chars : List Char) (offset : Nat) : Nat :=
  byteLength (before offset chars)

end KindLift.Text
