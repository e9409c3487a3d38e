import KindLift.Text.Offset

/-! Lines and columns count from one. A column counts the bytes since the last
line feed, so that tools which address bytes can use it directly. -/
namespace KindLift

structure Position where
  line : Nat
  column : Nat
deriving DecidableEq, Repr

namespace Position

/-- The position of the first character. -/
def start : Position := ⟨1, 1⟩

/-- The position after one more character. -/
def advance (position : Position) (c : Char) : Position :=
  if c = '\n' then ⟨position.line + 1, 1⟩ else ⟨position.line, position.column + c.utf8Size⟩

/-- The position behind a text. -/
def after (front : List Char) : Position := front.foldl advance start

/-- The position of an offset: the line feeds in front of it are counted, and the
bytes behind the last of them. An offset inside a character or past the end stands
for the nearest boundary below it. -/
def ofOffset (chars : List Char) (offset : Nat) : Position :=
  let boundary := Text.boundaryBelow chars (min offset (Text.byteLength chars))
  let front := (Text.takeBytes? boundary chars).getD []
  let width := match Text.lastOffset? '\n' front with
    | some feed => Text.byteLength front - feed - 1
    | none => Text.byteLength front
  ⟨front.count '\n' + 1, width + 1⟩

/-- Positions are written `line:column`. -/
def render (position : Position) : String :=
  toString position.line ++ ":" ++ toString position.column

end Position
end KindLift
