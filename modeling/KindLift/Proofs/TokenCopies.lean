import KindLift.Proofs.TextBoundary
import KindLift.Token
import Mathlib.Data.List.Forall2

/-! Parts of a text that stand in another text as well. Tokens and spans inside of such
a part are carried along with it: they are at another place, and spell the same. -/
namespace KindLift.TokenCopies
open Text TextBoundary

/-- What takes `size` bytes from `low` on in one text stands from `low'` on in the other. -/
def Copied (source other : List Char) (low low' size : Nat) : Prop :=
  ∃ left text right left' right', source = left ++ (text ++ right) ∧ other = left' ++ (text ++ right') ∧
    byteLength left = low ∧ byteLength left' = low' ∧ byteLength text = size

/-- A token inside of the part, and the token at the same place of the copy. -/
structure Carried (low low' size : Nat) (token copy : Token) : Prop where
  kind : copy.kind = token.kind
  lexeme : copy.lexeme = token.lexeme
  nonempty : token.lexeme ≠ []
  place : ∃ offset, token.start = low + offset ∧ copy.start = low' + offset ∧
    offset + byteLength token.lexeme ≤ size

/-- A span inside of the part that is not empty, and the one at the same place of the copy. -/
def SpanCarried (low low' size : Nat) (span copy : Span) : Prop :=
  ∃ first last, span = ⟨low + first, low + last⟩ ∧ copy = ⟨low' + first, low' + last⟩ ∧ first < last ∧ last ≤ size

variable {source other : List Char} {low low' size more first last : Nat} {token copy : Token}
  {part part' moved moved' : Span}

theorem Carried.text (carried : Carried low low' size token copy) : copy.text = token.text := by
  rw [Token.text, Token.text, carried.lexeme]

theorem Carried.isName (carried : Carried low low' size token copy) : copy.isName = token.isName := by
  rw [Token.isName, Token.isName, carried.kind]

theorem Carried.widen (carried : Carried low low' size token copy) (fits : size ≤ more) :
    Carried low low' more token copy := by
  obtain ⟨offset, start, start', stop⟩ := carried.place
  exact ⟨carried.kind, carried.lexeme, carried.nonempty, offset, start, start', Nat.le_trans stop fits⟩

/-- The part may begin earlier. -/
theorem Carried.back (carried : Carried (low + more) (low' + more) size token copy) :
    Carried low low' (more + size) token copy := by
  obtain ⟨offset, start, start', stop⟩ := carried.place
  exact ⟨carried.kind, carried.lexeme, carried.nonempty, more + offset, by omega, by omega, by omega⟩

theorem Carried.span (carried : Carried low low' size token copy) : SpanCarried low low' size token.span copy.span := by
  obtain ⟨offset, start, start', stop⟩ := carried.place
  have width := byteLength_pos carried.nonempty
  refine ⟨offset, offset + byteLength token.lexeme, ?_, ?_, by omega, stop⟩
  · rw [Token.span, Token.stop, start, Nat.add_assoc]
  · rw [Token.span, Token.stop, start', carried.lexeme, Nat.add_assoc]

theorem SpanCarried.cover (left : SpanCarried low low' size part moved)
    (right : SpanCarried low low' size part' moved') :
    SpanCarried low low' size (part.cover part') (moved.cover moved') := by
  obtain ⟨first, last, rfl, rfl, order, fits⟩ := left
  obtain ⟨first', last', rfl, rfl, order', fits'⟩ := right
  refine ⟨min first first', max last last', ?_, ?_, by omega, by omega⟩
  · simp only [Span.cover, Nat.add_min_add_left, Nat.add_max_add_left]
  · simp only [Span.cover, Nat.add_min_add_left, Nat.add_max_add_left]

/-- A slice of the middle part of a text. -/
theorem slice?_inside {left text : List Char} (right : List Char) (fits : last ≤ byteLength text) :
    slice? (left ++ (text ++ right)) (byteLength left + first) (byteLength left + last) = slice? text first last := by
  refine Option.ext fun middle => ?_
  rw [slice?_eq_some_iff, slice?_eq_some_iff]
  constructor
  · rintro ⟨before, after, whole, start, stop⟩
    obtain ⟨front, rfl⟩ := cuts_nested whole (by omega)
    rw [byteLength_append] at start
    rw [List.append_assoc, List.append_cancel_left_eq] at whole
    rw [← List.append_assoc] at whole
    obtain ⟨back, rfl⟩ := cuts_nested whole.symm (by rw [byteLength_append]; omega)
    exact ⟨front, back, List.append_assoc .., by omega, by omega⟩
  · rintro ⟨before, after, rfl, start, stop⟩
    refine ⟨left ++ before, after ++ right, by simp only [List.append_assoc], ?_, by omega⟩
    rw [byteLength_append, start]

theorem Copied.slice? (copied : Copied source other low low' size) (fits : last ≤ size) :
    slice? source (low + first) (low + last) = Text.slice? other (low' + first) (low' + last) := by
  obtain ⟨left, text, right, left', right', rfl, rfl, rfl, rfl, rfl⟩ := copied
  rw [slice?_inside right fits, slice?_inside right' fits]

theorem Copied.chars (copied : Copied source other low low' size) (carried : SpanCarried low low' size part moved) :
    moved.chars other = part.chars source := by
  obtain ⟨first, last, rfl, rfl, -, fits⟩ := carried
  rw [Span.chars, Span.chars, ← copied.slice? fits]

theorem Copied.trimmed (copied : Copied source other low low' size) (carried : SpanCarried low low' size part moved) :
    moved.trimmed other = part.trimmed source := by
  rw [Span.trimmed, Span.trimmed, copied.chars carried]

/-- What stands inside of brackets is copied with them. -/
theorem Copied.interior (copied : Copied source other low low' size) (carried : SpanCarried low low' size part moved) :
    moved.interior.trimmed other = part.interior.trimmed source := by
  obtain ⟨first, last, rfl, rfl, order, fits⟩ := carried
  have same := @Copied.slice? source other low low' size (first + 1) (last - 1) copied (by omega)
  rw [← Nat.add_assoc, ← Nat.add_assoc, ← Nat.add_sub_assoc (by omega), ← Nat.add_sub_assoc (by omega)] at same
  rw [Span.trimmed, Span.trimmed, Span.chars, Span.chars, Span.interior, Span.interior, same]

end KindLift.TokenCopies
