import KindLift.Text.Offset
import Mathlib.Data.List.Basic

/-! Boundaries of a text are the places where it can be cut in two. Every
operation on byte offsets is described by such cuts, so that the byte arithmetic
is done once and later arguments are about concatenation. -/
namespace KindLift.TextBoundary
open Text

/-- The text can be cut after `offset` bytes. -/
def Cut (chars : List Char) (offset : Nat) : Prop :=
  ∃ left right, chars = left ++ right ∧ byteLength left = offset

theorem byteLength_pos {chars : List Char} (nonempty : chars ≠ []) : 0 < byteLength chars := by
  cases chars with
  | nil => exact absurd rfl nonempty
  | cons c rest =>
    have size := c.utf8Size_pos
    rw [byteLength_cons]
    omega

/-- Two cuts of one text are nested. -/
theorem cuts_nested {left right left' right' : List Char} (same : left ++ right = left' ++ right')
    (order : byteLength left ≤ byteLength left') : ∃ middle, left' = left ++ middle := by
  rcases List.append_eq_append_iff.mp same with ⟨middle, extended, _⟩ | ⟨middle, extended, _⟩
  · exact ⟨middle, extended⟩
  · cases middle with
    | nil => exact ⟨[], by simpa using extended.symm⟩
    | cons c rest =>
      have size := c.utf8Size_pos
      rw [extended, byteLength_append, byteLength_cons] at order
      omega

/-- A text is cut at an offset in one way only. -/
theorem cut_unique {left right left' right' : List Char} (same : left ++ right = left' ++ right')
    (length : byteLength left = byteLength left') : left = left' ∧ right = right' := by
  obtain ⟨middle, extended⟩ := cuts_nested same (Nat.le_of_eq length)
  have empty : middle = [] := by
    by_contra nonempty
    have positive := byteLength_pos nonempty
    rw [extended, byteLength_append] at length
    omega
  subst empty
  rw [List.append_nil] at extended
  subst extended
  exact ⟨rfl, List.append_cancel_left same⟩

/-- A cut inside of the middle part cuts that in two. -/
theorem cut_inside {left right front middle back : List Char} (same : left ++ right = front ++ (middle ++ back))
    (low : byteLength front ≤ byteLength left) (high : byteLength left ≤ byteLength front + byteLength middle) :
    ∃ head tail, left = front ++ head ∧ middle = head ++ tail ∧ right = tail ++ back := by
  obtain ⟨head, rfl⟩ := cuts_nested same.symm low
  rw [List.append_assoc, List.append_cancel_left_eq] at same
  rw [byteLength_append] at high
  obtain ⟨tail, rfl⟩ := cuts_nested same (Nat.le_of_add_le_add_left high)
  rw [List.append_assoc, List.append_cancel_left_eq] at same
  exact ⟨head, tail, rfl, rfl, same⟩

theorem dropBytes?_append (left right : List Char) :
    dropBytes? (byteLength left) (left ++ right) = some right := by
  induction left with
  | nil => cases right <;> rfl
  | cons c rest ih =>
    have size := c.utf8Size_pos
    obtain ⟨n, total⟩ : ∃ n, byteLength (c :: rest) = n + 1 :=
      ⟨byteLength (c :: rest) - 1, by rw [byteLength_cons]; omega⟩
    rw [total, List.cons_append, dropBytes?]
    rw [byteLength_cons] at total
    rw [if_pos (by omega), show n + 1 - c.utf8Size = byteLength rest by omega]
    exact ih

/-- What is left after an offset, and the text in front of it, make up the text. -/
theorem dropBytes?_eq_some_iff {offset : Nat} {chars right : List Char} :
    dropBytes? offset chars = some right ↔
      ∃ left, chars = left ++ right ∧ byteLength left = offset := by
  constructor
  · intro dropped
    fun_induction dropBytes? offset chars with
    | case1 chars =>
      cases dropped
      exact ⟨[], rfl, rfl⟩
    | case2 => cases dropped
    | case3 n c rest fits ih =>
      obtain ⟨left, shape, length⟩ := ih dropped
      refine ⟨c :: left, by rw [shape, List.cons_append], ?_⟩
      rw [byteLength_cons, length]
      omega
    | case4 => cases dropped
  · rintro ⟨left, rfl, rfl⟩
    exact dropBytes?_append left right

theorem isBoundary_iff {chars : List Char} {offset : Nat} :
    isBoundary chars offset = true ↔ Cut chars offset := by
  rw [isBoundary, Option.isSome_iff_exists]
  constructor
  · rintro ⟨right, dropped⟩
    obtain ⟨left, shape, length⟩ := dropBytes?_eq_some_iff.mp dropped
    exact ⟨left, right, shape, length⟩
  · rintro ⟨left, right, shape, length⟩
    exact ⟨right, dropBytes?_eq_some_iff.mpr ⟨left, shape, length⟩⟩

theorem before_append (left right : List Char) : before (byteLength left) (left ++ right) = left := by
  induction left with
  | nil =>
    cases right with
    | nil => rfl
    | cons c rest =>
      have size := c.utf8Size_pos
      simp only [List.nil_append, byteLength_nil, before]
      rw [if_neg (by omega)]
  | cons c rest ih =>
    rw [List.cons_append, before, byteLength_cons, if_pos (by omega), Nat.add_sub_cancel_left, ih]

theorem before_prefix (offset : Nat) (chars : List Char) :
    ∃ right, chars = before offset chars ++ right := by
  fun_induction before offset chars with
  | case1 => exact ⟨[], rfl⟩
  | case2 n c rest fits ih =>
    obtain ⟨right, shape⟩ := ih
    exact ⟨right, by rw [List.cons_append, ← shape]⟩
  | case3 n c rest => exact ⟨c :: rest, rfl⟩

theorem takeBytes?_eq_some_iff {offset : Nat} {chars left : List Char} :
    takeBytes? offset chars = some left ↔
      ∃ right, chars = left ++ right ∧ byteLength left = offset := by
  simp only [takeBytes?, Option.ite_none_right_eq_some, Option.some.injEq]
  constructor
  · rintro ⟨length, rfl⟩
    obtain ⟨right, shape⟩ := before_prefix offset chars
    exact ⟨right, shape, length⟩
  · rintro ⟨right, rfl, rfl⟩
    rw [before_append]
    exact ⟨rfl, rfl⟩

/-- A slice is the middle part of the text between two cuts. -/
theorem slice?_eq_some_iff {chars middle : List Char} {start stop : Nat} :
    slice? chars start stop = some middle ↔
      ∃ left right, chars = left ++ (middle ++ right) ∧ byteLength left = start ∧
        start + byteLength middle = stop := by
  constructor
  · intro sliced
    rw [slice?] at sliced
    split at sliced
    · rename_i order
      obtain ⟨tail, dropped, taken⟩ := Option.bind_eq_some_iff.mp sliced
      obtain ⟨left, shape, length⟩ := dropBytes?_eq_some_iff.mp dropped
      obtain ⟨right, rest, width⟩ := takeBytes?_eq_some_iff.mp taken
      exact ⟨left, right, by rw [shape, rest], length, by omega⟩
    · cases sliced
  · rintro ⟨left, right, rfl, rfl, rfl⟩
    rw [slice?, if_pos (Nat.le_add_right _ _), dropBytes?_append]
    exact takeBytes?_eq_some_iff.mpr ⟨right, rfl, by omega⟩

/-- Two cuts in order enclose a slice. -/
theorem slice?_of_cuts {chars : List Char} {start stop : Nat} (first : Cut chars start)
    (second : Cut chars stop) (order : start ≤ stop) :
    ∃ middle, slice? chars start stop = some middle := by
  obtain ⟨left, right, shape, rfl⟩ := first
  obtain ⟨left', right', shape', rfl⟩ := second
  obtain ⟨middle, rfl⟩ := cuts_nested (shape.symm.trans shape') order
  refine ⟨middle, slice?_eq_some_iff.mpr ⟨left, right', ?_, rfl, ?_⟩⟩
  · rw [shape', List.append_assoc]
  · rw [byteLength_append]

theorem cut_zero (chars : List Char) : Cut chars 0 := ⟨[], chars, rfl, rfl⟩

theorem cut_le {chars : List Char} {offset : Nat} (cut : Cut chars offset) :
    offset ≤ byteLength chars := by
  obtain ⟨left, right, rfl, rfl⟩ := cut
  rw [byteLength_append]
  omega

theorem takeBytes?_of_cut {chars : List Char} {offset : Nat} (cut : Cut chars offset) :
    ∃ left, takeBytes? offset chars = some left := by
  obtain ⟨left, right, shape, length⟩ := cut
  exact ⟨left, takeBytes?_eq_some_iff.mpr ⟨right, shape, length⟩⟩

theorem dropBytes?_of_cut {chars : List Char} {offset : Nat} (cut : Cut chars offset) :
    ∃ right, dropBytes? offset chars = some right := by
  obtain ⟨left, right, shape, length⟩ := cut
  exact ⟨right, dropBytes?_eq_some_iff.mpr ⟨left, shape, length⟩⟩

end KindLift.TextBoundary
