import KindLift.Decl.Outline
import KindLift.Proofs.TextBoundary
import KindLift.Proofs.Traversal
import Mathlib.Data.List.Induction
import Mathlib.Data.Prod.Lex
import Mathlib.Order.Bounds.Basic
import Mathlib.Order.Monotone.Defs

/-! Offsets and positions. The position of an offset is found by counting the lines and the
bytes in front of it, and it leads back to the offset when that is a boundary. Every error
stands at a boundary of its source and says the position of it: the one that is reached
by going over what is in front of the error is the one that is counted for its offset. -/
namespace KindLift.SourcePositions
open Text TextBoundary
open Traversal (bind_eq_error_iff)

/-- The position behind a text: its line feeds are counted, and so are the bytes behind the
last one. -/
def behind (text : List Char) : Position := ⟨text.count '\n' + 1, byteLength (lastLine text) + 1⟩

/-- The offset right behind so many line feeds. -/
def behindFeeds? : Nat → List Char → Option Nat
  | 0, _ => some 0
  | _ + 1, [] => none
  | feeds + 1, c :: rest => (behindFeeds? (if c = '\n' then feeds else feeds + 1) rest).map (c.utf8Size + ·)

/-- Positions are ordered by their lines first. -/
def key (position : Position) : ℕ ×ₗ ℕ := toLex (position.line, position.column)

/-- The error stands at the last boundary that does not lie behind the offset. That is the one
which is found by stepping down from the offset, where the text can be cut, and the position of
the offset is the one of the error, which is counted in front of the boundary. -/
structure Placed (source : List Char) (offset : Nat) (error : ParseError) : Prop where
  boundary : IsGreatest {boundary | isBoundary source boundary = true ∧ boundary ≤ min offset (byteLength source)} error.offset
  below : boundaryBelow source (min offset (byteLength source)) = error.offset
  sliced : (takeBytes? error.offset source).isSome = true
  position : error.position = Position.ofOffset source offset
  counted : ∃ left right, source = left ++ right ∧ byteLength left = error.offset ∧ error.position = behind left

variable {source left right rest : List Char} {c : Char} {offset : Nat} {error : ParseError}

/-! ### Boundaries -/

theorem byteLength_before_le (offset : Nat) (chars : List Char) : byteLength (before offset chars) ≤ offset := by
  fun_induction before offset chars with
  | case1 => exact Nat.zero_le _
  | case2 offset c rest fits ih =>
    rw [byteLength_cons]
    omega
  | case3 => exact Nat.zero_le _

/-- What fits is in front of the offset. -/
theorem before_of_fits (fits : byteLength left ≤ offset) (right : List Char) :
    before offset (left ++ right) = left ++ before (offset - byteLength left) right := by
  induction left generalizing offset with
  | nil => rfl
  | cons c left ih =>
    rw [byteLength_cons] at fits ⊢
    rw [List.cons_append, before, if_pos (by omega), ih (by omega), Nat.sub_sub, List.cons_append]

theorem floorBoundary_isGreatest (source : List Char) (offset : Nat) :
    IsGreatest {boundary | isBoundary source boundary = true ∧ boundary ≤ min offset (byteLength source)}
      (floorBoundary source offset) := by
  obtain ⟨right, shape⟩ := before_prefix offset source
  have cut : Cut source (floorBoundary source offset) := ⟨_, right, shape, rfl⟩
  refine ⟨⟨isBoundary_iff.mpr cut, Nat.le_min.mpr ⟨byteLength_before_le offset source, cut_le cut⟩⟩, ?_⟩
  rintro _ ⟨boundary, bound⟩
  obtain ⟨left, right, rfl, rfl⟩ := isBoundary_iff.mp boundary
  rw [floorBoundary, before_of_fits (Nat.le_trans bound (Nat.min_le_left _ _)), byteLength_append]
  exact Nat.le_add_right _ _

/-- Stepping down ends at the last boundary that is not above. -/
theorem boundaryBelow_isGreatest (source : List Char) (offset : Nat) :
    IsGreatest {boundary | isBoundary source boundary = true ∧ boundary ≤ offset} (boundaryBelow source offset) := by
  induction offset with
  | zero => exact ⟨⟨isBoundary_iff.mpr (cut_zero source), le_rfl⟩, fun _ found => found.2⟩
  | succ offset ih =>
    rw [boundaryBelow]
    split
    · rename_i here
      exact ⟨⟨here, le_rfl⟩, fun _ found => found.2⟩
    · rename_i inside
      refine ⟨⟨ih.1.1, Nat.le_succ_of_le ih.1.2⟩, fun boundary found => ih.2 ⟨found.1, ?_⟩⟩
      refine Nat.le_of_lt_succ (Nat.lt_of_le_of_ne found.2 ?_)
      rintro rfl
      exact inside found.1

/-- Stepping down and taking what fits end at the same boundary. -/
theorem boundaryBelow_eq (source : List Char) (offset : Nat) :
    boundaryBelow source (min offset (byteLength source)) = floorBoundary source offset :=
  (boundaryBelow_isGreatest source _).unique (floorBoundary_isGreatest source offset)

/-- A text can be cut behind what fits. -/
theorem takeBytes?_floorBoundary (source : List Char) (offset : Nat) :
    takeBytes? (floorBoundary source offset) source = some (before offset source) := by
  obtain ⟨right, shape⟩ := before_prefix offset source
  have again := before_append (before offset source) right
  rw [← shape] at again
  rw [takeBytes?, floorBoundary, again, if_pos rfl]

/-! ### Counting -/

/-- Behind the last occurrence of a character there is none of it. -/
theorem lastOffset?_spec (c : Char) (chars : List Char) :
    match lastOffset? c chars with
    | none => c ∉ chars
    | some offset => ∃ front line, chars = front ++ c :: line ∧ c ∉ line ∧ byteLength front = offset := by
  induction chars with
  | nil => exact List.not_mem_nil
  | cons d rest ih =>
    rw [lastOffset?]
    cases found : lastOffset? c rest with
    | some offset =>
      rw [found] at ih
      obtain ⟨front, line, rfl, free, width⟩ := ih
      exact ⟨d :: front, line, rfl, free, by rw [byteLength_cons, width]⟩
    | none =>
      rw [found] at ih
      by_cases same : d = c
      · simp only [if_pos same]
        exact ⟨[], rest, by rw [same]; rfl, ih, rfl⟩
      · simp only [if_neg same]
        exact List.not_mem_cons_of_ne_of_not_mem (Ne.symm same) ih

theorem lastLine_behind (front : List Char) {line : List Char} (inLine : '\n' ∉ line) :
    lastLine (front ++ '\n' :: line) = line := by
  induction line using List.reverseRecOn with
  | nil => exact lastLine_feed front
  | append_singleton line c ih =>
    rw [List.mem_append, not_or, List.mem_singleton] at inLine
    rw [← List.cons_append, ← List.append_assoc, lastLine_snoc (Ne.symm inLine.2), ih inLine.1]

theorem lastLine_inline {line : List Char} (inLine : '\n' ∉ line) : lastLine line = line := by
  induction line using List.reverseRecOn with
  | nil => rfl
  | append_singleton line c ih =>
    rw [List.mem_append, not_or, List.mem_singleton] at inLine
    rw [lastLine_snoc (Ne.symm inLine.2), ih inLine.1]

/-- The bytes behind the last line feed are those of the last line. -/
theorem width_eq (front : List Char) :
    (match lastOffset? '\n' front with
      | some feed => byteLength front - feed - 1
      | none => byteLength front) = byteLength (lastLine front) := by
  have spec := lastOffset?_spec '\n' front
  cases found : lastOffset? '\n' front with
  | none =>
    rw [found] at spec
    rw [lastLine_inline spec]
  | some feed =>
    rw [found] at spec
    obtain ⟨before, line, rfl, free, rfl⟩ := spec
    have size : '\n'.utf8Size = 1 := rfl
    have whole : byteLength (before ++ '\n' :: line) = byteLength before + 1 + byteLength line := by
      rw [byteLength_append, byteLength_cons, size, Nat.add_assoc]
    show byteLength (before ++ '\n' :: line) - byteLength before - 1 = _
    rw [lastLine_behind before free, whole]
    omega

/-- The position of an offset is the one behind what fits in front of it. -/
theorem ofOffset_eq (source : List Char) (offset : Nat) : Position.ofOffset source offset = behind (before offset source) := by
  unfold Position.ofOffset
  dsimp only
  rw [boundaryBelow_eq, takeBytes?_floorBoundary, Option.getD_some]
  exact congrArg (Position.mk _ <| · + 1) (width_eq _)

/-- One more character moves the position on. -/
theorem behind_snoc (text : List Char) (c : Char) : behind (text ++ [c]) = (behind text).advance c := by
  by_cases feed : c = '\n'
  · simp [behind, Position.advance, feed]
  · simp [behind, Position.advance, lastLine_snoc, feed, Nat.add_right_comm]

/-- Going over a text character by character comes to the position that is counted. -/
theorem after_eq (text : List Char) : Position.after text = behind text := by
  induction text using List.reverseRecOn with
  | nil => rfl
  | append_singleton text c ih =>
    rw [Position.after] at ih ⊢
    rw [List.foldl_append, ih, behind_snoc, List.foldl_cons, List.foldl_nil]

theorem ofOffset_append (left right : List Char) : Position.ofOffset (left ++ right) (byteLength left) = behind left := by
  rw [ofOffset_eq, before_append]

theorem locate_placed (source : List Char) (offset : Nat) (cause : ParseCause) :
    Placed source offset (.locate source offset cause) where
  boundary := floorBoundary_isGreatest source offset
  below := boundaryBelow_eq source offset
  sliced := Option.isSome_iff_exists.mpr ⟨_, takeBytes?_floorBoundary source offset⟩
  position := (after_eq _).trans (ofOffset_eq source offset).symm
  counted := by
    obtain ⟨right, shape⟩ := before_prefix offset source
    exact ⟨_, right, shape, rfl, after_eq _⟩

/-! ### The way back -/

/-- A line feed is behind the line feeds in front of it. -/
theorem behindFeeds?_feed (text rest : List Char) :
    behindFeeds? (text.count '\n' + 1) (text ++ '\n' :: rest) = some (byteLength (text ++ ['\n'])) := by
  induction text with
  | nil => simp [behindFeeds?]
  | cons c text ih =>
    rw [List.cons_append, behindFeeds?]
    by_cases feed : c = '\n'
    · rw [if_pos feed, feed, List.count_cons_self, ih]
      rfl
    · rw [if_neg feed, List.count_cons_of_ne feed, ih]
      rfl

/-- The last line of a text begins behind all its line feeds. -/
theorem behindFeeds?_count (text rest : List Char) : ∃ start,
    behindFeeds? (text.count '\n') (text ++ rest) = some start ∧ byteLength text = start + byteLength (lastLine text) := by
  induction text using List.reverseRecOn generalizing rest with
  | nil => exact ⟨0, by simp [behindFeeds?], rfl⟩
  | append_singleton text c ih =>
    rw [List.append_assoc, List.singleton_append, List.count_append]
    by_cases feed : c = '\n'
    · subst feed
      exact ⟨_, behindFeeds?_feed text rest, by simp⟩
    · obtain ⟨start, found, width⟩ := ih (c :: rest)
      refine ⟨start, by simpa [feed] using found, ?_⟩
      rw [lastLine_snoc feed, byteLength_append, byteLength_append, width, Nat.add_assoc]

/-! ### Order -/

/-- Every character moves the position on. -/
theorem key_advance (position : Position) (c : Char) : key position < key (position.advance c) := by
  have size := c.utf8Size_pos
  rw [key, key, Prod.Lex.toLex_lt_toLex, Position.advance]
  split
  · exact .inl (Nat.lt_succ_self _)
  · exact .inr ⟨rfl, Nat.lt_add_of_pos_right size⟩

theorem key_foldl (position : Position) (text : List Char) : key position ≤ key (text.foldl Position.advance position) := by
  induction text generalizing position with
  | nil => exact le_rfl
  | cons c text ih => exact (key_advance position c).le.trans (ih _)

theorem key_strictMonoOn (source : List Char) :
    StrictMonoOn (fun offset => key (.ofOffset source offset)) {boundary | isBoundary source boundary = true} := by
  intro offset boundary offset' boundary' order
  obtain ⟨left, right, shape, rfl⟩ := isBoundary_iff.mp boundary
  obtain ⟨left', right', shape', rfl⟩ := isBoundary_iff.mp boundary'
  obtain ⟨middle, rfl⟩ := cuts_nested (shape.symm.trans shape') (Nat.le_of_lt order)
  cases middle with
  | nil => simp at order
  | cons c middle =>
    have first : Position.ofOffset source (byteLength left) = .after left := by
      rw [shape, ofOffset_append, after_eq]
    have second : Position.ofOffset source (byteLength (left ++ c :: middle)) =
        middle.foldl Position.advance ((Position.after left).advance c) := by
      rw [shape', ofOffset_append, ← after_eq, Position.after, List.foldl_append, List.foldl_cons]
      rfl
    show key _ < key _
    rw [first, second]
    exact (key_advance _ c).trans_le (key_foldl _ _)

/-! ### Errors -/

theorem scan_located (failed : Token.scan source = .error error) : ∃ offset, error = .locate source offset error.cause := by
  rw [Token.scan] at failed
  split at failed
  · cases failed
  · cases failed
    exact ⟨_, rfl⟩

theorem onTokens_located {parser : Parser α} {tokens : List Token} (failed : parser.onTokens source tokens = .error error) :
    ∃ offset, error = .locate source offset error.cause := by
  rw [Parser.onTokens] at failed
  split at failed
  · cases failed
  · cases failed
    exact ⟨_, rfl⟩

theorem parse_located (failed : Outline.parse source = .error error) : ∃ offset, error = .locate source offset error.cause := by
  rw [Outline.parse] at failed
  rcases bind_eq_error_iff.mp failed with unread | ⟨tokens, -, later⟩
  · exact scan_located unread
  · rcases bind_eq_error_iff.mp later with refused | ⟨outline, -, done⟩
    · exact onTokens_located refused
    · cases done

theorem parsePreamble_located (failed : Outline.parsePreamble source = .error error) :
    ∃ offset, error = .locate source offset error.cause := by
  rw [Outline.parsePreamble] at failed
  rcases bind_eq_error_iff.mp failed with unread | ⟨tokens, -, refused⟩
  · exact scan_located unread
  · exact onTokens_located refused

/-- The position of an offset and the one of an error at it are the same, and both are counted
at the last boundary that does not lie behind the offset. A boundary can be told from its
position, and later ones have later positions. All errors of the scanner, of the parser and of
the reader of preambles stand at such places. -/
theorem positions_agree (source : List Char) :
    (∀ offset cause, Placed source offset (.locate source offset cause)) ∧
      (∀ boundary, isBoundary source boundary = true → ∃ feeds bytes start,
        Position.ofOffset source boundary = ⟨feeds + 1, bytes + 1⟩ ∧ behindFeeds? feeds source = some start ∧
          boundary = start + bytes) ∧
      StrictMonoOn (fun offset => key (.ofOffset source offset)) {boundary | isBoundary source boundary = true} ∧
      ∀ error, (Token.scan source = .error error ∨ Outline.parse source = .error error ∨
        Outline.parsePreamble source = .error error) → ∃ offset, Placed source offset error := by
  refine ⟨locate_placed source, fun boundary stands => ?_, key_strictMonoOn source, fun error failed => ?_⟩
  · obtain ⟨left, right, rfl, rfl⟩ := isBoundary_iff.mp stands
    obtain ⟨start, found, width⟩ := behindFeeds?_count left right
    exact ⟨_, _, start, ofOffset_append left right, found, width⟩
  · obtain ⟨offset, placed⟩ : ∃ offset, error = .locate source offset error.cause := by
      rcases failed with unread | refused | refused
      · exact scan_located unread
      · exact parse_located refused
      · exact parsePreamble_located refused
    exact ⟨offset, placed ▸ locate_placed source offset error.cause⟩

/-- A string that does not end, with letters of two bytes in it and in front of it. -/
def accentedText : List Char := "\u00e9\n\"\u00fc".toList

theorem accentedText_placed :
    isBoundary accentedText 5 = false ∧ Placed accentedText 5 (.locate accentedText 5 .unbalanced) ∧
      (ParseError.locate accentedText 5 .unbalanced).offset = 4 ∧
      isBoundary accentedText 4 = true ∧
      (∃ feeds bytes start, Position.ofOffset accentedText 4 = ⟨feeds + 1, bytes + 1⟩ ∧
        behindFeeds? feeds accentedText = some start ∧ 4 = start + bytes) ∧
      key (.ofOffset accentedText 3) < key (.ofOffset accentedText 4) ∧
      ∃ error, Token.scan accentedText = .error error ∧ ∃ offset, Placed accentedText offset error := by
  obtain ⟨placed, back, increasing, errors⟩ := positions_agree accentedText
  have unread : (Token.scan accentedText).toOption = none := by decide +kernel
  refine ⟨by decide, placed 5 .unbalanced, by decide, by decide, back 4 (by decide), ?_, ?_⟩
  · exact @increasing 3 (by decide) 4 (by decide) (by decide)
  · cases failed : Token.scan accentedText with
    | ok tokens =>
      rw [failed] at unread
      cases unread
    | error error => exact ⟨error, rfl, errors error (.inl failed)⟩

end KindLift.SourcePositions
