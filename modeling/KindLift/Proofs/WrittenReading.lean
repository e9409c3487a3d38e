import KindLift.Proofs.QualifiedCursor
import KindLift.Proofs.WrittenTokens

/-! Parsers over written texts. `ReadsAs` says what a parser makes of written tokens,
and that it stops right behind them; what is written one after the other is read one
after the other. -/
namespace KindLift.WrittenReading
open Text KindLift.Parser TextBoundary WrittenTokens
open ParserLogic (bind_ok)

variable {source : List Char} {offset : Nat} {piece : Piece} {pieces front back : List Piece} {rest tokens : List Token}
  {kind : TokenKind} {what : String}

/-- The parser reads the pieces, which begin at the offset, as `value`. -/
def ReadsAs (source : List Char) (parser : Parser α) (offset : Nat) (pieces : List Piece) (rest : List Token)
    (value : α) : Prop :=
  parser source ⟨place offset pieces ++ rest, offset⟩ = .ok (value, ⟨rest, offset + width pieces⟩)

theorem ReadsAs.pure {value : α} : ReadsAs source (Pure.pure value) offset [] tokens value := rfl

/-- First some pieces, then others. -/
theorem ReadsAs.bind (front : List Piece) {parser : Parser α} {body : α → Parser β} {value : α} {result : β}
    (first : ReadsAs source parser offset front (place (offset + width front) back ++ rest) value)
    (second : ReadsAs source (body value) (offset + width front) back rest result) :
    ReadsAs source (parser >>= body) offset (front ++ back) rest result := by
  unfold ReadsAs at *
  rw [place_append, List.append_assoc, bind_ok first, second, width_append, Nat.add_assoc]

/-- First one piece, then others. -/
theorem ReadsAs.next {parser : Parser α} {body : α → Parser β} {value : α} {result : β}
    (first : ReadsAs source parser offset [piece] (place (offset + piece.width) back ++ rest) value)
    (second : ReadsAs source (body value) (offset + piece.width) back rest result) :
    ReadsAs source (parser >>= body) offset (piece :: back) rest result := by
  rw [← width_singleton] at first second
  exact ReadsAs.bind [piece] first second

/-- First a parser that reads nothing, then another from the same place. -/
theorem ReadsAs.look {parser : Parser α} {body : α → Parser β} {value : α} {result : β}
    (first : ReadsAs source parser offset [] (place offset pieces ++ rest) value)
    (second : ReadsAs source (body value) offset pieces rest result) :
    ReadsAs source (parser >>= body) offset pieces rest result := ReadsAs.bind [] first second

theorem ReadsAs.glance {parser : Parser α} {body : α → Parser β} {value : α} {result : β}
    (first : ReadsAs source parser offset [] tokens value) (second : ReadsAs source (body value) offset [] tokens result) :
    ReadsAs source (parser >>= body) offset [] tokens result := ReadsAs.bind [] first second

/-- First a parser that reads everything, then another from where it has stopped. -/
theorem ReadsAs.last {parser : Parser α} {body : α → Parser β} {value : α} {result : β}
    (first : ReadsAs source parser offset pieces rest value)
    (second : ReadsAs source (body value) (offset + width pieces) [] rest result) :
    ReadsAs source (parser >>= body) offset pieces rest result := by
  have read := ReadsAs.bind pieces first second
  rw [List.append_nil] at read
  exact read

/-! ### Single tokens -/

theorem reads_peek? : ReadsAs source peek? offset [] tokens tokens.head? := rfl

theorem reads_peekKind? : ReadsAs source peekKind? offset [] tokens (tokens.head?.map Token.kind) := rfl

theorem reads_secondKind? : ReadsAs source secondKind? offset [] tokens (tokens[1]?.map Token.kind) := rfl

theorem reads_lastStop : ReadsAs source Parser.lastStop offset [] tokens offset := rfl

theorem reads_source : ReadsAs source read offset [] tokens source := rfl

theorem reads_here : ReadsAs source here offset [] (piece.token offset :: tokens) (offset + byteLength piece.gap) := rfl

/-- One piece is read as its token. -/
theorem reads_token {parser : Parser α} {value : α}
    (first : parser source ⟨piece.token offset :: rest, offset⟩ = .ok (value, ⟨rest, (piece.token offset).stop⟩)) :
    ReadsAs source parser offset [piece] rest value := by
  rw [Piece.token_stop] at first
  rw [ReadsAs, place_cons, place_nil, List.singleton_append, first, width_cons, width_nil, Nat.add_zero]

theorem reads_bump : ReadsAs source bump offset [piece] rest (some (piece.token offset)) := reads_token rfl

theorem reads_isAt (first : tokens.head?.map Token.kind = some kind) :
    ReadsAs source (isAt kind) offset [] tokens true := by
  show Except.ok (decide (tokens.head?.map Token.kind = some kind), _) = _
  rw [first, decide_eq_true rfl]
  rfl

theorem reads_isAt_other (other : tokens.head?.map Token.kind ≠ some kind) :
    ReadsAs source (isAt kind) offset [] tokens false := by
  show Except.ok (decide (tokens.head?.map Token.kind = some kind), _) = _
  rw [decide_eq_false other]
  rfl

theorem reads_eat? (same : piece.lexeme.kind = kind) :
    ReadsAs source (eat? kind) offset [piece] rest (some (piece.token offset)) :=
  .look (reads_isAt (congrArg some same)) reads_bump

theorem reads_eats (same : piece.lexeme.kind = kind) : ReadsAs source (eats kind) offset [piece] rest true :=
  ReadsAs.next (reads_eat? same) .pure

theorem reads_eats_other (other : tokens.head?.map Token.kind ≠ some kind) :
    ReadsAs source (eats kind) offset [] tokens false :=
  .glance (.glance (reads_isAt_other other) .pure) .pure

theorem reads_expect (same : piece.lexeme.kind = kind) :
    ReadsAs source (expect kind what) offset [piece] rest (piece.token offset) :=
  ReadsAs.next (reads_eat? same) .pure

theorem reads_name? {name : Name} {gap : List Char} :
    ReadsAs source name? offset [⟨gap, .name name⟩] rest (some ((Piece.mk gap (.name name)).token offset)) :=
  .look reads_peek? reads_bump

theorem reads_expectName {name : Name} {gap : List Char} :
    ReadsAs source (expectName what) offset [⟨gap, .name name⟩] rest ((Piece.mk gap (.name name)).token offset) :=
  ReadsAs.next reads_name? .pure

/-! ### Repetition -/

section Iteration

variable {step : σ → Parser (Step σ ρ)} {state later : σ} {result : ρ}

/-- The step reads some pieces and is then taken again. -/
theorem ReadsAs.again (front : List Piece) (first : ReadsAs source (step state) offset front (place (offset + width front) back ++ rest)
    (.again later)) (nonempty : front ≠ [])
    (others : ReadsAs source (iterate step later) (offset + width front) back rest result) :
    ReadsAs source (iterate step state) offset (front ++ back) rest result := by
  have shorter : (place (offset + width front) back ++ rest).length < (place offset (front ++ back) ++ rest).length := by
    have := List.length_pos_iff.mpr nonempty
    simp only [List.length_append, length_place]
    omega
  unfold ReadsAs at *
  show iterateFrom step state source _ = _
  rw [place_append, List.append_assoc] at shorter ⊢
  rw [iterateFrom, first]
  dsimp only
  rw [if_pos shorter, width_append, ← Nat.add_assoc]
  exact others

theorem ReadsAs.done (first : ReadsAs source (step state) offset pieces rest (.done result)) :
    ReadsAs source (iterate step state) offset pieces rest result := by
  unfold ReadsAs at *
  show iterateFrom step state source _ = _
  rw [iterateFrom, first]

end Iteration

/-- What is read off items that are written one after the other, each at its place. -/
def readAll (write : α → List Piece) (read : Nat → α → β) : Nat → List α → List β
  | _, [] => []
  | offset, item :: rest => read offset item :: readAll write read (offset + width (write item)) rest

/-- What is the same at all places. -/
theorem map_readAll {write : α → List Piece} {read : Nat → α → β} {items : List α} {f : β → γ} {g : α → γ}
    (same : ∀ item ∈ items, ∀ offset, f (read offset item) = g item) (offset : Nat) :
    (readAll write read offset items).map f = items.map g := by
  induction items generalizing offset with
  | nil => rfl
  | cons item items ih =>
    obtain ⟨first, others⟩ := List.forall_mem_cons.mp same
    rw [readAll, List.map_cons, List.map_cons, first, ih others]

/-- What holds of each item and what is read off it, wherever it stands. -/
theorem related_readAll {write : α → List Piece} {read : Nat → α → β} {relates : α → β → Prop} {items : List α}
    (each : ∀ item ∈ items, ∀ offset, relates item (read offset item)) (offset : Nat) :
    List.Forall₂ relates items (readAll write read offset items) := by
  induction items generalizing offset with
  | nil => exact .nil
  | cons item items ih =>
    obtain ⟨first, others⟩ := List.forall_mem_cons.mp each
    exact .cons (first offset) (ih others _)

theorem readAll_append {write : α → List Piece} {read : Nat → α → β} (front back : List α) (offset : Nat) :
    readAll write read offset (front ++ back) =
      readAll write read offset front ++ readAll write read (offset + width (front.flatMap write)) back := by
  induction front generalizing offset with
  | nil => rfl
  | cons item front ih => rw [List.cons_append, readAll, ih, readAll, List.flatMap_cons, width_append, Nat.add_assoc, List.cons_append]

/-! ### Places in a source -/

/-- The pieces stand in the source from the offset on. -/
def Sits (source : List Char) (offset : Nat) (pieces : List Piece) : Prop :=
  ∃ before after, source = before ++ (written pieces ++ after) ∧ byteLength before = offset

theorem Sits.left (front : List Piece) (sits : Sits source offset (front ++ back)) : Sits source offset front := by
  obtain ⟨before, after, rfl, place⟩ := sits
  exact ⟨before, written back ++ after, by simp, place⟩

theorem Sits.right (front : List Piece) (sits : Sits source offset (front ++ back)) : Sits source (offset + width front) back := by
  obtain ⟨before, after, rfl, place⟩ := sits
  exact ⟨before ++ written front, after, by simp, by rw [byteLength_append, place, width]⟩

theorem Sits.tail (sits : Sits source offset (piece :: pieces)) : Sits source (offset + piece.width) pieces := by
  rw [← width_singleton]
  exact Sits.right [piece] sits

/-- The blanks in front of the pieces. -/
def leadOf (pieces : List Piece) : List Char := (pieces.head?.map Piece.gap).getD []

/-- The text of the pieces without the blanks in front of them. -/
def body : List Piece → List Char
  | [] => []
  | piece :: rest => piece.lexeme.chars ++ written rest

theorem written_eq (pieces : List Piece) : written pieces = leadOf pieces ++ body pieces := by
  cases pieces with
  | nil => rfl
  | cons piece rest => simp [leadOf, body, Piece.chars]

/-- The span of the pieces without the blanks in front of them. -/
def reach (offset : Nat) (pieces : List Piece) : Span := ⟨offset + byteLength (leadOf pieces), offset + width pieces⟩

theorem slice?_reach (sits : Sits source offset pieces) :
    slice? source (reach offset pieces).start (reach offset pieces).stop = some (body pieces) := by
  obtain ⟨before, after, shape, place⟩ := sits
  refine slice?_eq_some_iff.mpr ⟨before ++ leadOf pieces, after, ?_, ?_, ?_⟩
  · rw [shape, written_eq]
    simp
  · rw [byteLength_append, place, reach]
  · rw [reach, width, written_eq, byteLength_append, Nat.add_assoc]

theorem chars_reach (sits : Sits source offset pieces) : (reach offset pieces).chars source = body pieces := by
  rw [Span.chars, slice?_reach sits, Option.getD_some]

theorem leadOf_le_width (pieces : List Piece) : byteLength (leadOf pieces) ≤ width pieces := by
  rw [width, written_eq, byteLength_append]
  omega

/-- Two spans with other pieces between them, taken together. -/
theorem cover_reach_past (nonempty : front ≠ []) (offset : Nat) (middle back : List Piece) :
    (reach offset front).cover (reach (offset + width front + width middle) back) =
      reach offset (front ++ (middle ++ back)) := by
  have inside := leadOf_le_width front
  have lead : leadOf (front ++ (middle ++ back)) = leadOf front := by
    cases front with
    | nil => exact absurd rfl nonempty
    | cons piece rest => rfl
  simp only [Span.cover, reach, lead, width_append, Span.mk.injEq]
  omega

theorem cover_reach (nonempty : front ≠ []) (offset : Nat) (back : List Piece) :
    (reach offset front).cover (reach (offset + width front) back) = reach offset (front ++ back) :=
  cover_reach_past nonempty offset [] back

theorem gap_le_width (piece : Piece) : byteLength piece.gap ≤ piece.width := by simp [Piece.width, Piece.chars]

theorem span_token (offset : Nat) (piece : Piece) : (piece.token offset).span = reach offset [piece] := by
  simp [Token.span, reach, leadOf]

end KindLift.WrittenReading
