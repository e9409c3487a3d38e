import KindLift.Proofs.WrittenReading

/-! Bracket groups in written texts. Whether brackets match is decided on what is
written; what is between matching brackets is then read over as a whole. -/
namespace KindLift.WrittenGroups
open Token Text KindLift.Parser QualifiedTokens WrittenTokens WrittenReading
open ParserLogic (bind_ok)

variable {pieces front back inner : List Piece} {stops : TokenKind → Bool} {bracket : Bracket}
  {opened left : List Bracket} {gap gap' : List Char} {source : List Char} {offset : Nat} {rest tokens : List Token}
  {kind : TokenKind}

/-- The brackets open behind the pieces, when `opened` were open in front of them.
There are none when brackets do not match, or when a token outside of all brackets
`stops`. -/
def track (stops : TokenKind → Bool) : List Bracket → List Piece → Option (List Bracket)
  | opened, [] => some opened
  | opened, piece :: rest =>
    if opened.isEmpty && stops piece.lexeme.kind then none
    else match piece.lexeme.kind with
      | .opener bracket => track stops (bracket :: opened) rest
      | .closer bracket =>
        match opened with
        | first :: outer => if bracket = first then track stops outer rest else none
        | [] => none
      | _ => track stops opened rest

theorem track_append (stops : TokenKind → Bool) (opened : List Bracket) (front back : List Piece) :
    track stops opened (front ++ back) = (track stops opened front).bind fun left => track stops left back := by
  induction front generalizing opened with
  | nil => rfl
  | cons piece front ih =>
    rw [List.cons_append, track, track]
    split
    · rfl
    · split
      · exact ih _
      · split
        · split
          · exact ih _
          · rfl
        · rfl
      · exact ih _

/-- All brackets match. -/
def IsNested (pieces : List Piece) : Prop := ∀ opened, track (fun _ => false) opened pieces = some opened

theorem IsNested.nil : IsNested [] := fun _ => rfl

theorem IsNested.append (first : IsNested front) (second : IsNested back) : IsNested (front ++ back) := by
  intro opened
  rw [track_append, first, Option.bind_some, second]

theorem IsNested.flatMap {items : List α} {write : α → List Piece} (each : ∀ item ∈ items, IsNested (write item)) :
    IsNested (items.flatMap write) := by
  induction items with
  | nil => exact .nil
  | cons item items ih =>
    obtain ⟨first, others⟩ := List.forall_mem_cons.mp each
    exact first.append (ih others)

/-- A sequence in brackets. -/
def group (gap : List Char) (bracket : Bracket) (inner : List Piece) (gap' : List Char) : List Piece :=
  ⟨gap, .opener bracket⟩ :: (inner ++ [⟨gap', .closer bracket⟩])

theorem IsNested.group (nested : IsNested inner) : IsNested (group gap bracket inner gap') := by
  intro opened
  simp [WrittenGroups.group, track, track_append, nested (bracket :: opened)]

theorem IsNested.cons {piece : Piece} (single : IsPlain piece.lexeme.kind) (nested : IsNested inner) :
    IsNested (piece :: inner) := by
  intro opened
  rw [track, Bool.and_false, if_neg Bool.false_ne_true]
  split
  · exact absurd ‹_› (single.1 _)
  · exact absurd ‹_› (single.2 _)
  · exact nested opened

/-- Inside of a bracket nothing stops. -/
theorem track_inside (tracked : track (fun _ => false) opened pieces = some left) (stops : TokenKind → Bool)
    (outer : List Bracket) : track stops (opened ++ bracket :: outer) pieces = some (left ++ bracket :: outer) := by
  induction pieces generalizing opened with
  | nil =>
    cases tracked
    rfl
  | cons piece pieces ih =>
    rw [track, Bool.and_false, if_neg Bool.false_ne_true] at tracked
    have within : ((opened ++ bracket :: outer).isEmpty && stops piece.lexeme.kind) = false := by cases opened <;> rfl
    rw [track, within, if_neg Bool.false_ne_true]
    split at tracked
    · exact ih tracked
    · split at tracked
      · split at tracked
        · rename_i same
          subst same
          dsimp only [List.cons_append]
          rw [if_pos rfl]
          exact ih tracked
        · cases tracked
      · cases tracked
    · exact ih tracked

/-- A group leaves the open brackets as they are. -/
theorem track_group (nested : IsNested inner) (free : (opened.isEmpty && stops (.opener bracket)) = false)
    (later : List Piece) :
    track stops opened (WrittenGroups.group gap bracket inner gap' ++ later) = track stops opened later := by
  have inside := @track_inside inner bracket [] [] (nested []) stops opened
  rw [List.nil_append] at inside
  simp [WrittenGroups.group, track, track_append, free, inside]

theorem track_group_last (nested : IsNested inner) (free : (opened.isEmpty && stops (.opener bracket)) = false) :
    track stops opened (WrittenGroups.group gap bracket inner gap') = some opened := by
  have last := @track_group inner stops bracket opened gap gap' nested free []
  rwa [List.append_nil] at last

/-- Behind pieces whose brackets match, the same brackets are to be closed as in
front of them. -/
theorem closeAll_place (tracked : track (fun _ => false) opened pieces = some left) (last : Bracket)
    (outer : List Bracket) {first next : Bracket} {more others : List Bracket}
    (before : opened ++ last :: outer = first :: more) (after : left ++ last :: outer = next :: others) (offset : Nat)
    (rest : List Token) :
    closeAll first more (place offset pieces ++ rest) = (closeAll next others rest).map (· + pieces.length) := by
  induction pieces generalizing opened first more offset with
  | nil =>
    cases tracked
    rw [before] at after
    cases after
    simp
  | cons piece pieces ih =>
    rw [track, Bool.and_false, if_neg Bool.false_ne_true] at tracked
    rw [place_cons, List.cons_append, closeAll.eq_def]
    dsimp only [Piece.token_kind]
    have count : ∀ found : Option Nat, (found.map (· + pieces.length)).map (· + 1) =
        found.map (· + (piece :: pieces).length) := by
      intro found
      rw [Option.map_map]
      rfl
    rw [← count]
    cases kind : piece.lexeme.kind with
    | opener bracket =>
      rw [kind] at tracked
      dsimp only at tracked ⊢
      rw [ih tracked (by rw [List.cons_append, before])]
    | closer bracket =>
      rw [kind] at tracked
      dsimp only at tracked ⊢
      cases opened with
      | nil => cases tracked
      | cons innermost opened =>
        obtain ⟨rfl, around⟩ := List.cons.inj before
        dsimp only at tracked
        by_cases same : bracket = innermost
        · rw [if_pos same] at tracked ⊢
          cases more with
          | nil => simp at around
          | cons following remaining =>
            dsimp only
            rw [ih tracked around]
        · rw [if_neg same] at tracked
          cases tracked
    | _ =>
      rw [kind] at tracked
      dsimp only at tracked ⊢
      rw [ih tracked before]

/-- What is behind a group, and where the group ends. -/
theorem splitGroup?_group (nested : IsNested inner) (offset : Nat) (rest : List Token) :
    splitGroup? (place offset (group gap bracket inner gap') ++ rest) =
      some ((Piece.mk gap' (.closer bracket)).token (offset + (Piece.mk gap (.opener bracket)).width + width inner), rest) := by
  have closed : closeAll bracket []
      (place (offset + (Piece.mk gap (.opener bracket)).width) inner ++
        ((Piece.mk gap' (.closer bracket)).token (offset + (Piece.mk gap (.opener bracket)).width + width inner) :: rest)) =
      some inner.length := by
    have tracked := closeAll_place (nested []) bracket [] rfl rfl (offset + (Piece.mk gap (.opener bracket)).width)
      ((Piece.mk gap' (.closer bracket)).token (offset + (Piece.mk gap (.opener bracket)).width + width inner) :: rest)
    rw [tracked, closeAll.eq_def]
    simp [Lexeme.kind]
  rw [splitGroup?, group, place_cons, List.cons_append, groupEnd?]
  simp only [Piece.token_kind, Lexeme.kind, place_append, place_cons, place_nil, List.append_assoc, List.cons_append,
    List.nil_append, closed]
  simp [List.drop_append]

theorem width_group (gap : List Char) (bracket : Bracket) (inner : List Piece) (gap' : List Char) :
    width (group gap bracket inner gap') =
      (Piece.mk gap (.opener bracket)).width + width inner + (Piece.mk gap' (.closer bracket)).width := by
  simp [group, Nat.add_assoc]

/-- A group is read as a whole. -/
theorem reads_skipGroup (nested : IsNested inner) :
    ReadsAs source skipGroup offset (group gap bracket inner gap') rest (reach offset (group gap bracket inner gap')) := by
  have ends : ((Piece.mk gap' (.closer bracket)).token (offset + (Piece.mk gap (.opener bracket)).width + width inner)).stop =
      offset + width (group gap bracket inner gap') := by
    rw [Piece.token_stop, width_group]
    omega
  have covers : ((Piece.mk gap (.opener bracket)).token offset).span.cover
      ((Piece.mk gap' (.closer bracket)).token (offset + (Piece.mk gap (.opener bracket)).width + width inner)).span =
        reach offset (group gap bracket inner gap') := by
    have lead := gap_le_width ⟨gap, .opener bracket⟩
    rw [Span.cover, Token.span, Token.span, ends, Piece.token_start, Piece.token_start, Piece.token_stop, reach,
      show leadOf (group gap bracket inner gap') = gap from rfl, width_group, Span.mk.injEq]
    dsimp only at lead ⊢
    omega
  have current : (get : Parser Cursor) source ⟨place offset (group gap bracket inner gap') ++ rest, offset⟩ =
      .ok (⟨place offset (group gap bracket inner gap') ++ rest, offset⟩,
        ⟨place offset (group gap bracket inner gap') ++ rest, offset⟩) := rfl
  rw [ReadsAs, skipGroup, bind_ok current]
  have split := @splitGroup?_group inner bracket gap gap' nested offset rest
  rw [group, place_cons, List.cons_append] at split ⊢
  dsimp only
  rw [split]
  show Except.ok (_, Cursor.mk rest _) = _
  rw [covers, ends]
  rfl

/-! ### Sequences outside of brackets -/


/-- Tokens and groups that are read over one after the other: nothing `stops`, and
all brackets match. -/
inductive Items (stops : TokenKind → Bool) : List Piece → Prop where
  | nil : Items stops []
  | plain {piece : Piece} {later : List Piece} (free : stops piece.lexeme.kind = false)
      (single : IsPlain piece.lexeme.kind) (others : Items stops later) : Items stops (piece :: later)
  | group {gap gap' : List Char} {bracket : Bracket} {inner later : List Piece} (free : stops (.opener bracket) = false)
      (nested : IsNested inner) (others : Items stops later) : Items stops (group gap bracket inner gap' ++ later)

/-- The group that is open ends somewhere. -/
theorem track_split (tracked : track stops (opened ++ [bracket]) pieces = some []) :
    ∃ inner gap later, pieces = inner ++ Piece.mk gap (.closer bracket) :: later ∧
      (∀ outer, track (fun _ => false) (opened ++ outer) inner = some outer) ∧ track stops [] later = some [] := by
  induction pieces generalizing opened with
  | nil => simp [track] at tracked
  | cons piece pieces ih =>
    have inside : ((opened ++ [bracket]).isEmpty && stops piece.lexeme.kind) = false := by simp
    rw [track, inside, if_neg Bool.false_ne_true] at tracked
    split at tracked
    · rename_i inner opens
      obtain ⟨within, gap, later, rfl, passed, others⟩ := @ih (inner :: opened) tracked
      refine ⟨piece :: within, gap, later, rfl, fun outer => ?_, others⟩
      rw [track, Bool.and_false, if_neg Bool.false_ne_true, opens]
      exact passed outer
    · rename_i closed closes
      cases opened with
      | nil =>
        dsimp only [List.nil_append] at tracked
        split at tracked
        · rename_i same
          refine ⟨[], piece.gap, pieces, ?_, fun outer => rfl, tracked⟩
          subst same
          obtain ⟨gap, lexeme⟩ := piece
          cases lexeme <;> first
            | cases closes
              rfl
            | cases closes
        · cases tracked
      | cons first opened =>
        dsimp only [List.cons_append] at tracked
        split at tracked
        · rename_i same
          obtain ⟨within, gap, later, rfl, passed, others⟩ := ih tracked
          refine ⟨piece :: within, gap, later, rfl, fun outer => ?_, others⟩
          rw [track, Bool.and_false, if_neg Bool.false_ne_true, closes]
          dsimp only [List.cons_append]
          rw [if_pos same]
          exact passed outer
        · cases tracked
    · rename_i opens closes
      obtain ⟨within, gap, later, rfl, passed, others⟩ := ih tracked
      refine ⟨piece :: within, gap, later, rfl, fun outer => ?_, others⟩
      rw [track, Bool.and_false, if_neg Bool.false_ne_true]
      split
      · exact absurd ‹_› (opens _)
      · exact absurd ‹_› (closes _)
      · exact passed outer

/-- Sequences are recognised by going through them with the open brackets. -/
theorem items_of_track (tracked : track stops [] pieces = some []) : Items stops pieces := by
  induction size : pieces.length using Nat.strong_induction_on generalizing pieces with
  | _ size ih =>
    subst size
    cases pieces with
    | nil => exact .nil
    | cons piece pieces =>
      rw [track] at tracked
      split at tracked
      · cases tracked
      rename_i free
      rw [List.isEmpty_nil, Bool.true_and, Bool.not_eq_true] at free
      split at tracked
      · rename_i bracket opens
        obtain ⟨inner, gap', later, rfl, passed, others⟩ := @track_split _ _ _ [] tracked
        obtain ⟨gap, lexeme⟩ := piece
        have shape : lexeme = .opener bracket := by
          cases lexeme <;> cases opens
          rfl
        subst shape
        have whole : Piece.mk gap (.opener bracket) :: (inner ++ Piece.mk gap' (.closer bracket) :: later) =
            group gap bracket inner gap' ++ later := by
          simp [group]
        rw [whole]
        exact .group free passed (ih _ (by simp; omega) others rfl)
      · cases tracked
      · rename_i opens closes
        exact .plain free ⟨opens, closes⟩ (ih _ (by simp) tracked rfl)

/-! ### Reading over sequences -/

/-- The next token, if there is one, is one in front of which `scanUntil` ends. -/
def EndsScan (stops : TokenKind → Bool) (tokens : List Token) : Prop :=
  ∀ token ∈ tokens.head?, stops token.kind = true ∨ ∃ bracket, token.kind = .closer bracket

/-- The span of what was read before, extended. -/
def extendSpan (seen : Option Span) (span : Span) : Option Span :=
  match seen with
  | some before => some (before.cover span)
  | none => some span

variable {seen : Option Span} {piece : Piece}

theorem reads_scanStep_plain (free : stops piece.lexeme.kind = false) (single : IsPlain piece.lexeme.kind) :
    ReadsAs source (scanStep stops seen) offset [piece] rest (.again (extendSpan seen (reach offset [piece]))) := by
  have passes : ¬ stops (piece.token offset).kind = true := by
    rw [Piece.token_kind, free]
    exact Bool.false_ne_true
  refine .look reads_peek? ?_
  dsimp only [place_cons, List.cons_append, List.head?_cons]
  rw [if_neg passes, ← span_token]
  split
  · exact absurd ‹_› (single.1 _)
  · exact absurd ‹_› (single.2 _)
  · exact ReadsAs.next reads_bump .pure

theorem reads_scanStep_group (free : stops (.opener bracket) = false) (nested : IsNested inner) :
    ReadsAs source (scanStep stops seen) offset (group gap bracket inner gap') rest
      (.again (extendSpan seen (reach offset (group gap bracket inner gap')))) := by
  have passes : ¬ stops ((Piece.mk gap (.opener bracket)).token offset).kind = true := by simp [free]
  refine .look reads_peek? ?_
  show ReadsAs _ (if stops ((Piece.mk gap (.opener bracket)).token offset).kind = true then _ else _) _ _ _ _
  rw [if_neg passes]
  exact .last (reads_skipGroup nested) .pure

theorem reads_scanStep_end (ends : EndsScan stops tokens) :
    ReadsAs source (scanStep stops seen) offset [] tokens (.done seen) := by
  refine .look reads_peek? ?_
  cases tokens with
  | nil => exact .pure
  | cons token tokens =>
    dsimp only [place_nil, List.nil_append, List.head?_cons]
    rcases ends token rfl with stopped | ⟨bracket, closes⟩
    · rw [if_pos stopped]
      exact .pure
    · split
      · exact .pure
      · rw [closes]
        exact .pure

/-- A sequence behind something that was read already. -/
theorem reads_scan_more (items : Items stops pieces) (ends : EndsScan stops rest) {before : List Piece}
    (nonempty : before ≠ []) : ReadsAs source (iterate (scanStep stops) (some (reach offset before)))
      (offset + width before) pieces rest (some (reach offset (before ++ pieces))) := by
  induction items generalizing before with
  | nil =>
    rw [List.append_nil]
    exact .done (reads_scanStep_end ends)
  | @plain piece later free single others ih =>
    have covered := cover_reach nonempty offset [piece]
    have further := @ih (before ++ [piece]) (by simp)
    rw [List.append_assoc, width_append, ← Nat.add_assoc] at further
    refine .again [piece] (reads_scanStep_plain free single) (by simp) ?_
    rw [extendSpan, covered]
    exact further
  | @group gap gap' bracket inner later free nested others ih =>
    have covered := cover_reach nonempty offset (WrittenGroups.group gap bracket inner gap')
    have further := @ih (before ++ WrittenGroups.group gap bracket inner gap') (by simp [nonempty])
    rw [List.append_assoc, width_append, ← Nat.add_assoc] at further
    refine .again _ (reads_scanStep_group free nested) (by simp [WrittenGroups.group]) ?_
    rw [extendSpan, covered]
    exact further

/-- A sequence that is not empty is read with its span. -/
theorem reads_scanUntil (items : Items stops pieces) (ends : EndsScan stops rest) (nonempty : pieces ≠ []) :
    ReadsAs source (scanUntil stops) offset pieces rest (some (reach offset pieces)) := by
  cases items with
  | nil => exact absurd rfl nonempty
  | @plain piece later free single others =>
    refine .again [piece] (reads_scanStep_plain free single) (by simp) ?_
    exact reads_scan_more others ends (by simp)
  | @group gap gap' bracket inner later free nested others =>
    refine .again _ (reads_scanStep_group free nested) (by simp [WrittenGroups.group]) ?_
    exact reads_scan_more others ends (by simp [WrittenGroups.group])

theorem reads_scanUntil_nothing (ends : EndsScan stops tokens) :
    ReadsAs source (scanUntil stops) offset [] tokens none := .done (reads_scanStep_end ends)

/-! ### The rest of a statement -/

/-- Tokens in front of which a statement ends. -/
def endsStatement : TokenKind → Bool
  | .semi | .atSign => true
  | .keyword word => word.startsStatement
  | _ => false

/-- The next token, if there is one, closes the body or begins a statement. -/
def EndsStatement (tokens : List Token) : Prop :=
  ∀ token ∈ tokens.head?, token.kind = .closer .brace ∨ ∃ word, token.kind = .keyword word ∧ word.startsStatement = true

theorem EndsStatement.ne (ends : EndsStatement tokens) (inside : kind ≠ .closer .brace)
    (within : ∀ word, kind = .keyword word → word.startsStatement = false) :
    tokens.head?.map Token.kind ≠ some kind := by
  intro same
  obtain ⟨token, first, rfl⟩ := Option.map_eq_some_iff.mp same
  rcases ends token first with closes | ⟨word, begins, starts⟩
  · exact inside closes
  · rw [within word begins] at starts
    cases starts

theorem EndsStatement.endsScan (ends : EndsStatement tokens)
    (starts : ∀ word, word.startsStatement = true → stops (.keyword word) = true) : EndsScan stops tokens := by
  intro token first
  rcases ends token first with closes | ⟨word, begins, started⟩
  · exact .inr ⟨_, closes⟩
  · exact .inl (by rw [begins, starts word started])

/-- What is left of a statement is read over as a whole. -/
theorem reads_skipRest (items : Items endsStatement pieces) (ends : EndsStatement rest) :
    ReadsAs source skipRest offset pieces rest () := by
  induction items generalizing offset with
  | nil =>
    refine .done (.look reads_peekKind? ?_)
    cases rest with
    | nil => exact .pure
    | cons token rest =>
      rcases ends token rfl with closes | ⟨word, begins, starts⟩
      · simp only [place_nil, List.nil_append, List.head?_cons, Option.map_some, closes]
        exact .pure
      · simp only [place_nil, List.nil_append, List.head?_cons, Option.map_some, begins, starts, if_true]
        exact .pure
  | @plain piece later free single others ih =>
    refine .again [piece] (.look reads_peekKind? ?_) (by simp) ih
    dsimp only [place_cons, place_nil, List.cons_append, List.nil_append, List.head?_cons, Option.map_some, Piece.token_kind]
    obtain ⟨gap, lexeme⟩ := piece
    cases lexeme with
    | keyword word =>
      dsimp only [Lexeme.kind]
      rw [if_neg (by simp [show word.startsStatement = false from free])]
      exact ReadsAs.next reads_bump .pure
    | opener bracket => exact absurd rfl (single.1 bracket)
    | closer bracket => exact absurd rfl (single.2 bracket)
    | _ => exact ReadsAs.next reads_bump .pure
  | @group gap gap' bracket inner later free nested others ih =>
    refine .again _ (.look reads_peekKind? ?_) (by simp [WrittenGroups.group]) ih
    exact ReadsAs.last (reads_skipGroup nested) .pure

end KindLift.WrittenGroups
