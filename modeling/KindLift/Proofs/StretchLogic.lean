import KindLift.Proofs.CursorAdvance
import KindLift.Proofs.TokenCopies

/-! A logic of parsers over tokens that stand in two texts. As long as a parser stays
inside of a stretch of such tokens in one text, it succeeds in the other text too and
makes the same of them. Nothing is said when it reads on behind the stretch. -/
namespace KindLift.StretchLogic
open KindLift.Parser ParserLogic CursorAdvance TokenCopies

/-- A colon or a brace: nothing that is read as a whole goes on behind one. -/
def Halting (kind : TokenKind) : Prop := kind = .colon ∨ kind = .opener .brace ∨ kind = .closer .brace

/-- A part of a text that stands in another text as well, and the tokens behind it in
either text, which begin with the same token. -/
structure Stretch where
  source : List Char
  other : List Char
  low : Nat
  low' : Nat
  size : Nat
  copied : Copied source other low low' size
  back : List Token
  back' : List Token
  halts : ∃ token rest token' rest', back = token :: rest ∧ back' = token' :: rest' ∧ token'.kind = token.kind ∧
    token'.lexeme = token.lexeme ∧ Halting token.kind

namespace Stretch

def Copy (stretch : Stretch) : Token → Token → Prop := Carried stretch.low stretch.low' stretch.size

def SpanCopy (stretch : Stretch) : Span → Span → Prop := SpanCarried stretch.low stretch.low' stretch.size

theorem back_pos (stretch : Stretch) : 0 < stretch.back.length := by
  obtain ⟨token, rest, -, -, back, -⟩ := stretch.halts
  rw [back]
  exact Nat.succ_pos _

/-- The cursors are at the same place of the stretch. -/
def Along (stretch : Stretch) (left right : Cursor) : Prop :=
  ∃ front front', left.rest = front ++ stretch.back ∧ right.rest = front' ++ stretch.back' ∧
    List.Forall₂ stretch.Copy front front'

end Stretch

variable {stretch : Stretch} {left right left' right' : Cursor}

/-- If the first parser succeeds without leaving the stretch, then so does the second. -/
def Follows (stretch : Stretch) (left right : Cursor) (first : Parser α) (second : Parser β)
    (post : α → Cursor → β → Cursor → Prop) : Prop :=
  ∀ a left', first stretch.source left = .ok (a, left') → stretch.back.length ≤ left'.rest.length →
    ∃ b right', second stretch.other right = .ok (b, right') ∧ post a left' b right'

/-- Wherever the cursors are in the stretch, the second parser follows the first one, with
a related result. -/
def Mirrors (stretch : Stretch) (first : Parser α) (second : Parser β) (related : α → β → Prop) : Prop :=
  ∀ left right, stretch.Along left right →
    Follows stretch left right first second fun a left' b right' => related a b ∧ stretch.Along left' right'

/-! ### The next token -/

/-- Both cursors are in front of a token of the stretch, or both are at its end. -/
theorem along_cases (along : stretch.Along left right) :
    (∃ token rest token' rest', left.rest = token :: rest ∧ right.rest = token' :: rest' ∧ stretch.Copy token token' ∧
        ∀ stop stop', stretch.Along ⟨rest, stop⟩ ⟨rest', stop'⟩) ∨
      left.rest = stretch.back ∧ right.rest = stretch.back' := by
  obtain ⟨front, front', shape, shape', copies⟩ := along
  cases copies with
  | nil => exact .inr ⟨shape, shape'⟩
  | cons copy copies => exact .inl ⟨_, _, _, _, shape, shape', copy, fun _ _ => ⟨_, _, rfl, rfl, copies⟩⟩

/-- Behind a token that has been read the cursors are in the stretch again. -/
theorem Stretch.Along.next {token token' : Token} {rest rest' : List Token} (along : stretch.Along left right)
    (shape : left.rest = token :: rest) (shape' : right.rest = token' :: rest') (inside : stretch.back.length ≤ rest.length) :
    stretch.Copy token token' ∧ ∀ stop stop', stretch.Along ⟨rest, stop⟩ ⟨rest', stop'⟩ := by
  rcases along_cases along with ⟨_, _, _, _, same, same', copy, later⟩ | ⟨ends, -⟩
  · rw [shape] at same
    rw [shape'] at same'
    cases same
    cases same'
    exact ⟨copy, later⟩
  · rw [← ends, shape, List.length_cons] at inside
    omega

/-- The next tokens are the same. -/
theorem Stretch.Along.peek (along : stretch.Along left right) :
    ∃ token token', left.rest.head? = some token ∧ right.rest.head? = some token' ∧ token'.kind = token.kind ∧
      token'.text = token.text := by
  rcases along_cases along with ⟨token, _, token', _, shape, shape', copy, -⟩ | ⟨ends, ends'⟩
  · exact ⟨token, token', by rw [shape]; rfl, by rw [shape']; rfl, copy.kind, copy.text⟩
  · obtain ⟨token, rest, token', rest', back, back', kind, lexeme, -⟩ := stretch.halts
    refine ⟨token, token', by rw [ends, back]; rfl, by rw [ends', back']; rfl, kind, ?_⟩
    rw [Token.text, Token.text, lexeme]

theorem Stretch.Along.kind (along : stretch.Along left right) :
    right.rest.head?.map Token.kind = left.rest.head?.map Token.kind := by
  obtain ⟨token, token', first, first', kind, -⟩ := along.peek
  rw [first, first', Option.map_some, Option.map_some, kind]

/-- The tokens after the next ones are of the same kind, unless the stretch is over. -/
theorem Stretch.Along.second (along : stretch.Along left right)
    (goes : ∀ kind ∈ left.rest.head?.map Token.kind, ¬ Halting kind) :
    right.rest[1]?.map Token.kind = left.rest[1]?.map Token.kind := by
  rcases along_cases along with ⟨token, rest, token', rest', shape, shape', -, later⟩ | ⟨ends, -⟩
  · rw [shape, shape', List.getElem?_cons_succ, List.getElem?_cons_succ, ← List.head?_eq_getElem?, ← List.head?_eq_getElem?]
    exact (later 0 0).kind
  · obtain ⟨token, rest, -, -, back, -, -, -, halting⟩ := stretch.halts
    exact absurd halting (goes _ (by rw [ends, back]; rfl))

/-- Both cursors are at tokens of two given kinds, or neither is. -/
theorem Stretch.Along.pair (along : stretch.Along left right) {first : TokenKind} (goes : ¬ Halting first) (next : TokenKind) :
    (decide (right.rest.head?.map Token.kind = some first) && decide (right.rest[1]?.map Token.kind = some next)) =
      (decide (left.rest.head?.map Token.kind = some first) && decide (left.rest[1]?.map Token.kind = some next)) := by
  rw [along.kind]
  by_cases here : left.rest.head?.map Token.kind = some first
  · rw [along.second fun kind found => by rw [here] at found; cases found; exact goes]
  · rw [decide_eq_false here, Bool.false_and, Bool.false_and]

theorem Stretch.Along.length (along : stretch.Along left right) :
    left.rest.length + stretch.back'.length = right.rest.length + stretch.back.length := by
  obtain ⟨front, front', shape, shape', copies⟩ := along
  have same := copies.length_eq
  rw [shape, shape', List.length_append, List.length_append]
  omega

/-! ### Rules -/

section Rules

variable {first : Parser α} {second : Parser β} {body : α → Parser γ} {body' : β → Parser δ}
  {post middle : α → Cursor → β → Cursor → Prop} {final : γ → Cursor → δ → Cursor → Prop}

theorem follows_pure {a : α} {b : β} (holds : post a left b right) : Follows stretch left right (pure a) (pure b) post := by
  rintro _ _ ⟨⟩ -
  exact ⟨b, right, rfl, holds⟩

theorem follows_fail {cause : ParseCause} : Follows stretch left right (fail cause) second post :=
  fun _ _ ran => absurd ran fail_ne_ok

theorem follows_throw {fault : SyntaxFault} : Follows stretch left right (throw fault) second post := by
  rintro _ _ ⟨⟩

/-- First one pair of parsers, then another. What comes second only goes forward, so the
first parser has not left the stretch if the second one has not. -/
theorem Follows.before (followed : Follows stretch left right first second middle) (advances : ∀ a, Advances (body a))
    (rest : ∀ a left' b right', middle a left' b right' → Follows stretch left' right' (body a) (body' b) final) :
    Follows stretch left right (first >>= body) (second >>= body') final := by
  intro c left'' ran inside
  obtain ⟨a, left', ran, later⟩ := bind_eq_ok ran
  have suffix := ((advances a).ensures _ _ _ _ later).suffix
  obtain ⟨b, right', run, holds⟩ := followed a left' ran (Nat.le_trans inside suffix.length_le)
  obtain ⟨d, right'', run', holds'⟩ := rest a left' b right' holds c left'' later inside
  exact ⟨d, right'', (bind_ok run).trans run', holds'⟩

theorem Follows.then [advances : ∀ a, Advances (body a)] (followed : Follows stretch left right first second middle)
    (rest : ∀ a left' b right', middle a left' b right' → Follows stretch left' right' (body a) (body' b) final) :
    Follows stretch left right (first >>= body) (second >>= body') final := followed.before advances rest

/-- Both make the same choice. -/
theorem follows_choice {condition : Prop} [Decidable condition] {otherwise : Parser α} {otherwise' : Parser β}
    (yes : condition → Follows stretch left right first second post)
    (no : ¬ condition → Follows stretch left right otherwise otherwise' post) :
    Follows stretch left right (if condition then first else otherwise) (if condition then second else otherwise') post := by
  split
  · exact yes ‹_›
  · exact no ‹_›

theorem Follows.mono {weak : α → Cursor → β → Cursor → Prop} (followed : Follows stretch left right first second post)
    (weaken : ∀ a left' b right', post a left' b right' → weak a left' b right') :
    Follows stretch left right first second weak := by
  intro a left' ran inside
  obtain ⟨b, right', run, holds⟩ := followed a left' ran inside
  exact ⟨b, right', run, weaken _ _ _ _ holds⟩

/-- A parser that only looks is followed where it is. -/
theorem follows_get {body : Cursor → Parser γ} {body' : Cursor → Parser δ} :
    Follows stretch left right (get >>= body) (get >>= body') final ↔
      Follows stretch left right (body left) (body' right) final := Iff.rfl

theorem follows_read {body : List Char → Parser γ} {body' : List Char → Parser δ} :
    Follows stretch left right (read >>= body) (read >>= body') final ↔
      Follows stretch left right (body stretch.source) (body' stretch.other) final := Iff.rfl

theorem follows_peek? {body : Option Token → Parser γ} {body' : Option Token → Parser δ} :
    Follows stretch left right (peek? >>= body) (peek? >>= body') final ↔
      Follows stretch left right (body left.rest.head?) (body' right.rest.head?) final := Iff.rfl

theorem follows_secondKind? {body : Option TokenKind → Parser γ} {body' : Option TokenKind → Parser δ} :
    Follows stretch left right (secondKind? >>= body) (secondKind? >>= body') final ↔
      Follows stretch left right (body (left.rest[1]?.map Token.kind)) (body' (right.rest[1]?.map Token.kind)) final :=
  Iff.rfl

theorem follows_isAt {kind : TokenKind} {body : Bool → Parser γ} {body' : Bool → Parser δ} :
    Follows stretch left right (isAt kind >>= body) (isAt kind >>= body') final ↔
      Follows stretch left right (body (decide (left.rest.head?.map Token.kind = some kind)))
        (body' (decide (right.rest.head?.map Token.kind = some kind))) final := Iff.rfl

/-- Where the next token begins may differ. -/
theorem follows_here {body : Nat → Parser γ} {body' : Nat → Parser δ}
    (goes : ∀ start start', Follows stretch left right (body start) (body' start') final) :
    Follows stretch left right (here >>= body) (here >>= body') final := by
  have looks : ∀ source cursor, ∃ start, here source cursor = .ok (start, cursor) := by
    intro source cursor
    cases shape : cursor.rest.head? with
    | none => exact ⟨Text.byteLength source, by rw [here, bind_ok (show peek? source cursor = .ok (none, cursor) by rw [← shape]; rfl)]; rfl⟩
    | some token => exact ⟨token.start, by rw [here, bind_ok (show peek? source cursor = .ok (some token, cursor) by rw [← shape]; rfl)]; rfl⟩
  obtain ⟨start, ran⟩ := looks stretch.source left
  obtain ⟨start', run⟩ := looks stretch.other right
  intro c left' whole inside
  rw [bind_ok ran] at whole
  rw [bind_ok run]
  exact goes start start' c left' whole inside

end Rules

theorem Mirrors.mono {first : Parser α} {second : Parser β} {related weak : α → β → Prop}
    (mirrors : Mirrors stretch first second related) (weaken : ∀ a b, related a b → weak a b) :
    Mirrors stretch first second weak :=
  fun left right along => (mirrors left right along).mono fun _ _ _ _ holds => ⟨weaken _ _ holds.1, holds.2⟩

/-- Both steps are taken again with states that are related, or both are done. -/
inductive Steps (kept : σ → τ → Prop) (related : ρ → π → Prop) : Step σ ρ → Step τ π → Prop where
  | again {state : σ} {state' : τ} (keeps : kept state state') : Steps kept related (.again state) (.again state')
  | done {result : ρ} {result' : π} (relates : related result result') : Steps kept related (.done result) (.done result')

/-- A repeated step is followed when each step is. -/
theorem Mirrors.again {step : σ → Parser (Step σ ρ)} {step' : τ → Parser (Step τ π)} (kept : σ → τ → Prop)
    {related : ρ → π → Prop} (advances : ∀ state, Advances (step state))
    (steps : ∀ state state', kept state state' → Mirrors stretch (step state) (step' state') (Steps kept related))
    {state : σ} {state' : τ} (start : kept state state') :
    Mirrors stretch (Parser.iterate step state) (Parser.iterate step' state') related := by
  intro left right along result left' ran inside
  replace ran : iterateFrom step state stretch.source left = .ok (result, left') := ran
  show ∃ b right', iterateFrom step' state' stretch.other right = .ok (b, right') ∧ _
  fun_induction iterateFrom step state stretch.source left generalizing state' right with
  | case1 => cases ran
  | case2 state left value next stepped =>
    cases ran
    obtain ⟨_, right', run, outcome, along'⟩ := steps state state' start left right along _ _ stepped inside
    cases outcome with
    | @done _ result' relates => exact ⟨result', right', by rw [iterateFrom, run], relates, along'⟩
  | case3 state left later next stepped shorter ih =>
    have suffix := ((inferInstance : Advances (Parser.iterate step later)).ensures stretch.source next _ _ ran).suffix
    obtain ⟨_, next', run, outcome, along'⟩ :=
      steps state state' start left right along _ _ stepped (Nat.le_trans inside suffix.length_le)
    cases outcome with | @again _ later' keeps => ?_
    obtain ⟨result', right', goes, holds⟩ := ih keeps _ along' ran
    have shorter' : next'.rest.length < right.rest.length := by
      have length := along.length
      have length' := along'.length
      omega
    exact ⟨result', right', by rw [iterateFrom, run]; dsimp only; rw [if_pos shorter']; exact goes, holds⟩
  | case4 => cases ran

theorem Mirrors.iterate {step : σ → Parser (Step σ ρ)} {step' : τ → Parser (Step τ π)} (kept : σ → τ → Prop)
    {related : ρ → π → Prop} [advances : ∀ state, Advances (step state)]
    (steps : ∀ state state', kept state state' → Mirrors stretch (step state) (step' state') (Steps kept related))
    {state : σ} {state' : τ} (start : kept state state') :
    Mirrors stretch (Parser.iterate step state) (Parser.iterate step' state') related := .again kept advances steps start

end KindLift.StretchLogic
