import KindLift.Proofs.BalancedParsers
import KindLift.Proofs.IndentedTexts
import KindLift.Proofs.StretchLogic

/-! A logic of parsers over two texts with a seam. In front of the seam the tokens are
spelled alike in both texts, behind it they may differ. A parser that does not read over
the seam makes the same of both texts, if it does not look behind the seam, or finds there
what it goes on with in neither text. -/
namespace KindLift.SeamLogic
open KindLift.Parser ParserLogic CursorAdvance ParserProgress TokenReaders
open BalancedParsers (Encloses iterate_closes)
open IndentedTexts (spell)
open StretchLogic (Steps)

/-- Two texts, and the tokens behind the seam in each of them. -/
structure Seam where
  source : List Char
  other : List Char
  back : List Token
  back' : List Token

/-- The cursors are at the same place in front of the seam, or at the seam. -/
def Seam.Along (seam : Seam) (left right : Cursor) : Prop :=
  ∃ front front', left.rest = front ++ seam.back ∧ right.rest = front' ++ seam.back' ∧ front'.map spell = front.map spell

/-- If the first parser succeeds without reading over the seam, then so does the second. -/
def Follows (seam : Seam) (left right : Cursor) (first : Parser α) (second : Parser β)
    (post : α → Cursor → β → Cursor → Prop) : Prop :=
  ∀ a left', first seam.source left = .ok (a, left') → seam.back.length ≤ left'.rest.length →
    ∃ b right', second seam.other right = .ok (b, right') ∧ post a left' b right'

/-- Wherever the cursors are in front of a good seam, the second parser follows the first
one, with a related result. -/
def Mirrors (good : Seam → Prop) (first : Parser α) (second : Parser β) (related : α → β → Prop) : Prop :=
  ∀ seam, good seam → ∀ left right, seam.Along left right →
    Follows seam left right first second fun a left' b right' => related a b ∧ seam.Along left' right'

/-- The same, but the cursors are strictly in front of the seam. -/
def Meets (good : Seam → Prop) (first : Parser α) (second : Parser β) (related : α → β → Prop) : Prop :=
  ∀ seam, good seam → ∀ left right, seam.Along left right → seam.back.length < left.rest.length →
    Follows seam left right first second fun a left' b right' => related a b ∧ seam.Along left' right'

variable {seam : Seam} {left right left' right' : Cursor} {token token' : Token} {rest rest' : List Token}

/-! ### Tokens that are spelled alike -/

theorem kind_of_spell (same : spell token' = spell token) : token'.kind = token.kind := (Prod.mk.inj same).1

theorem text_of_spell (same : spell token' = spell token) : token'.text = token.text := by
  rw [Token.text, Token.text, show token'.lexeme = token.lexeme from (Prod.mk.inj same).2]

theorem isName_of_spell (same : spell token' = spell token) : token'.isName = token.isName := by
  rw [Token.isName, Token.isName, kind_of_spell same]

theorem isWildcard_of_spell (same : spell token' = spell token) : isWildcard token' = isWildcard token := by
  rw [isWildcard, isWildcard, kind_of_spell same, text_of_spell same]

/-- No tokens, or two that are spelled alike. -/
inductive Twins : Option Token → Option Token → Prop where
  | none : Twins none none
  | some {token token' : Token} (same : spell token' = spell token) : Twins (some token) (some token')

theorem twins_of_map {first first' : Option Token} (same : first'.map spell = first.map spell) : Twins first first' := by
  cases first <;> cases first'
  · exact .none
  · cases same
  · cases same
  · exact .some (Option.some.inj same)

theorem Twins.text {first first' : Option Token} (twins : Twins first first') : first'.map Token.text = first.map Token.text := by
  cases twins with
  | none => rfl
  | some same => exact congrArg Option.some (text_of_spell same)

theorem kind_of_map {first first' : Option Token} (same : first'.map spell = first.map spell) :
    first'.map Token.kind = first.map Token.kind := by
  have kinds := congrArg (Option.map Prod.fst) same
  rwa [Option.map_map, Option.map_map] at kinds

/-! ### Seams -/

/-- Behind a token of these kinds a parser may look at a second one. -/
def Looks (kind : TokenKind) : Prop :=
  kind = .ident ∨ kind = .underscore ∨ kind = .dot ∨ kind = .keyword .caseKw ∨ kind = .keyword .packageKw

/-- The end of a body comes in the first text, and a statement in the second one. -/
def Swapped (second second' : Option TokenKind) : Prop :=
  second = some (.closer .brace) ∧ (second' = some (.keyword .implicitKw) ∨ second' = some (.keyword .traitKw))

/-- Behind the seam there are the same token and, if it is looked at, the same kind of a second one,
or a statement where the first text has the end of a body. -/
structure Flat (seam : Seam) : Prop where
  head : seam.back'.head?.map spell = seam.back.head?.map spell
  second : ∀ token ∈ seam.back.head?, Looks token.kind → seam.back'[1]?.map Token.kind = seam.back[1]?.map Token.kind ∨
    Swapped (seam.back[1]?.map Token.kind) (seam.back'[1]?.map Token.kind)

/-- The token is not a modifier of that statement either. -/
structure Flush (seam : Seam) : Prop extends Flat seam where
  firm : ∀ token ∈ seam.back.head?, token.kind = .ident → softModifiers.contains token.text = true →
    seam.back[1]?.map Token.kind = some (.closer .brace) → seam.back'[1]?.map Token.kind ≠ some (.keyword .traitKw)

/-- What is added behind a seam begins with one of these, which nothing goes on with. -/
def fresh : TokenKind → Bool
  | .opener .brace | .keyword .importKw | .keyword .implicitKw | .keyword .traitKw | .keyword .objectKw => true
  | _ => false

/-- The seam is flat, or something is added behind it. -/
def Calm (seam : Seam) : Prop :=
  Flat seam ∨ ∃ kind, seam.back'.head?.map Token.kind = some kind ∧ fresh kind = true

/-- The seam is flush, or something is added behind it that is no body. -/
def Quiet (seam : Seam) : Prop :=
  Flush seam ∨ ∃ word, seam.back'.head?.map Token.kind = some (.keyword word) ∧ fresh (.keyword word) = true

/-- The seam is flush, or in front of the end of a body, where a statement is added. -/
def Closing (seam : Seam) : Prop :=
  Flush seam ∨ seam.back.head?.map Token.kind = some (.closer .brace) ∧
    (seam.back'.head?.map Token.kind = some (.keyword .implicitKw) ∨ seam.back'.head?.map Token.kind = some (.keyword .traitKw))

def Any (_ : Seam) : Prop := True

theorem Flush.quiet (flush : Flush seam) : Quiet seam := .inl flush

theorem Closing.quiet (closing : Closing seam) : Quiet seam := by
  rcases closing with flush | ⟨-, head | head⟩
  · exact .inl flush
  · exact .inr ⟨_, head, rfl⟩
  · exact .inr ⟨_, head, rfl⟩

theorem Quiet.calm (quiet : Quiet seam) : Calm seam := by
  rcases quiet with flush | ⟨word, head, new⟩
  · exact .inl flush.toFlat
  · exact .inr ⟨_, head, new⟩

/-- Whoever looks for a token of the kind finds it behind the second text only if it is
there in the first one. -/
def Asks (good : Seam → Prop) (kind : TokenKind) : Prop :=
  ∀ seam, good seam → seam.back'.head?.map Token.kind = some kind → seam.back.head?.map Token.kind = some kind

theorem flat_asks (kind : TokenKind) : Asks Flat kind := fun _ flat found => by rwa [kind_of_map flat.head] at found

theorem flush_asks (kind : TokenKind) : Asks Flush kind := fun seam flush => flat_asks kind seam flush.toFlat

theorem calm_asks {kind : TokenKind} (old : fresh kind = false) : Asks Calm kind := by
  rintro seam (flat | ⟨other, head, new⟩) found
  · exact flat_asks kind seam flat found
  · rw [found, Option.some.injEq] at head
    rw [head, new] at old
    cases old

theorem quiet_asks {kind : TokenKind} (old : kind = .opener .brace ∨ fresh kind = false) : Asks Quiet kind := by
  rintro seam (flush | ⟨word, head, new⟩) found
  · exact flush_asks kind seam flush found
  · rw [found, Option.some.injEq] at head
    rcases old with rfl | old
    · cases head
    · rw [head, new] at old
      cases old

/-! ### The next token -/

/-- Both cursors are in front of tokens that are spelled alike, or both are at the seam. -/
theorem along_cases (along : seam.Along left right) :
    (∃ token rest token' rest', left.rest = token :: rest ∧ right.rest = token' :: rest' ∧ spell token' = spell token ∧
        ∀ stop stop', seam.Along ⟨rest, stop⟩ ⟨rest', stop'⟩) ∨
      left.rest = seam.back ∧ right.rest = seam.back' := by
  obtain ⟨front, front', shape, shape', alike⟩ := along
  cases front with
  | nil =>
    obtain rfl := List.map_eq_nil_iff.mp alike
    exact .inr ⟨shape, shape'⟩
  | cons token front =>
    obtain ⟨token', front', rfl, same, later⟩ := List.map_eq_cons_iff.mp alike
    exact .inl ⟨_, _, _, _, shape, shape', same, fun _ _ => ⟨_, _, rfl, rfl, later⟩⟩

theorem Seam.Along.ends (along : seam.Along left right) (last : left.rest.length ≤ seam.back.length) : right.rest = seam.back' := by
  obtain ⟨front, front', shape, shape', alike⟩ := along
  rw [shape, List.length_append] at last
  obtain rfl := List.length_eq_zero_iff.mp (show front.length = 0 by omega)
  obtain rfl := List.map_eq_nil_iff.mp alike
  exact shape'

/-- In front of the seam there are two tokens that are spelled alike. -/
theorem Seam.Along.front (along : seam.Along left right) (inside : seam.back.length < left.rest.length) :
    ∃ token rest token' rest', left.rest = token :: rest ∧ right.rest = token' :: rest' ∧ spell token' = spell token ∧
      ∀ stop stop', seam.Along ⟨rest, stop⟩ ⟨rest', stop'⟩ := by
  rcases along_cases along with found | ⟨ends, -⟩
  · exact found
  · exact absurd inside (by rw [ends]; exact Nat.lt_irrefl _)

/-- A token that is read in front of the seam stands in both texts. -/
theorem Seam.Along.next (along : seam.Along left right) (shape : left.rest = token :: rest)
    (inside : seam.back.length ≤ rest.length) : ∃ token' rest', right.rest = token' :: rest' ∧ spell token' = spell token ∧
      ∀ stop stop', seam.Along ⟨rest, stop⟩ ⟨rest', stop'⟩ := by
  rcases along_cases along with ⟨_, _, token', rest', same, shape', alike, later⟩ | ⟨ends, -⟩
  · rw [shape] at same
    cases same
    exact ⟨token', rest', shape', alike, later⟩
  · rw [← ends, shape, List.length_cons] at inside
    omega

theorem Seam.Along.head (along : seam.Along left right) (flat : Flat seam) :
    right.rest.head?.map spell = left.rest.head?.map spell := by
  rcases along_cases along with ⟨token, rest, token', rest', shape, shape', same, -⟩ | ⟨ends, ends'⟩
  · rw [shape, shape', List.head?_cons, List.head?_cons, Option.map_some, Option.map_some, same]
  · rw [ends, ends', flat.head]

theorem Seam.Along.kind (along : seam.Along left right) (flat : Flat seam) :
    right.rest.head?.map Token.kind = left.rest.head?.map Token.kind := kind_of_map (along.head flat)

/-- The tokens after the next ones are of the same kind where they are looked at. -/
theorem Seam.Along.second (along : seam.Along left right) (flat : Flat seam) (first : left.rest.head? = some token)
    (looks : Looks token.kind) : right.rest[1]?.map Token.kind = left.rest[1]?.map Token.kind ∨
      Swapped (left.rest[1]?.map Token.kind) (right.rest[1]?.map Token.kind) := by
  rcases along_cases along with ⟨_, rest, _, rest', shape, shape', -, later⟩ | ⟨ends, ends'⟩
  · refine .inl ?_
    rw [shape, shape', List.getElem?_cons_succ, List.getElem?_cons_succ, ← List.head?_eq_getElem?, ← List.head?_eq_getElem?]
    exact (later 0 0).kind flat
  · rw [ends] at first
    rw [ends, ends']
    exact flat.second token first looks

theorem Seam.Along.length (along : seam.Along left right) :
    left.rest.length + seam.back'.length = right.rest.length + seam.back.length := by
  obtain ⟨front, front', shape, shape', alike⟩ := along
  have same := congrArg List.length alike
  rw [List.length_map, List.length_map] at same
  rw [shape, shape', List.length_append, List.length_append]
  omega

/-- What is left of the first text, when the seam has not been read over. -/
theorem Seam.Along.behind (along : seam.Along left right) (suffix : rest <:+ left.rest) (inside : seam.back.length ≤ rest.length) :
    ∃ front, rest = front ++ seam.back := by
  obtain ⟨pre, whole⟩ := suffix
  obtain ⟨all, _, shape, -⟩ := along
  rw [shape] at whole
  rcases List.append_eq_append_iff.mp whole with ⟨more, -, same⟩ | ⟨more, -, same⟩
  · exact ⟨more, same⟩
  · rw [same, List.length_append] at inside
    obtain rfl := List.length_eq_zero_iff.mp (show more.length = 0 by omega)
    exact ⟨[], same.symm⟩

/-- Cursors in front of a seam are in front of what comes behind it. -/
theorem Seam.Along.extend {front front' : List Token} (alike : front'.map spell = front.map spell)
    (along : (Seam.mk seam.source seam.other (front ++ seam.back) (front' ++ seam.back')).Along left right) : seam.Along left right := by
  obtain ⟨pre, pre', shape, shape', pres⟩ := along
  refine ⟨pre ++ front, pre' ++ front', ?_, ?_, by rw [List.map_append, List.map_append, pres, alike]⟩
  · rw [List.append_assoc]
    exact shape
  · rw [List.append_assoc]
    exact shape'

/-- The same place in front of a seam further back. -/
theorem Seam.Along.recut (along : seam.Along left right) {pre front : List Token} (shape : left.rest = pre ++ (front ++ seam.back)) :
    ∃ front', front'.map spell = front.map spell ∧
      (Seam.mk seam.source seam.other (front ++ seam.back) (front' ++ seam.back')).Along left right := by
  obtain ⟨whole, whole', shape', right', alike⟩ := along
  rw [shape', ← List.append_assoc, List.append_cancel_right_eq] at shape
  subst shape
  rw [List.map_append] at alike
  obtain ⟨pre', front', rfl, pres, fronts⟩ := List.map_eq_append_iff.mp alike
  exact ⟨front', fronts, pre, pre', by rw [shape', List.append_assoc], by rw [right', List.append_assoc], pres⟩

/-! ### Rules -/

section Rules

variable {good strong weak : Seam → Prop} {first : Parser α} {second : Parser β} {body : α → Parser γ} {body' : β → Parser δ}
  {related loose middle : α → β → Prop} {kind : TokenKind} {final : γ → δ → Prop} {post : α → Cursor → β → Cursor → Prop}

theorem follows_pure {a : α} {b : β} (holds : post a left b right) : Follows seam left right (pure a) (pure b) post := by
  rintro _ _ ⟨⟩ -
  exact ⟨b, right, rfl, holds⟩

theorem Follows.mono {loose : α → Cursor → β → Cursor → Prop} (followed : Follows seam left right first second post)
    (weaken : ∀ a left' b right', post a left' b right' → loose a left' b right') :
    Follows seam left right first second loose := by
  intro a left' ran inside
  obtain ⟨b, right', run, holds⟩ := followed a left' ran inside
  exact ⟨b, right', run, weaken _ _ _ _ holds⟩

/-- First one pair of parsers, then another. What comes second only goes forward, so the
first parser has not read over the seam if the second one has not. -/
theorem Follows.before {post' : γ → Cursor → δ → Cursor → Prop} (followed : Follows seam left right first second post)
    (advances : ∀ a, Advances (body a))
    (rest : ∀ a left' b right', post a left' b right' → Follows seam left' right' (body a) (body' b) post') :
    Follows seam left right (first >>= body) (second >>= body') post' := by
  intro c left'' ran inside
  obtain ⟨a, left', ran, later⟩ := bind_eq_ok ran
  have suffix := ((advances a).ensures _ _ _ _ later).suffix
  obtain ⟨b, right', run, holds⟩ := followed a left' ran (Nat.le_trans inside suffix.length_le)
  obtain ⟨d, right'', run', holds'⟩ := rest a left' b right' holds c left'' later inside
  exact ⟨d, right'', (bind_ok run).trans run', holds'⟩

/-- Both make the same choice. -/
theorem follows_choice {condition : Prop} [Decidable condition] {otherwise : Parser α} {otherwise' : Parser β}
    (yes : condition → Follows seam left right first second post)
    (no : ¬ condition → Follows seam left right otherwise otherwise' post) :
    Follows seam left right (if condition then first else otherwise) (if condition then second else otherwise') post := by
  split
  · exact yes ‹_›
  · exact no ‹_›

theorem Mirrors.pure {a : α} {b : β} (relates : related a b) : Mirrors good (Pure.pure a) (Pure.pure b) related :=
  fun _ _ _ _ along => follows_pure ⟨relates, along⟩

theorem Mirrors.fail {cause : ParseCause} : Mirrors good (Parser.fail cause) second related :=
  fun _ _ _ _ _ _ _ ran => absurd ran fail_ne_ok

theorem Mirrors.throw {fault : SyntaxFault} : Mirrors good (MonadExcept.throw fault) second related := by
  rintro _ _ _ _ _ _ _ ⟨⟩

theorem Mirrors.before (mirrors : Mirrors good first second middle) (advances : ∀ a, Advances (body a))
    (rest : ∀ a b, middle a b → Mirrors good (body a) (body' b) final) :
    Mirrors good (first >>= body) (second >>= body') final :=
  fun seam holds left right along => (mirrors seam holds left right along).before advances
    fun a left' b right' ⟨relates, along⟩ => rest a b relates seam holds left' right' along

theorem Mirrors.then [advances : ∀ a, Advances (body a)] (mirrors : Mirrors good first second middle)
    (rest : ∀ a b, middle a b → Mirrors good (body a) (body' b) final) :
    Mirrors good (first >>= body) (second >>= body') final := mirrors.before advances rest

theorem Mirrors.mono (mirrors : Mirrors good first second related) (weaken : ∀ a b, related a b → loose a b) :
    Mirrors good first second loose :=
  fun seam holds left right along => (mirrors seam holds left right along).mono fun _ _ _ _ ⟨relates, along⟩ =>
    ⟨weaken _ _ relates, along⟩

theorem Mirrors.on (mirrors : Mirrors weak first second related) (stronger : ∀ seam, strong seam → weak seam) :
    Mirrors strong first second related := fun seam holds => mirrors seam (stronger seam holds)

theorem Mirrors.choice {condition : Prop} [Decidable condition] {otherwise : Parser α} {otherwise' : Parser β}
    (yes : condition → Mirrors good first second related) (no : ¬ condition → Mirrors good otherwise otherwise' related) :
    Mirrors good (if condition then first else otherwise) (if condition then second else otherwise') related := by
  split
  · exact yes ‹_›
  · exact no ‹_›

/-- A parser that does not read over a seam does not read over one further back, where the
tokens in between are those it has left. -/
theorem Mirrors.recut (mirrors : Mirrors good first second related) [advances : Advances first] (along : seam.Along left right)
    {a : α} (ran : first seam.source left = .ok (a, left')) {front : List Token} (shape : left'.rest = front ++ seam.back)
    (fits : ∀ front', front'.map spell = front.map spell →
      good ⟨seam.source, seam.other, front ++ seam.back, front' ++ seam.back'⟩) :
    ∃ b right', second seam.other right = .ok (b, right') ∧ related a b ∧ seam.Along left' right' := by
  obtain ⟨pre, whole⟩ := (advances.ensures _ _ _ _ ran).suffix
  obtain ⟨front', alike, along'⟩ := along.recut (whole.symm.trans (congrArg (pre ++ ·) shape))
  obtain ⟨b, right', run, relates, nothing, nothing', rest, rest', same⟩ :=
    mirrors _ (fits front' alike) left right along' a left' ran (by rw [shape])
  refine ⟨b, right', run, relates, front, front', shape, ?_, alike⟩
  replace rest : front ++ seam.back = nothing ++ (front ++ seam.back) := shape.symm.trans rest
  obtain rfl := List.self_eq_append_left.mp rest
  obtain rfl := List.map_eq_nil_iff.mp same
  exact rest'

/-- What is read to the end of a text is read in front of anything else. -/
theorem Mirrors.whole (mirrors : Mirrors good first second related) {source : List Char} {front front' : List Token} {a : α}
    {stop stop' : Nat} (ran : first source ⟨front, stop⟩ = .ok (a, ⟨[], stop'⟩)) (alike : front'.map spell = front.map spell)
    (other : List Char) (rest : List Token) (fits : good ⟨source, other, [], rest⟩) (begun : Nat) :
    ∃ b last, second other ⟨front' ++ rest, begun⟩ = .ok (b, ⟨rest, last⟩) ∧ related a b := by
  have along : (Seam.mk source other [] rest).Along ⟨front, stop⟩ ⟨front' ++ rest, begun⟩ :=
    ⟨front, front', (List.append_nil _).symm, rfl, alike⟩
  obtain ⟨b, ⟨rest', last⟩, run, relates, nothing, nothing', none, behind, empty⟩ := mirrors _ fits _ _ along _ _ ran (Nat.zero_le _)
  obtain rfl : nothing = [] := (List.append_eq_nil_iff.mp none.symm).1
  obtain rfl := List.map_eq_nil_iff.mp empty
  obtain rfl : rest' = rest := behind
  exact ⟨b, last, run, relates⟩

/-- What comes second reads on, so that the first parser meets a seam further back. -/
theorem Mirrors.met {post' : γ → Cursor → δ → Cursor → Prop} (mirrors : Mirrors weak first second middle) [Advances first]
    [advances : ∀ a, Advances (body a)] (along : seam.Along left right)
    (fits : ∀ a cursor, first seam.source left = .ok (a, cursor) → ∀ front front', front'.map spell = front.map spell →
      cursor.rest = front ++ seam.back → ∀ c next, body a seam.source cursor = .ok (c, next) → seam.back.length ≤ next.rest.length →
        weak ⟨seam.source, seam.other, front ++ seam.back, front' ++ seam.back'⟩)
    (rest : ∀ a b left' right', middle a b → seam.Along left' right' → Follows seam left' right' (body a) (body' b) post') :
    Follows seam left right (first >>= body) (second >>= body') post' := by
  intro c left'' ran inside
  obtain ⟨a, left', ran, later⟩ := bind_eq_ok ran
  have suffix := ((advances a).ensures _ _ _ _ later).suffix
  obtain ⟨front, shape⟩ := along.behind (‹Advances first›.ensures _ _ _ _ ran).suffix (Nat.le_trans inside suffix.length_le)
  obtain ⟨b, right', run, relates, along'⟩ :=
    mirrors.recut along ran shape fun front' alike => fits a left' ran front front' alike shape c left'' later inside
  obtain ⟨d, right'', run', holds'⟩ := rest a b left' right' relates along' c left'' later inside
  exact ⟨d, right'', (bind_ok run).trans run', holds'⟩

theorem Mirrors.meeting (mirrors : Mirrors weak first second middle) [Advances first] [∀ a, Advances (body a)]
    (fits : ∀ seam, strong seam → ∀ a front front', front'.map spell = front.map spell → ∀ cursor c next,
      cursor.rest = front ++ seam.back → body a seam.source cursor = .ok (c, next) → seam.back.length ≤ next.rest.length →
        weak ⟨seam.source, seam.other, front ++ seam.back, front' ++ seam.back'⟩)
    (rest : ∀ a b, middle a b → Mirrors strong (body a) (body' b) final) :
    Mirrors strong (first >>= body) (second >>= body') final :=
  fun seam holds _ _ along => mirrors.met along
    (fun a cursor _ front front' alike shape c next => fits seam holds a front front' alike cursor c next shape)
    fun a b left' right' relates along' => rest a b relates seam holds left' right' along'

/-- A repeated step is followed when each step is. -/
theorem Mirrors.again {step : σ → Parser (Step σ ρ)} {step' : τ → Parser (Step τ π)} (kept : σ → τ → Prop)
    {related : ρ → π → Prop} (advances : ∀ state, Advances (step state))
    (steps : ∀ state state', kept state state' → Mirrors good (step state) (step' state') (Steps kept related))
    {state : σ} {state' : τ} (start : kept state state') :
    Mirrors good (Parser.iterate step state) (Parser.iterate step' state') related := by
  intro seam holds left right along result left' ran inside
  replace ran : iterateFrom step state seam.source left = .ok (result, left') := ran
  show ∃ b right', iterateFrom step' state' seam.other right = .ok (b, right') ∧ _
  fun_induction iterateFrom step state seam.source left generalizing state' right with
  | case1 => cases ran
  | case2 state left value next stepped =>
    cases ran
    obtain ⟨_, right', run, outcome, along'⟩ := steps state state' start seam holds left right along _ _ stepped inside
    cases outcome with
    | @done _ result' relates => exact ⟨result', right', ParserSimulation.iterateFrom_done run, relates, along'⟩
  | case3 state left later next stepped shorter ih =>
    have suffix := ((Advances.again advances : Advances (Parser.iterate step later)).ensures seam.source next _ _ ran).suffix
    obtain ⟨_, next', run, outcome, along'⟩ :=
      steps state state' start seam holds left right along _ _ stepped (Nat.le_trans inside suffix.length_le)
    cases outcome with | @again _ later' keeps => ?_
    have shorter' : next'.rest.length < right.rest.length := by
      have length := along.length
      have length' := along'.length
      omega
    rw [ParserSimulation.iterateFrom_again run shorter']
    exact ih keeps _ along' ran
  | case4 => cases ran

theorem Mirrors.iterate {step : σ → Parser (Step σ ρ)} {step' : τ → Parser (Step τ π)} (kept : σ → τ → Prop)
    {related : ρ → π → Prop} [advances : ∀ state, Advances (step state)]
    (steps : ∀ state state', kept state state' → Mirrors good (step state) (step' state') (Steps kept related))
    {state : σ} {state' : τ} (start : kept state state') :
    Mirrors good (Parser.iterate step state) (Parser.iterate step' state') related := .again kept advances steps start

theorem follows_get {body : Cursor → Parser γ} {body' : Cursor → Parser δ} {post' : γ → Cursor → δ → Cursor → Prop} :
    Follows seam left right (get >>= body) (get >>= body') post' ↔
      Follows seam left right (body left) (body' right) post' := Iff.rfl

theorem follows_peek? {body : Option Token → Parser γ} {body' : Option Token → Parser δ} {post' : γ → Cursor → δ → Cursor → Prop} :
    Follows seam left right (peek? >>= body) (peek? >>= body') post' ↔
      Follows seam left right (body left.rest.head?) (body' right.rest.head?) post' := Iff.rfl

theorem follows_peekKind? {body : Option TokenKind → Parser γ} {body' : Option TokenKind → Parser δ}
    {post' : γ → Cursor → δ → Cursor → Prop} :
    Follows seam left right (peekKind? >>= body) (peekKind? >>= body') post' ↔
      Follows seam left right (body (left.rest.head?.map Token.kind)) (body' (right.rest.head?.map Token.kind)) post' := Iff.rfl

theorem follows_secondKind? {body : Option TokenKind → Parser γ} {body' : Option TokenKind → Parser δ}
    {post' : γ → Cursor → δ → Cursor → Prop} :
    Follows seam left right (secondKind? >>= body) (secondKind? >>= body') post' ↔
      Follows seam left right (body (left.rest[1]?.map Token.kind)) (body' (right.rest[1]?.map Token.kind)) post' := Iff.rfl

theorem follows_isAt {body : Bool → Parser γ} {body' : Bool → Parser δ} {post' : γ → Cursor → δ → Cursor → Prop} :
    Follows seam left right (isAt kind >>= body) (isAt kind >>= body') post' ↔
      Follows seam left right (body (decide (left.rest.head?.map Token.kind = some kind)))
        (body' (decide (right.rest.head?.map Token.kind = some kind))) post' := Iff.rfl

/-- A parser that takes a token at the seam reads over the seam. -/
theorem follows_over (ends : left.rest.length ≤ seam.back.length)
    (takes : Ensures seam.source left first fun _ next => next.rest.length < left.rest.length) :
    Follows seam left right first second post := by
  intro a left' ran inside
  have shorter : left'.rest.length < left.rest.length := takes a left' ran
  omega

theorem Mirrors.meets (mirrors : Mirrors good first second related) : Meets good first second related :=
  fun seam holds left right along _ => mirrors seam holds left right along

/-- A token in front of the seam is read over, whatever it is. -/
theorem Meets.bumped {first : Parser α} {second : Parser β} (mirrors : Mirrors good first second related) :
    Meets good (bump >>= fun _ => first) (bump >>= fun _ => second) related := by
  rintro seam holds ⟨tokens, stop⟩ ⟨tokens', stop'⟩ along inside
  obtain ⟨token, rest, token', rest', rfl, rfl, -, later⟩ := along.front inside
  exact mirrors seam holds _ _ (later _ _)

theorem bump_meets : Meets good bump bump Twins := by
  rintro seam - ⟨tokens, stop⟩ ⟨tokens', stop'⟩ along inside
  obtain ⟨token, rest, token', rest', rfl, rfl, same, later⟩ := along.front inside
  rintro _ _ ⟨⟩ -
  exact ⟨_, _, rfl, .some same, later _ _⟩

theorem Meets.choice {condition : Prop} [Decidable condition] {otherwise : Parser α} {otherwise' : Parser β}
    (yes : condition → Meets good first second related) (no : ¬ condition → Meets good otherwise otherwise' related) :
    Meets good (if condition then first else otherwise) (if condition then second else otherwise') related := by
  split
  · exact yes ‹_›
  · exact no ‹_›

/-- In front of the seam and at the seam. -/
theorem Mirrors.cut (meets : Meets good first second related)
    (ends : ∀ seam, good seam → ∀ left right, seam.Along left right → left.rest = seam.back → right.rest = seam.back' →
      Follows seam left right first second fun a left' b right' => related a b ∧ seam.Along left' right') :
    Mirrors good first second related := by
  intro seam holds left right along
  rcases along_cases along with ⟨token, rest, token', rest', shape, -, -, later⟩ | ⟨last, last'⟩
  · refine meets seam holds left right along ?_
    obtain ⟨front, _, behind, -⟩ := later 0 0
    rw [shape, show rest = front ++ seam.back from behind, List.length_cons, List.length_append]
    omega
  · exact ends seam holds left right along last last'

/-- What has to take a token does not begin at the seam. -/
theorem Mirrors.taking [takes : Takes first] (meets : Meets good first second related) : Mirrors good first second related :=
  .cut meets fun seam _ left _ _ ends _ => follows_over (by rw [ends]) (takes.ensures seam.source left)

/-- A token of the kind is taken, or another one. -/
instance takes_eats {more other : Parser α} [advances : Advances more] [last : Takes other] :
    Takes (eats kind >>= fun found => if found = true then more else other) := by
  refine ⟨fun source cursor => ensures_then (eats_shorter kind) fun found middle ⟨leads, taken⟩ => ?_⟩
  split
  · rename_i isFound
    exact ensures_mono (advances.ensures source middle) fun _ _ later => Nat.lt_of_le_of_lt (Leads.length_le later) (taken isFound)
  · exact ensures_mono (last.ensures source middle) fun _ _ later => Nat.lt_of_lt_of_le later (Leads.length_le leads)

/-- A parser that looks at the next token finds tokens that are spelled alike in front of the seam. -/
theorem Meets.peeking {body : Option Token → Parser α} {body' : Option Token → Parser β}
    (meets : ∀ token token', spell token' = spell token → Meets good (body (some token)) (body' (some token')) related) :
    Meets good (peek? >>= body) (peek? >>= body') related := by
  intro seam holds left right along inside
  obtain ⟨token, rest, token', rest', shape, shape', same, -⟩ := along.front inside
  have met := meets token token' same seam holds left right along inside
  rwa [follows_peek?, shape, shape']

theorem Meets.peekingKind {body : Option TokenKind → Parser α} {body' : Option TokenKind → Parser β}
    (meets : ∀ kind, Meets good (body (some kind)) (body' (some kind)) related) :
    Meets good (peekKind? >>= body) (peekKind? >>= body') related :=
  @Meets.peeking _ _ _ _ (fun first => body (first.map Token.kind)) (fun first => body' (first.map Token.kind))
    fun token token' same => by
      dsimp only [Option.map_some]
      rw [kind_of_spell same]
      exact meets _

/-- What begins with a token that has to be there. -/
theorem Mirrors.demanding {body : Option Token → Parser α} {body' : Option Token → Parser β} {cause : ParseCause}
    (nothing : body none = Parser.fail cause)
    (takes : ∀ source cursor token, cursor.rest.head? = some token →
      Ensures source cursor (body (some token)) fun _ next => Shorter cursor next)
    (meets : ∀ token token', spell token' = spell token → Meets good (body (some token)) (body' (some token')) related) :
    Mirrors good (peek? >>= body) (peek? >>= body') related := by
  refine .cut (.peeking meets) fun seam holds left right along ends ends' => ?_
  rw [follows_peek?]
  cases head : left.rest.head? with
  | none =>
    rw [nothing]
    exact fun _ _ ran => absurd ran fail_ne_ok
  | some token => exact follows_over (by rw [ends]) (takes _ _ token head)

/-- A token that passes a test begins what is read, if it comes next. -/
theorem Mirrors.testing (test : Token → Bool) {body : Option Token → Parser α} {body' : Option Token → Parser β}
    {yes : Token → Parser α} {yes' : Token → Parser β} {otherwise : Parser α} {otherwise' : Parser β}
    (nothing : body none = otherwise ∧ body' none = otherwise')
    (something : ∀ token, body (some token) = (if test token = true then yes token else otherwise) ∧
      body' (some token) = if test token = true then yes' token else otherwise')
    (spelled : ∀ token token', spell token' = spell token → test token' = test token)
    (asks : ∀ seam, good seam → ∀ token' ∈ seam.back'.head?, test token' = true → ∃ token ∈ seam.back.head?, test token = true)
    (takes : ∀ source cursor token, cursor.rest.head? = some token → Ensures source cursor (yes token) fun _ next => Shorter cursor next)
    (read : ∀ token token', spell token' = spell token → Meets good (yes token) (yes' token') related)
    (no : Mirrors good otherwise otherwise' related) : Mirrors good (peek? >>= body) (peek? >>= body') related := by
  refine .cut (.peeking fun token token' same => ?_) fun seam holds left right along ends ends' => ?_
  · rw [(something token).1, (something token').2, spelled token token' same]
    exact .choice (fun _ => read token token' same) fun _ => no.meets
  · rw [follows_peek?, ends, ends']
    have absent' : (∀ token ∈ seam.back.head?, test token = false) → body' seam.back'.head? = otherwise' := by
      intro absent
      cases head : seam.back'.head? with
      | none => exact nothing.2
      | some token' =>
        rw [(something token').2, if_neg]
        intro passes
        obtain ⟨token, first, passes⟩ := asks seam holds token' head passes
        rw [absent token first] at passes
        cases passes
    have stays := no seam holds left right along
    cases head : seam.back.head? with
    | none => rwa [nothing.1, absent' (by simp [head])]
    | some token =>
      rw [(something token).1]
      split
      · exact follows_over (by rw [ends]) (takes _ _ token (by rw [ends, head]))
      · rename_i fails
        rwa [absent' (by simpa [head] using fails)]

/-- What a keyword does not pass is not found at a quiet seam in the second text only. -/
theorem quiet_tests {test : Token → Bool} (spelled : ∀ token token', spell token' = spell token → test token' = test token)
    (words : ∀ token word, token.kind = .keyword word → test token = false) :
    ∀ seam, Quiet seam → ∀ token' ∈ seam.back'.head?, test token' = true → ∃ token ∈ seam.back.head?, test token = true := by
  rintro seam (flush | ⟨word, head, -⟩) token' first passes
  · have twins := twins_of_map flush.head
    rw [Option.mem_def.mp first] at twins
    cases twins' : seam.back.head? with
    | none => rw [twins'] at twins; cases twins
    | some token =>
      rw [twins'] at twins
      cases twins with | some same => ?_
      exact ⟨token, rfl, (spelled token token' same) ▸ passes⟩
  · rw [Option.mem_def.mp first] at head
    rw [words token' word (Option.some.inj head)] at passes
    cases passes

theorem Meets.option {otherwise : Parser α} {otherwise' : Parser β} (yes : Meets good first second related)
    (no : Meets good otherwise otherwise' related) :
    Meets good (isAt kind >>= fun found => if found = true then first else otherwise)
      (isAt kind >>= fun found => if found = true then second else otherwise') related := by
  intro seam holds left right along inside
  obtain ⟨token, rest, token', rest', shape, shape', same, -⟩ := along.front inside
  rw [follows_isAt, shape, shape', List.head?_cons, List.head?_cons, Option.map_some, Option.map_some, kind_of_spell same]
  exact follows_choice (fun _ => yes seam holds left right along inside) fun _ => no seam holds left right along inside

theorem Meets.eating {otherwise : Parser α} {otherwise' : Parser β} (yes : Mirrors good first second related)
    (no : Meets good otherwise otherwise' related) :
    Meets good (eats kind >>= fun found => if found = true then first else otherwise)
      (eats kind >>= fun found => if found = true then second else otherwise') related := by
  rintro seam holds ⟨tokens, stop⟩ ⟨tokens', stop'⟩ along inside
  obtain ⟨token, rest, token', rest', rfl, rfl, same, later⟩ := along.front inside
  intro a left' ran
  by_cases here : token.kind = kind
  · rw [bind_ok (eats_run here rest stop), if_pos rfl] at ran
    rw [bind_ok (eats_run ((kind_of_spell same).trans here) rest' stop'), if_pos rfl]
    exact yes seam holds _ _ (later _ _) a left' ran
  · have absent : (token :: rest).head?.map Token.kind ≠ some kind := mt Option.some.inj here
    have absent' : (token' :: rest').head?.map Token.kind ≠ some kind := mt Option.some.inj (kind_of_spell same ▸ here)
    rw [bind_ok (eats_absent absent), if_neg Bool.false_ne_true] at ran
    rw [bind_ok (eats_absent absent'), if_neg Bool.false_ne_true]
    exact no seam holds _ _ along inside a left' ran

/-- What a token of the given kind begins is read where there is one. -/
theorem Mirrors.option {otherwise : Parser α} {otherwise' : Parser β} (asks : Asks good kind)
    (takes : ∀ source cursor, cursor.rest.head?.map Token.kind = some kind → Ensures source cursor first fun _ next => Shorter cursor next)
    (yes : Mirrors good first second related) (no : Mirrors good otherwise otherwise' related) :
    Mirrors good (isAt kind >>= fun found => if found = true then first else otherwise)
      (isAt kind >>= fun found => if found = true then second else otherwise') related := by
  refine .cut (.option yes.meets no.meets) fun seam holds left right along ends ends' => ?_
  rw [follows_isAt]
  by_cases here : left.rest.head?.map Token.kind = some kind
  · rw [decide_eq_true here, if_pos rfl]
    exact follows_over (by rw [ends]) (takes _ _ here)
  · have here' : ¬ right.rest.head?.map Token.kind = some kind := fun found => here (ends ▸ asks seam holds (ends' ▸ found))
    rw [decide_eq_false here, decide_eq_false here', if_neg Bool.false_ne_true, if_neg Bool.false_ne_true]
    exact no seam holds left right along

/-- What comes behind a token of the given kind is read where there is one. -/
theorem Mirrors.eating {otherwise : Parser α} {otherwise' : Parser β} [advances : Advances first] (asks : Asks good kind)
    (yes : Mirrors good first second related) (no : Mirrors good otherwise otherwise' related) :
    Mirrors good (eats kind >>= fun found => if found = true then first else otherwise)
      (eats kind >>= fun found => if found = true then second else otherwise') related := by
  refine .cut (.eating yes no.meets) fun seam holds left right along ends ends' a left' ran inside => ?_
  have absent : left.rest.head?.map Token.kind ≠ some kind := by
    intro here
    obtain ⟨tokens, stop⟩ := left
    obtain ⟨token, first, same⟩ := Option.map_eq_some_iff.mp here
    obtain ⟨rest, rfl⟩ := List.head?_eq_some_iff.mp first
    rw [bind_ok (eats_run same rest stop), if_pos rfl] at ran
    have shorter := Nat.le_trans inside (advances.ensures _ _ _ _ ran).suffix.length_le
    rw [← ends] at shorter
    exact Nat.not_succ_le_self _ shorter
  have absent' : right.rest.head?.map Token.kind ≠ some kind := fun found => absent (ends ▸ asks seam holds (ends' ▸ found))
  rw [bind_ok (eats_absent absent), if_neg Bool.false_ne_true] at ran
  rw [bind_ok (eats_absent absent'), if_neg Bool.false_ne_true]
  exact no seam holds left right along a left' ran inside

end Rules

/-- A seam with the same tokens behind it is flush. -/
theorem flush_of_second (head : seam.back'.head?.map spell = seam.back.head?.map spell)
    (second : ∀ token ∈ seam.back.head?, Looks token.kind → seam.back'[1]?.map Token.kind = seam.back[1]?.map Token.kind) : Flush seam := by
  refine ⟨⟨head, fun token first looks => .inl (second token first looks)⟩, fun token first named _ ends => ?_⟩
  rw [second token first (.inl named), ends]
  simp

/-- Further back a flush seam is flush. -/
theorem Flush.back (flush : Flush seam) {front front' : List Token} (alike : front'.map spell = front.map spell) :
    Flush ⟨seam.source, seam.other, front ++ seam.back, front' ++ seam.back'⟩ := by
  cases front with
  | nil =>
    obtain rfl := List.map_eq_nil_iff.mp alike
    exact ⟨⟨flush.head, flush.second⟩, flush.firm⟩
  | cons token more =>
    obtain ⟨token', more', rfl, same, later⟩ := List.map_eq_cons_iff.mp alike
    refine flush_of_second (congrArg some same) fun _ _ _ => ?_
    cases more with
    | nil =>
      obtain rfl := List.map_eq_nil_iff.mp later
      show (seam.back'[0]?).map Token.kind = (seam.back[0]?).map Token.kind
      rw [← List.head?_eq_getElem?, ← List.head?_eq_getElem?]
      exact kind_of_map flush.head
    | cons next more =>
      obtain ⟨next', more', rfl, same', -⟩ := List.map_eq_cons_iff.mp later
      exact congrArg some (kind_of_spell same')

/-- The seam in front of tokens that both texts have. -/
theorem flush_within {front front' : List Token} (alike : front'.map spell = front.map spell) (nonempty : front ≠ [])
    (long : ∀ token ∈ front.head?, Looks token.kind → 1 < front.length) :
    Flush ⟨seam.source, seam.other, front ++ seam.back, front' ++ seam.back'⟩ := by
  obtain ⟨token, more, rfl⟩ := List.exists_cons_of_ne_nil nonempty
  obtain ⟨token', more', rfl, same, later⟩ := List.map_eq_cons_iff.mp alike
  refine flush_of_second (congrArg some same) ?_
  rintro _ ⟨⟩ looks
  have many := long token rfl looks
  cases more with
  | nil => exact absurd many (Nat.lt_irrefl _)
  | cons next more =>
    obtain ⟨next', more', rfl, same', -⟩ := List.map_eq_cons_iff.mp later
    exact congrArg some (kind_of_spell same')

/-- In front of a token that is read, and behind which no second one is looked at, a seam is flush. -/
theorem flush_before {inner front front' : List Token} (alike : front'.map spell = front.map spell)
    (shape : front ++ seam.back = inner ++ token :: rest) (inside : seam.back.length ≤ rest.length) (plain : ¬ Looks token.kind) :
    Flush ⟨seam.source, seam.other, front ++ seam.back, front' ++ seam.back'⟩ := by
  obtain ⟨middle, rfl⟩ : ∃ middle, front = inner ++ token :: middle := by
    rcases List.append_eq_append_iff.mp shape with ⟨more, rfl, same⟩ | ⟨more, rfl, same⟩
    · rw [same, List.length_append, List.length_cons] at inside
      omega
    · cases more with
      | nil =>
        rw [List.nil_append] at same
        rw [← same, List.length_cons] at inside
        omega
      | cons first middle =>
        cases same
        exact ⟨middle, rfl⟩
  refine flush_within alike (by simp) fun first head looks => ?_
  cases inner with
  | nil =>
    cases head
    exact absurd looks plain
  | cons =>
    simp only [List.length_append, List.length_cons]
    omega

theorem flush_at {front front' : List Token} (alike : front'.map spell = front.map spell) (shape : front ++ seam.back = token :: rest)
    (inside : seam.back.length ≤ rest.length) (plain : ¬ Looks token.kind) :
    Flush ⟨seam.source, seam.other, front ++ seam.back, front' ++ seam.back'⟩ := @flush_before _ _ _ [] _ _ alike shape inside plain

/-- A repeated step that closes what it reads meets no seam before it is done. -/
theorem Mirrors.enclosed {step : σ → Parser (Step σ ρ)} {step' : τ → Parser (Step τ π)} (kept : σ → τ → Prop) {ended : ρ → π → Prop}
    {related : ρ → π → Prop} {bracket : Bracket} [advances : ∀ state, Advances (step state)]
    (encloses : ∀ source cursor state, Ensures source cursor (step state) (Encloses bracket cursor))
    (agains : ∀ state state', kept state state' → Mirrors Flush (step state) (step' state') (Steps kept ended))
    (dones : ∀ state state', kept state state' → ∀ seam : Seam, ∀ left right, seam.Along left right → ∀ result left',
      step state seam.source left = .ok (.done result, left') → seam.back.length ≤ left'.rest.length →
        ∃ result' right', step' state' seam.other right = .ok (.done result', right') ∧ related result result' ∧ seam.Along left' right')
    {state : σ} {state' : τ} (start : kept state state') :
    Mirrors Any (Parser.iterate step state) (Parser.iterate step' state') related := by
  intro seam _ left right along result left' ran inside
  replace ran : iterateFrom step state seam.source left = .ok (result, left') := ran
  show ∃ b right', iterateFrom step' state' seam.other right = .ok (b, right') ∧ _
  fun_induction iterateFrom step state seam.source left generalizing state' right with
  | case1 => cases ran
  | case2 state left value next stepped =>
    cases ran
    obtain ⟨result', right', run, relates, along'⟩ := dones state state' start seam left right along _ _ stepped inside
    exact ⟨result', right', ParserSimulation.iterateFrom_done run, relates, along'⟩
  | case3 state left later next stepped shorter ih =>
    obtain ⟨front, token, shape, -, kind⟩ := iterate_closes encloses _ _ ran
    have behind : left'.rest <:+ left.rest :=
      .trans ⟨front ++ [token], by rw [shape, List.append_assoc, List.singleton_append]⟩ ((advances state).ensures _ _ _ _ stepped).suffix
    obtain ⟨middle, ends⟩ := along.behind behind inside
    have rest : next.rest = (front ++ token :: middle) ++ seam.back := by rw [shape, ends, List.append_assoc, List.cons_append]
    obtain ⟨_, next', run, outcome, along'⟩ := (agains state state' start).recut along stepped rest fun front' alike =>
      flush_before alike (rest.symm.trans shape) inside (by simp [kind, Looks])
    cases outcome with | @again _ later' keeps => ?_
    have shorter' : next'.rest.length < right.rest.length := by
      have length := along.length
      have length' := along'.length
      omega
    rw [ParserSimulation.iterateFrom_again run shorter']
    exact ih keeps _ along' ran
  | case4 => cases ran

end KindLift.SeamLogic
