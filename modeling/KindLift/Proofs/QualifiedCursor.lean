import KindLift.Proofs.QualifiedTokens
import KindLift.Proofs.TokenReaders

/-! The same parser over two aligned lists of tokens. The cursors stay tied as
long as the parser does not read a qualified word by itself. When it does, the
second cursor is left in front of the point and the word it has not read yet. -/
namespace KindLift.QualifiedCursor
open KindLift.Parser ParserLogic ParserProgress ParserSimulation TokenReaders QualifiedTokens

variable {marked : Token → Bool} {place : Nat → Nat} {source source' : List Char} {left right : Cursor}
  {token other : Token}

/-- The cursors are at the same token, and have passed the same token. -/
def Tied (marked : Token → Bool) (place : Nat → Nat) (left right : Cursor) : Prop :=
  right.lastStop = place left.lastStop ∧ ∃ covered, Aligned marked place covered left.rest right.rest

/-- The cursors are tied right behind the token; what it defines is covered. -/
def TiedBehind (marked : Token → Bool) (place : Nat → Nat) (token : Token) (left right : Cursor) : Prop :=
  right.lastStop = place left.lastStop ∧ ∃ covered, definedBehind token left.rest ≤ covered ∧
    Aligned marked place covered left.rest right.rest

/-- The first cursor is in front of an opening bracket. -/
def AtSquare (cursor : Cursor) : Prop := cursor.rest.head?.map Token.kind = some (.opener .square)

/-- The first cursor is behind a word, and the second one behind its qualifier. -/
def Pending (marked : Token → Bool) (place : Nat → Nat) (left right : Cursor) : Prop :=
  AtSquare left ∧ ∃ dot other others, right.rest = dot :: other :: others ∧ dot.kind = .dot ∧ other.kind = .ident ∧
    other.stop = place left.lastStop ∧ ∃ covered, Aligned marked place covered left.rest others

theorem Pending.head_right (pending : Pending marked place left right) :
    right.rest.head?.map Token.kind = some .dot := by
  obtain ⟨-, dot, other, others, shape, point, -⟩ := pending
  rw [shape, ← point]
  rfl

def Near (marked : Token → Bool) (place : Nat → Nat) (left right : Cursor) : Prop :=
  Tied marked place left right ∨ Pending marked place left right

theorem TiedBehind.tied (tied : TiedBehind marked place token left right) : Tied marked place left right := by
  obtain ⟨stop, covered, -, aligned⟩ := tied
  exact ⟨stop, covered, aligned⟩

theorem Tied.near (tied : Tied marked place left right) : Near marked place left right := .inl tied

theorem Tied.head (tied : Tied marked place left right) :
    right.rest.head?.map Token.kind = left.rest.head?.map Token.kind := by
  obtain ⟨-, covered, aligned⟩ := tied
  exact aligned.head_kind

/-- Near cursors are both at a token of the kind, or neither of them is. -/
theorem Near.isAt (near : Near marked place left right) (kind : TokenKind) (noSquare : kind ≠ .opener .square)
    (noPoint : kind ≠ .dot) :
    decide (right.rest.head?.map Token.kind = some kind) = decide (left.rest.head?.map Token.kind = some kind) := by
  rcases near with tied | pending
  · rw [tied.head]
  · rw [pending.head_right, show left.rest.head?.map Token.kind = _ from pending.1,
      decide_eq_false fun same => noPoint (Option.some.inj same).symm,
      decide_eq_false fun same => noSquare (Option.some.inj same).symm]

/-- Near cursors are tied unless the first one is in front of brackets. -/
theorem Near.tied (near : Near marked place left right) (other : ¬ AtSquare left) : Tied marked place left right :=
  near.resolve_right fun pending => other pending.1

/-- Both cursors have read a token: the same one, or a word and its qualifier. -/
def Reads (marked : Token → Bool) (place : Nat → Nat) (token : Token) (left : Cursor) (other : Token)
    (right : Cursor) : Prop :=
  (Moved place token other ∧ TiedBehind marked place token left right) ∨
    (token.kind = .ident ∧ other.kind = .ident ∧ other.text = token.text ∧ Pending marked place left right)

theorem Reads.text (reads : Reads marked place token left other right) : other.text = token.text := by
  rcases reads with ⟨moved, -⟩ | ⟨-, -, spelled, -⟩
  · exact moved.text
  · exact spelled

theorem Reads.kind (reads : Reads marked place token left other right) : other.kind = token.kind := by
  rcases reads with ⟨moved, -⟩ | ⟨kind, kind', -⟩
  · exact moved.kind
  · exact kind'.trans kind.symm

theorem Reads.near (reads : Reads marked place token left other right) : Near marked place left right := by
  rcases reads with ⟨-, tied⟩ | ⟨-, -, -, pending⟩
  · exact .inl tied.tied
  · exact .inr pending

theorem Reads.same (reads : Reads marked place token left other right) (other_kind : token.kind ≠ .ident) :
    Moved place token other ∧ TiedBehind marked place token left right := by
  rcases reads with same | ⟨isIdent, -⟩
  · exact same
  · exact absurd isIdent other_kind

/-- Reading the next tokens of tied cursors. -/
theorem reads_next (tied : Tied marked place left right) :
    (left.rest = [] ∧ right.rest = []) ∨
      ∃ token rest other others, left.rest = token :: rest ∧ right.rest = other :: others ∧
        Reads marked place token ⟨rest, token.stop⟩ other ⟨others, other.stop⟩ := by
  obtain ⟨stop, covered, aligned⟩ := tied
  obtain ⟨tokens, _⟩ := left
  obtain ⟨tokens', _⟩ := right
  cases aligned with
  | nil => exact .inl ⟨rfl, rfl⟩
  | @same token other after _ rest others unmarked moved covers later =>
    refine .inr ⟨token, rest, other, others, rfl, rfl, .inl ⟨moved, moved.stop, after, ?_, later⟩⟩
    dsimp only
    omega
  | @word token qualifier dot other rest others qualifies bracket _ later =>
    refine .inr ⟨token, rest, qualifier, _, rfl, rfl, .inr ⟨qualifies.ident, qualifies.name, qualifies.spelled, bracket, ?_⟩⟩
    exact ⟨dot, other, others, rfl, qualifies.point, qualifies.kind, qualifies.stop, 0, later⟩

/-- What two parsers that may read a token have read. -/
def ReadsSome (marked : Token → Bool) (place : Nat → Nat) :
    Option Token → Cursor → Option Token → Cursor → Prop
  | none, left, none, right => Tied marked place left right
  | some token, left, some other, right => Reads marked place token left other right
  | _, _, _, _ => False

/-- Brackets stay where they are when another token is looked for. -/
theorem eats_square {kind : TokenKind} :
    Ensures source left (eats kind) fun a left' => kind ≠ .opener .square → AtSquare left → a = false ∧ left' = left := by
  intro a left' ran other square
  have head : left.rest.head?.map Token.kind ≠ some kind := by
    rw [square]
    exact fun same => other (Option.some.inj same).symm
  rw [eats_absent head] at ran
  cases ran
  exact ⟨rfl, rfl⟩

theorem bump_agree (tied : Tied marked place left right) :
    Agree source source' left right bump bump (ReadsSome marked place) := by
  rcases reads_next tied with ⟨empty, empty'⟩ | ⟨token, rest, other, others, shape, shape', reads⟩
  · obtain ⟨_, _⟩ := left
    obtain ⟨_, _⟩ := right
    cases empty
    cases empty'
    exact agree_of_ok rfl rfl tied
  · obtain ⟨_, _⟩ := left
    obtain ⟨_, _⟩ := right
    cases shape
    cases shape'
    exact agree_of_ok (bump_run token rest _) (bump_run other others _) reads

theorem bump_head : Ensures source left bump fun a _ => a = left.rest.head? := by
  obtain ⟨tokens, stop⟩ := left
  intro a left' ran
  cases tokens <;> cases ran <;> rfl

/-- Reading tokens that are known. -/
theorem agree_bump {rest others : List Token} {body : Option Token → Parser α} {body' : Option Token → Parser β}
    {post : α → Cursor → β → Cursor → Prop} (shape : left.rest = token :: rest) (shape' : right.rest = other :: others) :
    Agree source source' left right (bump >>= body) (bump >>= body') post ↔
      Agree source source' ⟨rest, token.stop⟩ ⟨others, other.stop⟩ (body (some token)) (body' (some other)) post := by
  obtain ⟨_, _⟩ := left
  obtain ⟨_, _⟩ := right
  cases shape
  cases shape'
  exact Iff.rfl

theorem eat?_agree (tied : Tied marked place left right) (kind : TokenKind) :
    Agree source source' left right (eat? kind) (eat? kind) fun a left' b right' =>
      ReadsSome marked place a left' b right' ∧ ∀ token ∈ a, token.kind = kind := by
  simp only [eat?, agree_isAt, tied.head]
  split
  · rename_i here
    refine ((bump_agree tied).and_left bump_head).mono ?_
    rintro a left' b right' ⟨reads, rfl⟩
    refine ⟨reads, fun token found => ?_⟩
    rw [Option.mem_def.mp found, Option.map_some, decide_eq_true_eq, Option.some.injEq] at here
    exact here
  · exact agree_pure.mpr ⟨tied, by simp⟩

theorem eats_agree (tied : Tied marked place left right) (kind : TokenKind) (noWord : kind ≠ .ident) :
    Agree source source' left right (eats kind) (eats kind) fun a left' b right' =>
      a = b ∧ Tied marked place left' right' := by
  refine (eat?_agree tied kind).then ?_
  rintro (_ | token) left' (_ | other) right' ⟨reads, isKind⟩
  · exact agree_pure.mpr ⟨rfl, reads⟩
  · exact reads.elim
  · exact reads.elim
  · have kind' := isKind token rfl
    exact agree_pure.mpr ⟨rfl, (reads.same (kind' ▸ noWord)).2.tied⟩

/-- Neither a bracket nor a point is read as another token. -/
theorem eats_pending (pending : Pending marked place left right) (kind : TokenKind)
    (noSquare : kind ≠ .opener .square) (noPoint : kind ≠ .dot) :
    Agree source source' left right (eats kind) (eats kind) fun a left' b right' =>
      a = false ∧ b = false ∧ left' = left ∧ right' = right := by
  refine agree_of_ok (eats_absent ?_) (eats_absent ?_) ⟨rfl, rfl, rfl, rfl⟩
  · rw [pending.1]
    exact fun same => noSquare (Option.some.inj same).symm
  · rw [pending.head_right]
    exact fun same => noPoint (Option.some.inj same).symm

theorem expect_agree (tied : Tied marked place left right) (kind : TokenKind) (noWord : kind ≠ .ident) (what : String) :
    Agree source source' left right (expect kind what) (expect kind what) fun token left' other right' =>
      token.kind = kind ∧ Moved place token other ∧ TiedBehind marked place token left' right' := by
  refine (eat?_agree tied kind).then ?_
  rintro (_ | token) left' (_ | other) right' ⟨reads, isKind⟩
  · exact agree_fail_left
  · exact reads.elim
  · exact reads.elim
  · have kind' := isKind token rfl
    exact agree_pure.mpr ⟨kind', reads.same (kind' ▸ noWord)⟩

theorem name?_agree (tied : Tied marked place left right) :
    Agree source source' left right name? name? fun a left' b right' =>
      ReadsSome marked place a left' b right' ∧ ∀ token ∈ a, token.isName = true := by
  simp only [name?, agree_peek?]
  have bumped : Agree source source' left right bump bump fun a left' b right' =>
      ReadsSome marked place a left' b right' ∧ a = left.rest.head? := (bump_agree tied).and_left bump_head
  rcases reads_next tied with ⟨empty, empty'⟩ | ⟨token, rest, other, others, shape, shape', reads⟩
  · rw [empty, empty']
    exact agree_pure.mpr ⟨tied, by simp⟩
  · rw [shape] at bumped ⊢
    rw [shape']
    have same : other.isName = token.isName := by rw [Token.isName, Token.isName, reads.kind]
    dsimp only [List.head?]
    rw [same]
    split
    · rename_i isName
      refine bumped.mono ?_
      rintro a left' b right' ⟨reads, rfl⟩
      exact ⟨reads, fun token found => Option.some.inj found ▸ isName⟩
    · exact agree_pure.mpr ⟨tied, by simp⟩

theorem expectName_agree (tied : Tied marked place left right) (what : String) :
    Agree source source' left right (expectName what) (expectName what) fun token left' other right' =>
      Reads marked place token left' other right' := by
  refine (name?_agree tied).then ?_
  rintro (_ | token) left' (_ | other) right' ⟨reads, -⟩
  · exact agree_fail_left
  · exact reads.elim
  · exact reads.elim
  · exact agree_pure.mpr reads

theorem eatAll_agree (tied : Tied marked place left right) (kind : TokenKind) (noWord : kind ≠ .ident) :
    Agree source source' left right (eatAll kind) (eatAll kind) fun _ left' _ right' =>
      Tied marked place left' right' := by
  refine agree_iterate_step (fun _ => inferInstance) (fun _ left _ right => Tied marked place left right) tied ?_
  intro _ left _ right tied
  refine (eats_agree tied kind noWord).then ?_
  rintro a left' b right' ⟨rfl, tied⟩
  split <;> exact agree_pure.mpr tied

theorem splitGroup?_aligned {tokens others rest rest' : List Token} {covered : Nat}
    (aligned : Aligned marked place covered tokens others) (split : Token.splitGroup? tokens = some (token, rest))
    (split' : Token.splitGroup? others = some (other, rest')) :
    Moved place token other ∧ ∃ later, covered + rest.length ≤ later + tokens.length ∧
      Aligned marked place later rest rest' := by
  simp only [Token.splitGroup?, Option.bind_eq_bind, Option.bind_eq_some_iff, Option.pure_def,
    Option.some.injEq, Prod.mk.injEq] at split split'
  obtain ⟨index, closed, _, found, rfl, rfl⟩ := split
  obtain ⟨index', closed', _, found', rfl, rfl⟩ := split'
  have alike := groupEnd?_aligned aligned
  rw [closed, closed'] at alike
  cases alike with
  | closed split =>
    obtain ⟨_, _, later, here, there, moved, bound, rest⟩ := split
    rw [found] at here
    rw [found'] at there
    cases here
    cases there
    obtain ⟨inside, -⟩ := List.getElem?_eq_some_iff.mp found
    refine ⟨moved, later, ?_, rest⟩
    rw [List.length_drop]
    omega

/-- The lists are split behind the same token, or neither of them is. -/
inductive SplitAlike (marked : Token → Bool) (place : Nat → Nat) :
    Option (Token × List Token) → Option (Token × List Token) → Prop where
  | neither : SplitAlike marked place none none
  | both {found found' : Token} (moved : Moved place found found')
      (aligned : Aligned marked place covered rest rest') :
      SplitAlike marked place (some (found, rest)) (some (found', rest'))

theorem splitGroup?_alike {tokens others : List Token} {covered : Nat}
    (aligned : Aligned marked place covered tokens others) :
    SplitAlike marked place (Token.splitGroup? tokens) (Token.splitGroup? others) := by
  have alike := groupEnd?_aligned aligned
  unfold Token.splitGroup?
  generalize Token.groupEnd? tokens = found at alike
  generalize Token.groupEnd? others = found' at alike
  cases alike with
  | unclosed => exact .neither
  | closed split =>
    obtain ⟨token, other, later, here, there, moved, -, rest⟩ := split
    simp only [Option.bind_eq_bind, Option.bind_some, here, there, Option.pure_def]
    exact .both moved rest

theorem skipGroup_agree (tied : Tied marked place left right) :
    Agree source source' left right skipGroup skipGroup fun _ left' _ right' => Tied marked place left' right' := by
  obtain ⟨-, covered, aligned⟩ := id tied
  have alike := splitGroup?_alike aligned
  rw [skipGroup, agree_get]
  rcases reads_next tied with ⟨empty, -⟩ | ⟨token, rest, other, others, shape, shape', -⟩
  · rw [empty]
    exact agree_fail_left
  · rw [shape, shape'] at alike ⊢
    dsimp only
    generalize Token.splitGroup? (token :: rest) = found at alike
    generalize Token.splitGroup? (other :: others) = found' at alike
    cases alike with
    | neither => exact agree_throw_left
    | both moved aligned => exact agree_of_ok rfl rfl ⟨moved.stop, _, aligned⟩

theorem skipGroups_agree (tied : Tied marked place left right) (bracket : Bracket) :
    Agree source source' left right (skipGroups bracket) (skipGroups bracket) fun _ left' _ right' =>
      Tied marked place left' right' := by
  refine agree_iterate_step (fun _ => .after inferInstance inferInstance) (fun _ left _ right => Tied marked place left right)
    tied ?_
  intro _ left _ right tied
  simp only [agree_isAt, tied.head]
  split
  · exact (skipGroup_agree tied).then fun _ _ _ _ tied => agree_pure.mpr tied
  · exact agree_pure.mpr tied

section Iteration

variable {step : σ → Parser (Step σ ρ)} {step' : τ → Parser (Step τ π)} {state : σ} {state' : τ}

/-- A repeated step over cursors that may come apart: the second parser first
catches up with the first one. -/
theorem agree_iterate_near (strides : ∀ state, Strides (step' state)) (related : σ → Cursor → τ → Prop)
    {post : ρ → Cursor → π → Cursor → Prop} (near : Near marked place left right) (start : related state left state')
    (catchUp : ∀ state left state' right, Pending marked place left right → related state left state' →
      ∃ later' next', Tied marked place left next' ∧ related state left later' ∧
        iterateFrom step' state' source' right = iterateFrom step' later' source' next')
    (preserved : ∀ state left state' right, Tied marked place left right → related state left state' →
      Agree source source' left right (step state) (step' state') fun outcome next outcome' next' =>
        match outcome, outcome' with
        | .again later, .again later' => Near marked place next next' ∧ related later next later'
        | .done a, .done b => post a next b next'
        | _, _ => False) :
    Agree source source' left right (iterate step state) (iterate step' state') post := by
  refine agree_iterate (fun state left state' right => Near marked place left right ∧ related state left state')
    ⟨near, start⟩ ?_
  rintro state left state' right ⟨near, holds⟩ outcome next stepped
  obtain ⟨state', right, tied, holds, same⟩ : ∃ later' next', Tied marked place left next' ∧
      related state left later' ∧ iterateFrom step' state' source' right = iterateFrom step' later' source' next' := by
    rcases near with tied | pending
    · exact ⟨state', right, tied, holds, rfl⟩
    · exact catchUp state left state' right pending holds
  rw [same]
  obtain ⟨outcome', next', run, kept⟩ := preserved state left state' right tied holds _ _ stepped
  cases outcome <;> cases outcome' <;> simp only at kept
  · exact ⟨_, _, kept, iterateFrom_again run ((strides state').ensures source' right _ _ run)⟩
  · exact ⟨_, _, iterateFrom_done run, kept⟩

end Iteration

theorem bump_near (tied : Tied marked place left right) :
    Agree source source' left right bump bump fun _ left' _ right' => Near marked place left' right' := by
  refine (bump_agree tied).mono ?_
  rintro (_ | token) left' (_ | other) right' reads
  · exact .inl reads
  · exact reads.elim
  · exact reads.elim
  · exact reads.near

/-- Reading a token that is no word. -/
theorem bump_same (tied : Tied marked place left right) {kind : TokenKind}
    (head : left.rest.head?.map Token.kind = some kind) (noWord : kind ≠ .ident) :
    Agree source source' left right bump bump fun a left' b right' => ∃ token other, a = some token ∧ b = some other ∧
      token.kind = kind ∧ Moved place token other ∧ TiedBehind marked place token left' right' := by
  refine ((bump_agree tied).and_left bump_head).mono ?_
  rintro (_ | token) left' (_ | other) right' ⟨reads, here⟩
  · rw [← here] at head
    cases head
  · exact reads.elim
  · exact reads.elim
  · rw [← here, Option.map_some, Option.some.injEq] at head
    exact ⟨token, other, rfl, rfl, head, reads.same (head ▸ noWord)⟩

theorem bump_tied (tied : Tied marked place left right) {kind : TokenKind}
    (head : left.rest.head?.map Token.kind = some kind) (noWord : kind ≠ .ident) :
    Agree source source' left right bump bump fun _ left' _ right' => Tied marked place left' right' := by
  refine (bump_same tied head noWord).mono ?_
  rintro _ _ _ _ ⟨_, _, _, _, _, _, tied⟩
  exact tied.tied

/-- A word or a point is passed over on the way to the end of a statement. -/
theorem skipRest_pass {rest : List Token} {stop : Nat} (kind : token.kind = .ident ∨ token.kind = .dot) :
    skipRest source ⟨token :: rest, stop⟩ = skipRest source ⟨rest, token.stop⟩ := by
  refine iterateFrom_again ?_ (Nat.lt_succ_self _)
  obtain ⟨_, start, lexeme⟩ := token
  rcases kind with rfl | rfl <;> rfl

/-- The second cursor catches up by passing over a point and a word. -/
theorem Pending.tied (pending : Pending marked place left right) : ∃ dot other others,
    right.rest = dot :: other :: others ∧ dot.kind = .dot ∧ other.kind = .ident ∧
      Tied marked place left ⟨others, other.stop⟩ := by
  obtain ⟨-, dot, other, others, shape, point, kind, stop, covered, aligned⟩ := pending
  exact ⟨dot, other, others, shape, point, kind, stop, covered, aligned⟩

theorem skipRest_agree (near : Near marked place left right) :
    Agree source source' left right skipRest skipRest fun _ left' _ right' => Tied marked place left' right' := by
  refine agree_iterate_near ?_ (fun _ _ _ => True) near trivial ?_ ?_
  · refine fun _ => .peekKind inferInstance fun source cursor token here => ?_
    split
    case h_7 => split <;> first | exact Strides.done.ensures source cursor | exact bump_goes here inferInstance
    all_goals first
      | exact bump_goes here inferInstance
      | exact Strides.ensures source cursor
  · intro _ left _ right pending _
    obtain ⟨dot, other, others, shape, point, kind, tied⟩ := pending.tied
    obtain ⟨tokens, stop⟩ := right
    subst shape
    exact ⟨(), _, tied, trivial, (skipRest_pass (.inr point)).trans (skipRest_pass (.inl kind))⟩
  · intro _ left _ right tied _
    simp only [agree_peekKind?, tied.head]
    split
    · exact agree_pure.mpr tied
    · exact agree_pure.mpr tied
    · exact agree_fail_left
    · rename_i head
      exact (bump_tied tied head (by simp)).then fun _ _ _ _ tied => agree_pure.mpr tied
    · exact agree_pure.mpr tied
    · exact (skipGroup_agree tied).then fun _ _ _ _ tied => agree_pure.mpr ⟨tied.near, trivial⟩
    · rename_i head
      split
      · exact agree_pure.mpr tied
      · exact (bump_near tied).then fun _ _ _ _ near => agree_pure.mpr ⟨near, trivial⟩
    · exact (bump_near tied).then fun _ _ _ _ near => agree_pure.mpr ⟨near, trivial⟩

/-- The rest of a statement that begins with a group is the group and then the rest. -/
theorem skipRest_group {bracket : Bracket} (head : left.rest.head?.map Token.kind = some (.opener bracket)) :
    skipRest source left = (skipGroup >>= fun _ => skipRest) source left := by
  obtain ⟨_ | ⟨⟨kind, start, lexeme⟩, rest⟩, stop⟩ := left
  · cases head
  cases head
  show iterateFrom _ () source _ = _
  cases grouped : skipGroup source ⟨⟨.opener bracket, start, lexeme⟩ :: rest, stop⟩ with
  | error fault =>
    have stepped : (skipGroup >>= fun _ => (pure (.again ()) : Parser (Step Unit Unit))) source
        ⟨⟨.opener bracket, start, lexeme⟩ :: rest, stop⟩ = .error fault := bind_error grouped
    rw [bind_error grouped]
    exact iterateFrom_error stepped
  | ok pair =>
    obtain ⟨span, middle⟩ := pair
    have stepped : (skipGroup >>= fun _ => (pure (.again ()) : Parser (Step Unit Unit))) source
        ⟨⟨.opener bracket, start, lexeme⟩ :: rest, stop⟩ = .ok (.again (), middle) := bind_ok grouped
    rw [bind_ok grouped]
    exact iterateFrom_again stepped (skipGroup_takes.ensures _ _ _ _ grouped)

theorem skipStatement_agree (near : Near marked place left right) :
    Agree source source' left right skipStatement skipStatement fun _ left' _ right' =>
      Tied marked place left' right' := by
  rcases near with tied | pending
  · simp only [skipStatement, agree_peekKind?, tied.head]
    split
    · exact agree_pure.mpr tied
    · exact (skipGroup_agree tied).then fun _ _ _ _ tied => skipRest_agree tied.near
    · exact agree_fail_left
    · exact (bump_near tied).then fun _ _ _ _ near => skipRest_agree near
  · obtain ⟨dot, other, others, shape, point, kind, tied⟩ := pending.tied
    obtain ⟨tokens, stop⟩ := right
    subst shape
    obtain ⟨_ | ⟨⟨kind, start, lexeme⟩, rest⟩, stop'⟩ := left
    · cases pending.1
    have square := pending.1
    cases square
    obtain ⟨_, start', lexeme'⟩ := dot
    cases point
    have agreed : Agree source source' _ _ (skipGroup >>= fun _ => skipRest) (skipGroup >>= fun _ => skipRest) _ :=
      (skipGroup_agree tied).then fun _ _ _ _ tied => skipRest_agree tied.near
    intro a left' ran
    obtain ⟨b, right', run, holds⟩ := agreed a left' ran
    rw [← skipRest_group tied.head, ← skipRest_pass (.inl ‹_›)] at run
    exact ⟨b, right', run, holds⟩

variable {stops : TokenKind → Bool}

/-- A word or a point that does not stop is passed over. -/
theorem scanStep_pass {rest : List Token} {stop : Nat} (kind : token.kind = .ident ∨ token.kind = .dot)
    (goes : stops token.kind = false) (seen : Option Span) :
    ∃ span, scanStep stops seen source ⟨token :: rest, stop⟩ = .ok (.again (some span), ⟨rest, token.stop⟩) := by
  have stays : ¬ stops token.kind = true := by
    rw [goes]
    simp
  rw [scanStep, bind_ok (peek?_run token rest stop)]
  dsimp only
  rw [if_neg stays]
  rcases kind with kind | kind
  · simp only [kind]
    rw [bind_ok (bump_run token rest stop)]
    cases seen <;> exact ⟨_, rfl⟩
  · simp only [kind]
    rw [bind_ok (bump_run token rest stop)]
    cases seen <;> exact ⟨_, rfl⟩

/-- Something has been read on both sides or on neither, or the second parser is
ahead of a group that the first one is about to read. -/
def SeenAlike (seen : Option Span) (left : Cursor) (seen' : Option Span) : Prop :=
  seen'.isSome = seen.isSome ∨ AtSquare left ∧ seen'.isSome = true

theorem scanUntil_agree (near : Near marked place left right) (word : stops .ident = false) (point : stops .dot = false)
    (square : stops (.opener .square) = false) :
    Agree source source' left right (scanUntil stops) (scanUntil stops) fun a left' b right' =>
      b.isSome = a.isSome ∧ Tied marked place left' right' := by
  refine agree_iterate_near inferInstance SeenAlike near (.inl rfl) ?_ ?_
  · intro seen left seen' right pending alike
    obtain ⟨dot, other, others, shape, isDot, isIdent, tied⟩ := pending.tied
    obtain ⟨tokens, stop⟩ := right
    subst shape
    obtain ⟨span, stepped⟩ := @scanStep_pass source' dot stops (other :: others) stop (.inr isDot) (isDot ▸ point) seen'
    obtain ⟨span', stepped'⟩ := @scanStep_pass source' other stops others dot.stop (.inl isIdent) (isIdent ▸ word) (some span)
    exact ⟨_, _, tied, .inr ⟨pending.1, rfl⟩, (iterateFrom_again stepped (Nat.lt_succ_self _)).trans
      (iterateFrom_again stepped' (Nat.lt_succ_self _))⟩
  · intro seen left seen' right tied alike
    simp only [scanStep, agree_peek?]
    have done : ¬ AtSquare left → seen'.isSome = seen.isSome := fun other => alike.resolve_right fun both => other both.1
    rcases reads_next tied with ⟨empty, empty'⟩ | ⟨token, rest, other, others, shape, shape', reads⟩
    · rw [empty, empty']
      refine agree_pure.mpr ⟨done ?_, tied⟩
      rw [AtSquare, empty]
      simp
    · have head : left.rest.head?.map Token.kind = some token.kind := by rw [shape]; rfl
      rw [shape, shape']
      dsimp only [List.head?]
      rw [reads.kind]
      split
      · rename_i stopped
        refine agree_pure.mpr ⟨done ?_, tied⟩
        rw [AtSquare, head, Option.some.injEq]
        intro isSquare
        rw [isSquare, square] at stopped
        cases stopped
      · split
        · rename_i bracket isOpener
          refine (skipGroup_agree tied).then fun span left' span' right' tied => ?_
          refine agree_pure.mpr ⟨tied.near, .inl ?_⟩
          cases seen <;> cases seen' <;> rfl
        · rename_i bracket isCloser
          refine agree_pure.mpr ⟨done ?_, tied⟩
          rw [AtSquare, head, isCloser]
          simp
        · refine (bump_near tied).then fun _ left' _ right' near => ?_
          refine agree_pure.mpr ⟨near, .inl ?_⟩
          cases seen <;> cases seen' <;> rfl

theorem selfTypeArrow?_pass {rest : List Token} (kind : token.kind = .ident ∨ token.kind = .dot) :
    selfTypeArrow? (token :: rest) = selfTypeArrow? rest := by
  rw [selfTypeArrow?]
  rcases kind with kind | kind <;> rw [kind]

theorem selfTypeArrow?_alike {tokens others : List Token} {covered : Nat}
    (aligned : Aligned marked place covered tokens others) :
    SplitAlike marked place (selfTypeArrow? tokens) (selfTypeArrow? others) := by
  induction length : tokens.length using Nat.strong_induction_on generalizing tokens others covered with
  | _ count ih =>
    cases aligned with
    | nil =>
      rw [selfTypeArrow?]
      exact .neither
    | @same token other after _ rest others unmarked moved covers later =>
      have shorter : rest.length < count := by simp [← length]
      have groups := splitGroup?_alike (.same unmarked moved covers later)
      rw [selfTypeArrow?, selfTypeArrow?, moved.kind]
      split
      · exact .both moved later
      · exact .neither
      · exact .neither
      · exact .neither
      · split
        · exact .neither
        · exact ih _ shorter later rfl
      · split
        · rename_i after group
          rw [group] at groups
          split
          · rename_i after' group'
            rw [group'] at groups
            cases groups with
            | both _ aligned => exact ih _ (length ▸ Token.splitGroup?_length_lt group) aligned rfl
          · rename_i group'
            rw [group'] at groups
            cases groups
        · rename_i group
          rw [group] at groups
          split
          · rename_i group'
            rw [group'] at groups
            cases groups
          · exact .neither
      · exact ih _ shorter later rfl
    | @word token qualifier dot other rest others qualifies bracket _ later =>
      rw [selfTypeArrow?_pass (.inl qualifies.ident), selfTypeArrow?_pass (.inl qualifies.name),
        selfTypeArrow?_pass (.inr qualifies.point), selfTypeArrow?_pass (.inl qualifies.kind)]
      exact ih rest.length (by simp [← length]) later rfl

theorem selfType?_alike {tokens others : List Token} {covered : Nat}
    (aligned : Aligned marked place covered tokens others) :
    SplitAlike marked place (selfType? tokens) (selfType? others) := by
  cases aligned with
  | nil => exact .neither
  | @same first first' after _ rest others unmarked moved covers later =>
    cases later with
    | nil => exact .neither
    | @same second second' _ _ rest others _ moved' _ later =>
      rw [selfType?, selfType?, moved.kind, moved'.kind]
      split
      · split
        · exact .both moved' later
        · exact selfTypeArrow?_alike later
        · exact .neither
      · exact .neither
    | @word second qualifier dot other rest others qualifies bracket _ later =>
      rw [selfType?, selfType?, moved.kind, qualifies.ident, qualifies.name]
      split <;> exact .neither
  | @word first qualifier dot other rest others qualifies bracket _ later =>
    cases rest with
    | nil => cases bracket
    | cons second rest =>
      have square : second.kind = .opener .square := Option.some.inj bracket
      rw [selfType?, selfType?, qualifies.ident, qualifies.name, qualifies.point, square]
      exact .neither

theorem skipSelfType_agree (tied : Tied marked place left right) :
    Agree source source' left right skipSelfType skipSelfType fun _ left' _ right' =>
      Tied marked place left' right' := by
  obtain ⟨-, covered, aligned⟩ := id tied
  have alike := selfType?_alike aligned
  simp only [skipSelfType, agree_get]
  generalize selfType? left.rest = found at alike
  generalize selfType? right.rest = found' at alike
  cases alike with
  | neither => exact agree_pure.mpr tied
  | both moved aligned => exact agree_of_ok rfl rfl ⟨moved.stop, _, aligned⟩

/-- The braces of one body are those of the other one, moved. -/
def MovedBody (place : Nat → Nat) (body body' : Body) : Prop :=
  body'.openBrace = place body.openBrace ∧ body'.closeBrace = place body.closeBrace

theorem openBody_agree (tied : Tied marked place left right) :
    Agree source source' left right openBody openBody fun a left' b right' =>
      b = place a ∧ Tied marked place left' right' := by
  refine (expect_agree tied (.opener .brace) (by simp) _).then ?_
  rintro brace left' brace' right' ⟨-, moved, tied⟩
  refine (skipSelfType_agree tied.tied).then fun _ left' _ right' tied => ?_
  exact agree_pure.mpr ⟨moved.start, tied⟩

theorem closeBody?_agree (near : Near marked place left right) (openBrace : Nat) :
    Agree source source' left right (closeBody? openBrace) (closeBody? (place openBrace))
      fun a left' b right' =>
        match a, b with
        | some body, some body' => MovedBody place body body' ∧ Tied marked place left' right'
        | none, none => Near marked place left' right'
        | _, _ => False := by
  rcases near with tied | pending
  · refine (eatAll_agree tied .semi (by simp)).then fun _ left _ right tied => ?_
    simp only [agree_peek?]
    rcases reads_next tied with ⟨empty, empty'⟩ | ⟨token, rest, other, others, shape, shape', reads⟩
    · rw [empty]
      exact agree_throw_left
    · rw [shape, shape']
      dsimp only [List.head?]
      rw [reads.kind]
      split
      · rename_i isBrace
        have moved := (reads.same (isBrace ▸ (by simp))).1
        have head : left.rest.head?.map Token.kind = some (.closer .brace) := by rw [shape, ← isBrace]; rfl
        refine (bump_tied tied head (by simp)).then fun _ left' _ right' tied => ?_
        exact agree_pure.mpr ⟨⟨rfl, moved.start⟩, tied⟩
      · exact agree_pure.mpr tied.near
  · have stays : Agree source source' left right (eatAll .semi) (eatAll .semi) fun _ left' _ right' =>
        left' = left ∧ right' = right :=
      agree_of_ok (eatAll_stays (by rw [pending.1]; simp)) (eatAll_stays (by rw [pending.head_right]; simp)) ⟨rfl, rfl⟩
    refine stays.then ?_
    rintro _ _ _ _ ⟨rfl, rfl⟩
    obtain ⟨token, shape, square⟩ := Option.map_eq_some_iff.mp pending.1
    obtain ⟨dot, shape', point⟩ := Option.map_eq_some_iff.mp pending.head_right
    simp only [agree_peek?, shape, shape', square, point, reduceCtorEq, if_false]
    exact agree_pure.mpr (.inr pending)

/-- Behind a token that is no word the cursors are at tokens of one kind again. -/
theorem Tied.second (tied : Tied marked place left right) {kind : TokenKind}
    (head : left.rest.head?.map Token.kind = some kind) (noWord : kind ≠ .ident) :
    right.rest[1]?.map Token.kind = left.rest[1]?.map Token.kind := by
  rcases reads_next tied with ⟨empty, -⟩ | ⟨token, rest, other, others, shape, shape', reads⟩
  · rw [empty] at head
    cases head
  · rw [shape] at head ⊢
    cases head
    rw [shape', List.getElem?_cons_succ, List.getElem?_cons_succ, ← List.head?_eq_getElem?, ← List.head?_eq_getElem?]
    exact (reads.same noWord).2.tied.head

theorem pathStep_pass {dot other : Token} {others : List Token} {stop : Nat} (point : dot.kind = .dot)
    (isIdent : other.kind = .ident) (what : String) (read : DottedName × Span) :
    pathStep what read source ⟨dot :: other :: others, stop⟩ =
      .ok (.again (read.1.child other.text, read.2.cover other.span), ⟨others, other.stop⟩) := by
  obtain ⟨_, start, lexeme⟩ := dot
  obtain ⟨_, start', lexeme'⟩ := other
  cases point
  cases isIdent
  rfl

/-- A path reads the same, unless its last word is qualified now. -/
theorem path_agree (tied : Tied marked place left right) (what : String) :
    Agree source source' left right (path what) (path what) fun a left' b right' =>
      Tied marked place left' right' ∧ (b.1 = a.1 ∨ AtSquare left') := by
  refine (expectName_agree tied what).then fun first left first' right reads => ?_
  refine agree_iterate_near inferInstance (fun read left read' => read'.1 = read.1 ∨ AtSquare left) reads.near
    (.inl (by rw [reads.text])) ?_ ?_
  · intro read left read' right pending alike
    obtain ⟨dot, other, others, shape, point, isIdent, tied⟩ := pending.tied
    obtain ⟨tokens, stop⟩ := right
    subst shape
    exact ⟨_, _, tied, .inr pending.1, iterateFrom_again (pathStep_pass point isIdent what read')
      (Nat.lt_trans (Nat.lt_succ_self _) (Nat.lt_succ_self _))⟩
  · intro read left read' right tied alike
    simp only [pathStep, agree_isAt, agree_secondKind?, tied.head]
    by_cases atDot : left.rest.head?.map Token.kind = some .dot
    · rw [tied.second atDot (by simp)]
      split
      · refine (bump_tied tied atDot (by simp)).then fun _ left' _ right' tied => ?_
        refine (expectName_agree tied what).then fun segment left' segment' right' reads => ?_
        refine agree_pure.mpr ⟨reads.near, .inl ?_⟩
        rcases alike with same | square
        · rw [same, reads.text]
        · rw [AtSquare, atDot] at square
          cases square
      · exact agree_pure.mpr ⟨tied, alike⟩
    · simp only [atDot, decide_false, Bool.false_and, Bool.false_eq_true, if_false]
      exact agree_pure.mpr ⟨tied, alike⟩

end KindLift.QualifiedCursor
