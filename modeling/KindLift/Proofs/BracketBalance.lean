import KindLift.Proofs.CursorAdvance
import KindLift.Proofs.DeclPlacement
import KindLift.Proofs.QualifiedTokens

/-! Which brackets a source has when it is accepted. No single pass looks at them: what
each parser reads is well bracketed, and so is what is read by one after the other. The
self type at the beginning of a body is the exception. Its arrow is looked for across
closing parentheses and square brackets that nothing has opened. -/
namespace KindLift.BracketBalance
open KindLift.Parser ParserLogic CursorAdvance QualifiedTokens

/-- Every opening bracket has its closing one, and there are no others. -/
inductive WellBracketed : List Token → Prop where
  | nil : WellBracketed []
  | plain (single : IsPlain token.kind) (rest : WellBracketed tokens) : WellBracketed (token :: tokens)
  | group (opens : opening.kind = .opener bracket) (inner : WellBracketed inside) (closes : closing.kind = .closer bracket)
      (rest : WellBracketed behind) : WellBracketed (opening :: (inside ++ closing :: behind))

/-- Tokens and groups, and closing brackets without opening ones, but no such brace. -/
inductive Straying : List Token → Prop where
  | nil : Straying []
  | plain (single : IsPlain token.kind) (rest : Straying tokens) : Straying (token :: tokens)
  | group (opens : opening.kind = .opener bracket) (inner : WellBracketed inside) (closes : closing.kind = .closer bracket)
      (rest : Straying behind) : Straying (opening :: (inside ++ closing :: behind))
  | stray (closes : token.kind = .closer bracket) (other : bracket ≠ .brace) (rest : Straying tokens) :
      Straying (token :: tokens)

/-- A name with an arrow behind it, or with a colon, anything astray and an arrow. -/
inductive SelfType : List Token → Prop where
  | bare (named : first.kind = .ident ∨ first.kind = .underscore) (points : arrow.kind = .arrow) : SelfType [first, arrow]
  | typed (named : first.kind = .ident ∨ first.kind = .underscore) (colon : second.kind = .colon)
      (ascription : Straying tokens) (points : arrow.kind = .arrow) : SelfType (first :: second :: (tokens ++ [arrow]))

/-- Brackets match but for those of self types behind opening braces. -/
inductive Matched : List Token → Prop where
  | nil : Matched []
  | plain (single : IsPlain token.kind) (rest : Matched tokens) : Matched (token :: tokens)
  | group (opens : opening.kind = .opener bracket) (inner : Matched inside) (closes : closing.kind = .closer bracket)
      (rest : Matched behind) : Matched (opening :: (inside ++ closing :: behind))
  | body (opens : opening.kind = .opener .brace) (header : SelfType self) (inner : Matched inside)
      (closes : closing.kind = .closer .brace) (rest : Matched behind) :
      Matched (opening :: (self ++ (inside ++ closing :: behind)))

/-- The self types behind opening braces are well bracketed. -/
def SelfTypesClosed (tokens : List Token) : Prop :=
  ∀ front brace self back, tokens = front ++ brace :: (self ++ back) → brace.kind = .opener .brace → SelfType self →
    WellBracketed self

variable {tokens rest front back stretch : List Token} {token closing arrow : Token} {bracket first : Bracket} {outer : List Bracket} {index : Nat}

theorem WellBracketed.append (first : WellBracketed front) (second : WellBracketed back) : WellBracketed (front ++ back) := by
  induction first with
  | nil => exact second
  | plain single _ ih => exact .plain single ih
  | group opens inner closes _ _ ih =>
    rw [List.cons_append, List.append_assoc, List.cons_append]
    exact .group opens inner closes ih

theorem Matched.append (first : Matched front) (second : Matched back) : Matched (front ++ back) := by
  induction first with
  | nil => exact second
  | plain single _ ih => exact .plain single ih
  | group opens inner closes _ _ ih =>
    rw [List.cons_append, List.append_assoc, List.cons_append]
    exact .group opens inner closes ih
  | body opens header inner closes _ _ ih =>
    rw [List.cons_append, List.append_assoc, List.append_assoc, List.cons_append]
    exact .body opens header inner closes ih

theorem WellBracketed.matched (bracketed : WellBracketed tokens) : Matched tokens := by
  induction bracketed with
  | nil => exact .nil
  | plain single _ ih => exact .plain single ih
  | group opens _ closes _ inner ih => exact .group opens inner closes ih

/-! ### Closed self types -/

/-- The brackets open behind the tokens, when `opened` are open in front of them. There
are none when a closing bracket does not match. -/
def unclosed : List Bracket → List Token → Option (List Bracket)
  | opened, [] => some opened
  | opened, token :: rest =>
    match token.kind with
    | .opener bracket => unclosed (bracket :: opened) rest
    | .closer bracket =>
      match opened with
      | first :: outer => if bracket = first then unclosed outer rest else none
      | [] => none
    | _ => unclosed opened rest

theorem unclosed_plain (single : IsPlain token.kind) (opened : List Bracket) (rest : List Token) :
    unclosed opened (token :: rest) = unclosed opened rest := by
  rw [unclosed]
  split
  · exact absurd ‹_› (single.1 _)
  · exact absurd ‹_› (single.2 _)
  · rfl

theorem unclosed_opener (opens : token.kind = .opener bracket) (opened : List Bracket) (rest : List Token) :
    unclosed opened (token :: rest) = unclosed (bracket :: opened) rest := by
  rw [unclosed, opens]

theorem unclosed_closer (closes : token.kind = .closer bracket) (outer : List Bracket) (rest : List Token) :
    unclosed (bracket :: outer) (token :: rest) = unclosed outer rest := by
  rw [unclosed, closes]
  exact if_pos rfl

theorem unclosed_append (opened : List Bracket) (front back : List Token) :
    unclosed opened (front ++ back) = (unclosed opened front).bind fun left => unclosed left back := by
  induction front generalizing opened with
  | nil => rfl
  | cons token front ih =>
    rw [List.cons_append, unclosed, unclosed]
    split
    · exact ih _
    · split
      · split
        · exact ih _
        · rfl
      · rfl
    · exact ih _

/-- A group leaves the brackets as they are. -/
theorem unclosed_group {opening : Token} {inside behind : List Token} (opens : opening.kind = .opener bracket)
    (inner : ∀ opened, unclosed opened inside = some opened) (closes : closing.kind = .closer bracket) (opened : List Bracket) :
    unclosed opened (opening :: (inside ++ closing :: behind)) = unclosed opened behind := by
  rw [unclosed_opener opens, unclosed_append, inner, Option.bind_some, unclosed_closer closes]

theorem WellBracketed.unclosed (bracketed : WellBracketed tokens) (opened : List Bracket) :
    unclosed opened tokens = some opened := by
  induction bracketed generalizing opened with
  | nil => rfl
  | plain single _ ih => rw [unclosed_plain single, ih]
  | group opens _ closes _ inner ih => rw [unclosed_group opens inner closes, ih]

/-- Where every bracket is closed in the end, what lies in front of the innermost
one's closing bracket is well bracketed. -/
theorem unclosed_split (closed : unclosed (first :: outer) tokens = some []) : ∃ inner closing later,
    tokens = inner ++ closing :: later ∧ WellBracketed inner ∧ closing.kind = .closer first ∧ unclosed outer later = some [] := by
  induction bound : tokens.length using Nat.strongRecOn generalizing tokens first outer with
  | ind size ih =>
    subst bound
    cases tokens with
    | nil => cases closed
    | cons token rest =>
      rw [unclosed] at closed
      split at closed
      · rename_i bracket opens
        obtain ⟨inner, closing, later, rfl, bracketed, closes, left⟩ := ih rest.length (by simp) closed rfl
        obtain ⟨front, last, behind, rfl, others, closes', left⟩ := ih later.length (by simp; omega) left rfl
        exact ⟨token :: (inner ++ closing :: front), last, behind, by simp, .group opens bracketed closes others, closes', left⟩
      · rename_i bracket closes
        dsimp only at closed
        split at closed
        · subst first
          exact ⟨[], token, rest, rfl, .nil, closes, closed⟩
        · cases closed
      · rename_i noOpener noCloser
        obtain ⟨inner, closing, later, rfl, bracketed, closes, left⟩ := ih rest.length (by simp) closed rfl
        exact ⟨token :: inner, closing, later, rfl, .plain ⟨noOpener, noCloser⟩ bracketed, closes, left⟩

theorem wellBracketed_iff : WellBracketed tokens ↔ unclosed [] tokens = some [] := by
  refine ⟨fun bracketed => bracketed.unclosed [], fun closed => ?_⟩
  induction bound : tokens.length using Nat.strongRecOn generalizing tokens with
  | ind size ih =>
    subst bound
    cases tokens with
    | nil => exact .nil
    | cons token rest =>
      rw [unclosed] at closed
      split at closed
      · rename_i bracket opens
        obtain ⟨inner, closing, later, rfl, bracketed, closes, left⟩ := unclosed_split closed
        exact .group opens bracketed closes (ih later.length (by simp; omega) left rfl)
      · cases closed
      · rename_i noOpener noCloser
        exact .plain ⟨noOpener, noCloser⟩ (ih rest.length (by simp) closed rfl)

instance wellBracketed_decidable (tokens : List Token) : Decidable (WellBracketed tokens) :=
  decidable_of_iff _ wellBracketed_iff.symm

/-- What is astray does not match the brace in front of it. -/
theorem Straying.cases (straying : Straying tokens) :
    WellBracketed tokens ∨ ∀ outer, BracketBalance.unclosed (.brace :: outer) tokens = none := by
  induction straying with
  | nil => exact .inl .nil
  | plain single _ ih => exact ih.imp (.plain single) fun astray outer => by rw [unclosed_plain single, astray]
  | group opens inner closes _ ih =>
    exact ih.imp (.group opens inner closes) fun astray outer => by rw [unclosed_group opens inner.unclosed closes, astray]
  | stray closes other _ _ =>
    refine .inr fun outer => ?_
    rw [BracketBalance.unclosed, closes]
    exact if_neg other

theorem isPlain_name (named : token.kind = .ident ∨ token.kind = .underscore) : IsPlain token.kind := by
  rcases named with kind | kind <;> simp [IsPlain, kind]

theorem SelfType.cases {self : List Token} (header : SelfType self) :
    WellBracketed self ∨ ∀ outer, unclosed (.brace :: outer) self = none := by
  cases header with
  | bare named points => exact .inl (.plain (isPlain_name named) (.plain (by simp [IsPlain, points]) .nil))
  | typed named colon ascription points =>
    have single : IsPlain TokenKind.colon := ⟨by simp, by simp⟩
    refine ascription.cases.imp (fun bracketed => ?_) fun astray outer => ?_
    · exact .plain (isPlain_name named) (.plain (colon ▸ single) (bracketed.append (.plain (by simp [IsPlain, points]) .nil)))
    · rw [unclosed_plain (isPlain_name named), unclosed_plain (colon ▸ single), unclosed_append, astray, Option.bind_none]

theorem SelfTypesClosed.part (closed : SelfTypesClosed tokens) (front back : List Token) (shape : tokens = front ++ (stretch ++ back)) :
    SelfTypesClosed stretch := by
  rintro before brace self behind rfl opens header
  exact closed (front ++ before) brace self (behind ++ back) (by simp [shape]) opens header

theorem WellBracketed.selfTypesClosed (bracketed : WellBracketed tokens) : SelfTypesClosed tokens := by
  rintro front brace self back rfl opens header
  refine header.cases.resolve_right fun astray => ?_
  have closed := bracketed.unclosed []
  rw [unclosed_append] at closed
  obtain ⟨left, -, closed⟩ := Option.bind_eq_some_iff.mp closed
  rw [unclosed_opener opens, unclosed_append, astray] at closed
  cases closed

theorem Matched.wellBracketed (matched : Matched tokens) (closed : SelfTypesClosed tokens) : WellBracketed tokens := by
  induction matched with
  | nil => exact .nil
  | @plain _ token single _ ih => exact .plain single (ih (closed.part [token] [] (by simp)))
  | @group inside behind opening closing _ opens _ closes _ inner ih =>
    have within := inner (closed.part [opening] (closing :: behind) (by simp))
    exact .group opens within closes (ih (closed.part (opening :: (inside ++ [closing])) [] (by simp)))
  | @body self inside behind opening closing opens header _ closes _ inner ih =>
    have bracketed := closed [] opening self _ rfl opens header
    have within := inner (closed.part (opening :: self) (closing :: behind) (by simp))
    have later := ih (closed.part (opening :: (self ++ (inside ++ [closing]))) [] (by simp))
    rw [← List.append_assoc]
    exact .group opens (bracketed.append within) closes later

/-- A source whose brackets match but for its self types is well bracketed when they are. -/
theorem Matched.wellBracketed_iff (matched : Matched tokens) : WellBracketed tokens ↔ SelfTypesClosed tokens :=
  ⟨WellBracketed.selfTypesClosed, matched.wellBracketed⟩

/-! ### Groups and self types that are looked for -/

/-- The index of the token that closes the brackets around a group, behind it. -/
def closeOuter (outer : List Bracket) (rest : List Token) : Option Nat :=
  match outer with
  | [] => some 0
  | next :: others => (Token.closeAll next others rest).map (· + 1)

/-- What comes in front of the closing bracket that is looked for is well bracketed. -/
theorem closeAll_split (closed : Token.closeAll first outer tokens = some index) :
    ∃ inner closing later left, tokens = inner ++ closing :: later ∧ WellBracketed inner ∧ closing.kind = .closer first ∧
      closeOuter outer later = some left ∧ index = inner.length + left := by
  induction bound : tokens.length using Nat.strongRecOn generalizing tokens first outer index with
  | ind size ih =>
    subst bound
    cases tokens with
    | nil => cases closed
    | cons token rest =>
      rw [Token.closeAll.eq_def] at closed
      dsimp only at closed
      split at closed
      · rename_i bracket opens
        obtain ⟨within, ends, rfl⟩ := Option.map_eq_some_iff.mp closed
        obtain ⟨inner, closing, later, left, rfl, bracketed, closes, around, rfl⟩ := ih rest.length (by simp) ends rfl
        obtain ⟨left, deeper, rfl⟩ := Option.map_eq_some_iff.mp around
        obtain ⟨front, last, behind, left, rfl, others, closes', outside, rfl⟩ := ih later.length (by simp; omega) deeper rfl
        refine ⟨token :: (inner ++ closing :: front), last, behind, left, by simp, .group opens bracketed closes others,
          closes', outside, ?_⟩
        simp only [List.length_cons, List.length_append]
        omega
      · rename_i bracket closes
        split at closed
        · subst first
          exact ⟨[], token, rest, index, rfl, .nil, closes, closed, by simp⟩
        · cases closed
      · rename_i noOpener noCloser
        obtain ⟨within, ends, rfl⟩ := Option.map_eq_some_iff.mp closed
        obtain ⟨inner, closing, later, left, rfl, bracketed, closes, around, rfl⟩ := ih rest.length (by simp) ends rfl
        refine ⟨token :: inner, closing, later, left, rfl, .plain ⟨noOpener, noCloser⟩ bracketed, closes, around, ?_⟩
        rw [List.length_cons]
        omega

/-- The bracket behind well bracketed tokens closes them. -/
theorem closeAll_inner (bracketed : WellBracketed inside) (first : Bracket) (outer : List Bracket) (rest : List Token) :
    Token.closeAll first outer (inside ++ rest) = (Token.closeAll first outer rest).map (· + inside.length) := by
  induction bracketed generalizing first outer rest with
  | nil => simp
  | plain single _ ih =>
    rw [List.cons_append, closeAll_plain single, ih, Option.map_map]
    rfl
  | @group within behind opening closing bracket opens _ closes _ inner ih =>
    have ends : ∀ rest, Token.groupEnd? (opening :: (within ++ closing :: rest)) = some (within.length + 1) := by
      intro rest
      rw [Token.groupEnd?, opens]
      dsimp only
      rw [inner, Token.closeAll, closes]
      simp
    have whole : opening :: (within ++ closing :: behind) ++ rest = opening :: (within ++ closing :: (behind ++ rest)) := by simp
    have left : (opening :: (within ++ closing :: (behind ++ rest))).drop (within.length + 1 + 1) = behind ++ rest := by simp
    rw [whole, closeAll_group (ends _), left, ih, Option.map_map]
    congr 1
    funext index
    simp only [Function.comp_apply, List.length_cons, List.length_append]
    omega

/-- A group is well bracketed from its opening bracket to its closing one. -/
theorem splitGroup?_split (split : Token.splitGroup? tokens = some (closing, rest)) :
    ∃ opening inner bracket, tokens = opening :: (inner ++ closing :: rest) ∧ opening.kind = .opener bracket ∧
      closing.kind = .closer bracket ∧ WellBracketed inner := by
  simp only [Token.splitGroup?, Option.bind_eq_bind, Option.bind_eq_some_iff, Option.pure_def,
    Option.some.injEq, Prod.mk.injEq] at split
  obtain ⟨index, ends, _, found, rfl, rfl⟩ := split
  cases tokens with
  | nil => cases ends
  | cons opening tokens =>
    rw [Token.groupEnd?] at ends
    split at ends
    · rename_i bracket opens
      obtain ⟨within, closed, rfl⟩ := Option.map_eq_some_iff.mp ends
      obtain ⟨inner, closing, later, left, rfl, bracketed, closes, around, rfl⟩ := closeAll_split closed
      cases around
      obtain rfl := Option.some.inj ((by simp : (opening :: (inner ++ closing :: later))[inner.length + 1]? = some closing).symm.trans found)
      exact ⟨opening, inner, bracket, by simp, opens, closes, bracketed⟩
    · cases ends

theorem selfTypeArrow?_split (found : selfTypeArrow? tokens = some (arrow, rest)) :
    ∃ front, tokens = front ++ arrow :: rest ∧ Straying front ∧ arrow.kind = .arrow := by
  fun_induction selfTypeArrow? tokens with
  | case1 => cases found
  | case2 token later points =>
    cases found
    exact ⟨[], rfl, .nil, points⟩
  | case3 => cases found
  | case4 => cases found
  | case5 => cases found
  | case6 => cases found
  | case7 token later word kind _ ih =>
    obtain ⟨front, rfl, straying, points⟩ := ih found
    exact ⟨token :: front, rfl, .plain (by simp [IsPlain, kind]) straying, points⟩
  | case8 token later bracket _ closing after split ih =>
    obtain ⟨front, rfl, straying, points⟩ := ih found
    obtain ⟨opening, inner, bracket, whole, opens, closes, bracketed⟩ := splitGroup?_split split
    exact ⟨opening :: (inner ++ closing :: front), by simp [whole], .group opens bracketed closes straying, points⟩
  | case9 => cases found
  | case10 token later _ _ noBrace _ _ noOpener ih =>
    obtain ⟨front, rfl, straying, points⟩ := ih found
    refine ⟨token :: front, rfl, ?_, points⟩
    by_cases closes : ∃ bracket, token.kind = .closer bracket
    · obtain ⟨bracket, closes⟩ := closes
      refine .stray closes ?_ straying
      rintro rfl
      exact noBrace closes
    · exact .plain ⟨noOpener, fun bracket kind => closes ⟨bracket, kind⟩⟩ straying

/-- What is read over in front of a body is a self type. -/
theorem selfType?_split (found : selfType? tokens = some (arrow, rest)) : ∃ self, tokens = self ++ rest ∧ SelfType self := by
  unfold selfType? at found
  split at found
  · rename_i first second later
    split at found
    · rename_i named
      replace named : first.kind = .ident ∨ first.kind = .underscore := by simpa using named
      split at found
      · rename_i points
        obtain ⟨rfl, rfl⟩ := Prod.mk.inj (Option.some.inj found)
        exact ⟨[first, _], rfl, .bare named points⟩
      · rename_i colon
        obtain ⟨front, rfl, straying, points⟩ := selfTypeArrow?_split found
        exact ⟨first :: second :: (front ++ [arrow]), by simp, .typed named colon straying points⟩
      · cases found
    · cases found
  · cases found

end KindLift.BracketBalance
