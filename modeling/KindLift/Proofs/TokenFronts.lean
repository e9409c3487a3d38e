import KindLift.Proofs.GroupEnds

/-! What is found behind the tokens in front of a place depends on their kinds alone, as long
as it ends in front of that place: the end of a group, the arrow of a self type. Where the
brackets of these tokens match, it does not depend on what comes behind either if it is not
found. -/
namespace KindLift.TokenFronts
open KindLift.Parser CursorAdvance QualifiedTokens BracketBalance GroupEnds

variable {front front' back back' tokens tokens' rest self : List Token} {token closing arrow : Token}

/-! ### Groups -/

theorem unclosed_kinds (kinds : tokens'.map Token.kind = tokens.map Token.kind) (opened : List Bracket) :
    unclosed opened tokens' = unclosed opened tokens := by
  induction tokens generalizing tokens' opened with
  | nil =>
    obtain rfl := List.map_eq_nil_iff.mp kinds
    rfl
  | cons token tokens ih =>
    obtain ⟨token', tokens', rfl, kind, later⟩ := List.map_eq_cons_iff.mp kinds
    have same := ih later
    simp only [unclosed, kind, same]

theorem wellBracketed_kinds (kinds : tokens'.map Token.kind = tokens.map Token.kind) (bracketed : WellBracketed tokens) :
    WellBracketed tokens' := by
  rw [wellBracketed_iff, unclosed_kinds kinds]
  exact wellBracketed_iff.mp bracketed

theorem group_kinds (kinds : tokens'.map Token.kind = tokens.map Token.kind) (group : Group tokens) : Group tokens' := by
  obtain @⟨opening, closing, bracket, inside, opens, inner, closes⟩ := group
  obtain ⟨opening', more, rfl, kind, later⟩ := List.map_eq_cons_iff.mp kinds
  rw [List.map_append] at later
  obtain ⟨inside', last, rfl, inner', ends⟩ := List.map_eq_append_iff.mp later
  obtain ⟨closing', rfl, kind'⟩ := List.map_eq_singleton_iff.mp ends
  exact .enclose (kind.trans opens) (wellBracketed_kinds inner' inner) (kind'.trans closes)

/-- A group that closes in front of the place closes there whatever is behind it. -/
theorem splitGroup?_front (kinds : front'.map Token.kind = front.map Token.kind)
    (split : Token.splitGroup? (front ++ back) = some (closing, rest)) (inside : back.length ≤ rest.length) :
    ∃ index closing', front[index]? = some closing ∧ front'[index]? = some closing' ∧ rest = front.drop (index + 1) ++ back ∧
      Token.splitGroup? (front' ++ back') = some (closing', front'.drop (index + 1) ++ back') := by
  simp only [Token.splitGroup?, Option.bind_eq_bind, Option.bind_eq_some_iff, Option.pure_def,
    Option.some.injEq, Prod.mk.injEq] at split ⊢
  obtain ⟨index, ends, _, found, rfl, rfl⟩ := split
  obtain ⟨bounded, -⟩ := List.getElem?_eq_some_iff.mp found
  rw [List.length_append] at bounded
  rw [List.length_drop, List.length_append] at inside
  have bound : index < front.length := by omega
  have bound' : index < front'.length := by
    have same := congrArg List.length kinds
    rw [List.length_map, List.length_map] at same
    rwa [same]
  rw [List.getElem?_append_left bound] at found
  refine ⟨index, front'[index], found, List.getElem?_eq_getElem bound', List.drop_append_of_le_length bound, index, ?_, _, ?_, rfl, ?_⟩
  · obtain ⟨group, later, shape, isGroup, length⟩ := groupEnd?_eq_some_iff.mp ends
    obtain ⟨more, rfl, -⟩ : ∃ more, front = group ++ more ∧ later = more ++ back := by
      rcases List.append_eq_append_iff.mp shape with ⟨more, first, second⟩ | ⟨more, first, second⟩
      · rw [first, List.length_append] at length
        obtain rfl := List.length_eq_zero_iff.mp (show more.length = 0 by omega)
        exact ⟨[], by simpa using first.symm, by simpa using second.symm⟩
      · exact ⟨more, first, second⟩
    rw [List.map_append] at kinds
    obtain ⟨group', more', rfl, same, -⟩ := List.map_eq_append_iff.mp kinds
    have same' := congrArg List.length same
    rw [List.length_map, List.length_map] at same'
    exact groupEnd?_eq_some_iff.mpr ⟨group', more' ++ back', List.append_assoc _ _ _, group_kinds same isGroup, same'.trans length⟩
  · rw [List.getElem?_append_left bound', List.getElem?_eq_getElem bound']
  · rw [List.drop_append_of_le_length bound']

/-! ### Self types that are there -/

theorem selfTypeArrow?_front (kinds : front'.map Token.kind = front.map Token.kind)
    (found : selfTypeArrow? (front ++ back) = some (arrow, rest)) (inside : back.length ≤ rest.length) :
    ∃ index arrow', rest = front.drop index ++ back ∧ selfTypeArrow? (front' ++ back') = some (arrow', front'.drop index ++ back') := by
  induction length : front.length using Nat.strongRecOn generalizing front front' with
  | _ count ih =>
    cases front with
    | nil =>
      obtain ⟨before, shape⟩ := selfTypeArrow?_shape found
      rw [List.nil_append] at shape
      rw [shape, List.length_append, List.length_cons] at inside
      omega
    | cons token front =>
      obtain ⟨token', more, rfl, kind, later⟩ := List.map_eq_cons_iff.mp kinds
      have onward : selfTypeArrow? (front ++ back) = some (arrow, rest) → ∃ index arrow',
          rest = (token :: front).drop index ++ back ∧
            selfTypeArrow? (more ++ back') = some (arrow', (token' :: more).drop index ++ back') := by
        intro found
        obtain ⟨index, arrow', ends, found'⟩ := ih front.length (by rw [← length]; exact Nat.lt_succ_self _) later found rfl
        exact ⟨index + 1, arrow', ends, found'⟩
      have group := fun closing after => @splitGroup?_front (token :: front) (token' :: more) back back' after closing kinds
      rw [List.cons_append] at found group ⊢
      rw [List.cons_append] at group
      rw [selfTypeArrow?] at found
      rw [selfTypeArrow?, kind]
      split at found
      · obtain ⟨rfl, rfl⟩ := Prod.mk.inj (Option.some.inj found)
        exact ⟨1, token', rfl, rfl⟩
      · cases found
      · cases found
      · cases found
      · split at found
        · cases found
        · rename_i starts
          rw [if_neg starts]
          exact onward found
      · split at found
        · rename_i closing after split
          obtain ⟨before, shape⟩ := selfTypeArrow?_shape found
          have longer : back.length ≤ after.length := by
            rw [shape, List.length_append, List.length_cons]
            omega
          obtain ⟨index, closing', here, -, rfl, split'⟩ := group closing after split longer
          obtain ⟨bound, -⟩ := List.getElem?_eq_some_iff.mp here
          have dropped : ((token' :: more).drop (index + 1)).map Token.kind = ((token :: front).drop (index + 1)).map Token.kind := by
            rw [List.map_drop, List.map_drop, kinds]
          obtain ⟨index', arrow', rfl, found'⟩ := ih _ (by rw [← length, List.length_drop]; omega) dropped found rfl
          refine ⟨index + 1 + index', arrow', by rw [List.drop_drop], ?_⟩
          split
          · rename_i same
            obtain ⟨-, rfl⟩ := Prod.mk.inj (Option.some.inj (same.symm.trans split'))
            rw [List.drop_drop] at found'
            exact found'
          · rename_i same
            rw [split'] at same
            cases same
        · cases found
      · exact onward found

/-- A self type that ends in front of the place is there whatever is behind it. -/
theorem selfType?_front (kinds : front'.map Token.kind = front.map Token.kind)
    (found : selfType? (front ++ back) = some (arrow, rest)) (inside : back.length ≤ rest.length) :
    ∃ index arrow', rest = front.drop index ++ back ∧ selfType? (front' ++ back') = some (arrow', front'.drop index ++ back') := by
  obtain ⟨before, shape⟩ := selfType?_shape found
  cases front with
  | nil =>
    rw [List.nil_append] at shape
    rw [shape, List.length_append, List.length_cons] at inside
    omega
  | cons first front =>
    obtain ⟨first', more, rfl, kind, later⟩ := List.map_eq_cons_iff.mp kinds
    cases front with
    | nil =>
      -- The second token of a self type would be behind the place.
      rw [List.singleton_append] at found
      cases back with
      | nil => cases found
      | cons second back =>
        rw [selfType?] at found
        split at found
        · split at found
          · cases found
            exact absurd inside (Nat.not_succ_le_self _)
          · obtain ⟨before, rfl⟩ := selfTypeArrow?_shape found
            simp only [List.length_cons, List.length_append] at inside
            omega
          · cases found
        · cases found
    | cons second front =>
      obtain ⟨second', more, rfl, kind', later⟩ := List.map_eq_cons_iff.mp later
      simp only [List.cons_append, selfType?, kind, kind'] at found ⊢
      split at found
      · rename_i named
        rw [if_pos named]
        split at found
        · obtain ⟨rfl, rfl⟩ := Prod.mk.inj (Option.some.inj found)
          exact ⟨2, second', rfl, rfl⟩
        · obtain ⟨index, arrow', ends, found'⟩ := selfTypeArrow?_front later found inside
          exact ⟨index + 2, arrow', ends, found'⟩
        · cases found
      · cases found

/-! ### Self types that are not there -/

/-- The kinds decide whether there is an arrow. -/
theorem selfTypeArrow?_absent (kinds : tokens'.map Token.kind = tokens.map Token.kind) (absent : selfTypeArrow? tokens = none) :
    selfTypeArrow? tokens' = none := by
  cases found : selfTypeArrow? tokens' with
  | none => rfl
  | some pair =>
    obtain ⟨index, arrow', -, found'⟩ := @selfTypeArrow?_front _ _ [] [] _ _ kinds.symm
      ((congrArg _ (List.append_nil _)).trans found) (Nat.zero_le _)
    rw [List.append_nil, absent] at found'
    cases found'

/-- What is astray does not close the brace in front of it. -/
theorem straying_closes (straying : Straying tokens) :
    WellBracketed tokens ∨ ∀ outer rest, Token.closeAll .brace outer (tokens ++ rest) = none := by
  induction straying with
  | nil => exact .inl .nil
  | plain single _ ih =>
    exact ih.imp (.plain single) fun stuck outer rest => by rw [List.cons_append, closeAll_plain single, stuck]; rfl
  | @group inside behind opening closing bracket opens inner closes _ ih =>
    refine ih.imp (.group opens inner closes) fun stuck outer rest => ?_
    have enclosed : WellBracketed (opening :: (inside ++ [closing])) := .group opens inner closes .nil
    have whole : opening :: (inside ++ closing :: behind) ++ rest = opening :: (inside ++ [closing]) ++ (behind ++ rest) := by simp
    rw [whole, closeAll_inner enclosed, stuck]
    rfl
  | stray closes other _ _ =>
    refine .inr fun outer rest => ?_
    rw [List.cons_append, Token.closeAll.eq_def]
    dsimp only
    rw [closes]
    exact if_neg other

theorem selfType_closes (header : SelfType self) :
    WellBracketed self ∨ ∀ outer rest, Token.closeAll .brace outer (self ++ rest) = none := by
  cases header with
  | bare named points => exact .inl (.plain (isPlain_name named) (.plain (by simp [IsPlain, points]) .nil))
  | typed named colon ascription points =>
    have single : IsPlain TokenKind.colon := ⟨by simp, by simp⟩
    refine (straying_closes ascription).imp (fun bracketed => ?_) fun stuck outer rest => ?_
    · exact .plain (isPlain_name named) (.plain (colon ▸ single) (bracketed.append (.plain (by simp [IsPlain, points]) .nil)))
    · rw [List.cons_append, List.cons_append, closeAll_plain (isPlain_name named), closeAll_plain (colon ▸ single),
        List.append_assoc, stuck]
      rfl

theorem group_closes {opening : Token} {inside behind : List Token} {bracket : Bracket} (opens : opening.kind = .opener bracket)
    (inner : WellBracketed inside ∨ ∀ outer rest, Token.closeAll bracket outer (inside ++ rest) = none)
    (closes : closing.kind = .closer bracket)
    (later : WellBracketed behind ∨ ∀ first outer rest, Token.closeAll first outer (behind ++ rest) = none) :
    WellBracketed (opening :: (inside ++ closing :: behind)) ∨
      ∀ first outer rest, Token.closeAll first outer (opening :: (inside ++ closing :: behind) ++ rest) = none := by
  rcases inner with bracketed | stuck
  · refine later.imp (.group opens bracketed closes) fun stuck first outer rest => ?_
    have enclosed : WellBracketed (opening :: (inside ++ [closing])) := .group opens bracketed closes .nil
    have whole : opening :: (inside ++ closing :: behind) ++ rest = opening :: (inside ++ [closing]) ++ (behind ++ rest) := by simp
    rw [whole, closeAll_inner enclosed, stuck]
    rfl
  · refine .inr fun first outer rest => ?_
    rw [List.cons_append, List.append_assoc, Token.closeAll.eq_def]
    dsimp only
    rw [opens]
    dsimp only
    rw [stuck]
    rfl

theorem header_closes {inside : List Token} (header : SelfType self)
    (inner : WellBracketed inside ∨ ∀ first outer rest, Token.closeAll first outer (inside ++ rest) = none) :
    WellBracketed (self ++ inside) ∨ ∀ outer rest, Token.closeAll .brace outer (self ++ inside ++ rest) = none := by
  rcases selfType_closes header with bracketed | stuck
  · refine inner.imp bracketed.append fun stuck outer rest => ?_
    rw [List.append_assoc, closeAll_inner bracketed, stuck]
    rfl
  · exact .inr fun outer rest => by rw [List.append_assoc, stuck]

/-- Matched tokens are passed over in a search for a closing bracket, or end it. -/
theorem matched_closes (matched : Matched tokens) :
    WellBracketed tokens ∨ ∀ first outer rest, Token.closeAll first outer (tokens ++ rest) = none := by
  induction matched with
  | nil => exact .inl .nil
  | plain single _ ih =>
    exact ih.imp (.plain single) fun stuck first outer rest => by rw [List.cons_append, closeAll_plain single, stuck]; rfl
  | group opens _ closes _ inner ih => exact group_closes opens (inner.imp_right fun stuck => stuck _) closes ih
  | body opens header _ closes _ inner ih =>
    rw [← List.append_assoc]
    exact group_closes opens (header_closes header inner) closes ih

/-- A self type does not go on behind the end of a body, or where a statement begins. -/
def Halts (tokens : List Token) : Prop :=
  ∃ token rest, tokens = token :: rest ∧ (token.kind = .closer .brace ∨ ∃ word, token.kind = .keyword word ∧ word.startsStatement = true)

theorem selfTypeArrow?_halts (halts : Halts tokens) : selfTypeArrow? tokens = none := by
  obtain ⟨token, rest, rfl, kind | ⟨word, kind, starts⟩⟩ := halts
  · rw [selfTypeArrow?, kind]
  · rw [selfTypeArrow?, kind]
    exact if_pos starts

theorem selfTypeArrow?_opener {opening : Token} {bracket : Bracket} (opens : opening.kind = .opener bracket) (rest : List Token) :
    selfTypeArrow? (opening :: rest) = (Token.splitGroup? (opening :: rest)).bind fun split => selfTypeArrow? split.2 := by
  rw [selfTypeArrow?, opens]
  dsimp only
  split <;> rename_i split <;> rw [split] <;> rfl

/-- An arrow is looked for behind a group, or nowhere if the group does not end. -/
theorem selfTypeArrow?_group {opening : Token} {inside behind : List Token} {bracket : Bracket} (opens : opening.kind = .opener bracket)
    (inner : WellBracketed inside ∨ ∀ outer rest, Token.closeAll bracket outer (inside ++ rest) = none)
    (closes : closing.kind = .closer bracket) :
    (∀ rest, selfTypeArrow? (opening :: (inside ++ closing :: behind) ++ rest) = selfTypeArrow? (behind ++ rest)) ∨
      ∀ rest, selfTypeArrow? (opening :: (inside ++ closing :: behind) ++ rest) = none := by
  refine inner.imp (fun bracketed rest => ?_) fun stuck rest => ?_
  · have group : Group (opening :: (inside ++ [closing])) := .enclose opens bracketed closes
    have ends : Token.groupEnd? (opening :: (inside ++ closing :: behind) ++ rest) = some (inside.length + 1) :=
      groupEnd?_eq_some_iff.mpr ⟨_, behind ++ rest, by simp, group, by simp⟩
    rw [List.cons_append] at ends ⊢
    rw [selfTypeArrow?_opener opens, Token.splitGroup?, ends]
    simp
  · rw [List.cons_append, selfTypeArrow?_opener opens, Token.splitGroup?, Token.groupEnd?, opens, List.append_assoc]
    dsimp only
    rw [stuck]
    rfl

/-- An arrow that is not found among matched tokens is not found whatever halts behind them. -/
theorem selfTypeArrow?_behind (matched : Matched front) (absent : selfTypeArrow? (front ++ back) = none) (halts : Halts back') :
    selfTypeArrow? (front ++ back') = none := by
  induction matched with
  | nil => exact selfTypeArrow?_halts halts
  | plain single _ ih =>
    rw [List.cons_append, selfTypeArrow?] at absent ⊢
    split at absent
    · cases absent
    · rfl
    · exact absurd ‹_› (single.2 _)
    · rfl
    · split
      · rfl
      · rename_i starts
        rw [if_neg starts] at absent
        exact ih absent
    · exact absurd ‹_› (single.1 _)
    · exact ih absent
  | group opens matched closes _ _ ih =>
    rcases selfTypeArrow?_group opens ((matched_closes matched).imp_right fun stuck => stuck _) closes with passes | stuck
    · rw [passes] at absent ⊢
      exact ih absent
    · exact stuck _
  | body opens header matched closes _ _ ih =>
    rw [← List.append_assoc] at absent ⊢
    rcases selfTypeArrow?_group opens (header_closes header (matched_closes matched)) closes with passes | stuck
    · rw [passes] at absent ⊢
      exact ih absent
    · exact stuck _

theorem matched_tail (single : IsPlain token.kind) (matched : Matched (token :: rest)) : Matched rest := by
  cases matched with
  | plain _ rest => exact rest
  | group opens => exact absurd opens (single.1 _)
  | body opens => exact absurd opens (single.1 _)

/-- A self type that is not found among matched tokens is not found whatever halts behind them. -/
theorem selfType?_absent (kinds : front'.map Token.kind = front.map Token.kind) (matched : Matched front)
    (absent : selfType? (front ++ back) = none) (halts : Halts back') : selfType? (front' ++ back') = none := by
  cases front with
  | nil =>
    obtain rfl := List.map_eq_nil_iff.mp kinds
    obtain ⟨token, rest, rfl, halts⟩ := halts
    cases rest with
    | nil => rfl
    | cons second rest =>
      rw [List.nil_append, selfType?]
      refine if_neg ?_
      rcases halts with kind | ⟨word, kind, -⟩ <;> simp [kind]
  | cons first front =>
    obtain ⟨first', more, rfl, kind, later⟩ := List.map_eq_cons_iff.mp kinds
    cases front with
    | nil =>
      obtain rfl := List.map_eq_nil_iff.mp later
      obtain ⟨token, rest, rfl, halts⟩ := halts
      rw [List.singleton_append, selfType?]
      rcases halts with kind | ⟨word, kind, -⟩ <;> rw [kind] <;> exact ite_self _
    | cons second front =>
      obtain ⟨second', more, rfl, kind', later⟩ := List.map_eq_cons_iff.mp later
      simp only [List.cons_append, selfType?, kind, kind'] at absent ⊢
      split
      · rename_i named
        rw [if_pos named] at absent
        split at absent
        · cases absent
        · rename_i colon
          have plain : IsPlain first.kind := isPlain_name (by simpa using named)
          have plain' : IsPlain second.kind := by simp [IsPlain, colon]
          have behind := selfTypeArrow?_behind (matched_tail plain' (matched_tail plain matched)) absent halts
          exact selfTypeArrow?_absent (by rw [List.map_append, List.map_append, later]) behind
        · rfl
      · rfl

end KindLift.TokenFronts
