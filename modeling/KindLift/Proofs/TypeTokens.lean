import KindLift.Proofs.BalancedParsers
import KindLift.Proofs.CoveredSpans
import KindLift.Proofs.ParserSimulation
import KindLift.Proofs.TraitSpans

/-! The tokens of types and of type parameters. A type is read over up to a mark that ends
it, and groups in it are read over as a whole. Tokens of the same kinds and texts are read
the same way wherever they stand. -/
namespace KindLift.TypeTokens
open KindLift.Parser ParserLogic CursorAdvance CursorPlacement QualifiedTokens BracketBalance CoveredSpans TokenReaders
open ParserSimulation (iterateFrom_again iterateFrom_done)
open TraitSpans (ensures_and)

/-- Tokens and groups, none of which begins with a token that stops the reading. -/
inductive Items (stops : TokenKind → Bool) : List Token → Prop where
  | nil : Items stops []
  | plain (single : IsPlain token.kind) (goes : stops token.kind = false) (rest : Items stops tokens) : Items stops (token :: tokens)
  | group (opens : opening.kind = .opener bracket) (goes : stops opening.kind = false) (inner : WellBracketed inside)
      (closes : closing.kind = .closer bracket) (rest : Items stops behind) : Items stops (opening :: (inside ++ closing :: behind))

/-- The mark in front of a type parameter that varies, or nothing. -/
inductive IsVariance : List Token → Prop where
  | none : IsVariance []
  | mark (symbol : token.kind = .operator) (sign : token.text = "+" ∨ token.text = "-") : IsVariance [token]

/-- Where the bounds of a type parameter end. -/
def endsBounds (kind : TokenKind) : Bool := kind = .comma || kind = .closer .square

/-- A type parameter of the name: with parameters of its own, it is higher kinded. -/
inductive IsTypeParam (name : String) : ParamKind → List Token → Prop where
  | proper (variance : IsVariance mark) (named : word.kind = .ident ∨ word.kind = .underscore) (text : word.text = name)
      (bounds : Items endsBounds tokens) (bare : ∀ token ∈ tokens.head?, token.kind ≠ .opener .square) :
      IsTypeParam name .proper (mark ++ word :: tokens)
  | applied (variance : IsVariance mark) (named : word.kind = .ident ∨ word.kind = .underscore) (text : word.text = name)
      (opens : opening.kind = .opener .square) (inner : WellBracketed inside) (closes : closing.kind = .closer .square)
      (bounds : Items endsBounds tokens) :
      IsTypeParam name .higherKinded (mark ++ word :: opening :: (inside ++ closing :: tokens))

/-- Type parameters of these names and kinds, with commas between them. -/
inductive AreTypeParams : List (String × ParamKind) → List Token → Prop where
  | last (param : IsTypeParam name kind tokens) : AreTypeParams [(name, kind)] tokens
  | more (param : IsTypeParam name kind tokens) (separates : comma.kind = .comma) (others : AreTypeParams entries rest) :
      AreTypeParams ((name, kind) :: entries) (tokens ++ comma :: rest)

/-- The token of the kind is read, or nothing is. -/
inductive Eaten (source : List Char) (kind : TokenKind) (left next : Cursor) : Bool → Prop where
  | read (shape : left.rest = token :: next.rest) (same : token.kind = kind) (sound : Sound source next) : Eaten source kind left next true
  | absent (still : next = left) : Eaten source kind left next false

variable {source : List Char} {stops : TokenKind → Bool} {tokens others inside behind front back rest : List Token}
  {token opening closing word comma : Token} {bracket : Bracket} {left next : Cursor} {name : String} {kind : ParamKind}
  {entries : List (String × ParamKind)}

/-! ### Spelling -/

/-- What a parser tells a token by. -/
def sign (token : Token) : TokenKind × String := (token.kind, token.text)

/-- Tokens of the same kinds and texts. -/
def SameSigns (tokens others : List Token) : Prop := others.map sign = tokens.map sign

theorem sameSigns_cons (same : SameSigns (token :: tokens) others) :
    ∃ first later, others = first :: later ∧ first.kind = token.kind ∧ first.text = token.text ∧ SameSigns tokens later := by
  obtain ⟨first, later, rfl, head, tail⟩ := List.map_eq_cons_iff.mp same
  obtain ⟨kind, text⟩ := Prod.mk.inj head
  exact ⟨first, later, rfl, kind, text, tail⟩

theorem sameSigns_append (same : SameSigns (front ++ back) others) :
    ∃ first second, others = first ++ second ∧ SameSigns front first ∧ SameSigns back second := by
  rw [SameSigns, List.map_append] at same
  obtain ⟨first, second, rfl, head, tail⟩ := List.map_eq_append_iff.mp same
  exact ⟨first, second, rfl, head, tail⟩

theorem SameSigns.head (same : SameSigns tokens others) : others.head?.map sign = tokens.head?.map sign := by
  rw [← List.head?_map, same, List.head?_map]

theorem wellBracketed_same (bracketed : WellBracketed tokens) (same : SameSigns tokens others) : WellBracketed others := by
  induction bracketed generalizing others with
  | nil =>
    rw [List.map_eq_nil_iff.mp same]
    exact .nil
  | plain single _ ih =>
    obtain ⟨_, _, rfl, kind, -, same⟩ := sameSigns_cons same
    exact .plain (kind ▸ single) (ih same)
  | group opens _ closes _ inner ih =>
    obtain ⟨_, _, rfl, kind, -, same⟩ := sameSigns_cons same
    obtain ⟨_, _, rfl, within, same⟩ := sameSigns_append same
    obtain ⟨_, _, rfl, kind', -, same⟩ := sameSigns_cons same
    exact .group (kind ▸ opens) (inner within) (kind' ▸ closes) (ih same)

/-! ### Groups -/

theorem splitGroup?_run (opens : opening.kind = .opener bracket) (bracketed : WellBracketed inside)
    (closes : closing.kind = .closer bracket) (rest : List Token) :
    Token.splitGroup? (opening :: (inside ++ closing :: rest)) = some (closing, rest) := by
  have ends : Token.groupEnd? (opening :: (inside ++ closing :: rest)) = some (inside.length + 1) := by
    rw [Token.groupEnd?, opens]
    dsimp only
    rw [closeAll_inner bracketed, Token.closeAll, closes]
    simp
  simp [Token.splitGroup?, ends]

theorem skipGroup_run (opens : opening.kind = .opener bracket) (bracketed : WellBracketed inside)
    (closes : closing.kind = .closer bracket) (rest : List Token) (stop : Nat) :
    skipGroup source ⟨opening :: (inside ++ closing :: rest), stop⟩ =
      .ok (opening.span.cover closing.span, ⟨rest, closing.stop⟩) := by
  have tokens : (get : Parser Cursor) source ⟨opening :: (inside ++ closing :: rest), stop⟩ = .ok (⟨_, stop⟩, ⟨_, stop⟩) := rfl
  rw [skipGroup, bind_ok tokens]
  dsimp only
  rw [splitGroup?_run opens bracketed closes]
  rfl

theorem skipGroup_split : Ensures source left skipGroup fun span next => ∃ opening inside closing bracket,
    left.rest = opening :: (inside ++ closing :: next.rest) ∧ opening.kind = .opener bracket ∧ WellBracketed inside ∧
      closing.kind = .closer bracket ∧ span = opening.span.cover closing.span := by
  simp only [skipGroup, ensures_bind, ensures_get]
  split
  · exact ensures_fail
  · rename_i first later shape
    split
    · exact ensures_throw
    · rename_i closing rest split
      simp only [ensures_bind, ensures_set, ensures_pure]
      obtain ⟨opening, inside, bracket, whole, opens, closes, bracketed⟩ := splitGroup?_split split
      rw [shape] at whole
      obtain ⟨rfl, rfl⟩ := List.cons.inj whole
      exact ⟨_, inside, closing, bracket, shape, opens, bracketed, closes, rfl⟩

/-! ### What is read over -/

/-- The tokens begin with one that stops the reading or closes a bracket, if there are any. -/
def Ends (stops : TokenKind → Bool) (rest : List Token) : Prop :=
  ∀ token ∈ rest.head?, stops token.kind = true ∨ ∃ bracket, token.kind = .closer bracket

theorem Items.append (first : Items stops front) (second : Items stops back) : Items stops (front ++ back) := by
  induction first with
  | nil => exact second
  | plain single goes _ ih => exact .plain single goes ih
  | group opens goes inner closes _ ih =>
    rw [List.cons_append, List.append_assoc, List.cons_append]
    exact .group opens goes inner closes ih

theorem Items.same (items : Items stops tokens) (same : SameSigns tokens others) : Items stops others := by
  induction items generalizing others with
  | nil =>
    rw [List.map_eq_nil_iff.mp same]
    exact .nil
  | plain single goes _ ih =>
    obtain ⟨_, _, rfl, kind, -, same⟩ := sameSigns_cons same
    exact .plain (kind ▸ single) (kind ▸ goes) (ih same)
  | group opens goes inner closes _ ih =>
    obtain ⟨_, _, rfl, kind, -, same⟩ := sameSigns_cons same
    obtain ⟨_, _, rfl, within, same⟩ := sameSigns_append same
    obtain ⟨_, _, rfl, kind', -, same⟩ := sameSigns_cons same
    exact .group (kind ▸ opens) (kind ▸ goes) (wellBracketed_same inner within) (kind' ▸ closes) (ih same)

/-- Such tokens are read over up to where the reading stops. -/
theorem Items.run (items : Items stops tokens) (ends : Ends stops rest) (seen : Option Span) (stop : Nat) :
    ∃ found stop', iterateFrom (scanStep stops) seen source ⟨tokens ++ rest, stop⟩ = .ok (found, ⟨rest, stop'⟩) ∧
      (tokens ≠ [] ∨ seen.isSome = true → found.isSome = true) := by
  induction items generalizing seen stop with
  | nil =>
    refine ⟨seen, stop, iterateFrom_done ?_, fun some => some.resolve_left fun other => other rfl⟩
    cases rest with
    | nil => rfl
    | cons token rest =>
      show (if stops token.kind then pure (.done seen) else _ : Parser (Step (Option Span) (Option Span))) source _ = _
      split
      · rfl
      · rename_i goes
        obtain ⟨bracket, closes⟩ := (ends token rfl).resolve_left goes
        rw [closes]
        rfl
  | @plain tokens token single goes _ ih =>
    have step : ∃ later, scanStep stops seen source ⟨token :: tokens ++ rest, stop⟩ =
        .ok (.again (some later), ⟨tokens ++ rest, token.stop⟩) := by
      refine ⟨(seen.map fun before => before.cover token.span).getD token.span, ?_⟩
      show (if stops token.kind then _ else _ : Parser (Step (Option Span) (Option Span))) source _ = _
      rw [goes, if_neg Bool.false_ne_true]
      cases kind : token.kind with
      | opener bracket => exact absurd kind (single.1 bracket)
      | closer bracket => exact absurd kind (single.2 bracket)
      | _ => cases seen <;> rfl
    obtain ⟨later, step⟩ := step
    obtain ⟨found, stop', ran, some⟩ := ih (some later) token.stop
    exact ⟨found, stop', (iterateFrom_again step (Nat.lt_succ_self _)).trans ran, fun _ => some (.inr rfl)⟩
  | @group inside behind opening closing bracket opens goes inner closes _ ih =>
    have shape : opening :: (inside ++ closing :: behind) ++ rest = opening :: (inside ++ closing :: (behind ++ rest)) := by simp
    have step : ∃ later, scanStep stops seen source ⟨opening :: (inside ++ closing :: (behind ++ rest)), stop⟩ =
        .ok (.again (some later), ⟨behind ++ rest, closing.stop⟩) := by
      refine ⟨(seen.map fun before => before.cover (opening.span.cover closing.span)).getD (opening.span.cover closing.span), ?_⟩
      show (if stops opening.kind then _ else _ : Parser (Step (Option Span) (Option Span))) source _ = _
      rw [goes, if_neg Bool.false_ne_true, opens]
      refine (bind_ok (skipGroup_run opens inner closes (behind ++ rest) stop)).trans ?_
      cases seen <;> rfl
    obtain ⟨later, step⟩ := step
    obtain ⟨found, stop', ran, some⟩ := ih (some later) closing.stop
    rw [shape]
    refine ⟨found, stop', (iterateFrom_again step ?_).trans ran, fun _ => some (.inr rfl)⟩
    simp only [ParserProgress.Shorter, List.length_cons, List.length_append]
    omega

/-- Between the cursors lie tokens and groups, and the span that is there covers them. -/
structure Skims (source : List Char) (stops : TokenKind → Bool) (left next : Cursor) (seen : Option Span) : Prop where
  sound : Sound source next
  items : ∃ items, left.rest = items ++ next.rest ∧ Items stops items
  covers : seen = none ∧ next = left ∨ ∃ span, seen = some span ∧ Reads source (fun _ => True) left next span

/-- The span so far with what is read next. -/
def extended (seen : Option Span) (span : Span) : Option Span :=
  match seen with
  | some before => some (before.cover span)
  | none => some span

theorem Skims.more {seen : Option Span} {middle : Cursor} {span : Span} (skims : Skims source stops left middle seen)
    (reads : Reads source (fun _ => True) middle next span) (shape : middle.rest = tokens ++ next.rest) (items : Items stops tokens) :
    Skims source stops left next (extended seen span) := by
  obtain ⟨earlier, whole, before⟩ := skims.items
  refine ⟨reads.sound, ⟨earlier ++ tokens, by rw [whole, shape, List.append_assoc], before.append items⟩, .inr ?_⟩
  rcases skims.covers with ⟨rfl, rfl⟩ | ⟨_, rfl, covered⟩
  · exact ⟨span, rfl, reads⟩
  · exact ⟨_, rfl, covered.cover reads⟩

theorem scanUntil_skims (sound : Sound source left) :
    Ensures source left (scanUntil stops) fun found next => Skims source stops left next found ∧ Ends stops next.rest := by
  refine ensures_iterate (fun seen current => Skims source stops left current seen) ⟨sound, ⟨[], rfl, .nil⟩, .inl ⟨rfl, rfl⟩⟩ ?_
  rintro seen ⟨rest, stop⟩ skims
  rw [scanStep, ensures_bind, ensures_peek?]
  cases rest with
  | nil => exact ensures_pure.mpr ⟨skims, nofun⟩
  | cons token rest =>
    dsimp only [List.head?_cons]
    split
    · rename_i stopped
      exact ensures_pure.mpr ⟨skims, by rintro _ ⟨⟩; exact .inl stopped⟩
    · rename_i goes
      rw [Bool.not_eq_true] at goes
      split
      · rename_i bracket opens
        refine ensures_then (ensures_and (skipGroup_reads skims.sound) skipGroup_split) ?_
        rintro group next ⟨reads, opening, inside, closing, _, shape, opened, bracketed, closes, -⟩
        obtain ⟨rfl, rfl⟩ := List.cons.inj shape
        have whole : token :: (inside ++ closing :: next.rest) = token :: (inside ++ [closing]) ++ next.rest := by simp
        exact ensures_pure.mpr (show Skims source stops left next (extended seen group) from
          skims.more (reads.mono fun _ _ => trivial) whole (.group opened goes bracketed closes .nil))
      · rename_i bracket closes
        exact ensures_pure.mpr ⟨skims, by rintro _ ⟨⟩; exact .inr ⟨bracket, closes⟩⟩
      · rename_i noOpener noCloser
        refine ensures_bind.mpr ?_
        rintro _ _ ⟨⟩
        have took := took_middle skims.sound (show (token :: rest) = [] ++ token :: rest from rfl)
        exact ensures_pure.mpr (show Skims source stops left ⟨rest, token.stop⟩ (extended seen token.span) from
          skims.more (reads_token took rfl trivial) (show _ = [token] ++ rest from rfl) (.plain ⟨noOpener, noCloser⟩ goes .nil))

/-! ### Marks -/

theorem expect_reads (sound : Sound source left) (kind : TokenKind) (what : String) :
    Ensures source left (expect kind what) fun token next => left.rest = token :: next.rest ∧ token.kind = kind ∧ Sound source next := by
  intro token next ran
  obtain ⟨shape, same, -⟩ := expect_some ran
  exact ⟨shape, same, (forward_of (expect_advances _ _) _ sound _ _ ran).sound⟩

theorem eats_reads (sound : Sound source left) (kind : TokenKind) :
    Ensures source left (eats kind) fun eaten after => Eaten source kind left after eaten := by
  intro eaten next ran
  cases eaten with
  | true =>
    obtain ⟨token, shape, same, -⟩ := eats_true ran
    exact .read shape same (forward_of (eats_advances _) _ sound _ _ ran).sound
  | false => exact .absent (eats_false ran)

/-! ### Type parameters -/

theorem isVariance_same (variance : IsVariance tokens) (same : SameSigns tokens others) : IsVariance others := by
  cases variance with
  | none =>
    rw [List.map_eq_nil_iff.mp same]
    exact .none
  | mark symbol sign =>
    obtain ⟨_, _, rfl, kind, text, same⟩ := sameSigns_cons same
    rw [List.map_eq_nil_iff.mp same]
    exact .mark (kind ▸ symbol) (text ▸ sign)

theorem IsTypeParam.same (param : IsTypeParam name kind tokens) (same : SameSigns tokens others) : IsTypeParam name kind others := by
  cases param with
  | proper variance named text bounds bare =>
    obtain ⟨_, _, rfl, marked, same⟩ := sameSigns_append same
    obtain ⟨_, _, rfl, kind, spelled, same⟩ := sameSigns_cons same
    refine .proper (isVariance_same variance marked) (kind ▸ named) (spelled.trans text) (bounds.same same) fun token first => ?_
    have head := same.head
    rw [Option.mem_def.mp first] at head
    obtain ⟨before, found, sign⟩ := Option.map_eq_some_iff.mp head.symm
    rw [← (Prod.mk.inj sign).1]
    exact bare before found
  | applied variance named text opens inner closes bounds =>
    obtain ⟨_, _, rfl, marked, same⟩ := sameSigns_append same
    obtain ⟨_, _, rfl, kind, spelled, same⟩ := sameSigns_cons same
    obtain ⟨_, _, rfl, kind', -, same⟩ := sameSigns_cons same
    obtain ⟨_, _, rfl, within, same⟩ := sameSigns_append same
    obtain ⟨_, _, rfl, kind'', -, same⟩ := sameSigns_cons same
    exact .applied (isVariance_same variance marked) (kind ▸ named) (spelled.trans text) (kind' ▸ opens)
      (wellBracketed_same inner within) (kind'' ▸ closes) (bounds.same same)

theorem AreTypeParams.same (are : AreTypeParams entries tokens) (same : SameSigns tokens others) : AreTypeParams entries others := by
  induction are generalizing others with
  | last param => exact .last (param.same same)
  | more param separates _ ih =>
    obtain ⟨_, _, rfl, first, same⟩ := sameSigns_append same
    obtain ⟨_, _, rfl, kind, -, same⟩ := sameSigns_cons same
    exact .more (param.same first) (kind ▸ separates) (ih same)

theorem skipVariance_reads (sound : Sound source left) : Ensures source left skipVariance fun _ next =>
    Sound source next ∧ ∃ mark, left.rest = mark ++ next.rest ∧ IsVariance mark := by
  obtain ⟨rest, stop⟩ := left
  rw [skipVariance, ensures_bind, ensures_peek?]
  cases rest with
  | nil => exact ensures_pure.mpr ⟨sound, [], rfl, .none⟩
  | cons token rest =>
    dsimp only [List.head?_cons]
    split
    · rename_i marked
      simp only [Bool.and_eq_true, Bool.or_eq_true, decide_eq_true_eq] at marked
      refine ensures_bind.mpr ?_
      rintro _ _ ⟨⟩
      have took := took_middle sound (show token :: rest = [] ++ token :: rest from rfl)
      exact ensures_pure.mpr ⟨took.sound, [token], rfl, .mark marked.1 marked.2⟩
    · exact ensures_pure.mpr ⟨sound, [], rfl, .none⟩

theorem typeParamName_reads (sound : Sound source left) : Ensures source left typeParamName fun word next =>
    Sound source next ∧ left.rest = word :: next.rest ∧ (word.kind = .ident ∨ word.kind = .underscore) := by
  obtain ⟨rest, stop⟩ := left
  rw [typeParamName, ensures_bind, ensures_peek?]
  cases rest with
  | nil => exact ensures_fail
  | cons token rest =>
    dsimp only [List.head?_cons]
    split
    · rename_i named
      refine ensures_bind.mpr ?_
      rintro _ _ ⟨⟩
      have took := took_middle sound (show token :: rest = [] ++ token :: rest from rfl)
      exact ensures_pure.mpr ⟨took.sound, rfl, by simpa using named⟩
    · exact ensures_fail

theorem typeParam_reads (sound : Sound source left) : Ensures source left typeParam fun param next =>
    Sound source next ∧ ∃ tokens, left.rest = tokens ++ next.rest ∧ IsTypeParam param.name param.kind tokens := by
  refine ensures_then (skipVariance_reads sound) ?_
  rintro _ marked ⟨sound, mark, shape, variance⟩
  refine ensures_then here_stays ?_
  rintro start _ rfl
  refine ensures_then (typeParamName_reads sound) ?_
  rintro word behind ⟨sound, shape', named⟩
  simp only [typeParamKind, ensures_bind, ensures_isAt]
  split
  · rename_i applied
    refine ensures_then (ensures_and (skipGroup_reads sound) skipGroup_split) ?_
    rintro _ grouped ⟨reads, opening, inside, closing, bracket, shape'', opens, inner, closes, -⟩
    obtain rfl : bracket = .square := by
      rw [shape''] at applied
      simpa [opens] using applied
    rw [ensures_pure]
    refine ensures_mono (scanUntil_skims reads.sound) fun _ next skims => ?_
    obtain ⟨bounds, rest, items⟩ := skims.1.items
    rw [ensures_lastStop, ensures_pure]
    refine ⟨skims.1.sound, mark ++ word :: opening :: (inside ++ closing :: bounds), ?_, .applied variance named rfl opens inner closes items⟩
    simp [shape, shape', shape'', rest]
  · rename_i bare
    rw [ensures_pure]
    refine ensures_mono (scanUntil_skims sound) fun _ next skims => ?_
    obtain ⟨bounds, rest, items⟩ := skims.1.items
    rw [ensures_lastStop, ensures_pure]
    refine ⟨skims.1.sound, mark ++ word :: bounds, by simp [shape, shape', rest], .proper variance named rfl items fun token first kind => ?_⟩
    obtain ⟨later, rfl⟩ := List.head?_eq_some_iff.mp first
    rw [rest] at bare
    simp [kind] at bare

/-- The name and the kind of a type parameter. -/
def entry (param : TypeParam) : String × ParamKind := (param.name, param.kind)

theorem typeParams_reads (sound : Sound source left) : Ensures source left typeParams fun found next =>
    Sound source next ∧ ∃ opening inside closing, left.rest = opening :: (inside ++ closing :: next.rest) ∧
      opening.kind = .opener .square ∧ closing.kind = .closer .square ∧ AreTypeParams (found.1.map entry) inside ∧
      found.2 = opening.span.cover closing.span := by
  refine ensures_then (expect_reads sound _ _) ?_
  rintro opening begun ⟨shape, opens, sound⟩
  -- Each of the parameters so far has a comma behind it.
  refine ensures_iterate (fun seen current => Sound source current ∧ ∃ front, begun.rest = front ++ current.rest ∧
    ∀ more later, AreTypeParams more later → AreTypeParams (seen.map entry ++ more) (front ++ later))
    ⟨sound, [], rfl, fun _ _ are => are⟩ ?_
  rintro seen current ⟨sound, front, whole, before⟩
  refine ensures_then (typeParam_reads sound) ?_
  rintro param middle ⟨sound, tokens, shape', one⟩
  refine ensures_then (eats_reads sound _) ?_
  rintro _ after eaten
  cases eaten with
  | @read comma shape'' separates sound =>
    refine ensures_pure.mpr ⟨sound, front ++ (tokens ++ [comma]), by simp [whole, shape', shape''], fun more later are => ?_⟩
    simpa [entry] using before _ _ (.more one separates are)
  | absent still =>
    subst still
    refine ensures_then (expect_reads sound _ _) ?_
    rintro closing next ⟨shape'', closes, sound⟩
    refine ensures_pure.mpr ⟨sound, opening, front ++ tokens, closing, by simp [shape, whole, shape', shape''], opens, closes, ?_, rfl⟩
    simpa [entry] using before _ _ (.last one)

/-! ### Reading type parameters -/

theorem skipVariance_run {mark : List Token} (variance : IsVariance mark) (named : word.kind = .ident ∨ word.kind = .underscore)
    (rest : List Token) (stop : Nat) :
    ∃ stop', skipVariance source ⟨mark ++ word :: rest, stop⟩ = .ok ((), ⟨word :: rest, stop'⟩) := by
  cases variance with
  | none =>
    refine ⟨stop, ?_⟩
    show (if word.kind = .operator && _ then _ else _ : Parser Unit) source _ = _
    rcases named with kind | kind <;> rw [kind] <;> rfl
  | @mark token symbol sign =>
    refine ⟨token.stop, ?_⟩
    show (if token.kind = .operator && (token.text = "+" || token.text = "-") then _ else _ : Parser Unit) source _ = _
    rw [if_pos (by simpa [symbol] using sign)]
    rfl

theorem typeParamName_run (named : word.kind = .ident ∨ word.kind = .underscore) (rest : List Token) (stop : Nat) :
    typeParamName source ⟨word :: rest, stop⟩ = .ok (word, ⟨rest, word.stop⟩) := by
  show (if word.kind = .ident || word.kind = .underscore then _ else _ : Parser Token) source _ = _
  rw [if_pos (by simpa using named)]
  rfl

/-- What is read behind the name of a type parameter decides on its kind. -/
theorem typeParam_named {mark : List Token} {middle : Cursor} {bound : Option Span} {stop' : Nat} (variance : IsVariance mark)
    (named : word.kind = .ident ∨ word.kind = .underscore) (text : word.text = name)
    (kinded : typeParamKind source ⟨tokens, word.stop⟩ = .ok (kind, middle))
    (bounded : scanUntil endsBounds source middle = .ok (bound, ⟨rest, stop'⟩)) (stop : Nat) :
    ∃ found, typeParam source ⟨mark ++ word :: tokens, stop⟩ = .ok (found, ⟨rest, stop'⟩) ∧ entry found = (name, kind) := by
  obtain ⟨between, marked⟩ := @skipVariance_run source _ _ variance named tokens stop
  have begins : here source ⟨word :: tokens, between⟩ = .ok (word.start, ⟨word :: tokens, between⟩) := rfl
  refine ⟨⟨word.text, kind, ⟨word.start, stop'⟩⟩, ?_, by rw [entry, text]⟩
  rw [typeParam, bind_ok marked, bind_ok begins, bind_ok (typeParamName_run named _ _), bind_ok kinded]
  exact (bind_ok bounded).trans rfl

theorem typeParam_run (param : IsTypeParam name kind tokens) (ends : token.kind = .comma ∨ token.kind = .closer .square)
    (rest : List Token) (stop : Nat) :
    ∃ found stop', typeParam source ⟨tokens ++ token :: rest, stop⟩ = .ok (found, ⟨token :: rest, stop'⟩) ∧ entry found = (name, kind) := by
  have stopped : Ends endsBounds (token :: rest) := by
    rintro _ ⟨⟩
    exact .inl (by simpa [endsBounds] using ends)
  cases param with
  | @proper mark tokens word variance named text bounds bare =>
    obtain ⟨bound, stop', scanned, -⟩ := @Items.run source _ _ _ bounds stopped none word.stop
    have first : ¬ (tokens ++ token :: rest).head?.map Token.kind = some (.opener .square) := by
      cases tokens with
      | nil => rcases ends with kind | kind <;> simp [kind]
      | cons head => simpa using bare head rfl
    have kinded : typeParamKind source ⟨tokens ++ token :: rest, word.stop⟩ = .ok (.proper, ⟨tokens ++ token :: rest, word.stop⟩) := by
      rw [typeParamKind, bind_ok (isAt_other first)]
      rfl
    obtain ⟨found, ran, same⟩ := typeParam_named variance named text kinded scanned stop
    exact ⟨found, stop', by rw [List.append_assoc, List.cons_append]; exact ran, same⟩
  | @applied mark inside tokens word opening closing variance named text opens inner closes bounds =>
    obtain ⟨bound, stop', scanned, -⟩ := @Items.run source _ _ _ bounds stopped none closing.stop
    have kinded : typeParamKind source ⟨opening :: (inside ++ closing :: (tokens ++ token :: rest)), word.stop⟩ =
        .ok (.higherKinded, ⟨tokens ++ token :: rest, closing.stop⟩) := by
      have first : isAt (.opener .square) source ⟨opening :: (inside ++ closing :: (tokens ++ token :: rest)), word.stop⟩ =
          .ok (true, ⟨opening :: (inside ++ closing :: (tokens ++ token :: rest)), word.stop⟩) := isAt_here (by simp [opens])
      refine (bind_ok first).trans ?_
      exact (bind_ok (skipGroup_run opens inner closes _ _)).trans rfl
    obtain ⟨found, ran, same⟩ := typeParam_named variance named text kinded scanned stop
    refine ⟨found, stop', ?_, same⟩
    have whole : mark ++ word :: opening :: (inside ++ closing :: tokens) ++ token :: rest =
        mark ++ word :: opening :: (inside ++ closing :: (tokens ++ token :: rest)) := by simp
    rw [whole]
    exact ran

/-- Type parameters in brackets are read as they are. -/
theorem typeParams_run (are : AreTypeParams entries inside) (opens : opening.kind = .opener .square)
    (closes : closing.kind = .closer .square) (rest : List Token) (stop : Nat) :
    ∃ found stop', typeParams source ⟨opening :: (inside ++ closing :: rest), stop⟩ = .ok (found, ⟨rest, stop'⟩) ∧
      found.1.map entry = entries := by
  have steps : ∀ (seen : List TypeParam) stop, ∃ found stop', iterateFrom (typeParamStep opening) seen source ⟨inside ++ closing :: rest, stop⟩ =
      .ok (found, ⟨rest, stop'⟩) ∧ found.1.map entry = seen.map entry ++ entries := by
    induction are with
    | @last name kind tokens param =>
      intro seen stop
      obtain ⟨found, stop', ran, same⟩ := @typeParam_run source _ _ _ _ param (.inr closes) rest stop
      have absent : eats .comma source ⟨closing :: rest, stop'⟩ = .ok (false, ⟨closing :: rest, stop'⟩) :=
        eats_absent (by simp [closes])
      have step : typeParamStep opening seen source ⟨tokens ++ closing :: rest, stop⟩ =
          .ok (.done (seen ++ [found], opening.span.cover closing.span), ⟨rest, closing.stop⟩) := by
        refine (bind_ok ran).trans ((bind_ok absent).trans ?_)
        exact (bind_ok (expect_run closes _ _ _)).trans rfl
      exact ⟨_, _, iterateFrom_done step, by simp [same]⟩
    | @more name kind tokens entries rest' comma param separates _ ih =>
      intro seen stop
      obtain ⟨found, stop', ran, same⟩ := @typeParam_run source _ _ _ _ param (.inl separates) (rest' ++ closing :: rest) stop
      have step : typeParamStep opening seen source ⟨tokens ++ comma :: (rest' ++ closing :: rest), stop⟩ =
          .ok (.again (seen ++ [found]), ⟨rest' ++ closing :: rest, comma.stop⟩) :=
        (bind_ok ran).trans ((bind_ok (eats_run separates _ _)).trans rfl)
      obtain ⟨all, last, others, entries⟩ := ih (seen ++ [found]) comma.stop
      have whole : tokens ++ comma :: rest' ++ closing :: rest = tokens ++ comma :: (rest' ++ closing :: rest) := by simp
      rw [whole]
      refine ⟨all, last, (iterateFrom_again step ?_).trans others, by simp [entries, same]⟩
      simp only [ParserProgress.Shorter, List.length_append, List.length_cons]
      omega
  obtain ⟨found, stop', ran, same⟩ := steps [] opening.stop
  exact ⟨found, stop', (bind_ok (expect_run opens _ _ _)).trans ran, same⟩

end KindLift.TypeTokens
