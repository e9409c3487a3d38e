import KindLift.Proofs.CursorPlacement
import KindLift.Proofs.StretchParsers
import KindLift.Proofs.TokenReaders

/-! The body of a trait whose methods all return one name applied to something, read again
where the name is replaced by another one. What stands between the heads of the result
types is read as before, and so the methods are the same but for the heads. -/
namespace KindLift.BodyLayouts
open KindLift.Parser ParserLogic CursorAdvance CursorPlacement TokenCopies StretchLogic StretchParsers TokenReaders

variable {source other : List Char} {effect : String} {left right next : Cursor} {ending ending' tokens' : List Token}
  {seen members : TraitMembers} {openBrace openBrace' : Nat}

/-! ### Layouts -/

/-- The tokens of a body up to its closing brace, cut at the heads of the result types. -/
inductive Layout where
  | last (front : List Token)
  | method (front : List Token) (colon : Token) (head : List Token) (rest : Layout)

namespace Layout

def tokens : Layout → List Token
  | last front => front
  | method front colon head rest => front ++ colon :: (head ++ rest.tokens)

/-- The heads of the result types, in order. -/
def heads : Layout → List (List Token)
  | last _ => []
  | method _ _ head rest => head :: rest.heads

/-- The layout with more tokens at the beginning. -/
def prepend (more : List Token) : Layout → Layout
  | last front => last (more ++ front)
  | method front colon head rest => method (more ++ front) colon head rest

/-- The tokens from the first colon with a head behind it on, or else from the end of the body on. -/
def back (ending : List Token) : Layout → List Token
  | last _ => ending
  | method _ colon head rest => colon :: (head ++ (rest.tokens ++ ending))

@[simp] theorem tokens_prepend (more : List Token) (layout : Layout) :
    (layout.prepend more).tokens = more ++ layout.tokens := by
  cases layout <;> simp [prepend, tokens]

@[simp] theorem heads_prepend (more : List Token) (layout : Layout) : (layout.prepend more).heads = layout.heads := by
  cases layout <;> rfl

@[simp] theorem back_prepend (more : List Token) (layout : Layout) : (layout.prepend more).back ending = layout.back ending := by
  cases layout <;> rfl

theorem back_suffix (layout : Layout) (ending : List Token) : layout.back ending <:+ layout.tokens ++ ending := by
  cases layout with
  | last front => exact List.suffix_append _ _
  | method front colon head rest => exact ⟨front, by simp [back, tokens]⟩

/-- Each head stands between a colon and an opening bracket. -/
def Fits (ending : List Token) : Layout → Prop
  | last _ => True
  | method _ colon head rest => colon.kind = .colon ∧ head ≠ [] ∧
      (∃ bracket others, rest.tokens ++ ending = bracket :: others ∧ bracket.kind = .opener .square) ∧ rest.Fits ending

theorem fits_prepend (more : List Token) (layout : Layout) :
    (layout.prepend more).Fits ending ↔ layout.Fits ending := by
  cases layout <;> rfl

end Layout

/-- Both begin with the same closing brace. -/
def Closes (ending ending' : List Token) : Prop :=
  ∃ brace after brace' after', ending = brace :: after ∧ ending' = brace' :: after' ∧ brace.kind = .closer .brace ∧
    brace'.kind = .closer .brace ∧ brace'.lexeme = brace.lexeme

/-- The tokens of a text in which what stands between the heads is copied, and a word
stands in the place of each head. -/
inductive Rebuilt (source other : List Char) (effect : String) (ending' : List Token) : Layout → List Token → Prop where
  | last {low low' size : Nat} {front front' : List Token} (copied : Copied source other low low' size)
      (carried : List.Forall₂ (Carried low low' size) front front') :
      Rebuilt source other effect ending' (.last front) (front' ++ ending')
  | method {low low' size : Nat} {front front' head others : List Token} {colon colon' word : Token} {rest : Layout}
      (copied : Copied source other low low' size) (carried : List.Forall₂ (Carried low low' size) front front')
      (kind : colon'.kind = colon.kind) (lexeme : colon'.lexeme = colon.lexeme) (isWord : word.kind = .ident)
      (text : word.text = effect) (spelled : word.lexeme = effect.toList)
      (later : Rebuilt source other effect ending' rest others) :
      Rebuilt source other effect ending' (.method front colon head rest) (front' ++ colon' :: word :: others)

/-- What comes behind the ending is no part of it. -/
theorem Rebuilt.behind {layout : Layout} (rebuilt : Rebuilt source other effect ending' layout tokens') (more : List Token) :
    Rebuilt source other effect (ending' ++ more) layout (tokens' ++ more) := by
  induction rebuilt with
  | last copied carried =>
    rw [List.append_assoc]
    exact .last copied carried
  | method copied carried kind lexeme isWord text spelled _ ih =>
    rw [List.append_assoc]
    exact .method copied carried kind lexeme isWord text spelled ih

/-- The tokens in front of the first head make up a stretch, and what is left behind some
of them is rebuilt as well. -/
theorem Rebuilt.stretch {layout : Layout} (rebuilt : Rebuilt source other effect ending' layout tokens')
    (fits : layout.Fits ending) (closes : Closes ending ending') :
    ∃ stretch : Stretch, stretch.source = source ∧ stretch.other = other ∧ stretch.back = layout.back ending ∧
      (∀ left right, left.rest = layout.tokens ++ ending → right.rest = tokens' → stretch.Along left right) ∧
      ∀ left right layout' more, layout = layout'.prepend more → left.rest = layout'.tokens ++ ending →
        stretch.Along left right → Rebuilt source other effect ending' layout' right.rest := by
  cases rebuilt with
  | @last low low' size front front' copied carried =>
    obtain ⟨brace, after, brace', after', rfl, rfl, closer, closer', spelled⟩ := closes
    refine ⟨⟨source, other, low, low', size, copied, _, _, ⟨brace, after, brace', after', rfl, rfl,
      closer'.trans closer.symm, spelled, .inr (.inr closer)⟩⟩, rfl, rfl, rfl, ?_, ?_⟩
    · exact fun left right shape shape' => ⟨front, front', shape, shape', carried⟩
    · rintro left right layout' more same shape ⟨later, later', rest, rest', copies⟩
      cases layout' with
      | method => cases same
      | last front₁ =>
        obtain rfl : later = front₁ := List.append_cancel_right (rest.symm.trans shape)
        rw [rest']
        exact .last copied copies
  | @method low low' size front front' head others colon colon' word rest copied carried kind lexeme isWord text spelled later =>
    refine ⟨⟨source, other, low, low', size, copied, _, colon' :: word :: others,
      ⟨colon, _, colon', _, rfl, rfl, kind, lexeme, .inl fits.1⟩⟩, rfl, rfl, rfl, ?_, ?_⟩
    · intro left right shape shape'
      refine ⟨front, front', ?_, shape', carried⟩
      rw [shape, Layout.tokens]
      simp
    · rintro left right layout' more same shape ⟨front₁, front₁', ends, ends', copies⟩
      cases layout' with
      | last => cases same
      | method front₂ colon₂ head₂ rest₂ =>
        cases same
        obtain rfl : front₁ = front₂ := by
          rw [ends, Layout.tokens, List.append_assoc, List.cons_append, List.append_assoc] at shape
          exact List.append_cancel_right shape
        rw [ends']
        exact .method copied copies kind lexeme isWord text spelled later

/-- At the end of a stretch there is a colon, and the word that stands for the head. -/
theorem Rebuilt.head {colon : Token} {head : List Token} {rest : Layout}
    (rebuilt : Rebuilt source other effect ending' (.method [] colon head rest) tokens') :
    ∃ colon' word others, tokens' = colon' :: word :: others ∧ colon'.kind = colon.kind ∧ word.kind = .ident ∧
      word.text = effect ∧ Rebuilt source other effect ending' rest others := by
  cases rebuilt with
  | @method _ _ _ _ front' _ others _ colon' word _ copied carried kind lexeme isWord text spelled later =>
    cases carried
    exact ⟨colon', word, others, rfl, kind, isWord, text, later⟩

theorem Rebuilt.nil (rebuilt : Rebuilt source other effect ending' (.last []) tokens') : tokens' = ending' := by
  cases rebuilt with
  | last copied carried =>
    cases carried
    rfl

/-! ### Signatures -/

/-- A method up to its result type. -/
structure Signature where
  keyword : Token
  name : Token
  typeParams : List TypeParam × Option String
  params : List ParamList

/-- Reads a method up to its result type. -/
def signature : Parser Signature := do
  let keyword ← expect (.keyword .defKw) "def"
  let name ← expectName "method name"
  let typeParams ← methodTypeParams
  let params ← paramLists
  return ⟨keyword, name, typeParams, params⟩

/-- The method with the given end and result. -/
def Signature.method (signature : Signature) (stop : Nat) (result : Option ResultType) : Method :=
  ⟨signature.name.text, ⟨signature.keyword.start, stop⟩, signature.typeParams.1, signature.typeParams.2, signature.params, result⟩

/-- Reads the result type and the body of a method. -/
def signed (signature : Signature) : Parser (Method × Bool) := do
  let result ← methodResult
  let stop ← Parser.lastStop
  let isAbstract ← methodBody
  return (signature.method stop result, isAbstract)

theorem method_eq : method = signature >>= signed := by
  simp only [method, signature, signed, bind_assoc, pure_bind, Signature.method]

instance signature_advances : Advances signature := by
  unfold signature
  infer_instance

/-- The signatures are the same but for where they stand. -/
structure SameSignature (a b : Signature) : Prop where
  name : b.name.text = a.name.text
  typeParams : List.Forall₂ SameTypeParam a.typeParams.1 b.typeParams.1
  typeParamsText : b.typeParams.2 = a.typeParams.2
  params : List.Forall₂ SameParams a.params b.params

theorem signature_mirrors {stretch : Stretch} : Mirrors stretch signature signature SameSignature := by
  intro left right along
  refine (expect_mirrors _ _ left right along).then fun _ left _ right ⟨_, along⟩ => ?_
  refine (expectName_mirrors _ left right along).then fun _ left _ right ⟨name, along⟩ => ?_
  refine (methodTypeParams_mirrors left right along).then fun _ left _ right ⟨typeParams, along⟩ => ?_
  refine (paramLists_mirrors left right along).then fun _ left _ right ⟨params, along⟩ => ?_
  exact follows_pure ⟨⟨name.text, typeParams.1, typeParams.2, params⟩, along⟩

/-! ### Results -/

/-- A word in front of a bracket is a path. -/
theorem path_run {word bracket : Token} (name : word.isName = true) (square : bracket.kind = .opener .square) (what : String)
    (rest : List Token) (stop : Nat) :
    path what source ⟨word :: bracket :: rest, stop⟩ =
      .ok ((⟨[word.text]⟩, word.span), ⟨bracket :: rest, word.stop⟩) := by
  rw [path, bind_ok (expectName_run name what _ _)]
  show iterateFrom _ _ _ _ = _
  have ends : pathStep what (⟨[word.text]⟩, word.span) source ⟨bracket :: rest, word.stop⟩ =
      .ok (.done (⟨[word.text]⟩, word.span), ⟨bracket :: rest, word.stop⟩) := by
    show (if decide (some bracket.kind = some .dot) && _ then _ else _ : Parser _) source _ = _
    rw [square]
    rfl
  rw [iterateFrom, ends]

/-- How a result with an argument is read: a colon, a path, the argument, and nothing more. -/
theorem methodResult_named {result : ResultType} (ran : methodResult source left = .ok (some result, next))
    (applied : result.arg.isSome) :
    ∃ colon rest name middle argued, left.rest = colon :: rest ∧ colon.kind = .colon ∧
      rest.head?.map Token.kind = some .ident ∧
      path "return type" source ⟨rest, colon.stop⟩ = .ok ((name, result.headSpan), middle) ∧
      resultArg source middle = .ok (result.arg, argued) ∧
      scanUntil endsResultType source argued = .ok (none, next) := by
  obtain ⟨typed, behind, ate, ran⟩ := bind_eq_ok ran
  cases typed with
  | false => cases ran
  | true =>
    obtain ⟨colon, shape, kind, stop⟩ := eats_true ate
    obtain ⟨found, after, typed, ends⟩ := bind_eq_ok ran
    cases ends
    unfold resultType at typed
    obtain ⟨start, _, looked, read⟩ := bind_eq_ok typed
    obtain rfl := here_stays _ _ looked
    obtain ⟨kind?, _, peeked, named⟩ := bind_eq_ok read
    cases peeked
    split at named
    · rename_i isIdent
      unfold namedResult at named
      obtain ⟨⟨name, headSpan⟩, middle, walked, rest⟩ := bind_eq_ok named
      obtain ⟨arg, argued, bracketed, rest⟩ := bind_eq_ok rest
      obtain ⟨more, last, scanned, rest⟩ := bind_eq_ok rest
      cases rest
      cases more with
      | some span => cases applied
      | none => exact ⟨colon, _, name, middle, argued, shape, kind, isIdent, by rw [← stop]; exact walked, bracketed, scanned⟩
    · unfold otherResult at named
      obtain ⟨span, last, scanned, rest⟩ := bind_eq_ok named
      cases span with
      | none => exact absurd rest fail_ne_ok
      | some span =>
        cases rest
        cases applied

/-- An argument stands in brackets. -/
theorem resultArg_some {arg : String} (ran : resultArg source left = .ok (some arg, next)) :
    ∃ bracket rest, left.rest = bracket :: rest ∧ bracket.kind = .opener .square := by
  unfold resultArg at ran
  obtain ⟨here, _, looked, ran⟩ := bind_eq_ok ran
  cases looked
  split at ran
  · rename_i same
    cases shape : left.rest with
    | nil =>
      rw [shape] at same
      cases same
    | cons bracket rest =>
      rw [shape] at same
      exact ⟨bracket, rest, rfl, by simpa using same⟩
  · cases ran

/-- The result with a word in the place of its head. -/
theorem methodResult_rebuilt {stretch : Stretch} {colon' word : Token} {arg : String} {middle argued : Cursor}
    (bracketed : resultArg stretch.source middle = .ok (some arg, argued))
    (scanned : scanUntil endsResultType stretch.source argued = .ok (none, next))
    (inside : stretch.back.length ≤ next.rest.length) (shape : right.rest = colon' :: word :: tokens')
    (kind : colon'.kind = .colon) (isWord : word.kind = .ident) (along : stretch.Along middle ⟨tokens', word.stop⟩) :
    ∃ result' right', methodResult stretch.other right = .ok (some result', right') ∧ result'.head = word.text ∧
      result'.arg = some arg ∧ stretch.Along next right' := by
  obtain ⟨_, stop⟩ := right
  cases shape
  obtain ⟨bracket, rest, opens, square⟩ := resultArg_some bracketed
  obtain ⟨bracket', rest', rfl, square'⟩ : ∃ bracket' rest', tokens' = bracket' :: rest' ∧ bracket'.kind = .opener .square := by
    have same := along.kind
    rw [opens, List.head?_cons, Option.map_some, square] at same
    cases tokens' with
    | nil => cases same
    | cons bracket' rest' => exact ⟨bracket', rest', rfl, Option.some.inj same⟩
  have scans := ((scanUntil_advances endsResultType).ensures _ _ _ _ scanned).suffix.length_le
  obtain ⟨_, argued', bracketed', rfl, along⟩ :=
    resultArg_mirrors _ _ along _ _ bracketed (Nat.le_trans inside scans)
  obtain ⟨more', right', scanned', none', along⟩ := scanUntil_mirrors _ _ _ along _ _ scanned inside
  cases more' with
  | some span => cases none'
  | none =>
    have named : word.isName = true := by rw [Token.isName, isWord]; rfl
    have starts : here stretch.other ⟨word :: bracket' :: rest', colon'.stop⟩ =
        .ok (word.start, ⟨word :: bracket' :: rest', colon'.stop⟩) := rfl
    have isIdent : peekKind? stretch.other ⟨word :: bracket' :: rest', colon'.stop⟩ =
        .ok (some .ident, ⟨word :: bracket' :: rest', colon'.stop⟩) := by
      rw [← isWord]
      rfl
    obtain ⟨result', spelled⟩ : ∃ result : ResultType, result =
      ⟨String.ofList (Span.chars ⟨word.start, right'.lastStop⟩ stretch.other), ⟨word.start, right'.lastStop⟩, word.text,
        word.span, some arg⟩ := ⟨_, rfl⟩
    refine ⟨result', right', ?_, by rw [spelled], by rw [spelled], along⟩
    have typed : resultType stretch.other ⟨word :: bracket' :: rest', colon'.stop⟩ = .ok (result', right') := by
      rw [spelled, resultType, bind_ok starts, bind_ok isIdent, if_pos rfl, namedResult, bind_ok (path_run named square' _ _ _)]
      dsimp only
      rw [bind_ok bracketed', bind_ok scanned']
      rfl
    rw [methodResult, bind_ok (eats_run kind _ _), if_pos rfl, bind_ok typed]
    rfl

end KindLift.BodyLayouts
