import KindLift.Proofs.CoveredSpans
import KindLift.Proofs.InstancePlacement
import KindLift.Proofs.QualifiedScan
import KindLift.Proofs.RebuiltTexts
import KindLift.Proofs.TraitReading
import KindLift.Proofs.WrittenInstances
import KindLift.Proofs.WrittenUnits

/-! Traits that are nested in an object. The text that is generated for one is a new
heading, with the name and the parents as they were, and the body with its heads replaced.
It is read as one trait over a type constructor with the same methods. -/
namespace KindLift.NestedTraits
open Token Text TextBoundary TokenPlacement TokenCopies TriviaGaps ScanSteps ScanRuns WrittenTokens WrittenGroups WrittenTraits WrittenUnits
open KindLift.Parser ParserLogic ParserSimulation TokenReaders CursorAdvance CursorPlacement BodyLayouts RebuiltBodies RebuiltTexts CoveredSpans TraitReading
open StretchLogic StretchParsers WrittenReading
open DeclPlacement (headSpans)

variable {source text parents inner : List Char} {all tokens behind : List Token} {low low' : Nat} {name printed : Token} {trait : Interface}

/-! ### The heading -/

/-- The type parameter of a nested trait. -/
def effect : Abstraction := ⟨WrittenInstances.effect, .higherKinded⟩

/-- What stands between the name and the parents. -/
def params : List Piece := paramPieces (some effect) ++ [⟨[' '], .keyword .extendsKw⟩]

/-- The text in front of the parents. -/
def opening (name : List Char) : List Char :=
  written [⟨[], .keyword .traitKw⟩] ++ ' ' :: (name ++ (written params ++ [' ']))

/-- The text in front of the body. -/
def heading (name parents : List Char) : List Char := opening name ++ (parents ++ written [⟨[' '], .opener .brace⟩])

/-- The tokens of the text in front of the parents. -/
def openingTokens (name : Token) : List Token :=
  (Piece.mk [] (.keyword .traitKw)).token 0 :: ⟨name.kind, 6, name.lexeme⟩ :: place (6 + byteLength name.lexeme) params

/-- The brace behind the heading. -/
def openingBrace (name parents : List Char) : Token :=
  (Piece.mk [' '] (.opener .brace)).token (byteLength (opening name) + byteLength parents)

theorem params_laid : Laid none params := by
  simp [params, paramPieces, Abstraction.pieces, Abstraction.inner, Abstraction.kindPieces, effect, WrittenInstances.effect, group, laid_cons,
    Lexeme.separate, Lexeme.isWord, Lexeme.isSymbolic, Laid]

theorem written_params : written params = "[F[_]] extends".toList := by
  simp [params, paramPieces, Abstraction.pieces, Abstraction.inner, Abstraction.kindPieces, effect, WrittenInstances.effect, group, written, Piece.chars,
    Lexeme.chars, openingChar, closingChar, Keyword.spelling]

/-- A token that was all of what was copied. -/
theorem carried_whole {token copy : Token} (carried : Carried low low' (byteLength token.lexeme) token copy) :
    copy = ⟨token.kind, low', token.lexeme⟩ := by
  obtain ⟨offset, -, start, fits⟩ := carried.place
  obtain rfl : offset = 0 := by omega
  obtain ⟨kind, place, lexeme⟩ := copy
  rw [← carried.kind, ← carried.lexeme]
  exact congrArg (Token.mk kind · lexeme) start

theorem blank_follows {before : Option Lexeme} {pieces : List Piece} (rest : List Char) :
    ∀ e ∈ (' ' :: rest).head?, ∀ last ∈ lastOf before pieces, last.reaches e = false := by
  rintro _ ⟨⟩ last -
  exact last.reaches_blank (.inl rfl)

/-- The heading is read in front of whatever is read behind it. -/
theorem scan_heading (named : Reread low name.lexeme [name]) (extended : Reread low' parents tokens)
    (scanned : scanFrom (byteLength (heading name.lexeme parents)) false inner = .ok behind) :
    ∃ tokens', List.Forall₂ (Carried low' (byteLength (opening name.lexeme)) (byteLength parents)) tokens tokens' ∧
      Token.scan (heading name.lexeme parents ++ inner) =
        .ok (openingTokens name ++ (tokens' ++ openingBrace name.lexeme parents :: behind)) := by
  -- The keyword, the name, the parameter and the next keyword, the parents and the brace, one after the other.
  have braceRead := @scanFrom_pieces inner none [⟨[' '], .opener .brace⟩] (by simp [Laid]) (by simp [Lexeme.reaches])
    (byteLength (opening name.lexeme) + byteLength parents)
  obtain ⟨tokens', glued, carried, parentsRead⟩ := extended ' ' (written [⟨[], .opener .brace⟩] ++ inner) ⟨rfl, rfl⟩
    (byteLength (opening name.lexeme))
  generalize whole : parents ++ ' ' :: (written [⟨[], .opener .brace⟩] ++ inner) = rest at parentsRead
  have paramsRead := @scanFrom_pieces _ none params params_laid (blank_follows rest) (6 + byteLength name.lexeme)
  have bracketed : '[' :: ("F[_]] extends".toList ++ ' ' :: rest) = written params ++ ' ' :: rest := by
    rw [written_params]
    rfl
  obtain ⟨_, word, copied, nameRead⟩ := named '[' ("F[_]] extends".toList ++ ' ' :: rest) ⟨rfl, rfl⟩ 6
  rw [bracketed] at nameRead
  have keywordRead := @scanFrom_pieces _ none [⟨[], .keyword .traitKw⟩] (by simp [Laid])
    (blank_follows (name.lexeme ++ (written params ++ ' ' :: rest))) 0 false
  cases copied with | cons copied none => ?_
  cases none
  rw [carried_whole copied] at nameRead
  have shape : heading name.lexeme parents ++ inner =
      written [⟨[], .keyword .traitKw⟩] ++ ' ' :: (name.lexeme ++ (written params ++ ' ' :: rest)) := by
    simp [heading, opening, ← whole, Piece.chars]
  have first : 0 + width [⟨[], .keyword .traitKw⟩] + byteLength [' '] = 6 := rfl
  have second : 6 + byteLength name.lexeme + width params + byteLength [' '] = byteLength (opening name.lexeme) := by
    have keyword : byteLength (written [⟨[], .keyword .traitKw⟩]) = 5 := rfl
    have space : (' ' : Char).utf8Size = 1 := rfl
    simp only [opening, byteLength_append, byteLength_cons, byteLength_nil, width, keyword, space]
    omega
  have third : byteLength (opening name.lexeme) + byteLength parents + width [⟨[' '], .opener .brace⟩] =
      byteLength (heading name.lexeme parents) := by
    simp only [heading, byteLength_append, width]
    omega
  have braced : ∀ glued, scanFrom (byteLength (opening name.lexeme) + byteLength parents) glued
      (' ' :: (written [⟨[], .opener .brace⟩] ++ inner)) = .ok (openingBrace name.lexeme parents :: behind) := by
    intro glued
    refine (braceRead glued).trans ?_
    rw [third]
    exact congrArg _ scanned
  refine ⟨tokens', carried, ?_⟩
  rw [scan_eq_ok_iff, shape, keywordRead, scanFrom_space rfl, first, nameRead, paramsRead, scanFrom_space rfl, second, parentsRead,
    braced]
  rfl

/-! ### The trait in the source -/

/-- Where the name, the parents and the body of a trait stand. -/
structure Parted (source : List Char) (all : List Token) (trait : Interface) (keyword name marker : Token) (tokens rest : List Token)
    (begun extended next : Cursor) (span : Span) (found : Body) : Prop where
  heads : keyword :: ([name] ++ rest) <:+ all
  kind : keyword.kind = .keyword .traitKw
  named : name.isName = true
  stands : Stands source name
  text : trait.name = name.text
  nameSpan : trait.nameSpan = name.span
  marked : marker :: (tokens ++ extended.rest) <:+ all
  marks : marker.kind = .keyword .extendsKw
  shape : begun.rest = tokens ++ extended.rest
  parents : Parser.parents source begun = .ok (trait.parents, extended)
  covers : Covers Closing tokens span
  spans : ParentsSpan trait.parents span
  body : trait.body = some found
  bodied : traitBody source extended = .ok ((⟨trait.methods, trait.hasConcreteMembers⟩, found), next)
  sound : Sound source extended

theorem parted_of_readOff (read : ReadOff source all trait) (extending : trait.parents ≠ []) (filled : trait.methods ≠ []) :
    ∃ keyword name marker tokens rest begun extended next span found,
      Parted source all trait keyword name marker tokens rest begun extended next span found := by
  obtain ⟨left, next, ⟨suffix, sound⟩, ran⟩ := read
  obtain ⟨keyword, name, rest, behind, skipped, extended, parts⟩ := interface_parts ran
  obtain ⟨marker, begun, shape, marks, stop, extends'⟩ := extendsClause_some parts.parents extending
  obtain ⟨found, body, bodied⟩ := optionalTraitBody_some parts.body filled
  have called := took_middle sound (show left.rest = [keyword] ++ name :: rest from parts.shape)
  have first := forward_of traitTypeParams_advances _ called.sound _ _ parts.typeParams
  have second := forward_of (skipGroups_advances .paren) _ first.sound _ _ parts.skips
  have third := (took_middle second.sound (show skipped.rest = [] ++ marker :: begun.rest from shape)).sound
  rw [← stop] at third
  obtain ⟨span, reads, spans⟩ := parents_reads third _ _ extends'
  obtain ⟨tokens, shape', covers⟩ := reads.tokens
  have heads : keyword :: ([name] ++ rest) <:+ all := by rwa [parts.shape] at suffix
  have inside : rest <:+ all := ((List.suffix_cons ..).trans (List.suffix_cons ..)).trans heads
  have marked := (((skipGroups_advances .paren).ensures _ _ _ _ parts.skips).suffix.trans
    (traitTypeParams_advances.ensures _ _ _ _ parts.typeParams).suffix).trans inside
  rw [shape, shape'] at marked
  exact ⟨keyword, name, marker, tokens, rest, begun, extended, next, span, found, heads, parts.kind, parts.named, called.stands,
    parts.text, parts.span, marked, marks, shape', extends', covers, spans, body, bodied, reads.sound⟩

variable {keyword marker brace closing : Token} {rest : List Token} {begun extended next : Cursor} {span : Span} {found : Body}
  {clause : List Char} {layout : Layout}

theorem name_reread (scanned : Token.scan source = .ok all)
    (parted : Parted source all trait keyword name marker tokens rest begun extended next span found) :
    Reread name.start name.lexeme [name] := by
  have plain : keyword.kind ≠ .ident := by simp [parted.kind]
  have covers : Covers Closing [name] name.span :=
    ⟨⟨name, rfl, rfl⟩, ⟨name, rfl, rfl, closing_of_name parted.named⟩, start_lt_stop parted.stands⟩
  obtain ⟨_, text, _, -, -, sliced, reread⟩ := covered_reread scanned parted.heads plain covers
  have same := chars_span parted.stands
  rw [Span.chars, sliced] at same
  obtain rfl : text = name.lexeme := same
  exact reread

/-- The token is what the name of the trait is printed as. -/
structure Prints (trait : Interface) (printed : Token) : Prop where
  named : printed.isName = true
  text : printed.text = trait.name
  lexeme : printed.lexeme = trait.name.toList
  reread : Reread printed.start printed.lexeme [printed]

/-- A name without back quotes is printed as it is. -/
theorem prints_bare (scanned : Token.scan source = .ok all)
    (parted : Parted source all trait keyword name marker tokens rest begun extended next span found)
    (bare : name.lexeme.head? ≠ some '\x60') : Prints trait name :=
  ⟨parted.named, parted.text.symm, by rw [parted.text, Token.text, QualifiedScan.unquote_bare bare, String.toList_ofList],
    name_reread scanned parted⟩

/-- The text that is generated for a trait. -/
theorem nestedInterface?_text
    (parted : Parted source all trait keyword name marker tokens rest begun extended next span found)
    (prints : Prints trait printed) (sliced : slice? source span.start span.stop = some clause)
    (substituted : Template.substitute source ['F'] (found.openBrace + 1) found.closeBrace (Template.resultHeads trait.methods) =
      some inner) :
    ∃ text, Template.nestedInterface? source trait .default = some text ∧
      text.toList = heading printed.lexeme clause ++ (Template.emptyBlankLastLine inner ++ ['\x7d']) := by
  obtain ⟨⟨first, leads, starts⟩, last, ends, stops⟩ := parted.spans
  have extending : Template.extendsText? source trait.parents = some (" extends " ++ String.ofList clause) := by
    rw [Template.extendsText?, leads, ends]
    dsimp only
    rw [starts, stops, sliced]
    rfl
  have named : trait.name.toList = printed.lexeme := prints.lexeme.symm
  have effectful : Conventions.default.effectParam.toList = ['F'] := rfl
  refine ⟨"trait " ++ trait.name ++ "[" ++ "F" ++ "[_]]" ++ (" extends " ++ String.ofList clause) ++ " \x7b" ++
    String.ofList (Template.emptyBlankLastLine inner) ++ "\x7d", ?_, ?_⟩
  · simp only [Template.nestedInterface?, extending, Option.bind_eq_bind, Option.bind_some, parted.body, effectful, substituted]
    rfl
  · have keyword : written [⟨[], .keyword .traitKw⟩] = "trait".toList := rfl
    have brace : written [⟨[' '], .opener .brace⟩] = " \x7b".toList := rfl
    simp [heading, opening, named, written_params, keyword, brace]

/-- The tokens of the text that is generated for a trait: the heading, the parents as they
were and the body that is rebuilt. -/
theorem nested_scanned (scanned : Token.scan source = .ok all)
    (parted : Parted source all trait keyword name marker tokens rest begun extended next span found)
    (enclosed : Enclosed extended next found brace closing layout trait.methods)
    (line : Template.resultHeads trait.methods = headSpans trait.methods) (prints : Prints trait printed) :
    ∃ clause text tokens' body' start, Template.nestedInterface? source trait .default = some text ∧
      Copied source text.toList span.start (byteLength (opening printed.lexeme)) (byteLength clause) ∧
      List.Forall₂ (Carried span.start (byteLength (opening printed.lexeme)) (byteLength clause)) tokens tokens' ∧
      Rebuilt source text.toList "F" [⟨.closer .brace, start, ['\x7d']⟩] layout body' ∧
      Token.scan text.toList = .ok (openingTokens printed ++ (tokens' ++ openingBrace printed.lexeme clause :: body')) := by
  have plain : marker.kind ≠ .ident := by simp [parted.marks]
  obtain ⟨before, clause, tail, whole, start, sliced, reread⟩ := covered_reread scanned parted.marked plain parted.covers
  have suffix : extended.rest <:+ all := ((List.suffix_append ..).trans (List.suffix_cons ..)).trans parted.marked
  rw [enclosed.shape] at suffix
  obtain ⟨outside, chars, whole', width, behind⟩ := scanned_behind scanned suffix
  rw [enclosed.kind] at behind
  have stands := (took_middle parted.sound (show extended.rest = [] ++ brace :: _ from enclosed.shape)).stands
  obtain ⟨front, gap, substituted, retold⟩ := substitute_rescanned whole' behind enclosed.fits enclosed.closer enclosed.heads
  rw [width, opener_stop stands enclosed.kind, enclosed.start, enclosed.stop, ← line] at substituted
  obtain ⟨gap', emptied, respaced⟩ := emptyBlankLastLine_gap retold.ends gap
  obtain ⟨text, rendered, shape⟩ := nestedInterface?_text parted prints sliced substituted
  rw [emptied, List.append_assoc] at shape
  obtain ⟨body', rebuilt, rescanned⟩ := retold.again (heading printed.lexeme clause) gap' respaced
  obtain ⟨tokens', carried, read⟩ := scan_heading prints.reread reread rescanned
  rw [← shape] at rebuilt read
  refine ⟨clause, text, tokens', body', _, rendered, ?_, carried, rebuilt, read⟩
  refine ⟨before, clause, tail, opening printed.lexeme, written [⟨[' '], .opener .brace⟩] ++ (front ++ (gap' ++ ['\x7d'])), whole, ?_,
    start, rfl, rfl⟩
  rw [shape, heading, List.append_assoc, List.append_assoc]

/-! ### The trait that is read again -/

/-- The parents are read again in front of the brace. -/
theorem parents_again {other : List Char} {size stop : Nat} {tokens' : List Token}
    (parted : Parted source all trait keyword name marker tokens rest begun extended next span found)
    (enclosed : Enclosed extended next found brace closing layout trait.methods)
    (copied : Copied source other span.start low' size) (carried : List.Forall₂ (Carried span.start low' size) tokens tokens')
    (body' : List Token) : ∃ parents' stop', Parser.parents other ⟨tokens' ++ openingBrace printed.lexeme clause :: body', stop⟩ =
        .ok (parents', ⟨openingBrace printed.lexeme clause :: body', stop'⟩) ∧
      List.Forall₂ SameParent trait.parents parents' := by
  have spelled := (enclosed.spelled parted.sound).1
  let stretch : Stretch := ⟨source, other, span.start, low', size, copied, extended.rest, openingBrace printed.lexeme clause :: body',
    brace, _, _, body', enclosed.shape, rfl, enclosed.kind.symm, spelled.symm, .inr (.inl enclosed.kind)⟩
  have along : stretch.Along begun ⟨tokens' ++ openingBrace printed.lexeme clause :: body', stop⟩ :=
    ⟨tokens, tokens', parted.shape, rfl, carried⟩
  obtain ⟨parents', ⟨behind, stop'⟩, run, same, front, front', ends, ends', copies⟩ :=
    parents_mirrors _ _ along _ _ parted.parents (Nat.le_refl _)
  obtain rfl : front = [] := List.append_left_eq_self.mp ends.symm
  cases copies
  obtain rfl : behind = openingBrace printed.lexeme clause :: body' := ends'
  exact ⟨parents', stop', run, same⟩

theorem interface_run {other : List Char} {stop : Nat} {tparams : List TypeParam} {tparamsSpan : Option Span}
    {parents : List Parent} {members : TraitMembers} {body : Option Body} {behind extended skipped : Cursor}
    (kind : keyword.kind = .keyword .traitKw) (named : name.isName = true)
    (params : traitTypeParams other ⟨rest, name.stop⟩ = .ok ((tparams, tparamsSpan), behind))
    (skips : skipGroups .paren other behind = .ok ((), skipped)) (extending : extendsClause other skipped = .ok (parents, extended))
    (bodied : optionalTraitBody other extended = .ok ((members, body), next)) :
    interface other ⟨keyword :: name :: rest, stop⟩ = .ok (⟨name.text, name.span, ⟨keyword.start, next.lastStop⟩, tparams,
      tparamsSpan, parents, members.methods, members.hasConcrete, body⟩, next) := by
  rw [interface, bind_ok (expect_run kind _ _ _), bind_ok (expectName_run named _ _ _), bind_ok params]
  dsimp only
  rw [bind_ok skips, bind_ok extending, bind_ok bodied]
  rfl

theorem extendsClause_run {other : List Char} {stop : Nat} {parents : List Parent} (kind : marker.kind = .keyword .extendsKw)
    (read : Parser.parents other ⟨rest, marker.stop⟩ = .ok (parents, extended)) :
    extendsClause other ⟨marker :: rest, stop⟩ = .ok (parents, extended) :=
  (bind_ok (eats_run kind rest stop)).trans read

theorem optionalTraitBody_run {other : List Char} {stop : Nat} {members : TraitMembers} {body : Body}
    (kind : brace.kind = .opener .brace) (read : traitBody other ⟨brace :: rest, stop⟩ = .ok ((members, body), next)) :
    optionalTraitBody other ⟨brace :: rest, stop⟩ = .ok ((members, some body), next) := by
  have here : isAt (.opener .brace) other ⟨brace :: rest, stop⟩ = .ok (true, ⟨brace :: rest, stop⟩) := isAt_here (congrArg some kind)
  exact (bind_ok here).trans ((bind_ok read).trans rfl)

/-- The keyword in front of the parents. -/
def openingMarker (name : Token) : Token :=
  (Piece.mk [' '] (.keyword .extendsKw)).token (6 + byteLength name.lexeme + WrittenTokens.width (paramPieces (some effect)))

/-- A trait that begins like a nested one. -/
theorem interface_opening {other : List Char} {parents : List Parent} {members : TraitMembers} {body : Option Body}
    (named : name.isName = true)
    (extending : Parser.parents other ⟨tokens, (openingMarker name).stop⟩ = .ok (parents, extended))
    (bodied : optionalTraitBody other extended = .ok ((members, body), next)) (stop : Nat) :
    ∃ nested, interface other ⟨openingTokens name ++ tokens, stop⟩ = .ok (nested, next) ∧ nested.name = name.text ∧
      nested.typeParams.map (fun param => (param.name, param.kind)) = [("F", .higherKinded)] ∧ nested.parents = parents ∧
      nested.methods = members.methods ∧ nested.hasConcreteMembers = members.hasConcrete := by
  have shape : openingTokens name ++ tokens = (Piece.mk [] (.keyword .traitKw)).token 0 :: ⟨name.kind, 6, name.lexeme⟩ ::
      (place (6 + byteLength name.lexeme) (paramPieces (some effect)) ++ openingMarker name :: tokens) := by
    simp [openingTokens, params, openingMarker]
  have begins : (openingMarker name :: tokens).head?.map Token.kind = some (.keyword .extendsKw) := rfl
  have params := @reads_traitTypeParams other (6 + byteLength name.lexeme) (openingMarker name :: tokens) (some effect)
    (by rw [begins]; simp)
  have skips : ∀ stop, skipGroups .paren other ⟨openingMarker name :: tokens, stop⟩ = .ok ((), ⟨openingMarker name :: tokens, stop⟩) :=
    fun stop => (ReadsAs.done (.glance (reads_isAt_other (by rw [begins]; simp)) .pure) :
      ReadsAs other (skipGroups .paren) stop [] (openingMarker name :: tokens) ())
  rw [shape]
  exact ⟨_, interface_run rfl named params (skips _) (extendsClause_run rfl extending) bodied, rfl, rfl, rfl, rfl, rfl⟩

/-- The text of one trait alone. -/
theorem parse_alone {other : List Char} {stop : Nat} {nested : Interface} (scanned : Token.scan other = .ok (keyword :: rest))
    (kind : keyword.kind = .keyword .traitKw) (read : interface other ⟨keyword :: rest, 0⟩ = .ok (nested, ⟨[], stop⟩)) :
    ∃ outline, Outline.parse other = .ok outline ∧ outline.decls = [.interface nested] ∧ outline.package = none ∧
      outline.imports = [] := by
  have first : ((keyword :: rest).head?.map Token.kind) = some (.keyword .traitKw) := congrArg some kind
  have absent : ∀ kind, kind ≠ .keyword .traitKw → isAt kind other ⟨keyword :: rest, 0⟩ = .ok (false, ⟨keyword :: rest, 0⟩) :=
    fun kind different => reads_isAt_other (show (keyword :: rest).head?.map Token.kind ≠ some kind by
      rw [first]
      simpa using different.symm)
  have noMods : modifiers other ⟨keyword :: rest, 0⟩ = .ok (⟨false, false⟩, ⟨keyword :: rest, 0⟩) :=
    @reads_modifiers_bare other 0 rest keyword (by rw [kind]; rfl) ⟨false, false⟩
  have peeked : peekKind? other ⟨keyword :: rest, 0⟩ = .ok (some (.keyword .traitKw), ⟨keyword :: rest, 0⟩) := by
    rw [← first]
    rfl
  have top : topLevel other ⟨keyword :: rest, 0⟩ = .ok (.interface nested, ⟨[], stop⟩) := by
    refine (bind_ok (absent _ (by simp))).trans ((bind_ok noMods).trans ((bind_ok peeked).trans ?_))
    exact (bind_ok read).trans rfl
  have solid : eatAll .semi other ⟨keyword :: rest, 0⟩ = .ok ((), ⟨keyword :: rest, 0⟩) := eatAll_stays (by rw [first]; simp)
  have noPackage : atPackageClause other ⟨keyword :: rest, 0⟩ = .ok (false, ⟨keyword :: rest, 0⟩) :=
    @reads_atPackageClause_other other 0 (keyword :: rest) (by rw [first]; simp)
  have more : peek? other ⟨keyword :: rest, 0⟩ = .ok (some keyword, ⟨keyword :: rest, 0⟩) := rfl
  have step : outlineStep .empty other ⟨keyword :: rest, 0⟩ =
      .ok (.again { Outline.empty with decls := [.interface nested] }, ⟨[], stop⟩) := by
    refine (bind_ok solid).trans ((bind_ok more).trans ((bind_ok noPackage).trans ((bind_ok (absent _ (by simp))).trans ?_)))
    exact (bind_ok top).trans rfl
  have last : outlineStep { Outline.empty with decls := [.interface nested] } other ⟨[], stop⟩ =
      .ok (.done { Outline.empty with decls := [.interface nested] }, ⟨[], stop⟩) := by
    refine (bind_ok (eatAll_stays (by simp))).trans ?_
    rfl
  have ran : Parser.outline other ⟨keyword :: rest, 0⟩ =
      .ok ({ Outline.empty with decls := [.interface nested] }, ⟨[], stop⟩) :=
    (iterateFrom_again step (Nat.succ_pos _)).trans (iterateFrom_done last)
  refine ⟨{ Outline.empty with
    decls := [.interface nested], typeRefs := TypeRef.collect (keyword :: rest) [.interface nested] }, ?_, rfl, rfl, rfl⟩
  have located : Parser.outline.onTokens other (keyword :: rest) = .ok { Outline.empty with decls := [.interface nested] } := by
    rw [onTokens, ran]
  rw [Outline.parse, scanned]
  show (Parser.outline.onTokens other (keyword :: rest) >>= _) = _
  rw [located]
  rfl

/-! ### Legacy services -/

/-- The trait is the other one over a type constructor: the heads of its result types are
the type parameter, and all else is as it was. -/
structure Lifts (trait nested : Interface) : Prop where
  name : nested.name = trait.name
  typeParams : nested.typeParams.map (fun param => (param.name, param.kind)) = [("F", .higherKinded)]
  parents : List.Forall₂ SameParent trait.parents nested.parents
  abstract : nested.hasConcreteMembers = false
  methods : List.Forall₂ (SameMethod "F") trait.methods nested.methods

theorem legacy_filled (legacy : trait.isLegacyService .default = true) :
    trait.parents ≠ [] ∧ trait.methods ≠ [] ∧ trait.hasConcreteMembers = false ∧ Applied trait.methods := by
  unfold Interface.isLegacyService at legacy
  split at legacy
  · rename_i param single
    simp only [Bool.and_eq_true, Interface.isServiceBody, Bool.not_eq_true', List.all_eq_true, Interface.extendsNamed] at legacy
    obtain ⟨⟨-, marked⟩, ⟨filled, abstract⟩, applied⟩ := legacy
    refine ⟨?_, ?_, abstract, fun method member => ?_⟩
    · rintro none
      rw [none] at marked
      cases marked
    · rintro none
      rw [none] at filled
      cases filled
    · obtain ⟨result, returns, both⟩ := (Option.any_eq_true _ _).mp (applied method member)
      exact ⟨result, returns, (Bool.and_eq_true_iff.mp both).2⟩
  · cases legacy

theorem returnsApplied_of_same {effect : String} {methods methods' : List Method}
    (same : List.Forall₂ (SameMethod effect) methods methods') (applied : Applied methods) :
    methods'.all (fun method => method.returnsApplied effect) = true := by
  induction same with
  | nil => rfl
  | cons first _ ih =>
    obtain ⟨⟨result, returns, some⟩, applied⟩ := List.forall_mem_cons.mp applied
    obtain ⟨before, after, returned, returns', head, arg⟩ := first.result
    cases returns.symm.trans returned
    rw [List.all_cons, ih applied, Bool.and_true, Method.returnsApplied, returns', Option.any_some, head, arg, some]
    simp

/-- A trait that is lifted is a modern service. -/
theorem Lifts.isModernService {nested : Interface} (lifts : Lifts trait nested) (filled : trait.methods ≠ [])
    (applied : Applied trait.methods) : nested.isModernService = true := by
  obtain ⟨param, params, single⟩ := List.map_eq_singleton_iff.mp lifts.typeParams
  obtain ⟨name, kind⟩ := Prod.mk.inj single
  have filled' : nested.methods ≠ [] := by
    intro none
    have methods := lifts.methods
    rw [none] at methods
    exact filled (List.forall₂_nil_right_iff.mp methods)
  have body : nested.isServiceBody param.name = true := by
    rw [Interface.isServiceBody, name, returnsApplied_of_same lifts.methods applied, lifts.abstract]
    simpa using filled'
  rw [Interface.isModernService, Interface.singleTypeParam?, params]
  dsimp only
  rw [kind, body]
  rfl

/-- The tokens of the text that is generated for a legacy service are read as the service over
a type constructor, whatever comes behind them. -/
theorem nested_legacy_read {outline : Outline} (parsed : Outline.parse source = .ok outline)
    (listed : Decl.interface trait ∈ outline.decls) (legacy : trait.isLegacyService .default = true)
    (named : (trait.nameSpan.chars source).head? ≠ some '\x60' ∨ ∃ printed, Prints trait printed) :
    ∃ text keyword rest, Template.nestedInterface? source trait .default = some text ∧ Token.scan text.toList = .ok (keyword :: rest) ∧
      keyword.kind = .keyword .traitKw ∧ ∀ more stop, ∃ nested stop', interface text.toList ⟨keyword :: rest ++ more, stop⟩ =
        .ok (nested, ⟨more, stop'⟩) ∧ Lifts trait nested := by
  obtain ⟨all, scanned, readOff⟩ := parse_readOff parsed
  obtain ⟨extending, filled, abstract, applied⟩ := legacy_filled legacy
  obtain ⟨keyword, name, marker, tokens, rest, begun, extended, next, span, found, parted⟩ :=
    parted_of_readOff (readOff _ listed trait (List.mem_singleton_self _)) extending filled
  obtain ⟨brace, layout, closing, enclosed, again⟩ := traitBody_laid parted.sound parted.bodied abstract applied
  obtain ⟨high, placed⟩ := DeclPlacement.parse_placed parsed
  have line := InstancePlacement.resultHeads_eq (((placed.parts _ listed : DeclPlacement.InterfacePlaced source trait).body found
    (Option.mem_def.mpr parted.body)).2)
  obtain ⟨printed, prints⟩ : ∃ printed, Prints trait printed := by
    rcases named with bare | prints
    · rw [parted.nameSpan, chars_span parted.stands] at bare
      exact ⟨name, prints_bare scanned parted bare⟩
    · exact prints
  obtain ⟨clause, text, tokens', body', start, rendered, copied, carried, rebuilt, read⟩ :=
    nested_scanned scanned parted enclosed line prints
  refine ⟨text, _, _, rendered, read, rfl, fun more stop => ?_⟩
  have brought : Closes (closing :: next.rest) ([⟨.closer .brace, start, ['\x7d']⟩] ++ more) :=
    ⟨closing, next.rest, _, more, rfl, rfl, enclosed.closer, rfl, (enclosed.spelled parted.sound).2.symm⟩
  obtain ⟨parents', stop', parentsRead, parents⟩ := parents_again parted enclosed copied carried (body' ++ more)
  obtain ⟨methods', closing', ⟨behind, stopped⟩, bodyRead, ends, methods⟩ :=
    again text.toList "F" _ (body' ++ more) (openingBrace printed.lexeme clause) stop' rfl brought (rebuilt.behind more)
  obtain ⟨nested, nestedRead, called, typeParams, parentsEq, methodsEq, concrete⟩ :=
    interface_opening prints.named parentsRead (optionalTraitBody_run rfl bodyRead) stop
  obtain rfl : more = behind := (List.cons.inj ends).2
  have lifts : Lifts trait nested :=
    ⟨called.trans prints.text, typeParams, parentsEq ▸ parents, concrete, methodsEq ▸ methods⟩
  have whole : openingTokens printed ++ (tokens' ++ openingBrace printed.lexeme clause :: body') ++ more =
      openingTokens printed ++ (tokens' ++ openingBrace printed.lexeme clause :: (body' ++ more)) := by simp
  exact ⟨nested, stopped, whole ▸ nestedRead, lifts⟩

/-- The text that is generated for a legacy service parses to one trait, which is the service
over a type constructor. -/
theorem nested_legacy_parses {outline : Outline} (parsed : Outline.parse source = .ok outline)
    (listed : Decl.interface trait ∈ outline.decls) (legacy : trait.isLegacyService .default = true)
    (bare : (trait.nameSpan.chars source).head? ≠ some '\x60') :
    ∃ text nested outline', Template.nestedInterface? source trait .default = some text ∧
      Outline.parse text.toList = .ok outline' ∧ outline'.decls = [.interface nested] ∧ outline'.package = none ∧
      outline'.imports = [] ∧ Lifts trait nested ∧ nested.isModernService = true := by
  obtain ⟨-, filled, -, applied⟩ := legacy_filled legacy
  obtain ⟨text, keyword, rest, rendered, scanned, kind, reads⟩ := nested_legacy_read parsed listed legacy (.inl bare)
  obtain ⟨nested, stop, read, lifts⟩ := reads [] 0
  rw [List.append_nil] at read
  obtain ⟨outline', parsed', decls, package, imports⟩ := parse_alone scanned kind read
  exact ⟨text, nested, outline', rendered, parsed', decls, package, imports, lifts, lifts.isModernService filled applied⟩

/-- A legacy service with a comment, a self type and a qualified head. -/
def commentedService : String :=
  "trait A[Future] extends b.ThriftService[X] \x7b self =>\n  /* m */ def m[T](x: T = 1)(implicit t: C): c . Future[ T ] ;\n  \x7d"

/-- The service can be nested. -/
theorem commentedService_nests : ∃ outline trait, Outline.parse commentedService.toList = .ok outline ∧
    Decl.interface trait ∈ outline.decls ∧ ∃ text nested outline',
      Template.nestedInterface? commentedService.toList trait .default = some text ∧
      Outline.parse text.toList = .ok outline' ∧ outline'.decls = [.interface nested] ∧ outline'.package = none ∧
      outline'.imports = [] ∧ Lifts trait nested ∧ nested.isModernService = true := by
  have facts : (Outline.parse commentedService.toList).toOption.bind (fun outline => outline.decls.head?.bind fun decl =>
      decl.interface?.map fun trait => (trait.isLegacyService .default,
        decide ((trait.nameSpan.chars commentedService.toList).head? = some '\x60'))) = some (true, false) := by decide +kernel
  obtain ⟨outline, parsed, facts⟩ := Option.bind_eq_some_iff.mp facts
  obtain ⟨decl, first, facts⟩ := Option.bind_eq_some_iff.mp facts
  obtain ⟨trait, declares, facts⟩ := Option.map_eq_some_iff.mp facts
  obtain ⟨legacy, bare⟩ := Prod.mk.inj facts
  have listed : Decl.interface trait ∈ outline.decls := by
    cases decl <;> cases declares
    exact List.mem_of_mem_head? first
  replace parsed := Traversal.toOption_eq_some_iff.mp parsed
  exact ⟨outline, trait, parsed, listed, nested_legacy_parses parsed listed legacy (of_decide_eq_false bare)⟩

end KindLift.NestedTraits
