import KindLift.Proofs.IndentedTexts
import KindLift.Proofs.NestedTraits
import KindLift.Proofs.OutlineSpans
import KindLift.Proofs.SettledUnits

/-! What becomes of the tokens of a legacy service that is relocated. The text that is put
into its object has a new heading, and then the tokens of the parents and of the body as
they were, with one word in the place of each head of a result type. -/
namespace KindLift.RelocatedTokens
open Token Text TextBoundary TokenPlacement TokenCopies TriviaGaps CursorPlacement WrittenTokens
open BodyLayouts RebuiltBodies CoveredSpans TraitReading NestedTraits IndentedTexts
open DeclPlacement (headSpans)

variable {source : List Char} {all tokens front back : List Token} {token : Token} {span : Span} {heads earlier : List Span}
  {layout : Layout} {trait : Interface} {low : Nat}

/-! ### Tokens of a span -/

/-- The tokens inside of the span. -/
def within (span : Span) (tokens : List Token) : List Token :=
  tokens.filter fun token => span.start ≤ token.start && token.stop ≤ span.stop

/-- The tokens stand one behind the other. -/
structure Ordered (tokens : List Token) : Prop where
  apart : tokens.Pairwise fun a b => a.stop ≤ b.start
  wide : ∀ token ∈ tokens, token.start < token.stop

theorem ordered_of_scan (scanned : Token.scan source = .ok all) : Ordered all := by
  have ordered := scan_inOrder scanned
  exact ⟨(OutlineSpans.inOrder_disjoint ordered).imp And.right,
    fun token member => start_lt_stop (ReferencePlacement.inOrder_mem ordered token member).2⟩

theorem Ordered.sublist (ordered : Ordered all) (sub : tokens.Sublist all) : Ordered tokens :=
  ⟨ordered.apart.sublist sub, fun token member => ordered.wide token (sub.subset member)⟩

/-- Each token is the first one or stands behind it. -/
theorem Ordered.first_le {first : Token} (ordered : Ordered tokens) (leads : tokens.head? = some first) :
    ∀ token ∈ tokens, token = first ∨ first.stop ≤ token.start := by
  obtain ⟨others, rfl⟩ := List.head?_eq_some_iff.mp leads
  exact List.forall_mem_cons.mpr ⟨.inl rfl, fun token member => .inr (List.rel_of_pairwise_cons ordered.apart member)⟩

theorem Ordered.le_last {last : Token} (ordered : Ordered tokens) (ends : tokens.getLast? = some last) :
    ∀ token ∈ tokens, token = last ∨ token.stop ≤ last.start := by
  obtain ⟨others, rfl⟩ := List.getLast?_eq_some_iff.mp ends
  intro token member
  rcases List.mem_append.mp member with earlier | here
  · exact .inr ((List.pairwise_append.mp ordered.apart).2.2 token earlier last (List.mem_singleton_self last))
  · exact .inl (List.mem_singleton.mp here)

/-- The tokens that cover a span are inside of it. -/
theorem Covers.inside {ends : TokenKind → Prop} (covers : Covers ends tokens span) (ordered : Ordered tokens) :
    ∀ token ∈ tokens, span.start ≤ token.start ∧ token.stop ≤ span.stop := by
  obtain ⟨first, leads, starts⟩ := covers.first
  obtain ⟨last, closes, stops, -⟩ := covers.last
  intro token member
  have wide := ordered.wide first (List.mem_of_mem_head? leads)
  have wide' := ordered.wide last (List.mem_of_getLast? closes)
  constructor
  · rcases ordered.first_le leads token member with rfl | behind <;> omega
  · rcases ordered.le_last closes token member with rfl | before <;> omega

/-- The tokens that cover a span are all of the tokens inside of it. -/
theorem within_covered {ends : TokenKind → Prop} (covers : Covers ends tokens span) (ordered : Ordered all)
    (suffix : tokens ++ back <:+ all) : within span all = tokens := by
  obtain ⟨front, rfl⟩ := suffix
  obtain ⟨before, rest, behind⟩ := List.pairwise_append.mp ordered.apart
  obtain ⟨-, -, after⟩ := List.pairwise_append.mp rest
  obtain ⟨first, leads, starts⟩ := covers.first
  obtain ⟨last, closes, stops, -⟩ := covers.last
  have nothing : within span front = [] := by
    refine List.filter_eq_nil_iff.mpr fun token member => ?_
    have above := behind token member first (List.mem_append_left _ (List.mem_of_mem_head? leads))
    have wide := ordered.wide token (List.mem_append_left _ member)
    simp only [Bool.and_eq_true, decide_eq_true_eq]
    omega
  have nothing' : within span back = [] := by
    refine List.filter_eq_nil_iff.mpr fun token member => ?_
    have above := after last (List.mem_of_getLast? closes) token member
    have wide := ordered.wide token (List.mem_append_right _ (List.mem_append_right _ member))
    simp only [Bool.and_eq_true, decide_eq_true_eq]
    omega
  have inner : within span tokens = tokens := by
    refine List.filter_eq_self.mpr fun token member => ?_
    have inside := Covers.inside covers
      (ordered.sublist ((List.sublist_append_left ..).trans (List.sublist_append_right ..))) token member
    simpa using inside
  unfold within at *
  rw [List.filter_append, List.filter_append, nothing, nothing', inner, List.nil_append, List.append_nil]

/-! ### Heads -/

/-- What stands in the place of a token: the effect in the place of the first token of a
head, and nothing in the place of the others. -/
def relocate (heads : List Span) (token : Token) : List (TokenKind × List Char) :=
  if heads.any fun head => head.start = token.start then [(.ident, ['F'])]
  else if heads.any fun head => head.start ≤ token.start && token.stop ≤ head.stop then []
  else [spell token]

/-- The token is outside of the span. -/
def Beside (token : Token) (span : Span) : Prop := token.stop ≤ span.start ∨ span.stop ≤ token.start

theorem relocate_beside (wide : token.start < token.stop) (beside : ∀ head ∈ heads, head.start < head.stop ∧ Beside token head) :
    relocate heads token = [spell token] := by
  have apart : ∀ head ∈ heads, head.start ≠ token.start ∧ ¬ (head.start ≤ token.start ∧ token.stop ≤ head.stop) := by
    intro head member
    obtain ⟨wide', before | behind⟩ := beside head member <;> constructor <;> omega
  rw [relocate, if_neg, if_neg]
  · simpa using fun head member => (apart head member).2
  · simpa using fun head member => (apart head member).1

theorem flatMap_beside (ordered : Ordered tokens)
    (beside : ∀ head ∈ heads, head.start < head.stop ∧ ∀ token ∈ tokens, Beside token head) :
    tokens.flatMap (relocate heads) = tokens.map spell := by
  have each : ∀ token ∈ tokens, relocate heads token = [spell token] := fun token member =>
    relocate_beside (ordered.wide token member) fun head listed => ⟨(beside head listed).1, (beside head listed).2 token member⟩
  rw [List.flatMap_congr each]
  exact List.flatMap_pure_eq_map spell tokens

/-- The tokens of a head become one word. -/
theorem flatMap_head {before later : List Span} (spanned : HeadAt tokens span) (ordered : Ordered tokens)
    (beside : ∀ head ∈ before ++ later, head.start < head.stop ∧ ∀ token ∈ tokens, Beside token head) :
    tokens.flatMap (relocate (before ++ span :: later)) = [(.ident, ['F'])] := by
  obtain ⟨first, leads, starts⟩ := spanned.first
  have inside := Covers.inside spanned ordered
  have behind := ordered.first_le leads
  have wide := ordered.wide first (List.mem_of_mem_head? leads)
  obtain ⟨others, rfl⟩ := List.head?_eq_some_iff.mp leads
  have here : relocate (before ++ span :: later) first = [(.ident, ['F'])] := by
    rw [relocate, if_pos]
    simp [starts]
  have nothing : others.flatMap (relocate (before ++ span :: later)) = [] := by
    refine List.flatMap_eq_nil_iff.mpr fun token member => ?_
    have after : first.stop ≤ token.start := List.rel_of_pairwise_cons ordered.apart member
    have wide' := ordered.wide token (List.mem_cons_of_mem _ member)
    rw [relocate, if_neg, if_pos]
    · simp [inside token (List.mem_cons_of_mem _ member)]
    · rw [List.any_eq_true]
      rintro ⟨head, listed, same⟩
      rw [decide_eq_true_eq] at same
      rcases List.mem_append.mp listed with listed | listed
      · obtain ⟨wide'', apart⟩ := beside head (List.mem_append_left _ listed)
        rcases apart token (List.mem_cons_of_mem _ member) with apart | apart <;> omega
      rcases List.mem_cons.mp listed with rfl | listed
      · omega
      · obtain ⟨wide'', apart⟩ := beside head (List.mem_append_right _ listed)
        rcases apart token (List.mem_cons_of_mem _ member) with apart | apart <;> omega
  rw [List.flatMap_cons, here, nothing]
  rfl

/-- The tokens of a body with one word in the place of each head. -/
def spelled : Layout → List (TokenKind × List Char)
  | .last front => front.map spell
  | .method front colon _ rest => front.map spell ++ spell colon :: (.ident, ['F']) :: spelled rest

theorem carried_spelled {low low' size : Nat} {front front' : List Token} (carried : List.Forall₂ (Carried low low' size) front front') :
    front'.map spell = front.map spell := by
  induction carried with
  | nil => rfl
  | cons first _ ih => rw [List.map_cons, List.map_cons, ih, spell, spell, first.kind, first.lexeme]

theorem rebuilt_spelled {other : List Char} {ending' tokens' : List Token} (rebuilt : Rebuilt source other "F" ending' layout tokens') :
    tokens'.map spell = spelled layout ++ ending'.map spell := by
  induction rebuilt with
  | last copied carried => rw [List.map_append, carried_spelled carried, spelled]
  | method copied carried kind lexeme isWord text word later ih =>
    rw [List.map_append, List.map_cons, List.map_cons, carried_spelled carried, ih, spelled, spell, spell, spell, kind, lexeme, isWord, word]
    simp

/-- Each span begins and ends with some of the tokens. -/
theorem heads_inside (spanned : List.Forall₂ HeadAt layout.heads heads) :
    ∀ head ∈ heads, head.start < head.stop ∧ (∃ token ∈ layout.tokens, token.start = head.start) ∧
      ∃ token ∈ layout.tokens, token.stop = head.stop := by
  induction layout generalizing heads with
  | last front =>
    cases spanned
    exact List.forall_mem_nil _
  | method front colon head rest ih =>
    cases spanned with | @cons _ span _ heads first later => ?_
    have inside : ∀ token ∈ head ++ rest.tokens, token ∈ (Layout.method front colon head rest).tokens :=
      fun token member => List.mem_append_right _ (List.mem_cons_of_mem _ member)
    obtain ⟨token, leads, starts⟩ := first.first
    obtain ⟨last, closes, stops, -⟩ := first.last
    refine List.forall_mem_cons.mpr ⟨⟨first.width, ⟨token, ?_, starts⟩, last, ?_, stops⟩, fun other member => ?_⟩
    · exact inside token (List.mem_append_left _ (List.mem_of_mem_head? leads))
    · exact inside last (List.mem_append_left _ (List.mem_of_getLast? closes))
    obtain ⟨wide, ⟨token, listed, starts⟩, last, listed', stops⟩ := ih later other member
    exact ⟨wide, ⟨token, inside token (List.mem_append_right _ listed), starts⟩, last,
      inside last (List.mem_append_right _ listed'), stops⟩

/-- The tokens of a body with the heads relocated. -/
theorem relocate_layout (spanned : List.Forall₂ HeadAt layout.heads heads) (ordered : Ordered layout.tokens)
    (passed : ∀ head ∈ earlier, head.start < head.stop ∧ ∀ token ∈ layout.tokens, head.stop ≤ token.start) :
    layout.tokens.flatMap (relocate (earlier ++ heads)) = spelled layout := by
  induction layout generalizing heads earlier with
  | last front =>
    cases spanned
    refine flatMap_beside ordered fun head member => ?_
    rw [List.append_nil] at member
    exact ⟨(passed head member).1, fun token listed => .inr ((passed head member).2 token listed)⟩
  | method front colon head rest ih =>
    cases spanned with | @cons _ span _ heads first later => ?_
    have shape : (Layout.method front colon head rest).tokens = (front ++ [colon]) ++ (head ++ rest.tokens) := by
      simp [Layout.tokens]
    rw [shape] at ordered passed ⊢
    obtain ⟨-, behind, lead⟩ := List.pairwise_append.mp ordered.apart
    obtain ⟨-, -, between⟩ := List.pairwise_append.mp behind
    obtain ⟨begins, leads, starts⟩ := first.first
    obtain ⟨ends, closes, stops, -⟩ := first.last
    have begins' := List.mem_of_mem_head? leads
    have ends' := List.mem_of_getLast? closes
    have further := heads_inside later
    have front' : (front ++ [colon]).flatMap (relocate (earlier ++ span :: heads)) = (front ++ [colon]).map spell := by
      refine flatMap_beside (ordered.sublist (List.sublist_append_left ..)) fun other member => ?_
      rcases List.mem_append.mp member with member | member
      · exact ⟨(passed other member).1, fun token listed => .inr ((passed other member).2 token (List.mem_append_left _ listed))⟩
      rcases List.mem_cons.mp member with rfl | member
      · exact ⟨first.width, fun token listed => .inl (starts ▸ lead token listed begins (List.mem_append_left _ begins'))⟩
      · obtain ⟨wide, ⟨token', listed', starts'⟩, -⟩ := further other member
        exact ⟨wide, fun token listed => .inl (starts' ▸ lead token listed token' (List.mem_append_right _ listed'))⟩
    have head' : head.flatMap (relocate (earlier ++ span :: heads)) = [(.ident, ['F'])] := by
      refine flatMap_head first (ordered.sublist ((List.sublist_append_left ..).trans (List.sublist_append_right ..)))
        fun other member => ?_
      rcases List.mem_append.mp member with member | member
      · exact ⟨(passed other member).1, fun token listed =>
          .inr ((passed other member).2 token (List.mem_append_right _ (List.mem_append_left _ listed)))⟩
      · obtain ⟨wide, ⟨token', listed', starts'⟩, -⟩ := further other member
        exact ⟨wide, fun token listed => .inl (starts' ▸ between token listed token' listed')⟩
    have rest' : rest.tokens.flatMap (relocate (earlier ++ span :: heads)) = spelled rest := by
      rw [List.append_cons]
      refine ih later (ordered.sublist ((List.sublist_append_right ..).trans (List.sublist_append_right ..))) fun other member => ?_
      rcases List.mem_append.mp member with member | member
      · exact ⟨(passed other member).1, fun token listed =>
          (passed other member).2 token (List.mem_append_right _ (List.mem_append_right _ listed))⟩
      · rw [List.mem_singleton.mp member]
        exact ⟨first.width, fun token listed => stops ▸ between ends ends' token listed⟩
    rw [List.flatMap_append, front', List.flatMap_append, head', rest', spelled]
    simp

/-! ### The trait as a whole -/

/-- From the first parent to the last. -/
def parentsSpan (parents : List Parent) : Span :=
  ⟨(parents.head?.map fun parent => parent.span.start).getD 0, (parents.getLast?.map fun parent => parent.span.stop).getD 0⟩

/-- The tokens of a trait that is put into its object. -/
def relocated (all : List Token) (trait : Interface) : List (TokenKind × List Char) :=
  (.keyword .traitKw, "trait".toList) :: ((within trait.nameSpan all).map spell ++ ([(.opener .square, ['[']), (.ident, ['F']),
    (.opener .square, ['[']), (.underscore, ['_']), (.closer .square, [']']), (.closer .square, [']']),
    (.keyword .extendsKw, "extends".toList)] ++ ((within (parentsSpan trait.parents) all).map spell ++
    ((trait.body.map fun body => within body.span all).getD []).flatMap (relocate (headSpans trait.methods)))))

/-- The same with a name in the place of the name. -/
def relocatedAs (name : TokenKind × List Char) (all : List Token) (trait : Interface) : List (TokenKind × List Char) :=
  (.keyword .traitKw, "trait".toList) :: name :: ([(.opener .square, ['[']), (.ident, ['F']), (.opener .square, ['[']), (.underscore, ['_']),
    (.closer .square, [']']), (.closer .square, [']']), (.keyword .extendsKw, "extends".toList)] ++
    ((within (parentsSpan trait.parents) all).map spell ++
      ((trait.body.map fun body => within body.span all).getD []).flatMap (relocate (headSpans trait.methods))))

theorem relocated_eq {name : Token} (named : within trait.nameSpan all = [name]) : relocated all trait = relocatedAs (spell name) all trait := by
  rw [relocated, named]
  rfl

theorem openingTokens_spelled (name : Token) : (openingTokens name).map spell = (.keyword .traitKw, "trait".toList) ::
    (spell name :: [(.opener .square, ['[']), (.ident, ['F']), (.opener .square, ['[']), (.underscore, ['_']),
      (.closer .square, [']']), (.closer .square, [']']), (.keyword .extendsKw, "extends".toList)]) := rfl

variable {keyword name printed marker brace closing : Token} {rest : List Token} {begun extended next : Cursor} {found : Body}

/-- The body with its braces. -/
theorem relocate_body (enclosed : Enclosed extended next found brace closing layout trait.methods) (sound : Sound source extended)
    (ordered : Ordered (brace :: (layout.tokens ++ [closing]))) :
    (brace :: (layout.tokens ++ [closing])).flatMap (relocate (headSpans trait.methods)) =
      (.opener .brace, ['\x7b']) :: (spelled layout ++ [(.closer .brace, ['\x7d'])]) := by
  obtain ⟨opens, closes⟩ := enclosed.spelled sound
  obtain ⟨first, behind⟩ := List.pairwise_cons.mp ordered.apart
  obtain ⟨-, -, last⟩ := List.pairwise_append.mp behind
  have inside := heads_inside enclosed.heads
  have inner : layout.tokens.flatMap (relocate (headSpans trait.methods)) = spelled layout :=
    @relocate_layout _ [] _ enclosed.heads (ordered.sublist ((List.sublist_append_left ..).trans (List.sublist_cons_self ..)))
      (List.forall_mem_nil _)
  have opening : relocate (headSpans trait.methods) brace = [spell brace] := by
    refine relocate_beside (ordered.wide brace (List.mem_cons_self ..)) fun head member => ?_
    obtain ⟨wide, ⟨token, listed, starts⟩, -⟩ := inside head member
    exact ⟨wide, .inl (starts ▸ first token (List.mem_append_left _ listed))⟩
  have ending : relocate (headSpans trait.methods) closing = [spell closing] := by
    refine relocate_beside (ordered.wide closing (by simp)) fun head member => ?_
    obtain ⟨wide, -, token, listed, stops⟩ := inside head member
    exact ⟨wide, .inr (stops ▸ last token listed closing (List.mem_singleton_self _))⟩
  rw [List.flatMap_cons, List.flatMap_append, List.flatMap_singleton, opening, inner, ending, spell, spell, enclosed.kind,
    enclosed.closer, opens, closes]
  rfl

/-- The name is one token. -/
theorem within_name (scanned : Token.scan source = .ok all)
    (parted : Parted source all trait keyword name marker tokens rest begun extended next span found) : within trait.nameSpan all = [name] := by
  have covers : Covers (fun _ => True) [name] trait.nameSpan := by
    rw [parted.nameSpan]
    exact ⟨⟨name, rfl, rfl⟩, ⟨name, rfl, rfl, trivial⟩, start_lt_stop parted.stands⟩
  exact within_covered covers (ordered_of_scan scanned) ((List.suffix_cons ..).trans parted.heads)

/-- The text that is generated for a trait is read as the tokens of the trait, with the name
as it is printed. -/
theorem nested_spelled (scanned : Token.scan source = .ok all)
    (parted : Parted source all trait keyword name marker tokens rest begun extended next span found)
    (enclosed : Enclosed extended next found brace closing layout trait.methods)
    (line : Template.resultHeads trait.methods = headSpans trait.methods) (prints : Prints trait printed) :
    ∃ text tokens, Template.nestedInterface? source trait .default = some text ∧ Token.scan text.toList = .ok tokens ∧
      tokens.map spell = relocatedAs (spell printed) all trait := by
  obtain ⟨clause, text, tokens', body', start, rendered, -, carried, rebuilt, read⟩ := nested_scanned scanned parted enclosed line prints
  refine ⟨text, _, rendered, read, ?_⟩
  have ordered := ordered_of_scan scanned
  have extending : within (parentsSpan trait.parents) all = tokens := by
    obtain ⟨⟨first, leads, starts⟩, last, ends, stops⟩ := parted.spans
    have same : parentsSpan trait.parents = span := by
      rw [parentsSpan, leads, ends, Option.map_some, Option.map_some, Option.getD_some, Option.getD_some, starts, stops]
    rw [same]
    exact within_covered parted.covers ordered ((List.suffix_cons ..).trans parted.marked)
  have suffix : (brace :: (layout.tokens ++ [closing])) ++ next.rest <:+ all := by
    have behind := ((List.suffix_append ..).trans (List.suffix_cons ..)).trans parted.marked
    rw [enclosed.shape] at behind
    simpa using behind
  have ordered' : Ordered (brace :: (layout.tokens ++ [closing])) :=
    ordered.sublist ((List.sublist_append_left ..).trans suffix.sublist)
  have bodied : within found.span all = brace :: (layout.tokens ++ [closing]) := by
    have last := took_middle parted.sound (show extended.rest = (brace :: layout.tokens) ++ closing :: next.rest from enclosed.shape)
    have stop : closing.stop = found.closeBrace + 1 := by rw [closer_stop last.stands enclosed.closer, enclosed.stop]
    have behind := List.rel_of_pairwise_cons ordered'.apart (List.mem_append_right _ (List.mem_singleton_self closing))
    have opens := ordered'.wide brace (List.mem_cons_self ..)
    have covers : Covers (fun _ => True) (brace :: (layout.tokens ++ [closing])) found.span := by
      refine ⟨⟨brace, rfl, enclosed.start⟩, ⟨closing, by simp [List.getLast?_cons], stop, trivial⟩, ?_⟩
      rw [Body.span, ← enclosed.start, ← stop]
      have closes := start_lt_stop last.stands
      show brace.start < closing.stop
      omega
    exact within_covered covers ordered suffix
  rw [relocatedAs, extending, parted.body, Option.map_some, Option.getD_some, bodied,
    relocate_body enclosed parted.sound ordered', List.map_append, List.map_append, List.map_cons, openingTokens_spelled,
    carried_spelled carried, rebuilt_spelled rebuilt]
  rfl

/-- The text that is generated for a legacy service is read as the tokens of the service, with
the name as it is printed. That is the name itself, if it is not written in back quotes. -/
theorem legacy_printed {outline : Outline} (parsed : Outline.parse source = .ok outline)
    (listed : Decl.interface trait ∈ outline.decls) (legacy : trait.isLegacyService .default = true)
    (named : (trait.nameSpan.chars source).head? ≠ some '\x60' ∨ ∃ printed, Prints trait printed) :
    ∃ all text tokens printed, Token.scan source = .ok all ∧ Template.nestedInterface? source trait .default = some text ∧
      Token.scan text.toList = .ok tokens ∧ Prints trait printed ∧ tokens.map spell = relocatedAs (spell printed) all trait ∧
      ∃ name, relocated all trait = relocatedAs (spell name) all trait ∧
        ((trait.nameSpan.chars source).head? ≠ some '\x60' → printed = name) := by
  obtain ⟨all, scanned, readOff⟩ := parse_readOff parsed
  obtain ⟨extending, filled, abstract, applied⟩ := legacy_filled legacy
  obtain ⟨keyword, name, marker, tokens, rest, begun, extended, next, span, found, parted⟩ :=
    parted_of_readOff (readOff _ listed trait (List.mem_singleton_self _)) extending filled
  obtain ⟨brace, layout, closing, enclosed, -⟩ := traitBody_laid parted.sound parted.bodied abstract applied
  obtain ⟨high, placed⟩ := DeclPlacement.parse_placed parsed
  have line := InstancePlacement.resultHeads_eq (((placed.parts _ listed : DeclPlacement.InterfacePlaced source trait).body found
    (Option.mem_def.mpr parted.body)).2)
  have same := relocated_eq (within_name scanned parted)
  rw [parted.nameSpan, chars_span parted.stands] at named ⊢
  obtain ⟨printed, prints, itself⟩ : ∃ printed, Prints trait printed ∧ (name.lexeme.head? ≠ some '\x60' → printed = name) := by
    by_cases bare : name.lexeme.head? = some '\x60'
    · obtain ⟨printed, prints⟩ := named.resolve_left (not_not_intro bare)
      exact ⟨printed, prints, fun plain => absurd bare plain⟩
    · exact ⟨name, prints_bare scanned parted bare, fun _ => rfl⟩
  obtain ⟨text, tokens', rendered, read, spelled⟩ := nested_spelled scanned parted enclosed line prints
  exact ⟨all, text, tokens', printed, scanned, rendered, read, prints, spelled, name, same, itself⟩

theorem legacy_spelled {outline : Outline} (parsed : Outline.parse source = .ok outline)
    (listed : Decl.interface trait ∈ outline.decls) (legacy : trait.isLegacyService .default = true)
    (bare : (trait.nameSpan.chars source).head? ≠ some '\x60') :
    ∃ all text tokens, Token.scan source = .ok all ∧ Template.nestedInterface? source trait .default = some text ∧
      Token.scan text.toList = .ok tokens ∧ tokens.map spell = relocated all trait := by
  obtain ⟨all, text, tokens, printed, scanned, rendered, read, -, spelled, name, same, itself⟩ := legacy_printed parsed listed legacy (.inl bare)
  exact ⟨all, text, tokens, scanned, rendered, read, by rw [spelled, same, itself bare]⟩

/-! ### The edit -/

variable {conventions : Conventions} {entries : List String} {nested : String} {edit : Edit} {edits : List Edit}

/-- The text stands in the other one, moved in. -/
def Places (nested indent text : String) : Prop := ∃ front back, text = front ++ Template.indentBlock nested indent ++ back

/-- How far what is put into the object of a service is moved in: as its members are, or as
those of the object that is made for it. -/
def entryIndent? (source : List Char) (service : Service) : Option String :=
  match service.holder with
  | some (_, holder) => (Template.lineIndent? source holder.span.start).bind fun holderIndent =>
      AddInstances.memberIndent? source holderIndent holder.members
  | none => (Template.lineIndent? source service.interface.span.start).map (· ++ "  ")

theorem isSpace_lineIndent {indent : String} {offset : Nat} (found : Template.lineIndent? source offset = some indent) :
    IsSpace indent.toList := by
  simp only [Template.lineIndent?, Option.bind_eq_bind, Option.bind_eq_some_iff, Option.pure_def, Option.some.injEq] at found
  obtain ⟨left, -, right, -, rfl⟩ := found
  rw [String.toList_ofList]
  intro c member
  have blank := List.mem_takeWhile_imp member
  simp only [Bool.or_eq_true, decide_eq_true_eq] at blank
  rcases blank with rfl | rfl <;> rfl

theorem isSpace_deeper {indent : String} (space : IsSpace indent.toList) : IsSpace (indent ++ "  ").toList := by
  rw [String.toList_append]
  exact List.forall_mem_append.mpr ⟨space, List.all_eq_true.mp (show "  ".toList.all isWhiteSpace = true from rfl)⟩

theorem isSpace_memberIndent {holderIndent indent : String} {members : List Member} (space : IsSpace holderIndent.toList)
    (found : AddInstances.memberIndent? source holderIndent members = some indent) : IsSpace indent.toList := by
  cases members with
  | nil =>
    cases found
    exact isSpace_deeper space
  | cons first rest => exact isSpace_lineIndent found

/-- The first entry comes first. -/
theorem renderEntries_cons (nested : String) (entries : List String) (indent : String) :
    ∃ more, AddInstances.renderEntries (nested :: entries) indent = Template.indentBlock nested indent ++ more := by
  cases entries with
  | nil => exact ⟨"", by simp [AddInstances.renderEntries]⟩
  | cons next entries =>
    refine ⟨"\n\n" ++ AddInstances.renderEntries (next :: entries) indent, ?_⟩
    rw [AddInstances.renderEntries, List.map_cons, List.map_cons, String.intercalate_cons_cons, String.append_assoc]
    rfl

theorem newHolder?_places {created : String} (made : AddInstances.newHolder? source trait (nested :: entries) = some created) :
    ∃ indent, Template.lineIndent? source trait.span.start = some indent ∧ Places nested (indent ++ "  ") created := by
  obtain ⟨indent, found, same⟩ := Option.bind_eq_some_iff.mp made
  cases same
  obtain ⟨more, rendered⟩ := renderEntries_cons nested entries (indent ++ "  ")
  refine ⟨indent, found, indent ++ "object " ++ trait.name ++ " \x7b\n", more ++ ("\n" ++ indent ++ "\x7d"), ?_⟩
  simp only [rendered, String.append_assoc]

theorem extendHolder?_places {holder : Holder} (made : AddInstances.extendHolder? source holder (nested :: entries) = some edit) :
    ∃ holderIndent indent, Template.lineIndent? source holder.span.start = some holderIndent ∧
      AddInstances.memberIndent? source holderIndent holder.members = some indent ∧ Places nested indent edit.replacement := by
  obtain ⟨holderIndent, found, made⟩ := Option.bind_eq_some_iff.mp made
  obtain ⟨indent, found', made⟩ := Option.bind_eq_some_iff.mp made
  refine ⟨holderIndent, indent, found, found', ?_⟩
  obtain ⟨more, rendered⟩ := renderEntries_cons nested entries indent
  rw [rendered] at made
  cases shape : holder.body with
  | none =>
    rw [shape] at made
    cases made
    refine ⟨" \x7b\n", more ++ ("\n" ++ holderIndent ++ "\x7d"), ?_⟩
    simp only [Edit.insertion, String.append_assoc]
  | some body =>
    rw [shape] at made
    obtain ⟨left, -, made⟩ := Option.bind_eq_some_iff.mp made
    dsimp only at made
    split at made
    · obtain ⟨inner, -, made⟩ := Option.bind_eq_some_iff.mp made
      cases made
      refine ⟨if isBlank inner then "" else "\n", more ++ "\n", ?_⟩
      simp only [Edit.insertion, String.append_assoc]
    · cases made
      refine ⟨"\n", more ++ ("\n" ++ holderIndent), ?_⟩
      simp only [Edit.insertion, String.append_assoc]

theorem replace?_replacement {start stop : Nat} {replacement : String} (made : Edit.replace? start stop replacement = some edit) :
    edit.replacement = replacement := by
  rw [Edit.replace?] at made
  split at made <;> cases made
  rfl

/-- A legacy service is put into its object. -/
theorem plan?_places {service : Service} {plan : AddInstances.Plan} (legacy : service.shape = .legacy)
    (planned : AddInstances.plan? source conventions service = some plan) :
    plan.service = service ∧ ∃ nested, Template.nestedInterface? source service.interface conventions = some nested ∧
      ∃ indent, entryIndent? source service = some indent ∧ ∃ edit ∈ plan.edits, Places nested indent edit.replacement := by
  have relocates : ((Phase.ofService service).advance).relocates = true := by
    rw [Phase.ofService, legacy]
    rfl
  obtain ⟨relocated, found, planned⟩ := Option.bind_eq_some_iff.mp planned
  obtain ⟨edits, made, same⟩ := Option.bind_eq_some_iff.mp planned
  cases same
  rw [AddInstances.relocatedEntry?, if_pos relocates, Option.map_eq_some_iff] at found
  obtain ⟨nested, rendered, rfl⟩ := found
  refine ⟨rfl, nested, rendered, ?_⟩
  simp only [AddInstances.edits?, if_pos relocates] at made
  cases shape : service.holder with
  | none =>
    simp only [shape] at made
    obtain ⟨created, holder, made⟩ := Option.bind_eq_some_iff.mp made
    obtain ⟨edit, replaced, same⟩ := Option.bind_eq_some_iff.mp made
    cases same
    obtain ⟨indent, found, front, back, rfl⟩ := newHolder?_places holder
    refine ⟨indent ++ "  ", by rw [entryIndent?, shape, found]; rfl, edit, List.mem_singleton_self _,
      AddInstances.aliasText conventions service.interface.name ++ "\n\n" ++ front, back, ?_⟩
    simp only [replace?_replacement replaced, String.append_assoc]
  | some holder =>
    simp only [shape] at made
    obtain ⟨replaced, -, made⟩ := Option.bind_eq_some_iff.mp made
    obtain ⟨extended, adds, same⟩ := Option.bind_eq_some_iff.mp made
    cases same
    obtain ⟨holderIndent, indent, found, found', places⟩ := extendHolder?_places adds
    refine ⟨indent, ?_, extended, by simp, places⟩
    rw [entryIndent?, shape]
    dsimp only
    rw [found]
    exact found'

/-- The unit with its text, and the plan for the service at an interface. -/
theorem legacy_planned {index : Index} {id : UnitId} {text : String} {outline : Outline} {plans : List AddInstances.Plan}
    (planned : AddInstances.plans conventions (.load index id text) = .ok plans)
    (parsed : Outline.parse text.toList = .ok outline) (listed : Decl.interface trait ∈ outline.decls)
    (legacy : trait.isLegacyService conventions = true) :
    ∃ plan ∈ plans, plan.service.interface = trait ∧ ∃ nested,
      Template.nestedInterface? text.toList trait conventions = some nested ∧ ∃ indent, entryIndent? text.toList plan.service = some indent ∧
        ∃ edit ∈ plan.edits, Places nested indent edit.replacement := by
  obtain ⟨services, found, each⟩ := SettledUnits.plans_eq_ok planned
  obtain ⟨legacies, foundLegacy, rest⟩ := Traversal.bind_eq_ok_iff.mp found
  obtain ⟨modern, -, same⟩ := Traversal.bind_eq_ok_iff.mp rest
  cases same
  have member : trait ∈ SettledUnits.interfacesOf outline := List.mem_filterMap.mpr ⟨_, listed, rfl⟩
  rw [← @SettledUnits.load_outline index id _ _ parsed, ← SettledUnits.interfaces_snd] at member
  obtain ⟨place, stands, rfl⟩ := List.mem_map.mp member
  obtain ⟨service, among, identified, shaped⟩ := SettledUnits.findShape_mem foundLegacy stands legacy
  obtain ⟨plan, made, planned⟩ := each service (List.mem_append_left _ among)
  have safe := @ServiceMatching.identify_safely _ .legacy _ stands
  rw [identified] at safe
  have itself : service.interface = place.2 := congrArg Prod.snd safe.2
  rw [RuleSafety.load_text] at planned
  obtain ⟨of, nested, rendered, placed⟩ := plan?_places shaped planned
  exact ⟨plan, made, of ▸ itself, nested, itself ▸ rendered, of ▸ placed⟩

theorem isSpace_entryIndent {service : Service} {indent : String} (found : entryIndent? source service = some indent) : IsSpace indent.toList := by
  unfold entryIndent? at found
  split at found
  · obtain ⟨holderIndent, begins, found⟩ := Option.bind_eq_some_iff.mp found
    exact isSpace_memberIndent (isSpace_lineIndent begins) found
  · obtain ⟨outer, begins, rfl⟩ := Option.map_eq_some_iff.mp found
    exact isSpace_deeper (isSpace_lineIndent begins)

/-- No line of the text is of blanks alone. -/
def Trim (text : String) : Prop := ∀ line ∈ splitOn '\n' text.toList, isBlank line = true → line = []

/-- Nothing is moved in where the members begin their lines. -/
theorem indentBlock_empty (trim : Trim nested) : Template.indentBlock nested "" = nested := by
  have same : (splitOn '\n' nested.toList).map (fun line => if isBlank line then [] else [] ++ line) = splitOn '\n' nested.toList := by
    refine List.map_congr_left (fun line listed => ?_) |>.trans (List.map_id _)
    split
    · rename_i blank
      exact (trim line listed blank).symm
    · rfl
  have whole : Template.indentLines [] nested.toList = nested.toList := (congrArg (joinWith '\n') same).trans (joinWith_splitOn _)
  exact (congrArg String.ofList whole).trans String.ofList_toList

/-- What is put into the object for a legacy service is read as the tokens of the service. It
is moved in as the members of the object are, and it is still read so, if none of its tokens
goes over the end of a line, or if there is nothing to move it in by. -/
theorem relocated_tokens (index : Index) (id : UnitId) (text : String) (plans : List AddInstances.Plan) (outline : Outline)
    (planned : AddInstances.plans .default (.load index id text) = .ok plans)
    (parsed : Outline.parse text.toList = .ok outline) (trait : Interface) (listed : Decl.interface trait ∈ outline.decls)
    (legacy : trait.isLegacyService .default = true) (bare : (trait.nameSpan.chars text.toList).head? ≠ some '\x60') :
    ∃ all nested, Token.scan text.toList = .ok all ∧ Template.nestedInterface? text.toList trait .default = some nested ∧
      (∃ tokens, Token.scan nested.toList = .ok tokens ∧ tokens.map spell = relocated all trait) ∧
      ∃ plan ∈ plans, plan.service.interface = trait ∧ ∃ indent, entryIndent? text.toList plan.service = some indent ∧
        IsSpace indent.toList ∧ ∃ edit ∈ plan.edits, ∃ front back,
        edit.replacement = front ++ Template.indentBlock nested indent ++ back ∧
        (Inline (relocated all trait) ∨ indent = "" ∧ Trim nested →
          ∃ tokens, Token.scan (Template.indentBlock nested indent).toList = .ok tokens ∧ tokens.map spell = relocated all trait) := by
  obtain ⟨all, nested, tokens, scanned, rendered, read, same⟩ := legacy_spelled parsed listed legacy bare
  obtain ⟨plan, made, stands, nested', rendered', indent, found, edit, among, front, back, replaces⟩ := legacy_planned planned parsed listed legacy
  obtain rfl : nested' = nested := Option.some.inj (rendered'.symm.trans rendered)
  refine ⟨all, nested', scanned, rendered, ⟨tokens, read, same⟩, plan, made, stands, indent, found, isSpace_entryIndent found, edit, among, front, back,
    replaces, ?_⟩
  rintro (inline | ⟨rfl, trim⟩)
  · obtain ⟨tokens', read', same'⟩ := scan_indentLines (isSpace_entryIndent found) read (same ▸ inline)
    refine ⟨tokens', ?_, same'.trans same⟩
    rw [Template.indentBlock, String.toList_ofList]
    exact read'
  · rw [indentBlock_empty trim]
    exact ⟨tokens, read, same⟩

/-- The commented service is relocated, and none of its tokens goes over the end of a line. -/
theorem commentedService_relocated : ∃ plans outline trait,
    AddInstances.plans .default (.load .empty "A" commentedService) = .ok plans ∧
    Outline.parse commentedService.toList = .ok outline ∧ Decl.interface trait ∈ outline.decls ∧
    ∃ all nested, Token.scan commentedService.toList = .ok all ∧
      Template.nestedInterface? commentedService.toList trait .default = some nested ∧ Inline (relocated all trait) ∧
      (∃ tokens, Token.scan nested.toList = .ok tokens ∧ tokens.map spell = relocated all trait) ∧
      ∃ plan ∈ plans, plan.service.interface = trait ∧ ∃ indent, entryIndent? commentedService.toList plan.service = some indent ∧
        ∃ edit ∈ plan.edits, ∃ front back, edit.replacement = front ++ Template.indentBlock nested indent ++ back ∧
        ∃ tokens, Token.scan (Template.indentBlock nested indent).toList = .ok tokens ∧ tokens.map spell = relocated all trait := by
  have settled : (AddInstances.plans .default (.load .empty "A" commentedService)).toOption.isSome = true := by decide +kernel
  have facts : (Outline.parse commentedService.toList).toOption.bind (fun outline => outline.decls.head?.bind fun decl =>
      decl.interface?.bind fun trait => (Token.scan commentedService.toList).toOption.map fun all =>
        (trait.isLegacyService .default, decide ((trait.nameSpan.chars commentedService.toList).head? = some '\x60'),
          (relocated all trait).all fun piece => !piece.2.contains '\n')) = some (true, false, true) := by decide +kernel
  obtain ⟨plans, planned⟩ := Option.isSome_iff_exists.mp settled
  replace planned := Traversal.toOption_eq_some_iff.mp planned
  obtain ⟨outline, parsed, facts⟩ := Option.bind_eq_some_iff.mp facts
  obtain ⟨decl, first, facts⟩ := Option.bind_eq_some_iff.mp facts
  obtain ⟨trait, declares, facts⟩ := Option.bind_eq_some_iff.mp facts
  obtain ⟨all, scanned, facts⟩ := Option.map_eq_some_iff.mp facts
  obtain ⟨legacy, facts⟩ := Prod.mk.inj facts
  obtain ⟨bare, lines⟩ := Prod.mk.inj facts
  have listed : Decl.interface trait ∈ outline.decls := by
    cases decl <;> cases declares
    exact List.mem_of_mem_head? first
  have inline : Inline (relocated all trait) := by simpa [Inline] using lines
  replace parsed := Traversal.toOption_eq_some_iff.mp parsed
  replace scanned := Traversal.toOption_eq_some_iff.mp scanned
  obtain ⟨all', nested, scanned', rendered, read, plan, made, stands, indent, found, -, edit, among, front, back, replaces, moved⟩ :=
    relocated_tokens .empty "A" commentedService plans outline planned parsed trait listed legacy (of_decide_eq_false bare)
  obtain rfl : all' = all := Except.ok.inj (scanned'.symm.trans scanned)
  exact ⟨plans, outline, trait, planned, parsed, listed, all', nested, scanned, rendered, inline, read, plan, made, stands, indent, found,
    edit, among, front, back, replaces, moved (.inl inline)⟩

end KindLift.RelocatedTokens
