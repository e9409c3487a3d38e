import KindLift.Proofs.InsertedTexts

/-! Entries of an object as texts. One statement is an entry of the members that it declares,
and entries behind one another are entries of all their members. Where no token goes over the
end of a line, they are so however far their lines are moved in. -/
namespace KindLift.EntryTexts
open KindLift.Parser AddInstances Token Text TokenPlacement ParserLogic ParserProgress ParserSimulation TokenReaders TriviaGaps ScannedPieces SeamLogic SeamBodies
open GrownDecls GrownObjects InsertedTexts TypeTokens QualifiedTokens BracketBalance
open WrittenGroups (endsStatement)
open IndentedTexts (spell IsIndent Inline)

variable {source : List Char} {first closing : Token} {tokens rest : List Token} {members seen : HolderMembers} {names names' : List String}
  {entries entries' : List String} {words words' : List Word} {stop stop' : Nat} {text indent : String} {left next : Cursor}

/-! ### Entries as tokens -/

/-- A keyword begins a statement and does not end a body. -/
theorem closeBody?_keyword {word : Keyword} (head : left.rest.head?.map Token.kind = some (.keyword word)) (openBrace : Nat) :
    closeBody? openBrace source left = .ok (none, left) := by
  obtain ⟨token, first, kind⟩ := Option.map_eq_some_iff.mp head
  rw [closeBody?, bind_ok (eatAll_stays (by rw [head]; simp)), bind_ok (peek?_at first)]
  dsimp only
  rw [if_neg (by simp [kind])]
  rfl

/-- A statement in braces is a body. -/
theorem holderBody_single {word : Keyword} {opening : Token} (kind : first.kind = .keyword word) (opens : opening.kind = .opener .brace)
    (closes : closing.kind = .closer .brace)
    (read : memberStatement ⟨[], []⟩ source ⟨first :: tokens ++ [closing], opening.stop⟩ = .ok (members, ⟨[closing], stop'⟩)) :
    ∃ body, holderBody source ⟨opening :: (first :: tokens ++ [closing]), stop⟩ = .ok ((members, body), ⟨[], closing.stop⟩) := by
  have head : (first :: tokens ++ [closing]).head?.map Token.kind = some (.keyword word) := congrArg some kind
  have step : memberStep opening.start ⟨[], []⟩ source ⟨first :: tokens ++ [closing], opening.stop⟩ = .ok (.again members, ⟨[closing], stop'⟩) := by
    rw [memberStep, bodyStep, bind_ok (closeBody?_keyword head _)]
    exact (bind_ok read).trans rfl
  have last : memberStep opening.start members source ⟨[closing], stop'⟩ = .ok (.done (members, ⟨opening.start, closing.start⟩), ⟨[], closing.stop⟩) := by
    rw [memberStep, bodyStep, bind_ok (closeBody?_closes (eatAll_stays (by simp [closes])) closes)]
    rfl
  refine ⟨⟨opening.start, closing.start⟩, ?_⟩
  rw [holderBody_steps, bind_ok (openBody_run opens (skipSelfType_stays (selfType?_keyword head)))]
  exact (iterateFrom_again step (by simp [Shorter])).trans (iterateFrom_done last)

/-- The brace that ends an object. -/
def lastBrace : Token := ⟨.closer .brace, 0, ['\x7d']⟩

/-- A statement is an entry. -/
theorem entries_single (source : List Char) (kind : first.kind = .keyword .implicitKw ∨ first.kind = .keyword .traitKw)
    (read : ∀ stop, ∃ members stop', memberStatement ⟨[], []⟩ source ⟨first :: tokens ++ [lastBrace], stop⟩ = .ok (members, ⟨[lastBrace], stop'⟩) ∧
      memberNames members = names) :
    Entries names ((first :: tokens).map spell) := by
  let opening : Token := ⟨.opener .brace, 0, ['\x7b']⟩
  obtain ⟨members, stop', read, named⟩ := read opening.stop
  refine ⟨kind.imp (congrArg some) (congrArg some), source, opening, first :: tokens, lastBrace, 0, members, ?_⟩
  obtain ⟨word, kind⟩ : ∃ word, first.kind = .keyword word := kind.elim (fun kind => ⟨_, kind⟩) fun kind => ⟨_, kind⟩
  obtain ⟨body, ran⟩ : ∃ body, holderBody source ⟨opening :: (first :: tokens ++ [lastBrace]), 0⟩ = .ok ((members, body), ⟨[], lastBrace.stop⟩) :=
    holderBody_single kind rfl rfl read
  exact ⟨body, _, rfl, rfl, rfl, ran, named⟩

/-- The rest of a statement is read up to the brace behind it. -/
theorem skipRest_run (items : Items endsStatement tokens) (ends : closing.kind = .closer .brace) (rest : List Token) (stop : Nat) :
    ∃ stop', skipRest source ⟨tokens ++ closing :: rest, stop⟩ = .ok ((), ⟨closing :: rest, stop'⟩) := by
  unfold skipRest
  induction items generalizing stop with
  | nil =>
    refine ⟨stop, iterateFrom_done ?_⟩
    have peeked : peekKind? source ⟨closing :: rest, stop⟩ = .ok (some (.closer .brace), ⟨closing :: rest, stop⟩) := by
      rw [← ends]
      rfl
    exact (bind_ok peeked).trans rfl
  | @plain tokens token single goes _ ih =>
    obtain ⟨stop', ran⟩ := ih token.stop
    refine ⟨stop', (iterateFrom_again ?_ (Nat.lt_succ_self _)).trans ran⟩
    have peeked : peekKind? source ⟨token :: tokens ++ closing :: rest, stop⟩ =
      .ok (some token.kind, ⟨token :: tokens ++ closing :: rest, stop⟩) := rfl
    refine (bind_ok peeked).trans ?_
    cases kind : token.kind with
    | opener bracket => exact absurd kind (single.1 bracket)
    | closer bracket => exact absurd kind (single.2 bracket)
    | keyword word =>
      rw [kind] at goes
      show (if word.startsStatement then _ else _ : Parser (Step Unit Unit)) source _ = _
      rw [show word.startsStatement = false from goes, if_neg Bool.false_ne_true]
      rfl
    | semi => rw [kind] at goes; cases goes
    | atSign => rw [kind] at goes; cases goes
    | _ => rfl
  | @group inside behind opening closing' bracket opens goes inner closes _ ih =>
    obtain ⟨stop', ran⟩ := ih closing'.stop
    have shape : opening :: (inside ++ closing' :: behind) ++ closing :: rest = opening :: (inside ++ closing' :: (behind ++ closing :: rest)) := by simp
    rw [shape]
    refine ⟨stop', (iterateFrom_again ?_ (by simp [Shorter]; omega)).trans ran⟩
    have peeked : peekKind? source ⟨opening :: (inside ++ closing' :: (behind ++ closing :: rest)), stop⟩ =
        .ok (some (.opener bracket), ⟨opening :: (inside ++ closing' :: (behind ++ closing :: rest)), stop⟩) := by
      rw [← opens]
      rfl
    refine (bind_ok peeked).trans ?_
    exact (bind_ok (skipGroup_run opens inner closes _ _)).trans rfl

/-- An implicit definition is a member of its name. -/
theorem entries_definition {definition name : Token} {word : Keyword} (marked : first.kind = .keyword .implicitKw)
    (defines : definition.kind = .keyword word) (known : word = .defKw ∨ word = .valKw) (named : name.kind = .ident)
    (items : Items endsStatement tokens) : Entries [name.text] ((first :: definition :: name :: tokens).map spell) := by
  refine entries_single [] (.inl marked) fun stop => ?_
  let behind : List Token := name :: (tokens ++ [lastBrace])
  obtain ⟨start, here⟩ := memberStatement_at ⟨[], []⟩ [] ⟨first :: definition :: behind, stop⟩
  obtain ⟨stop', skipped⟩ := @skipRest_run [] lastBrace tokens items rfl [] name.stop
  have step : modifierStep ⟨false, false⟩ [] ⟨first :: definition :: behind, stop⟩ = .ok (.again ⟨true, false⟩, ⟨definition :: behind, first.stop⟩) := by
    rw [modifierStep, bind_ok (peek?_at rfl)]
    dsimp only
    rw [marked]
    rfl
  have bare : iterateFrom modifierStep ⟨true, false⟩ [] ⟨definition :: behind, first.stop⟩ = .ok (⟨true, false⟩, ⟨definition :: behind, first.stop⟩) :=
    @WrittenTraits.reads_modifiers_bare [] first.stop behind definition (by rw [defines]; rcases known with rfl | rfl <;> rfl) ⟨true, false⟩
  have marks : modifiers [] ⟨first :: definition :: behind, stop⟩ = .ok (⟨true, false⟩, ⟨definition :: behind, first.stop⟩) :=
    (iterateFrom_again step (Nat.lt_succ_self _)).trans bare
  have peeked : peekKind? [] ⟨definition :: behind, first.stop⟩ = .ok (some (.keyword word), ⟨definition :: behind, first.stop⟩) := by
    rw [← defines]
    rfl
  have read : namedStatement [] ⟨definition :: behind, first.stop⟩ = .ok (some name, ⟨[lastBrace], stop'⟩) := by
    have given : name? [] ⟨behind, definition.stop⟩ = .ok (some name, ⟨tokens ++ [lastBrace], name.stop⟩) := by
      rw [name?, bind_ok (peek?_at rfl)]
      dsimp only
      rw [if_pos (by simp [Token.isName, named])]
      rfl
    rw [namedStatement, bind_ok (show bump [] ⟨definition :: behind, first.stop⟩ = .ok (definition, ⟨behind, definition.stop⟩) from rfl), bind_ok given,
      bind_ok skipped]
    rfl
  have ran (kind : MemberKind) (is : memberKind? word = some kind) : holderStatement start ⟨[], []⟩ [] ⟨first :: definition :: behind, stop⟩ =
      .ok (⟨[⟨name.text, kind, true, ⟨start, stop'⟩⟩], []⟩, ⟨[lastBrace], stop'⟩) := by
    rw [holderStatement, bind_ok marks, bind_ok peeked]
    rcases known with rfl | rfl <;>
    · cases is
      exact (bind_ok read).trans rfl
  obtain ⟨kind, is⟩ : ∃ kind, memberKind? word = some kind := by rcases known with rfl | rfl <;> exact ⟨_, rfl⟩
  exact ⟨_, stop', here.trans (ran kind is), rfl⟩

/-- Entries behind others. -/
theorem entries_append (first : Entries names words) (second : Entries names' words') : Entries (names ++ names') (words ++ words') := by
  obtain ⟨source, opening, tokens, closing, stop, members, body, last, rfl, opens, closes, ran, rfl⟩ := first.read
  obtain ⟨_, opening', tokens', closing', _, _, _, _, rfl, -, closes', -, -⟩ := second.read
  have along : (Seam.mk source [] [closing] (tokens' ++ [closing'])).Along ⟨opening :: (tokens ++ [closing]), stop⟩
      ⟨opening :: (tokens ++ (tokens' ++ [closing'])), stop⟩ := ⟨opening :: tokens, opening :: tokens, rfl, rfl, rfl⟩
  obtain ⟨members', body', stop', ran', all⟩ := holderBody_extended second rfl (congrArg Prod.fst closes) closes' rfl along ran rfl
  refine ⟨?_, [], opening, tokens ++ tokens', closing', stop, members', body', stop', by simp, opens, closes', ?_, all⟩
  · have head := first.first
    cases tokens with
    | nil => simp at head
    | cons => exact head
  · rw [List.append_assoc]
    exact ran'

/-! ### Entries as texts -/

theorem intercalate_append (separator : List Char) {items items' : List (List Char)} (filled : items ≠ []) (filled' : items' ≠ []) :
    separator.intercalate (items ++ items') = separator.intercalate items ++ (separator ++ separator.intercalate items') := by
  obtain ⟨first, others, rfl⟩ := List.exists_cons_of_ne_nil filled'
  obtain ⟨item, items, rfl⟩ := List.exists_cons_of_ne_nil filled
  simp [WrittenTemplates.intercalate_cons]

/-- Entries behind others, with an empty line between them. -/
theorem renders_append (first : Renders names entries) (second : Renders names' entries') (filled : entries ≠ []) (filled' : entries' ≠ []) :
    Renders (names ++ names') (entries ++ entries') := by
  intro indent blanks
  obtain ⟨tokens, scanned, read⟩ := first indent blanks
  obtain ⟨tokens', scanned', read'⟩ := second indent blanks
  have shape : (renderEntries (entries ++ entries') indent).toList =
      ((renderEntries entries indent).toList ++ ['\n']) ++ (['\n'] ++ (renderEntries entries' indent).toList) := by
    simp only [renderEntries, String.toList_intercalate, List.map_append]
    rw [intercalate_append _ (by simpa using filled) (by simpa using filled')]
    simp
  have front : Reads ((renderEntries entries indent).toList ++ ['\n'] ++ ['\n']) (tokens.map spell ++ []) (renderEntries entries' indent).toList :=
    (reads_line scanned _).append (reads_blank (by decide) _)
  obtain ⟨behind, rescanned, same⟩ := rescanned (scan_eq_ok_iff.mp scanned')
    (0 + byteLength ((renderEntries entries indent).toList ++ ['\n'] ++ ['\n']))
  obtain ⟨all, alike, whole⟩ := front.scanned rescanned
  refine ⟨all ++ behind, ?_, ?_⟩
  · rw [shape, ← List.append_assoc, scan_eq_ok_iff]
    exact whole
  · rw [List.map_append, alike, same, List.append_nil]
    exact entries_append read read'

/-- A text of which every token stands on a line. -/
theorem renders_single (scanned : Token.scan text.toList = .ok tokens) (inline : Inline (tokens.map spell)) (entry : Entries names (tokens.map spell)) :
    Renders names [text] := by
  intro indent blanks
  obtain ⟨tokens', scanned', same⟩ := IndentedTexts.scan_indentLines blanks.space scanned inline
  refine ⟨tokens', ?_, same ▸ entry⟩
  rw [renderEntries, List.map_singleton, String.intercalate_singleton, Template.indentBlock, String.toList_ofList]
  exact scanned'

end KindLift.EntryTexts
