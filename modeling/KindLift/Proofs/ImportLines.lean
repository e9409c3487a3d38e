import KindLift.Proofs.LegibleTexts
import KindLift.Proofs.LineBreaks
import KindLift.Proofs.WrittenImports

/-! Imports that are written for names, one to a line, and read back. Every segment of a
name is one token and every point between them another, so a line is read as one clause,
and what it imports is the name. A segment in back quotes is read without them: such a
line imports the name without its quotes. -/
namespace KindLift.ImportLines
open Token Text TextBoundary TokenPlacement TriviaGaps ScanSteps ScanRuns LineBreaks WrittenTokens LegibleTexts
open KindLift.Parser ParserLogic ParserProgress ParserSimulation TokenReaders TypeTokens WrittenImports

variable {source : List Char} {segment : String} {segments read : List String} {name : DottedName} {names : List DottedName}
  {kind : TokenKind} {token : Token} {path tokens rest : List Token} {start stop offset : Nat}

/-- The text is one token of the kind. -/
def IsToken (kind : TokenKind) (text : String) : Prop := scan text.toList = .ok [⟨kind, 0, text.toList⟩]

instance : Decidable (IsToken kind segment) := inferInstanceAs (Decidable (_ = _))

/-- Segments that are identifiers, except that the last one may be an operator. -/
structure Importable (name : DottedName) : Prop where
  proper : name ≠ .root
  words : ∀ segment ∈ name.segments.dropLast, IsToken .ident segment
  last : ∀ segment ∈ name.segments.getLast?, IsToken .ident segment ∨ IsToken .operator segment

instance : Decidable (Importable name) :=
  decidable_of_iff (name ≠ .root ∧ (∀ segment ∈ name.segments.dropLast, IsToken .ident segment) ∧
    ∀ segment ∈ name.segments.getLast?, IsToken .ident segment ∨ IsToken .operator segment)
    ⟨fun ⟨proper, words, last⟩ => ⟨proper, words, last⟩, fun importable => ⟨importable.proper, importable.words, importable.last⟩⟩

/-- The segment without the back quotes it may be enclosed in. -/
def bareSegment (segment : String) : String := String.ofList (unquote segment.toList)

/-- The name without back quotes around its segments. -/
def bare (name : DottedName) : DottedName := ⟨name.segments.map bareSegment⟩

/-- No segment of the name begins with a back quote. -/
def Unquoted (name : DottedName) : Prop := ∀ segment ∈ name.segments, segment.toList.head? ≠ some '\x60'

instance : Decidable (Unquoted name) := inferInstanceAs (Decidable (∀ segment ∈ name.segments, _))

theorem bareSegment_unquoted (unquoted : segment.toList.head? ≠ some '\x60') : bareSegment segment = segment := by
  unfold bareSegment unquote
  split
  · rename_i rest quoted
    exact absurd (congrArg List.head? quoted) unquoted
  · exact String.ofList_toList

theorem bare_unquoted (unquoted : Unquoted name) : bare name = name := by
  have same : name.segments.map bareSegment = name.segments.map id :=
    List.map_congr_left fun segment member => bareSegment_unquoted (unquoted segment member)
  rw [bare, same, List.map_id]

/-! ### Names as texts -/

theorem splitOn_eq (separator : Char) (chars : List Char) : splitOn separator chars = chars.splitOn separator := by
  induction chars with
  | nil => rfl
  | cons c chars ih =>
    obtain ⟨piece, pieces, shape⟩ := List.exists_cons_of_ne_nil (List.splitOnP_ne_nil (· == separator) chars)
    rw [splitOn, ih, List.splitOn, List.splitOn, List.splitOnP_cons_eq_if_modifyHead, shape]
    simp only [beq_iff_eq, List.modifyHead_cons]

theorem checkSegment_eq_ok {chars : List Char} (checked : DottedName.checkSegment chars = .ok segment) : segment.toList = chars := by
  unfold DottedName.checkSegment at checked
  split at checked
  · cases checked
  split at checked
  · cases checked
  · cases checked
    exact String.toList_ofList

theorem checked_segments {pieces : List (List Char)} (checked : pieces.mapM DottedName.checkSegment = .ok segments) :
    segments.map String.toList = pieces := by
  rw [Traversal.mapM_eq_ok_iff] at checked
  induction checked with
  | nil => rfl
  | cons first _ ih => rw [List.map_cons, checkSegment_eq_ok first, ih]

/-- A name is written as it was read. -/
theorem render_of_parse {text : String} (accepted : DottedName.parse text = .ok name) : name.render = text := by
  unfold DottedName.parse at accepted
  split at accepted
  · rename_i empty
    cases accepted
    exact (String.isEmpty_iff.mp empty).symm
  · obtain ⟨segments, checked, rfl⟩ := TokenLocality.map_eq_ok accepted
    rw [← String.toList_inj, DottedName.render, DottedName.join, String.toList_intercalate, checked_segments checked, splitOn_eq]
    exact List.intercalate_splitOn '.'

theorem parse_render {text : String} (accepted : DottedName.parse text = .ok name) : DottedName.parse name.render = .ok name := by
  rw [render_of_parse accepted, accepted]

/-! ### Tokens of a line -/

/-- The tokens of a name: its segments, and points between them. -/
inductive Spells : List String → List Token → Prop where
  | last {segment : String} {token : Token} (named : token.isName = true) (lexeme : token.lexeme = segment.toList) :
      Spells [segment] [token]
  | point {segment : String} {segments : List String} {token dot : Token} {tokens : List Token} (word : token.kind = .ident)
      (lexeme : token.lexeme = segment.toList) (point : dot.kind = .dot) (others : Spells segments tokens) :
      Spells (segment :: segments) (token :: dot :: tokens)

/-- The tokens of imports, one behind the other. -/
inductive Lines : List DottedName → List Token → Prop where
  | nil : Lines [] []
  | cons {name : DottedName} {names : List DottedName} {keyword : Token} {path tokens : List Token}
      (first : keyword.kind = .keyword .importKw) (spells : Spells name.segments path) (others : Lines names tokens) :
      Lines (name :: names) (keyword :: (path ++ tokens))

theorem IsToken.shape (single : IsToken kind segment) : ∃ c body, segment.toList = c :: body ∧
    skipTrivia .blank (c :: body) = .ok (c :: body) ∧ readToken false c (body ++ []) = .ok (kind, []) := by
  obtain ⟨gap, c, body, next, whole, skipped, read, shape, -⟩ := scanFrom_first (scan_eq_ok_iff.mp single)
  obtain ⟨-, start, lexeme⟩ := Token.mk.inj shape
  obtain rfl : gap = [] := eq_nil_of_width (by simpa using start.symm)
  rw [lexeme] at whole
  obtain rfl : next = [] := by simpa using whole
  rw [List.append_nil] at skipped
  exact ⟨c, body, lexeme, skipped, read⟩

/-- An identifier ends in front of whatever no word goes on with. -/
theorem single_stops {e : Char} (word : IsToken .ident segment) (stops : Stops e) (quote : e ≠ '"') :
    Single segment.toList .ident (Begins e) := by
  intro offset next follow
  obtain ⟨c, body, text, skipped, read⟩ := word.shape
  obtain ⟨next, rfl⟩ := List.head?_eq_some_iff.mp follow
  have read' := readToken_stop read (.inl rfl) stops next
  have skipped' : skipTrivia .blank (c :: (body ++ e :: next)) = .ok (c :: (body ++ e :: next)) := by
    refine skipTrivia_ahead skipped fun d first => ?_
    cases body with
    | nil =>
      cases first
      exact .inr ⟨by rintro rfl; exact absurd stops.2 (by decide), by rintro rfl; exact absurd stops.2 (by decide)⟩
    | cons => exact .inl first
  have scanned := @scanFrom_cons _ _ _ false offset [] body skipped' read'
  rw [scanFrom_glued quote (begins_cons e next) _ _ false] at scanned
  rw [text]
  exact scanned

/-- An identifier ends in front of a point. -/
theorem single_word (word : IsToken .ident segment) : Single segment.toList .ident (Begins '.') :=
  single_stops word ⟨rfl, rfl⟩ (by decide)

/-- A point is a token of its own, unless a digit follows. -/
theorem scan_point {text : List Char} (plain : ∀ c ∈ text.head?, c.isDigit = false) (offset : Nat) :
    scanFrom offset false ('.' :: text) = (scanFrom (offset + 1) false text).map (⟨.dot, offset, ['.']⟩ :: ·) := by
  have digit : text.head?.any Char.isDigit = false := by
    cases text with
    | nil => rfl
    | cons c text => exact plain c rfl
  have read : readToken (false && ([] : List Char).isEmpty) '.' ([] ++ text) = .ok (.dot, text) := by
    simp [readToken, punctuation?, digit]
  have skipped : skipTrivia .blank ([] ++ '.' :: ([] ++ text)) = .ok ('.' :: ([] ++ text)) :=
    skipTrivia_done (by decide) (fun same => absurd same (by decide)) fun same => absurd same (by decide)
  exact scanFrom_cons offset [] [] skipped read

/-- No name begins with a digit. -/
theorem IsToken.head (single : IsToken kind segment) (named : kind = .ident ∨ kind = .operator) :
    ∃ c body, segment.toList = c :: body ∧ c.isDigit = false := by
  obtain ⟨c, body, text, -, read⟩ := single.shape
  refine ⟨c, body, text, ?_⟩
  obtain ⟨-, -, -, ⟨rfl, -⟩ | ⟨-, number, -⟩⟩ := name_cases read named
  · rfl
  · simp only [Bool.or_eq_true, not_or, Bool.not_eq_true] at number
    exact number.1

/-- A token is read wherever it stands. -/
theorem scan_segment (single : IsToken kind segment) (offset : Nat) :
    scanFrom offset false segment.toList = .ok [⟨kind, offset, segment.toList⟩] := by
  have moved := scanFrom_shift offset 0 false segment.toList
  rw [scan_eq_ok_iff.mp single, Nat.zero_add] at moved
  rw [moved, Except.map, List.map_singleton, shift, Nat.zero_add]

theorem render_cons (segment next : String) (segments : List String) : (DottedName.render ⟨segment :: next :: segments⟩).toList =
    segment.toList ++ '.' :: (DottedName.render ⟨next :: segments⟩).toList := by
  simp only [DottedName.render, DottedName.join, String.toList_intercalate, List.map_cons, List.intercalate_cons_cons]
  simp

theorem render_single (segment : String) : (DottedName.render ⟨[segment]⟩).toList = segment.toList := by
  simp [DottedName.render, DottedName.join]

/-- The first segment of a name, and the others. -/
theorem Importable.cons {segment next : String} (importable : Importable ⟨segment :: next :: segments⟩) :
    IsToken .ident segment ∧ Importable ⟨next :: segments⟩ := by
  refine ⟨importable.words segment (by simp), by simp [DottedName.root], fun other listed => ?_, fun other last => ?_⟩
  · exact importable.words other (by simpa using .inr listed)
  · exact importable.last other (by simpa using last)

theorem render_head (importable : Importable ⟨segments⟩) :
    ∀ c ∈ (DottedName.render ⟨segments⟩).toList.head?, c.isDigit = false := by
  match segments with
  | [] => exact absurd rfl importable.proper
  | [segment] =>
    have single : ∃ kind, IsToken kind segment ∧ (kind = .ident ∨ kind = .operator) :=
      (importable.last segment rfl).elim (fun single => ⟨_, single, .inl rfl⟩) fun single => ⟨_, single, .inr rfl⟩
    obtain ⟨kind, single, named⟩ := single
    obtain ⟨c, body, text, digit⟩ := single.head named
    rw [render_single, text]
    rintro _ ⟨⟩
    exact digit
  | segment :: next :: segments =>
    obtain ⟨c, body, text, digit⟩ := importable.cons.1.head (.inl rfl)
    rw [render_cons, text]
    rintro _ ⟨⟩
    exact digit

theorem stopAfter_of_ne_nil (nonempty : tokens ≠ []) (offset offset' : Nat) : stopAfter offset tokens = stopAfter offset' tokens := by
  cases tokens with
  | nil => exact absurd rfl nonempty
  | cons => rfl

theorem Spells.ne_nil (spells : Spells segments tokens) : tokens ≠ [] := by
  cases spells <;> simp

/-- A name is cut at its points, and ends with its last segment. -/
theorem scan_name (importable : Importable ⟨segments⟩) (offset : Nat) :
    ∃ tokens, scanFrom offset false (DottedName.render ⟨segments⟩).toList = .ok tokens ∧ Spells segments tokens ∧
      stopAfter offset tokens = offset + byteLength (DottedName.render ⟨segments⟩).toList := by
  induction segments generalizing offset with
  | nil => exact absurd rfl importable.proper
  | cons segment segments ih =>
    cases segments with
    | nil =>
      rw [render_single]
      rcases importable.last segment rfl with single | single <;>
        exact ⟨_, scan_segment single offset, .last rfl rfl, rfl⟩
    | cons next segments =>
      obtain ⟨word, others⟩ := importable.cons
      obtain ⟨tokens, scanned, spells, stop⟩ := ih others (offset + byteLength segment.toList + 1)
      refine ⟨⟨.ident, offset, segment.toList⟩ :: ⟨.dot, offset + byteLength segment.toList, ['.']⟩ :: tokens, ?_,
        .point rfl rfl rfl spells, ?_⟩
      · rw [render_cons, single_word word offset _ (begins_cons _ _), scan_point (render_head others), scanned]
        rfl
      · rw [render_cons, byteLength_append]
        refine (show _ = stopAfter (offset + byteLength segment.toList + 1) tokens from rfl).trans (stop.trans ?_)
        have width : byteLength ('.' :: (DottedName.render ⟨next :: segments⟩).toList) = 1 + byteLength (DottedName.render ⟨next :: segments⟩).toList := rfl
        omega

/-- A line is the keyword and the name behind it. -/
theorem scan_import (importable : Importable name) : ∃ tokens, scan ("import " ++ name.render).toList = .ok tokens ∧ Lines [name] tokens ∧
    stopAfter 0 tokens = byteLength ("import " ++ name.render).toList := by
  obtain ⟨path, scanned, spells, stop⟩ := scan_name importable 7
  have text : ("import " ++ name.render).toList = (Lexeme.keyword .importKw).chars ++ ' ' :: name.render.toList := by simp; rfl
  have keyword := single_lexeme (.keyword .importKw) 0 _ (begins_cons ' ' name.render.toList)
  have width : 0 + byteLength (Lexeme.keyword .importKw).chars + byteLength [' '] = 7 := by decide +kernel
  rw [scanFrom_space rfl, width, scanned] at keyword
  refine ⟨⟨.keyword .importKw, 0, "import".toList⟩ :: (path ++ []), scan_eq_ok_iff.mpr ?_, .cons rfl spells .nil, ?_⟩
  · rw [text, keyword, List.append_nil]
    rfl
  · have space : byteLength (' ' :: name.render.toList) = byteLength [' '] + byteLength name.render.toList :=
      byteLength_append [' '] name.render.toList
    rw [List.append_nil, text, byteLength_append, space]
    refine (show _ = stopAfter 6 path from rfl).trans ((stopAfter_of_ne_nil spells.ne_nil 6 7).trans (Eq.trans stop ?_))
    show 7 + byteLength name.render.toList = _
    omega

theorem Spells.shift (spells : Spells segments tokens) (distance : Nat) : Spells segments (tokens.map (LineBreaks.shift distance)) := by
  induction spells with
  | last named lexeme => exact .last named lexeme
  | point word lexeme point _ ih => exact .point word lexeme point ih

theorem Lines.shift (lines : Lines names tokens) (distance : Nat) : Lines names (tokens.map (LineBreaks.shift distance)) := by
  induction lines with
  | nil => exact .nil
  | cons first spells _ ih =>
    rw [List.map_cons, List.map_append]
    exact .cons first (spells.shift distance) ih

theorem importLines_cons (name next : DottedName) (names : List DottedName) :
    (importLines (name :: next :: names)).toList = ("import " ++ name.render).toList ++ '\n' :: (importLines (next :: names)).toList := by
  simp only [importLines, String.toList_intercalate, List.map_cons, List.intercalate_cons_cons]
  simp

theorem stopAfter_shift (distance offset : Nat) (tokens : List Token) :
    stopAfter (offset + distance) (tokens.map (LineBreaks.shift distance)) = stopAfter offset tokens + distance := by
  induction tokens generalizing offset with
  | nil => rfl
  | cons token tokens ih =>
    refine Eq.trans ?_ (ih token.stop)
    show stopAfter (token.start + distance + byteLength token.lexeme) _ = stopAfter (token.start + byteLength token.lexeme + distance) _
    rw [Nat.add_right_comm]

/-- The lines are read one behind the other, up to the end of the last one. -/
theorem scan_importLines (importable : ∀ name ∈ names, Importable name) :
    ∃ tokens, scan (importLines names).toList = .ok tokens ∧ Lines names tokens ∧ stopAfter 0 tokens = byteLength (importLines names).toList := by
  induction names with
  | nil => exact ⟨[], scan_eq_ok_iff.mpr (scanFrom_nil 0 rfl), .nil, rfl⟩
  | cons name names ih =>
    obtain ⟨first, others⟩ := List.forall_mem_cons.mp importable
    obtain ⟨line, alone, lines, stop⟩ := scan_import first
    cases names with
    | nil =>
      have single : importLines [name] = "import " ++ name.render := by simp [importLines]
      rw [single]
      exact ⟨line, alone, lines, stop⟩
    | cons next names =>
      obtain ⟨tokens, scanned, later, stop'⟩ := ih others
      refine ⟨_, by rw [importLines_cons]; exact (scan_lines _ _ alone).2.1 _ scanned, ?_, ?_⟩
      · cases lines with | cons keyword spells none => ?_
        cases none
        rw [List.append_nil]
        exact .cons keyword spells (later.shift _)
      · have nonempty : tokens ≠ [] := by
          cases later
          exact List.cons_ne_nil _ _
        rw [importLines_cons, byteLength_append, stopAfter, List.foldl_append]
        show stopAfter _ (tokens.map (LineBreaks.shift _)) = _
        rw [stopAfter_of_ne_nil (by simpa using nonempty) _ (0 + (byteLength ("import " ++ name.render).toList + 1)), stopAfter_shift, stop']
        have width : byteLength ('\n' :: (importLines (next :: names)).toList) = 1 + byteLength (importLines (next :: names)).toList := rfl
        omega

/-! ### Reading a line -/

/-- Nothing comes next that an import goes on with. -/
def Ends (rest : List Token) : Prop :=
  ∀ token ∈ rest.head?, token.kind ≠ .dot ∧ token.kind ≠ .comma ∧ token.kind ≠ .arrow ∧ ¬ (token.kind = .ident ∧ token.text = "as")

theorem ends_keyword {word : Keyword} (first : rest.head?.map Token.kind = some (.keyword word)) : Ends rest := by
  intro token found
  rw [Option.mem_def.mp found, Option.map_some, Option.some.injEq] at first
  simp [first]

/-- The selector of a name that ends in the segment. -/
def IsSelector (text : String) (selector : Selector) : Prop := selector = .named text none ∨ text = "*" ∧ selector = .wildcard

/-- What is read of the name with these segments. -/
def Selects (segments : List String) (found : List String × List Selector) : Prop :=
  ∃ read last selector, segments = read ++ [last] ∧ found = (read, [selector]) ∧ IsSelector last selector

theorem selects_last {text : String} {selector : Selector} (selects : IsSelector text selector) :
    Selects (read ++ [text]) (read, [selector]) := ⟨read, text, selector, rfl, rfl, selects⟩

theorem selects_named (text : String) : IsSelector text (.named text none) := .inl rfl

/-- The clause imports the name, and nothing else if the name does not end in a star. -/
def Brings (name : DottedName) (clause : Import) : Prop := clause.imports name = true ∧ (name.last? = some "*" ∨ clause.targets = [name])

theorem Selects.brings {found : List String × List Selector} (selects : Selects segments found) (span : Span) :
    Brings ⟨segments⟩ ⟨⟨found.1⟩, found.2, span⟩ := by
  obtain ⟨read, last, selector, rfl, rfl, selects⟩ := selects
  show Brings (DottedName.child ⟨read⟩ last) _
  refine ⟨?_, ?_⟩
  · simp only [Import.imports, DottedName.parent?_child, DottedName.last?_child]
    rcases selects with rfl | ⟨-, rfl⟩ <;> simp [Import.selects]
  · rcases selects with rfl | ⟨rfl, -⟩
    · exact .inr rfl
    · exact .inl (DottedName.last?_child ..)

theorem text_bare (lexeme : token.lexeme = segment.toList) : token.text = bareSegment segment := by
  rw [Token.text, lexeme, bareSegment]

theorem importRename_ends (ends : Ends rest) : importRename source ⟨rest, stop⟩ = .ok (none, ⟨rest, stop⟩) := by
  rw [importRename, bind_ok (show peek? source ⟨rest, stop⟩ = .ok (rest.head?, ⟨rest, stop⟩) from rfl)]
  cases rest with
  | nil => rfl
  | cons token rest =>
    obtain ⟨-, -, arrow, word⟩ := ends token rfl
    dsimp only [List.head?_cons]
    rw [if_neg (by simpa [arrow] using word)]
    rfl

theorem eats_ends (ends : Ends rest) (mark : kind = .dot ∨ kind = .comma) : eats kind source ⟨rest, stop⟩ = .ok (false, ⟨rest, stop⟩) := by
  refine eats_absent fun found => ?_
  obtain ⟨token, first, rfl⟩ := Option.map_eq_some_iff.mp found
  obtain ⟨point, comma, -⟩ := ends token first
  exact mark.elim point comma

/-- The last segment is what is selected. -/
theorem importStep_ends (ends : Ends rest) (text : String) :
    importStep (read ++ [text]) source ⟨rest, stop⟩ = .ok (.done (read, [.named text none]), ⟨rest, stop⟩) := by
  rw [importStep, bind_ok (eats_ends ends (.inl rfl)), if_neg Bool.false_ne_true, bind_ok (importRename_ends ends)]
  simp
  rfl

theorem importStep_point {dot : Token} (point : dot.kind = .dot) :
    importStep read source ⟨dot :: rest, stop⟩ = importPart read source ⟨rest, dot.stop⟩ := by
  rw [importStep, bind_ok (eats_run point rest stop)]
  rfl

theorem importPart_word (word : token.kind = .ident) :
    importPart read source ⟨token :: rest, stop⟩ = .ok (.again (read ++ [token.text]), ⟨rest, token.stop⟩) := by
  rw [importPart, bind_ok (peek?_run token rest stop)]
  simp only [word]
  rfl

/-- An operator is selected under its name, a star like everything else. -/
theorem importPart_operator (symbol : token.kind = .operator) (ends : Ends rest) : ∃ selector,
    importPart read source ⟨token :: rest, stop⟩ = .ok (.done (read, [selector]), ⟨rest, token.stop⟩) ∧
      IsSelector token.text selector := by
  simp only [importPart]
  rw [bind_ok (peek?_run token rest stop)]
  dsimp only
  rw [if_neg (by simp [symbol])]
  by_cases wild : isWildcard token = true
  · rw [if_pos wild, bind_ok (bump_run token rest stop)]
    refine ⟨.wildcard, rfl, .inr ⟨?_, rfl⟩⟩
    simpa [isWildcard, symbol] using wild
  · rw [if_neg wild, if_pos symbol, bind_ok (bump_run token rest stop), bind_ok (importRename_ends ends)]
    exact ⟨_, rfl, selects_named _⟩

theorem shorter_behind (token : Token) (path rest : List Token) (stop stop' : Nat) :
    Shorter ⟨token :: (path ++ rest), stop⟩ ⟨rest, stop'⟩ := by
  show rest.length < (token :: (path ++ rest)).length
  rw [List.length_cons, List.length_append]
  omega

/-- The segments behind a point are read to the last one. -/
theorem importSteps_run (spells : Spells segments path) (ends : Ends rest) {dot : Token} (point : dot.kind = .dot) (read : List String)
    (stop : Nat) : ∃ found stop', iterateFrom importStep read source ⟨dot :: (path ++ rest), stop⟩ = .ok (found, ⟨rest, stop'⟩) ∧
      Selects (read ++ segments.map bareSegment) found := by
  induction spells generalizing dot read stop with
  | @last segment token named lexeme =>
    rw [List.map_singleton, ← text_bare lexeme]
    simp only [Token.isName, Bool.or_eq_true, decide_eq_true_eq] at named
    rcases named with word | symbol
    · have again : importStep read source ⟨dot :: ([token] ++ rest), stop⟩ = .ok (.again (read ++ [token.text]), ⟨rest, token.stop⟩) :=
        (importStep_point point).trans (importPart_word word)
      refine ⟨_, token.stop, ?_, selects_last (selects_named token.text)⟩
      rw [iterateFrom_again again (shorter_behind dot [token] rest _ _)]
      exact iterateFrom_done (importStep_ends ends token.text)
    · obtain ⟨selector, ran, selects⟩ := @importPart_operator source read token rest dot.stop symbol ends
      exact ⟨_, _, iterateFrom_done ((importStep_point point).trans ran), selects_last selects⟩
  | @point segment segments token next path word lexeme isPoint _ ih =>
    obtain ⟨found, stop', ran, selects⟩ := ih isPoint (read ++ [token.text]) token.stop
    have again : importStep read source ⟨dot :: (token :: next :: path ++ rest), stop⟩ =
        .ok (.again (read ++ [token.text]), ⟨next :: (path ++ rest), token.stop⟩) :=
      (importStep_point point).trans (importPart_word word)
    refine ⟨found, stop', (iterateFrom_again again (shorter_behind dot [token] _ _ _)).trans ran, ?_⟩
    rw [List.map_cons, ← text_bare lexeme, List.append_cons]
    exact selects

/-- A name is read as a clause that imports it. -/
theorem importClause_run (spells : Spells segments path) (ends : Ends rest) (start stop : Nat) :
    ∃ clause stop', importClause start source ⟨path ++ rest, stop⟩ = .ok (clause, ⟨rest, stop'⟩) ∧
      Brings ⟨segments.map bareSegment⟩ clause := by
  obtain ⟨found, stop', ran, selects⟩ : ∃ found stop', (expectName "import path" >>= fun first => iterate importStep [first.text])
      source ⟨path ++ rest, stop⟩ = .ok (found, ⟨rest, stop'⟩) ∧ Selects (segments.map bareSegment) found := by
    cases spells with
    | @last segment token named lexeme =>
      refine ⟨_, token.stop, (bind_ok (expectName_run named _ rest stop)).trans (iterateFrom_done (@importStep_ends source [] rest _ ends token.text)), ?_⟩
      rw [List.map_singleton, ← text_bare lexeme]
      exact @selects_last [] _ _ (selects_named token.text)
    | @point segment segments token dot path word lexeme point others =>
      obtain ⟨found, stop', ran, selects⟩ := @importSteps_run source _ _ rest others ends dot point [token.text] token.stop
      refine ⟨found, stop', (bind_ok (expectName_run (by simp [Token.isName, word]) _ _ stop)).trans ran, ?_⟩
      rw [List.map_cons, ← text_bare lexeme]
      exact selects
  obtain ⟨first, middle, named, ran⟩ := bind_eq_ok ran
  refine ⟨⟨⟨found.1⟩, found.2, ⟨start, stop'⟩⟩, stop', ?_, selects.brings _⟩
  rw [importClause, bind_ok named, bind_ok ran]
  rfl

theorem importClauses_run {keyword : Token} (first : keyword.kind = .keyword .importKw) (spells : Spells segments path) (ends : Ends rest)
    (stop : Nat) : ∃ clause stop', importClauses source ⟨keyword :: (path ++ rest), stop⟩ = .ok ([clause], ⟨rest, stop'⟩) ∧
      Brings ⟨segments.map bareSegment⟩ clause := by
  obtain ⟨clause, stop', ran, imports⟩ := @importClause_run source _ _ rest spells ends keyword.start keyword.stop
  refine ⟨clause, stop', ?_, imports⟩
  rw [importClauses, bind_ok (expect_run first _ _ stop)]
  refine iterateFrom_done ?_
  dsimp only
  rw [bind_ok ran, bind_ok (eats_ends ends (.inr rfl))]
  rfl

theorem outlineStep_import {keyword : Token} {seen : Outline} (first : keyword.kind = .keyword .importKw)
    (spells : Spells segments path) (ends : Ends rest) (stop : Nat) :
    ∃ clause stop', outlineStep seen source ⟨keyword :: (path ++ rest), stop⟩ =
        .ok (.again { seen with imports := seen.imports ++ [clause] }, ⟨rest, stop'⟩) ∧
      Brings ⟨segments.map bareSegment⟩ clause := by
  obtain ⟨clause, stop', ran, imports⟩ := @importClauses_run source _ _ rest keyword first spells ends stop
  have noClause : atPackageClause source ⟨keyword :: (path ++ rest), stop⟩ = .ok (false, ⟨keyword :: (path ++ rest), stop⟩) := by
    rw [atPackageClause, bind_ok (isAt_other (by simp [first]))]
    rfl
  refine ⟨clause, stop', ?_, imports⟩
  rw [outlineStep, bind_ok (eatAll_stays (by simp [first])), bind_ok (peek?_run keyword (path ++ rest) stop), if_neg (by simp), bind_ok noClause,
    if_neg Bool.false_ne_true, bind_ok (isAt_here (by simp [first])), if_pos rfl, bind_ok ran]
  rfl

theorem Lines.ends (lines : Lines names tokens) (ends : Ends rest) : Ends (tokens ++ rest) := by
  cases lines with
  | nil => exact ends
  | cons first => exact ends_keyword (congrArg some first)

/-- Line by line, a text of imports is read as a clause for each of its names. -/
theorem outline_lines (lines : Lines names tokens) (ends : Ends rest) (seen : Outline) (stop : Nat) :
    ∃ clauses stop', iterateFrom outlineStep seen source ⟨tokens ++ rest, stop⟩ =
        iterateFrom outlineStep { seen with imports := seen.imports ++ clauses } source ⟨rest, stop'⟩ ∧
      List.Forall₂ (fun name clause => Brings (bare name) clause) names clauses := by
  induction lines generalizing seen stop with
  | nil => exact ⟨[], stop, by rw [List.append_nil, List.nil_append], .nil⟩
  | @cons name names keyword path tokens first spells others ih =>
    obtain ⟨clause, middle, ran, imports⟩ :=
      @outlineStep_import source _ _ (tokens ++ rest) keyword seen first spells (others.ends ends) stop
    obtain ⟨clauses, stop', later, read⟩ := ih { seen with imports := seen.imports ++ [clause] } middle
    refine ⟨clause :: clauses, stop', ?_, .cons imports read⟩
    rw [List.cons_append, List.append_assoc, iterateFrom_again ran (shorter_behind keyword path _ _ _), later, List.append_assoc]
    rfl

/-- A text whose tokens are read as an outline is parsed as that. -/
theorem parse_of_run {text : List Char} {found : Outline} {cursor : Cursor} (scanned : scan text = .ok tokens)
    (ran : iterateFrom outlineStep .empty text ⟨tokens, 0⟩ = .ok (found, cursor)) :
    Outline.parse text = .ok { found with typeRefs := TypeRef.collect tokens found.decls } := by
  have done : Parser.outline.onTokens text tokens = .ok found := by
    rw [onTokens, show Parser.outline text ⟨tokens, 0⟩ = _ from ran]
  rw [Outline.parse, Traversal.bind_eq_ok_iff]
  exact ⟨tokens, scanned, Traversal.bind_eq_ok_iff.mpr ⟨_, done, rfl⟩⟩

/-- The lines that import names are read as clauses that import them. -/
theorem parse_importLines (importable : ∀ name ∈ names, Importable name) : ∃ outline,
    Outline.parse (importLines names).toList = .ok outline ∧
      List.Forall₂ (fun name clause => clause.imports (bare name) = true) names outline.imports := by
  obtain ⟨tokens, scanned, lines, -⟩ := scan_importLines importable
  obtain ⟨clauses, stop, ran, read⟩ := @outline_lines (importLines names).toList names tokens [] lines (by simp [Ends]) .empty 0
  have last : outlineStep { Outline.empty with imports := clauses } (importLines names).toList ⟨[], stop⟩ =
      .ok (.done { Outline.empty with imports := clauses }, ⟨[], stop⟩) := by
    rw [outlineStep, bind_ok (eatAll_stays (by simp))]
    rfl
  rw [List.append_nil] at ran
  exact ⟨_, parse_of_run scanned (ran.trans (iterateFrom_done last)), read.imp fun _ _ => And.left⟩

/-- What the lines import is not missing. -/
theorem missingImports_read {conventions : Conventions} {clauses : List Import}
    (read : List.Forall₂ (fun name clause => clause.imports (bare name) = true) names clauses)
    (listed : ∀ name ∈ conventions.imports.all, name ∈ names ∧ Unquoted name) :
    AddInstances.missingImports conventions clauses = [] := by
  refine List.filter_eq_nil_iff.mpr fun name needed => ?_
  obtain ⟨member, unquoted⟩ := listed name needed
  obtain ⟨clause, found, imports⟩ := Traversal.related_left read member
  rw [bare_unquoted unquoted] at imports
  simp only [Bool.not_eq_true', Bool.not_eq_false]
  exact List.any_eq_true.mpr ⟨clause, found, imports⟩

/-- Names that are read from texts, with segments that are single tokens, are written as
they were read. The lines that import them are read as one clause for each name, in the
same order, which imports the name without its back quotes, and so the name itself if it
has none. No library name among them is missing then. -/
theorem importLines_imported (names : List DottedName) (accepted : ∀ name ∈ names, ∃ text, DottedName.parse text = .ok name)
    (importable : ∀ name ∈ names, Importable name) :
    (∀ name ∈ names, DottedName.parse name.render = .ok name) ∧
      ∃ outline, Outline.parse (importLines names).toList = .ok outline ∧
        List.Forall₂ (fun name clause => clause.imports (bare name) = true ∧ (Unquoted name → clause.imports name = true))
          names outline.imports ∧
        ∀ conventions : Conventions, (∀ name ∈ conventions.imports.all, name ∈ names ∧ Unquoted name) → ∀ index id,
          AddInstances.missingImports conventions (SourceUnit.load index id (importLines names)).outline.imports = [] := by
  obtain ⟨outline, parsed, read⟩ := parse_importLines importable
  have themselves : List.Forall₂ (fun name clause => clause.imports (bare name) = true ∧ (Unquoted name → clause.imports name = true))
      names outline.imports := by
    refine read.imp fun name clause imports => ⟨imports, fun unquoted => ?_⟩
    rwa [bare_unquoted unquoted] at imports
  refine ⟨fun name member => ?_, outline, parsed, themselves, fun conventions listed index id => ?_⟩
  · obtain ⟨text, accepted⟩ := accepted name member
    exact parse_render accepted
  · have loaded : (SourceUnit.load index id (importLines names)).outline = outline := by simp only [SourceUnit.load, parsed]
    rw [loaded]
    exact missingImports_read read listed

/-- The names that instances use, and some that are harder to read: operators, words with
operator characters, a star, a word that renames elsewhere, and a quoted word. -/
def hardNames : List DottedName :=
  [⟨["cats", "data", "ReaderT"]⟩, ⟨["+"]⟩, ⟨["a", "b_="]⟩, ⟨["cats", "tagless", "FunctorK"]⟩, ⟨["x", "*"]⟩, ⟨["été", "as"]⟩,
    ⟨["cats", "~>"]⟩, ⟨["cats", "\x60type\x60"]⟩]

theorem hardNames_imported : (∀ name ∈ hardNames, Importable name) ∧
    (∀ name ∈ hardNames, DottedName.parse name.render = .ok name) ∧
    ∃ outline, Outline.parse (importLines hardNames).toList = .ok outline ∧
      List.Forall₂ (fun name clause => clause.imports (bare name) = true ∧ (Unquoted name → clause.imports name = true))
        hardNames outline.imports ∧
      AddInstances.missingImports .default (SourceUnit.load .empty "A" (importLines hardNames)).outline.imports = [] := by
  have accepted : ∀ name ∈ hardNames, DottedName.parse name.render = .ok name := by decide +kernel
  have importable : ∀ name ∈ hardNames, Importable name := by decide +kernel
  have listed : ∀ name ∈ Conventions.default.imports.all, name ∈ hardNames ∧ Unquoted name := by decide +kernel
  obtain ⟨written, outline, parsed, read, missing⟩ :=
    importLines_imported hardNames (fun name member => ⟨_, accepted name member⟩) importable
  exact ⟨importable, written, outline, parsed, read, missing .default listed .empty "A"⟩

/-- A name whose last segment is in back quotes. -/
def quotedName : DottedName := ⟨["cats", "\x60type\x60"]⟩

/-- The line for a quoted name imports another name. -/
theorem quotedName_unimported : DottedName.parse quotedName.render = .ok quotedName ∧ Importable quotedName ∧
    (∀ segment ∈ quotedName.segments.dropLast, segment.toList.head? ≠ some '\x60') ∧
    ∃ outline, Outline.parse (importLines [quotedName]).toList = .ok outline ∧
      outline.imports.map (fun clause => clause.imports quotedName) = [false] := by
  have read : (Outline.parse (importLines [quotedName]).toList).toOption.map (fun outline =>
      outline.imports.map fun clause => clause.imports quotedName) = some [false] := by decide +kernel
  obtain ⟨outline, parsed, unimported⟩ := Option.map_eq_some_iff.mp read
  exact ⟨by decide +kernel, by decide +kernel, by decide +kernel, outline, Traversal.toOption_eq_some_iff.mp parsed, unimported⟩

end KindLift.ImportLines
