import KindLift.Proofs.InsertedTexts

/-! Fragments of generated texts. In front of its tail a fragment is cut into tokens of its
own, whose brackets match, and none of which goes over the end of a line. Fragments behind
one another are a fragment, and so is one in brackets. -/
namespace KindLift.TextFragments
open Token Text TextBoundary TokenPlacement TokenEnds TokenTiling TriviaGaps ScanSteps ScannedPieces TokenEdges LegibleTexts InsertedTexts GrownObjects
open BracketBalance TypeTokens QualifiedTokens
open IndentedTexts (spell Inline)

variable {text later tail : List Char} {words words' : List Word} {tokens tokens' : List Token} {stops : TokenKind → Bool}
  {kind : TokenKind} {kinds : List TokenKind} {bracket : Bracket} {name : String} {mark e c : Char}

/-! ### Tokens -/

/-- However they are placed, tokens of the words are tokens and groups, and none of them stops
the reading. -/
def Flows (stops : TokenKind → Bool) (words : List Word) : Prop := ∀ tokens, tokens.map spell = words → Items stops tokens

/-- Tokens whose brackets match. -/
abbrev Matches (words : List Word) : Prop := Flows (fun _ => false) words

theorem sameSigns_of_spells (same : tokens'.map spell = tokens.map spell) : SameSigns tokens tokens' := by
  have parts (tokens : List Token) : tokens.map sign = (tokens.map spell).map fun word => (word.1, String.ofList (unquote word.2)) := by
    rw [List.map_map]
    rfl
  rw [SameSigns, parts, parts, same]

theorem flows_of_items (items : Items stops tokens) : Flows stops (tokens.map spell) :=
  fun _ same => items.same (sameSigns_of_spells same)

theorem Flows.append (first : Flows stops words) (second : Flows stops words') : Flows stops (words ++ words') := by
  intro tokens same
  obtain ⟨front, back, rfl, alike, alike'⟩ := List.map_eq_append_iff.mp same
  exact (first front alike).append (second back alike')

theorem flows_nil : Flows stops [] := by
  intro tokens same
  rw [List.map_eq_nil_iff.mp same]
  exact .nil

theorem flows_single {word : Word} (single : IsPlain word.1) (goes : stops word.1 = false) : Flows stops [word] := by
  intro tokens same
  obtain ⟨token, rfl, rfl⟩ := List.map_eq_singleton_iff.mp same
  exact .plain single goes .nil

theorem items_of_wellBracketed (bracketed : WellBracketed tokens) : Items (fun _ => false) tokens := by
  induction bracketed with
  | nil => exact .nil
  | plain single _ ih => exact .plain single rfl ih
  | group opens inner closes _ _ ih => exact .group opens rfl inner closes ih

theorem wellBracketed_of_items (items : Items stops tokens) : WellBracketed tokens := by
  induction items with
  | nil => exact .nil
  | plain single _ _ ih => exact .plain single ih
  | group opens _ inner closes _ ih => exact .group opens inner closes ih

theorem flows_group {opening closing : Word} (matches' : Matches words) (opens : opening.1 = .opener bracket) (goes : stops opening.1 = false)
    (closes : closing.1 = .closer bracket) : Flows stops (opening :: (words ++ [closing])) := by
  intro tokens same
  obtain ⟨first, rest, rfl, rfl, behind⟩ := List.map_eq_cons_iff.mp same
  obtain ⟨inner, last, rfl, alike, alike'⟩ := List.map_eq_append_iff.mp behind
  obtain ⟨closing, rfl, rfl⟩ := List.map_eq_singleton_iff.mp alike'
  exact .group opens goes (wellBracketed_of_items (matches' inner alike)) closes .nil

/-! ### Fragments -/

/-- In front of the tail the text is cut into such tokens, each of which stands on a line. -/
def Fragment (stops : TokenKind → Bool) (text tail : List Char) : Prop :=
  ∃ words, Reads text words tail ∧ Flows stops words ∧ Inline words

/-- A fragment whose brackets match. -/
abbrev Matching (text tail : List Char) : Prop := Fragment (fun _ => false) text tail

theorem Fragment.append (first : Fragment stops text (later ++ tail)) (second : Fragment stops later tail) : Fragment stops (text ++ later) tail := by
  obtain ⟨words, reads, flows, inline⟩ := first
  obtain ⟨words', reads', flows', inline'⟩ := second
  exact ⟨words ++ words', reads.append reads', flows.append flows', fun word member => (List.mem_append.mp member).elim (inline word) (inline' word)⟩

theorem fragment_gap (between : Gap false text) (tail : List Char) : Fragment stops text tail :=
  ⟨[], reads_gap between tail, flows_nil, fun _ member => by cases member⟩

theorem fragment_single (reads : Reads text [(kind, text)] tail) (single : IsPlain kind) (goes : stops kind = false) (inline : '\n' ∉ text) :
    Fragment stops text tail :=
  ⟨_, reads, flows_single single goes, fun _ member => List.mem_singleton.mp member ▸ inline⟩

/-- A point that begins no number. -/
theorem fragment_point (plain : ∀ c ∈ tail.head?, c.isDigit = false) (goes : stops .dot = false) : Fragment stops ['.'] tail :=
  fragment_single (fun offset => ⟨[⟨.dot, offset, ['.']⟩], rfl, ImportLines.scan_point plain offset⟩) ⟨by simp, by simp⟩ goes (by simp)

/-- The characters of a bracket. -/
def openChar : Bracket → Char
  | .paren => '('
  | .square => '['
  | .brace => '\x7b'

def closeChar : Bracket → Char
  | .paren => ')'
  | .square => ']'
  | .brace => '\x7d'

/-- A fragment in brackets. -/
theorem fragment_group (goes : stops (.opener bracket) = false) (inner : Matching text (closeChar bracket :: tail)) :
    Fragment stops (openChar bracket :: (text ++ [closeChar bracket])) tail := by
  obtain ⟨words, reads, matches', inline⟩ := inner
  have opens (rest : List Char) : Reads [openChar bracket] [(.opener bracket, [openChar bracket])] rest := by
    cases bracket <;> exact reads_mark (fun _ => rfl) rest
  have closes : Reads [closeChar bracket] [(.closer bracket, [closeChar bracket])] tail := by
    cases bracket <;> exact reads_mark (fun _ => rfl) tail
  refine ⟨(.opener bracket, [openChar bracket]) :: (words ++ [(.closer bracket, [closeChar bracket])]), (opens _).append (reads.append closes),
    flows_group matches' rfl goes rfl, fun word member => ?_⟩
  rcases List.mem_cons.mp member with rfl | inside
  · cases bracket <;> simp [openChar]
  rcases List.mem_append.mp inside with inside | last
  · exact inline word inside
  · rw [List.mem_singleton.mp last]
    cases bracket <;> simp [closeChar]

/-! ### Copied texts -/

/-- In front of a bracket the text is cut into tokens of its own, whose brackets match, and
none of which goes over the end of a line. -/
def encloses (text : List Char) : Bool :=
  match Token.scan (text ++ [']']) with
  | .ok tokens => (tokens.getLast?.any fun closing => closing.kind = .closer .square && closing.start = byteLength text) &&
      decide (WellBracketed tokens.dropLast) && tokens.dropLast.all fun token => !token.lexeme.contains '\n'
  | .error _ => false

theorem encloses_split (own : encloses text = true) : ∃ tokens closing, Token.scan (text ++ [']']) = .ok (tokens ++ [closing]) ∧
    closing.kind = .closer .square ∧ closing.start = byteLength text ∧ WellBracketed tokens ∧ Inline (tokens.map spell) := by
  unfold encloses at own
  split at own
  · rename_i tokens scanned
    simp only [Bool.and_eq_true, Option.any_eq_true, decide_eq_true_eq, List.all_eq_true] at own
    obtain ⟨⟨⟨closing, last, kind, start⟩, bracketed⟩, inline⟩ := own
    obtain ⟨front, rfl⟩ := List.getLast?_eq_some_iff.mp last
    rw [List.dropLast_concat] at bracketed inline
    refine ⟨front, closing, scanned, kind, start, bracketed, fun word member => ?_⟩
    obtain ⟨token, listed, rfl⟩ := List.mem_map.mp member
    simpa [spell] using inline token listed
  · cases own

/-- Such a text is a fragment in front of whatever no token goes on with. -/
theorem matching_enclosed (own : encloses text = true) (breaks : Breaks e) (z : List Char) : Matching text (e :: z) := by
  obtain ⟨tokens, closing, scanned, kind, start, bracketed, inline⟩ := encloses_split own
  have plain : Plain [closing] := by
    intro token first
    cases first
    simp [kind]
  refine ⟨_, ?_, flows_of_items (items_of_wellBracketed bracketed), inline⟩
  obtain ⟨front, behind, whole, length, solid, scanned', follow, before⟩ := reads_begun (scan_eq_ok_iff.mp scanned) plain
  have tiled := scanFrom_tiled scanned'
  generalize others : [closing] = items at tiled
  cases tiled with
  | last => cases others
  | @token _ gap rest first items between place nonempty later =>
    cases others
    obtain ⟨rfl, -⟩ := cut_unique (show text ++ [']'] = (front ++ gap) ++ (closing.lexeme ++ rest) by rw [whole]; simp)
      (by rw [byteLength_append]; omega)
    cases gap with
    | nil =>
      rw [List.append_nil]
      exact before e z breaks
    | cons c gap =>
      have first : Reads front (tokens.map spell) ((c :: gap) ++ e :: z) := follow _ rfl
      have both := first.append (reads_gap between (e :: z))
      rwa [List.append_nil] at both

/-! ### Names -/

/-- No name goes over the end of a line. -/
theorem name_inline {body next : List Char} {glued : Bool} (read : readToken glued c (body ++ next) = .ok (kind, next))
    (name : kind = .ident ∨ kind = .operator) : '\n' ∉ c :: body := by
  obtain ⟨-, -, -, ⟨rfl, -, dropped⟩ | ⟨-, -, ⟨starts, -, skipped⟩ | ⟨-, symbol, -, symbols⟩⟩⟩ := name_cases read name
  · -- A quoted name ends in front of the next quote on its line.
    have taken := List.takeWhile_append_dropWhile (p := fun d => d ≠ '\x60' && d ≠ '\n') (l := body ++ next)
    rw [dropped, List.append_cons] at taken
    rw [← List.append_cancel_right taken]
    intro member
    rcases List.mem_cons.mp member with same | member
    · cases same
    rcases List.mem_append.mp member with inside | last
    · simpa using List.mem_takeWhile_imp inside
    · cases List.mem_singleton.mp last
  · obtain ⟨front, run, rfl, part, operator, -⟩ := skipWord_parts skipped
    intro member
    rcases List.mem_cons.mp member with rfl | member
    · cases starts
    rcases List.mem_append.mp member with inside | inside
    · cases part _ inside
    · cases operator _ inside
  · intro member
    rcases List.mem_cons.mp member with rfl | member
    · cases symbol
    · cases symbols _ member

/-- What a name has behind it in a signature. -/
def IsMark (mark : Char) : Prop := mark = ':' ∨ mark = '[' ∨ mark = '('

theorem mark_token (isMark : IsMark mark) : ∃ token, Token.scan [mark] = .ok [token] ∧ Plain [token] := by
  have plain (token : Token) (other : token.kind ≠ .literal ∧ token.kind ≠ .dot) : Plain [token] := fun _ first => by
    cases first
    exact other
  rcases isMark with rfl | rfl | rfl
  · exact ⟨⟨.colon, 0, [':']⟩, by decide +kernel, plain _ (by simp)⟩
  · exact ⟨⟨.opener .square, 0, ['[']⟩, by decide +kernel, plain _ (by simp)⟩
  · exact ⟨⟨.opener .paren, 0, ['(']⟩, by decide +kernel, plain _ (by simp)⟩

/-- A token in front of the mark is one in front of whatever no token goes on with. -/
theorem reads_name (single : Single name.toList kind (Begins mark)) (isMark : IsMark mark) (behind : e = mark ∨ Breaks e) (z : List Char) :
    Reads name.toList [(kind, name.toList)] (e :: z) := by
  rcases behind with rfl | breaks
  · exact reads_single single (begins_cons _ _)
  · obtain ⟨token, alone, plain⟩ := mark_token isMark
    obtain ⟨next, marked, same⟩ := rescanned (scan_eq_ok_iff.mp alone) (0 + byteLength name.toList)
    obtain ⟨token', rfl, alike⟩ := List.map_eq_singleton_iff.mp same
    have scanned := single 0 [mark] (begins_cons mark [])
    rw [marked] at scanned
    have plain' : Plain [token'] := by
      intro _ first
      cases first
      rw [show token'.kind = token.kind from congrArg Prod.fst alike]
      exact plain token rfl
    obtain ⟨text, tail, whole, stop, -, -, -, before⟩ := reads_begun (show scanFrom 0 false (name.toList ++ [mark]) = .ok ([⟨kind, 0, name.toList⟩] ++ [token']) from scanned) plain'
    obtain ⟨rfl, -⟩ := cut_unique whole (by
      rw [Nat.zero_add] at stop
      rw [stop]
      exact (Nat.zero_add _).symm)
    exact before e z breaks

/-- A name that is read as it is begins with its token. -/
theorem name_read (again : rereads kinds name mark = true) (isMark : IsMark mark) : ∃ kind ∈ kinds, Single name.toList kind (Begins mark) ∧
    String.ofList (unquote name.toList) = name ∧ ∃ c body next, name.toList = c :: body ∧ readToken false c (body ++ next) = .ok (kind, next) := by
  have other : mark ≠ '"' ∧ mark ≠ '.' := by rcases isMark with rfl | rfl | rfl <;> decide
  obtain ⟨kind, listed, single, bare⟩ := single_rereads again other.1 other.2
  obtain ⟨token, alone, -⟩ := mark_token isMark
  obtain ⟨next, marked, -⟩ := rescanned (scan_eq_ok_iff.mp alone) (0 + byteLength name.toList)
  have scanned := single 0 [mark] (begins_cons mark [])
  rw [marked] at scanned
  obtain ⟨gap, c, body, behind, -, -, read, token, -⟩ := scanFrom_first scanned
  exact ⟨kind, listed, single, bare, c, body, behind, congrArg Token.lexeme token, read⟩

/-- Such a name is a fragment in front of the mark or of whatever no token goes on with. -/
theorem matching_name (again : rereads kinds name mark = true) (named : ∀ kind ∈ kinds, kind = .ident ∨ kind = .operator) (isMark : IsMark mark)
    (behind : e = mark ∨ Breaks e) (z : List Char) : Matching name.toList (e :: z) := by
  obtain ⟨kind, listed, single, -, c, body, next, shape, read⟩ := name_read again isMark
  have word := named kind listed
  refine fragment_single (reads_name single isMark behind z) ?_ rfl (shape ▸ name_inline read word)
  rcases word with rfl | rfl <;> exact ⟨by simp, by simp⟩

theorem name_head (again : rereads kinds name mark = true) (named : ∀ kind ∈ kinds, kind = .ident ∨ kind = .operator) (isMark : IsMark mark) :
    ∃ c body, name.toList = c :: body ∧ c.isDigit = false := by
  obtain ⟨kind, listed, -, -, c, body, next, shape, read⟩ := name_read again isMark
  refine ⟨c, body, shape, ?_⟩
  obtain ⟨-, -, -, ⟨rfl, -, -⟩ | ⟨-, digit, -⟩⟩ := name_cases read (named kind listed)
  · rfl
  · rw [Bool.or_eq_true, not_or] at digit
    exact Bool.eq_false_iff.mpr digit.1

/-! ### Texts -/

/-- Inside brackets nothing stops the reading. -/
abbrev inner : TokenKind → Bool := fun _ => false

/-- The text is a fragment in front of everything. -/
def Apart (stops : TokenKind → Bool) (text : String) : Prop := ∀ tail, Fragment stops text.toList tail

/-- The text is a fragment in front of whatever no token goes on with. -/
def Sealed (stops : TokenKind → Bool) (text : String) : Prop := ∀ e z, Breaks e → Fragment stops text.toList (e :: z)

/-- No token goes on with what the text begins with. -/
def Starts (text : String) : Prop := ∃ e z, text.toList = e :: z ∧ Breaks e

section Texts
variable {first second : String} {items : List String}

theorem Apart.sealed (apart : Apart stops first) : Sealed stops first := fun e z _ => apart (e :: z)

theorem apart_empty : Apart stops "" := fun tail => fragment_gap .nil tail

theorem apart_space (white : IsSpace first.toList) : Apart stops first := fun tail => fragment_gap (gap_of_space white) tail

theorem Apart.append (apart : Apart stops first) (others : Apart stops second) : Apart stops (first ++ second) := by
  intro tail
  rw [String.toList_append]
  exact (apart _).append (others tail)

theorem Apart.then (apart : Apart stops first) (others : Sealed stops second) : Sealed stops (first ++ second) := by
  intro e z breaks
  rw [String.toList_append]
  exact (apart _).append (others e z breaks)

theorem Sealed.append (closed : Sealed stops first) (starts : Starts second) (others : Apart stops second) : Apart stops (first ++ second) := by
  obtain ⟨e, z, shape, breaks⟩ := starts
  intro tail
  have front : Fragment stops first.toList (second.toList ++ tail) := by
    rw [shape]
    exact closed e (z ++ tail) breaks
  rw [String.toList_append]
  exact front.append (others tail)

theorem Sealed.then (closed : Sealed stops first) (starts : Starts second) (others : Sealed stops second) : Sealed stops (first ++ second) := by
  obtain ⟨e, z, shape, breaks⟩ := starts
  intro e' z' breaks'
  have front : Fragment stops first.toList (second.toList ++ e' :: z') := by
    rw [shape]
    exact closed e (z ++ e' :: z') breaks
  rw [String.toList_append]
  exact front.append (others e' z' breaks')

theorem apart_blank : Apart stops " " := apart_space fun _ member => (List.mem_singleton.mp member) ▸ rfl

/-- A blank behind a text. -/
theorem Sealed.spaced (closed : Sealed stops first) : Apart stops (first ++ " ") := closed.append ⟨' ', [], rfl, by decide⟩ apart_blank

theorem starts_append (starts : Starts first) (second : String) : Starts (first ++ second) := by
  obtain ⟨e, z, shape, breaks⟩ := starts
  exact ⟨e, z ++ second.toList, by rw [String.toList_append, shape]; rfl, breaks⟩

theorem starts_paren (text : String) : Starts ("(" ++ text) := starts_append ⟨'(', [], rfl, by decide⟩ text

theorem starts_square (text : String) : Starts ("[" ++ text) := starts_append ⟨'[', [], rfl, by decide⟩ text

theorem apart_join (each : ∀ item ∈ items, Apart stops item) : Apart stops (String.join items) := by
  intro tail
  rw [String.toList_join]
  induction items with
  | nil => exact fragment_gap .nil tail
  | cons item items ih =>
    obtain ⟨first, others⟩ := List.forall_mem_cons.mp each
    rw [List.flatMap_cons]
    exact (first _).append (ih others)

theorem sealed_enclosed {text : String} (own : encloses text.toList = true) : Sealed inner text :=
  fun _ z breaks => matching_enclosed own breaks z

theorem sealed_word (word : ImportLines.IsToken .ident name) (goes : stops .ident = false) : Sealed stops name := by
  intro e z breaks
  obtain ⟨gap, c, body, next, -, -, read, token, -⟩ := scanFrom_first (scan_eq_ok_iff.mp word)
  have shape : name.toList = c :: body := congrArg Token.lexeme token
  refine fragment_single (reads_word word e breaks.stops breaks.quote (begins_cons e z)) ⟨by simp, by simp⟩ goes ?_
  exact shape ▸ name_inline read (.inl rfl)

/-- Items with commas between them. -/
theorem sealed_commas (each : ∀ item ∈ items, Sealed inner item) : Sealed inner (String.intercalate ", " items) := by
  have comma : Apart inner ("," ++ " ") := (sealed_enclosed (by decide +kernel)).spaced
  induction items with
  | nil => exact apart_empty.sealed
  | cons item items ih =>
    obtain ⟨first, others⟩ := List.forall_mem_cons.mp each
    cases items with
    | nil => exact first
    | cons next items =>
      rw [String.intercalate_cons_cons]
      exact (first.append ⟨',', [' '], rfl, by decide⟩ comma).then (ih others)

/-- A text in round brackets. -/
theorem apart_paren (goes : stops (.opener .paren) = false) (closed : Sealed inner first) : Apart stops ("(" ++ first ++ ")") := by
  intro tail
  have group := @fragment_group _ tail stops .paren goes (closed ')' tail (by decide))
  simpa [openChar, closeChar] using group

/-- A text in square brackets. -/
theorem apart_square (goes : stops (.opener .square) = false) (closed : Sealed inner first) : Apart stops ("[" ++ first ++ "]") := by
  intro tail
  have group := @fragment_group _ tail stops .square goes (closed ']' tail (by decide))
  simpa [openChar, closeChar] using group

/-- A text in braces. -/
theorem apart_brace (goes : stops (.opener .brace) = false) (apart : Apart inner first) : Apart stops ("\x7b" ++ first ++ "\x7d") := by
  intro tail
  have group := @fragment_group _ tail stops .brace goes (apart ('\x7d' :: tail))
  simpa [openChar, closeChar] using group

end Texts

end KindLift.TextFragments
