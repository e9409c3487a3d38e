import KindLift.Token.Trivia

/-! Literals and the character classes of identifiers and operators. A string
may hold splices, a splice holds code, and code may hold further strings: the
scanner keeps the constructs it is inside of as a stack of frames. -/
namespace KindLift.Token

/-- Symbols that make up operators: the ASCII operator characters and all other
characters above ASCII that are neither letters, digits nor white space. -/
def isOperatorChar (c : Char) : Bool :=
  "!#%&*+-/:<=>?@\\^|~".toList.contains c ||
    (!Text.isAscii c && !Text.isAlphanumeric c && !Text.isWhiteSpace c)

def isIdentStart (c : Char) : Bool := Text.isAlphabetic c || c = '_' || c = '$'

def isIdentPart (c : Char) : Bool := Text.isAlphanumeric c || c = '_' || c = '$'

/-- A construct inside a string literal, with the rest of the source where it
began. A splice counts the braces open around its innermost one, and remembers
whether a quote here would follow an identifier directly. -/
inductive Frame where
  | quoted (spliced : Bool) (opened : List Char)
  | tripled (spliced : Bool) (opened : List Char)
  | splice (enclosing : Nat) (glued : Bool) (opened : List Char)
  | lineComment (splice : List Char)
  | blockComment (enclosing : Nat) (opened : List Char)

/-- The fault of a source that ends inside the frame. -/
def Frame.unterminated : Frame → Fault
  | .quoted _ opened | .tripled _ opened => ⟨opened, .unterminatedString⟩
  | .splice _ _ opened | .lineComment opened => ⟨opened, .unterminatedSplice⟩
  | .blockComment _ opened => ⟨opened, .unterminatedComment⟩

/-- Reads one character in a frame: what is open in place of the frame after that,
and how many of the characters to come are read with it. Closing quotes of a
tripled string are the last three of a run of quotes. -/
def Frame.advance (frame : Frame) (c : Char) (rest : List Char) : Except Fault (List Frame × Nat) :=
  match frame with
  | .quoted spliced opened =>
    if c = '\n' then .error ⟨opened, .unterminatedString⟩
    else if c = '"' then .ok ([], 0)
    else if c = '$' && spliced && ['\x7b'].isPrefixOf rest then
      .ok ([.splice 0 false (c :: rest), frame], 1)
    else if c = '\\' then
      if rest.isEmpty then .error ⟨opened, .unterminatedString⟩ else .ok ([frame], 1)
    else .ok ([frame], 0)
  | .tripled spliced _ =>
    if c = '"' && ['"', '"'].isPrefixOf rest && !(['"', '"', '"'].isPrefixOf rest) then .ok ([], 2)
    else if c = '$' && spliced && ['\x7b'].isPrefixOf rest then
      .ok ([.splice 0 false (c :: rest), frame], 1)
    else .ok ([frame], 0)
  | .splice enclosing glued opened =>
    let inside := Frame.splice enclosing false opened
    if Text.isWhiteSpace c then .ok ([inside], 0)
    else if c = '/' && ['/'].isPrefixOf rest then .ok ([.lineComment opened, inside], 1)
    else if c = '/' && ['*'].isPrefixOf rest then .ok ([.blockComment 0 (c :: rest), inside], 1)
    else if c = '\x7b' then .ok ([.splice (enclosing + 1) false opened], 0)
    else if c = '\x7d' then
      match enclosing with
      | 0 => .ok ([], 0)
      | more + 1 => .ok ([.splice more false opened], 0)
    else if c = '"' && ['"', '"'].isPrefixOf rest then .ok ([.tripled glued (c :: rest), inside], 2)
    else if c = '"' then .ok ([.quoted glued (c :: rest), inside], 0)
    else .ok ([.splice enclosing (isIdentPart c) opened], 0)
  | .lineComment _ => if c = '\n' then .ok ([], 0) else .ok ([frame], 0)
  | .blockComment enclosing opened =>
    if c = '/' && ['*'].isPrefixOf rest then .ok ([.blockComment (enclosing + 1) opened], 1)
    else if c = '*' && ['/'].isPrefixOf rest then
      match enclosing with
      | 0 => .ok ([], 1)
      | more + 1 => .ok ([.blockComment more opened], 1)
    else .ok ([frame], 0)

/-- Reads on until every frame is closed. -/
def closeFrames (frames : List Frame) (chars : List Char) : Except Fault (List Char) :=
  match frames, chars with
  | [], rest => .ok rest
  | frame :: _, [] => .error frame.unterminated
  | frame :: outer, c :: rest =>
    match frame.advance c rest with
    | .error fault => .error fault
    | .ok (inner, more) => closeFrames (inner ++ outer) (rest.drop more)
termination_by chars.length
decreasing_by
  simp only [List.length_cons, List.length_drop]
  omega

/-- The rest after a string literal whose opening quote has been read. -/
def skipString (spliced : Bool) (rest : List Char) : Except Fault (List Char) :=
  match rest with
  | '"' :: '"' :: tail => closeFrames [.tripled spliced ('"' :: rest)] tail
  | _ => closeFrames [.quoted spliced ('"' :: rest)] rest

/-- The rest after a character or symbol literal whose quote has been read. -/
def skipQuote (rest : List Char) : Except Fault (List Char) :=
  match rest with
  | '\\' :: _ =>
    match rest.dropWhile (fun c => c ≠ '\'' && c ≠ '\n') with
    | '\'' :: tail => .ok tail
    | _ => .error ⟨'\'' :: rest, .unterminatedCharacter⟩
  | _ :: '\'' :: tail => .ok tail
  | c :: _ =>
    if isIdentStart c then .ok (rest.dropWhile isIdentPart)
    else .error ⟨'\'' :: rest, .malformedCharacter⟩
  | [] => .error ⟨'\'' :: rest, .malformedCharacter⟩

/-- The rest after a number. A sign belongs to it right after an exponent mark,
and a point when a digit follows. -/
def skipNumber (previous : Char) : List Char → List Char
  | [] => []
  | c :: rest =>
    let sign := (c = '-' || c = '+') && (previous = 'e' || previous = 'E')
    let fraction := c = '.' && rest.head?.any Char.isDigit
    if c.isAlphanum || c = '_' || sign || fraction then skipNumber c rest else c :: rest

theorem closeFrames_length_le {frames : List Frame} {chars rest : List Char}
    (closed : closeFrames frames chars = .ok rest) : rest.length ≤ chars.length := by
  fun_induction closeFrames frames chars with
  | case1 => cases closed; exact Nat.le_refl _
  | case2 => cases closed
  | case3 => cases closed
  | case4 =>
    rename_i ih
    have bound := ih closed
    simp only [List.length_cons, List.length_drop] at bound ⊢
    omega

theorem length_dropWhile_le (p : Char → Bool) (chars : List Char) :
    (chars.dropWhile p).length ≤ chars.length :=
  (List.dropWhile_sublist p).length_le

theorem skipString_length_le {spliced : Bool} {chars rest : List Char}
    (read : skipString spliced chars = .ok rest) : rest.length ≤ chars.length := by
  unfold skipString at read
  split at read
  · have := closeFrames_length_le read
    simp only [List.length_cons]
    omega
  · exact closeFrames_length_le read

theorem skipQuote_length_le {chars rest : List Char} (read : skipQuote chars = .ok rest) :
    rest.length ≤ chars.length := by
  unfold skipQuote at read
  split at read
  · split at read
    · rename_i shape
      cases read
      refine Nat.le_of_succ_le (?_ : ('\'' :: rest).length ≤ _)
      rw [← shape]
      exact length_dropWhile_le _ _
    · simp at read
  · cases read
    simp
    omega
  · split at read
    · cases read
      exact length_dropWhile_le _ _
    · simp at read
  · simp at read

theorem skipNumber_length_le (previous : Char) (chars : List Char) :
    (skipNumber previous chars).length ≤ chars.length := by
  induction chars generalizing previous with
  | nil => simp [skipNumber]
  | cons c rest ih =>
    simp only [skipNumber]
    split
    · exact Nat.le_succ_of_le (ih c)
    · exact Nat.le_refl _

end KindLift.Token
