import KindLift.Proofs.TextBoundary
import KindLift.Token.ByteScanner

/-! What a program does that moves among the bytes of a text. One that follows a reader of
characters ends where that leaves off, or refuses the text for the same fault; in both
cases it ends at a boundary and has not panicked. -/
namespace KindLift.BytePrograms
open Token Text TextBoundary
open ByteScanner hiding rest skipTrivia

variable {α β : Type} {source chars tail opened : List Char} {offset start stop : Nat} {program first : Scanner α}
  {next : α → Scanner β} {value : α} {result : β} {c : Char} {fault : Fault}

/-- What is done over a text from an offset on: what it ends in, and where. -/
def exec (source : List Char) (program : Scanner α) (offset : Nat) : Option (Except Stop α × Nat) :=
  (program.run source).run.run offset

/-- The given characters are what is left of the text at the offset. -/
def At (source : List Char) (offset : Nat) (chars : List Char) : Prop := dropBytes? offset source = some chars

/-- The program gives the value, and leaves the given characters of the text. -/
def Reads (source : List Char) (program : Scanner α) (offset : Nat) (value : α) (chars : List Char) : Prop :=
  ∃ stop, exec source program offset = some (.ok value, stop) ∧ At source stop chars

/-- The program refuses the text where the fault is, and stands at a boundary. -/
def Refuses (source : List Char) (program : Scanner α) (offset : Nat) (fault : Fault) : Prop :=
  ∃ stop, exec source program offset =
      some (.error (.refused (.locate source (byteLength source - byteLength fault.rest) fault.cause)), stop) ∧
    isBoundary source stop = true

/-- The program reads what the reader of characters reads, or refuses the text as that does. -/
def Follows (source : List Char) (program : Scanner α) (offset : Nat) (value : α) : Except Fault (List Char) → Prop
  | .ok chars => Reads source program offset value chars
  | .error fault => Refuses source program offset fault

/-- The program finds what the reader of characters finds, or refuses the text as that does. -/
def Finds (source : List Char) (program : Scanner α) (offset : Nat) : Except Fault (α × List Char) → Prop
  | .ok (value, chars) => Reads source program offset value chars
  | .error fault => Refuses source program offset fault

/-- The program comes to an end at a boundary of the text, and does not panic. -/
def Steady (source : List Char) (program : Scanner α) (offset : Nat) : Prop :=
  ∃ outcome stop, exec source program offset = some (outcome, stop) ∧ isBoundary source stop = true ∧ outcome ≠ .error .panicked

/-! ### Places -/

theorem At.cut (here : At source offset chars) : ∃ left, source = left ++ chars ∧ byteLength left = offset :=
  dropBytes?_eq_some_iff.mp here

theorem At.of_cut {left : List Char} (whole : source = left ++ chars) (width : byteLength left = offset) :
    At source offset chars :=
  dropBytes?_eq_some_iff.mpr ⟨left, whole, width⟩

theorem At.boundary (here : At source offset chars) : isBoundary source offset = true := by
  rw [isBoundary, show dropBytes? offset source = some chars from here]
  rfl

theorem At.offset_eq (here : At source offset chars) : offset = byteLength source - byteLength chars := by
  obtain ⟨left, rfl, rfl⟩ := here.cut
  rw [byteLength_append, Nat.add_sub_cancel]

/-- The text in front of an offset is as wide as that. -/
theorem At.width {left : List Char} (here : At source offset chars) (whole : source = left ++ chars) :
    byteLength left = offset := by
  rw [here.offset_eq, whole, byteLength_append, Nat.add_sub_cancel]

/-- The same text is left at no other offset. -/
theorem At.unique (here : At source offset chars) (there : At source stop chars) : stop = offset :=
  there.offset_eq.trans here.offset_eq.symm

/-- What is left of a text is no longer than the text. -/
theorem At.length_le (here : At source offset chars) : chars.length ≤ source.length := by
  obtain ⟨left, rfl, -⟩ := here.cut
  rw [List.length_append]
  exact Nat.le_add_left _ _

theorem At.move {front : List Char} (here : At source offset (front ++ chars)) :
    At source (offset + byteLength front) chars := by
  obtain ⟨left, whole, rfl⟩ := here.cut
  exact dropBytes?_eq_some_iff.mpr ⟨left ++ front, by rw [whole, List.append_assoc], byteLength_append ..⟩

theorem At.step (here : At source offset (c :: tail)) : At source (offset + c.utf8Size) tail :=
  @At.move source tail offset [c] here

/-- The text between two places. -/
theorem At.slice {front : List Char} (here : At source offset (front ++ chars)) (there : At source stop chars) :
    slice? source offset stop = some front := by
  obtain ⟨left, whole, rfl⟩ := here.cut
  refine slice?_eq_some_iff.mpr ⟨left, chars, whole, rfl, ?_⟩
  have moved := here.move.offset_eq
  rw [← there.offset_eq] at moved
  exact moved

/-! ### Programs -/

theorem exec_bind_ok (ran : exec source first offset = some (.ok value, stop)) :
    exec source (first >>= next) offset = exec source (next value) stop := by
  unfold exec at ran ⊢
  rw [ReaderT.run_bind, ExceptT.run_bind, StateT.run_bind, ran]
  rfl

theorem exec_bind_error {cause : Stop} (ran : exec source first offset = some (.error cause, stop)) :
    exec source (first >>= next) offset = some (.error cause, stop) := by
  unfold exec at ran ⊢
  rw [ReaderT.run_bind, ExceptT.run_bind, StateT.run_bind, ran]
  rfl

theorem Reads.bind (ran : Reads source first offset value chars)
    (goes : ∀ stop, At source stop chars → Reads source (next value) stop result tail) :
    Reads source (first >>= next) offset result tail := by
  obtain ⟨stop, ran, there⟩ := ran
  obtain ⟨stop', ran', there'⟩ := goes stop there
  exact ⟨stop', (exec_bind_ok ran).trans ran', there'⟩

theorem Reads.bind_refuses (ran : Reads source first offset value chars)
    (goes : ∀ stop, At source stop chars → Refuses source (next value) stop fault) :
    Refuses source (first >>= next) offset fault := by
  obtain ⟨stop, ran, there⟩ := ran
  obtain ⟨stop', ran', there'⟩ := goes stop there
  exact ⟨stop', (exec_bind_ok ran).trans ran', there'⟩

theorem Refuses.bind (ran : Refuses source first offset fault) : Refuses source (first >>= next) offset fault := by
  obtain ⟨stop, ran, there⟩ := ran
  exact ⟨stop, exec_bind_error ran, there⟩

/-- A program goes on where another has read something. -/
theorem Reads.follows {outcome : Except Fault (List Char)} (ran : Reads source first offset value chars)
    (goes : ∀ stop, At source stop chars → Follows source (next value) stop result outcome) :
    Follows source (first >>= next) offset result outcome := by
  cases outcome with
  | ok tail => exact ran.bind goes
  | error fault => exact ran.bind_refuses goes

/-- A program goes on where another has followed a reader. -/
theorem Follows.bind {outcome : Except Fault (List Char)} {reader : List Char → Except Fault (List Char)}
    (ran : Follows source first offset value outcome)
    (goes : ∀ chars, outcome = .ok chars → ∀ stop, At source stop chars → Follows source (next value) stop result (reader chars)) :
    Follows source (first >>= next) offset result (outcome.bind reader) := by
  cases outcome with
  | ok chars => exact Reads.follows ran (goes chars rfl)
  | error fault => exact Refuses.bind ran

theorem Follows.done (here : At source offset chars) (value : α) : Follows source (pure value) offset value (.ok chars) :=
  ⟨offset, rfl, here⟩

theorem Reads.finds {outcome : Except Fault (β × List Char)} (ran : Reads source first offset value chars)
    (goes : ∀ stop, At source stop chars → Finds source (next value) stop outcome) :
    Finds source (first >>= next) offset outcome := by
  cases outcome with
  | ok found => exact ran.bind goes
  | error fault => exact ran.bind_refuses goes

theorem Follows.bind_finds {outcome : Except Fault (List Char)} {reader : List Char → Except Fault (β × List Char)}
    (ran : Follows source first offset value outcome)
    (goes : ∀ chars, outcome = .ok chars → ∀ stop, At source stop chars → Finds source (next value) stop (reader chars)) :
    Finds source (first >>= next) offset (outcome.bind reader) := by
  cases outcome with
  | ok chars => exact Reads.finds ran (goes chars rfl)
  | error fault => exact Refuses.bind ran

theorem finds_get {next : Nat → Scanner β} {outcome : Except Fault (β × List Char)}
    (goes : Finds source (next offset) offset outcome) : Finds source (get >>= next) offset outcome := by
  cases outcome <;> exact goes

theorem finds_read {next : List Char → Scanner β} {outcome : Except Fault (β × List Char)}
    (goes : Finds source (next source) offset outcome) : Finds source (read >>= next) offset outcome := by
  cases outcome <;> exact goes

/-- Something is passed over, and is what the reader says. -/
theorem Follows.finds {outcome : Except Fault (List Char)} (ran : Follows source first offset value outcome) (result : β) :
    Finds source (do let _ ← first; return result) offset (outcome.map (result, ·)) := by
  cases outcome with
  | ok chars => exact Reads.bind ran fun stop there => ⟨stop, rfl, there⟩
  | error fault => exact Refuses.bind ran

/-! ### Ends -/

theorem Reads.steady (ran : Reads source first offset value chars) : Steady source first offset := by
  obtain ⟨stop, ran, there⟩ := ran
  exact ⟨_, stop, ran, there.boundary, by simp⟩

theorem Refuses.steady (ran : Refuses source first offset fault) : Steady source first offset := by
  obtain ⟨stop, ran, there⟩ := ran
  exact ⟨_, stop, ran, there, by simp⟩

theorem Follows.steady {outcome : Except Fault (List Char)} (ran : Follows source first offset value outcome) :
    Steady source first offset := by
  cases outcome with
  | ok chars => exact Reads.steady ran
  | error fault => exact Refuses.steady ran

theorem Finds.steady {outcome : Except Fault (α × List Char)} (ran : Finds source first offset outcome) :
    Steady source first offset := by
  cases outcome with
  | ok found => exact Reads.steady ran
  | error fault => exact Refuses.steady ran

/-! ### Loops

A loop does its step and goes on, or is left. -/

theorem loop_eq [Nonempty β] (step : α → Scanner (α ⊕ β)) (state : α) : repeatM step state = (do
    match ← step state with
    | .inl state => repeatM step state
    | .inr result => return result) :=
  repeatM_eq_of_monadTail state

theorem refuse_bind (start : Nat) (cause : ParseCause) (next : α → Scanner β) :
    refuse start cause >>= next = refuse start cause := rfl

theorem eatWhile_eq (p : Char → Bool) : eatWhile p = (do
    if (← peek).any p then
      let _ ← bump
      eatWhile p) := by
  refine (loop_eq _ ()).trans ?_
  simp only [bind_assoc]
  refine bind_congr fun c => ?_
  split
  · simp only [bind_assoc, pure_bind]
    rfl
  · rfl

theorem number_eq (previous : Char) : number previous = (do
    match ← peek with
    | none => return
    | some c =>
      let sign := (c = '-' || c = '+') && (previous = 'e' || previous = 'E')
      let fraction := c = '.' && (← peekAt 1).any Char.isDigit
      if c.isAlphanum || c = '_' || sign || fraction then
        let _ ← bump
        number c) := by
  refine (loop_eq _ previous).trans ?_
  simp only [bind_assoc]
  refine bind_congr fun c => ?_
  cases c with
  | none => rfl
  | some c =>
    simp only [bind_assoc]
    refine bind_congr fun ahead => ?_
    split
    · simp only [bind_assoc, pure_bind]
      rfl
    · rfl

theorem closeComment_eq (start depth : Nat) : closeComment start depth = (do
    if ← startsWith ['/', '*'] then
      move 2
      closeComment start (depth + 1)
    else if ← startsWith ['*', '/'] then
      match depth with
      | 0 => throw .panicked
      | outer + 1 =>
        move 2
        if outer = 0 then return
        else closeComment start outer
    else
      match ← bump with
      | some _ => closeComment start depth
      | none => refuse start .unterminatedComment) := by
  refine (loop_eq _ depth).trans ?_
  simp only [bind_assoc]
  refine bind_congr fun opens => ?_
  split
  · simp only [bind_assoc, pure_bind]
    rfl
  simp only [bind_assoc]
  refine bind_congr fun closes => ?_
  split
  · cases depth with
    | zero => rfl
    | succ outer =>
      simp only [bind_assoc]
      refine bind_congr fun _ => ?_
      split
      · rfl
      · rfl
  simp only [bind_assoc]
  refine bind_congr fun c => ?_
  cases c with
  | none => rfl
  | some c => rfl

theorem skipTrivia_eq : ByteScanner.skipTrivia = (do
    eatWhile isWhiteSpace
    if ← startsWith ['/', '/'] then
      eatWhile (· ≠ '\n')
      ByteScanner.skipTrivia
    else if ← startsWith ['/', '*'] then
      blockComment
      ByteScanner.skipTrivia) := by
  refine (loop_eq _ ()).trans ?_
  simp only [bind_assoc]
  refine bind_congr fun _ => bind_congr fun line => ?_
  split
  · simp only [bind_assoc, pure_bind]
    rfl
  simp only [bind_assoc]
  refine bind_congr fun block => ?_
  split
  · simp only [bind_assoc, pure_bind]
    rfl
  · rfl

theorem run_eq (tokens : List (TokenKind × Span)) : run tokens = (do
    ByteScanner.skipTrivia
    let start ← get
    match ← peek with
    | none => return tokens
    | some c =>
      let kind ← nextKind c tokens.getLast?
      run (tokens ++ [(kind, ⟨start, ← get⟩)])) := by
  refine (loop_eq _ tokens).trans ?_
  simp only [bind_assoc]
  refine bind_congr fun _ => bind_congr fun start => bind_congr fun c => ?_
  cases c with
  | none => rfl
  | some c =>
    simp only [bind_assoc, pure_bind]
    rfl

section

variable (splice : Scanner Unit) (string : Bool → Scanner Unit)

theorem closeTripled_eq (start : Nat) (interpolated : Bool) : closeTripled splice start interpolated = (do
    if ← startsWith ['"', '"', '"'] then
      move 3
      eatWhile (· = '"')
    else if interpolated && (← startsWith ['$', '\x7b']) then
      splice
      closeTripled splice start interpolated
    else
      match ← bump with
      | some _ => closeTripled splice start interpolated
      | none => refuse start .unterminatedString) := by
  refine (loop_eq _ ()).trans ?_
  simp only [bind_assoc]
  refine bind_congr fun three => ?_
  split
  · simp only [bind_assoc, pure_bind, bind_pure_unit]
  simp only [bind_assoc]
  refine bind_congr fun opens => ?_
  split
  · simp only [bind_assoc, pure_bind]
    rfl
  simp only [bind_assoc]
  refine bind_congr fun c => ?_
  cases c with
  | none => rfl
  | some c => rfl

theorem closeQuoted_eq (start : Nat) (interpolated : Bool) : closeQuoted splice start interpolated = (do
    match ← peek with
    | none => refuse start .unterminatedString
    | some '\n' => refuse start .unterminatedString
    | some '"' => let _ ← bump
    | some '\\' =>
      let _ ← bump
      let _ ← bump
      closeQuoted splice start interpolated
    | some c =>
      if c = '$' && interpolated && (← peekAt 1) = some '\x7b' then
        splice
        closeQuoted splice start interpolated
      else
        let _ ← bump
        closeQuoted splice start interpolated) := by
  refine (loop_eq _ ()).trans ?_
  simp only [bind_assoc]
  refine bind_congr fun c => ?_
  split
  · rfl
  · rfl
  · simp only [bind_assoc, pure_bind]
  · simp only [bind_assoc, pure_bind]
    rfl
  · simp only [bind_assoc]
    refine bind_congr fun ahead => ?_
    split
    · simp only [bind_assoc, pure_bind]
      rfl
    · simp only [bind_assoc, pure_bind]
      rfl

theorem closeSplice_eq (start depth : Nat) : closeSplice string start depth = (do
    match depth with
    | 0 => return
    | outer + 1 =>
      ByteScanner.skipTrivia
      match ← peek with
      | none => refuse start .unterminatedSplice
      | some '\x7b' =>
        let _ ← bump
        closeSplice string start (outer + 1 + 1)
      | some '\x7d' =>
        let _ ← bump
        closeSplice string start outer
      | some '"' =>
        string ((← passed).getLast?.any isIdentPart)
        closeSplice string start (outer + 1)
      | some _ =>
        let _ ← bump
        closeSplice string start (outer + 1)) := by
  refine (loop_eq _ depth).trans ?_
  cases depth with
  | zero => rfl
  | succ outer =>
    simp only [bind_assoc]
    refine bind_congr fun _ => bind_congr fun c => ?_
    split
    · rfl
    all_goals
      simp only [bind_assoc, pure_bind]
      rfl

end

/-! ### Single steps -/

theorem exec_rest (here : At source offset chars) : exec source ByteScanner.rest offset = some (.ok chars, offset) := by
  have found : dropBytes? offset source = some chars := here
  have get : exec source (get : Scanner Nat) offset = some (.ok offset, offset) := rfl
  have read : exec source (read : Scanner (List Char)) offset = some (.ok source, offset) := rfl
  rw [ByteScanner.rest, exec_bind_ok get, exec_bind_ok read, found]
  rfl

theorem follows_get {next : Nat → Scanner β} {outcome : Except Fault (List Char)}
    (goes : Follows source (next offset) offset result outcome) : Follows source (get >>= next) offset result outcome := by
  cases outcome <;> exact goes

theorem reads_peek (here : At source offset chars) : Reads source peek offset chars.head? chars :=
  ⟨offset, exec_bind_ok (exec_rest here), here⟩

theorem reads_peekAt (here : At source offset chars) (index : Nat) : Reads source (peekAt index) offset chars[index]? chars :=
  ⟨offset, exec_bind_ok (exec_rest here), here⟩

theorem reads_startsWith (here : At source offset chars) (mark : List Char) :
    Reads source (startsWith mark) offset (mark.isPrefixOf chars) chars :=
  ⟨offset, exec_bind_ok (exec_rest here), here⟩

theorem reads_move {front : List Char} (here : At source offset (front ++ chars)) {bytes : Nat}
    (width : byteLength front = bytes) : Reads source (move bytes) offset () chars :=
  ⟨offset + bytes, rfl, width ▸ here.move⟩

/-- A mark of two characters is moved over by its width. -/
theorem reads_mark {d : Char} (here : At source offset (c :: d :: tail)) (width : byteLength [c, d] = 2) :
    Reads source (move 2) offset () tail :=
  @reads_move source tail offset [c, d] here 2 width

theorem reads_bump (here : At source offset (c :: tail)) : Reads source bump offset (some c) tail := by
  refine (reads_peek here).bind fun _ here => ?_
  have moved : Reads source (move c.utf8Size) _ () tail := @reads_move source tail _ [c] here _ rfl
  exact moved.bind fun stop there => ⟨stop, rfl, there⟩

theorem reads_bump_end (here : At source offset []) : Reads source bump offset none [] :=
  (reads_peek here).bind fun stop there => ⟨stop, rfl, there⟩

theorem refuses_refuse (here : At source offset chars) (began : At source start opened) (cause : ParseCause) :
    Refuses source (refuse start cause : Scanner α) offset ⟨opened, cause⟩ := by
  refine ⟨offset, ?_, here.boundary⟩
  rw [← began.offset_eq]
  rfl

theorem reads_passed {left : List Char} (here : At source offset chars) (whole : source = left ++ chars) :
    Reads source passed offset left chars := by
  have taken : takeBytes? offset source = some left := takeBytes?_eq_some_iff.mpr ⟨chars, whole, here.width whole⟩
  have get : exec source (get : Scanner Nat) offset = some (.ok offset, offset) := rfl
  have read : exec source (read : Scanner (List Char)) offset = some (.ok source, offset) := rfl
  refine ⟨offset, ?_, here⟩
  rw [passed, exec_bind_ok get, exec_bind_ok read, taken]
  rfl

theorem reads_textSince {front : List Char} (began : At source start (front ++ chars)) (here : At source offset chars) :
    Reads source (textSince start) offset front chars := by
  have read : exec source (read : Scanner (List Char)) offset = some (.ok source, offset) := rfl
  have get : exec source (get : Scanner Nat) offset = some (.ok offset, offset) := rfl
  refine ⟨offset, ?_, here⟩
  rw [textSince, exec_bind_ok read, exec_bind_ok get, began.slice here]
  rfl

theorem reads_eatWhile (p : Char → Bool) (here : At source offset chars) :
    Reads source (eatWhile p) offset () (chars.dropWhile p) := by
  induction chars generalizing offset with
  | nil =>
    rw [eatWhile_eq]
    exact (reads_peek here).bind fun stop there => ⟨stop, rfl, there⟩
  | cons c tail ih =>
    rw [eatWhile_eq]
    refine (reads_peek here).bind fun stop there => ?_
    rw [List.head?_cons, Option.any_some]
    by_cases goes : p c = true
    · rw [if_pos goes, List.dropWhile_cons_of_pos goes]
      exact (reads_bump there).bind fun _ there => ih there
    · rw [if_neg goes, List.dropWhile_cons_of_neg goes]
      exact ⟨stop, rfl, there⟩

end KindLift.BytePrograms
