import KindLift.Proofs.EditSplicing
import KindLift.Proofs.GrownOutlines
import KindLift.Proofs.ScannedPieces

/-! Pieces of a text that are edited. A step over an outline reads a piece of the text. An
edit puts something behind the piece, in place of its end, or in front of its last token;
the new piece is cut into tokens by itself, in front of anything that begins as the text
behind the old piece does. -/
namespace KindLift.MendedPieces
open KindLift.Parser Token Text TextBoundary CursorAdvance ParserProgress EditApplication
open TokenTiling TokenEnds TokenEdges TriviaGaps ScanSteps ScanRuns ScannedPieces GrownObjects GrownOutlines
open IndentedTexts (spell)

variable {left next : Cursor} {chars text tail gap : List Char} {own tokens lead : List Token} {token ending : Token} {offset : Nat}
  {words : List Word} {edit : Edit} {source : List Char} {seen later : Outline} {change : Decl → Change} {names : List DottedName}

/-! ### Splitting edits -/

/-- Edits behind a piece leave it alone. -/
theorem spliced_behind {back result : List Char} {edits : List Edit} (spliced : Spliced offset (text ++ back) edits result)
    (behind : ∀ edit ∈ edits, offset + byteLength text ≤ edit.start) :
    ∃ back', result = text ++ back' ∧ Spliced (offset + byteLength text) back edits back' := by
  generalize whole : text ++ back = chars at spliced
  cases spliced with
  | done => exact ⟨back, whole.symm, .done⟩
  | @replaced _ gapText old after edits result edit gap range later =>
    have order := behind edit List.mem_cons_self
    obtain ⟨middle, rfl⟩ := cuts_nested whole (by omega)
    rw [List.append_assoc, List.append_cancel_left_eq] at whole
    rw [byteLength_append, ← Nat.add_assoc] at gap
    subst whole
    exact ⟨_, by rw [List.append_assoc], .replaced gap range later⟩

/-- The edits of a piece are made apart from those behind it. -/
theorem spliced_split {back result : List Char} {edits edits' : List Edit} (spliced : Spliced offset (text ++ back) (edits ++ edits') result)
    (inside : ∀ edit ∈ edits, edit.stop ≤ offset + byteLength text) (behind : ∀ edit ∈ edits', offset + byteLength text ≤ edit.start) :
    ∃ text' back', result = text' ++ back' ∧ Spliced offset text edits text' ∧ Spliced (offset + byteLength text) back edits' back' := by
  induction edits generalizing offset text result with
  | nil =>
    obtain ⟨back', whole, later⟩ := spliced_behind spliced behind
    exact ⟨text, back', whole, .done, later⟩
  | cons edit edits ih =>
    generalize whole : text ++ back = chars at spliced
    cases spliced with
    | @replaced _ gapText old after _ result _ gap range later =>
      have order := inside edit List.mem_cons_self
      rw [← List.append_assoc] at whole
      obtain ⟨middle, rfl⟩ := cuts_nested whole.symm (by rw [byteLength_append]; omega)
      rw [List.append_assoc (gapText ++ old), List.append_cancel_left_eq] at whole
      subst whole
      have place : edit.stop + byteLength middle = offset + byteLength (gapText ++ old ++ middle) := by
        rw [byteLength_append, byteLength_append]
        omega
      obtain ⟨text', back', rfl, first, second⟩ := ih later (fun found member => by rw [place]; exact inside found (List.mem_cons_of_mem _ member))
        (by rwa [place])
      refine ⟨gapText ++ (edit.replacement.toList ++ text'), back', by simp, ?_, place ▸ second⟩
      rw [List.append_assoc]
      exact .replaced gap range first

/-! ### Passages -/

/-- The text of some tokens that were read, and the text behind it. -/
structure Passage (left next : Cursor) (own : List Token) (text tail : List Char) : Prop where
  shape : left.rest = own ++ next.rest
  solid : EndsSolid text
  stop : next.lastStop = stopAfter left.lastStop own
  length : left.lastStop + byteLength text = next.lastStop
  whole : scanFrom left.lastStop false (text ++ tail) = .ok left.rest
  behind : scanFrom next.lastStop false tail = .ok next.rest
  follow : ∀ tail', tail'.head? = tail.head? → Reads text (own.map spell) tail'
  before : ∀ e z, Breaks e → Reads text (own.map spell) (e :: z)

theorem plain_of_starts (starts : ∀ token ∈ tokens.head?, GrownDecls.Starts token) : Plain tokens := fun token first => by
  obtain ⟨literal, dot, -⟩ := (starts token first).plain
  exact ⟨literal, dot⟩

theorem stopAfter_snoc (offset : Nat) (front : List Token) (token : Token) : stopAfter offset (front ++ [token]) = token.stop := by
  rw [stopAfter, List.foldl_append, List.foldl_cons, List.foldl_nil]

/-- A step that reads tokens reads a piece of the text. -/
theorem passage_of_leads (scanned : scanFrom left.lastStop false chars = .ok left.rest) (leads : Leads left next) (shorter : Shorter left next)
    (plain : Plain next.rest) : ∃ own text tail, chars = text ++ tail ∧ Passage left next own text tail := by
  rcases leads with rfl | ⟨front, token, shape, stop⟩
  · exact absurd shorter (Nat.lt_irrefl _)
  · have shape : left.rest = (front ++ [token]) ++ next.rest := by rw [shape]; simp
    obtain ⟨text, tail, rfl, length, solid, behind, follow, before⟩ := reads_begun (shape ▸ scanned) plain
    rw [stopAfter_snoc, ← stop] at length behind
    exact ⟨_, text, tail, rfl, shape, solid (by simp), by rw [stopAfter_snoc, stop], length, scanned, behind, follow, before⟩

/-- A step of an outline is answered where the edits have been made to what it read. -/
def Mended (change : Decl → Change) (names : List DottedName) (source : List Char) (left next : Cursor) (seen later : Outline)
    (text tail : List Char) (edits : List Edit) : Prop :=
  ∃ text' words, Spliced left.lastStop text edits text' ∧ text'.head? = text.head? ∧
    (∀ tail', tail'.head? = tail.head? → Reads text' words tail') ∧ Regrows change names source left next seen later words

theorem nonempty_of_solid (solid : EndsSolid text) : text ≠ [] := by
  obtain ⟨front, last, rfl, -⟩ := solid
  simp

theorem head_append {more : List Char} (nonempty : text ≠ []) : (text ++ more).head? = text.head? := by
  cases text with
  | nil => exact absurd rfl nonempty
  | cons => rfl

theorem mended_kept (passage : Passage left next own text tail) (regrows : Regrows change names source left next seen later (own.map spell)) :
    Mended change names source left next seen later text tail [] :=
  ⟨text, _, .done, rfl, passage.follow, regrows⟩

/-- Something is put behind the piece. -/
theorem mended_behind {added : List Word} {e : Char} (passage : Passage left next own text tail)
    (stands : edit.start = next.lastStop ∧ edit.stop = next.lastStop) (begins : edit.replacement.toList.head? = some e) (breaks : Breaks e)
    (reads : ∀ tail', tail'.head? = tail.head? → Reads edit.replacement.toList added tail')
    (regrows : Regrows change names source left next seen later (own.map spell ++ added)) :
    Mended change names source left next seen later text tail [edit] := by
  refine ⟨text ++ edit.replacement.toList, _, ?_, head_append (nonempty_of_solid passage.solid), fun tail' same => ?_, regrows⟩
  · have spliced : Spliced left.lastStop (text ++ ([] ++ [])) [edit] (text ++ (edit.replacement.toList ++ [])) :=
      .replaced (passage.length.trans stands.1.symm) (by rw [stands.1, stands.2]; rfl) .done
    simpa using spliced
  · refine .append ?_ (reads tail' same)
    obtain ⟨more, put⟩ := List.head?_eq_some_iff.mp begins
    rw [put]
    exact passage.before e _ breaks

/-- Tokens of a text end behind where it begins. -/
theorem tiled_order {front back : List Token} (tiled : Tiled offset chars (front ++ back)) : offset ≤ stopAfter offset front := by
  induction front generalizing offset chars with
  | nil => exact Nat.le_refl _
  | cons first front ih =>
    cases tiled with
    | token between start nonempty later =>
      have width : first.start ≤ first.stop := Nat.le_add_right _ _
      have onward : first.stop ≤ stopAfter first.stop front := ih later
      show offset ≤ stopAfter first.stop front
      omega

/-- The text in front of a token of a passage, with the gap in front of the token. -/
theorem passage_cut {more : List Token} (passage : Passage left next (lead ++ token :: more) text tail) (plain : Plain [token]) :
    ∃ front gap rest, text = front ++ (gap ++ (token.lexeme ++ rest)) ∧ Gap false gap ∧
      left.lastStop + byteLength front + byteLength gap = token.start ∧ token.start + byteLength (token.lexeme ++ rest) = next.lastStop ∧
      (lead ≠ [] → EndsSolid front) ∧
      (∀ tail', tail'.head? = (gap ++ token.lexeme).head? → Reads front (lead.map spell) tail') ∧
      ∀ e z, Breaks e → Reads front (lead.map spell) (e :: z) := by
  have scanned := passage.whole
  rw [passage.shape, List.append_assoc, List.cons_append] at scanned
  obtain ⟨front, behind, whole, length, solid, scanned', follow, before⟩ := reads_begun scanned plain
  have tiled := scanFrom_tiled scanned'
  generalize others : token :: (more ++ next.rest) = items at tiled
  cases tiled with
  | last => cases others
  | @token _ gap rest first items between start nonempty later =>
    cases others
    have order := tiled_order later
    have stop : next.lastStop = stopAfter token.stop more := by
      rw [passage.stop, stopAfter, stopAfter, List.foldl_append, List.foldl_cons]
    have width : token.stop = token.start + byteLength token.lexeme := rfl
    have lengths := passage.length
    rw [← List.append_assoc, ← List.append_assoc] at whole
    obtain ⟨middle, rfl⟩ := cuts_nested whole.symm (by rw [byteLength_append, byteLength_append]; omega)
    refine ⟨front, gap, middle, by simp, between, by omega, ?_, solid, fun tail' same => ?_, before⟩
    · simp only [byteLength_append] at lengths ⊢
      omega
    · refine follow tail' (same.trans ?_)
      rw [← List.append_assoc]
      exact (head_append (by simp [nonempty])).symm

/-- Something is put in place of the end of the piece. -/
theorem mended_instead {more : List Token} {added : List Word} (passage : Passage left next (lead ++ token :: more) text tail)
    (plain : Plain [token]) (stands : edit.start = token.start ∧ edit.stop = next.lastStop)
    (begins : edit.replacement.toList.head? = token.lexeme.head?) (nonempty : token.lexeme ≠ [])
    (reads : ∀ tail', tail'.head? = tail.head? → Reads edit.replacement.toList added tail')
    (regrows : Regrows change names source left next seen later (lead.map spell ++ added)) :
    Mended change names source left next seen later text tail [edit] := by
  obtain ⟨front, gap, rest, rfl, between, start, stop, -, follow, -⟩ := passage_cut passage plain
  have put : edit.replacement.toList ≠ [] := by
    intro nothing
    rw [nothing] at begins
    exact nonempty (List.head?_eq_none_iff.mp begins.symm)
  refine ⟨front ++ (gap ++ edit.replacement.toList), _, ?_, ?_, fun tail' same => ?_, regrows⟩
  · have spliced : Spliced left.lastStop ((front ++ gap) ++ ((token.lexeme ++ rest) ++ [])) [edit] ((front ++ gap) ++ (edit.replacement.toList ++ [])) :=
      .replaced (by rw [byteLength_append, stands.1]; omega) (by rw [stands.1, stands.2]; exact stop) .done
    simpa using spliced
  · rcases List.eq_nil_or_concat front with rfl | ⟨_, _, rfl⟩
    · rcases List.eq_nil_or_concat gap with rfl | ⟨_, _, rfl⟩
      · rw [List.nil_append, List.nil_append, List.nil_append, List.nil_append, head_append nonempty, begins]
      · rw [List.nil_append, List.nil_append, head_append (by simp), head_append (by simp)]
    · rw [head_append (by simp), head_append (by simp)]
  · rw [show added = [] ++ added from rfl]
    refine .append (follow _ ?_) (.append (reads_gap between _) (reads tail' same))
    rcases List.eq_nil_or_concat gap with rfl | ⟨_, _, rfl⟩
    · rw [List.nil_append, List.nil_append, head_append put, begins]
    · rw [List.append_assoc, head_append (by simp), head_append (by simp)]

/-- Something is put in front of the last token of the piece, somewhere in the gap in front of it. -/
theorem mended_inside {added : List Word} {blanks : List Char} (passage : Passage left next (lead ++ [ending]) text tail) (nonempty : lead ≠ [])
    (plain : Plain [ending]) (stands : edit.start = edit.stop ∧ edit.start + byteLength blanks = ending.start)
    (cut : ∀ front gap, EndsSolid front → Gap false gap → text = front ++ (gap ++ ending.lexeme) → ∃ behind, gap = behind ++ blanks ∧
      Gap false behind ∧ Gap false blanks ∧ (behind = [] → ∃ e z, edit.replacement.toList = e :: z ∧ Breaks e))
    (reads : ∀ tail', Reads edit.replacement.toList added tail') (single : ∀ tail', tail'.head? = tail.head? → Reads ending.lexeme [spell ending] tail')
    (regrows : Regrows change names source left next seen later (lead.map spell ++ (added ++ [spell ending]))) :
    Mended change names source left next seen later text tail [edit] := by
  obtain ⟨front, gap, rest, rfl, between, start, stop, solid, follow, before⟩ := passage_cut passage plain
  obtain rfl : rest = [] := by
    have last := passage.stop
    rw [stopAfter_snoc] at last
    have width : ending.stop = ending.start + byteLength ending.lexeme := rfl
    refine eq_nil_of_width ?_
    rw [byteLength_append] at stop
    omega
  rw [List.append_nil] at *
  obtain ⟨behind, rfl, first, second, fresh⟩ := cut front gap (solid nonempty) between rfl
  refine ⟨front ++ (behind ++ (edit.replacement.toList ++ (blanks ++ ending.lexeme))), _, ?_, ?_, fun tail' same => ?_, regrows⟩
  · have spliced : Spliced left.lastStop ((front ++ behind) ++ ([] ++ (blanks ++ ending.lexeme))) [edit]
        ((front ++ behind) ++ (edit.replacement.toList ++ (blanks ++ ending.lexeme))) :=
      .replaced (by rw [byteLength_append] at start ⊢; omega) (by rw [stands.1]; rfl) .done
    simpa using spliced
  · rw [head_append (nonempty_of_solid (solid nonempty)), head_append (nonempty_of_solid (solid nonempty))]
  · refine .append ?_ (show Reads _ ([] ++ (added ++ ([] ++ [spell ending]))) _ from .append (reads_gap first _) (.append (reads _)
      (.append (reads_gap second _) (single tail' same))))
    rcases List.eq_nil_or_concat behind with rfl | ⟨_, _, rfl⟩
    · obtain ⟨e, z, put, breaks⟩ := fresh rfl
      rw [put]
      exact before e _ breaks
    · refine follow _ ?_
      simp only [List.append_assoc]
      rw [head_append (by simp), head_append (by simp)]

end KindLift.MendedPieces
