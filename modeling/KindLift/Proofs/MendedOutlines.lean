import KindLift.Proofs.MendedPieces

/-! Outlines of texts that are edited. Each step over the old text is answered by steps over
the new one, whose pieces are those of the old text with the edits that lie in them. So the
whole text is read again, and what it declares has become of what it declared before. -/
namespace KindLift.MendedOutlines
open KindLift.Parser Token Text TextBoundary CursorAdvance CursorPlacement ParserLogic ParserProgress ParserSimulation EditApplication EditSplicing
open ScannedPieces SeamLogic SeamParsers GrownDecls GrownOutlines MendedPieces OutlineSpans Preambles TokenReaders
open IndentedTexts (spell)

variable {source chars result : List Char} {left next last : Cursor} {seen later found : Outline} {change : Decl → Change}
  {names : List DottedName} {all : List Edit}

/-- The edits that end between two places of the text. -/
def between (low high : Nat) (all : List Edit) : List Edit := all.filter fun edit => low < edit.stop ∧ edit.stop ≤ high

/-- The edits that end behind a place of the text. -/
def behind (low : Nat) (all : List Edit) : List Edit := all.filter fun edit => low < edit.stop

theorem behind_split (ordered : all.Pairwise fun a b => a.stop ≤ b.start) {low high : Nat} (order : low ≤ high) :
    behind low all = between low high all ++ behind high all := by
  induction all with
  | nil => rfl
  | cons edit all ih =>
    obtain ⟨first, ordered⟩ := List.pairwise_cons.mp ordered
    simp only [behind, between, List.filter_cons, decide_eq_true_eq] at ih ⊢
    by_cases above : high < edit.stop
    · -- All other edits end behind the higher place, too.
      have nothing : all.filter (fun edit => low < edit.stop ∧ edit.stop ≤ high) = [] := by
        refine List.filter_eq_nil_iff.mpr fun other member => ?_
        have start := first other member
        have stop := other.ordered
        simp only [decide_eq_true_eq]
        omega
      rw [ih ordered, nothing]
      simp [above, show ¬ edit.stop ≤ high by omega, show low < edit.stop by omega]
    · rw [ih ordered]
      by_cases below : low < edit.stop
      · simp [above, below, show edit.stop ≤ high by omega]
      · simp [above, below]

/-- What is left of a text begins with a clause or a declaration. -/
theorem starts_ahead {reached : Outline × Cursor} (ran : iterateFrom outlineStep seen source left = .ok reached) :
    ∀ token ∈ left.rest.head?, Starts token := by
  rw [iterateFrom] at ran
  split at ran
  · cases ran
  · rename_i stepped
    exact step_starts stepped
  · rename_i stepped
    exact step_starts stepped

/-- What is known of a step in the reading of a text. -/
structure StepRead (source : List Char) (found seen later : Outline) (left next : Cursor) : Prop where
  sound : Sound source left
  before : OutlineRead source left.lastStop seen
  ran : outlineStep seen source left = .ok (.again later, next)
  after : OutlineRead source next.lastStop later
  ahead : ∃ last, iterateFrom outlineStep later source next = .ok (found, last)

/-- The characters are what is left of the text at the cursor. -/
def Remains (source : List Char) (cursor : Cursor) (chars : List Char) : Prop :=
  ∃ before, source = before ++ chars ∧ byteLength before = cursor.lastStop

/-- Every step is answered where the edits that end in its piece have been made to it, and
no other edits reach into it. -/
def Mends (change : Decl → Change) (names : List DottedName) (source : List Char) (found : Outline) (all : List Edit) : Prop :=
  ∀ seen later left next own text tail, StepRead source found seen later left next → Passage left next own text tail →
    Remains source left (text ++ tail) → Mended change names source left next seen later text tail (between left.lastStop next.lastStop all) ∧
      ∀ edit ∈ all, next.lastStop < edit.stop → next.lastStop ≤ edit.start

/-- A text is cut into tokens, and from these an outline is read as the first one was. -/
def ReadAgain (change : Decl → Change) (names : List DottedName) (source : List Char) (left : Cursor) (seen found : Outline)
    (result : List Char) : Prop :=
  ∀ offset, ∃ tokens, scanFrom offset false result = .ok tokens ∧ ∀ other, Flush ⟨source, other, left.rest, tokens⟩ ∧
    ∀ seen' stop, Kept change names seen seen' → ∃ found' last', iterateFrom outlineStep seen' other ⟨tokens, stop⟩ = .ok (found', last') ∧
      Kept change names found found'

theorem outlineStep_leads {outcome : Step Outline Outline} (ran : outlineStep seen source left = .ok (outcome, next)) : Leads left next := by
  obtain ⟨middle, ate, stepped⟩ := outlineStep_stepped ran
  have semis := (eatAll_advances .semi).ensures _ _ _ _ ate
  cases stepped with
  | finished => exact semis
  | package _ _ read => exact semis.trans ((packageClause_advances _).ensures _ _ _ _ read)
  | imports _ _ read => exact semis.trans (importClauses_advances.ensures _ _ _ _ read)
  | decl _ _ read => exact semis.trans (topLevel_advances.ensures _ _ _ _ read)

/-- At its end nothing is read of a text. -/
theorem readAgain_last (ran : outlineStep seen source left = .ok (.done found, next)) (scanned : scanFrom left.lastStop false chars = .ok left.rest) :
    ReadAgain change names source left seen found chars := by
  intro offset
  obtain ⟨middle, ate, done⟩ := outlineStep_stepped ran
  cases done with
  | finished last =>
    obtain ⟨tokens, scanned', alike⟩ := rescanned scanned offset
    refine ⟨tokens, scanned', fun other => ⟨?_, fun seen' stop kept => ?_⟩⟩
    · have flush : Flush ⟨source, other, [], []⟩ := flush_of_second rfl (by simp)
      simpa using flush.back alike
    · have flush : Flush ⟨source, other, [], []⟩ := flush_of_second rfl (by simp)
      have along : (Seam.mk source other [] []).Along left ⟨tokens, stop⟩ := ⟨left.rest, tokens, by simp, by simp, alike⟩
      obtain ⟨_, right', ate', -, along⟩ := eatAll_mirrors (flush_asks .semi) _ flush _ _ along _ _ ate (Nat.zero_le _)
      have last' : right'.rest = [] := along.ends (by simp [last])
      exact ⟨seen', right', iterateFrom_done (outlineStep_of_stepped ate' (.finished last')), kept⟩

/-- The whole of a text is read again. -/
theorem readAgain_run (ordered : all.Pairwise fun a b => a.stop ≤ b.start) (mends : Mends change names source found all)
    (inside : ∀ edit ∈ all, ∀ high, OutlineRead source high found → edit.stop ≤ high) (sound : Sound source left)
    (read : OutlineRead source left.lastStop seen) (ran : iterateFrom outlineStep seen source left = .ok (found, last))
    (remains : Remains source left chars) (scanned : scanFrom left.lastStop false chars = .ok left.rest) (spliced : Spliced left.lastStop chars (behind left.lastStop all) result) :
    result.head? = chars.head? ∧ ReadAgain change names source left seen found result := by
  generalize whole : (found, last) = reached at ran
  fun_induction iterateFrom outlineStep seen source left generalizing chars result with
  | case1 => cases ran
  | case2 seen left value next stepped =>
    cases ran
    cases whole
    obtain ⟨_, -, done⟩ := outlineStep_stepped stepped
    obtain rfl : seen = found := by
      cases done
      rfl
    have none : behind left.lastStop all = [] := by
      refine List.filter_eq_nil_iff.mpr fun edit member => ?_
      have := inside edit member _ read
      simp only [decide_eq_true_eq]
      omega
    rw [none] at spliced
    cases spliced
    exact ⟨rfl, readAgain_last stepped scanned⟩
  | case3 seen left later next stepped shorter ih =>
    obtain ⟨sound', read'⟩ := outlineStep_read sound read _ _ stepped
    have plain := plain_of_starts (starts_ahead ran)
    obtain ⟨own, text, tail, rfl, passage⟩ := passage_of_leads scanned (outlineStep_leads stepped) shorter plain
    subst whole
    have known : StepRead source found seen later left next := ⟨sound, read, stepped, read', last, ran⟩
    obtain ⟨⟨text', words, first, begins, reads, regrows⟩, apart⟩ := mends _ _ _ _ _ _ _ known passage remains
    have length := passage.length
    have remains' : Remains source next tail := by
      obtain ⟨before, whole, width⟩ := remains
      exact ⟨before ++ text, by rw [whole, List.append_assoc], by rw [byteLength_append, width, length]⟩
    rw [behind_split ordered (show left.lastStop ≤ next.lastStop by omega)] at spliced
    obtain ⟨text'', tail', rfl, first', later'⟩ := spliced_split spliced (fun edit member => by
        obtain ⟨-, place⟩ := List.mem_filter.mp member
        simp only [decide_eq_true_eq] at place
        omega) (fun edit member => by
        obtain ⟨listed, place⟩ := List.mem_filter.mp member
        rw [length]
        exact apart edit listed (by simpa using place))
    obtain ⟨front, _, -, place⟩ := sound.cut
    obtain rfl : text' = text'' := (splice_of_spliced first place).symm.trans (splice_of_spliced first' place)
    rw [length] at later'
    obtain ⟨same, again⟩ := ih sound' read' remains' passage.behind later' ran
    have nonempty := nonempty_of_solid passage.solid
    have nonempty' : text' ≠ [] := by
      rintro rfl
      exact nonempty (List.head?_eq_none_iff.mp begins.symm)
    refine ⟨by rw [head_append nonempty', head_append nonempty, begins], fun offset => ?_⟩
    obtain ⟨tokens, scanned', answers⟩ := again (offset + byteLength text')
    obtain ⟨front, spelled, scanned'⟩ := (reads tail' same).scanned scanned'
    refine ⟨_, scanned', fun other => ?_⟩
    obtain ⟨flush, onward⟩ := answers other
    obtain ⟨flush', goes⟩ := regrows other front tokens spelled flush
    refine ⟨flush', fun seen' stop kept => ?_⟩
    obtain ⟨later', stop', kept', same⟩ := goes seen' stop kept
    rw [same]
    exact onward later' stop' kept'
  | case4 => cases ran

end KindLift.MendedOutlines
