import KindLift.Proofs.InsertedTexts
import KindLift.Proofs.TraitReading
import KindLift.Proofs.WorkPlaces

/-! Declarations that are worked on. A step over a declaration is answered where the edit of
the work on it has been made: where a trait has made room for its alias, where an object has
been put behind a trait, and where an object has more members. -/
namespace KindLift.MendedDecls
open KindLift.Parser AddInstances Token Text TextBoundary CursorAdvance ParserLogic TokenPlacement CursorPlacement TokenReaders TriviaGaps
open TokenEnds TokenEdges TokenTiling ScanRuns ScannedPieces Preambles GrownObjects GrownDecls GrownOutlines MendedPieces MendedOutlines InsertedTexts
open InstancePlacement OutlineGrowth TraitReading
open IndentedTexts (spell IsIndent)

variable {source text tail : List Char} {found seen later : Outline} {left next core : Cursor} {own lead : List Token}
  {change : Decl → Change} {names : List DottedName} {members entries : List String} {holder : Holder} {interface : Interface} {edit : Edit}

/-! ### Steps over declarations -/

/-- Where an object is read, it is read behind what stands in front of it. -/
theorem holder_step (known : StepRead source found seen later left next) (reads : later.decls = seen.decls ++ [.holder holder]) :
    later = { seen with decls := seen.decls ++ [.holder holder] } ∧
      ∃ lead core, Led Parser.holder .holder .objectKw source left next holder lead core := by
  obtain ⟨middle, ate, stepped⟩ := outlineStep_stepped known.ran
  cases stepped with
  | package => simp at reads
  | imports => simp at reads
  | decl noPackage noImport ran =>
    obtain rfl := (List.cons.inj (List.append_cancel_left reads)).1
    exact ⟨rfl, holder_led ate noImport ran⟩

theorem interface_step (known : StepRead source found seen later left next) (reads : later.decls = seen.decls ++ [.interface interface]) :
    later = { seen with decls := seen.decls ++ [.interface interface] } ∧
      ∃ lead core, Led Parser.interface .interface .traitKw source left next interface lead core := by
  obtain ⟨middle, ate, stepped⟩ := outlineStep_stepped known.ran
  cases stepped with
  | package => simp at reads
  | imports => simp at reads
  | decl noPackage noImport ran =>
    obtain rfl := (List.cons.inj (List.append_cancel_left reads)).1
    exact ⟨rfl, interface_led ate noImport ran⟩

/-- An object ends where it has been read. -/
theorem holder_stop (led : Led Parser.holder .holder .objectKw source left next holder lead core) : holder.span.stop = next.lastStop := by
  obtain ⟨_, _, _, _, _, _, _, _, -, -, -, -, rfl⟩ := holder_parts led.read
  rfl

/-- A trait is read from its keyword on. -/
theorem interface_span (led : Led Parser.interface .interface .traitKw source left next interface lead core) :
    ∃ keyword more, core.rest = keyword :: (more ++ next.rest) ∧ keyword.kind = .keyword .traitKw ∧
      interface.span = ⟨keyword.start, next.lastStop⟩ := by
  obtain ⟨keyword, name, rest, behind, skipped, extended, parts⟩ := interface_parts led.read
  have first := (traitTypeParams_advances.ensures _ _ _ _ parts.typeParams).suffix
  have second := ((skipGroups_advances _).ensures _ _ _ _ parts.skips).suffix
  have third := (extendsClause_advances.ensures _ _ _ _ parts.parents).suffix
  have fourth := (optionalTraitBody_advances.ensures _ _ _ _ parts.body).suffix
  obtain ⟨more, whole⟩ := fourth.trans (third.trans (second.trans first))
  exact ⟨keyword, name :: more, by rw [parts.shape, List.cons_append, whole], parts.kind, parts.whole⟩

/-- The tokens of a step are those in front of a declaration and its own. -/
theorem own_split {inner : List Token} (shape : left.rest = own ++ next.rest) (led : left.rest = lead ++ core.rest)
    (inside : core.rest = inner ++ next.rest) : own = lead ++ inner := by
  rw [led, inside, ← List.append_assoc] at shape
  exact (List.append_cancel_right shape).symm

/-! ### Objects that get members -/

variable {words : List Word} {indent : String}

/-- An object without a body. -/
theorem mended_opened (passage : Passage left next own text tail) (led : Led Parser.holder .holder .objectKw source left next holder lead core)
    (bodiless : holder.body = none) (grows : change (.holder holder) = ⟨false, some members⟩) (renders : Renders members entries)
    (extended : extendHolder? source holder entries = some edit) :
    Mended change names source left next seen { seen with decls := seen.decls ++ [.holder holder] } text tail [edit] := by
  unfold extendHolder? at extended
  simp only [Option.bind_eq_bind, Option.bind_eq_some_iff, bodiless, Option.pure_def, Option.some.injEq] at extended
  obtain ⟨holderIndent, found, memberIndent, deeper, rfl⟩ := extended
  have blanks := isIndent_lineIndent found
  obtain ⟨words, bodied, lines⟩ := reads_rendered renders (isIndent_memberIndent blanks deeper)
  obtain ⟨inner, inside⟩ := (holder_advances.ensures _ _ _ _ led.read).suffix
  have cut := own_split passage.shape led.shape inside.symm
  have stop := holder_stop led
  have begins : (" \x7b\n" ++ renderEntries entries memberIndent ++ "\n" ++ holderIndent ++ "\x7d").toList.head? = some ' ' := by simp
  refine mended_behind passage ⟨stop, stop⟩ begins (by decide) (fun tail' _ => reads_opened lines blanks tail') ?_
  · rw [cut, List.map_append, List.append_assoc]
    exact regrows_opened led bodiless bodied grows inside.symm

/-- The last line begins the text, or stands behind a line feed. -/
theorem lastLine_cut (chars : List Char) : ∃ front, chars = front ++ lastLine chars ∧ (front = [] ∨ ∃ more, front = more ++ ['\n']) := by
  have whole : chars = (chars.reverse.dropWhile (· ≠ '\n')).reverse ++ lastLine chars := by
    rw [lastLine, ← List.reverse_append, List.takeWhile_append_dropWhile, List.reverse_reverse]
  refine ⟨_, whole, ?_⟩
  cases left : chars.reverse.dropWhile (· ≠ '\n') with
  | nil => exact .inl rfl
  | cons c more =>
    have feed := ScanSteps.dropWhile_ends left c rfl
    obtain rfl : c = '\n' := by simpa using feed
    exact .inr ⟨more.reverse, List.reverse_cons⟩

theorem lastLine_inline (chars : List Char) : '\n' ∉ lastLine chars := by
  intro member
  have feed := List.mem_takeWhile_imp (List.mem_reverse.mp member)
  simp at feed

/-- The line of a brace that stands alone on it is the end of the gap in front of the brace. -/
theorem brace_line {before front gap : List Char} (solid : EndsSolid front) (between : Gap false gap)
    (blank : isBlank (lastLine (before ++ (front ++ gap))) = true) :
    ∃ behind, gap = behind ++ lastLine (before ++ (front ++ gap)) ∧ behind ≠ [] ∧ Gap false behind ∧
      Gap false (lastLine (before ++ (front ++ gap))) := by
  obtain ⟨start, whole, feed⟩ := lastLine_cut (before ++ (front ++ gap))
  have inline := lastLine_inline (before ++ (front ++ gap))
  generalize lastLine (before ++ (front ++ gap)) = line at *
  have white : IsSpace line := List.all_eq_true.mp blank
  obtain ⟨body, last, rfl, solid⟩ := solid
  -- The last character in front of the gap is not blank, so the line begins behind it.
  have inside : ∃ behind, start = (before ++ (body ++ [last])) ++ behind ∧ gap = behind ++ line := by
    rw [← List.append_assoc] at whole
    rcases List.append_eq_append_iff.mp whole with ⟨behind, shape, rest⟩ | ⟨rest, shape, beyond⟩
    · exact ⟨behind, shape, rest⟩
    · rcases List.eq_nil_or_concat rest with rfl | ⟨rest', d, rfl⟩
      · exact ⟨[], by simpa using shape.symm, by simpa using beyond.symm⟩
      · rw [List.concat_eq_append, ← List.append_assoc, ← List.append_assoc] at shape
        obtain rfl : last = d := by simpa using (List.append_inj' shape rfl).2
        rw [white last (by simp [beyond])] at solid
        cases solid
  obtain ⟨behind, rfl, rfl⟩ := inside
  rcases feed with none | ⟨more, shape⟩
  · simp at none
  rcases List.eq_nil_or_concat behind with rfl | ⟨behind', d, rfl⟩
  · rw [List.append_nil, ← List.append_assoc] at shape
    obtain rfl : last = '\n' := by simpa using (List.append_inj' shape rfl).2
    cases solid
  · rw [List.concat_eq_append, ← List.append_assoc] at shape
    obtain rfl : d = '\n' := by simpa using (List.append_inj' shape rfl).2
    rw [List.concat_eq_append] at *
    exact ⟨_, rfl, by simp, gap_cut between (by simp) white inline, gap_of_space white⟩

/-- A body ends with its brace, which is read last. -/
theorem holder_ending (led : Led Parser.holder .holder .objectKw source left next holder lead core) {body : Body} (bodied : holder.body = some body) :
    ∃ inner ending, core.rest = inner ++ ending :: next.rest ∧ ending.kind = .closer .brace ∧ inner ≠ [] := by
  obtain ⟨keyword, begun, name, named, parents, extended, members, body', expected, called, extending, filled, rfl⟩ := holder_parts led.read
  obtain rfl : body' = some body := bodied
  obtain ⟨_, _, looked, filled⟩ := bind_eq_ok filled
  cases looked
  split at filled
  on_goal 2 => cases filled
  obtain ⟨⟨members, body⟩, _, read, filled⟩ := bind_eq_ok filled
  cases filled
  obtain ⟨opening, inside, ending, shape, -, closes⟩ := holderBody_braces read
  have first := ((expect_advances _ _).ensures _ _ _ _ expected).suffix
  have second := ((expectName_advances _).ensures _ _ _ _ called).suffix
  have third := (extendsClause_advances.ensures _ _ _ _ extending).suffix
  obtain ⟨front, whole⟩ := third.trans (second.trans first)
  exact ⟨front ++ opening :: inside, ending, by rw [← whole, shape, List.append_assoc, List.cons_append], closes, by simp⟩

/-- Where the entries go in a body, and how they are written there. -/
theorem extendBody?_cases {body : Body} {holderIndent rendered : String} (extended : extendBody? source body holderIndent rendered = some edit) :
    ∃ before, takeBytes? body.closeBrace source = some before ∧ edit.start = edit.stop ∧
      (edit.start + byteLength (lastLine before) = body.closeBrace ∧ isBlank (lastLine before) = true ∧
          (∃ separator, IsSpace separator.toList ∧ edit.replacement = separator ++ rendered ++ "\n") ∨
        edit.start = body.closeBrace ∧ edit.replacement = "\n" ++ rendered ++ "\n" ++ holderIndent) := by
  unfold extendBody? at extended
  obtain ⟨before, taken, extended⟩ := Option.bind_eq_some_iff.mp extended
  refine ⟨before, taken, ?_⟩
  dsimp only at extended
  split at extended
  · rename_i alone
    obtain ⟨inner, -, extended⟩ := Option.bind_eq_some_iff.mp extended
    cases extended
    obtain ⟨right, rfl, width⟩ := takeBytes?_eq_some_iff.mp taken
    obtain ⟨front, whole⟩ := lastLine_suffix before
    have length := congrArg byteLength whole
    rw [byteLength_append] at length
    simp only [Bool.and_eq_true] at alone
    refine ⟨rfl, .inl ⟨?_, alone.2, _, ?_, rfl⟩⟩
    · show body.closeBrace - _ + _ = _
      omega
    · split
      · simp [IsSpace]
      · simp [IsSpace]
        decide
  · cases extended
    exact ⟨rfl, .inr ⟨rfl, rfl⟩⟩

/-- An object with a body. -/
theorem mended_extended (passage : Passage left next own text tail) (sound : Sound source left)
    (led : Led Parser.holder .holder .objectKw source left next holder lead core) {body : Body} (bodied : holder.body = some body)
    (remains : Remains source left (text ++ tail)) (braced : body.closeBrace + 1 = next.lastStop)
    (grows : change (.holder holder) = ⟨false, some members⟩) (renders : Renders members entries)
    (extended : extendHolder? source holder entries = some edit) :
    Mended change names source left next seen { seen with decls := seen.decls ++ [.holder holder] } text tail [edit] := by
  unfold extendHolder? at extended
  simp only [Option.bind_eq_bind, Option.bind_eq_some_iff, bodied] at extended
  obtain ⟨holderIndent, found, memberIndent, deeper, extended⟩ := extended
  have blanks := isIndent_lineIndent found
  obtain ⟨words, filled, lines⟩ := reads_rendered renders (isIndent_memberIndent blanks deeper)
  obtain ⟨inner, ending, inside, closes, nonempty⟩ := holder_ending led bodied
  obtain rfl : own = (lead ++ inner) ++ [ending] := by
    rw [@own_split _ _ _ _ _ (inner ++ [ending]) passage.shape led.shape (by simp [inside]), List.append_assoc]
  have shape : left.rest = (lead ++ inner) ++ ending :: next.rest := by rw [passage.shape]; simp
  obtain ⟨-, stands, -⟩ := inOrder_middle (shape ▸ sound.ordered)
  have lexeme : ending.lexeme = ['\x7d'] := by
    have spelled := stands.spelled
    rwa [closes] at spelled
  have start : ending.start = body.closeBrace := by
    have last := passage.stop
    rw [stopAfter_snoc] at last
    have width := closer_stop stands closes
    omega
  have word : spell ending = closingWord := by rw [spell, closes, lexeme]; rfl
  have plain : Plain [ending] := by
    intro token first
    cases first
    simp [closes]
  obtain ⟨taken, cut, insertion, where'⟩ := extendBody?_cases extended
  -- The text in front of the brace, whatever part of it is the gap.
  have ahead (front gap : List Char) (whole : text = front ++ (gap ++ ending.lexeme)) : ∃ before, taken = before ++ (front ++ gap) := by
    obtain ⟨before, rfl, width⟩ := remains
    obtain ⟨right, same, length⟩ := takeBytes?_eq_some_iff.mp cut
    have whole' : before ++ (text ++ tail) = (before ++ (front ++ gap)) ++ (ending.lexeme ++ tail) := by rw [whole]; simp
    have lengths := passage.length
    rw [whole, lexeme] at lengths
    simp only [byteLength_append] at lengths
    have brace : byteLength ['\x7d'] = 1 := rfl
    refine ⟨before, (cut_unique (same.symm.trans whole') ?_).1⟩
    rw [length, byteLength_append, byteLength_append]
    omega
  have single : ∀ tail', tail'.head? = tail.head? → Reads ending.lexeme [spell ending] tail' := by
    intro tail' _
    rw [lexeme, word]
    exact reads_closing tail'
  have regrows : Regrows change names source left next seen { seen with decls := seen.decls ++ [.holder holder] }
      ((lead ++ inner).map spell ++ (words ++ [spell ending])) := by
    rw [word, List.map_append, List.append_assoc]
    exact regrows_extended led bodied filled grows closes inside
  rcases where' with ⟨stop, blank, separator, white, put⟩ | ⟨stop, put⟩
  · refine mended_inside passage (by simp [nonempty]) plain ⟨insertion, stop.trans start.symm⟩ (fun front gap solid between whole => ?_)
      (fun tail' => ?_) single regrows
    · obtain ⟨before, rfl⟩ := ahead front gap whole
      obtain ⟨behind, shape, filled, first, second⟩ := brace_line solid between blank
      exact ⟨behind, shape, first, second, fun nothing => absurd nothing filled⟩
    · rw [put]
      exact reads_lines lines white tail'
  · refine @mended_inside _ _ _ _ _ _ _ _ _ _ _ _ _ [] passage (by simp [nonempty]) plain ⟨insertion, by rw [stop, start]; rfl⟩ (fun front gap solid between whole => ?_)
      (fun tail' => ?_) single regrows
    · exact ⟨gap, (List.append_nil gap).symm, between, .nil, fun _ => ⟨'\n', _, by rw [put]; simp; rfl, by decide⟩⟩
    · rw [put]
      exact reads_inner lines blanks tail'

/-! ### Traits -/

variable {created : String}

/-- The keyword of a trait is written as one. -/
theorem trait_keyword (sound : Sound source left) (led : Led Parser.interface .interface .traitKw source left next interface lead core) :
    ∃ keyword more, core.rest = keyword :: (more ++ next.rest) ∧ spell keyword = traitHead ∧
      interface.span = ⟨keyword.start, next.lastStop⟩ := by
  obtain ⟨keyword, more, shape, kind, span⟩ := interface_span led
  obtain ⟨-, stands, -⟩ := @inOrder_middle _ _ _ lead _ (by rw [← shape, ← led.shape]; exact sound.ordered)
  have spelled := stands.spelled
  rw [kind] at spelled
  exact ⟨keyword, more, shape, Prod.ext kind spelled, span⟩

theorem feeds_blank : IsSpace ['\n', '\n'] := by
  simp [IsSpace]
  decide

/-- A trait beside which an object is created. -/
theorem mended_beside (passage : Passage left next own text tail) (led : Led Parser.interface .interface .traitKw source left next interface lead core)
    (named : Named interface.name) (grows : change (.interface interface) = ⟨false, some members⟩) (renders : Renders members entries)
    (made : newHolder? source interface entries = some created) :
    Mended change names source left next seen { seen with decls := seen.decls ++ [.interface interface] } text tail
      [.insertion interface.span.stop ("\n\n" ++ created)] := by
  obtain ⟨words, filled, reads⟩ := reads_created named renders made
  obtain ⟨keyword, more, inside, -, span⟩ := interface_span led
  have cut := @own_split _ _ _ _ _ (keyword :: more) passage.shape led.shape inside
  have stop : interface.span.stop = next.lastStop := congrArg Span.stop span
  have begins : ("\n\n" ++ created).toList.head? = some '\n' := by simp
  have behind (tail' : List Char) : Reads ("\n\n" ++ created).toList (objectWords (nameWord interface.name) words) tail' := by
    have shape : ("\n\n" ++ created).toList = ['\n', '\n'] ++ created.toList := by simp
    rw [shape]
    exact Reads.skips (reads_gap (gap_of_space feeds_blank) _) (reads tail')
  refine mended_behind passage ⟨stop, stop⟩ begins (by decide) (fun tail' _ => behind tail') ?_
  rw [cut, List.map_append, List.append_assoc]
  exact regrows_beside led filled (.inl rfl) named.text grows inside

variable (passage : Passage left next own text tail) (sound : Sound source left)
  (led : Led Parser.interface .interface .traitKw source left next interface lead core)
  (stands : edit.start = interface.span.start ∧ edit.stop = interface.span.stop)

include passage sound led stands

/-- Something that begins as the alias of a trait is put in its place. -/
theorem mended_trait {added : List Word} {rest : List Char} (put : edit.replacement.toList = (aliasText .default interface.name).toList ++ rest)
    (reads : ∀ tail', Reads edit.replacement.toList added tail')
    (regrows : core.rest.head?.map spell = some traitHead → Regrows change names source left next seen
      { seen with decls := seen.decls ++ [.interface interface] } (lead.map spell ++ added)) :
    Mended change names source left next seen { seen with decls := seen.decls ++ [.interface interface] } text tail [edit] := by
  obtain ⟨keyword, more, inside, word, span⟩ := trait_keyword sound led
  obtain rfl := @own_split _ _ _ _ _ (keyword :: more) passage.shape led.shape inside
  rw [span] at stands
  have lexeme : keyword.lexeme = "trait".toList := congrArg Prod.snd word
  have kind : keyword.kind = .keyword .traitKw := congrArg Prod.fst word
  have plain : Plain [keyword] := by
    intro token first
    cases first
    simp [kind]
  have begins : edit.replacement.toList.head? = keyword.lexeme.head? := by
    rw [put, lexeme]
    simp [aliasText]
  have trait : core.rest.head?.map spell = some traitHead := by
    rw [inside]
    exact congrArg some word
  exact mended_instead passage plain stands begins (by simp [lexeme]) (fun tail' _ => reads tail') (regrows trait)

/-- A trait that makes room for its alias. -/
theorem mended_alias (named : Named interface.name) (aliases : change (.interface interface) = ⟨true, none⟩)
    (ahead : ∀ token ∈ next.rest.head?, Starts token) (put : edit.replacement = aliasText .default interface.name) :
    Mended change names source left next seen { seen with decls := seen.decls ++ [.interface interface] } text tail [edit] := by
  have shape : edit.replacement.toList = (aliasText .default interface.name).toList ++ [] := by rw [put, List.append_nil]
  have reads (tail' : List Char) : Reads edit.replacement.toList (aliasWords (nameWord interface.name) asyncWord) tail' := by
    rw [put]
    exact reads_alias named tail'
  exact mended_trait passage sound led stands shape reads fun trait =>
    regrows_alias led trait rfl (by simp [asyncWord]) named.text aliases ahead

/-- A trait that makes room for its alias and an object. -/
theorem mended_replaced (named : Named interface.name) (replaces : change (.interface interface) = ⟨true, some members⟩)
    (renders : Renders members entries) (made : newHolder? source interface entries = some created)
    (put : edit.replacement = aliasText .default interface.name ++ "\n\n" ++ created) :
    Mended change names source left next seen { seen with decls := seen.decls ++ [.interface interface] } text tail [edit] := by
  obtain ⟨words, filled, object⟩ := reads_created named renders made
  have shape : edit.replacement.toList = (aliasText .default interface.name).toList ++ (['\n', '\n'] ++ created.toList) := by simp [put]
  have reads (tail' : List Char) : Reads edit.replacement.toList
      (aliasWords (nameWord interface.name) asyncWord ++ objectWords (nameWord interface.name) words) tail' := by
    rw [shape]
    refine .append (reads_alias named _) ?_
    exact Reads.skips (reads_gap (gap_of_space feeds_blank) _) (object tail')
  exact mended_trait passage sound led stands shape reads fun trait =>
    regrows_replaced led trait filled rfl (by simp [asyncWord]) named.text replaces

end KindLift.MendedDecls
