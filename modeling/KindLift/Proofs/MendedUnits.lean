import KindLift.Proofs.MendedDecls

/-! Units that the rule for instances edits. Every clause and every declaration is read again
where its edits have been made, so the new text has an outline, in which the declarations have
become what the rule makes of them. All that is asked for is that what the rule writes for a
service can be read, and that nothing goes on with the imports it writes. -/
namespace KindLift.MendedUnits
open KindLift.Parser AddInstances Token Text TextBoundary TokenPlacement CursorAdvance CursorPlacement DeclPlacement EditApplication EditSplicing TriviaGaps
open TokenEdges ScannedPieces ImportLines InsertedTexts GrownDecls GrownOutlines MendedPieces MendedOutlines MendedDecls OutlineGrowth
open InstancePlacement OutlineSpans PlannedWork WorkPlaces WrittenImports
open IndentedTexts (spell)

variable {source text tail : List Char} {outline found seen later : Outline} {services : List Service} {service : Service}
  {planned : List (List Work)} {works : List Work} {work : Work} {imported : Option Edit} {edits : List Edit} {edit : Edit}
  {left next : Cursor} {own : List Token} {high : Nat} {change : Decl → Change} {entries : List String}

/-! ### Conditions on what is written -/

/-- If the service gets entries, its name is a plain word and the entries are read as members. -/
def Written (source : List Char) (service : Service) : Prop :=
  ∀ entries, entries? source .default service = some entries → entries ≠ [] →
    Named service.interface.name ∧ Renders (added .default service) entries

/-- The names that the rule imports. -/
abbrev lacked (outline : Outline) : List DottedName := missingImports .default outline.imports

/-- The names that are imported, if the edit is made. -/
def gained (imported : Option Edit) (outline : Outline) : List DottedName := if imported.isSome then lacked outline else []

theorem gained_of_mem (member : edit ∈ imported) : gained imported outline = lacked outline := by
  rw [gained, show imported = some edit from member]
  rfl

/-- No token goes on behind the place where imports go. -/
def Parted (source : List Char) (outline : Outline) : Prop :=
  ∀ place ∈ anchor outline, ∀ rest ∈ dropBytes? place source, ∀ e ∈ rest.head?, Breaks e

instance : Decidable (Parted source outline) := inferInstanceAs (Decidable (∀ place ∈ anchor outline, _))

/-! ### Imports behind a clause -/

theorem lacked_listed {name : DottedName} (lacks : name ∈ lacked outline) : name ∈ Conventions.default.imports.all :=
  (List.mem_filter.mp lacks).1

theorem default_importable : ∀ name ∈ Conventions.default.imports.all, Importable name ∧ Proper name := by decide +kernel

theorem feed_blank : IsSpace ['\n'] := by
  simp [IsSpace]
  decide

/-- What is written for the lacked names, and where. -/
theorem importEdit?_text (isImport : importEdit? .default outline = some edit) : lacked outline ≠ [] ∧
    ((∃ place, anchor outline = some place) ∧ (∃ feeds, IsSpace feeds ∧ edit.replacement.toList = '\n' :: feeds ++ (importLines (lacked outline)).toList) ∨
      anchor outline = none ∧ edit.replacement.toList = (importLines (lacked outline)).toList ++ ['\n', '\n']) := by
  unfold importEdit? at isImport
  split at isImport
  · cases isImport
  · rename_i missing nonempty
    refine ⟨nonempty, ?_⟩
    dsimp only at isImport
    split at isImport
    · rename_i last same
      cases isImport
      exact .inl ⟨⟨last, anchor_last same⟩, [], by simp [IsSpace], by simp [Edit.insertion, importLines]⟩
    · rename_i none
      rw [anchor_package none]
      split at isImport
      · rename_i clause same
        cases isImport
        exact .inl ⟨⟨clause.span.stop, by rw [same]; rfl⟩, ['\n'], feed_blank, by simp [Edit.insertion, importLines]⟩
      · rename_i alone
        cases isImport
        exact .inr ⟨by rw [alone]; rfl, by simp [Edit.insertion, importLines]⟩

/-- A clause behind which the rule puts its imports. -/
theorem mended_clause (known : StepRead source outline seen later left next) (passage : Passage left next own text tail)
    (reads : later.decls = seen.decls) (isImport : importEdit? .default outline = some edit)
    (stands : edit.start = next.lastStop ∧ edit.stop = next.lastStop) (anchored : anchor outline = some next.lastStop)
    (remains : Remains source left (text ++ tail)) (parted : Parted source outline) :
    Mended change (lacked outline) source left next seen later text tail [edit] := by
  obtain ⟨lacks, ⟨-, feeds, white, put⟩ | ⟨none, -⟩⟩ := importEdit?_text isImport
  on_goal 2 => rw [anchored] at none; cases none
  have listed := fun name member => default_importable name (@lacked_listed outline name member)
  obtain ⟨lines, scanned, written, ends⟩ := scan_importLines fun name member => (listed name member).1
  have follow : ∀ e ∈ tail.head?, Breaks e := by
    obtain ⟨before, whole, width⟩ := remains
    have length := passage.length
    refine parted _ anchored tail (dropBytes?_eq_some_iff.mpr ⟨before ++ text, by rw [whole, List.append_assoc], ?_⟩)
    rw [byteLength_append, width, length]
  refine mended_behind passage stands (by rw [put]; rfl) (by decide) (fun tail' same => ?_)
    (regrows_lines known.ran reads passage.shape written lacks (fun name member => (listed name member).2) (starts_ahead known.ahead.choose_spec))
  rw [put]
  have blank : IsSpace ('\n' :: feeds) := fun e member => by
    rcases List.mem_cons.mp member with rfl | later
    · decide
    · exact white e later
  exact Reads.skips (reads_gap (gap_of_space blank) _) (reads_ended scanned ends (by rwa [same]))

/-! ### Declarations -/

theorem entries_ne_nil (found : entries? source .default service = some entries)
    (some : service.shape = .legacy ∨ missingInstances .default service ≠ []) : entries ≠ [] := by
  obtain ⟨relocated, moved, rfl⟩ := Option.map_eq_some_iff.mp found
  rcases some with legacy | incomplete
  · have relocates := (relocates_iff service).mpr legacy
    unfold relocatedEntry? at moved
    rw [if_pos relocates] at moved
    obtain ⟨text, -, rfl⟩ := Option.map_eq_some_iff.mp moved
    simp
  · simp [incomplete]

/-- An object that gets the entries of a service. -/
theorem mended_holder {holder : Holder} {members : List String} (known : StepRead source found seen later left next)
    (passage : Passage left next own text tail) (remains : Remains source left (text ++ tail)) (reads : later.decls = seen.decls ++ [.holder holder])
    (placed : HolderPlaced source holder) (grows : change (.holder holder) = ⟨false, some members⟩) (renders : Renders members entries)
    (extended : extendHolder? source holder entries = some edit) {names : List DottedName} :
    Mended change names source left next seen later text tail [edit] := by
  obtain ⟨rfl, lead, core, led⟩ := holder_step known reads
  cases bodied : holder.body with
  | none => exact mended_opened passage led bodied grows renders extended
  | some body =>
    have braced := (placed.body body bodied).last.trans (holder_stop led)
    exact mended_extended passage known.sound led bodied remains braced grows renders extended

/-- A declaration that is worked on. -/
theorem mended_work (known : StepRead source found seen later left next) (passage : Passage left next own text tail)
    (remains : Remains source left (text ++ tail)) (reads : later.decls = seen.decls ++ [work.decl]) (placed : PartsPlaced source work.decl)
    (written : Written source service) (entered : entries? source .default service = some entries)
    (made : Works source .default service entries works) (member : work ∈ works) (changes : change work.decl = work.change)
    {names : List DottedName} : Mended change names source left next seen later text tail [work.edit] := by
  cases made with
  | moved legacy _ start stop put extended =>
    obtain ⟨named, renders⟩ := written entries entered (entries_ne_nil entered (.inl legacy))
    rcases List.mem_pair.mp member with rfl | rfl
    · obtain ⟨rfl, lead, core, led⟩ := interface_step known reads
      exact mended_alias passage known.sound led ⟨start, stop⟩ named changes (starts_ahead known.ahead.choose_spec) put
    · exact mended_holder known passage remains reads placed changes renders extended
  | replaced legacy _ created start stop put =>
    obtain ⟨named, renders⟩ := written entries entered (entries_ne_nil entered (.inl legacy))
    obtain rfl := List.mem_singleton.mp member
    obtain ⟨rfl, lead, core, led⟩ := interface_step known reads
    exact mended_replaced passage known.sound led ⟨start, stop⟩ named changes renders created put
  | complete => cases member
  | extended _ incomplete _ extended =>
    obtain ⟨-, renders⟩ := written entries entered (entries_ne_nil entered (.inr incomplete))
    obtain rfl := List.mem_singleton.mp member
    exact mended_holder known passage remains reads placed changes renders extended
  | created _ incomplete _ created =>
    obtain ⟨named, renders⟩ := written entries entered (entries_ne_nil entered (.inr incomplete))
    obtain rfl := List.mem_singleton.mp member
    obtain ⟨rfl, lead, core, led⟩ := interface_step known reads
    exact mended_beside passage led named changes renders created

/-! ### Whole units -/

/-- Every step over a unit is answered in the text with all edits. -/
theorem mends_of_arranged (arranged : Arranged outline planned.flatten imported edits) (plan : Planned source .default outline services planned)
    (isImport : ∀ edit ∈ imported, importEdit? .default outline = some edit) (placed : OutlinePlaced source high outline)
    (written : ∀ service ∈ services, Written source service) (parted : ∀ edit ∈ imported, Parted source outline) :
    Mends (changeOf planned.flatten) (gained imported outline) source outline edits := by
  intro seen later left next own text tail known passage remains
  refine ⟨?_, fun edit member behind => arranged.apart known member behind⟩
  have clause (reads : later.decls = seen.decls) : Mended (changeOf planned.flatten) (gained imported outline) source left next seen later text tail
      (between left.lastStop next.lastStop edits) := by
    rcases arranged.between_clause known reads with ⟨edit, member, start, stop, anchored, same⟩ | same
    · rw [same, gained_of_mem member]
      exact mended_clause known passage reads (isImport edit member) ⟨start, stop⟩ anchored remains (parted edit member)
    · rw [same]
      exact mended_kept passage (regrows_kept known.ran passage.shape fun decl added => by simp [reads] at added)
  cases stepRead_adds known with
  | package => exact clause rfl
  | imports => exact clause rfl
  | decl _ _ _ =>
    rename_i decl _ _ _
    rcases arranged.between_work known rfl with ⟨work, member, rfl, same⟩ | ⟨none, same⟩
    · obtain ⟨service, listed, entries, works, entered, made, -, worked⟩ := plan.mem_flatten member
      rw [same]
      exact mended_work known passage remains rfl (placed.parts _ (plan.declared member)) (written service listed) entered made worked
        (changeOf_work plan.keys member)
    · rw [same]
      refine mended_kept passage (regrows_kept known.ran passage.shape fun decl' added => ?_)
      obtain rfl := (List.cons.inj (List.append_cancel_left added)).1
      exact changeOf_none none

/-! ### Imports in front of a text -/

/-- A text of nothing becomes what is put there. -/
theorem spliced_nothing {offset : Nat} {result : List Char} (spliced : Spliced offset [] [edit] result) : result = edit.replacement.toList := by
  generalize nothing : ([] : List Char) = chars at spliced
  cases spliced with
  | replaced gap range later =>
    obtain ⟨rfl, rest⟩ := List.append_eq_nil_iff.mp nothing.symm
    obtain ⟨rfl, none⟩ := List.append_eq_nil_iff.mp rest
    generalize all : ([] : List Edit) = edits at later
    cases later with
    | done => simp [none]
    | replaced => cases all

/-- Only an import that has no clause to stand behind is put in front of everything. -/
theorem edits_ahead (arranged : Arranged outline works imported edits) (behind' : ∀ place ∈ anchor outline, 0 < place) :
    behind 0 edits = edits ∨ ∃ edit ∈ imported, anchor outline = none ∧ edit.start = 0 ∧ edit.stop = 0 ∧ edits = edit :: behind 0 edits := by
  have ahead : ∀ edit ∈ edits, edit.stop = 0 → edit ∈ imported ∧ anchor outline = none := by
    intro edit member zero
    rcases (arranged.parts edit).mp member with ⟨work, worked, rfl⟩ | isImport
    · have := (arranged.attached worked).1
      omega
    · obtain ⟨-, stands | ⟨none, -⟩⟩ := arranged.place edit isImport
      · have := behind' _ stands
        omega
      · exact ⟨isImport, none⟩
  cases edits with
  | nil => exact .inl rfl
  | cons edit rest =>
    obtain ⟨first, -⟩ := List.pairwise_cons.mp arranged.ordered
    by_cases zero : edit.stop = 0
    · obtain ⟨isImport, none⟩ := ahead edit List.mem_cons_self zero
      have start := (arranged.place edit isImport).1.trans zero
      refine .inr ⟨edit, isImport, none, start, zero, ?_⟩
      have others : behind 0 rest = rest := List.filter_eq_self.mpr fun other member => by
        have distinct := (List.nodup_cons.mp arranged.once).1
        refine decide_eq_true (Nat.pos_of_ne_zero fun empty => distinct ?_)
        rwa [Option.mem_unique (ahead other (List.mem_cons_of_mem _ member) empty).1 isImport] at member
      rw [behind, List.filter_cons, if_neg (by simp [zero])]
      rw [behind] at others
      rw [others]
    · refine .inl (List.filter_eq_self.mpr fun other member => decide_eq_true ?_)
      rcases List.mem_cons.mp member with rfl | later
      · exact Nat.pos_of_ne_zero zero
      · have start := first other later
        have stop := other.ordered
        omega

/-! ### Whole texts -/

/-- Nothing of an outline ends at the beginning of the text. -/
theorem anchor_behind {tokens : List Token} {cursor : Cursor} (sound : Sound source ⟨tokens, 0⟩)
    (ran : Parser.iterateFrom Parser.outlineStep .empty source ⟨tokens, 0⟩ = .ok (outline, cursor)) : ∀ place ∈ anchor outline, 0 < place := by
  intro place anchored
  obtain ⟨-, ⟨clauses, listed, behind⟩, packaged⟩ := run_adds sound .empty ran
  unfold anchor at anchored
  split at anchored
  · rename_i last same
    cases anchored
    obtain ⟨clause, member, rfl⟩ := List.mem_map.mp (List.max?_mem same)
    rw [listed] at member
    exact behind clause (by simpa [Outline.empty] using member)
  · obtain ⟨clause, named, rfl⟩ := Option.map_eq_some_iff.mp anchored
    rcases packaged with same | ⟨clause', same, behind⟩
    · rw [named] at same
      cases same
    · obtain rfl : clause = clause' := Option.some.inj (named.symm.trans same)
      exact behind

/-- The edits of a unit end where it has been read. -/
theorem edits_inside (arranged : Arranged outline works imported edits) (member : edit ∈ edits) (read : OutlineRead source high outline) :
    edit.stop ≤ high := by
  rcases (arranged.parts edit).mp member with ⟨work, worked, rfl⟩ | isImport
  · have within := read.decls.within _ (List.mem_map_of_mem (arranged.declared work worked).1)
    exact (arranged.attached worked).2.1.trans within.le_high
  · obtain ⟨-, anchored | ⟨-, zero⟩⟩ := arranged.place edit isImport
    · unfold anchor at anchored
      split at anchored
      · rename_i last same
        obtain ⟨clause, listed, stop⟩ := List.mem_map.mp (List.max?_mem same)
        cases anchored
        rw [← stop]
        exact (read.imports.within _ (List.mem_map_of_mem listed)).le_high
      · obtain ⟨clause, named, stop⟩ := Option.map_eq_some_iff.mp anchored
        rw [← stop]
        exact (read.package clause named).le_high
    · rw [zero]
      exact Nat.zero_le _

theorem kept_empty {names : List DottedName} : Kept change names .empty .empty := ⟨.nil, fun clause member => by cases member⟩

/-- A text that is read again is parsed. -/
theorem parse_again {tokens : List Token} {result : List Char} {names : List DottedName}
    (again : ReadAgain change names source ⟨tokens, 0⟩ .empty outline result) :
    ∃ later, Outline.parse result = .ok later ∧ Kept change names outline later := by
  obtain ⟨tokens', scanned, answers⟩ := again 0
  obtain ⟨later, cursor, ran, kept⟩ := (answers result).2 .empty 0 kept_empty
  exact ⟨_, parse_of_run (scan_eq_ok_iff.mpr scanned) ran, kept.decls, kept.imports⟩

/-- So it is behind imports that are written in front of it. -/
theorem parse_behind {tokens : List Token} {result : List Char} {names : List DottedName}
    (again : ReadAgain change names source ⟨tokens, 0⟩ .empty outline result) (starts : ∀ token ∈ tokens.head?, Starts token)
    (listed : ∀ name ∈ names, Importable name ∧ Proper name) :
    ∃ later, Outline.parse ((importLines names).toList ++ ['\n', '\n'] ++ result) = .ok later ∧ Kept change names outline later := by
  obtain ⟨lines, scanned, written, -⟩ := scan_importLines fun name member => (listed name member).1
  obtain ⟨tokens', scanned', answers⟩ := again (byteLength ((importLines names).toList ++ ['\n', '\n']))
  generalize whole : (importLines names).toList ++ ['\n', '\n'] ++ result = text
  obtain ⟨even, answers⟩ := answers text
  have reads : Reads ((importLines names).toList ++ ['\n', '\n']) (lines.map spell) result := by
    have feeds := (reads_line scanned (['\n'] ++ result)).append (reads_gap (gap_of_space feed_blank) result)
    simpa using feeds
  obtain ⟨lines', alike, front⟩ := reads.scanned (by rw [Nat.zero_add]; exact scanned')
  rw [whole] at front
  obtain ⟨clauses, stop, onward, brought⟩ := @outline_lines text _ _ tokens' (lines_alike written alike)
    (ends_of_starts (starts_behind even.toFlat starts)) .empty 0
  have kept : Kept change names .empty { Outline.empty with imports := [] ++ clauses } :=
    @Kept.addImports _ _ _ _ [] [] _ kept_empty rfl (brought_targets brought fun name member => (listed name member).2)
  obtain ⟨later, cursor, ran, kept⟩ := answers _ stop kept
  exact ⟨_, parse_of_run (scan_eq_ok_iff.mpr front) (onward.trans ran), kept.decls, kept.imports⟩

/-- The text with the edits of the rule is parsed, and its declarations are what has become
of those of the unit. -/
theorem parse_mended {index : Index} {id : UnitId} {text : String} {group : EditSet} (parsed : Outline.parse text.toList = .ok outline)
    (arrangement : Arrangement .default index id text outline group services planned imported)
    (written : ∀ service ∈ services, Written text.toList service) (parted : ∀ edit ∈ imported, Parted text.toList outline) :
    ∃ new later, group.apply text = .ok new ∧ Outline.parse new.toList = .ok later ∧
      Kept (changeOf planned.flatten) (gained imported outline) outline later := by
  obtain ⟨new, applied, spliced⟩ := arrangement.applied
  obtain ⟨high, placed⟩ := parse_placed parsed
  obtain ⟨tokens, bare, cursor, scanned, ran, rfl⟩ := parse_eq_ok parsed
  have sound : Sound text.toList ⟨tokens, 0⟩ := ⟨cut_zero _, scan_inOrder scanned⟩
  replace ran : Parser.iterateFrom Parser.outlineStep .empty text.toList ⟨tokens, 0⟩ = .ok (bare, cursor) := ran
  -- The references of the outline play no part in what follows.
  have arranged : Arranged bare planned.flatten imported (group.edits.mergeSort Edit.le) :=
    let all := arrangement.arranged
    ⟨all.width, all.declared, all.keys, all.place, all.parts, all.ordered, all.once⟩
  have plan : Planned text.toList .default bare services planned :=
    let all := arrangement.plan
    ⟨fun service member => ⟨(all.stands service member).alone, (all.stands service member).objects⟩, all.apart, all.works, all.legacy, all.modern⟩
  have placed' : OutlinePlaced text.toList high bare := ⟨placed.line, placed.width, placed.parts, placed.imports, placed.package⟩
  have mends := mends_of_arranged arranged plan arrangement.isImport placed' written parted
  have remains : Remains text.toList ⟨tokens, 0⟩ text.toList := ⟨[], rfl, rfl⟩
  have inside : ∀ edit ∈ group.edits.mergeSort Edit.le, ∀ high, OutlineRead text.toList high bare → edit.stop ≤ high :=
    fun edit member high read => edits_inside arranged member read
  have whole {result : List Char} (spliced : Spliced 0 text.toList (behind 0 (group.edits.mergeSort Edit.le)) result) :=
    readAgain_run arranged.ordered mends inside sound .empty ran remains (scan_eq_ok_iff.mp scanned) spliced
  rcases edits_ahead arranged (anchor_behind sound ran) with all | ⟨edit, isImport, none, start, stop, all⟩
  · rw [← all] at spliced
    obtain ⟨later, read, kept⟩ := parse_again (whole spliced).2
    exact ⟨new, later, applied, read, kept.decls, kept.imports⟩
  · obtain ⟨-, ⟨⟨_, anchored⟩, -⟩ | ⟨-, put⟩⟩ := importEdit?_text (arrangement.isImport edit isImport)
    · cases anchored.symm.trans none
    rw [all] at spliced
    obtain ⟨front, back, shape, first, behind⟩ := @spliced_split [] 0 text.toList _ [edit] _ spliced
      (fun other member => by simp [List.mem_singleton.mp member, stop]) (fun other _ => Nat.zero_le _)
    rw [gained_of_mem isImport] at whole ⊢
    obtain ⟨later, read, kept⟩ := parse_behind (whole behind).2 (starts_ahead ran) fun name member => default_importable name (@lacked_listed bare name member)
    rw [← put, ← spliced_nothing first, ← shape] at read
    exact ⟨new, later, applied, read, kept.decls, kept.imports⟩

end KindLift.MendedUnits
