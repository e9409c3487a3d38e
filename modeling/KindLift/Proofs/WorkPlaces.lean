import KindLift.Proofs.PlannedWork

/-! Where the edits of the rule for instances lie. Each belongs to a declaration or stands at
the end of a clause. So the edits that end while a declaration is read are those of its own
work, of which there is one at most, and no edit reaches from one step into the next. -/
namespace KindLift.WorkPlaces
open AddInstances CursorPlacement DeclPlacement EditApplication EditSplicing GrownOutlines InstancePlacement MendedOutlines OutlineGrowth PlannedWork

variable {source : List Char} {conventions : Conventions} {outline seen later : Outline} {service : Service} {entries : List String}
  {works : List Work} {work : Work} {imported : Option Edit} {edits : List Edit} {edit : Edit} {left next : Cursor} {high : Nat}

/-! ### Edits of declarations -/

/-- The edit of a work belongs to its declaration. -/
theorem works_attached (placed : OutlinePlaced source high outline) (stands : Stands outline service)
    (made : Works source conventions service entries works) (member : work ∈ works) : Attached work.decl.span work.edit := by
  have holds {holder : Holder} {extension : Edit} (listed : .holder holder ∈ outline.decls)
      (extended : extendHolder? source holder entries = some extension) : Attached holder.span extension := by
    obtain ⟨edit, found, attached, -⟩ := extendHolder?_attached (placed.parts _ listed)
      (placed.line.within _ (List.mem_map_of_mem listed)) (placed.width _ listed) entries
    cases found.symm.trans extended
    exact attached
  cases made with
  | moved _ beside start stop _ extended =>
    rcases List.mem_pair.mp member with rfl | rfl
    · exact .inl ⟨start, stop⟩
    · exact holds (stands.beside beside).1 extended
  | replaced _ _ _ start stop =>
    obtain rfl := List.mem_singleton.mp member
    exact .inl ⟨start, stop⟩
  | complete => cases member
  | extended _ _ beside extended =>
    obtain rfl := List.mem_singleton.mp member
    exact holds (stands.beside beside).1 extended
  | created =>
    obtain rfl := List.mem_singleton.mp member
    exact .inr ⟨rfl, placed.width _ stands.declared, Nat.le_refl _⟩

/-- The import stands where a clause ends, or at the beginning of a text without clauses. -/
theorem importEdit?_place (found : importEdit? conventions outline = some edit) :
    edit.start = edit.stop ∧ (anchor outline = some edit.stop ∨ anchor outline = none ∧ edit.stop = 0) := by
  unfold importEdit? at found
  split at found
  · cases found
  · dsimp only at found
    split at found
    · rename_i last same
      cases found
      exact ⟨rfl, .inl (anchor_last same)⟩
    · rename_i none
      rw [anchor_package none]
      split at found
      · rename_i clause same
        cases found
        exact ⟨rfl, .inl (by rw [same]; rfl)⟩
      · rename_i alone
        cases found
        exact ⟨rfl, .inr ⟨by rw [alone]; rfl, rfl⟩⟩

/-! ### All edits in order -/

/-- The edits of the works and the import, from left to right. -/
structure Arranged (outline : Outline) (works : List Work) (imported : Option Edit) (edits : List Edit) : Prop where
  width : ∀ decl ∈ outline.decls, decl.span.start < decl.span.stop
  declared : ∀ work ∈ works, work.decl ∈ outline.decls ∧ Attached work.decl.span work.edit
  keys : works.Pairwise fun a b => a.decl ≠ b.decl
  place : ∀ edit ∈ imported, edit.start = edit.stop ∧ (anchor outline = some edit.stop ∨ anchor outline = none ∧ edit.stop = 0)
  parts : ∀ edit, edit ∈ edits ↔ (∃ work ∈ works, edit = work.edit) ∨ edit ∈ imported
  ordered : edits.Pairwise fun a b => a.stop ≤ b.start
  once : edits.Nodup

theorem nodup_of_apart (apart : PairwiseApart edits) : edits.Nodup :=
  apart.imp fun {edit other} clear same => by
    subst same
    have conflict := overlaps_iff.not.mp (Bool.eq_false_iff.mp clear)
    have order := edit.ordered
    split at conflict <;> omega

theorem attached_stop {span : Span} (attached : Attached span edit) (width : span.start < span.stop) :
    span.start < edit.stop ∧ edit.stop ≤ span.stop ∧ span.start ≤ edit.start := by
  rcases attached with ⟨start, stop⟩ | ⟨same, above, below⟩ <;> omega

/-- A list without repetition of which every item is the same one. -/
theorem eq_singleton {α : Type} {items : List α} {item : α} (once : items.Nodup) (member : item ∈ items) (only : ∀ other ∈ items, other = item) :
    items = [item] := by
  have same := List.eq_replicate_of_mem only
  rw [same, List.nodup_replicate] at once
  have filled := List.length_pos_of_mem member
  rw [same, Nat.le_antisymm once filled]
  rfl

variable (arranged : Arranged outline works imported edits)

include arranged

theorem Arranged.attached (member : work ∈ works) :
    work.decl.span.start < work.edit.stop ∧ work.edit.stop ≤ work.decl.span.stop ∧ work.decl.span.start ≤ work.edit.start := by
  obtain ⟨declared, attached⟩ := arranged.declared work member
  exact attached_stop attached (arranged.width _ declared)

/-- An edit that ends while a declaration is read is of the work on it. -/
theorem Arranged.between_decl (known : StepRead source outline seen later left next) {decl : Decl}
    (reads : later.decls = seen.decls ++ [decl]) (member : edit ∈ between left.lastStop next.lastStop edits) :
    ∃ work ∈ works, work.decl = decl ∧ edit = work.edit := by
  obtain ⟨listed, place⟩ := List.mem_filter.mp member
  simp only [decide_eq_true_eq] at place
  rcases (arranged.parts edit).mp listed with ⟨work, worked, rfl⟩ | isImport
  · obtain ⟨above, below, -⟩ := arranged.attached worked
    rcases decl_step known (arranged.declared work worked).1 with before | behind | ⟨same, -⟩
    · omega
    · omega
    · exact ⟨work, worked, (List.append_cancel_left (reads.symm.trans same) |> List.cons.inj).1.symm, rfl⟩
  · obtain ⟨-, stands | ⟨-, zero⟩⟩ := arranged.place edit isImport
    · rcases anchor_step known stands with before | behind | ⟨-, same⟩
      · omega
      · omega
      · rw [reads] at same
        simp at same
    · omega

/-- The work on a declaration is what is edited while that is read. -/
theorem Arranged.between_work (known : StepRead source outline seen later left next) {decl : Decl} (reads : later.decls = seen.decls ++ [decl]) :
    (∃ work ∈ works, work.decl = decl ∧ between left.lastStop next.lastStop edits = [work.edit]) ∨
      (∀ work ∈ works, work.decl ≠ decl) ∧ between left.lastStop next.lastStop edits = [] := by
  by_cases worked : ∃ work ∈ works, work.decl = decl
  · obtain ⟨work, member, same⟩ := worked
    refine .inl ⟨work, member, same, eq_singleton (arranged.once.filter _) ?_ fun other listed => ?_⟩
    · refine List.mem_filter.mpr ⟨(arranged.parts _).mpr (.inl ⟨work, member, rfl⟩), ?_⟩
      obtain ⟨above, below, -⟩ := arranged.attached member
      rw [same] at above below
      cases stepRead_adds known with
      | package => simp at reads
      | imports => simp at reads
      | decl low_le width le_high =>
        obtain rfl := (List.cons.inj (List.append_cancel_left reads)).1
        simp only [decide_eq_true_eq]
        omega
    · obtain ⟨work', member', same', rfl⟩ := arranged.between_decl known reads listed
      by_contra different
      have distinct : work' ≠ work := fun equal => different (by rw [equal])
      have apart : Std.Symm fun a b : Work => a.decl ≠ b.decl := ⟨fun _ _ differ => differ.symm⟩
      exact arranged.keys.forall member' member distinct (same'.trans same.symm)
  · have none : ∀ work ∈ works, work.decl ≠ decl := fun work member same => worked ⟨work, member, same⟩
    refine .inr ⟨none, List.eq_nil_iff_forall_not_mem.mpr fun other listed => ?_⟩
    obtain ⟨work, member, same, -⟩ := arranged.between_decl known reads listed
    exact none work member same

/-- Only an import is added while a clause is read, at its end. -/
theorem Arranged.between_clause (known : StepRead source outline seen later left next) (reads : later.decls = seen.decls) :
    (∃ edit ∈ imported, edit.start = next.lastStop ∧ edit.stop = next.lastStop ∧ anchor outline = some next.lastStop ∧
      between left.lastStop next.lastStop edits = [edit]) ∨ between left.lastStop next.lastStop edits = [] := by
  have only : ∀ edit ∈ between left.lastStop next.lastStop edits,
      edit ∈ imported ∧ edit.start = next.lastStop ∧ edit.stop = next.lastStop ∧ anchor outline = some next.lastStop := by
    intro edit member
    obtain ⟨listed, place⟩ := List.mem_filter.mp member
    simp only [decide_eq_true_eq] at place
    rcases (arranged.parts edit).mp listed with ⟨work, worked, rfl⟩ | isImport
    · obtain ⟨above, below, -⟩ := arranged.attached worked
      rcases decl_step known (arranged.declared work worked).1 with before | behind | ⟨same, -⟩
      · omega
      · omega
      · rw [reads] at same
        simp at same
    · obtain ⟨same, stands | ⟨-, zero⟩⟩ := arranged.place edit isImport
      · rcases anchor_step known stands with before | behind | ⟨here, -⟩
        · omega
        · omega
        · exact ⟨isImport, same.trans here, here, here ▸ stands⟩
      · omega
  rcases List.eq_nil_or_concat (between left.lastStop next.lastStop edits) with none | ⟨front, edit, shape⟩
  · exact .inr none
  · have member : edit ∈ between left.lastStop next.lastStop edits := by simp [shape]
    obtain ⟨isImport, start, stop, stands⟩ := only edit member
    refine .inl ⟨edit, isImport, start, stop, stands, eq_singleton (arranged.once.filter _) member fun other listed => ?_⟩
    exact Option.mem_unique (only other listed).1 isImport

/-- No edit reaches from one step into the next. -/
theorem Arranged.apart (known : StepRead source outline seen later left next) (member : edit ∈ edits) (behind : next.lastStop < edit.stop) :
    next.lastStop ≤ edit.start := by
  rcases (arranged.parts edit).mp member with ⟨work, worked, rfl⟩ | isImport
  · obtain ⟨-, below, above⟩ := arranged.attached worked
    have onward := stepRead_onward known
    rcases decl_step known (arranged.declared work worked).1 with before | behind | ⟨-, -, inside⟩ <;> omega
  · obtain ⟨same, -⟩ := arranged.place edit isImport
    omega

omit arranged

/-! ### The edits of the rule -/

/-- What the rule plans for a unit, and its edits from left to right. -/
structure Arrangement (conventions : Conventions) (index : Index) (id : UnitId) (text : String) (outline : Outline) (group : EditSet)
    (services : List Service) (planned : List (List Work)) (imported : Option Edit) : Prop where
  found : Service.findAll (.load index id text) conventions = .ok services
  plan : Planned text.toList conventions outline services planned
  isImport : ∀ edit ∈ imported, importEdit? conventions outline = some edit
  arranged : Arranged outline planned.flatten imported (group.edits.mergeSort Edit.le)
  applied : ∃ new, group.apply text = .ok new ∧ Spliced 0 text.toList (group.edits.mergeSort Edit.le) new.toList

/-- Edits that are applied are spliced from left to right. -/
theorem spliced_of_apply {group : EditSet} {text new : String} (applied : group.apply text = .ok new) :
    Spliced 0 text.toList (group.edits.mergeSort Edit.le) new.toList := by
  have applicable := applicable_of_apply applied
  obtain ⟨result, -, spliced⟩ := @apply_of_apart group.edits "" text applicable.apart applicable.addressed.cuts
  rw [reverse_mergeSort_ge applicable.apart] at spliced
  cases applied.symm.trans applicable.apply_eq
  have same := @splice_of_spliced _ _ _ _ [] spliced rfl
  rw [List.nil_append] at same
  rwa [String.toList_ofList, same]

theorem ordered_mergeSort {edits : List Edit} (apart : PairwiseApart edits) :
    (edits.mergeSort Edit.le).Pairwise fun a b => a.stop ≤ b.start := by
  rw [← reverse_mergeSort_ge apart, List.pairwise_reverse]
  exact mergeSort_descending apart

/-- What the rule returns is arranged. -/
theorem arrangement_of_editSet {index : Index} {id : UnitId} {text : String} {group : EditSet} (parsed : Outline.parse text.toList = .ok outline)
    (returned : editSet conventions (.load index id text) = .ok group) :
    ∃ services planned imported, Arrangement conventions index id text outline group services planned imported := by
  obtain ⟨high, placed⟩ := parse_placed parsed
  have safe := RuleSafety.standard_safely (.inr ⟨conventions, rfl⟩) index id text
  have returned' : (AddInstances.rule conventions).editSet (.load index id text) = .ok group := returned
  rw [returned'] at safe
  obtain ⟨new, applied⟩ := safe
  have apart := (applicable_of_apply applied).apart
  obtain ⟨services, planned, found, plan, edits⟩ := planned_of_editSet returned
  rw [RuleSafety.load_text, SettledUnits.load_outline parsed] at plan
  rw [SettledUnits.load_outline parsed] at edits
  obtain ⟨imported, isImport, parts⟩ : ∃ imported : Option Edit, (∀ edit ∈ imported, importEdit? conventions outline = some edit) ∧
      group.edits = planned.flatten.map Work.edit ++ imported.toList := by
    rcases edits with same | same
    · exact ⟨none, by simp, by simpa using same⟩
    · exact ⟨_, fun _ member => member, same⟩
  refine ⟨services, planned, imported, found, plan, isImport, ?_, new, applied, spliced_of_apply applied⟩
  exact {
    width := placed.width
    declared := fun work member => by
      obtain ⟨service, listed, entries, works, -, made, -, worked⟩ := plan.mem_flatten member
      exact ⟨plan.declared member, works_attached placed (plan.stands service listed) made worked⟩
    keys := plan.keys
    place := fun edit member => importEdit?_place (isImport edit member)
    parts := fun edit => by rw [List.mem_mergeSort, parts, List.mem_append, List.mem_map, Option.mem_toList]; simp only [eq_comm, Option.mem_def]
    ordered := ordered_mergeSort apart
    once := (List.mergeSort_perm _ _).nodup_iff.mpr (nodup_of_apart apart) }

end KindLift.WorkPlaces
