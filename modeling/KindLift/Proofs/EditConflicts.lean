import KindLift.Proofs.EditSplicing

/-! What validation reports. Two edits are named exactly when some two edits of the
set conflict, and the two that are named stand at different places of the set and
conflict with each other. -/
namespace KindLift.EditConflicts
open EditApplication EditSplicing

variable {edits : List Edit} {a b widest : Edit} {reach : Option Edit}

/-- The edits stand at different places of the list and conflict. -/
def ConflictIn (edits : List Edit) (a b : Edit) : Prop :=
  ∃ i j : Nat, i ≠ j ∧ edits[i]? = some a ∧ edits[j]? = some b ∧ a.overlaps b = true

/-- Which of the two places comes first does not matter, as neither edit is favoured
by the conflict. -/
theorem pairwiseApart_iff :
    PairwiseApart edits ↔ ∀ (i j : Nat) (a b : Edit), i ≠ j → edits[i]? = some a → edits[j]? = some b →
      a.overlaps b = false := by
  rw [PairwiseApart, List.pairwise_iff_getElem]
  constructor
  · intro apart i j a b different first second
    obtain ⟨low, rfl⟩ := List.getElem?_eq_some_iff.mp first
    obtain ⟨high, rfl⟩ := List.getElem?_eq_some_iff.mp second
    rcases Nat.lt_or_gt_of_ne different with order | order
    · exact apart i j low high order
    · rw [overlaps_comm]
      exact apart j i high low order
  · intro apart i j low high order
    exact apart i j _ _ (Nat.ne_of_lt order) (List.getElem?_eq_getElem low) (List.getElem?_eq_getElem high)

/-- Two edits of the list, one for each of the two. -/
theorem conflictIn_of_subperm (pair : [a, b].Subperm edits) (conflict : a.overlaps b = true) : ConflictIn edits a b := by
  have different : pair.idxInj ⟨0, by simp⟩ ≠ pair.idxInj ⟨1, by simp⟩ := by simp [List.Subperm.idxInj_inj]
  refine ⟨_, _, Fin.val_ne_of_ne different, ?_, ?_, conflict⟩ <;>
    rw [List.getElem?_eq_getElem (Fin.isLt _), List.Subperm.getElem_idxInj_eq_getElem] <;> rfl

theorem neighbourConflict_some (found : EditSet.neighbourConflict edits = some (a, b)) :
    [a, b].Sublist edits ∧ a.overlaps b = true := by
  fun_induction EditSet.neighbourConflict edits with
  | case1 first second rest conflict =>
    cases found
    exact ⟨.cons_cons _ (.cons_cons _ (List.nil_sublist _)), conflict⟩
  | case2 first second rest _ ih =>
    obtain ⟨sublist, conflict⟩ := ih found
    exact ⟨.cons _ sublist, conflict⟩
  | case3 => cases found

/-- The edit that reaches furthest is one of those in front of the edit it conflicts
with. -/
theorem reachConflict_some (found : EditSet.reachConflict reach edits = some (a, b)) :
    [a, b].Sublist (reach.toList ++ edits) ∧ a.overlaps b = true := by
  induction edits generalizing reach with
  | nil => cases reach <;> cases found
  | cons edit rest ih =>
    cases reach with
    | none =>
      rw [EditSet.reachConflict] at found
      obtain ⟨sublist, conflict⟩ := ih found
      refine ⟨sublist.trans ?_, conflict⟩
      split
      · exact List.Sublist.refl _
      · exact List.sublist_cons_self ..
    | some widest =>
      rw [EditSet.reachConflict] at found
      split at found
      · rename_i reached
        cases found
        exact ⟨.cons_cons _ (.cons_cons _ (List.nil_sublist _)), (Bool.and_eq_true_iff.mp reached).2⟩
      · obtain ⟨sublist, conflict⟩ := ih found
        refine ⟨sublist.trans ?_, conflict⟩
        split
        · exact List.sublist_cons_self ..
        · exact .cons_cons _ (List.sublist_cons_self ..)

theorem conflict?_some (found : EditSet.conflict? edits = some (a, b)) :
    [a, b].Sublist (edits.mergeSort Edit.le) ∧ a.overlaps b = true := by
  rcases Option.or_eq_some_iff.mp found with neighbours | ⟨-, reach⟩
  · exact neighbourConflict_some neighbours
  · exact reachConflict_some reach

/-- Validation accepts a set of edits exactly when no two of them conflict, and when it
refuses the set it names two of them that do. Whether two edits conflict is the same
in both directions. -/
theorem validate_characterized (group : EditSet) :
    (∀ a b : Edit, a.overlaps b = b.overlaps a) ∧
      (group.validate = .ok () ↔ ∀ (i j : Nat) (a b : Edit), i ≠ j → group.edits[i]? = some a → group.edits[j]? = some b →
        a.overlaps b = false) ∧
      ∀ error, group.validate = .error error →
        ∃ first second, error = .overlapping first second ∧ ConflictIn group.edits first second := by
  refine ⟨overlaps_comm, validate_eq_ok_iff.trans pairwiseApart_iff, fun error refused => ?_⟩
  unfold EditSet.validate at refused
  split at refused
  · rename_i first second found
    cases refused
    obtain ⟨sublist, conflict⟩ := conflict?_some found
    exact ⟨first, second, rfl, conflictIn_of_subperm (sublist.subperm.trans (List.mergeSort_perm ..).subperm) conflict⟩
  · cases refused

/-- An insertion inside a range, with another range behind the insertion. -/
def hiddenInsertion : EditSet := ⟨"hide", .ofText "", [⟨3, 5, "b", by decide⟩, .insertion 3 "c", ⟨0, 10, "a", by decide⟩]⟩

/-- It is refused, and the two edits that are named conflict. -/
theorem hiddenInsertion_refused :
    ∃ first second, hiddenInsertion.validate = .error (.overlapping first second) ∧
      ConflictIn hiddenInsertion.edits first second := by
  obtain ⟨-, accepted, refused⟩ := validate_characterized hiddenInsertion
  cases outcome : hiddenInsertion.validate with
  | ok _ => exact absurd (accepted.mp outcome 0 2 _ _ (by decide) rfl rfl) (by decide)
  | error error =>
    obtain ⟨first, second, rfl, conflict⟩ := refused error outcome
    exact ⟨first, second, rfl, conflict⟩

end KindLift.EditConflicts
