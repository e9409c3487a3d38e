import KindLift.Edit
import KindLift.Proofs.TextBoundary
import KindLift.Proofs.Traversal
import Mathlib.Data.List.Sort

/-! Edits that are pairwise apart pass validation, and when they address
characters of the text they can be applied. The edited text is the original with
each range replaced from left to right, although it is computed from the highest
range down. -/
namespace KindLift.EditApplication
open TextBoundary Traversal

/-- No edit of the list conflicts with another. -/
def PairwiseApart (edits : List Edit) : Prop := edits.Pairwise fun a b => a.overlaps b = false

theorem overlaps_comm (a b : Edit) : a.overlaps b = b.overlaps a := by
  unfold Edit.overlaps Edit.isInsertion
  grind

theorem PairwiseApart.perm (apart : PairwiseApart edits) (same : edits.Perm others) :
    PairwiseApart others :=
  (same.pairwise_iff fun {a b} separate => (overlaps_comm b a).trans separate).mp apart

theorem neighbourConflict_none (apart : PairwiseApart edits) : EditSet.neighbourConflict edits = none := by
  fun_induction EditSet.neighbourConflict edits with
  | case1 a b rest conflict =>
    have separate := (List.pairwise_cons.mp apart).1 b (List.mem_cons_self ..)
    rw [conflict] at separate
    cases separate
  | case2 a b rest _ ih => exact ih (List.pairwise_cons.mp apart).2
  | case3 => rfl

theorem reachConflict_none (apart : PairwiseApart edits)
    (clear : ∀ widest ∈ reach, ∀ edit ∈ edits, widest.overlaps edit = false) :
    EditSet.reachConflict reach edits = none := by
  induction edits generalizing reach with
  | nil => cases reach <;> rfl
  | cons edit rest ih =>
    obtain ⟨first, others⟩ := List.pairwise_cons.mp apart
    cases reach with
    | none =>
      rw [EditSet.reachConflict]
      apply ih others
      intro widest member
      split at member
      · cases member
        exact first
      · cases member
    | some widest =>
      have separate := clear widest rfl edit (List.mem_cons_self ..)
      rw [EditSet.reachConflict, separate, Bool.and_false, if_neg Bool.false_ne_true]
      apply ih others
      intro found member
      split at member
      · cases member
        exact first
      · cases member
        exact fun later listed => clear widest rfl later (List.mem_cons_of_mem _ listed)

/-- Edits that are pairwise apart are valid. -/
theorem validate_of_apart {group : EditSet} (apart : PairwiseApart group.edits) :
    group.validate = .ok () := by
  have sorted := apart.perm (List.mergeSort_perm group.edits Edit.le).symm
  have none : EditSet.conflict? group.edits = none := by
    rw [EditSet.conflict?, neighbourConflict_none sorted, Option.none_or]
    exact reachConflict_none sorted (by simp)
  rw [EditSet.validate, none]

/-- The text from `offset` on, with the ranges of the edits replaced in order. -/
inductive Spliced : Nat → List Char → List Edit → List Char → Prop where
  | done : Spliced offset chars [] chars
  | replaced {edit : Edit} (gap : offset + Text.byteLength gapText = edit.start)
      (range : edit.start + Text.byteLength old = edit.stop)
      (later : Spliced edit.stop after edits result) :
      Spliced offset (gapText ++ (old ++ after)) (edit :: edits)
        (gapText ++ (edit.replacement.toList ++ result))

/-- Another edit behind all others. -/
theorem Spliced.snoc {edit : Edit} (spliced : Spliced offset front edits result)
    (start : offset + Text.byteLength front = edit.start)
    (range : edit.start + Text.byteLength old = edit.stop) :
    Spliced offset (front ++ (old ++ after)) (edits ++ [edit])
      (result ++ (edit.replacement.toList ++ after)) := by
  induction spliced with
  | done => exact .replaced start range .done
  | @replaced offset gapText past rest edits later first gap width spliced ih =>
    have moved : first.stop + Text.byteLength rest = edit.start := by
      simp only [Text.byteLength_append] at start
      omega
    have extended := Spliced.replaced gap width (ih moved)
    simpa only [List.append_assoc, List.cons_append] using extended

/-- From the highest range down, each edit ends where the one before it began, or
further down. -/
def Descending (edits : List Edit) : Prop := edits.Pairwise fun a b => b.stop ≤ a.start

theorem stop_le_start_of_apart (order : Edit.ge a b = true) (apart : a.overlaps b = false) :
    b.stop ≤ a.start := by
  have forward := a.ordered
  have backward := b.ordered
  simp only [Edit.ge, Bool.or_eq_true, decide_eq_true_eq, Bool.and_eq_true] at order
  unfold Edit.overlaps Edit.isInsertion at apart
  grind

theorem mergeSort_descending (apart : PairwiseApart edits) :
    Descending (edits.mergeSort Edit.ge) := by
  have sorted : (edits.mergeSort Edit.ge).Pairwise fun a b => Edit.ge a b = true := by
    apply List.pairwise_mergeSort
    · intro a b c
      simp only [Edit.ge, Bool.or_eq_true, decide_eq_true_eq, Bool.and_eq_true]
      omega
    · intro a b
      simp only [Edit.ge, Bool.or_eq_true, decide_eq_true_eq, Bool.and_eq_true]
      omega
  have separate := apart.perm (List.mergeSort_perm edits Edit.ge).symm
  exact (sorted.and separate).imp fun both => stop_le_start_of_apart both.1 both.2

/-- Applying from the highest range down leaves what is behind the highest range
alone, and splices what is in front of it. -/
theorem foldlM_replaceRange (descending : Descending edits)
    (cuts : ∀ edit ∈ edits, Cut front edit.start ∧ Cut front edit.stop) (tail : List Char) :
    ∃ result, edits.foldlM EditSet.replaceRange (front ++ tail) = .ok (result ++ tail) ∧
      Spliced 0 front edits.reverse result := by
  induction edits generalizing front tail with
  | nil => exact ⟨front, rfl, .done⟩
  | cons edit rest ih =>
    obtain ⟨below, others⟩ := List.pairwise_cons.mp descending
    obtain ⟨⟨left, right, shape, start⟩, ⟨upto, after, shape', stop⟩⟩ := cuts edit (List.mem_cons_self ..)
    obtain ⟨old, rfl⟩ := cuts_nested (shape.symm.trans shape') (by rw [start, stop]; exact edit.ordered)
    have width : edit.start + Text.byteLength old = edit.stop := by
      rw [Text.byteLength_append] at stop
      omega
    have taken : Text.takeBytes? edit.start (front ++ tail) = some left :=
      takeBytes?_eq_some_iff.mpr ⟨right ++ tail, by rw [shape, List.append_assoc], start⟩
    have dropped : Text.dropBytes? edit.stop (front ++ tail) = some (after ++ tail) :=
      dropBytes?_eq_some_iff.mpr ⟨left ++ old, by rw [shape', List.append_assoc], stop⟩
    have earlier : ∀ found ∈ rest, Cut left found.start ∧ Cut left found.stop := by
      intro found member
      have above := below found member
      obtain ⟨⟨l, r, whole, length⟩, ⟨l', r', whole', length'⟩⟩ := cuts found (List.mem_cons_of_mem _ member)
      have order := found.ordered
      obtain ⟨m, same⟩ := cuts_nested (whole.symm.trans shape) (by omega)
      obtain ⟨m', same'⟩ := cuts_nested (whole'.symm.trans shape) (by omega)
      exact ⟨⟨l, m, same, length⟩, ⟨l', m', same', length'⟩⟩
    obtain ⟨result, ran, spliced⟩ := ih others earlier (edit.replacement.toList ++ (after ++ tail))
    refine ⟨result ++ (edit.replacement.toList ++ after), ?_, ?_⟩
    · have first : EditSet.replaceRange (front ++ tail) edit =
          .ok (left ++ (edit.replacement.toList ++ (after ++ tail))) := by
        simp only [EditSet.replaceRange, taken, dropped, List.append_assoc]
      rw [List.foldlM_cons, first, List.append_assoc, List.append_assoc]
      exact ran
    · rw [List.reverse_cons, shape', List.append_assoc]
      exact spliced.snoc (by rw [Nat.zero_add, start]) width

theorem checkRanges_ok (cuts : ∀ edit ∈ edits, Cut chars edit.start ∧ Cut chars edit.stop) :
    EditSet.checkRanges chars (Text.byteLength chars) edits = .ok () := by
  induction edits with
  | nil => rfl
  | cons edit rest ih =>
    obtain ⟨first, last⟩ := cuts edit (List.mem_cons_self ..)
    rw [EditSet.checkRanges, if_neg (Nat.not_lt.mpr (cut_le last)), isBoundary_iff.mpr first,
      isBoundary_iff.mpr last, Bool.and_self, if_pos rfl]
    exact ih fun found member => cuts found (List.mem_cons_of_mem _ member)

/-- Edits that are pairwise apart and address characters of their base text are
applied to it. -/
theorem apply_of_apart (apart : PairwiseApart edits)
    (cuts : ∀ edit ∈ edits, Cut text.toList edit.start ∧ Cut text.toList edit.stop) :
    ∃ result, (EditSet.onText rule text edits).apply text = .ok (String.ofList result) ∧
      Spliced 0 text.toList (edits.mergeSort Edit.ge).reverse result := by
  obtain ⟨result, ran, spliced⟩ := foldlM_replaceRange (mergeSort_descending apart)
    (fun edit member => cuts edit (List.mem_mergeSort.mp member)) []
  simp only [List.append_nil] at ran
  refine ⟨result, ?_, spliced⟩
  have valid : (EditSet.onText rule text edits).validate = .ok () := validate_of_apart apart
  by_cases empty : edits = []
  · subst empty
    rw [List.mergeSort_nil, List.foldlM_nil] at ran
    cases ran
    simp [EditSet.apply, EditSet.onText, pure, Except.pure]
  · have filled : (EditSet.onText rule text edits).edits.isEmpty = false := by
      rw [List.isEmpty_eq_false_iff]
      exact empty
    have ranges : EditSet.checkRanges text.toList (Text.byteLength text.toList)
        (EditSet.onText rule text edits).edits = .ok () := checkRanges_ok cuts
    have descended : EditSet.applyDescending text.toList (EditSet.onText rule text edits).edits =
        .ok result := ran
    have based : (EditSet.onText rule text edits).base = Digest.ofText text := rfl
    simp only [EditSet.apply, based, ne_eq, not_true_eq_false, if_false, filled, valid, ranges,
      descended, Bool.false_eq_true]
    rfl

/-- What a set of edits makes of a text is what its edits make of the characters. -/
theorem applyDescending_of_apply {group : EditSet} (applied : group.apply text = .ok result) :
    EditSet.applyDescending text.toList group.edits = .ok result.toList := by
  unfold EditSet.apply at applied
  dsimp only at applied
  split at applied
  · cases applied
  split at applied
  · rename_i empty
    rw [List.isEmpty_iff.mp empty, EditSet.applyDescending, List.mergeSort_nil]
    cases applied
    rfl
  · obtain ⟨_, -, rest⟩ := bind_eq_ok_iff.mp applied
    obtain ⟨_, -, rest⟩ := bind_eq_ok_iff.mp rest
    obtain ⟨chars, descended, same⟩ := bind_eq_ok_iff.mp rest
    cases same
    rw [String.toList_ofList]
    exact descended

end KindLift.EditApplication
