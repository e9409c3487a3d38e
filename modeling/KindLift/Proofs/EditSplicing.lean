import KindLift.Proofs.EditApplication
import Mathlib.Data.List.Pairwise

/-! When a set of edits can be applied, and what it makes of a text. Validation
looks at neighbours and at the edit that reaches furthest, and misses no conflict.
Edits are then applied from the highest range down, and what results is the text
read from left to right with each range replaced, whatever the order of the edits. -/
namespace KindLift.EditSplicing
open EditApplication TextBoundary Traversal

variable {a b widest : Edit} {edits others : List Edit} {reach : Option Edit} {group : EditSet}
  {text : String} {chars source result : List Char} {cursor : Nat}

/-- By start, then by stop. -/
def Increasing (edits : List Edit) : Prop := edits.Pairwise fun a b => Edit.le a b = true

theorem le_iff : Edit.le a b = true ↔ a.start < b.start ∨ a.start = b.start ∧ a.stop ≤ b.stop := by
  simp only [Edit.le, Bool.or_eq_true, decide_eq_true_eq, Bool.and_eq_true]

theorem mergeSort_increasing (edits : List Edit) : Increasing (edits.mergeSort Edit.le) := by
  apply List.pairwise_mergeSort
  · intro a b c
    simp only [le_iff]
    omega
  · intro a b
    simp only [Bool.or_eq_true, le_iff]
    omega

/-- What a conflict is depends on which of the two edits insert. -/
theorem overlaps_iff : a.overlaps b = true ↔
    if a.start = a.stop then
      if b.start = b.stop then a.start = b.start else b.start < a.start ∧ a.start < b.stop
    else if b.start = b.stop then a.start < b.start ∧ b.start < a.stop
    else a.start < b.stop ∧ b.start < a.stop := by
  unfold Edit.overlaps Edit.isInsertion
  by_cases inserts : a.start = a.stop <;> by_cases inserts' : b.start = b.stop <;> simp [inserts, inserts']

/-- An insertion conflicts with a later edit only if that is an insertion at the
same place. -/
theorem insertion_overlaps_iff (order : Edit.le a b = true) (inserts : a.isInsertion = true) :
    a.overlaps b = true ↔ b.start = a.start ∧ b.stop = a.stop := by
  have forward := b.ordered
  have here : a.start = a.stop := of_decide_eq_true inserts
  rw [le_iff] at order
  rw [overlaps_iff, if_pos here]
  split <;> omega

/-- A range conflicts with every later edit that begins before its end. -/
theorem range_overlaps_iff (order : Edit.le a b = true) (ranges : a.isInsertion = false) :
    a.overlaps b = true ↔ b.start < a.stop := by
  have forward := a.ordered
  have forward' := b.ordered
  have wide : a.start ≠ a.stop := of_decide_eq_false ranges
  rw [le_iff] at order
  rw [overlaps_iff, if_neg wide]
  split <;> omega

/-- The neighbours of an insertion keep it apart from all edits behind them. -/
theorem insertions_apart (sorted : Increasing edits) (none : EditSet.neighbourConflict edits = none) :
    edits.Pairwise fun a b => a.isInsertion = true → a.overlaps b = false := by
  induction edits with
  | nil => exact .nil
  | cons a tail ih =>
    obtain ⟨first, later⟩ := List.pairwise_cons.mp sorted
    cases tail with
    | nil => exact List.pairwise_singleton ..
    | cons b rest =>
      rw [EditSet.neighbourConflict] at none
      split at none
      · cases none
      rename_i separate
      refine List.pairwise_cons.mpr ⟨fun found member inserts => ?_, ih later none⟩
      by_contra conflict
      rw [Bool.not_eq_false] at conflict
      have same := (insertion_overlaps_iff (first found member) inserts).mp conflict
      have next := first b (List.mem_cons_self ..)
      have between : b.start = a.start ∧ b.stop = a.stop := by
        rcases List.mem_cons.mp member with rfl | behind
        · exact same
        · have order := (List.pairwise_cons.mp later).1 found behind
          rw [le_iff] at next order
          omega
      exact separate ((insertion_overlaps_iff next inserts).mpr between)

/-- The edit that reaches furthest stands for all ranges in front of it: an edit
that is apart from it is apart from them. -/
theorem ranges_apart (sorted : Increasing edits) (first : ∀ widest ∈ reach, ∀ edit ∈ edits, Edit.le widest edit = true)
    (none : EditSet.reachConflict reach edits = none) :
    (∀ widest ∈ reach, ∀ edit ∈ edits, ∀ a, Edit.le a edit = true → a.stop ≤ widest.stop →
      a.isInsertion = false → a.overlaps edit = false) ∧
    edits.Pairwise fun a b => a.isInsertion = false → a.overlaps b = false := by
  induction edits generalizing reach with
  | nil => exact ⟨by simp, .nil⟩
  | cons edit rest ih =>
    obtain ⟨behind, later⟩ := List.pairwise_cons.mp sorted
    cases reach with
    | none =>
      rw [EditSet.reachConflict] at none
      have begins : ∀ widest ∈ (if 0 < edit.stop then some edit else .none), widest = edit := by
        intro widest member
        split at member
        · exact (Option.some.inj member).symm
        · cases member
      obtain ⟨covered, others⟩ := ih later (fun widest member => begins widest member ▸ behind) none
      refine ⟨by simp, List.pairwise_cons.mpr ⟨fun found member ranges => ?_, others⟩⟩
      have filled : 0 < edit.stop := by
        have order := edit.ordered
        unfold Edit.isInsertion at ranges
        have different := of_decide_eq_false ranges
        omega
      rw [if_pos filled] at covered
      exact covered edit rfl found member edit (behind found member) (Nat.le_refl _) ranges
    | some widest =>
      rw [EditSet.reachConflict] at none
      split at none
      · cases none
      · rename_i separate
        rw [Bool.and_eq_true, decide_eq_true_eq, not_and, Bool.not_eq_true] at separate
        have front := first widest rfl
        -- what reaches furthest from here on reaches as far as both
        obtain ⟨next, chosen, far, farther, before⟩ : ∃ next,
            (if widest.stop < edit.stop then some edit else some widest) = some next ∧
              widest.stop ≤ next.stop ∧ edit.stop ≤ next.stop ∧ ∀ found ∈ rest, Edit.le next found = true := by
          split
          · exact ⟨edit, rfl, by omega, by omega, behind⟩
          · exact ⟨widest, rfl, by omega, by omega, fun found member => front found (List.mem_cons_of_mem _ member)⟩
        rw [chosen] at none
        obtain ⟨covered, others⟩ := ih later (fun _ member => Option.some.inj member ▸ before) none
        refine ⟨?_, List.pairwise_cons.mpr ⟨fun found member ranges => ?_, others⟩⟩
        · rintro _ ⟨⟩ found member a order reaches ranges
          rcases List.mem_cons.mp member with rfl | member
          · by_contra conflict
            rw [Bool.not_eq_false, range_overlaps_iff order ranges] at conflict
            have wide : widest.isInsertion = false := by
              have order := front found (List.mem_cons_self ..)
              rw [le_iff] at order
              exact decide_eq_false (by omega)
            have apart := separate (by omega)
            rw [← Bool.not_eq_true, range_overlaps_iff (front found (List.mem_cons_self ..)) wide] at apart
            omega
          · exact covered next rfl found member a order (by omega) ranges
        · exact covered next rfl found member edit (behind found member) farther ranges

/-- Edits are valid exactly when no two of them conflict. -/
theorem validate_eq_ok_iff : group.validate = .ok () ↔ PairwiseApart group.edits := by
  refine ⟨fun valid => ?_, validate_of_apart⟩
  unfold EditSet.validate at valid
  split at valid
  · cases valid
  · rename_i none
    obtain ⟨neighbours, reach⟩ := Option.or_eq_none_iff.mp none
    have sorted := mergeSort_increasing group.edits
    have insertions := insertions_apart sorted neighbours
    obtain ⟨-, ranges⟩ := ranges_apart sorted (by simp) reach
    have apart : PairwiseApart (group.edits.mergeSort Edit.le) := by
      refine (insertions.and ranges).imp fun {a b} both => ?_
      cases inserts : a.isInsertion with
      | true => exact both.1 inserts
      | false => exact both.2 inserts
    exact apart.perm (List.mergeSort_perm ..)

/-- Every edit addresses whole characters of the text. -/
def Addressed (chars : List Char) (edits : List Edit) : Prop :=
  ∀ edit ∈ edits, edit.stop ≤ Text.byteLength chars ∧ Text.isBoundary chars edit.start = true ∧
    Text.isBoundary chars edit.stop = true

theorem Addressed.cuts (addressed : Addressed chars edits) :
    ∀ edit ∈ edits, Cut chars edit.start ∧ Cut chars edit.stop := by
  intro edit member
  obtain ⟨-, start, stop⟩ := addressed edit member
  exact ⟨isBoundary_iff.mp start, isBoundary_iff.mp stop⟩

theorem checkRanges_eq_ok_iff :
    EditSet.checkRanges chars (Text.byteLength chars) edits = .ok () ↔ Addressed chars edits := by
  refine ⟨fun checked => ?_, fun addressed => checkRanges_ok addressed.cuts⟩
  induction edits with
  | nil => exact fun edit member => by cases member
  | cons edit rest ih =>
    rw [EditSet.checkRanges] at checked
    split at checked
    · cases checked
    · rename_i inside
      split at checked
      · rename_i boundaries
        rw [Bool.and_eq_true] at boundaries
        exact List.forall_mem_cons.mpr ⟨⟨by omega, boundaries⟩, ih checked⟩
      · cases checked

/-- The text from `cursor` on, read from left to right: each gap as it is, and
each range replaced. -/
def splice (source : List Char) (cursor : Nat) : List Edit → List Char
  | [] => (Text.dropBytes? cursor source).getD []
  | edit :: rest =>
    (Text.slice? source cursor edit.start).getD [] ++ edit.replacement.toList ++ splice source edit.stop rest

/-- What replacing ranges in order leaves is determined by the text and the edits. -/
theorem splice_of_spliced {front : List Char} (spliced : Spliced cursor chars edits result)
    (place : Text.byteLength front = cursor) : splice (front ++ chars) cursor edits = result := by
  induction spliced generalizing front with
  | @done offset chars =>
    rw [splice, dropBytes?_eq_some_iff.mpr ⟨front, rfl, place⟩]
    rfl
  | @replaced offset gapText old after edits result edit gap range later ih =>
    have sliced : Text.slice? (front ++ (gapText ++ (old ++ after))) offset edit.start = some gapText :=
      slice?_eq_some_iff.mpr ⟨front, old ++ after, rfl, place, gap⟩
    have reached : Text.byteLength (front ++ (gapText ++ old)) = edit.stop := by
      simp only [Text.byteLength_append]
      omega
    have behind := ih reached
    simp only [List.append_assoc] at behind
    rw [splice, sliced, behind, Option.getD_some, List.append_assoc]

/-- Two edits that are apart have different ranges. -/
theorem eq_of_apart (apart : PairwiseApart edits) (first : a ∈ edits) (second : b ∈ edits)
    (order : Edit.le a b = true) (order' : Edit.le b a = true) : a = b := by
  by_contra different
  have : Std.Symm fun x y : Edit => x.overlaps y = false := ⟨fun x y separate => (overlaps_comm y x).trans separate⟩
  have separate := List.Pairwise.forall apart first second different
  rw [le_iff] at order order'
  have forward := a.ordered
  have overlaps : a.overlaps b = true := by
    rw [overlaps_iff]
    split <;> split <;> omega
  rw [overlaps] at separate
  cases separate

/-- Edits that are apart can be sorted in one way only. -/
theorem increasing_unique (apart : PairwiseApart edits) (sorted : Increasing edits)
    (sorted' : Increasing others) (same : edits.Perm others) : edits = others := by
  refine List.Perm.eq_of_pairwise ?_ sorted sorted' same
  intro a b first second order order'
  exact eq_of_apart apart first (same.mem_iff.mpr second) order order'

theorem reverse_mergeSort_ge (apart : PairwiseApart edits) :
    (edits.mergeSort Edit.ge).reverse = edits.mergeSort Edit.le := by
  have descending := mergeSort_descending apart
  have permuted : (edits.mergeSort Edit.ge).reverse.Perm edits :=
    (List.reverse_perm _).trans (List.mergeSort_perm ..)
  refine increasing_unique (apart.perm permuted.symm) ?_ (mergeSort_increasing edits)
    (permuted.trans (List.mergeSort_perm ..).symm)
  refine List.pairwise_reverse.mpr (descending.imp fun {a b} below => ?_)
  have forward := a.ordered
  have forward' := b.ordered
  rw [le_iff]
  omega

/-- The edits can be applied to the text. -/
structure Applicable (group : EditSet) (text : String) : Prop where
  based : group.base = Digest.ofText text
  fits : group.edits = [] ∨ PairwiseApart group.edits ∧ Addressed text.toList group.edits

theorem Applicable.apart (applicable : Applicable group text) : PairwiseApart group.edits := by
  rcases applicable.fits with empty | fits
  · rw [empty]
    exact .nil
  · exact fits.1

theorem Applicable.addressed (applicable : Applicable group text) : Addressed text.toList group.edits := by
  rcases applicable.fits with empty | fits
  · rw [empty]
    exact fun edit member => by cases member
  · exact fits.2

theorem Applicable.perm (applicable : Applicable group text) (same : group.edits.Perm others) :
    Applicable { group with edits := others } text := by
  refine ⟨applicable.based, .inr ⟨applicable.apart.perm same, fun edit member => ?_⟩⟩
  exact applicable.addressed edit (same.mem_iff.mpr member)

/-- Edits that can be applied leave the spliced text. -/
theorem Applicable.apply_eq (applicable : Applicable group text) :
    group.apply text = .ok (String.ofList (splice text.toList 0 (group.edits.mergeSort Edit.le))) := by
  obtain ⟨rule, base, edits⟩ := group
  obtain rfl : base = Digest.ofText text := applicable.based
  have apart : PairwiseApart edits := applicable.apart
  obtain ⟨result, applied, spliced⟩ := @apply_of_apart _ rule _ apart applicable.addressed.cuts
  rw [reverse_mergeSort_ge apart] at spliced
  have whole : splice ([] ++ text.toList) 0 (edits.mergeSort Edit.le) = result := splice_of_spliced spliced rfl
  rw [← whole] at applied
  exact applied

/-- Only such edits are applied. -/
theorem applicable_of_apply (applied : group.apply text = .ok new) : Applicable group text := by
  unfold EditSet.apply at applied
  dsimp only at applied
  split at applied
  · cases applied
  rename_i based
  refine ⟨Decidable.not_not.mp based, ?_⟩
  split at applied
  · rename_i empty
    exact .inl (List.isEmpty_iff.mp empty)
  · obtain ⟨_, valid, rest⟩ := bind_eq_ok_iff.mp applied
    obtain ⟨_, checked, -⟩ := bind_eq_ok_iff.mp rest
    exact .inr ⟨validate_eq_ok_iff.mp valid, checkRanges_eq_ok_iff.mp checked⟩

/-- What lies in front of all ranges is left alone. -/
theorem spliced_front {low high : List Char} (spliced : Spliced cursor (low ++ high) edits result)
    (behind : ∀ edit ∈ edits, cursor + Text.byteLength low ≤ edit.start) :
    ∃ high', result = low ++ high' := by
  generalize whole : low ++ high = chars at spliced
  cases spliced with
  | done => exact ⟨high, whole.symm⟩
  | @replaced _ gapText old after edits later edit gap range spliced =>
    have first := behind edit (List.mem_cons_self ..)
    obtain ⟨middle, rfl⟩ := cuts_nested whole (by omega)
    exact ⟨middle ++ (edit.replacement.toList ++ later), by rw [List.append_assoc]⟩

/-- While edits are applied from the highest range down, the range that comes next
addresses whole characters of what has been made of the text so far. -/
theorem addressed_midway {done rest : List Edit} {edit : Edit} (descending : Descending (done ++ edit :: rest))
    (cuts : ∀ found ∈ done ++ edit :: rest, Cut chars found.start ∧ Cut chars found.stop) :
    ∃ current, done.foldlM EditSet.replaceRange chars = .ok current ∧ Addressed current [edit] := by
  obtain ⟨higher, -, above⟩ := List.pairwise_append.mp descending
  obtain ⟨current, ran, spliced⟩ := foldlM_replaceRange higher
    (fun found member => cuts found (List.mem_append_left _ member)) []
  obtain ⟨⟨left, right, shape, start⟩, ⟨low, high, shape', stop⟩⟩ :=
    cuts edit (List.mem_append_right _ (List.mem_cons_self ..))
  rw [shape'] at spliced
  obtain ⟨high', rfl⟩ := spliced_front spliced fun found member => by
    rw [Nat.zero_add, stop]
    exact above found (List.mem_reverse.mp member) edit (List.mem_cons_self ..)
  obtain ⟨middle, rfl⟩ := cuts_nested (shape.symm.trans shape') (by rw [start, stop]; exact edit.ordered)
  rw [List.append_nil, List.append_nil] at ran
  refine ⟨_, ran, List.forall_mem_singleton.mpr ⟨?_, ?_, ?_⟩⟩
  · rw [Text.byteLength_append, stop]
    omega
  · exact isBoundary_iff.mpr ⟨left, middle ++ high', by rw [List.append_assoc], start⟩
  · exact isBoundary_iff.mpr ⟨left ++ middle, high', rfl, stop⟩

/-- A set of edits is applied to a text exactly when it was made for that text and
is empty, or its edits are pairwise apart and address whole characters. What it
leaves is the text read from left to right with each range replaced, the same for
every order in which the edits were made; and each replacement on the way finds its
range in what the ones before it have left. -/
theorem apply_characterized (group : EditSet) (text : String) :
    ((∃ new, group.apply text = .ok new) ↔ Applicable group text) ∧
    ∀ new, group.apply text = .ok new →
      new.toList = splice text.toList 0 (group.edits.mergeSort Edit.le) ∧
      (∀ edits, group.edits.Perm edits → ({ group with edits := edits } : EditSet).apply text = .ok new) ∧
      ∀ done edit rest, group.edits.mergeSort Edit.ge = done ++ edit :: rest →
        ∃ current, done.foldlM EditSet.replaceRange text.toList = .ok current ∧ Addressed current [edit] := by
  refine ⟨⟨fun ⟨new, applied⟩ => applicable_of_apply applied, fun applicable => ⟨_, applicable.apply_eq⟩⟩, ?_⟩
  intro new applied
  have applicable := applicable_of_apply applied
  have same : new = String.ofList (splice text.toList 0 (group.edits.mergeSort Edit.le)) :=
    Except.ok.inj (applied.symm.trans applicable.apply_eq)
  refine ⟨by rw [same, String.toList_ofList], fun edits permuted => ?_, fun done edit rest split => ?_⟩
  · have sorted : group.edits.mergeSort Edit.le = edits.mergeSort Edit.le := by
      refine increasing_unique (applicable.apart.perm (List.mergeSort_perm ..).symm)
        (mergeSort_increasing _) (mergeSort_increasing _) ?_
      exact (List.mergeSort_perm ..).trans (permuted.trans (List.mergeSort_perm ..).symm)
    rw [(applicable.perm permuted).apply_eq, same, sorted]
  · have descending := mergeSort_descending applicable.apart
    have cuts : ∀ found ∈ group.edits.mergeSort Edit.ge,
        Cut text.toList found.start ∧ Cut text.toList found.stop :=
      fun found member => applicable.addressed.cuts found (List.mem_mergeSort.mp member)
    rw [split] at descending cuts
    exact addressed_midway descending cuts

/-- Insertions on both sides of a replaced character of two bytes. -/
def touchingEdits : List Edit :=
  [.insertion 3 "c", ⟨1, 3, "e", by decide⟩, .insertion 1 "b"]

/-- They are applied, although none of them was made at its place in the text. -/
theorem touchingEdits_spliced :
    Applicable (.onText "touch" "aéd" touchingEdits) "aéd" ∧
      (EditSet.onText "touch" "aéd" touchingEdits).apply "aéd" = .ok "abecd" := by
  have applicable : Applicable (.onText "touch" "aéd" touchingEdits) "aéd" :=
    ⟨rfl, .inr ⟨by unfold PairwiseApart; decide, by unfold Addressed; decide⟩⟩
  obtain ⟨accepted, left⟩ := apply_characterized (.onText "touch" "aéd" touchingEdits) "aéd"
  obtain ⟨new, applied⟩ := accepted.mpr applicable
  have sorted : touchingEdits.mergeSort Edit.le = [.insertion 1 "b", ⟨1, 3, "e", by decide⟩, .insertion 3 "c"] := by
    refine increasing_unique (applicable.apart.perm (List.mergeSort_perm ..).symm) (mergeSort_increasing _) ?_ ?_
    · unfold Increasing
      decide
    · exact (List.mergeSort_perm ..).trans (by decide)
  have text : splice "aéd".toList 0 (touchingEdits.mergeSort Edit.le) = "abecd".toList := by
    rw [sorted]
    decide +kernel
  have same : new.toList = "abecd".toList := (left new applied).1.trans text
  exact ⟨applicable, by rw [applied, String.toList_injective same]⟩

end KindLift.EditSplicing
