import Mathlib.Data.List.Forall2

/-! Computations that may fail, one after the other: a sequence of them succeeds
when each of them does, and fails as one of them fails. -/
namespace KindLift.Traversal

/-! ### Lists that are related item by item -/

theorem map_related {R : α → β → Prop} {f : α → γ} {g : β → γ} {items : List α} {items' : List β}
    (related : List.Forall₂ R items items') (same : ∀ a b, R a b → g b = f a) : items'.map g = items.map f := by
  induction related with
  | nil => rfl
  | cons first _ ih => rw [List.map_cons, List.map_cons, same _ _ first, ih]

theorem related_compose {R : α → β → Prop} {S : β → γ → Prop} {T : α → γ → Prop} (compose : ∀ a b c, R a b → S b c → T a c)
    {first : List α} {second : List β} {third : List γ} (left : List.Forall₂ R first second) (right : List.Forall₂ S second third) :
    List.Forall₂ T first third := by
  induction left generalizing third with
  | nil =>
    cases right
    exact .nil
  | cons head _ ih =>
    cases right with
    | cons head' tail => exact .cons (compose _ _ _ head head') (ih tail)

/-- Every item of the first list is related to one of the second. -/
theorem related_left {R : α → β → Prop} {items : List α} {items' : List β} (related : List.Forall₂ R items items')
    (member : item ∈ items) : ∃ item' ∈ items', R item item' := by
  induction related with
  | nil => cases member
  | cons first _ ih =>
    rcases List.mem_cons.mp member with rfl | later
    · exact ⟨_, List.mem_cons_self .., first⟩
    · obtain ⟨item', found, relates⟩ := ih later
      exact ⟨item', List.mem_cons_of_mem _ found, relates⟩

/-- Every item of the second list is related to one of the first. -/
theorem related_right {R : α → β → Prop} {items : List α} {items' : List β} (related : List.Forall₂ R items items')
    (member : item' ∈ items') : ∃ item ∈ items, R item item' := related_left related.flip member

/-! ### Computations that may fail -/

variable {outcome : Except ε α} {next : α → Except ε β} {step : α → Except ε β}

theorem bind_eq_ok_iff : outcome >>= next = .ok result ↔ ∃ value, outcome = .ok value ∧ next value = .ok result := by
  cases outcome with
  | error error =>
    constructor
    · intro ran
      cases ran
    · rintro ⟨_, same, _⟩
      cases same
  | ok value =>
    constructor
    · intro ran
      exact ⟨value, rfl, ran⟩
    · rintro ⟨_, same, ran⟩
      cases same
      exact ran

theorem bind_eq_error_iff : outcome >>= next = .error error ↔
    outcome = .error error ∨ ∃ value, outcome = .ok value ∧ next value = .error error := by
  cases outcome with
  | error found =>
    constructor
    · intro failed
      cases failed
      exact .inl rfl
    · rintro (failed | ⟨_, same, _⟩)
      · cases failed
        rfl
      · cases same
  | ok value =>
    constructor
    · intro failed
      exact .inr ⟨value, rfl, failed⟩
    · rintro (same | ⟨_, same, failed⟩)
      · cases same
      · cases same
        exact failed

theorem toOption_eq_some_iff {value : α} : outcome.toOption = some value ↔ outcome = .ok value := by
  cases outcome <;> simp [Except.toOption]

theorem mapM_eq_ok_iff {items : List α} {results : List β} :
    items.mapM step = .ok results ↔ List.Forall₂ (fun item result => step item = .ok result) items results := by
  induction items generalizing results with
  | nil =>
    constructor
    · intro ran
      cases ran
      exact .nil
    · intro related
      cases related
      rfl
  | cons item items ih =>
    rw [List.mapM_cons, bind_eq_ok_iff]
    constructor
    · rintro ⟨first, ran, rest⟩
      obtain ⟨others, ran', same⟩ := bind_eq_ok_iff.mp rest
      cases same
      exact .cons ran (ih.mp ran')
    · intro related
      cases related with
      | cons ran others => exact ⟨_, ran, bind_eq_ok_iff.mpr ⟨_, ih.mpr others, rfl⟩⟩

theorem mapM_eq_error {items : List α} (failed : items.mapM step = .error error) :
    ∃ item ∈ items, step item = .error error := by
  induction items with
  | nil => cases failed
  | cons item items ih =>
    rw [List.mapM_cons, bind_eq_error_iff] at failed
    rcases failed with first | ⟨_, _, later⟩
    · exact ⟨item, List.mem_cons_self .., first⟩
    · rcases bind_eq_error_iff.mp later with others | ⟨_, _, same⟩
      · obtain ⟨found, member, failed⟩ := ih others
        exact ⟨found, List.mem_cons_of_mem _ member, failed⟩
      · cases same

/-- Every item leaves a result. -/
theorem mapM_mem {items : List α} {results : List β} (ran : items.mapM step = .ok results)
    (member : item ∈ items) : ∃ result ∈ results, step item = .ok result :=
  related_left (mapM_eq_ok_iff.mp ran) member

/-- Every result comes from an item. -/
theorem mem_of_mapM {items : List α} {results : List β} (ran : items.mapM step = .ok results)
    (member : result ∈ results) : ∃ item ∈ items, step item = .ok result :=
  related_right (R := fun item result => step item = .ok result) (mapM_eq_ok_iff.mp ran) member

theorem mapM_ok_of_forall {items : List α} {property : β → Prop}
    (each : ∀ item ∈ items, ∃ result, step item = .ok result ∧ property result) :
    ∃ results, items.mapM step = .ok results ∧ ∀ result ∈ results, property result := by
  induction items with
  | nil => exact ⟨[], rfl, by simp⟩
  | cons item items ih =>
    obtain ⟨result, ran, holds⟩ := each item (List.mem_cons_self ..)
    obtain ⟨others, ran', hold⟩ := ih fun other member => each other (List.mem_cons_of_mem _ member)
    refine ⟨result :: others, ?_, List.forall_mem_cons.mpr ⟨holds, hold⟩⟩
    rw [List.mapM_cons, ran, bind_eq_ok_iff]
    exact ⟨_, rfl, bind_eq_ok_iff.mpr ⟨_, ran', rfl⟩⟩

end KindLift.Traversal
