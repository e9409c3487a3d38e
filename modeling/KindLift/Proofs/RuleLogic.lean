import KindLift.Service.Match
import Mathlib.Data.List.Forall2

/-! A rule may refuse a unit, but it may not end the whole run. What a rule
computes is followed here through all its steps: either it refuses, or what it
returns has the property asked for. -/
namespace KindLift.RuleLogic

/-- The computation refuses the unit, or what it returns satisfies `post`. -/
def Safely (outcome : Except RuleError α) (post : α → Prop) : Prop :=
  match outcome with
  | .ok value => post value
  | .error error => error.isFatal = false

variable {outcome : Except RuleError α} {post : α → Prop} {later : β → Prop}

@[simp] theorem safely_ok {value : α} : Safely (.ok value) post ↔ post value := Iff.rfl

@[simp] theorem safely_pure {value : α} : Safely (pure value) post ↔ post value := Iff.rfl

@[simp] theorem safely_error {error : RuleError} :
    Safely (.error error : Except RuleError α) post ↔ error.isFatal = false := Iff.rfl

@[simp] theorem safely_throw {error : RuleError} :
    Safely (throw error : Except RuleError α) post ↔ error.isFatal = false := Iff.rfl

theorem Safely.mono {weaker : α → Prop} (safe : Safely outcome post)
    (weaken : ∀ value, post value → weaker value) : Safely outcome weaker := by
  cases outcome with
  | ok value => exact weaken value safe
  | error error => exact safe

theorem Safely.bind {next : α → Except RuleError β} (safe : Safely outcome post)
    (rest : ∀ value, post value → Safely (next value) later) : Safely (outcome >>= next) later := by
  cases outcome with
  | ok value => exact rest value safe
  | error error => exact safe

theorem Safely.mapM {step : α → Except RuleError β} {relation : α → β → Prop} {items : List α}
    (each : ∀ item ∈ items, Safely (step item) (relation item)) :
    Safely (items.mapM step) (List.Forall₂ relation items) := by
  induction items with
  | nil => exact .nil
  | cons item items ih =>
    rw [List.mapM_cons]
    refine (each item (List.mem_cons_self ..)).bind fun value first => ?_
    refine (ih fun other member => each other (List.mem_cons_of_mem _ member)).bind fun values others => ?_
    exact .cons first others

end KindLift.RuleLogic
