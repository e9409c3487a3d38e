import KindLift.Service.Template
import Mathlib.Data.List.Nodup
import Mathlib.Data.List.Range

/-! The names of the parameters in generated code. Parameters without a name are given
one by counting, whatever the other parameters are called: the names stay apart exactly
when no parameter bears one of the names that are made up, and what the instance calls
its own two values by is hidden exactly when a parameter bears that name. -/
namespace KindLift.ParameterNames
open Template

/-- The name that is made up for the parameter of the given number. -/
def madeUp (number : Nat) : String := "ev" ++ toString number

/-- The names that the source gives to the parameters of a method. -/
def declared (method : Method) : List String :=
  ((method.params.flatMap ParamList.params).map Param.name).filter (· ≠ "_")

/-- How many parameters of a method have no name. -/
def anonymous (method : Method) : Nat := ((method.params.flatMap ParamList.params).map Param.name).count "_"

/-- The names of the parameters in lists, through all of them. -/
def namesOf (lists : List RenderedList) : List String :=
  (lists.flatMap RenderedList.params).map RenderedParam.name

/-- The names of the parameters in generated code. -/
def rendered (method : Method) : List String := namesOf (renderedLists method)

/-- What a name can refer to in the code of a mapped method. -/
inductive Binder where
  | param (index : Nat)
  | member (index : Nat)
  | receiver
  | transformation

/-- What a name refers to in the code of a mapped method. The parameters of the method are
the innermost scope, then come the methods of the instance, and then the parameters of the
mapping function. -/
def binder? (mapping : Mapping) (mapped : MappedMethod) (name : String) : Option Binder :=
  match (namesOf mapped.lists).idxOf? name, (mapping.methods.map (·.method.name)).idxOf? name with
  | some index, _ => some (.param index)
  | none, some index => some (.member index)
  | none, none =>
    if name = mapping.receiver then some .receiver
    else if name = mapping.transformation then some .transformation
    else none

theorem madeUp_injective : Function.Injective madeUp := by
  intro a b same
  have digits := congrArg (Nat.ofDigitChars 10 · 0) (congrArg String.toList ((String.append_right_inj "ev").mp same))
  simpa only [Nat.toString_eq_repr, Nat.toList_repr, Nat.ofDigitChars_toDigits (by decide : 1 < 10) (by decide)] using digits

/-- The names that are made up begin with one and the same letter. -/
theorem madeUp_head (number : Nat) : (madeUp number).toList.head? = some 'e' := by
  rw [madeUp, String.toList_append]
  rfl

/-- Naming goes on through a list where it stopped in the list before. -/
theorem nameParams_append (start : Nat) (front back : List Param) :
    (nameParams start (front ++ back)).1 = (nameParams start front).1 ++ (nameParams (nameParams start front).2 back).1 ∧
      (nameParams start (front ++ back)).2 = (nameParams (nameParams start front).2 back).2 := by
  induction front generalizing start with
  | nil => exact ⟨rfl, rfl⟩
  | cons param front ih =>
    rw [List.cons_append, nameParams, nameParams]
    split
    · exact ⟨congrArg (_ :: ·) (ih _).1, (ih _).2⟩
    · exact ⟨congrArg (_ :: ·) (ih _).1, (ih _).2⟩

/-- The parameters of all lists are named as those of one list. -/
theorem nameLists_params (start : Nat) (lists : List ParamList) :
    (nameLists start lists).flatMap RenderedList.params = (nameParams start (lists.flatMap ParamList.params)).1 := by
  induction lists generalizing start with
  | nil => rfl
  | cons list lists ih =>
    rw [nameLists, List.flatMap_cons, List.flatMap_cons, (nameParams_append _ _ _).1]
    exact congrArg (_ ++ ·) (ih _)

/-- The names are those of the source and those that are made up, counted on from `start`. -/
theorem nameParams_perm (start : Nat) (params : List Param) :
    ((nameParams start params).1.map RenderedParam.name).Perm
      ((params.map Param.name).filter (· ≠ "_") ++
        (List.range' (start + 1) ((params.map Param.name).count "_")).map madeUp) := by
  induction params generalizing start with
  | nil => exact .nil
  | cons param params ih =>
    rw [nameParams, List.map_cons]
    split
    · rename_i unnamed
      rw [unnamed, List.filter_cons_of_neg (by simp), List.count_cons_self, List.range'_succ, List.map_cons, List.map_cons]
      exact ((ih (start + 1)).cons _).trans List.perm_middle.symm
    · rename_i named
      rw [List.filter_cons_of_pos (by simpa using named), List.count_cons_of_ne named, List.map_cons, List.cons_append]
      exact (ih start).cons _

theorem rendered_perm (method : Method) :
    (rendered method).Perm (declared method ++ (List.range' 1 (anonymous method)).map madeUp) := by
  rw [rendered, namesOf, renderedLists, nameLists_params]
  exact nameParams_perm 0 _

/-- A name that begins with another letter than those that are made up is rendered exactly
when it is declared. -/
theorem mem_rendered_iff (method : Method) {name : String} (own : name.toList.head? ≠ some 'e') :
    name ∈ rendered method ↔ name ∈ declared method := by
  rw [(rendered_perm method).mem_iff, List.mem_append, or_iff_left]
  intro made
  obtain ⟨number, -, rfl⟩ := List.mem_map.mp made
  exact own (madeUp_head number)

/-- A name refers to what lies around the instance exactly when no parameter of the method and
no method of the instance bears it. -/
theorem binder?_eq_outer (mapping : Mapping) (mapped : MappedMethod) (name : String) {binder : Binder}
    (outer : binder = .receiver ∨ binder = .transformation) :
    binder? mapping mapped name = some binder ↔
      name ∉ namesOf mapped.lists ∧ name ∉ mapping.methods.map (·.method.name) ∧
        (if name = mapping.receiver then some .receiver
          else if name = mapping.transformation then some .transformation else none) = some binder := by
  unfold binder?
  rw [← List.idxOf?_eq_none_iff, ← List.idxOf?_eq_none_iff]
  cases (namesOf mapped.lists).idxOf? name with
  | some index =>
    refine iff_of_false ?_ (by simp)
    rintro ⟨⟩
    simp at outer
  | none =>
    cases (mapping.methods.map (·.method.name)).idxOf? name with
    | some index =>
      refine iff_of_false ?_ (by simp)
      rintro ⟨⟩
      simp at outer
    | none => simp

/-- The parameters of a method are called by different names in generated code exactly when
they are so in the source and no parameter there bears one of the names that are made up.
The mapping function maps every method of the service. In the code of each, the names of the
service and of the transformation refer to its own parameters exactly when no parameter that
the source declares and no method of the service bears them. -/
theorem rendered_names (method : Method) (methods : List Method) (conventions : Conventions) :
    ((rendered method).Nodup ↔
      (declared method).Nodup ∧ ∀ number, 1 ≤ number → number ≤ anonymous method → madeUp number ∉ declared method) ∧
    (mapping methods conventions).methods.map MappedMethod.method = methods ∧
    ∀ mapped ∈ (mapping methods conventions).methods, mapped.lists = renderedLists mapped.method ∧
      (binder? (mapping methods conventions) mapped mapped.receiver = some .receiver ↔
        mapped.receiver ∉ declared mapped.method ∧ mapped.receiver ∉ methods.map Method.name) ∧
      (binder? (mapping methods conventions) mapped mapped.transformation = some .transformation ↔
        mapped.transformation ∉ declared mapped.method ∧ mapped.transformation ∉ methods.map Method.name) := by
  refine ⟨?_, ?_, ?_⟩
  · have apart : ((List.range' 1 (anonymous method)).map madeUp).Nodup := List.Nodup.map madeUp_injective (List.nodup_range' ..)
    rw [(rendered_perm method).nodup_iff, List.nodup_append]
    constructor
    · rintro ⟨named, -, differ⟩
      refine ⟨named, fun number low high member => differ _ member _ (List.mem_map.mpr ⟨number, ?_, rfl⟩) rfl⟩
      rw [List.mem_range'_1]
      omega
    · rintro ⟨named, free⟩
      refine ⟨named, apart, ?_⟩
      rintro name member _ made rfl
      obtain ⟨number, inside, rfl⟩ := List.mem_map.mp made
      rw [List.mem_range'_1] at inside
      exact free number (by omega) (by omega) member
  · rw [mapping, List.map_map]
    exact List.map_id methods
  · intro mapped member
    obtain ⟨method, -, rfl⟩ := List.mem_map.mp member
    have members : (mapping methods conventions).methods.map (·.method.name) = methods.map Method.name := by
      rw [mapping, List.map_map]
      rfl
    have service : "af" ∈ rendered method ↔ "af" ∈ declared method := mem_rendered_iff method (by decide)
    have arrow : "fk" ∈ rendered method ↔ "fk" ∈ declared method := mem_rendered_iff method (by decide)
    have differ : "fk" ≠ "af" := by decide
    refine ⟨rfl, ?_, ?_⟩
    · rw [binder?_eq_outer _ _ _ (.inl rfl), members]
      exact and_congr (not_congr service) (and_iff_left (if_pos rfl))
    · rw [binder?_eq_outer _ _ _ (.inr rfl), members]
      exact and_congr (not_congr arrow) (and_iff_left ((if_neg differ).trans (if_pos rfl)))

end KindLift.ParameterNames
