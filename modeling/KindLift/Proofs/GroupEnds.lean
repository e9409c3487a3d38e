import KindLift.Proofs.BracketBalance

/-! Where a bracket group ends. The closing bracket that is found for an opening one is the
one that the grammar of groups gives it, and none is found just when the grammar has none. -/
namespace KindLift.GroupEnds
open Token BracketBalance
open Traversal (toOption_eq_some_iff)

/-- An opening bracket, tokens and groups, and the closing bracket of the same kind. -/
inductive Group : List Token → Prop where
  | enclose {opening closing : Token} {bracket : Bracket} {inside : List Token} (opens : opening.kind = .opener bracket)
      (inner : WellBracketed inside) (closes : closing.kind = .closer bracket) : Group (opening :: (inside ++ [closing]))

/-- There is an opening bracket at the index. -/
def Opens (tokens : List Token) (index : Nat) : Prop :=
  ∃ token bracket, tokens[index]? = some token ∧ token.kind = .opener bracket

/-- The tokens from one index to the other, both of them included, are one group. -/
def Spans (tokens : List Token) (first last : Nat) : Prop :=
  last < tokens.length ∧ Group (tokens.extract first (last + 1))

variable {tokens group rest : List Token} {first last index : Nat}

/-- The group that a list begins with ends where the brackets opened in it are closed. -/
theorem groupEnd?_eq_some_iff :
    groupEnd? tokens = some index ↔ ∃ group rest, tokens = group ++ rest ∧ Group group ∧ group.length = index + 1 := by
  constructor
  · intro ends
    cases tokens with
    | nil => cases ends
    | cons opening tokens =>
      rw [groupEnd?] at ends
      split at ends
      · rename_i bracket opens
        obtain ⟨within, closed, rfl⟩ := Option.map_eq_some_iff.mp ends
        obtain ⟨inside, closing, rest, left, rfl, bracketed, closes, around, rfl⟩ := closeAll_split closed
        cases around
        exact ⟨opening :: (inside ++ [closing]), rest, by simp, .enclose opens bracketed closes, by simp⟩
      · cases ends
  · rintro ⟨_, rest, rfl, @⟨opening, closing, bracket, inside, opens, bracketed, closes⟩, length⟩
    have whole : opening :: (inside ++ [closing]) ++ rest = opening :: (inside ++ closing :: rest) := by simp
    obtain rfl : inside.length + 1 = index := by simpa using length
    rw [whole, groupEnd?, opens]
    dsimp only
    rw [closeAll_inner bracketed, closeAll, closes]
    simp

/-- One group from an index on is what the list has from there. -/
theorem spans_iff : Spans tokens first last ↔
    first ≤ last ∧ ∃ group rest, tokens.drop first = group ++ rest ∧ Group group ∧ group.length = last - first + 1 := by
  constructor
  · rintro ⟨bound, enclosed⟩
    have order : first ≤ last := by
      by_contra above
      rw [List.extract_eq_take_drop, show last + 1 - first = 0 by omega, List.take_zero] at enclosed
      cases enclosed
    refine ⟨order, _, _, (List.take_append_drop (last + 1 - first) _).symm, enclosed, ?_⟩
    rw [List.length_take, List.length_drop]
    omega
  · rintro ⟨order, group, rest, shape, enclosed, length⟩
    have bound := congrArg List.length shape
    rw [List.length_drop, List.length_append] at bound
    refine ⟨by omega, ?_⟩
    rw [List.extract_eq_take_drop, shape, show last + 1 - first = group.length by omega, List.take_left]
    exact enclosed

theorem matchingClose?_eq_some_iff : matchingClose? tokens first = some last ↔ Spans tokens first last := by
  rw [matchingClose?, Option.map_eq_some_iff, spans_iff]
  constructor
  · rintro ⟨index, ends, rfl⟩
    refine ⟨Nat.le_add_right .., ?_⟩
    rw [Nat.add_sub_cancel_left]
    exact groupEnd?_eq_some_iff.mp ends
  · rintro ⟨order, found⟩
    exact ⟨last - first, groupEnd?_eq_some_iff.mpr found, Nat.add_sub_cancel' order⟩

/-- A group begins with an opening bracket. -/
theorem Spans.opens (spans : Spans tokens first last) : Opens tokens first := by
  obtain ⟨-, group, rest, shape, ⟨opens, -, -⟩, -⟩ := spans_iff.mp spans
  refine ⟨_, _, ?_, opens⟩
  rw [← List.head?_drop, shape]
  rfl

/-- The closing bracket that is found at an index is the last token of the one group that the
tokens from there on begin with. There is at most one such group, and no bracket is found
exactly when there is no opening bracket at the index or no group begins with it. What is read
over as a group is read over up to this bracket. -/
theorem matchingClose?_characterized (tokens : List Token) (first : Nat) :
    (∀ last, matchingClose? tokens first = some last ↔ Opens tokens first ∧ Spans tokens first last) ∧
      (∀ last last', Spans tokens first last → Spans tokens first last' → last = last') ∧
      (matchingClose? tokens first = none ↔ ¬ Opens tokens first ∨ ∀ last, ¬ Spans tokens first last) ∧
      splitGroup? (tokens.drop first) = (matchingClose? tokens first).bind fun last =>
        tokens[last]?.map fun closing => (closing, tokens.drop (last + 1)) := by
  refine ⟨fun last => ?_, fun last last' spans spans' => ?_, ?_, ?_⟩
  · rw [matchingClose?_eq_some_iff]
    exact ⟨fun spans => ⟨spans.opens, spans⟩, And.right⟩
  · have found := matchingClose?_eq_some_iff.mpr spans
    exact Option.some.inj (found.symm.trans (matchingClose?_eq_some_iff.mpr spans'))
  · rw [Option.eq_none_iff_forall_ne_some]
    simp only [ne_eq, matchingClose?_eq_some_iff]
    exact ⟨.inr, fun either last spans => either.elim (· spans.opens) (· last spans)⟩
  · rw [matchingClose?, splitGroup?]
    cases groupEnd? (tokens.drop first) with
    | none => rfl
    | some index =>
      simp only [Option.map_some, Option.bind_eq_bind, Option.bind_some, List.getElem?_drop, List.drop_drop, Option.pure_def,
        Nat.add_assoc]
      cases tokens[first + index]? <;> rfl

/-- Behind a group there are two that cross each other, so that neither of them is one. -/
theorem crossedGroups_ends : ∃ tokens, scan "([a])([)]".toList = .ok tokens ∧ Spans tokens 0 4 ∧ Opens tokens 5 ∧
    ∀ last, ¬ Spans tokens 5 last := by
  have facts : (scan "([a])([)]".toList).toOption.map (fun tokens =>
      (matchingClose? tokens 0, matchingClose? tokens 5, tokens[5]?.map Token.kind)) =
      some (some 4, none, some (.opener .paren)) := by decide +kernel
  obtain ⟨tokens, scanned, facts⟩ := Option.map_eq_some_iff.mp facts
  obtain ⟨found, facts⟩ := Prod.mk.inj facts
  obtain ⟨absent, kind⟩ := Prod.mk.inj facts
  obtain ⟨token, stands, kind⟩ := Option.map_eq_some_iff.mp kind
  have opens : Opens tokens 5 := ⟨token, .paren, stands, kind⟩
  have spans := (((matchingClose?_characterized tokens 0).1 4).mp found).2
  have neither := (matchingClose?_characterized tokens 5).2.2.1.mp absent
  exact ⟨tokens, toOption_eq_some_iff.mp scanned, spans, opens, neither.resolve_left (not_not_intro opens)⟩

end KindLift.GroupEnds
