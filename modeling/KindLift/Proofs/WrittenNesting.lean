import KindLift.Proofs.WrittenInstances

/-! The interface that is nested in an object. Its text is taken from the source, with
the head of every result type replaced, and is the text of the trait over the effect. -/
namespace KindLift.WrittenNesting
open Token Text TextBoundary TokenPlacement KindLift.Parser WrittenTokens WrittenReading WrittenGroups WrittenTraits WrittenObjects
open WrittenTemplates WrittenInstances

variable {source before after front gap : List Char} {cursor offset : Nat} {pieces : List Piece}

/-! ### Spans one after the other -/

/-- Spans of items that are written one after the other are in order. -/
theorem readAll_ordered {write : α → List Piece} {read : Nat → α → Span}
    (inside : ∀ item offset, offset ≤ (read offset item).start ∧ (read offset item).start ≤ (read offset item).stop ∧
      (read offset item).stop ≤ offset + width (write item)) (offset : Nat) (items : List α) :
    (readAll write read offset items).Pairwise (fun a b => a.stop ≤ b.start) ∧
      ∀ span ∈ readAll write read offset items, offset ≤ span.start := by
  induction items generalizing offset with
  | nil => exact ⟨.nil, by simp [readAll]⟩
  | cons item items ih =>
    obtain ⟨ordered, behind⟩ := ih (offset + width (write item))
    obtain ⟨first, -, last⟩ := inside item offset
    refine ⟨List.pairwise_cons.mpr ⟨fun span member => ?_, ordered⟩, List.forall_mem_cons.mpr ⟨first, fun span member => ?_⟩⟩
    · exact Nat.le_trans last (behind span member)
    · exact Nat.le_trans (Nat.le_add_right _ _) (behind span member)

/-! ### The nested interface -/

/-- The method with another head of its result type. -/
def headed (head : Name) (signature : Signature) : Signature := { signature with head := head }

/-- What a method is written as in front of the head of its result type. -/
def leadText (gap : List Char) (signature : Signature) : List Char :=
  written (signature.opening gap) ++ (written (listPieces signature.fields) ++ [':', ' '])

theorem written_signature (gap : List Char) (signature : Signature) : written (signature.pieces gap) =
    leadText gap signature ++ (signature.head.text.toList ++ written (bracketed signature.arg)) := by
  simp [Signature.pieces, Signature.resultPieces, leadText, Piece.chars, Lexeme.chars]

/-- Where the head of the result type stands, in a method at `offset`. -/
def headAt (gap : List Char) (offset : Nat) (signature : Signature) : Span :=
  ⟨offset + byteLength (leadText gap signature),
    offset + byteLength (leadText gap signature) + byteLength signature.head.text.toList⟩

theorem headSpan_result (gap : List Char) (offset : Nat) (signature : Signature) :
    (signature.result (signature.resultOffset offset gap)).headSpan = headAt gap offset signature := by
  have colon : (Piece.mk [] .colon).width = 1 := rfl
  have space : byteLength (leadOf [⟨[' '], .name signature.head⟩]) = 1 := rfl
  have both : byteLength [':', ' '] = 2 := rfl
  have name : width [⟨[' '], .name signature.head⟩] = 1 + byteLength signature.head.text.toList := by
    simp [Piece.width, Piece.chars, Lexeme.chars, Char.utf8Size]
  simp only [Signature.result, Signature.resultOffset, reach, space, name, colon, headAt, leadText, byteLength_append, both,
    Span.mk.injEq]
  simp only [width]
  omega

/-- The heads of methods that stand from `offset` on, as they are found in them. -/
theorem resultHeads_methodsAt (gap : List Char) (offset : Nat) (methods : List Signature) :
    Template.resultHeads (methodsAt gap offset methods) = readAll (Signature.pieces gap) (headAt gap) offset methods := by
  have wide : ∀ signature : Signature, byteLength signature.head.text.toList ≠ 0 := by
    intro signature
    obtain ⟨c, rest, shape, -⟩ := signature.head.chars_eq
    have filled := byteLength_pos (List.cons_ne_nil c rest)
    rw [shape]
    omega
  have heads : ((methodsAt gap offset methods).filterMap Method.result).map ResultType.headSpan =
      readAll (Signature.pieces gap) (headAt gap) offset methods := by
    induction methods generalizing offset with
    | nil => rfl
    | cons signature methods ih =>
      have first : (signature.method gap offset).result = some (signature.result (signature.resultOffset offset gap)) := rfl
      have later := ih (offset + width (signature.pieces gap))
      rw [methodsAt] at later ⊢
      rw [readAll, List.filterMap_cons_some first, List.map_cons, headSpan_result, later, readAll]
  have filled : ∀ span ∈ readAll (Signature.pieces gap) (headAt gap) offset methods, span.start < span.stop := by
    intro span member
    clear heads
    induction methods generalizing offset with
    | nil => cases member
    | cons signature methods ih =>
      rcases List.mem_cons.mp member with rfl | later
      · have := wide signature
        simp only [headAt]
        omega
      · exact ih _ later
  obtain ⟨ordered, -⟩ := @readAll_ordered _ (Signature.pieces gap) (headAt gap) (by
    intro signature offset
    have whole := congrArg byteLength (written_signature gap signature)
    simp only [byteLength_append] at whole
    simp only [headAt, width]
    omega) offset methods
  rw [Template.resultHeads, heads, List.filter_eq_self.mpr (by simpa using filled)]
  refine List.mergeSort_of_pairwise (ordered.imp_of_mem fun {a b} member _ order => ?_)
  have width := filled a member
  simp only [Bool.or_eq_true, decide_eq_true_eq]
  omega

/-- Every head is replaced by the effect, and nothing else is changed. -/
theorem substitute_methods {methods : List Signature} {close : List Char}
    (shape : source = before ++ (front ++ (written (methodPieces gap methods) ++ (close ++ after))))
    (start : byteLength before = cursor) (behind : offset = cursor + byteLength front) :
    Template.substitute source effect.text.toList cursor (offset + width (methodPieces gap methods) + byteLength close)
        (readAll (Signature.pieces gap) (headAt gap) offset methods) =
      some (front ++ (written (methodPieces gap (methods.map (headed effect))) ++ close)) := by
  induction methods generalizing before front offset cursor with
  | nil =>
    refine slice?_eq_some_iff.mpr ⟨before, after, by rw [shape]; simp [methodPieces], start, ?_⟩
    simp only [methodPieces, List.flatMap_nil, List.map_nil, written_nil, width_nil, List.nil_append, byteLength_append]
    omega
  | cons signature methods ih =>
    have first := written_signature gap signature
    have changed := written_signature gap (headed effect signature)
    have cut : slice? source cursor (headAt gap offset signature).start = some (front ++ leadText gap signature) := by
      refine slice?_eq_some_iff.mpr ⟨before, signature.head.text.toList ++ (written (bracketed signature.arg) ++
        (written (methodPieces gap methods) ++ (close ++ after))), ?_, start, ?_⟩
      · rw [shape, methodPieces_cons, written_append, first]
        simp
      · rw [byteLength_append, headAt, behind, Nat.add_assoc]
    have rest := @ih (before ++ (front ++ (leadText gap signature ++ signature.head.text.toList)))
      (written (bracketed signature.arg)) (headAt gap offset signature).stop (offset + width (signature.pieces gap)) (by
        rw [shape, methodPieces_cons, written_append, first]
        simp) (by simp [headAt, start, behind, Nat.add_assoc]) (by
        rw [width, first]
        simp [headAt, Nat.add_assoc])
    have whole : offset + width (methodPieces gap (signature :: methods)) =
        offset + width (signature.pieces gap) + width (methodPieces gap methods) := by
      rw [methodPieces_cons, width_append, Nat.add_assoc]
    have same : leadText gap (headed effect signature) = leadText gap signature := rfl
    have head : (headed effect signature).head = effect := rfl
    have arg : (headed effect signature).arg = signature.arg := rfl
    rw [readAll, Template.substitute, cut, whole, rest, List.map_cons, methodPieces_cons, written_append, changed, same,
      head, arg]
    simp

/-- The trait over the effect. -/
def nested (trait : Trait) (methods : List Signature) : Trait :=
  ⟨trait.name, some ⟨effect, .higherKinded⟩, trait.ancestor, some (methods.map (headed effect))⟩

theorem extendsText?_trait {trait : Trait} (sits : Sits source offset (trait.pieces gap [])) :
    ∃ text, Template.extendsText? source (trait.interface gap [] offset).parents = some text ∧
      text.toList = written (parentPieces trait.ancestor) := by
  have behind : Sits source (trait.parentOffset gap offset) (parentPieces trait.ancestor) :=
    ((sits.right _).right _).left _
  cases shape : trait.ancestor with
  | none =>
    refine ⟨"", ?_, rfl⟩
    simp [Trait.interface, shape, parentsAt, Template.extendsText?]
  | some ancestor =>
    rw [shape] at behind
    obtain ⟨low, high, whole, place⟩ := behind.tail
    have cut : slice? source (ancestor.parent (trait.parentOffset gap offset + (Piece.mk [' '] (.keyword .extendsKw)).width)).span.start
        (ancestor.parent (trait.parentOffset gap offset + (Piece.mk [' '] (.keyword .extendsKw)).width)).span.stop =
          some (body ancestor.pieces) := slice?_reach behind.tail
    refine ⟨" extends " ++ String.ofList (body ancestor.pieces), ?_, ?_⟩
    · simp only [Trait.interface, shape, parentsAt, Template.extendsText?, List.head?_cons, List.getLast?_singleton, cut,
        Option.map_some]
    · have lead : leadOf ancestor.pieces = [' '] := rfl
      rw [parentPieces, written_cons, written_eq ancestor.pieces, lead]
      simp [Piece.chars, Lexeme.chars, Keyword.spelling]

theorem emptyBlankLastLine_feed (chars : List Char) :
    Template.emptyBlankLastLine (chars ++ ['\n']) = chars ++ ['\n'] := by
  rw [Template.emptyBlankLastLine, lastLine_feed, List.length_nil, Nat.sub_zero, List.take_length, ite_self]

theorem nestedInterface?_trait {trait : Trait} {methods : List Signature} (sits : Sits source offset (trait.pieces gap []))
    (declared : trait.methods = some methods) :
    ∃ text, Template.nestedInterface? source (trait.interface gap [] offset) .default = some text ∧
      Renders text (.nested (nested trait methods)) := by
  obtain ⟨parents, extended, parentsText⟩ := extendsText?_trait sits
  have inside : Sits source (trait.bodyOffset gap offset) (bodyPieces [] trait.methods) :=
    ((sits.right _).right _).right _
  rw [declared] at inside
  obtain ⟨before, after, shape, start⟩ := inside
  have opener : (Piece.mk [' '] (.opener .brace)).width = 2 := rfl
  have braces : bodyAt [] (trait.bodyOffset gap offset) trait.methods = some ⟨trait.bodyOffset gap offset + 1,
      trait.bodyOffset gap offset + 2 + width (methodPieces ['\n', ' ', ' '] methods) + byteLength ['\n']⟩ := by
    rw [declared, bodyAt, bodyPieces, width_group, width_closer, opener]
    simp only [Option.some.injEq, Body.mk.injEq, List.nil_append, true_and]
    omega
  have heads := resultHeads_methodsAt ['\n', ' ', ' '] (trait.bodyOffset gap offset + 2) methods
  have inner := @substitute_methods source (before ++ [' ', '\x7b']) ('\x7d' :: after) [] ['\n', ' ', ' ']
    (trait.bodyOffset gap offset + 2) (trait.bodyOffset gap offset + 2) methods ['\n'] (by
      rw [shape]
      simp [bodyPieces, group, Piece.chars, Lexeme.chars, openingChar, closingChar]) (by simp [start, Char.utf8Size]) rfl
  have members : (trait.interface gap [] offset).methods = methodsAt ['\n', ' ', ' '] (trait.bodyOffset gap offset + 2) methods := by
    rw [Trait.interface, declared]
    rfl
  have body : (trait.interface gap [] offset).body = bodyAt [] (trait.bodyOffset gap offset) trait.methods := rfl
  refine ⟨"trait " ++ trait.name.text ++ "[" ++ "F" ++ "[_]]" ++ parents ++ " \x7b" ++
    String.ofList (written (methodPieces ['\n', ' ', ' '] (methods.map (headed effect))) ++ ['\n']) ++ "\x7d", ?_, ?_, ?_⟩
  · have replaced : Template.substitute source (Conventions.default.effectParam).toList (trait.bodyOffset gap offset + 1 + 1)
        (trait.bodyOffset gap offset + 2 + width (methodPieces ['\n', ' ', ' '] methods) + byteLength ['\n'])
        (Template.resultHeads (methodsAt ['\n', ' ', ' '] (trait.bodyOffset gap offset + 2) methods)) =
          some (written (methodPieces ['\n', ' ', ' '] (methods.map (headed effect))) ++ ['\n']) := by
      rw [heads]
      exact inner
    simp only [Template.nestedInterface?, extended, body, braces, members, replaced, Option.bind_eq_bind, Option.bind_some,
      emptyBlankLastLine_feed]
    rfl
  · simp [Entry.pieces, Trait.pieces, Trait.opening, nested, parentsText, paramPieces, Abstraction.pieces, Abstraction.inner,
      Abstraction.kindPieces, bodyPieces, group, Piece.chars, Lexeme.chars, openingChar, closingChar, Keyword.spelling, effect]
  · exact tidy_trait _

end KindLift.WrittenNesting
