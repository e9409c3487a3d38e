import KindLift.Proofs.QualifiedScan
import KindLift.Proofs.ReferencePlacement

/-! Two lists of tokens that are aligned: the second has a name and a point more
in front of some of the words that the first one uses with type arguments. Such
words have the same uses, and the same bracket groups. -/
namespace KindLift.QualifiedTokens
open Token Text TokenPlacement QualifiedScan

/-- The same token at the place `place` moves it to. -/
structure Moved (place : Nat → Nat) (token other : Token) : Prop where
  kind : other.kind = token.kind
  lexeme : other.lexeme = token.lexeme
  start : other.start = place token.start
  next : other.start + 1 = place (token.start + 1)
  stop : other.stop = place token.stop

/-- The word, with its own name and a point in front of it. -/
structure Qualifies (place : Nat → Nat) (token qualifier dot other : Token) : Prop where
  ident : token.kind = .ident
  name : qualifier.kind = .ident
  spelled : qualifier.text = token.text
  point : dot.kind = .dot
  written : dot.lexeme = ['.']
  touches : dot.stop = other.start
  kind : other.kind = .ident
  lexeme : other.lexeme = token.lexeme
  next : other.start + 1 = place (token.start + 1)
  stop : other.stop = place token.stop

/-- How many tokens behind the given one belong to what it defines. -/
def definedBehind (token : Token) (rest : List Token) : Nat :=
  match token.kind with
  | .keyword word => TypeRef.definedTokens word rest
  | _ => 0

/-- Every token of the first list is in the second one. Only a word that is used
with type arguments, and that is not among the `covered` tokens of a definition,
may have been qualified. -/
inductive Aligned (marked : Token → Bool) (place : Nat → Nat) : Nat → List Token → List Token → Prop where
  | nil : Aligned marked place covered [] []
  | same (unmarked : marked token = false) (moved : Moved place token other)
      (covers : after = max (covered - 1) (definedBehind token rest))
      (later : Aligned marked place after rest others) :
      Aligned marked place covered (token :: rest) (other :: others)
  | word (qualifies : Qualifies place token qualifier dot other)
      (bracket : rest.head?.map Token.kind = some (.opener .square)) (mark : marked token = true)
      (later : Aligned marked place 0 rest others) :
      Aligned marked place 0 (token :: rest) (qualifier :: dot :: other :: others)

/-- Where a place is found once the marked tokens are qualified. -/
def movedTo (marked : Token → Bool) : List Token → Nat → Nat
  | [], offset => offset
  | token :: rest, offset =>
    movedTo marked rest offset +
      if marked token && token.start < offset then byteLength (unquote token.lexeme) + 1 else 0

variable {place : Nat → Nat} {marked : Token → Bool} {tokens rest others : List Token} {token other : Token}
  {covered shift low : Nat} {source : List Char}

theorem movedTo_strictMono (marked : Token → Bool) (tokens : List Token) : StrictMono (movedTo marked tokens) := by
  induction tokens with
  | nil => exact strictMono_id
  | cons token rest ih =>
    intro a b less
    have below := ih less
    cases mark : marked token with
    | false => simpa only [movedTo, mark, Bool.false_and, Bool.false_eq_true, if_false, Nat.add_zero] using below
    | true =>
      simp only [movedTo, mark, Bool.true_and, decide_eq_true_eq]
      split <;> split <;> omega

theorem movedTo_front (marked : Token → Bool) {offset : Nat} (behind : ∀ token ∈ tokens, offset ≤ token.start) :
    movedTo marked tokens offset = offset := by
  induction tokens with
  | nil => rfl
  | cons token rest ih =>
    obtain ⟨first, others⟩ := List.forall_mem_cons.mp behind
    have outside : ¬ (marked token && decide (token.start < offset)) = true := by
      simp only [Bool.and_eq_true, decide_eq_true_eq]
      omega
    rw [movedTo, ih others, if_neg outside, Nat.add_zero]

/-- How much the qualification of a token inserts. -/
def inserted (marked : Token → Bool) (token : Token) : Nat :=
  if marked token then byteLength (unquote token.lexeme) + 1 else 0

/-- Up to the end of the first token only its own qualification moves an offset. -/
theorem movedTo_first (ordered : InOrder source low (token :: rest)) {offset : Nat} (above : token.start < offset)
    (below : offset ≤ token.stop) : movedTo marked (token :: rest) offset = offset + inserted marked token := by
  have behind : ∀ other ∈ rest, offset ≤ other.start :=
    fun other member => Nat.le_trans below (ReferencePlacement.inOrder_mem ordered.2.2 other member).1
  rw [movedTo, movedTo_front _ behind, inserted, decide_eq_true above, Bool.and_true]

theorem movedTo_behind (token : Token) (rest : List Token) {offset : Nat} (above : token.start < offset) :
    movedTo marked (token :: rest) offset = movedTo marked rest offset + inserted marked token := by
  rw [movedTo, inserted, decide_eq_true above, Bool.and_true]

/-- Tokens are qualified only where the unit uses them. -/
def UsesMarked (marked : Token → Bool) (covered : Nat) (tokens : List Token) : Prop :=
  ∀ token ∈ tokens, marked token = true → token ∈ TypeRef.usesFrom covered tokens

theorem usesFrom_cons (covered : Nat) (token : Token) (rest : List Token) :
    TypeRef.usesFrom covered (token :: rest) =
      if covered = 0 && token.kind = .ident && (rest.head?.map Token.kind) = some (.opener .square) then
        token :: TypeRef.usesFrom (max (covered - 1) (definedBehind token rest)) rest
      else TypeRef.usesFrom (max (covered - 1) (definedBehind token rest)) rest := rfl

/-- Words that are used are words. -/
theorem usesFrom_ident (used : token ∈ TypeRef.usesFrom covered tokens) : token.kind = .ident := by
  induction tokens generalizing covered with
  | nil => cases used
  | cons first rest ih =>
    rw [usesFrom_cons] at used
    split at used
    · rename_i isUse
      simp only [Bool.and_eq_true, decide_eq_true_eq] at isUse
      rcases List.mem_cons.mp used with rfl | used
      · exact isUse.1.2
      · exact ih used
    · exact ih used

theorem definedBehind_ident (kind : token.kind = .ident) (rest : List Token) : definedBehind token rest = 0 := by
  rw [definedBehind, kind]

/-- A token other than the first is used when it is used among the later ones. -/
theorem mem_usesFrom_rest (used : other ∈ TypeRef.usesFrom covered (token :: rest)) (differs : other ≠ token) :
    other ∈ TypeRef.usesFrom (max (covered - 1) (definedBehind token rest)) rest := by
  rw [usesFrom_cons] at used
  split at used
  · exact (List.mem_cons.mp used).resolve_left differs
  · exact used

theorem Qualifiable.text (fit : Qualifiable marked tokens) (member : token ∈ tokens) (mark : marked token = true) :
    unquote (unquote token.lexeme) = unquote token.lexeme := by
  by_cases quoted : Quoted token
  · obtain ⟨c, body, shape, bare, -⟩ := fit.words token member mark quoted
    rw [shape]
    exact unquote_bare fun same => bare (Option.some.inj same)
  · rw [unquote_bare quoted, unquote_bare quoted]

theorem aligned_qualified (ordered : InOrder source low tokens) (fit : Qualifiable marked tokens)
    (uses : UsesMarked marked covered tokens)
    (agrees : ∀ offset, low ≤ offset → place offset = movedTo marked tokens offset + shift) :
    Aligned marked place covered tokens (qualified marked shift tokens) := by
  induction tokens generalizing low shift covered with
  | nil => exact .nil
  | cons token rest ih =>
    obtain ⟨first, stands, later⟩ := id ordered
    have width := start_lt_stop stands
    have behind : ∀ other ∈ rest, token.stop ≤ other.start :=
      fun other member => (ReferencePlacement.inOrder_mem later other member).1
    have start : place token.start = token.start + shift := by
      rw [agrees _ first, movedTo, movedTo_front _ fun other member => Nat.le_trans (Nat.le_of_lt width) (behind other member)]
      simp
    have next : place (token.start + 1) = token.start + 1 + inserted marked token + shift := by
      rw [agrees _ (Nat.le_succ_of_le first), movedTo_first ordered (Nat.lt_succ_self _) width]
    have stop : place token.stop = token.stop + inserted marked token + shift := by
      rw [agrees _ (by omega), movedTo_first ordered width (Nat.le_refl _)]
    have agrees' : ∀ offset, token.stop ≤ offset →
        place offset = movedTo marked rest offset + (shift + inserted marked token) := by
      intro offset bound
      rw [agrees offset (by omega), movedTo_behind _ _ (by omega)]
      omega
    have others : ∀ other ∈ rest, other ≠ token := by
      rintro other member rfl
      have bound := behind other member
      omega
    have uses' : UsesMarked marked (max (covered - 1) (definedBehind token rest)) rest := fun other member mark' =>
      mem_usesFrom_rest (uses other (List.mem_cons_of_mem _ member) mark') (others other member)
    by_cases mark : marked token = true
    · have used := uses token (List.mem_cons_self ..) mark
      have more : inserted marked token = byteLength (unquote token.lexeme) + 1 := if_pos mark
      rw [more] at next stop agrees'
      rw [usesFrom_cons] at used
      split at used
      · rename_i isUse
        simp only [Bool.and_eq_true, decide_eq_true_eq] at isUse
        obtain ⟨⟨rfl, isIdent⟩, bracket⟩ := isUse
        rw [definedBehind_ident isIdent] at uses'
        rw [qualified, if_pos mark]
        have spelled := congrArg String.ofList (Qualifiable.text fit (List.mem_cons_self ..) mark)
        refine .word ⟨isIdent, rfl, spelled, rfl, rfl, ?_, isIdent, rfl, ?_, ?_⟩ bracket mark (ih later fit.tail uses' agrees')
        · rw [Token.stop, show byteLength ['.'] = 1 from rfl]
          dsimp only
          omega
        · rw [next]
          dsimp only
          omega
        · rw [stop, Token.stop, Token.stop]
          dsimp only
          omega
      · have listed := (ReferencePlacement.usesFrom_sublist _ rest).subset used
        exact absurd rfl (others token listed)
    · have none : inserted marked token = 0 := if_neg mark
      rw [none, Nat.add_zero] at next stop agrees'
      rw [qualified, if_neg mark]
      refine .same (Bool.not_eq_true _ ▸ mark) ⟨rfl, rfl, start.symm, ?_, ?_⟩ rfl (ih later fit.tail uses' agrees')
      · rw [next]
        dsimp only
        omega
      · rw [stop, Token.stop, Token.stop]
        dsimp only
        omega

/-- The tokens at the two indexes are the same, and so is what follows them. -/
def SplitAt (marked : Token → Bool) (place : Nat → Nat) (covered : Nat) (tokens others : List Token)
    (index index' : Nat) : Prop :=
  ∃ token other later, tokens[index]? = some token ∧ others[index']? = some other ∧ Moved place token other ∧
    covered ≤ later + (index + 1) ∧
    Aligned marked place later (tokens.drop (index + 1)) (others.drop (index' + 1))

theorem SplitAt.cons {token other : Token} {covered' index index' : Nat}
    (split : SplitAt marked place covered' rest others index index') (bound : covered ≤ covered' + 1) :
    SplitAt marked place covered (token :: rest) (other :: others) (index + 1) (index' + 1) := by
  obtain ⟨found, found', later, here, there, moved, more, aligned⟩ := split
  exact ⟨found, found', later, here, there, moved, by omega, aligned⟩

/-- Brackets are closed at the same token or on neither side. -/
inductive ClosesAlike (marked : Token → Bool) (place : Nat → Nat) (covered : Nat) (tokens others : List Token) :
    Option Nat → Option Nat → Prop where
  | unclosed : ClosesAlike marked place covered tokens others none none
  | closed (split : SplitAt marked place covered tokens others index index') :
      ClosesAlike marked place covered tokens others (some index) (some index')

theorem ClosesAlike.cons {found found' : Option Nat} {covered' : Nat}
    (alike : ClosesAlike marked place covered' rest others found found') (bound : covered ≤ covered' + 1) :
    ClosesAlike marked place covered (token :: rest) (other :: others) (found.map (· + 1)) (found'.map (· + 1)) := by
  cases alike with
  | unclosed => exact .unclosed
  | closed split => exact .closed (split.cons bound)

/-- A token that is no bracket is passed over. -/
def IsPlain (kind : TokenKind) : Prop := (∀ bracket, kind ≠ .opener bracket) ∧ ∀ bracket, kind ≠ .closer bracket

theorem closeAll_plain (plain : IsPlain token.kind) (first : Bracket) (outer : List Bracket) (rest : List Token) :
    closeAll first outer (token :: rest) = (closeAll first outer rest).map (· + 1) := by
  rw [closeAll.eq_def]
  dsimp only
  split
  · exact absurd ‹_› (plain.1 _)
  · exact absurd ‹_› (plain.2 _)
  · rfl

/-- Once a group is closed, the brackets around it are. -/
theorem closeAll_append {first inner : Bracket} {outer within : List Bracket} {index : Nat}
    (closed : closeAll inner within tokens = some index) :
    closeAll inner (within ++ first :: outer) tokens =
      (closeAll first outer (tokens.drop (index + 1))).map (· + (index + 1)) := by
  induction tokens generalizing inner within index with
  | nil => cases closed
  | cons token rest ih =>
    have step : ∀ {inner within}, (closeAll inner within rest).map (· + 1) = some index →
        (closeAll inner (within ++ first :: outer) rest).map (· + 1) =
          (closeAll first outer ((token :: rest).drop (index + 1))).map (· + (index + 1)) := by
      intro inner within closed
      obtain ⟨found, inside, rfl⟩ := Option.map_eq_some_iff.mp closed
      rw [ih inside, Option.map_map, List.drop_succ_cons]
      rfl
    rw [closeAll.eq_def] at closed ⊢
    dsimp only at closed ⊢
    split at closed
    · exact step closed
    · split at closed
      · rename_i same
        rw [if_pos same]
        cases within with
        | nil =>
          cases closed
          rfl
        | cons next others => exact step closed
      · cases closed
    · exact step closed

/-- A group is passed over as a whole. -/
theorem closeAll_group {last : Nat} (closed : groupEnd? tokens = some last) (first : Bracket) (outer : List Bracket) :
    closeAll first outer tokens = (closeAll first outer (tokens.drop (last + 1))).map (· + (last + 1)) := by
  cases tokens with
  | nil => cases closed
  | cons token rest =>
    rw [groupEnd?] at closed
    rw [closeAll.eq_def]
    dsimp only
    split at closed
    · rename_i opened
      obtain ⟨found, inside, rfl⟩ := Option.map_eq_some_iff.mp closed
      have around := @closeAll_append rest first _ outer [] found inside
      rw [List.nil_append] at around
      rw [opened]
      dsimp only
      rw [around, Option.map_map, List.drop_succ_cons]
      rfl
    · cases closed

theorem isPlain_ident : IsPlain .ident := ⟨by simp, by simp⟩

theorem isPlain_dot : IsPlain .dot := ⟨by simp, by simp⟩

theorem closeAll_aligned (aligned : Aligned marked place covered tokens others) (first : Bracket)
    (outer : List Bracket) :
    ClosesAlike marked place covered tokens others (closeAll first outer tokens) (closeAll first outer others) := by
  induction aligned generalizing first outer with
  | nil => exact .unclosed
  | @same token other after covered rest others unmarked moved covers later ih =>
    have bound : covered ≤ after + 1 := by omega
    rw [closeAll.eq_def _ _ (token :: rest), closeAll.eq_def _ _ (other :: others)]
    dsimp only
    rw [moved.kind]
    split
    · exact (ih _ _).cons bound
    · split
      · split
        · exact .closed ⟨token, other, _, rfl, rfl, moved, bound, later⟩
        · exact (ih _ _).cons bound
      · exact .unclosed
    · exact (ih _ _).cons bound
  | @word token qualifier dot other rest others qualifies bracket mark later ih =>
    rw [closeAll_plain (qualifies.ident ▸ isPlain_ident), closeAll_plain (qualifies.name ▸ isPlain_ident),
      closeAll_plain (qualifies.point ▸ isPlain_dot), closeAll_plain (qualifies.kind ▸ isPlain_ident)]
    have inner := ih first outer
    generalize closeAll first outer rest = found at inner
    generalize closeAll first outer others = found' at inner
    cases inner with
    | unclosed => exact .unclosed
    | closed split =>
      obtain ⟨found, found', after, here, there, moved, -, aligned⟩ := split
      exact .closed ⟨found, found', after, here, there, moved, Nat.zero_le _, aligned⟩

/-- The group that a definition covers has no qualified words. -/
theorem closeAll_covered (aligned : Aligned marked place covered tokens others) {first : Bracket}
    {outer : List Bracket} {index : Nat} (closed : closeAll first outer tokens = some index) (bound : index < covered) :
    closeAll first outer others = some index := by
  induction aligned generalizing first outer index with
  | nil => cases closed
  | @same token other after covered rest others unmarked moved covers later ih =>
    rw [closeAll.eq_def] at closed ⊢
    dsimp only at closed ⊢
    rw [moved.kind]
    have inner : ∀ {first outer}, (closeAll first outer rest).map (· + 1) = some index →
        (closeAll first outer others).map (· + 1) = some index := by
      intro first outer closed
      obtain ⟨found, inside, rfl⟩ := Option.map_eq_some_iff.mp closed
      rw [ih inside (by omega), Option.map_some]
    split at closed
    · exact inner closed
    · split at closed
      · rename_i same
        simp only [if_pos same]
        split at closed
        · exact closed
        · exact inner closed
      · cases closed
    · exact inner closed
  | word => cases bound

theorem groupEnd?_aligned (aligned : Aligned marked place covered tokens others) :
    ClosesAlike marked place covered tokens others (groupEnd? tokens) (groupEnd? others) := by
  cases aligned with
  | nil => exact .unclosed
  | @same token other after _ rest others unmarked moved covers later =>
    rw [groupEnd?, groupEnd?, moved.kind]
    split
    · exact (closeAll_aligned later _ _).cons (by omega)
    · exact .unclosed
  | word qualifies =>
    rw [groupEnd?, groupEnd?, qualifies.ident, qualifies.name]
    exact .unclosed

theorem Moved.isName (moved : Moved place token other) : other.isName = token.isName := by
  rw [Token.isName, Token.isName, moved.kind]

theorem Moved.text (moved : Moved place token other) : other.text = token.text := by
  rw [Token.text, Token.text, moved.lexeme]

/-- The next tokens are of the same kind. -/
theorem Aligned.head_kind (aligned : Aligned marked place covered tokens others) :
    others.head?.map Token.kind = tokens.head?.map Token.kind := by
  cases aligned with
  | nil => rfl
  | same _ moved => exact congrArg some moved.kind
  | word qualifies => exact congrArg some (qualifies.name.trans qualifies.ident.symm)

theorem groupEnd?_covered (aligned : Aligned marked place covered tokens others) {last : Nat}
    (closed : groupEnd? tokens = some last) (bound : last < covered) : groupEnd? others = some last := by
  cases aligned with
  | nil => cases closed
  | @same token other after _ rest others unmarked moved covers later =>
    rw [groupEnd?] at closed ⊢
    rw [moved.kind]
    split at closed
    · obtain ⟨found, inside, rfl⟩ := Option.map_eq_some_iff.mp closed
      rw [closeAll_covered later inside (by omega), Option.map_some]
    · cases closed
  | word => cases bound

/-- A definition covers as many tokens as before. -/
theorem definedTokens_aligned (aligned : Aligned marked place covered tokens others) {word : Keyword}
    (bound : TypeRef.definedTokens word tokens ≤ covered) :
    TypeRef.definedTokens word others = TypeRef.definedTokens word tokens := by
  cases aligned with
  | nil => rfl
  | @same token other after _ rest others unmarked moved covers later =>
    have groups := groupEnd?_aligned later
    have heads := later.head_kind
    unfold TypeRef.definedTokens at bound ⊢
    dsimp only at bound ⊢
    rw [moved.isName]
    split
    · rename_i defines
      rw [if_pos defines] at bound
      cases rest with
      | nil =>
        cases later
        rfl
      | cons bracket after =>
        cases others with
        | nil => cases later
        | cons bracket' after' =>
          have kind : bracket'.kind = bracket.kind := Option.some.inj heads
          dsimp only at bound ⊢
          rw [kind]
          split
          · rename_i square
            rw [if_pos square] at bound
            split at bound
            · rename_i last closed
              rw [groupEnd?_covered later closed (by omega)]
            · rename_i unclosed
              rw [unclosed] at groups
              generalize groupEnd? (bracket' :: after') = found at groups
              cases groups
              rfl
          · rfl
    · rfl
  | word qualifies =>
    unfold TypeRef.definedTokens at bound ⊢
    dsimp only at bound ⊢
    rw [Token.isName, Token.isName, qualifies.name, qualifies.ident] at *
    split
    · rename_i defines
      rw [if_pos defines] at bound
      split at bound
      · split at bound
        · split at bound <;> omega
        · omega
      · omega
    · rfl

theorem definedBehind_aligned (aligned : Aligned marked place covered rest others) (kind : other.kind = token.kind)
    (bound : definedBehind token rest ≤ covered) : definedBehind other others = definedBehind token rest := by
  unfold definedBehind at bound ⊢
  rw [kind]
  split
  · rename_i word same
    rw [same] at bound
    exact definedTokens_aligned aligned bound
  · rfl

/-- The token stands right behind its own name and a point. -/
def Qualified (tokens : List Token) (token : Token) : Prop :=
  ∃ front qualifier dot back, tokens = front ++ qualifier :: dot :: token :: back ∧
    qualifier.kind = .ident ∧ qualifier.text = token.text ∧
      dot.kind = .dot ∧ dot.lexeme = ['.'] ∧ dot.stop = token.start

theorem Qualified.cons (qualified : Qualified tokens token) (first : Token) : Qualified (first :: tokens) token := by
  obtain ⟨front, qualifier, dot, back, rfl, shape⟩ := qualified
  exact ⟨first :: front, qualifier, dot, back, rfl, shape⟩

/-- The use of a token among the other tokens: it is the same token, or it is qualified
now because the token is marked. -/
structure MovedUse (marked : Token → Bool) (place : Nat → Nat) (others : List Token) (token use : Token) : Prop where
  text : use.text = token.text
  next : use.start + 1 = place (token.start + 1)
  origin : (marked token = false ∧ Moved place token use) ∨ (marked token = true ∧ Qualified others use)

theorem MovedUse.cons {use : Token} (moved : MovedUse marked place others token use) (first : Token) :
    MovedUse marked place (first :: others) token use :=
  ⟨moved.text, moved.next, moved.origin.imp_right (And.imp_right (·.cons first))⟩

/-- The uses of the two lists are the same ones, in the same order. -/
theorem uses_aligned (aligned : Aligned marked place covered tokens others) :
    List.Forall₂ (MovedUse marked place others) (TypeRef.usesFrom covered tokens) (TypeRef.usesFrom covered others) := by
  induction aligned with
  | nil => exact .nil
  | @same token other after covered rest others unmarked moved covers later ih =>
    have defined : definedBehind other others = definedBehind token rest :=
      definedBehind_aligned later moved.kind (by omega)
    rw [usesFrom_cons, usesFrom_cons, moved.kind, later.head_kind, defined, ← covers]
    have rest' := ih.imp fun _ _ use => use.cons other
    split
    · exact .cons ⟨moved.text, moved.next, .inl ⟨unmarked, moved⟩⟩ rest'
    · exact rest'
  | @word token qualifier dot other rest others qualifies bracket mark later ih =>
    have front : TypeRef.usesFrom 0 (qualifier :: dot :: other :: others) = other :: TypeRef.usesFrom 0 others := by
      rw [usesFrom_cons, definedBehind_ident qualifies.name, usesFrom_cons, usesFrom_cons,
        definedBehind_ident qualifies.kind, qualifies.kind, later.head_kind, bracket]
      simp [qualifies.point, definedBehind]
    have behind : TypeRef.usesFrom 0 (token :: rest) = token :: TypeRef.usesFrom 0 rest := by
      rw [usesFrom_cons, definedBehind_ident qualifies.ident, qualifies.ident, bracket]
      rfl
    have text : other.text = token.text := by rw [Token.text, Token.text, qualifies.lexeme]
    have qualified : Qualified (qualifier :: dot :: other :: others) other :=
      ⟨[], qualifier, dot, others, rfl, qualifies.name, qualifies.spelled.trans text.symm, qualifies.point, qualifies.written,
        qualifies.touches⟩
    rw [front, behind]
    refine .cons ⟨text, qualifies.next, .inr ⟨mark, qualified⟩⟩ ?_
    exact ih.imp fun _ _ use => ((use.cons other).cons dot).cons qualifier

end KindLift.QualifiedTokens
