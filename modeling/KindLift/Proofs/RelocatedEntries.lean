import KindLift.Proofs.EntryTexts
import KindLift.Proofs.PlannedWork
import KindLift.Proofs.RelocatedTokens
import KindLift.Proofs.TextFragments

/-! Legacy services as entries of their objects. The text that is generated for such a service
is read as a trait in any object, which has a member of the name of the service. -/
namespace KindLift.RelocatedEntries
open KindLift.Parser AddInstances Token Text ParserLogic TokenReaders ScanSteps TokenCopies SeamBodies GrownObjects InsertedTexts EntryTexts NestedTraits RelocatedTokens
open CoveredSpans (Reread)
open ImportLines (IsToken)
open IndentedTexts (spell Inline)

variable {source : List Char} {trait : Interface} {outline : Outline}

/-- A trait is a statement of the body of an object. -/
theorem memberStatement_trait {keyword : Token} {rest more : List Token} {nested : Interface} {stop stop' : Nat} (kind : keyword.kind = .keyword .traitKw)
    (read : interface source ⟨keyword :: rest, stop⟩ = .ok (nested, ⟨more, stop'⟩)) :
    ∃ members, memberStatement ⟨[], []⟩ source ⟨keyword :: rest, stop⟩ = .ok (members, ⟨more, stop'⟩) ∧ memberNames members = [nested.name] := by
  obtain ⟨start, here⟩ := memberStatement_at ⟨[], []⟩ source ⟨keyword :: rest, stop⟩
  have bare : modifiers source ⟨keyword :: rest, stop⟩ = .ok (⟨false, false⟩, ⟨keyword :: rest, stop⟩) :=
    @WrittenTraits.reads_modifiers_bare source stop rest keyword (by rw [kind]; rfl) ⟨false, false⟩
  have peeked : peekKind? source ⟨keyword :: rest, stop⟩ = .ok (some (.keyword .traitKw), ⟨keyword :: rest, stop⟩) := by
    rw [← kind]
    rfl
  refine ⟨⟨[⟨nested.name, .interface, false, ⟨start, stop'⟩⟩], [nested]⟩, ?_, rfl⟩
  rw [here, holderStatement, bind_ok bare, bind_ok peeked]
  exact (bind_ok read).trans rfl

/-! ### Names -/

/-- A word is read again in front of whatever it does not go on with. -/
theorem word_reread {name : String} (word : IsToken .ident name) : Reread 0 name.toList [⟨.ident, 0, name.toList⟩] := by
  intro e z stops offset
  obtain ⟨c, body, text, skipped, read⟩ := word.shape
  have ahead : skipTrivia .blank ([] ++ c :: (body ++ e :: z)) = .ok (c :: (body ++ e :: z)) := by
    refine skipTrivia_ahead skipped fun d first => ?_
    cases body with
    | nil =>
      cases first
      exact .inr ⟨by rintro rfl; exact absurd stops.2 (by decide), by rintro rfl; exact absurd stops.2 (by decide)⟩
    | cons => exact .inl first
  have scanned := @scanFrom_cons _ _ _ false offset [] body ahead (readToken_stop read (.inl rfl) stops z)
  rw [text]
  refine ⟨[⟨.ident, offset, c :: body⟩], true, .cons ⟨rfl, rfl, List.cons_ne_nil _ _, 0, rfl, rfl, ?_⟩ .nil, scanned⟩
  rw [Nat.zero_add]

/-- A plain word is printed as it is. -/
theorem prints_word (named : Named trait.name) : Prints trait ⟨.ident, 0, trait.name.toList⟩ :=
  ⟨rfl, named.text, rfl, word_reread named.word⟩

theorem word_inline {name : String} (word : IsToken .ident name) : '\n' ∉ name.toList := by
  obtain ⟨c, body, text, -, read⟩ := word.shape
  rw [text]
  exact TextFragments.name_inline read (.inl rfl)

/-! ### Services -/

/-- A legacy service is an entry of its name, if that is a plain word and no token goes over the
end of a line. -/
theorem renders_relocated (parsed : Outline.parse source = .ok outline) (listed : Decl.interface trait ∈ outline.decls)
    (legacy : trait.isLegacyService .default = true) (named : Named trait.name)
    (inline : ∀ all, Token.scan source = .ok all → Inline (relocated all trait)) :
    ∃ text, Template.nestedInterface? source trait .default = some text ∧ Renders [trait.name] [text] := by
  have prints : ∃ printed, Prints trait printed := ⟨_, prints_word named⟩
  obtain ⟨text, keyword, rest, rendered, scanned, kind, reads⟩ := nested_legacy_read parsed listed legacy (.inr prints)
  obtain ⟨all, _, tokens, printed, scanned', rendered', rescanned, prints, spelled, name, same, -⟩ := legacy_printed parsed listed legacy (.inr prints)
  cases rendered.symm.trans rendered'
  cases scanned.symm.trans rescanned
  have lines : Inline ((keyword :: rest).map spell) := by
    have inline := inline all scanned'
    rw [same, relocatedAs, Inline, List.forall_mem_cons, List.forall_mem_cons] at inline
    rw [spelled, relocatedAs, Inline, List.forall_mem_cons, List.forall_mem_cons]
    refine ⟨inline.1, ?_, inline.2.2⟩
    rw [spell, prints.lexeme]
    exact word_inline named.word
  refine ⟨text, rendered, renders_single scanned lines (entries_single text.toList (.inr kind) fun stop => ?_)⟩
  obtain ⟨nested, stop', read, lifts⟩ := reads [lastBrace] stop
  obtain ⟨members, read, named⟩ := memberStatement_trait kind read
  exact ⟨members, stop', read, by rw [named, lifts.name]⟩

end KindLift.RelocatedEntries
