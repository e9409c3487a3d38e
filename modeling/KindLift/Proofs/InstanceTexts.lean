import KindLift.Proofs.DeclaredSignatures
import KindLift.Proofs.EntryTexts
import KindLift.Proofs.TextFragments

/-! The texts of generated instances. If the names and types of the methods of a service are
read as they are where they are written again, then so are the signatures and the calls that
are made of them, and each instance is an entry of its name. -/
namespace KindLift.InstanceTexts
open KindLift.Template Token Text TokenPlacement TriviaGaps ScanSteps ScannedPieces TokenEdges LegibleTexts TextFragments InsertedTexts EntryTexts GrownObjects
open SignatureReading (behindName)
open DeclaredSignatures (rereads_madeUp nameLists_renders)
open WrittenGroups (endsStatement)
open WrittenTokens (Lexeme)
open QualifiedTokens (IsPlain)
open IndentedTexts (spell Inline)

variable {method : Method} {methods : List Method} {stops : TokenKind → Bool} {service result receiver binding text : String} {list : RenderedList}

/-- What a method is named and what its types are is read as it is where it is written again. -/
structure Reprinted (method : Method) : Prop where
  name : rereads [.ident, .operator] method.name (behindName method) = true
  typeParams : ∀ text ∈ method.typeParamsText, encloses text.toList = true
  applied : ∀ param ∈ method.typeParams, encloses param.name.toList = true
  names : ∀ list ∈ method.params, ∀ param ∈ list.params, param.name ≠ "_" → rereads [.ident] param.name ':' = true
  types : ∀ list ∈ method.params, ∀ param ∈ list.params, encloses param.type.toList = true
  result : encloses (resultArg method).toList = true

instance (method : Method) : Decidable (Reprinted method) :=
  decidable_of_iff (rereads [.ident, .operator] method.name (behindName method) = true ∧
      (∀ text ∈ method.typeParamsText.toList, encloses text.toList = true) ∧ (∀ param ∈ method.typeParams, encloses param.name.toList = true) ∧
      (∀ list ∈ method.params, ∀ param ∈ list.params, param.name ≠ "_" → rereads [.ident] param.name ':' = true) ∧
      (∀ list ∈ method.params, ∀ param ∈ list.params, encloses param.type.toList = true) ∧ encloses (resultArg method).toList = true)
    ⟨fun ⟨name, typeParams, applied, names, types, result⟩ => ⟨name, by simpa using typeParams, applied, names, types, result⟩,
      fun ⟨name, typeParams, applied, names, types, result⟩ => ⟨name, by simpa using typeParams, applied, names, types, result⟩⟩

/-! ### Parameters -/

/-- The names and types of the list are read as they are. -/
structure ReprintedParam (param : RenderedParam) : Prop where
  name : rereads [.ident] param.name ':' = true
  type : encloses param.type.toList = true

theorem reprinted_param (reprinted : Reprinted method) (listed : list ∈ renderedLists method) : ∀ param ∈ list.params, ReprintedParam param := by
  intro param member
  obtain ⟨source, declared, renders⟩ := Traversal.related_right (nameLists_renders 0 method.params) listed
  obtain ⟨param', declared', renders'⟩ := Traversal.related_right renders.params member
  refine ⟨?_, renders'.type ▸ reprinted.types source declared param' declared'⟩
  rcases renders'.name with ⟨named, same⟩ | ⟨-, number, same⟩
  · exact same ▸ reprinted.names source declared param' declared' named
  · exact same ▸ rereads_madeUp number

theorem isName {kinds : List TokenKind} (either : kinds = [.ident] ∨ kinds = [.ident, .operator]) : ∀ kind ∈ kinds, kind = .ident ∨ kind = .operator := by
  rcases either with rfl | rfl <;> simp

/-- What the generated code holds for every service. -/
def stock : List String := [":", "_*", "using", "implicit", "def", ",", "ReaderT", "*", "F", "G", "F[_]", "F[_], G[_]", "mapK", "af:", "fk", "fk: F ~> G", "="]

theorem encloses_stock : ∀ text ∈ stock, encloses text.toList = true := by decide +kernel

theorem sealed_stock (listed : text ∈ stock) : Sealed inner text := sealed_enclosed (encloses_stock text listed)

/-- The name of a parameter in front of its colon. -/
theorem apart_colon {name : String} (again : rereads [.ident] name ':' = true) : Apart inner (name ++ ": ") := by
  have colon : Apart inner (":" ++ " ") := (sealed_stock (by simp [stock])).spaced
  intro tail
  rw [String.toList_append]
  exact Fragment.append (matching_name again (isName (.inl rfl)) (.inl rfl) (.inl rfl) _) (colon tail)

theorem sealed_param {param : RenderedParam} (reprinted : ReprintedParam param) : Sealed inner (param.name ++ ": " ++ param.type) :=
  (apart_colon reprinted.name).then (sealed_enclosed reprinted.type)

/-- A parameter as it is passed on. -/
theorem sealed_passed {param : RenderedParam} (reprinted : ReprintedParam param) :
    Sealed inner (if param.isRepeated then param.name ++ ": _*" else param.name) := by
  split
  · have shape : param.name ++ ": _*" = param.name ++ ": " ++ "_*" := by simp [String.append_assoc]
    rw [shape]
    exact (apart_colon reprinted.name).then (sealed_stock (by simp [stock]))
  · exact fun e z breaks => matching_name reprinted.name (isName (.inl rfl)) (.inl rfl) (.inr breaks) z

/-- A parameter list with a mark in front. -/
theorem apart_list {mark : String} {items : List String} (marks : Apart inner mark) (each : ∀ item ∈ items, Sealed inner item) :
    Apart inner ("(" ++ mark ++ String.intercalate ", " items ++ ")") := by
  have shape : "(" ++ mark ++ String.intercalate ", " items ++ ")" = "(" ++ (mark ++ String.intercalate ", " items) ++ ")" := by
    simp [String.append_assoc]
  rw [shape]
  exact apart_paren rfl (marks.then (sealed_commas each))

theorem apart_using : Apart inner ("using" ++ " ") := (sealed_stock (by simp [stock])).spaced

theorem apart_declareList (reprinted : ∀ param ∈ list.params, ReprintedParam param) : Apart inner (declareList list) := by
  refine apart_list ?_ fun item member => ?_
  · split
    · exact apart_using
    split
    · exact (sealed_stock (by simp [stock]) : Sealed inner "implicit").spaced
    · exact apart_empty
  · obtain ⟨param, listed, rfl⟩ := List.mem_map.mp member
    exact sealed_param (reprinted param listed)

theorem apart_passList (reprinted : ∀ param ∈ list.params, ReprintedParam param) : Apart inner (passList list) := by
  refine apart_list ?_ fun item member => ?_
  · split
    · exact apart_using
    · exact apart_empty
  · obtain ⟨param, listed, rfl⟩ := List.mem_map.mp member
    exact sealed_passed (reprinted param listed)

/-! ### Signatures and calls -/

/-- The type parameters of a method as they are declared. -/
def typesText (method : Method) : String :=
  match method.typeParamsText with
  | some text => "[" ++ text ++ "]"
  | none => ""

/-- The type parameters of a method as they are passed on. -/
def appliedText (method : Method) : String :=
  if method.typeParams.isEmpty then "" else "[" ++ String.intercalate ", " (method.typeParams.map TypeParam.name) ++ "]"

theorem apart_types (reprinted : Reprinted method) : Apart inner (typesText method) := by
  unfold typesText
  split
  · exact apart_square rfl (sealed_enclosed (reprinted.typeParams _ (by assumption)))
  · exact apart_empty

theorem apart_applied (reprinted : Reprinted method) : Apart inner (appliedText method) := by
  unfold appliedText
  split
  · exact apart_empty
  · refine apart_square rfl (sealed_commas fun item member => ?_)
    obtain ⟨param, listed, rfl⟩ := List.mem_map.mp member
    exact sealed_enclosed (reprinted.applied param listed)

theorem apart_lists {print : RenderedList → String} (each : ∀ list ∈ renderedLists method, Apart inner (print list)) :
    Apart inner (String.join ((renderedLists method).map print)) := by
  refine apart_join fun item member => ?_
  obtain ⟨list, listed, rfl⟩ := List.mem_map.mp member
  exact each list listed

/-- What is printed behind the name of a method. -/
theorem head_behind (method : Method) : (typesText method ++ (String.join ((renderedLists method).map declareList) ++ ": ")).toList.head? =
    some (behindName method) := by
  unfold typesText behindName
  cases method.typeParamsText with
  | some text => simp
  | none =>
    cases shape : method.params with
    | nil => simp [renderedLists, shape, nameLists]
    | cons list lists => simp [renderedLists, shape, nameLists, declareList]

theorem isMark_behindName (method : Method) : IsMark (behindName method) := by
  unfold behindName IsMark
  split
  · simp
  split <;> simp

/-- The signature of a method over a type that is read as it is. -/
theorem sealed_signature (reprinted : Reprinted method) (reads : Sealed inner result) :
    Sealed inner (signature method (renderedLists method) result) := by
  have shape : signature method (renderedLists method) result =
      "def" ++ " " ++ (method.name ++ (typesText method ++ (String.join ((renderedLists method).map declareList) ++ ": "))) ++ result := by
    simp only [signature, typesText, String.append_assoc]
    rfl
  have colon : Apart inner (":" ++ " ") := (sealed_stock (by simp [stock])).spaced
  have lists := apart_lists fun list listed => apart_declareList (reprinted_param reprinted listed)
  have behind : Apart inner (typesText method ++ (String.join ((renderedLists method).map declareList) ++ ": ")) :=
    (apart_types reprinted).append (lists.append colon)
  have named : Apart inner (method.name ++ (typesText method ++ (String.join ((renderedLists method).map declareList) ++ ": "))) := by
    intro tail
    obtain ⟨z, head⟩ := List.head?_eq_some_iff.mp (head_behind method)
    have front := matching_name reprinted.name (isName (.inr rfl)) (isMark_behindName method) (.inl rfl) (z ++ tail)
    rw [← List.cons_append, ← head] at front
    rw [String.toList_append]
    exact Fragment.append front (behind tail)
  rw [shape]
  exact ((sealed_stock (by simp [stock])).spaced.append named).then reads

/-- The call of a method. -/
theorem sealed_call (reprinted : Reprinted method) (reads : ∀ tail, Fragment inner receiver.toList ('.' :: tail)) :
    Sealed inner (call receiver method (renderedLists method)) := by
  have shape : call receiver method (renderedLists method) =
      receiver ++ ("." ++ (method.name ++ (appliedText method ++ String.join ((renderedLists method).map passList)))) := by
    simp only [call, appliedText, String.append_assoc]
  have behind : Apart inner (appliedText method ++ String.join ((renderedLists method).map passList)) :=
    (apart_applied reprinted).append (apart_lists fun list listed => apart_passList (reprinted_param reprinted listed))
  have starts : appliedText method ++ String.join ((renderedLists method).map passList) = "" ∨
      Starts (appliedText method ++ String.join ((renderedLists method).map passList)) := by
    unfold appliedText
    split
    · cases renderedLists method with
      | nil => exact .inl rfl
      | cons list lists =>
        rw [String.empty_append, List.map_cons, String.join_cons, passList]
        simp only [String.append_assoc]
        exact .inr (starts_paren _)
    · simp only [String.append_assoc]
      exact .inr (starts_square _)
  have name : Sealed inner method.name := fun e z breaks =>
    matching_name reprinted.name (isName (.inr rfl)) (isMark_behindName method) (.inr breaks) z
  have named : Sealed inner (method.name ++ (appliedText method ++ String.join ((renderedLists method).map passList))) := by
    rcases starts with empty | starts
    · rw [empty, String.append_empty]
      exact name
    · exact name.then starts behind.sealed
  intro e z breaks
  obtain ⟨c, body, head, digit⟩ := name_head reprinted.name (isName (.inr rfl)) (isMark_behindName method)
  rw [shape, String.toList_append, String.toList_append]
  refine (reads _).append ((fragment_point ?_ rfl).append (named e z breaks))
  rw [String.toList_append, head]
  rintro _ ⟨⟩
  exact digit

/-! ### Instances -/

/-- A written token with a blank behind it. -/
theorem apart_lexeme (lexeme : Lexeme) (same : text.toList = lexeme.chars) (single : IsPlain lexeme.kind) (goes : stops lexeme.kind = false)
    (inline : '\n' ∉ text.toList) : Apart stops (text ++ " ") := by
  intro tail
  have reads : Reads text.toList [(lexeme.kind, text.toList)] (' ' :: tail) := by
    rw [same]
    exact reads_single (single_lexeme lexeme) (begins_cons ' ' tail)
  rw [String.toList_append]
  exact (fragment_single reads single goes inline).append (apart_blank tail)

/-- An implicit definition is an entry of its name. -/
theorem renders_definition {word : Keyword} {mark : Char} (known : word = .defKw ∨ word = .valKw)
    (again : rereads [.ident] binding mark = true) (isMark : IsMark mark) (head : text.toList.head? = some mark) (apart : Apart endsStatement text) :
    Renders [binding] ["implicit " ++ word.spelling ++ " " ++ binding ++ text] := by
  obtain ⟨words, reads, flows, inline⟩ := apart []
  obtain ⟨kind, listed, single, bare, c, body, next, shape, first⟩ := name_read again isMark
  obtain rfl := List.mem_singleton.mp listed
  obtain ⟨tail, begins⟩ := List.head?_eq_some_iff.mp head
  have spelled : ("implicit " ++ word.spelling ++ " " ++ binding ++ text).toList =
      "implicit".toList ++ ([' '] ++ (word.spelling.toList ++ ([' '] ++ (binding.toList ++ text.toList)))) := by simp
  have named : Reads binding.toList [(.ident, binding.toList)] (text.toList ++ []) := reads_single single (by rw [begins]; exact begins_cons mark _)
  have all : Reads ("implicit " ++ word.spelling ++ " " ++ binding ++ text).toList
      ((.keyword .implicitKw, "implicit".toList) :: (.keyword word, word.spelling.toList) :: (.ident, binding.toList) :: words) [] := by
    rw [spelled]
    refine Reads.cons (reads_keyword .implicitKw _) ?_
    refine Reads.skips (reads_blank (by decide) _) ?_
    refine Reads.cons (reads_keyword word _) ?_
    exact Reads.skips (reads_blank (by decide) _) (Reads.cons named reads)
  have nothing : skipTrivia .blank [] = .ok [] := rfl
  obtain ⟨tokens, same, scanned⟩ := all.scanned (scanFrom_nil _ nothing)
  rw [List.append_nil, List.append_nil] at scanned
  obtain ⟨marked, behind, rfl, alike, rest⟩ := List.map_eq_cons_iff.mp same
  obtain ⟨definition, behind', rfl, alike', rest'⟩ := List.map_eq_cons_iff.mp rest
  obtain ⟨name, others, rfl, alike'', rest''⟩ := List.map_eq_cons_iff.mp rest'
  have entry := entries_definition (congrArg Prod.fst alike) (congrArg Prod.fst alike') known (congrArg Prod.fst alike'') (flows others rest'')
  have sameName : name.text = binding := by
    rw [Token.text, show name.lexeme = binding.toList from congrArg Prod.snd alike'', bare]
  refine renders_single (scan_eq_ok_iff.mpr scanned) ?_ (sameName ▸ entry)
  rw [same]
  have keyword (word : Keyword) : '\n' ∉ word.spelling.toList := by cases word <;> decide
  intro piece member
  rcases member with _ | ⟨_, _ | ⟨_, _ | ⟨_, member⟩⟩⟩
  · exact keyword .implicitKw
  · exact keyword word
  · exact shape ▸ name_inline first (.inl rfl)
  · exact inline piece member

/-- A type applied to what is read as it is. -/
theorem apart_application {head argument : String} (goes : stops (.opener .square) = false) (closed : Sealed stops head)
    (reads : Sealed inner argument) : Apart stops (head ++ ("[" ++ argument ++ "]")) :=
  closed.append (starts_append (starts_square _) _) (apart_square goes reads)

theorem sealed_name (named : Named service) (goes : stops .ident = false) : Sealed stops service := sealed_word named.word goes

/-- The reader of a service with the given result. -/
def readerType (service result : String) : String := "ReaderT" ++ "[" ++ "F" ++ ", " ++ service ++ "[" ++ "F" ++ "], " ++ result ++ "]"

theorem apart_comma : Apart inner ", " := (sealed_stock (by simp [stock]) : Sealed inner ",").spaced

theorem apart_readerType (named : Named service) (reads : Sealed inner result) : Apart inner (readerType service result) := by
  have shape : readerType service result =
      "ReaderT" ++ ("[" ++ ("F" ++ ", " ++ (service ++ ("[" ++ "F" ++ "]")) ++ ", " ++ result) ++ "]") := by
    unfold readerType
    simp only [← String.toList_inj, String.toList_append, List.append_assoc]
    rfl
  rw [shape]
  refine apart_application rfl (sealed_stock (by simp [stock])) ?_
  have effect : Sealed inner "F" := sealed_stock (by simp [stock])
  have front : Apart inner ("F" ++ ", ") := effect.append ⟨',', [' '], rfl, by decide⟩ apart_comma
  exact ((front.append (apart_application rfl (sealed_name named rfl) effect)).append apart_comma).then reads

/-- An instance that is made over a type by the statements of its body. -/
def made (type body : String) : String :=
  ": " ++ type ++ " = " ++ "new " ++ type ++ " " ++ ("\x7b" ++ ("\n" ++ body) ++ "\x7d")

theorem apart_lineFeed : Apart stops "\n" := apart_space fun _ member => (List.mem_singleton.mp member) ▸ rfl

theorem apart_made {type body : String} (goes : ∀ kind ∈ [.colon, .equals, .keyword .newKw, .opener .brace], stops kind = false)
    (typed : Apart stops type) (statements : Apart inner body) : Apart stops (made type body) := by
  have colon : Apart stops (":" ++ " ") := apart_lexeme .colon rfl ⟨by simp, by simp⟩ (goes _ (by simp)) (by decide)
  have equals : Apart stops ("=" ++ " ") := apart_lexeme .equals rfl ⟨by simp, by simp⟩ (goes _ (by simp)) (by decide)
  have new : Apart stops ("new" ++ " ") := apart_lexeme (.keyword .newKw) rfl ⟨by simp, by simp⟩ (goes _ (by simp)) (by decide)
  have block := apart_brace (goes (.opener .brace) (by simp)) (apart_lineFeed.append statements)
  exact (((((colon.append typed).append (apart_blank.append equals)).append new).append typed).append apart_blank).append block

/-- The value that is left open, in front of its method. -/
theorem fragment_open (tail : List Char) : Fragment inner "_".toList ('.' :: tail) := by
  have read (glued : Bool) : readToken glued '_' ('.' :: tail) = .ok (.underscore, '.' :: tail) :=
    WrittenTokens.readToken_wildcard (fun e first => by cases first; decide) glued
  refine fragment_single (fun offset => ⟨[⟨.underscore, offset, ['_']⟩], rfl, ?_⟩) ⟨by simp, by simp⟩ rfl (by decide)
  have skipped : skipTrivia .blank ([] ++ '_' :: ([] ++ '.' :: tail)) = .ok ('_' :: ([] ++ '.' :: tail)) :=
    skipTrivia_done (by decide) (fun same => absurd same (by decide)) fun same => absurd same (by decide)
  exact scanFrom_cons offset [] [] skipped (read _)

theorem isToken_words : ∀ word ∈ ["af", "FunctorK"], ImportLines.IsToken .ident word := by decide +kernel

/-- The service, in front of its method. -/
theorem fragment_service (tail : List Char) : Fragment inner "af".toList ('.' :: tail) := by
  have word := isToken_words "af" (by simp)
  exact fragment_single (reads_word word '.' ⟨rfl, rfl⟩ (by decide) rfl) ⟨by simp, by simp⟩ rfl (by decide)

theorem apart_indent : Apart inner "  " := apart_blank.append apart_blank

/-- A method of an instance, on a line of its own. -/
theorem apart_method {indent value : String} (blanks : Apart inner indent) (declared : Sealed inner text) (valued : Sealed inner value)
    (called : Sealed inner result) : Apart inner (indent ++ text ++ " = " ++ value ++ "(" ++ result ++ ")\n") := by
  have shape : indent ++ text ++ " = " ++ value ++ "(" ++ result ++ ")\n" =
      indent ++ text ++ " " ++ ("=" ++ " ") ++ value ++ ("(" ++ result ++ ")") ++ "\n" := by
    simp only [← String.toList_inj, String.toList_append, List.append_assoc]
    rfl
  have equals : Apart inner ("=" ++ " ") := (sealed_stock (by simp [stock])).spaced
  rw [shape]
  have front := ((blanks.then declared).spaced.append equals).then valued
  exact (front.append (starts_append (starts_paren _) _) (apart_paren rfl called)).append apart_lineFeed

/-- The method of the instance that reads the service from its environment. -/
theorem apart_readerMethod (named : Named service) (reprinted : Reprinted method) :
    Apart inner ("  " ++ signature method (renderedLists method) (readerType service (resultArg method)) ++ " = " ++ "ReaderT" ++ "(" ++
      call "_" method (renderedLists method) ++ ")\n") :=
  apart_method apart_indent (sealed_signature reprinted (apart_readerType named (sealed_enclosed reprinted.result)).sealed)
    (sealed_stock (by simp [stock])) (sealed_call reprinted fragment_open)

/-- The method of the mapped service. -/
theorem apart_mappedMethod (reprinted : Reprinted method) : Apart inner (MappedMethod.render
    ⟨method, renderedLists method, "G" ++ "[" ++ resultArg method ++ "]", "fk", "af"⟩) := by
  have mapped : Apart inner ("G" ++ "[" ++ resultArg method ++ "]") := by
    simp only [String.append_assoc]
    exact apart_application rfl (sealed_stock (by simp [stock])) (sealed_enclosed reprinted.result)
  have transformation : Sealed inner "fk" := sealed_stock (by simp [stock])
  exact apart_method (apart_indent.append apart_indent) (sealed_signature reprinted mapped.sealed) transformation
    (sealed_call reprinted fragment_service)

theorem apart_methods {print : Method → String} (each : ∀ method ∈ methods, Apart inner (print method)) :
    Apart inner (String.join (methods.map print)) := by
  refine apart_join fun item member => ?_
  obtain ⟨method, listed, rfl⟩ := List.mem_map.mp member
  exact each method listed

theorem renders_readerT (named : Named service) (reprinted : ∀ method ∈ methods, Reprinted method) :
    Renders [readerTBinding service] [readerT service methods .default] := by
  let type := service ++ ("[" ++ readerType service "*" ++ "]")
  let body := String.join (methods.map fun method => "  " ++ signature method (renderedLists method) (readerType service (resultArg method)) ++
    " = " ++ "ReaderT" ++ "(" ++ call "_" method (renderedLists method) ++ ")\n")
  have shape : readerT service methods .default =
      "implicit " ++ Keyword.defKw.spelling ++ " " ++ readerTBinding service ++ ("[" ++ "F[_]" ++ "]" ++ made type body) := by
    have applied : type = service ++ "[" ++ readerType service "*" ++ "]" := by simp [type, String.append_assoc]
    have written : readerT service methods .default = "implicit def " ++ readerTBinding service ++ "[" ++ "F" ++ "[_]]: " ++
        (service ++ "[" ++ readerType service "*" ++ "]") ++ " = new " ++ (service ++ "[" ++ readerType service "*" ++ "]") ++ " \x7b\n" ++ body ++ "\x7d" := rfl
    rw [written, ← applied, ← String.toList_inj]
    generalize type = type, body = body
    unfold made
    simp only [String.toList_append, List.append_assoc]
    rfl
  have statements : Apart inner body := apart_methods fun method listed => apart_readerMethod named (reprinted method listed)
  have typed : Apart endsStatement type := apart_application rfl (sealed_name named rfl)
    (apart_readerType named (sealed_stock (by simp [stock]))).sealed
  have effect : Apart endsStatement ("[" ++ "F[_]" ++ "]") := apart_square rfl (sealed_stock (by simp [stock]))
  rw [shape]
  exact renders_definition (.inl rfl) named.readerT (.inr (.inl rfl)) (by simp) (effect.append (apart_made (by decide) typed statements))

theorem apart_mapping (named : Named service) (reprinted : ∀ method ∈ methods, Reprinted method) :
    Apart inner ((mapping methods .default).render service .default) := by
  let target := service ++ ("[" ++ "G" ++ "]")
  let body := String.join ((mapping methods .default).methods.map MappedMethod.render)
  have shape : (mapping methods .default).render service .default = "  " ++ ("def" ++ " ") ++ "mapK" ++ ("[" ++ "F[_], G[_]" ++ "]") ++
      ("(" ++ ("af:" ++ " " ++ (service ++ ("[" ++ "F" ++ "]"))) ++ ")") ++ ("(" ++ "fk: F ~> G" ++ ")") ++ made target (body ++ "  ") ++ "\n" := by
    have applied : target = service ++ "[" ++ "G" ++ "]" := by simp [target, String.append_assoc]
    have written : (mapping methods .default).render service .default = "  def mapK[" ++ "F" ++ "[_], " ++ "G" ++ "[_]](" ++ "af" ++ ": " ++
        service ++ "[" ++ "F" ++ "])(" ++ "fk" ++ ": " ++ "F" ++ " " ++ "~>" ++ " " ++ "G" ++ "): " ++ (service ++ "[" ++ "G" ++ "]") ++ " = new " ++
        (service ++ "[" ++ "G" ++ "]") ++ " \x7b\n" ++ body ++ "  \x7d\n" := rfl
    rw [written, ← applied, ← String.toList_inj]
    generalize target = target, body = body
    unfold made
    simp only [String.toList_append, List.append_assoc]
    rfl
  have statements : Apart inner (body ++ "  ") := by
    refine Apart.append ?_ apart_indent
    have printed : body = String.join (methods.map fun method => MappedMethod.render
        ⟨method, renderedLists method, "G" ++ "[" ++ resultArg method ++ "]", "fk", "af"⟩) := congrArg String.join List.map_map
    rw [printed]
    exact apart_methods fun method listed => apart_mappedMethod (reprinted method listed)
  have single {name : String} (listed : name ∈ stock) : Apart inner (service ++ ("[" ++ name ++ "]")) :=
    apart_application rfl (sealed_name named rfl) (sealed_stock listed)
  have keyword : Apart inner ("def" ++ " ") := (sealed_stock (by simp [stock])).spaced
  have front : Sealed inner ("  " ++ ("def" ++ " ") ++ "mapK") := (apart_indent.append keyword).then (sealed_stock (by simp [stock]))
  have effects : Apart inner ("[" ++ "F[_], G[_]" ++ "]") := apart_square rfl (sealed_stock (by simp [stock]))
  have receiver : Apart inner ("af:" ++ " " ++ (service ++ ("[" ++ "F" ++ "]"))) :=
    (sealed_stock (by simp [stock])).spaced.append (single (by simp [stock]))
  have arrow : Apart inner ("(" ++ "fk: F ~> G" ++ ")") := apart_paren rfl (sealed_stock (by simp [stock]))
  have declared := ((front.append (starts_append (starts_square _) _) effects).append (apart_paren rfl receiver.sealed)).append arrow
  rw [shape]
  exact (declared.append (apart_made (by decide) (single (by simp [stock])) statements)).append apart_lineFeed

theorem renders_functorK (named : Named service) (reprinted : ∀ method ∈ methods, Reprinted method) :
    Renders [functorKBinding service] [functorK service methods .default] := by
  let type := "FunctorK" ++ ("[" ++ service ++ "]")
  have shape : functorK service methods .default = "implicit " ++ Keyword.valKw.spelling ++ " " ++ functorKBinding service ++
      made type ((mapping methods .default).render service .default) := by
    have applied : type = "FunctorK" ++ "[" ++ service ++ "]" := by
      simp only [type, ← String.toList_inj, String.toList_append, List.append_assoc]
    have written : functorK service methods .default = "implicit val " ++ functorKBinding service ++ ": " ++ ("FunctorK" ++ "[" ++ service ++ "]") ++
        " = new " ++ ("FunctorK" ++ "[" ++ service ++ "]") ++ " \x7b\n" ++ (mapping methods .default).render service .default ++ "\x7d" := rfl
    rw [written, ← applied, ← String.toList_inj]
    generalize type = type, (mapping methods .default).render service .default = body
    unfold made
    simp only [String.toList_append, List.append_assoc]
    rfl
  have word := isToken_words "FunctorK" (by simp)
  have typed : Apart endsStatement type := apart_application rfl (sealed_word word rfl) (sealed_name named rfl)
  rw [shape]
  exact renders_definition (.inr rfl) named.functorK (.inl rfl) (by simp [made]) (apart_made (by decide) typed (apart_mapping named reprinted))

end KindLift.InstanceTexts
