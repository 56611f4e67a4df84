import SpeculativeAction.StreamPreview.Model

/-! No call is previewed before its arguments are complete. The scan comes back to the depth
where it started only at the last character of an object, so whatever the deltas are, the input
is ready exactly when the whole object is there.
-/

namespace SpeculativeAction.StreamPreview

open SpeculativeAction.Library SpeculativeAction.Library.Data

-- Scanning code units

section Units

variable {state : StreamedCall}

/-- The scan of one code unit. -/
def StreamedCall.scanUnit (state : StreamedCall) (other : CodeUnit) : StreamedCall :=
  state.scanCharacter [other]

def StreamedCall.scanUnits (state : StreamedCall) (text : JsString) : StreamedCall :=
  text.foldl scanUnit state

theorem scanUnits_append (state : StreamedCall) (left right : JsString)
    : state.scanUnits (left ++ right) = (state.scanUnits left).scanUnits right :=
  List.foldl_append

/-- A character that means nothing ends an escape and else changes nothing. -/
theorem scanCharacter_plain {character : JsString}
    (plain : ∀ mark ∈ units "\\\"\x7b[\x7d]", character ≠ [mark])
    : state.scanCharacter character = { state with escaped := false } := by
  have notEscape : ¬ (character = units "\\" ∧ state.quoted = true) := fun both =>
    plain (unit '\\') (by decide) both.1
  have notQuote : character ≠ units "\"" := plain (unit '"') (by decide)
  have notObject : character ≠ units "\x7b" := plain (unit '\x7b') (by decide)
  have notArray : character ≠ units "[" := plain (unit '[') (by decide)
  have notObjectEnd : character ≠ units "\x7d" := plain (unit '\x7d') (by decide)
  have notArrayEnd : character ≠ units "]" := plain (unit ']') (by decide)
  by_cases escaped : state.escaped = true
  · rw [StreamedCall.scanCharacter, if_pos escaped]
  · have same : { state with escaped := false } = state := by
      rw [Bool.not_eq_true] at escaped
      rw [← escaped]
    rw [StreamedCall.scanCharacter, if_neg escaped, if_neg notEscape, if_neg notQuote,
      if_neg (not_or.mpr ⟨notObject, notArray⟩), if_neg (not_or.mpr ⟨notObjectEnd, notArrayEnd⟩),
      ite_self, same]

theorem scanUnit_surrogate {other : CodeUnit} (surrogate : 55296 ≤ other.val)
    : state.scanUnit other = { state with escaped := false } := by
  refine scanCharacter_plain fun mark member same => ?_
  have small : (units "\\\"\x7b[\x7d]").all (fun mark => decide (mark.val < 55296)) = true := by
    decide
  have low := of_decide_eq_true (List.all_eq_true.mp small mark member)
  rw [← (List.cons.inj same).1] at low
  omega

/-- The halves of a pair are scanned as the pair is. -/
theorem scanCharacter_pair {lead trail : CodeUnit} (isLead : isLeadSurrogate lead = true)
    (isTrail : isTrailSurrogate trail = true)
    : state.scanCharacter [lead, trail] = (state.scanUnit lead).scanUnit trail := by
  have high : 55296 ≤ lead.val := (of_decide_eq_true isLead).1
  have higher : 55296 ≤ trail.val := Nat.le_trans (by decide) (of_decide_eq_true isTrail).1
  rw [scanUnit_surrogate high, scanUnit_surrogate higher]
  exact scanCharacter_plain fun mark _ same => by cases same

/-- Characters are scanned as their code units are, so a delta may end within a pair. -/
theorem scan_eq_scanUnits (state : StreamedCall) (delta : JsString)
    : state.scan delta = state.scanUnits delta := by
  rw [StreamedCall.scan]
  induction delta using characters.induct generalizing state with
  | case1 => rfl
  | case2 last => rfl
  | case3 lead trail rest pair ih =>
      obtain ⟨isLead, isTrail⟩ := (Bool.and_eq_true _ _).mp pair
      rw [characters, if_pos pair, List.foldl_cons, ih, scanCharacter_pair isLead isTrail]
      rfl
  | case4 lead trail rest apart ih =>
      rw [characters, if_neg apart, List.foldl_cons, ih]
      rfl

/-- A scan never takes back that the input is ready. -/
theorem ready_scanUnits (ready : state.ready = true) (text : JsString)
    : (state.scanUnits text).ready = true := by
  induction text generalizing state with
  | nil => exact ready
  | cons first rest ih =>
      refine ih ?_
      rw [StreamedCall.scanUnit, StreamedCall.scanCharacter]
      split_ifs <;> simp [ready]

end Units

-- Scanning a text

section Texts

variable {state : StreamedCall} {text : JsString} {opening : CodeUnit}

/-- Neither within a literal nor behind an escape. -/
structure Outside (state : StreamedCall) : Prop where
  quoted : state.quoted = false
  escaped : state.escaped = false

/-- The scan of a code unit outside of literals. -/
theorem Outside.scanUnit (outside : Outside state) (other : CodeUnit)
    : state.scanUnit other
      = if other = unit '"' then { state with quoted := true }
        else if other = unit '\x7b' ∨ other = unit '[' then { state with depth := state.depth + 1 }
        else if other = unit '\x7d' ∨ other = unit ']' then
          { state with
            depth := state.depth - 1
            ready := decide (state.depth - 1 = 0) || state.ready }
        else state := by
  have single (mark : CodeUnit) : [other] = [mark] ↔ other = mark :=
    ⟨fun same => (List.cons.inj same).1, fun same => congrArg (fun one => [one]) same⟩
  have marks : units "\"" = [unit '"'] ∧ units "\x7b" = [unit '\x7b'] ∧ units "[" = [unit '[']
      ∧ units "\x7d" = [unit '\x7d'] ∧ units "]" = [unit ']'] := by
    decide
  have notEscaping : ¬ ([other] = units "\\" ∧ state.quoted = true) := fun both => by
    rw [outside.quoted] at both
    cases both.2
  obtain ⟨quote, object, array, objectEnd, arrayEnd⟩ := marks
  rw [StreamedCall.scanUnit, StreamedCall.scanCharacter, if_neg (by rw [outside.escaped]; decide),
    if_neg notEscaping, quote, object, array, objectEnd, arrayEnd]
  simp only [single, outside.quoted, Bool.not_false, Bool.false_eq_true, if_false]

/-- A unit that is no mark. -/
theorem Outside.scanUnit_plain (outside : Outside state) {other : CodeUnit}
    (plain : other ∉ units "\"\x7b[\x7d]")
    : state.scanUnit other = state := by
  have no {mark : CodeUnit} (member : mark ∈ units "\"\x7b[\x7d]") : other ≠ mark :=
    fun same => plain (same ▸ member)
  have notQuote : other ≠ unit '"' := no (by decide)
  have notOpen : ¬ (other = unit '\x7b' ∨ other = unit '[') :=
    not_or.mpr ⟨no (by decide), no (by decide)⟩
  have notClose : ¬ (other = unit '\x7d' ∨ other = unit ']') :=
    not_or.mpr ⟨no (by decide), no (by decide)⟩
  rw [outside.scanUnit, if_neg notQuote, if_neg notOpen, if_neg notClose]

theorem Outside.scanUnits_plain (outside : Outside state)
    (plain : ∀ other ∈ text, other ∉ units "\"\x7b[\x7d]")
    : state.scanUnits text = state := by
  induction text with
  | nil => rfl
  | cons first rest ih =>
      rw [StreamedCall.scanUnits, List.foldl_cons,
        outside.scanUnit_plain (plain first List.mem_cons_self)]
      exact ih fun other member => plain other (List.mem_cons_of_mem _ member)

theorem Outside.scanUnits_blank (outside : Outside state) {space : JsString} (isBlank : Blank space)
    : state.scanUnits space = state := by
  refine outside.scanUnits_plain fun other member mark => ?_
  have marks : (units "\"\x7b[\x7d]").all (fun other => !isSpace other) = true := by decide
  have notBlank := List.all_eq_true.mp marks other mark
  rw [isBlank other member] at notBlank
  cases notBlank

/-- Four code units that are read are hexadecimal digits. -/
theorem hexDigits_of_readHex {first second third fourth other : CodeUnit} {rest : JsString}
    (read : readHex [first, second, third, fourth] = some (other, rest))
    : ∀ digit ∈ [first, second, third, fourth], (hexValue? digit).isSome = true := by
  simp only [readHex, Option.bind_eq_bind, Option.bind_eq_some_iff] at read
  obtain ⟨one, isOne, two, isTwo, three, isThree, four, isFour, -⟩ := read
  simp [isOne, isTwo, isThree, isFour]

/-- Within a literal a code unit as it is written changes nothing. -/
theorem scanUnits_unitText {other : CodeUnit} {piece : JsString} (written : UnitText other piece)
    (quoted : state.quoted = true) (escaped : state.escaped = false)
    : state.scanUnits piece = state := by
  have inert {other : CodeUnit} (notQuote : other ≠ unit '"') (notEscape : other ≠ unit '\\')
      : state.scanUnit other = state := by
    have noEscape : ¬ ([other] = units "\\" ∧ state.quoted = true) := fun both =>
      notEscape (List.cons.inj both.1).1
    have noQuote : ¬ [other] = units "\"" := fun same => notQuote (List.cons.inj same).1
    rw [StreamedCall.scanUnit, StreamedCall.scanCharacter, escaped, if_neg Bool.false_ne_true,
      if_neg noEscape, if_neg noQuote, if_pos quoted]
  have escape : state.scanUnit (unit '\\') = { state with escaped := true } := by
    rw [StreamedCall.scanUnit, StreamedCall.scanCharacter, escaped, if_neg Bool.false_ne_true,
      if_pos ⟨rfl, quoted⟩]
  have ended (other : CodeUnit)
      : StreamedCall.scanUnit { state with escaped := true } other = state := by
    rw [StreamedCall.scanUnit, StreamedCall.scanCharacter, if_pos rfl, ← escaped]
  cases written with
  | plain _ notQuote notEscape printable => exact inert notQuote notEscape
  | short letter _ notHex found =>
      rw [StreamedCall.scanUnits, List.foldl_cons, escape, List.foldl_cons, ended, List.foldl_nil]
  | hex _ first second third fourth read =>
      have digits := hexDigits_of_readHex (read [])
      have hex {digit : CodeUnit} (member : digit ∈ [first, second, third, fourth])
          : state.scanUnit digit = state := by
        have value := digits digit member
        refine inert (fun same => ?_) fun same => ?_
        · rw [same] at value
          exact absurd value (by decide)
        · rw [same] at value
          exact absurd value (by decide)
      rw [StreamedCall.scanUnits, List.foldl_cons, escape, List.foldl_cons, ended, List.foldl_cons,
        hex (by simp), List.foldl_cons, hex (by simp), List.foldl_cons, hex (by simp),
        List.foldl_cons, hex (by simp), List.foldl_nil]

/-- A literal behind its opening quote. -/
theorem scanUnits_literal (state : StreamedCall) {value body : JsString} (written : LiteralText value body)
    (quoted : state.quoted = true) (escaped : state.escaped = false)
    : state.scanUnits body = { state with quoted := false } := by
  induction written with
  | close =>
      have noEscape : ¬ ([unit '"'] = units "\\" ∧ state.quoted = true) := fun both =>
        absurd both.1 (by decide)
      have isQuote : [unit '"'] = units "\"" := by decide
      rw [StreamedCall.scanUnits, List.foldl_cons, List.foldl_nil, StreamedCall.scanUnit,
        StreamedCall.scanCharacter, escaped, if_neg Bool.false_ne_true, if_neg noEscape,
        if_pos isQuote, quoted, Bool.not_true]
  | more other piece value body first rest ih =>
      rw [scanUnits_append, scanUnits_unitText first quoted escaped, ih]

/-- A text within a container that leaves the scan as it is. -/
def Neutral (text : JsString) : Prop :=
  ∀ state : StreamedCall, Outside state → 1 ≤ state.depth → state.scanUnits text = state

/-- A text up to the end of its container. -/
def Closes (text : JsString) : Prop :=
  ∃ init closing,
    text = init ++ [closing] ∧ (closing = unit '\x7d' ∨ closing = unit ']') ∧ Neutral init

theorem Neutral.append {left right : JsString} (first : Neutral left) (second : Neutral right)
    : Neutral (left ++ right) := by
  intro state outside deep
  rw [scanUnits_append, first state outside deep, second state outside deep]

theorem Neutral.plain (plain : ∀ other ∈ text, other ∉ units "\"\x7b[\x7d]")
    : Neutral text :=
  fun _ outside _ => outside.scanUnits_plain plain

theorem Neutral.of_all
    (plain : text.all (fun other => decide (other ∉ units "\"\x7b[\x7d]")) = true)
    : Neutral text :=
  .plain fun other member => of_decide_eq_true (List.all_eq_true.mp plain other member)

theorem Neutral.blank {space : JsString} (isBlank : Blank space) : Neutral space :=
  fun _ outside _ => outside.scanUnits_blank isBlank

/-- A mark that only separates. -/
theorem Neutral.separator {mark : CodeUnit} (separates : mark ∈ units ",:") : Neutral [mark] := by
  refine Neutral.plain fun other member => ?_
  rw [List.mem_singleton.mp member]
  have plain : (units ",:").all (fun mark => decide (mark ∉ units "\"\x7b[\x7d]")) = true := by
    decide
  exact of_decide_eq_true (List.all_eq_true.mp plain mark separates)

theorem Neutral.literal {value body : JsString} (written : LiteralText value body)
    : Neutral (unit '"' :: body) := by
  intro state outside _
  have opened : state.scanUnit (unit '"') = { state with quoted := true } := by
    rw [outside.scanUnit, if_pos rfl]
  have closed : StreamedCall.scanUnits { state with quoted := true } body = state := by
    rw [scanUnits_literal { state with quoted := true } written rfl outside.escaped,
      ← outside.quoted]
  rw [StreamedCall.scanUnits, List.foldl_cons, opened]
  exact closed

/-- The end of a container goes back one level. -/
theorem Outside.scanUnit_closing (outside : Outside state) {closing : CodeUnit}
    (isClosing : closing = unit '\x7d' ∨ closing = unit ']')
    : state.scanUnit closing
      = { state with
          depth := state.depth - 1
          ready := decide (state.depth - 1 = 0) || state.ready } := by
  have notQuote : closing ≠ unit '"' := by
    rcases isClosing with rfl | rfl
    · decide
    · decide
  have notOpen : ¬ (closing = unit '\x7b' ∨ closing = unit '[') := by
    rcases isClosing with rfl | rfl
    · decide
    · decide
  rw [outside.scanUnit, if_neg notQuote, if_neg notOpen, if_pos isClosing]

theorem Outside.scanUnit_opening (outside : Outside state)
    (isOpening : opening = unit '\x7b' ∨ opening = unit '[')
    : state.scanUnit opening = { state with depth := state.depth + 1 } := by
  have notQuote : opening ≠ unit '"' := by
    rcases isOpening with rfl | rfl
    · decide
    · decide
  rw [outside.scanUnit, if_neg notQuote, if_pos isOpening]

/-- A whole container leaves the scan as it is. -/
theorem Closes.neutral (closes : Closes text)
    (isOpening : opening = unit '\x7b' ∨ opening = unit '[')
    : Neutral (opening :: text) := by
  intro state outside deep
  obtain ⟨init, closing, rfl, isClosing, neutral⟩ := closes
  have inner : Outside { state with depth := state.depth + 1 } := ⟨outside.quoted, outside.escaped⟩
  have deeper : 1 ≤ state.depth + 1 := by omega
  have above : decide (state.depth = 0) = false := decide_eq_false (by omega)
  rw [StreamedCall.scanUnits, List.foldl_cons, outside.scanUnit_opening isOpening,
    List.foldl_append, List.foldl_cons, List.foldl_nil]
  have same := neutral _ inner deeper
  rw [StreamedCall.scanUnits] at same
  rw [same, inner.scanUnit_closing isClosing]
  dsimp only
  rw [Int.add_sub_cancel, above, Bool.false_or]

theorem Closes.prepend {left : JsString} (neutral : Neutral left) (closes : Closes text)
    : Closes (left ++ text) := by
  obtain ⟨init, closing, rfl, isClosing, inner⟩ := closes
  exact ⟨left ++ init, closing, (List.append_assoc _ _ _).symm, isClosing, neutral.append inner⟩

theorem Closes.close {closing : CodeUnit} (isClosing : closing = unit '\x7d' ∨ closing = unit ']')
    : Closes [closing] :=
  ⟨[], closing, rfl, isClosing, fun _ _ _ => rfl⟩

/-- What the scan does with a text of the grammar. -/
def Scanned (part : Part) (text : JsString) : Prop :=
  match part with
  | .value _ => Neutral text
  | .items _ | .fields _ _ => Closes text

/-- By induction over the derivation. -/
theorem scanned {part : Part} (derived : PartText part text)
    : Scanned part text := by
  have comma : Neutral [unit ','] := .separator (by decide)
  have colon : Neutral [unit ':'] := .separator (by decide)
  induction derived with
  | blank part space text isBlank inner ih =>
      have blank : Neutral [space] := .blank fun other member => by
        rwa [List.mem_singleton.mp member]
      cases part with
      | value value => exact blank.append ih
      | items items => exact Closes.prepend blank ih
      | fields before after => exact Closes.prepend blank ih
  | null => exact Neutral.of_all (by decide)
  | bool value => cases value <;> exact Neutral.of_all (by decide)
  | number value token isToken read =>
      refine Neutral.plain fun other member mark => ?_
      have marks : (units "\"\x7b[\x7d]").all (fun mark => !isNumberUnit mark) = true := by decide
      have notNumber := List.all_eq_true.mp marks other mark
      rw [isToken other member] at notNumber
      cases notNumber
  | string value body literal => exact Neutral.literal literal
  | emptyArray space isBlank =>
      exact (Closes.prepend (.blank isBlank) (.close (.inr rfl))).neutral (.inr rfl)
  | array items text inner ih => exact Closes.neutral ih (.inr rfl)
  | emptyObject space isBlank =>
      exact (Closes.prepend (.blank isBlank) (.close (.inl rfl))).neutral (.inl rfl)
  | object fields text inner ih => exact Closes.neutral ih (.inl rfl)
  | lastItem item text space inner isBlank ih =>
      exact Closes.prepend ih (.prepend (.blank isBlank) (.close (.inr rfl)))
  | item item items text space others inner isBlank rest ih ihRest =>
      exact Closes.prepend ih (.prepend (.blank isBlank) (Closes.prepend comma ihRest))
  | lastField before key body space value text blank literal isColon inner isBlank ih =>
      exact Closes.prepend (.literal literal) (.prepend (.blank isColon) (.prepend colon
        (Closes.prepend ih (.prepend (.blank isBlank) (.close (.inl rfl))))))
  | field before after key body space value text blank others literal isColon inner isBlank rest
      ih ihRest =>
      exact Closes.prepend (.literal literal) (.prepend (.blank isColon) (.prepend colon
        (Closes.prepend ih (.prepend (.blank isBlank) (Closes.prepend comma ihRest)))))

/-- Outside of all containers the end of a container makes the input ready, not before. -/
theorem Closes.whole (closes : Closes text) (isOpening : opening = unit '\x7b' ∨ opening = unit '[')
    (outside : Outside state) (start : state.depth = 0) (notReady : state.ready = false)
    : ∃ init closing,
        opening :: text = init ++ [closing]
        ∧ (state.scanUnits init).ready = false
        ∧ (state.scanUnits (opening :: text)).ready = true := by
  obtain ⟨init, closing, rfl, isClosing, neutral⟩ := closes
  have inner : Outside { state with depth := state.depth + 1 } := ⟨outside.quoted, outside.escaped⟩
  have deeper : 1 ≤ state.depth + 1 := by omega
  have opened : state.scanUnits (opening :: init) = { state with depth := state.depth + 1 } := by
    have same := neutral _ inner deeper
    rw [StreamedCall.scanUnits] at same
    rw [StreamedCall.scanUnits, List.foldl_cons, outside.scanUnit_opening isOpening, same]
  refine ⟨opening :: init, closing, (List.cons_append).symm, ?_, ?_⟩
  · rw [opened]
    exact notReady
  · rw [← List.cons_append, scanUnits_append, opened, StreamedCall.scanUnits, List.foldl_cons,
      List.foldl_nil, inner.scanUnit_closing isClosing]
    dsimp only
    rw [start]
    rfl

/-- The text of an object makes the input ready with its last character. -/
theorem object_whole {part : Part} {fields : List (JsString × Data)} (derived : PartText part text)
    (isObject : part = .value (.object fields)) (outside : Outside state) (start : state.depth = 0)
    (notReady : state.ready = false)
    : ∃ init closing,
        text = init ++ [closing]
        ∧ (state.scanUnits init).ready = false
        ∧ (state.scanUnits text).ready = true := by
  induction derived with
  | blank part space text isBlank inner ih =>
      obtain ⟨init, closing, spelled, early, whole⟩ := ih isObject
      have skip : state.scanUnit space = state := by
        have blank : Blank [space] := fun other member => by rwa [List.mem_singleton.mp member]
        exact outside.scanUnits_blank blank
      refine ⟨space :: init, closing, by rw [spelled, List.cons_append], ?_, ?_⟩
      · rw [StreamedCall.scanUnits, List.foldl_cons, skip]
        exact early
      · rw [StreamedCall.scanUnits, List.foldl_cons, skip]
        exact whole
  | emptyObject space isBlank =>
      exact (Closes.prepend (.blank isBlank) (.close (.inl rfl))).whole (.inl rfl) outside start
        notReady
  | object fields text inner ih =>
      exact Closes.whole (scanned inner) (.inl rfl) outside start notReady
  | null | bool | number | string | emptyArray | array | lastItem | item | lastField | field =>
      cases isObject

end Texts

-- What has been received

section Received

variable {text received : JsString} {fields : List (JsString × Data)}

/-- White space only is missing. -/
def Complete (text received : JsString) : Prop := ∃ space, text = received ++ space ∧ Blank space

/-- Once the scan of a part of the text is ready, only white space is missing, and the part parses
to the object.
-/
theorem complete_of_ready (json : jsonParse text = some (.object fields))
    (partial_ : received <+: text) (ready : (StreamedCall.scanUnits {} received).ready = true)
    : Complete text received ∧ jsonObject received = some fields := by
  obtain ⟨core, space, rfl, derived, isBlank⟩ := jsonParse_iff.mp json
  have outside : Outside ({} : StreamedCall) := ⟨rfl, rfl⟩
  obtain ⟨init, closing, spelled, early, -⟩ := object_whole derived rfl outside rfl rfl
  have long : core.length ≤ received.length := by
    by_contra short
    have inInit : received <+: init := by
      have inCore : received <+: core :=
        List.prefix_of_prefix_length_le partial_ (List.prefix_append _ _) (by omega)
      rw [spelled] at inCore short
      refine List.prefix_of_prefix_length_le inCore (List.prefix_append _ _) ?_
      rw [List.length_append, List.length_singleton] at short
      omega
    obtain ⟨rest, rfl⟩ := inInit
    rw [scanUnits_append, ready_scanUnits ready] at early
    cases early
  obtain ⟨more, rfl⟩ : core <+: received :=
    List.prefix_of_prefix_length_le (List.prefix_append _ _) partial_ long
  obtain ⟨missing, same⟩ := partial_
  rw [List.append_assoc, List.append_cancel_left_eq] at same
  have blanks := List.forall_mem_append.mp (same ▸ isBlank)
  refine ⟨⟨missing, ?_, blanks.2⟩, ?_⟩
  · rw [List.append_assoc, same]
  · have parsed : jsonParse (core ++ more) = some (.object fields) :=
      jsonParse_iff.mpr ⟨core, more, rfl, derived, blanks.1⟩
    rw [jsonObject, parsed]

end Received

end SpeculativeAction.StreamPreview
