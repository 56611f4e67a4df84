import Mathlib.Data.List.TakeWhile
import SpeculativeAction.Library.Json

/-! The texts that `JSON.parse` reads, as a grammar: whatever is read was derived from it, and
what is derived from it is read whatever follows, so a value does not depend on what is behind it.
-/

namespace SpeculativeAction.Library.Data

-- The grammar

section Grammar

/-- White space only. -/
def Blank (text : JsString) : Prop := ∀ other ∈ text, isSpace other = true

/-- One code unit of a literal as it is written. -/
inductive UnitText : CodeUnit → JsString → Prop
  | plain (other : CodeUnit) (notQuote : other ≠ unit '"') (notEscape : other ≠ unit '\\')
    (printable : ¬ other.val < 32)
    : UnitText other [other]
  | short (letter other : CodeUnit) (notHex : letter ≠ unit 'u')
    (escaped : escapedUnit? letter = some other)
    : UnitText other [unit '\\', letter]
  | hex (other first second third fourth : CodeUnit)
    (read : ∀ rest, readHex (first :: second :: third :: fourth :: rest) = some (other, rest))
    : UnitText other [unit '\\', unit 'u', first, second, third, fourth]

/-- A literal behind its opening quote. -/
inductive LiteralText : JsString → JsString → Prop
  | close : LiteralText [] [unit '"']
  | more (other : CodeUnit) (piece value body : JsString) (first : UnitText other piece)
    (rest : LiteralText value body)
    : LiteralText (other :: value) (piece ++ body)

/-- What a text may stand for: a value, the items of an array up to its end, or the fields of an
object up to its end, with those that were there before.
-/
inductive Part where
  | value (value : Data)
  | items (items : List Data)
  | fields (before after : List (JsString × Data))

inductive PartText : Part → JsString → Prop
  | blank (part : Part) (space : CodeUnit) (text : JsString) (isBlank : isSpace space = true)
    (inner : PartText part text)
    : PartText part (space :: text)
  | null : PartText (.value .null) (units "null")
  | bool (value : Bool) : PartText (.value (.bool value)) (boolText value)
  | number (value : JsNumber) (token : JsString)
    (isToken : ∀ other ∈ token, isNumberUnit other = true) (read : readNumber token = some value)
    : PartText (.value (.number value)) token
  | string (value body : JsString) (literal : LiteralText value body)
    : PartText (.value (.string value)) (unit '"' :: body)
  | emptyArray (space : JsString) (isBlank : Blank space)
    : PartText (.value (.array [])) (unit '[' :: (space ++ [unit ']']))
  | array (items : List Data) (text : JsString) (inner : PartText (.items items) text)
    : PartText (.value (.array items)) (unit '[' :: text)
  | emptyObject (space : JsString) (isBlank : Blank space)
    : PartText (.value (.object [])) (unit '\x7b' :: (space ++ [unit '\x7d']))
  | object (fields : List (JsString × Data)) (text : JsString)
    (inner : PartText (.fields [] fields) text)
    : PartText (.value (.object fields)) (unit '\x7b' :: text)
  | lastItem (item : Data) (text space : JsString) (inner : PartText (.value item) text)
    (isBlank : Blank space)
    : PartText (.items [item]) (text ++ (space ++ [unit ']']))
  | item (item : Data) (items : List Data) (text space others : JsString)
    (inner : PartText (.value item) text) (isBlank : Blank space)
    (rest : PartText (.items items) others)
    : PartText (.items (item :: items)) (text ++ (space ++ unit ',' :: others))
  | lastField (before : List (JsString × Data)) (key body colon : JsString) (value : Data)
    (text space : JsString) (literal : LiteralText key body) (isColon : Blank colon)
    (inner : PartText (.value value) text) (isBlank : Blank space)
    : PartText (.fields before (OrderedMap.setEntries key value before))
        (unit '"' :: (body ++ (colon ++ unit ':' :: (text ++ (space ++ [unit '\x7d'])))))
  | field (before after : List (JsString × Data)) (key body colon : JsString) (value : Data)
    (text space others : JsString) (literal : LiteralText key body) (isColon : Blank colon)
    (inner : PartText (.value value) text) (isBlank : Blank space)
    (rest : PartText (.fields (OrderedMap.setEntries key value before) after) others)
    : PartText (.fields before after)
        (unit '"' :: (body ++ (colon ++ unit ':' :: (text ++ (space ++ unit ',' :: others)))))

end Grammar

-- What is read was derived

section Derived

theorem readHex_derived {text rest : JsString} {other : CodeUnit}
    (read : readHex text = some (other, rest))
    : ∃ first second third fourth,
        text = first :: second :: third :: fourth :: rest
        ∧ ∀ tail, readHex (first :: second :: third :: fourth :: tail) = some (other, tail) := by
  unfold readHex at read
  split at read
  next first second third fourth tail =>
    simp only [Option.bind_eq_bind, Option.bind_eq_some_iff, Option.some.injEq, Prod.mk.injEq]
      at read
    obtain ⟨one, isOne, two, isTwo, three, isThree, four, isFour, value, rfl⟩ := read
    refine ⟨first, second, third, fourth, rfl, fun tail => ?_⟩
    simp only [readHex, isOne, isTwo, isThree, isFour, Option.bind_eq_bind, Option.bind_some, value]
  next => cases read

theorem readUnit_derived {first : CodeUnit} {tail rest : JsString} {other : CodeUnit}
    (notQuote : first ≠ unit '"') (read : readUnit (first :: tail) = some (other, rest))
    : ∃ piece, first :: tail = piece ++ rest ∧ UnitText other piece := by
  rw [readUnit.eq_def] at read
  dsimp only at read
  split at read
  next escape =>
    cases tail with
    | nil => cases read
    | cons letter tail =>
        dsimp only at read
        split at read
        next isHex =>
          obtain ⟨one, two, three, four, rfl, again⟩ := readHex_derived read
          exact ⟨[first, letter, one, two, three, four], rfl,
            escape ▸ isHex ▸ .hex other one two three four again⟩
        next notHex =>
          obtain ⟨found, escaped, same⟩ := Option.map_eq_some_iff.mp read
          obtain ⟨rfl, rfl⟩ := Prod.mk.inj same
          exact ⟨[first, letter], rfl, escape ▸ .short letter found notHex escaped⟩
  next notEscape =>
    split at read
    next => cases read
    next printable =>
      obtain ⟨rfl, rfl⟩ := Prod.mk.inj (Option.some.inj read)
      exact ⟨[first], rfl, .plain first notQuote notEscape printable⟩

/-- By induction over the fuel. -/
theorem readUnits_derived {fuel : ℕ} {text value rest : JsString}
    (read : readUnits fuel text = some (value, rest))
    : ∃ body, text = body ++ rest ∧ LiteralText value body := by
  induction fuel generalizing text value with
  | zero =>
      cases text with
      | nil => cases read
      | cons first tail => cases read
  | succ fuel ih =>
      cases text with
      | nil => cases read
      | cons first tail =>
          rw [readUnits] at read
          split at read
          next closing =>
            obtain ⟨rfl, rfl⟩ := Prod.mk.inj (Option.some.inj read)
            exact ⟨[first], rfl, closing ▸ .close⟩
          next notQuote =>
            simp only [Option.bind_eq_bind, Option.bind_eq_some_iff, Option.some.injEq,
              Prod.mk.injEq] at read
            obtain ⟨⟨other, after⟩, one, ⟨more, last⟩, others, rfl, rfl⟩ := read
            obtain ⟨piece, spelled, isUnit⟩ := readUnit_derived notQuote one
            obtain ⟨body, rfl, literal⟩ := ih others
            exact ⟨piece ++ body, by rw [spelled, List.append_assoc],
              .more other piece more body isUnit literal⟩

theorem nextUnit_derived {text rest : JsString} {first : CodeUnit}
    (next : nextUnit text = some (first, rest))
    : ∃ space, Blank space ∧ text = space ++ first :: rest ∧ isSpace first = false := by
  unfold nextUnit at next
  split at next
  next => cases next
  next head tail found =>
    obtain ⟨rfl, rfl⟩ := Prod.mk.inj (Option.some.inj next)
    refine ⟨text.takeWhile isSpace, fun other member => List.mem_takeWhile_imp member, ?_, ?_⟩
    · rw [← found, List.takeWhile_append_dropWhile]
    · have solid := List.head?_dropWhile_not isSpace text
      rw [found] at solid
      simpa using solid

theorem PartText.blanks {part : Part} {space text : JsString} (isBlank : Blank space)
    (inner : PartText part text)
    : PartText part (space ++ text) := by
  induction space with
  | nil => exact inner
  | cons first rest ih =>
      exact .blank part first _ (isBlank first List.mem_cons_self)
        (ih fun other member => isBlank other (List.mem_cons_of_mem _ member))

theorem dropPrefix?_derived {text name rest : JsString} (found : text.dropPrefix? name = some rest)
    : text = name ++ rest := by
  obtain ⟨start, spelled, same⟩ := List.dropPrefix?_eq_some_iff.mp found
  rw [spelled, eq_of_beq same]

theorem parseAtom_derived {text rest : JsString} {value : Data}
    (read : parseAtom text = some (value, rest))
    : ∃ consumed, text = consumed ++ rest ∧ PartText (.value value) consumed := by
  unfold parseAtom at read
  split at read
  next found =>
    obtain ⟨rfl, rfl⟩ := Prod.mk.inj (Option.some.inj read)
    exact ⟨_, dropPrefix?_derived found, .null⟩
  next =>
    obtain ⟨rfl, rfl⟩ := Prod.mk.inj (Option.some.inj read)
    exact ⟨units "true", dropPrefix?_derived (by assumption), .bool true⟩
  next =>
    obtain ⟨rfl, rfl⟩ := Prod.mk.inj (Option.some.inj read)
    exact ⟨units "false", dropPrefix?_derived (by assumption), .bool false⟩
  next =>
    obtain ⟨number, isNumber, same⟩ := Option.map_eq_some_iff.mp read
    obtain ⟨rfl, rfl⟩ := Prod.mk.inj same
    exact ⟨text.takeWhile isNumberUnit, (List.takeWhile_append_dropWhile).symm,
      .number number _ (fun other member => List.mem_takeWhile_imp member) isNumber⟩

/-- Everything that is read was derived; by induction over the fuel. -/
theorem parse_derived (fuel : ℕ)
    : (∀ text value rest, parseValue fuel text = some (value, rest) →
        ∃ consumed, text = consumed ++ rest ∧ PartText (.value value) consumed)
      ∧ (∀ text items rest, parseItems fuel text = some (items, rest) →
          ∃ consumed, text = consumed ++ rest ∧ PartText (.items items) consumed)
      ∧ ∀ before text after rest, parseFields fuel before text = some (after, rest) →
          ∃ consumed, text = consumed ++ rest ∧ PartText (.fields before after) consumed := by
  induction fuel with
  | zero =>
      refine ⟨fun _ _ _ read => ?_, fun _ _ _ read => ?_, fun _ _ _ _ read => ?_⟩
      · cases read
      · cases read
      · cases read
  | succ fuel ih =>
      obtain ⟨values, lists, objects⟩ := ih
      refine ⟨fun text value rest read => ?_, fun text items rest read => ?_,
        fun before text after rest read => ?_⟩
      · simp only [parseValue, Option.bind_eq_bind, Option.bind_eq_some_iff] at read
        obtain ⟨⟨first, behind⟩, next, read⟩ := read
        obtain ⟨space, isBlank, rfl, -⟩ := nextUnit_derived next
        have lead {consumed : JsString} (spelled : first :: behind = consumed ++ rest)
            (derived : PartText (.value value) consumed)
            : ∃ consumed, space ++ first :: behind = consumed ++ rest
              ∧ PartText (.value value) consumed :=
          ⟨space ++ consumed, by rw [spelled, List.append_assoc], derived.blanks isBlank⟩
        dsimp only at read
        split at read
        next isObject =>
          simp only [Option.bind_eq_some_iff] at read
          obtain ⟨⟨closing, more⟩, peek, read⟩ := read
          dsimp only at read
          split at read
          next isEmpty =>
            obtain ⟨rfl, rfl⟩ := Prod.mk.inj (Option.some.inj read)
            obtain ⟨inner, innerBlank, rfl, -⟩ := nextUnit_derived peek
            refine lead (by rw [isObject, isEmpty]; simp) (.emptyObject inner innerBlank)
          next =>
            obtain ⟨⟨fields, more⟩, found, same⟩ := Option.bind_eq_some_iff.mp read
            obtain ⟨rfl, rfl⟩ := Prod.mk.inj (Option.some.inj same)
            obtain ⟨inner, rfl, derived⟩ := objects _ _ _ _ found
            exact lead (by rw [isObject, List.cons_append]) (.object fields inner derived)
        next =>
          split at read
          next isArray =>
            simp only [Option.bind_eq_some_iff] at read
            obtain ⟨⟨closing, more⟩, peek, read⟩ := read
            dsimp only at read
            split at read
            next isEmpty =>
              obtain ⟨rfl, rfl⟩ := Prod.mk.inj (Option.some.inj read)
              obtain ⟨inner, innerBlank, rfl, -⟩ := nextUnit_derived peek
              exact lead (by rw [isArray, isEmpty]; simp) (.emptyArray inner innerBlank)
            next =>
              obtain ⟨⟨items, more⟩, found, same⟩ := Option.bind_eq_some_iff.mp read
              obtain ⟨rfl, rfl⟩ := Prod.mk.inj (Option.some.inj same)
              obtain ⟨inner, rfl, derived⟩ := lists _ _ _ found
              exact lead (by rw [isArray, List.cons_append]) (.array items inner derived)
          next =>
            split at read
            next isString =>
              obtain ⟨⟨content, more⟩, found, same⟩ := Option.bind_eq_some_iff.mp read
              obtain ⟨rfl, rfl⟩ := Prod.mk.inj (Option.some.inj same)
              obtain ⟨body, rfl, literal⟩ := readUnits_derived found
              exact lead (by rw [isString, List.cons_append]) (.string content body literal)
            next =>
              obtain ⟨consumed, spelled, derived⟩ := parseAtom_derived read
              exact lead spelled derived
      · simp only [parseItems, Option.bind_eq_bind, Option.bind_eq_some_iff] at read
        obtain ⟨⟨item, behind⟩, one, ⟨⟨next, more⟩, peek, read⟩⟩ := read
        obtain ⟨text, rfl, derived⟩ := values _ _ _ one
        obtain ⟨space, isBlank, rfl, -⟩ := nextUnit_derived peek
        dsimp only at read
        split at read
        next isComma =>
          obtain ⟨⟨others, last⟩, found, same⟩ := Option.bind_eq_some_iff.mp read
          obtain ⟨rfl, rfl⟩ := Prod.mk.inj (Option.some.inj same)
          obtain ⟨remaining, rfl, rest⟩ := lists _ _ _ found
          exact ⟨_, by rw [isComma]; simp, .item item others text space remaining derived isBlank rest⟩
        next =>
          split at read
          next isEnd =>
            obtain ⟨rfl, rfl⟩ := Prod.mk.inj (Option.some.inj read)
            exact ⟨_, by rw [isEnd]; simp, .lastItem item text space derived isBlank⟩
          next => cases read
      · simp only [parseFields, Option.bind_eq_bind, Option.bind_eq_some_iff] at read
        obtain ⟨⟨opening, behind⟩, peek, read⟩ := read
        obtain ⟨lead, leadBlank, rfl, -⟩ := nextUnit_derived peek
        dsimp only at read
        split at read
        next isQuote =>
          simp only [Option.bind_eq_some_iff] at read
          obtain ⟨⟨key, afterKey⟩, isKey, ⟨⟨mark, afterMark⟩, isMark, read⟩⟩ := read
          obtain ⟨body, rfl, literal⟩ := readUnits_derived isKey
          obtain ⟨colon, colonBlank, rfl, -⟩ := nextUnit_derived isMark
          dsimp only at read
          split at read
          next isColon =>
            simp only [Option.bind_eq_some_iff] at read
            obtain ⟨⟨value, afterValue⟩, one, ⟨⟨next, more⟩, found, read⟩⟩ := read
            obtain ⟨text, rfl, derived⟩ := values _ _ _ one
            obtain ⟨space, isBlank, rfl, -⟩ := nextUnit_derived found
            dsimp only at read
            split at read
            next isComma =>
              obtain ⟨others, rfl, remaining⟩ := objects _ _ _ _ read
              refine ⟨_, by rw [isQuote, isColon, isComma]; simp,
                PartText.blanks leadBlank (.field before after key body colon value text space others
                  literal colonBlank derived isBlank remaining)⟩
            next =>
              split at read
              next isEnd =>
                obtain ⟨rfl, rfl⟩ := Prod.mk.inj (Option.some.inj read)
                exact ⟨_, by rw [isQuote, isColon, isEnd]; simp,
                  PartText.blanks leadBlank (.lastField before key body colon value text space
                    literal colonBlank derived isBlank)⟩
              next => cases read
          next => cases read
        next => cases read

end Derived

-- What was derived is read

section Read

variable {part : Part} {text tail : JsString} {fuel : ℕ}

theorem nextUnit_space {space : CodeUnit} (isBlank : isSpace space = true) (text : JsString)
    : nextUnit (space :: text) = nextUnit text := by
  rw [nextUnit, nextUnit, List.dropWhile_cons_of_pos isBlank]

theorem nextUnit_blank {space : JsString} (isBlank : Blank space) (text : JsString)
    : nextUnit (space ++ text) = nextUnit text := by
  induction space with
  | nil => rfl
  | cons first rest ih =>
      rw [List.cons_append, nextUnit_space (isBlank first List.mem_cons_self)]
      exact ih fun other member => isBlank other (List.mem_cons_of_mem _ member)

/-- White space in front of a value is skipped. -/
theorem parseValue_space {space : CodeUnit} (isBlank : isSpace space = true) (fuel : ℕ)
    (text : JsString)
    : parseValue fuel (space :: text) = parseValue fuel text := by
  cases fuel with
  | zero => rw [parseValue, parseValue]
  | succ fuel => rw [parseValue, nextUnit_space isBlank, parseValue]

/-- What it means that a text is read as the part it stands for. -/
def Part.Reads (part : Part) (fuel : ℕ) (text tail : JsString) : Prop :=
  match part with
  | .value one => parseValue fuel (text ++ tail) = some (one, tail)
  | .items many => parseItems fuel (text ++ tail) = some (many, tail)
  | .fields before after => parseFields fuel before (text ++ tail) = some (after, tail)

theorem Part.Reads.space {space : CodeUnit} (isBlank : isSpace space = true)
    (reads : part.Reads fuel text tail)
    : part.Reads fuel (space :: text) tail := by
  cases part with
  | value one => exact (parseValue_space isBlank fuel _).trans reads
  | items many =>
      cases fuel with
      | zero => cases reads
      | succ fuel =>
          have skip : parseItems (fuel + 1) (space :: (text ++ tail))
              = parseItems (fuel + 1) (text ++ tail) := by
            rw [parseItems, parseItems, parseValue_space isBlank]
          exact skip.trans reads
  | fields before after =>
      cases fuel with
      | zero => cases reads
      | succ fuel =>
          have skip : parseFields (fuel + 1) before (space :: (text ++ tail))
              = parseFields (fuel + 1) before (text ++ tail) := by
            rw [parseFields, parseFields, nextUnit_space isBlank]
          exact skip.trans reads

/-- A code unit of a literal is read back; it does not start like the end of the literal. -/
theorem UnitText.reads {other : CodeUnit} {piece : JsString} (written : UnitText other piece)
    (tail : JsString)
    : ∃ first rest,
        piece = first :: rest
        ∧ first ≠ unit '"'
        ∧ readUnit (first :: (rest ++ tail)) = some (other, tail) := by
  cases written with
  | plain _ notQuote notEscape printable =>
      refine ⟨other, [], rfl, notQuote, ?_⟩
      rw [readUnit.eq_def]
      dsimp only
      rw [if_neg notEscape, if_neg printable, List.nil_append]
  | short letter _ notHex escaped =>
      refine ⟨unit '\\', [letter], rfl, by decide, ?_⟩
      rw [readUnit.eq_def]
      dsimp only [List.cons_append, List.nil_append]
      rw [if_pos rfl, if_neg notHex, escaped, Option.map_some]
  | hex _ first second third fourth read =>
      refine ⟨unit '\\', _, rfl, by decide, ?_⟩
      rw [readUnit.eq_def]
      dsimp only [List.cons_append, List.nil_append]
      rw [if_pos rfl, if_pos rfl, read]

theorem LiteralText.reads {value body : JsString} (written : LiteralText value body)
    (enough : body.length ≤ fuel)
    : readUnits fuel (body ++ tail) = some (value, tail) := by
  induction written generalizing fuel with
  | close =>
      obtain ⟨fuel, rfl⟩ := Nat.exists_eq_succ_of_ne_zero (Nat.pos_iff_ne_zero.mp enough)
      rw [List.singleton_append, readUnits, if_pos rfl]
  | more other piece value body first rest ih =>
      obtain ⟨head, others, rfl, opened, read⟩ := first.reads (body ++ tail)
      rw [List.length_append, List.length_cons] at enough
      obtain ⟨fuel, rfl⟩ := Nat.exists_eq_succ_of_ne_zero (by omega : fuel ≠ 0)
      rw [List.append_assoc, List.cons_append]
      exact readUnits_step opened read (ih (by omega))

theorem parseAtom_token {token : JsString} {value : JsNumber}
    (isToken : ∀ other ∈ token, isNumberUnit other = true) (read : readNumber token = some value)
    (ends : Ends tail)
    : parseAtom (token ++ tail) = some (.number value, tail) := by
  have whole : (token ++ tail).takeWhile isNumberUnit = token := by
    rw [List.takeWhile_append_of_pos isToken]
    cases tail with
    | nil => simp
    | cons next rest => simp [ends next rfl]
  have remaining : (token ++ tail).dropWhile isNumberUnit = tail := by
    rw [List.dropWhile_append_of_pos isToken]
    cases tail with
    | nil => simp
    | cons next rest => simp [ends next rfl]
  have name (other : CodeUnit) (others : JsString) (different : isNumberUnit other = false)
      : (token ++ tail).dropPrefix? (other :: others) = none := by
    cases token with
    | nil => cases read
    | cons first rest =>
        exact dropPrefix?_cons_ne (ne_of_isNumberUnit (isToken first List.mem_cons_self) different)
          _ _
  unfold parseAtom
  rw [show units "null" = unit 'n' :: units "ull" from rfl, name _ _ (by decide),
    show units "true" = unit 't' :: units "rue" from rfl, name _ _ (by decide),
    show units "false" = unit 'f' :: units "alse" from rfl, name _ _ (by decide)]
  dsimp only
  rw [whole, remaining, read, Option.map_some]

/-- How a text starts behind white space. -/
theorem PartText.head (derived : PartText part text)
    : ∃ space first rest,
        Blank space ∧ text = space ++ first :: rest ∧ isSpace first = false
        ∧ first ≠ unit ']' ∧ first ≠ unit '\x7d' := by
  have nothing : Blank [] := fun _ member => absurd member List.not_mem_nil
  induction derived with
  | blank part space text isBlank inner ih =>
      obtain ⟨more, first, rest, moreBlank, rfl, head⟩ := ih
      exact ⟨space :: more, first, rest, List.forall_mem_cons.mpr ⟨isBlank, moreBlank⟩, rfl, head⟩
  | null => exact ⟨[], _, _, nothing, rfl, by decide⟩
  | bool value => cases value <;> exact ⟨[], _, _, nothing, rfl, by decide⟩
  | number value token isToken read =>
      cases token with
      | nil => cases read
      | cons first rest =>
          have starts := isToken first List.mem_cons_self
          exact ⟨[], first, rest, nothing, rfl, isSpace_of_isNumberUnit starts,
            ne_of_isNumberUnit starts (by decide), ne_of_isNumberUnit starts (by decide)⟩
  | string | emptyArray | array | emptyObject | object | lastField | field =>
      exact ⟨[], _, _, nothing, rfl, by decide⟩
  | lastItem item text space inner isBlank ih =>
      obtain ⟨more, first, rest, moreBlank, rfl, head⟩ := ih
      exact ⟨more, first, _, moreBlank, by rw [List.append_assoc, List.cons_append], head⟩
  | item item items text space others inner isBlank rest ih =>
      obtain ⟨more, first, rest, moreBlank, rfl, head⟩ := ih
      exact ⟨more, first, _, moreBlank, by rw [List.append_assoc, List.cons_append], head⟩

theorem not_isNumberUnit_of_isSpace {other : CodeUnit} (isBlank : isSpace other = true)
    : isNumberUnit other = false := by
  cases found : isNumberUnit other with
  | false => rfl
  | true =>
      rw [isSpace_of_isNumberUnit found] at isBlank
      cases isBlank

theorem ends_append_cons {space : JsString} (isBlank : Blank space) {next : CodeUnit}
    (other : isNumberUnit next = false) (rest : JsString)
    : Ends (space ++ next :: rest) := by
  cases space with
  | nil => exact ends_cons other rest
  | cons first others =>
      exact ends_cons (not_isNumberUnit_of_isSpace (isBlank first List.mem_cons_self)) _

/-- The literal of a key, and the colon behind it. -/
theorem parseFields_key {before : List (JsString × Data)} {key body colon rest : JsString}
    (literal : LiteralText key body) (isColon : Blank colon)
    : parseFields (fuel + 1) before (unit '"' :: (body ++ (colon ++ unit ':' :: rest)))
      = (do
          let (value, rest) ← parseValue fuel rest
          let fields := OrderedMap.setEntries key value before
          let (next, more) ← nextUnit rest
          if next = unit ',' then parseFields fuel fields more
          else if next = unit '\x7d' then some (fields, more)
          else none) := by
  have quoteMark : isSpace (unit '"') = false := by decide
  have mark : isSpace (unit ':') = false := by decide
  have long : body.length ≤ (body ++ (colon ++ unit ':' :: rest)).length + 1 := by
    rw [List.length_append]
    omega
  simp only [parseFields, nextUnit_cons quoteMark, Option.bind_eq_bind, Option.bind_some, if_true,
    literal.reads long, nextUnit_blank isColon, nextUnit_cons mark]

/-- What was derived is read, whatever follows that is not part of a number; by induction over
the derivation.
-/
theorem PartText.reads (derived : PartText part text) (enough : text.length ≤ fuel)
    (ends : Ends tail)
    : part.Reads fuel text tail := by
  have comma : isSpace (unit ',') = false := by decide
  have isList : isSpace (unit '[') = false := by decide
  have isObject : isSpace (unit '\x7b') = false := by decide
  have listEnd : isSpace (unit ']') = false := by decide
  have objectEnd : isSpace (unit '\x7d') = false := by decide
  have notObject : unit '[' ≠ unit '\x7b' := by decide
  have notListEnd : unit ']' ≠ unit ',' := by decide
  have notObjectEnd : unit '\x7d' ≠ unit ',' := by decide
  have positive {text : JsString} {fuel : ℕ} (enough : text.length + 1 ≤ fuel)
      : ∃ less, fuel = less + 1 ∧ text.length ≤ less := by
    obtain ⟨less, rfl⟩ := Nat.exists_eq_succ_of_ne_zero (by omega : fuel ≠ 0)
    exact ⟨less, rfl, by omega⟩
  induction derived generalizing fuel tail with
  | blank part space text isBlank inner ih =>
      exact (ih (Nat.le_of_succ_le enough) ends).space isBlank
  | null =>
      obtain ⟨less, rfl, -⟩ := positive enough
      exact parseValue_atom (by decide) (by decide) (by decide) (by decide) (parseAtom_null tail)
  | bool value =>
      cases value with
      | true =>
          obtain ⟨less, rfl, -⟩ := positive enough
          exact parseValue_atom (by decide) (by decide) (by decide) (by decide)
            (parseAtom_bool true tail)
      | false =>
          obtain ⟨less, rfl, -⟩ := positive enough
          exact parseValue_atom (by decide) (by decide) (by decide) (by decide)
            (parseAtom_bool false tail)
  | number value token isToken read =>
      cases token with
      | nil => cases read
      | cons first rest =>
          obtain ⟨less, rfl, -⟩ := positive enough
          have starts := isToken first List.mem_cons_self
          exact parseValue_atom (isSpace_of_isNumberUnit starts)
            (ne_of_isNumberUnit starts (by decide)) (ne_of_isNumberUnit starts (by decide))
            (ne_of_isNumberUnit starts (by decide)) (parseAtom_token isToken read ends)
  | string value body literal =>
      obtain ⟨less, rfl, -⟩ := positive enough
      have quoteMark : isSpace (unit '"') = false := by decide
      have object : unit '"' ≠ unit '\x7b' := by decide
      have array : unit '"' ≠ unit '[' := by decide
      have long : body.length ≤ (body ++ tail).length + 1 := by
        rw [List.length_append]
        omega
      have read : parseValue (less + 1) (unit '"' :: (body ++ tail)) = some (.string value, tail) := by
        simp only [parseValue, nextUnit_cons quoteMark, Option.bind_eq_bind, Option.bind_some,
          if_neg object, if_neg array, if_true, literal.reads long]
      exact read
  | emptyArray space isBlank =>
      obtain ⟨less, rfl, -⟩ := positive enough
      have read : parseValue (less + 1) (unit '[' :: (space ++ unit ']' :: tail))
          = some (.array [], tail) := by
        simp only [parseValue, nextUnit_cons isList, nextUnit_blank isBlank, nextUnit_cons listEnd,
          Option.bind_eq_bind, Option.bind_some, if_neg notObject, if_true]
      rw [Part.Reads, List.cons_append, List.append_assoc, List.singleton_append]
      exact read
  | array items text inner ih =>
      obtain ⟨less, rfl, fits⟩ := positive enough
      have read : parseItems less (text ++ tail) = some (items, tail) := ih fits ends
      obtain ⟨space, first, rest, isBlank, rfl, solid, notEnd, -⟩ := inner.head
      have next : nextUnit (space ++ first :: rest ++ tail) = some (first, rest ++ tail) := by
        rw [List.append_assoc, nextUnit_blank isBlank, List.cons_append, nextUnit_cons solid]
      have whole : parseValue (less + 1) (unit '[' :: (space ++ first :: rest ++ tail))
          = some (.array items, tail) := by
        simp only [parseValue, nextUnit_cons isList, next, Option.bind_eq_bind, Option.bind_some,
          if_neg notObject, if_true, if_neg notEnd, read]
      exact whole
  | emptyObject space isBlank =>
      obtain ⟨less, rfl, -⟩ := positive enough
      have read : parseValue (less + 1) (unit '\x7b' :: (space ++ unit '\x7d' :: tail))
          = some (.object [], tail) := by
        simp only [parseValue, nextUnit_cons isObject, nextUnit_blank isBlank,
          nextUnit_cons objectEnd, Option.bind_eq_bind, Option.bind_some, if_true]
      rw [Part.Reads, List.cons_append, List.append_assoc, List.singleton_append]
      exact read
  | object fields text inner ih =>
      obtain ⟨less, rfl, fits⟩ := positive enough
      have read : parseFields less [] (text ++ tail) = some (fields, tail) := ih fits ends
      obtain ⟨space, first, rest, isBlank, rfl, solid, -, notEnd⟩ := inner.head
      have next : nextUnit (space ++ first :: rest ++ tail) = some (first, rest ++ tail) := by
        rw [List.append_assoc, nextUnit_blank isBlank, List.cons_append, nextUnit_cons solid]
      have whole : parseValue (less + 1) (unit '\x7b' :: (space ++ first :: rest ++ tail))
          = some (.object fields, tail) := by
        simp only [parseValue, nextUnit_cons isObject, next, Option.bind_eq_bind, Option.bind_some,
          if_true, if_neg notEnd, read]
      exact whole
  | lastItem item text space inner isBlank ih =>
      have fits : (text ++ space).length + 1 ≤ fuel := by
        simp only [List.length_append, List.length_cons, List.length_nil] at enough ⊢
        omega
      obtain ⟨less, rfl, fits⟩ := positive fits
      rw [List.length_append] at fits
      have read : parseValue less (text ++ (space ++ unit ']' :: tail))
          = some (item, space ++ unit ']' :: tail) :=
        ih (by omega) (ends_append_cons isBlank (by decide) tail)
      have whole : parseItems (less + 1) (text ++ (space ++ unit ']' :: tail))
          = some ([item], tail) := by
        simp only [parseItems, read, nextUnit_blank isBlank, nextUnit_cons listEnd,
          Option.bind_eq_bind, Option.bind_some, if_neg notListEnd, if_true]
      rw [Part.Reads, List.append_assoc, List.append_assoc, List.singleton_append]
      exact whole
  | item item items text space others inner isBlank rest ih ihRest =>
      have fits : (text ++ (space ++ others)).length + 1 ≤ fuel := by
        simp only [List.length_append, List.length_cons] at enough ⊢
        omega
      obtain ⟨less, rfl, fits⟩ := positive fits
      rw [List.length_append, List.length_append] at fits
      have read : parseValue less (text ++ (space ++ unit ',' :: (others ++ tail)))
          = some (item, space ++ unit ',' :: (others ++ tail)) :=
        ih (by omega) (ends_append_cons isBlank (by decide) _)
      have remaining : parseItems less (others ++ tail) = some (items, tail) :=
        ihRest (by omega) ends
      have whole : parseItems (less + 1) (text ++ (space ++ unit ',' :: (others ++ tail)))
          = some (item :: items, tail) := by
        simp only [parseItems, read, nextUnit_blank isBlank, nextUnit_cons comma,
          Option.bind_eq_bind, Option.bind_some, if_true, remaining]
      rw [Part.Reads, List.append_assoc, List.append_assoc, List.cons_append]
      exact whole
  | lastField before key body colon value text space literal isColon inner isBlank ih =>
      have fits : (body ++ (colon ++ (text ++ space))).length + 1 ≤ fuel := by
        simp only [List.length_append, List.length_cons, List.length_nil] at enough ⊢
        omega
      obtain ⟨less, rfl, fits⟩ := positive fits
      rw [List.length_append, List.length_append, List.length_append] at fits
      have read : parseValue less (text ++ (space ++ unit '\x7d' :: tail))
          = some (value, space ++ unit '\x7d' :: tail) :=
        ih (by omega) (ends_append_cons isBlank (by decide) tail)
      have whole
          : parseFields (less + 1) before (unit '"' ::
              (body ++ (colon ++ unit ':' :: (text ++ (space ++ unit '\x7d' :: tail)))))
            = some (OrderedMap.setEntries key value before, tail) := by
        rw [parseFields_key literal isColon]
        simp only [read, nextUnit_blank isBlank, nextUnit_cons objectEnd, Option.bind_eq_bind,
          Option.bind_some, if_neg notObjectEnd, if_true]
      simpa only [Part.Reads, List.cons_append, List.append_assoc, List.nil_append] using whole
  | field before after key body colon value text space others literal isColon inner isBlank rest
      ih ihRest =>
      have fits : (body ++ (colon ++ (text ++ (space ++ others)))).length + 1 ≤ fuel := by
        simp only [List.length_append, List.length_cons] at enough ⊢
        omega
      obtain ⟨less, rfl, fits⟩ := positive fits
      rw [List.length_append, List.length_append, List.length_append, List.length_append] at fits
      have read : parseValue less (text ++ (space ++ unit ',' :: (others ++ tail)))
          = some (value, space ++ unit ',' :: (others ++ tail)) :=
        ih (by omega) (ends_append_cons isBlank (by decide) _)
      have remaining
          : parseFields less (OrderedMap.setEntries key value before) (others ++ tail)
            = some (after, tail) :=
        ihRest (by omega) ends
      have whole
          : parseFields (less + 1) before (unit '"' ::
              (body ++ (colon ++ unit ':' :: (text ++ (space ++ unit ',' :: (others ++ tail))))))
            = some (after, tail) := by
        rw [parseFields_key literal isColon]
        simp only [read, nextUnit_blank isBlank, nextUnit_cons comma, Option.bind_eq_bind,
          Option.bind_some, if_true, remaining]
      simpa only [Part.Reads, List.cons_append, List.append_assoc, List.nil_append] using whole

theorem ends_of_blank {space : JsString} (isBlank : Blank space) : Ends space := by
  cases space with
  | nil => exact fun _ none_ => absurd none_ (by simp)
  | cons first rest =>
      exact ends_cons (not_isNumberUnit_of_isSpace (isBlank first List.mem_cons_self)) _

/-- `JSON.parse` reads the texts of values with white space behind them. -/
theorem jsonParse_iff {value : Data}
    : jsonParse text = some value
      ↔ ∃ consumed space,
          text = consumed ++ space ∧ PartText (.value value) consumed ∧ Blank space := by
  constructor
  · intro parsed
    obtain ⟨⟨found, rest⟩, read, last⟩ := Option.bind_eq_some_iff.mp parsed
    dsimp only at last
    split at last
    next blank =>
      obtain rfl := Option.some.inj last
      obtain ⟨consumed, spelled, derived⟩ := (parse_derived _).1 _ _ _ read
      exact ⟨consumed, rest, spelled, derived, List.dropWhile_eq_nil_iff.mp blank⟩
    next => cases last
  · rintro ⟨consumed, space, rfl, derived, isBlank⟩
    have long : consumed.length ≤ (consumed ++ space).length + 1 := by
      rw [List.length_append]
      omega
    have read : parseValue ((consumed ++ space).length + 1) (consumed ++ space)
        = some (value, space) :=
      derived.reads long (ends_of_blank isBlank)
    have blank : space.dropWhile isSpace = [] := List.dropWhile_eq_nil_iff.mpr isBlank
    rw [jsonParse, read, Option.bind_eq_bind, Option.bind_some]
    exact if_pos blank

end Read

end SpeculativeAction.Library.Data
