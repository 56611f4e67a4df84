import SpeculativeAction.StableEquality

/-! Values with one stable text compare alike with every other value, unless an own `__proto__`
is undefined: so either may stand for the other where values are kept once by their texts.
-/

namespace SpeculativeAction.StableJson

open SpeculativeAction.Library

-- Trees with one text

section Texts

/-- No object of the tree lists a key twice, and every own `__proto__` is defined. -/
inductive Settled : Data → Prop where
  | scalar (value : Data) (scalar : isScalar value = true) : Settled value
  | array (items : List Data) (each : ∀ item ∈ items, Settled item) : Settled (.array items)
  | object (fields : List (JsString × Data)) (distinct : (fields.map Prod.fst).Nodup)
    (each : ∀ field ∈ fields, Settled field.2)
    (proto : protoKey ∈ fields.map Prod.fst → fieldOf fields protoKey ≠ .undefined)
    : Settled (.object fields)

/-- The same tree up to the order of keys and undefined fields. -/
abbrev Alike (left right : Data) : Prop := AlikeBut (fun _ => False) left right

variable {left right other : Data}

namespace Settled

theorem keysDistinct (settled : Settled left) : StableJson.keysDistinct left = true := by
  induction settled with
  | scalar value scalar => exact keysDistinct_of_isScalar scalar
  | array items _ ih => exact itemsDistinct_iff.mpr ih
  | object fields distinct _ _ ih =>
      exact Bool.and_eq_true_iff.mpr ⟨decide_eq_true distinct, fieldsDistinct_iff.mpr ih⟩

theorem slot {items : List Data} (settled : Settled (.array items)) (index : ℕ)
    : Settled (filled (itemOf items index)) := by
  cases settled with
  | scalar _ scalar => exact absurd scalar (not_isScalar_array items)
  | array _ each =>
      rw [itemOf]
      cases found : items[index]? with
      | none => exact .scalar _ rfl
      | some item =>
          have one := each item (List.mem_of_getElem? found)
          rw [Option.getD_some]
          by_cases undefined : item = .undefined
          · rw [undefined]
            exact .scalar _ rfl
          · rw [filled_of_defined undefined]
            exact one

theorem field {fields : List (JsString × Data)} (settled : Settled (.object fields))
    (key : JsString)
    : Settled (fieldOf fields key) := by
  cases settled with
  | scalar _ scalar => exact absurd scalar (not_isScalar_object fields)
  | object _ _ each _ =>
      by_cases undefined : fieldOf fields key = .undefined
      · rw [undefined]
        exact .scalar _ rfl
      · exact each _ (mem_of_fieldOf rfl undefined)

theorem onlyOne {lefts rights : List (JsString × Data)} (first : Settled (.object lefts))
    (second : Settled (.object rights)) {value : Data} (only : OnlyOne lefts rights value)
    : value ≠ .undefined := by
  have proto {fields : List (JsString × Data)} (settled : Settled (.object fields))
      (own : protoKey ∈ fields.map Prod.fst)
      : fieldOf fields protoKey ≠ .undefined := by
    cases settled with
    | scalar _ scalar => exact absurd scalar (not_isScalar_object fields)
    | object _ _ _ proto => exact proto own
  rcases only with ⟨here, _, rfl⟩ | ⟨_, there, rfl⟩
  · exact proto first here
  · exact proto second there

theorem oneSided {value : Data} (found : OneSided left right value) (first : Settled left)
    (second : Settled right)
    : value ≠ .undefined := by
  induction found with
  | here lefts rights value only => exact first.onlyOne second only
  | item lefts rights index value _ ih => exact ih (first.slot index) (second.slot index)
  | field lefts rights key value _ _ ih => exact ih (first.field key) (second.field key)

/-- Settled trees with one text are the same. -/
theorem alike (first : Settled left) (second : Settled right)
    (text : serialize left = serialize right)
    : Alike left right := by
  obtain ⟨same, undefined⟩ := AlikeBut.iff_oneSided.mp
    ((serialize_eq_iff_alike left right first.keysDistinct second.keysDistinct).mp text)
  exact AlikeBut.iff_oneSided.mpr ⟨same, fun value found =>
    oneSided found first second (undefined value found)⟩

end Settled

end Texts

-- The same trees compare alike

section Congruence

variable {left right other : Data}

namespace Alike

theorem symm (same : Alike left right) : Alike right left := by
  induction same with
  | scalar left right leftScalar rightScalar text =>
      exact .scalar _ _ rightScalar leftScalar text.symm
  | array left right length _ ih => exact .array _ _ length.symm ih
  | object left right fields oneSided ih =>
      refine .object _ _ (fun key owned => ih key fun proto => (owned proto).symm)
        fun value only => oneSided value ?_
      exact only.symm.imp (fun parts => ⟨parts.2.1, parts.1, parts.2.2⟩)
        fun parts => ⟨parts.2.1, parts.1, parts.2.2⟩

/-- Both of the same objects own `__proto__` or neither does. -/
theorem proto_iff {lefts rights : List (JsString × Data)}
    (same : Alike (.object lefts) (.object rights))
    : protoKey ∈ lefts.map Prod.fst ↔ protoKey ∈ rights.map Prod.fst := by
  obtain ⟨_, whole, _, oneSided⟩ := AlikeBut.object_iff.mp same
  obtain rfl := Data.object.inj whole
  by_contra different
  obtain ⟨value, only⟩ := exists_onlyOne different
  exact oneSided value only

theorem field {lefts rights : List (JsString × Data)}
    (same : Alike (.object lefts) (.object rights)) (key : JsString)
    : Alike (fieldOf lefts key) (fieldOf rights key) := by
  obtain ⟨_, whole, fields, _⟩ := AlikeBut.object_iff.mp same
  obtain rfl := Data.object.inj whole
  exact fields key fun _ => same.proto_iff

theorem undefined_iff (same : Alike left right) : left = .undefined ↔ right = .undefined := by
  cases same with
  | scalar _ _ _ _ text => rw [← serialize_eq_none, ← serialize_eq_none, text]
  | array | object => exact iff_of_false nofun nofun

theorem writesNull_eq (same : Alike left right) (null : writesNull left = true)
    : writesNull right = true := by
  obtain ⟨scalar, text⟩ := writesNull_iff.mp null
  obtain ⟨scalar', text'⟩ := (AlikeBut.scalar_iff scalar).mp same
  exact writesNull_iff.mpr ⟨scalar', text'.symm.trans text⟩

theorem readsAsPrototype (same : Alike left right) (reads : ReadsAsPrototype left)
    : ReadsAsPrototype right := by
  obtain ⟨lefts, rfl, each⟩ := reads
  obtain ⟨rights, rfl, _, _⟩ := AlikeBut.object_iff.mp same
  refine ⟨rights, rfl, fun key own => ?_⟩
  split
  · next proto =>
      subst proto
      have here := each protoKey (same.proto_iff.mpr own)
      rw [if_pos rfl] at here
      exact (same.field protoKey).writesNull_eq here
  · next ordinary =>
      refine (same.field key).undefined_iff.mp ?_
      by_cases here : key ∈ lefts.map Prod.fst
      · have missing := each key here
        rwa [if_neg ordinary] at missing
      · exact fieldOf_of_not_mem here

/-- What faces one of the same trees faces the other. -/
theorem congr (same : Alike left right) (alike : AlikeBut ReadsAsPrototype right other)
    : AlikeBut ReadsAsPrototype left other := by
  induction same generalizing other with
  | scalar left right leftScalar rightScalar text =>
      obtain ⟨scalar, texts⟩ := (AlikeBut.scalar_iff rightScalar).mp alike
      exact .scalar _ _ leftScalar scalar (text.trans texts)
  | array left right length _ ih =>
      obtain ⟨others, rfl, lengths, slots⟩ := AlikeBut.array_iff.mp alike
      exact .array _ _ (length.trans lengths) fun index => ih index (slots index)
  | object left right fields oneSided ih =>
      have whole : Alike (.object left) (.object right) := .object _ _ fields oneSided
      have proto := whole.proto_iff
      obtain ⟨others, rfl, reads, tolerated⟩ := AlikeBut.object_iff.mp alike
      refine .object _ _ (fun key owned => ?_) fun value only => ?_
      · exact ih key (fun _ => proto) (reads key fun same => proto.symm.trans (owned same))
      · rcases only with ⟨here, missing, rfl⟩ | ⟨missing, there, rfl⟩
        · exact (whole.field protoKey).symm.readsAsPrototype
            (tolerated _ (.inl ⟨proto.mp here, missing, rfl⟩))
        · exact tolerated _ (.inr ⟨mt proto.mpr missing, there, rfl⟩)

end Alike

/-- A value that `===` tells from the others with its text, and so does every own `__proto__`. -/
structure Readable (value : Data) : Prop where
  settled : Settled value
  defined : value ≠ .undefined
  null : writesNull value = true → value = .null

theorem strictEqualNumber_congr {first second : JsNumber}
    (equal : strictEqualNumber first second = true) (third : JsNumber)
    : strictEqualNumber first third = strictEqualNumber second third := by
  cases first <;> cases second <;> cases third <;>
    simp_all [strictEqualNumber, ← finite_zero_iff, eq_comm (a := Binary64.zero)]

theorem strictEqual_congr (scalar : isScalar left = true)
    (equal : strictEqual false left right = true) (other : Data)
    : strictEqual false left other = strictEqual false right other := by
  cases left with
  | array items => exact absurd scalar (not_isScalar_array items)
  | object fields => exact absurd scalar (not_isScalar_object fields)
  | number first =>
      cases right with
      | number second => cases other <;> first | rfl | exact strictEqualNumber_congr equal _
      | _ => exact absurd equal Bool.false_ne_true
  | bool first =>
      cases right with
      | bool second => rw [show first = second from eq_of_beq equal]
      | _ => exact absurd equal Bool.false_ne_true
  | string first =>
      cases right with
      | string second => rw [show first = second from eq_of_beq equal]
      | _ => exact absurd equal Bool.false_ne_true
  | _ => cases right <;> first | rfl | exact absurd equal Bool.false_ne_true

/-- Readable values with one text compare alike with every value. -/
theorem Readable.stableEqual_congr (first : Readable left) (second : Readable right)
    (text : serialize left = serialize right) (other : Data)
    : stableEqual false left other = stableEqual false right other := by
  have kinds := isScalar_of_serialize_eq first.settled.keysDistinct second.settled.keysDistinct text
  by_cases scalar : isScalar left = true
  · rw [stableEqual_scalar false other scalar, stableEqual_scalar false other (kinds ▸ scalar)]
    rcases (serialize_eq_iff_strictEqual scalar (kinds ▸ scalar)).mp text with equal | ⟨null, null'⟩
    · exact strictEqual_congr scalar equal other
    · rw [first.null null, second.null null']
  · have object := Bool.eq_false_iff.mpr scalar
    have same := first.settled.alike second.settled text
    by_cases scalar' : isScalar other = true
    · rw [stableEqual_different_kinds false (by rw [object, scalar']; exact Bool.false_ne_true),
        stableEqual_different_kinds false (by rw [← kinds, object, scalar']; exact Bool.false_ne_true)]
    · have object' := Bool.eq_false_iff.mpr scalar'
      rw [stableEqual_objects object object', stableEqual_objects (kinds.symm.trans object) object',
        Bool.eq_iff_iff, equalSlot_iff_alike, equalSlot_iff_alike]
      exact ⟨same.symm.congr, same.congr⟩

end Congruence

end SpeculativeAction.StableJson
