import SpeculativeAction.ActionSemantics

/-! Which keys answer which: exact and projected matches, the partitions projections are
indexed by, and the three projections that come with the tools.
-/

namespace SpeculativeAction.ActionSemantics

open SpeculativeAction.Library
open SpeculativeAction.StableJson

section Matching

variable {projectors : List ActionKeyProjector}

structure ProjectedActionKey where
  action : ActionKey
  /-- Information the projection discards; lower is a more specific match. -/
  distance : JsNumber

/-- A partial map of one key into another. A callback that throws counts as one that
returns nothing.
-/
structure ActionKeyProjector where
  id : JsString
  partition : ActionKey → Option JsString
  project : ActionKey → ActionKey → Option ProjectedActionKey
  canShareInFlight : ActionKey → ActionKey → Bool := fun _ _ => false

/-- The value of a finite number. -/
def JsNumber.finite? : JsNumber → Option ℚ
  | .finite number => some number.value
  | .negativeZero => some 0
  | .infinite _ | .nan => none

inductive KeyMatch where
  | exact
  | projected (projector : JsString) (distance : ℚ)
  | inputs (distance : ℚ)
deriving DecidableEq

def KeyMatch.distance : KeyMatch → ℚ
  | .exact => 0
  | .projected _ distance | .inputs distance => distance

/-- The match one projector offers. -/
def projectedMatch (speculative actor : ActionKey) (requireCoverage : Bool)
    (projector : ActionKeyProjector)
    : Option KeyMatch :=
  if requireCoverage && !projector.canShareInFlight speculative actor then none
  else
    (projector.project speculative actor).bind fun projected =>
      if projected.action.key ≠ actor.key then none
      else
        (JsNumber.finite? projected.distance).bind fun distance =>
          if distance < 0 then none else some (.projected projector.id distance)

/-- Keep the closer of two matches, the earlier one when they are equally close. -/
def closer (best : Option KeyMatch) (offered : Option KeyMatch)
    : Option KeyMatch :=
  match best, offered with
  | some best, some offered => if best.distance ≤ offered.distance then some best else some offered
  | best, none => best
  | none, offered => offered

def actionKeyMatch (speculative actor : ActionKey) (projectors : List ActionKeyProjector)
    (requireCoverage : Bool)
    : Option KeyMatch :=
  if speculative.key = actor.key then some .exact
  else if speculative.tool ≠ actor.tool ∨ speculative.semanticsEpoch ≠ actor.semanticsEpoch
      ∨ speculative.schemaHash ≠ actor.schemaHash
      ∨ speculative.executionFingerprint ≠ actor.executionFingerprint then
    none
  else
    projectors.foldl
      (fun best projector =>
        closer best (projectedMatch speculative actor requireCoverage projector))
      none

/-- The text a projector's partition is filed under. -/
def projectionPartition (projector partition : JsString) : JsString :=
  writeData (.array [.string projector, .string partition])

def actionKeyProjectionPartitions (action : ActionKey) (projectors : List ActionKeyProjector)
    : List JsString :=
  (projectors.filterMap fun projector =>
    (projector.partition action).map (projectionPartition projector.id)).eraseDups

/-- A projection only relates keys of one partition. -/
def ActionKeyProjector.Lawful (projector : ActionKeyProjector) : Prop :=
  ∀ speculative actor,
    (projector.project speculative actor).isSome
        ∨ projector.canShareInFlight speculative actor = true
    → ∃ partition,
        projector.partition speculative = some partition
        ∧ projector.partition actor = some partition

/-- A match that is not exact comes from one of the projectors. -/
theorem exists_projectedMatch {speculative actor : ActionKey} {requireCoverage : Bool}
    {found : KeyMatch}
    (matched : actionKeyMatch speculative actor projectors requireCoverage = some found)
    (different : speculative.key ≠ actor.key)
    : ∃ projector ∈ projectors,
        (projectedMatch speculative actor requireCoverage projector).isSome := by
  have fold
      : ∀ (projectors : List ActionKeyProjector) (best : Option KeyMatch),
          (projectors.foldl
            (fun best projector =>
              closer best (projectedMatch speculative actor requireCoverage projector))
            best).isSome
          → best.isSome
            ∨ ∃ projector ∈ projectors,
                (projectedMatch speculative actor requireCoverage projector).isSome := by
    intro projectors
    induction projectors with
    | nil => exact fun best some_ => .inl some_
    | cons projector rest ih =>
        intro best result
        rcases ih _ result with now | ⟨later, member, offered⟩
        · cases offer : projectedMatch speculative actor requireCoverage projector with
          | some offered => exact .inr ⟨projector, List.mem_cons_self, by rw [offer]; rfl⟩
          | none =>
              dsimp only at now
              rw [offer] at now
              left
              cases best with
              | none => cases now
              | some best => rfl
        · exact .inr ⟨later, List.mem_cons_of_mem _ member, offered⟩
  unfold actionKeyMatch at matched
  rw [if_neg different] at matched
  split at matched
  · cases matched
  · rcases fold projectors none (by rw [matched]; rfl) with empty | offered
    · cases empty
    · exact offered

/-- A projected match shares a partition with the key it answers. -/
theorem shared_partition {speculative actor : ActionKey} {requireCoverage : Bool} {found : KeyMatch}
    (lawful : ∀ projector ∈ projectors, projector.Lawful)
    (matched : actionKeyMatch speculative actor projectors requireCoverage = some found)
    (different : speculative.key ≠ actor.key)
    : ∃ partition,
        partition ∈ actionKeyProjectionPartitions speculative projectors
        ∧ partition ∈ actionKeyProjectionPartitions actor projectors := by
  obtain ⟨projector, member, offered⟩ := exists_projectedMatch matched different
  have projects : (projector.project speculative actor).isSome := by
    unfold projectedMatch at offered
    split at offered
    · cases offered
    · cases projected : projector.project speculative actor with
      | none =>
          rw [projected] at offered
          cases offered
      | some projected => rfl
  obtain ⟨partition, before, after⟩ := lawful projector member speculative actor (.inl projects)
  refine ⟨projectionPartition projector.id partition, ?_, ?_⟩
  · exact List.mem_eraseDups.mpr (List.mem_filterMap.mpr ⟨projector, member, by rw [before]; rfl⟩)
  · exact List.mem_eraseDups.mpr (List.mem_filterMap.mpr ⟨projector, member, by rw [after]; rfl⟩)

end Matching

section Inputs

/-- Read one field of an action's input. -/
def inputField (action : ActionKey) (name : String) : Data :=
  match action.input with
  | .object fields => fieldOf fields (units name)
  | _ => .undefined

def text? : Data → Option JsString
  | .string value => some value
  | _ => none

def number? : Data → Option JsNumber
  | .number value => some value
  | _ => none

/-- Every value but these counts as true. -/
def isTruthy : Data → Bool
  | .undefined | .null | .bool false | .number .negativeZero | .number .nan | .string [] => false
  | .number (.finite value) => decide (value.value ≠ 0)
  | _ => true

def isTrue : Data → Bool
  | .bool value => value
  | _ => false

/-- The binary64 number nearest to a value in range. -/
def double (value : ℚ) : ℚ := (roundBinary64 value).getD value

def JsNumber.ofRat (value : ℚ) : JsNumber :=
  Library.JsNumber.ofDecimal (decide (value < 0)) |value|

/-- `left >= right`; false when either is not a number. -/
def JsNumber.atLeast : JsNumber → JsNumber → Bool
  | .nan, _ | _, .nan => false
  | .infinite false, _ | _, .infinite true => true
  | .infinite true, _ | _, .infinite false => false
  | left, right => decide ((finite? right).getD 0 ≤ (finite? left).getD 0)

/-- The parts of a key that every partition starts with. -/
def contextData (action : ActionKey) : List Data := [
  .string action.semanticsEpoch,
  .string action.schemaHash,
  .string action.executionFingerprint,
  .array (action.resources.map .string)
]

/-- `Object.entries` of the input without the named fields, as data. -/
def otherEntries (action : ActionKey) (left : List String) : Data :=
  match action.input with
  | .object fields =>
      .array (((ownEntries fields).filter fun field => field.1 ∉ left.map units).map fun field =>
        .array [.string field.1, field.2])
  | _ => .array []

end Inputs

section ReadRange

structure ReadActionRange where
  path : JsString
  offset : ℕ
  limit : ℕ
  last : ℚ

/-- An integer from one up to the largest safe one; anything else is the first line. -/
def normalizeReadOffset (value : Data) : ℕ :=
  match (number? value).bind JsNumber.finite? with
  | some value => if ⌊value⌋ ≤ 9007199254740991 ∧ 1 ≤ value then ⌊value⌋.toNat else 1
  | none => 1

def normalizeReadLimit (value : Data) : ℕ :=
  match (number? value).bind JsNumber.finite? with
  | some value => ⌊value⌋.toNat
  | none => 2000

def readActionRange (action : ActionKey) : Option ReadActionRange :=
  if action.tool ≠ units "read" then none
  else
    (text? (inputField action "path")).map fun path =>
      let offset := normalizeReadOffset (inputField action "offset")
      let limit := normalizeReadLimit (inputField action "limit")
      { path, offset, limit, last := double (double (offset + limit) - 1) }

def readProjectionPartition (action : ActionKey) : Option JsString :=
  (readActionRange action).map fun range =>
    writeData (.array (contextData action ++ [.string range.path]))

def readRangesShareInFlight (speculative actor : ActionKey) : Bool :=
  match readActionRange speculative, readActionRange actor with
  | some speculativeRange, some actorRange =>
      !(isUndefined (inputField actor "limit") && !isUndefined (inputField speculative "limit"))
        && decide (readProjectionPartition speculative = readProjectionPartition actor)
        && decide (speculativeRange.offset ≤ actorRange.offset)
        && decide (actorRange.last ≤ speculativeRange.last)
  | _, _ => false
where
  isUndefined : Data → Bool
    | .undefined => true
    | _ => false

/-- Narrow a cached read to the requested interval. -/
def readRangeProjector : ActionKeyProjector where
  id := units "read.range"
  partition := readProjectionPartition
  project speculative actor :=
    match readActionRange speculative, readActionRange actor with
    | some speculativeRange, some actorRange =>
        if readProjectionPartition speculative ≠ readProjectionPartition actor
            ∨ speculativeRange.limit = 0
            ∨ actorRange.offset < speculativeRange.offset
            ∨ double (speculativeRange.last + 1) < actorRange.offset then
          none
        else
          some {
            action := actor
            distance := JsNumber.ofRat
              (double ((actorRange.offset : ℚ) - speculativeRange.offset)
                + |double (speculativeRange.last - actorRange.last)|)
          }
    | _, _ => none
  canShareInFlight := readRangesShareInFlight

theorem exists_readProjectionPartition {action : ActionKey} {range : ReadActionRange}
    (read : readActionRange action = some range)
    : ∃ partition, readProjectionPartition action = some partition := by
  rw [readProjectionPartition, read]
  exact ⟨_, rfl⟩

theorem readRangeProjector_lawful : readRangeProjector.Lawful := by
  intro speculative actor related
  have shared
      : ∃ range,
          readActionRange speculative = some range
          ∧ readProjectionPartition speculative = readProjectionPartition actor := by
    rcases related with projects | shares
    · dsimp only [readRangeProjector] at projects
      split at projects
      · rename_i speculativeRange actorRange before after
        split at projects
        · cases projects
        · rename_i covered
          refine ⟨speculativeRange, before, ?_⟩
          by_contra different
          exact covered (.inl different)
      · cases projects
    · dsimp only [readRangeProjector, readRangesShareInFlight] at shares
      split at shares
      · rename_i speculativeRange actorRange before after
        simp only [Bool.and_eq_true, decide_eq_true_eq] at shares
        exact ⟨speculativeRange, before, shares.1.1.2⟩
      · cases shares
  obtain ⟨range, read, same⟩ := shared
  obtain ⟨partition, found⟩ := exists_readProjectionPartition read
  exact ⟨partition, found, same.symm.trans found⟩

end ReadRange

section BashTimeout

/-- Everything but the timeout; an operation without a command never projects. -/
def bashTimeoutPartition (action : ActionKey) : Option JsString :=
  if action.tool = units "bash" ∧ (text? (inputField action "command")).isSome then
    stableStringify (.array (contextData action ++ [otherEntries action ["timeout"]]))
  else none

def timeoutLimit (action : ActionKey) : JsNumber :=
  (number? (inputField action "timeout")).getD (.infinite false)

def bashTimeoutCovers (speculative actor : ActionKey) : Bool :=
  (bashTimeoutPartition speculative).isSome
    && decide (bashTimeoutPartition speculative = bashTimeoutPartition actor)
    && JsNumber.atLeast (timeoutLimit actor) (timeoutLimit speculative)

/-- A command that finished within its timeout finishes under any longer one. -/
def bashTimeoutProjector : ActionKeyProjector where
  id := units "bash.timeout"
  partition := bashTimeoutPartition
  project speculative actor :=
    if bashTimeoutCovers speculative actor then
      some { action := actor, distance := JsNumber.ofRat 1 }
    else none
  canShareInFlight := bashTimeoutCovers

theorem bashTimeoutProjector_lawful : bashTimeoutProjector.Lawful := by
  intro speculative actor related
  have covers : bashTimeoutCovers speculative actor = true := by
    rcases related with projects | shares
    · dsimp only [bashTimeoutProjector] at projects
      split at projects
      · rename_i covers
        exact covers
      · cases projects
    · exact shares
  simp only [bashTimeoutCovers, Bool.and_eq_true, decide_eq_true_eq] at covers
  obtain ⟨partition, found⟩ := Option.isSome_iff_exists.mp covers.1.1
  exact ⟨partition, found, covers.1.2.symm.trans found⟩

end BashTimeout

section GrepLiteral

def isWordUnit (other : CodeUnit) : Bool :=
  isDigit other || decide (65 ≤ other.val ∧ other.val ≤ 90)
    || decide (97 ≤ other.val ∧ other.val ≤ 122) || other == unit '_'

/-- The pattern is a word, blank and hyphen text, so as a regex it matches as its literal. -/
def isPlainPattern (pattern : JsString) : Bool :=
  !pattern.isEmpty
    && pattern.all fun other => isWordUnit other || other == unit ' ' || other == unit '-'

/-- A pattern within one line; one that ignores case is printable ASCII. -/
def isLinePattern (ignoreCase : Bool) (pattern : JsString) : Bool :=
  !pattern.isEmpty && pattern.all fun other =>
    if ignoreCase then decide (32 ≤ other.val ∧ other.val ≤ 126)
    else decide (other.val ≠ 13 ∧ other.val ≠ 10 ∧ other.val ≠ 65533)

/-- Everything but the pattern and the limit. -/
def grepLiteralPartition (action : ActionKey) : Option JsString :=
  (text? (inputField action "pattern")).bind fun pattern =>
    if action.tool = units "grep"
        ∧ (isTrue (inputField action "literal") || isPlainPattern pattern)
        ∧ (number? (inputField action "context")).bind JsNumber.finite? = some 0
        ∧ isLinePattern (isTruthy (inputField action "ignoreCase")) pattern then
      stableStringify (.array (contextData action ++ [otherEntries action ["pattern", "limit"]]))
    else none

def lowerUnit (other : CodeUnit) : CodeUnit :=
  if 65 ≤ other.val ∧ other.val ≤ 90 then codeUnit (other.val + 32) else other

/-- The text contains the literal; without case only printable ASCII texts are compared. -/
def grepLiteralMatches (text literal : JsString) (ignoreCase : Bool) : Bool :=
  if ignoreCase then decide (literal.map lowerUnit <:+: text.map lowerUnit)
  else decide (literal <:+: text)

/-- A complete literal search answers a search for any literal containing its own. -/
def grepLiteralProjector : ActionKeyProjector where
  id := units "grep.literal"
  partition := grepLiteralPartition
  project speculative actor :=
    match text? (inputField speculative "pattern"), text? (inputField actor "pattern") with
    | some found, some sought =>
        if (grepLiteralPartition speculative).isSome
            ∧ grepLiteralPartition speculative = grepLiteralPartition actor
            ∧ grepLiteralMatches sought found (isTrue (inputField actor "ignoreCase")) then
          some { action := actor, distance := JsNumber.ofRat ((sought.length : ℚ) - found.length) }
        else none
    | _, _ => none

theorem grepLiteralProjector_lawful : grepLiteralProjector.Lawful := by
  intro speculative actor related
  rcases related with projects | shares
  · dsimp only [grepLiteralProjector] at projects
    split at projects
    · split at projects
      · rename_i covered
        obtain ⟨partition, found⟩ := Option.isSome_iff_exists.mp covered.1
        exact ⟨partition, found, covered.2.1.symm.trans found⟩
      · cases projects
    · cases projects
  · cases shares

end GrepLiteral

/-- The projections that come with the tools. -/
def shippedProjectors : List ActionKeyProjector :=
  [readRangeProjector, bashTimeoutProjector, grepLiteralProjector]

theorem shippedProjectors_lawful : ∀ projector ∈ shippedProjectors, projector.Lawful := by
  intro projector member
  rcases List.mem_cons.mp member with read | member
  · exact read ▸ readRangeProjector_lawful
  · rcases List.mem_cons.mp member with bash | member
    · exact bash ▸ bashTimeoutProjector_lawful
    · exact List.mem_singleton.mp member ▸ grepLiteralProjector_lawful

end SpeculativeAction.ActionSemantics
