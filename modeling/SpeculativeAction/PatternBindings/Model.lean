import Mathlib.Data.Rat.Floor
import SpeculativeAction.Library.NumberArithmetic
import SpeculativeAction.Library.StableSort
import SpeculativeAction.Numbers
import SpeculativeAction.PatternBindings.Paths

/-! Bindings of a learned pattern: the rows that a binding reads from the events of a context, the
units of bindings that share a collection, and the expansion of the units into weighted inputs.
-/

namespace SpeculativeAction.PatternBindings

open SpeculativeAction.Library

-- Bindings

section Bindings

inductive EventField where
  | input | output | outputPaths | outputLocations
deriving DecidableEq

/-- The fields of an event that bindings read; an absent one is undefined. -/
structure PatternAwareEvent where
  input : Data
  output : Data
  outputPaths : Data
  outputLocations : Data

def PatternAwareEvent.read (event : PatternAwareEvent) : EventField → Data
  | .input => event.input
  | .output => event.output
  | .outputPaths => event.outputPaths
  | .outputLocations => event.outputLocations

/-- How a value of a target is derived from the events before it. -/
inductive PatternAwareBinding where
  | event (relativeEvent : ℤ) (field : EventField) (path : Path)
  | each (relativeEvent : ℤ) (field : EventField) (path itemPath : Path)
  | constant (value : Data)
  | transform (operation : PathTransform) (source : PatternAwareBinding)
  | coalesce (sources : List PatternAwareBinding)
  | template (source : PatternAwareBinding) (ahead behind : JsString)
  | splice (sources : List PatternAwareBinding) (parts : List JsString)
  | rebase (source : PatternAwareBinding) (start target : JsString)
  | near (source : PatternAwareBinding) (tolerance : JsNumber)
  | join (left right : PatternAwareBinding)

/-- A binding of a target with the counts of its observed variants. -/
structure TargetBinding where
  binding : PatternAwareBinding
  variantCounts : Option (OrderedMap JsString Number)

def PatternAwareBinding.isNear : PatternAwareBinding → Bool
  | .near _ _ => true
  | _ => false

end Bindings

-- Rows

section Rows

/-- Values with the positions in the collections that they come from. -/
structure BindingRow where
  values : List Data
  sources : OrderedMap JsString ℕ

def BindingRow.single (value : Data) (sources : OrderedMap JsString ℕ) : BindingRow :=
  ⟨[value], sources⟩

/-- Two rows read one collection at different positions. -/
def BindingRow.conflicts (row next : BindingRow) : Bool :=
  next.sources.entries.any fun source =>
    row.sources.has source.1 && decide (row.sources.get? source.1 ≠ some source.2)

def BindingRow.append (row next : BindingRow) : BindingRow where
  values := row.values ++ next.values
  sources :=
    next.sources.entries.foldl (fun sources source => sources.set source.1 source.2) row.sources

/-- The choices behind a row, one of each group; the stack is popped in this order. -/
def joinFrom : List (List BindingRow) → BindingRow → List BindingRow
  | [], row => [row]
  | choices :: rest, row =>
      choices.flatMap fun next =>
        if row.conflicts next then [] else joinFrom rest (row.append next)

/-- A source row is an identity, even when two rows contain the same value. -/
def joinBindingRows (groups : List (List BindingRow)) : List BindingRow :=
  joinFrom groups ⟨[], .empty⟩

def EventField.text : EventField → JsString
  | .input => units "input"
  | .output => units "output"
  | .outputPaths => units "outputPaths"
  | .outputLocations => units "outputLocations"

/-- An integer as a number. -/
def integer (value : ℤ) : Data := .number (.ofDecimal (decide (value < 0)) value.natAbs)

def Segment.data : Segment → Data
  | .key name => .string name
  | .index position => integer position

def pathData (path : Path) : Data := .array (path.map Segment.data)

/-- `stableStringify` of what has a text. -/
def stableText (value : Data) : JsString := (StableJson.stableStringify value).getD []

/-- The identity of a collection. -/
def collectionKey (relativeEvent : ℤ) (field : EventField) (path : Path) : JsString :=
  stableText (.array [integer relativeEvent, .string field.text, pathData path])

/-- `context[context.length + relativeEvent]`. -/
def eventAt (context : List PatternAwareEvent) (relativeEvent : ℤ) : Option PatternAwareEvent :=
  let position := (context.length : ℤ) + relativeEvent
  if position < 0 then none else context[position.toNat]?

/-- The items of a collection that have a value, each with its position. -/
def eachRow (key : JsString) (itemPath : Path) (items : List Data) : List BindingRow :=
  items.zipIdx.filterMap fun item =>
    (getPath item.1 itemPath).map fun value => .single value (.ofList [(key, item.2)])

/-- The texts of a row, when all of its values are texts. -/
def textsOf : List Data → Option (List JsString)
  | [] => some []
  | .string text :: rest => (textsOf rest).map (text :: ·)
  | _ :: _ => none

/-- Two to four texts between literal parts. -/
def spliceText (parts texts : List JsString) : JsString :=
  texts.zipIdx.foldl
    (fun text value => text ++ value.1 ++ parts.getD (value.2 + 1) (units "undefined"))
    (parts.getD 0 (units "undefined"))

/-- The rows of a composite binding: each joined row of its children gives texts. -/
def composite (derive : List JsString → List JsString) (children : List (List BindingRow))
    : List BindingRow :=
  (joinBindingRows children).flatMap fun row =>
    match textsOf row.values with
    | none => []
    | some texts => (derive texts).map fun text => .single (.string text) row.sources

def firstRows : List (List BindingRow) → List BindingRow
  | [] => []
  | rows :: rest => if rows = [] then firstRows rest else rows

mutual

def bindingRows (cwd : JsString) (context : List PatternAwareEvent)
    : PatternAwareBinding → List BindingRow
  | .constant value => [.single value .empty]
  | .event relativeEvent field path =>
      match eventAt context relativeEvent with
      | none => []
      | some event =>
          match getPath (event.read field) path with
          | none => []
          | some value => [.single value .empty]
  | .each relativeEvent field path itemPath =>
      match eventAt context relativeEvent with
      | none => []
      | some event =>
          match getPath (event.read field) path with
          | some (.array items) => eachRow (collectionKey relativeEvent field path) itemPath items
          | _ => []
  | .coalesce sources => firstRows (bindingsRows cwd context sources)
  | .near source _ => bindingRows cwd context source
  | .join left right =>
      composite (fun texts => [joinPath cwd (texts.getD 0 []) (texts.getD 1 [])])
        [bindingRows cwd context left, bindingRows cwd context right]
  | .splice sources parts =>
      composite (fun texts => [spliceText parts texts]) (bindingsRows cwd context sources)
  | .rebase source start target =>
      composite (fun texts => PatternBindings.rebase (texts.getD 0 []) start target)
        [bindingRows cwd context source]
  | .template source ahead behind =>
      composite (fun texts => [ahead ++ texts.getD 0 [] ++ behind])
        [bindingRows cwd context source]
  | .transform operation source =>
      composite (fun texts => [PatternBindings.transform operation (texts.getD 0 [])])
        [bindingRows cwd context source]

def bindingsRows (cwd : JsString) (context : List PatternAwareEvent)
    : List PatternAwareBinding → List (List BindingRow)
  | [] => []
  | binding :: rest => bindingRows cwd context binding :: bindingsRows cwd context rest

end

end Rows

-- Units

section Units

local instance lawfulBEqSources : LawfulBEq JsString := inferInstance

/-- The values whose keys are new, in order. -/
def uniqueFrom {α κ : Type*} [DecidableEq κ] (keyFor : α → κ) (seen : List κ) : List α → List α
  | [] => []
  | item :: rest =>
      if keyFor item ∈ seen then uniqueFrom keyFor seen rest
      else item :: uniqueFrom keyFor (keyFor item :: seen) rest

def uniqueBy {α κ : Type*} [DecidableEq κ] (keyFor : α → κ) (values : List α) : List α :=
  uniqueFrom keyFor [] values

/-- A segment as JSON has it: a text or a safe count. -/
def segmentOf : Data → Option Segment
  | .string name => some (.key name)
  | .number (.finite number) =>
      if number.value.den = 1 ∧ 0 ≤ number.value.num
          ∧ number.value.num ≤ Number.maxSafeInteger then
        some (.index number.value.num.toNat)
      else none
  | .number .negativeZero => some (.index 0)
  | _ => none

def parsePath (text : JsString) : Option Path :=
  match jsonParse text with
  | some (.array items) => items.mapM segmentOf
  | _ => none

def decodePath (text : JsString) : Path := (parsePath text).getD []

/-- A target path, its binding and the rows that it reads. -/
structure Member where
  path : Path
  target : TargetBinding
  rows : List BindingRow

/-- Bindings that share collections, directly or through one another. -/
structure Group where
  sources : List JsString
  members : List Member

def sourcesOf (rows : List BindingRow) : List JsString :=
  rows.flatMap fun row => row.sources.keys

def Group.touches (group : Group) (sources : List JsString) : Bool :=
  sources.any fun source => decide (source ∈ group.sources)

/-- The first group that a member touches takes it in, together with the others. -/
def addMember (groups : List Group) (member : Member) : List Group :=
  let sources := sourcesOf member.rows
  match groups.filter (Group.touches · sources) with
  | [] => groups ++ [⟨sources, [member]⟩]
  | first :: others =>
      let merged : Group := ⟨first.sources ++ others.flatMap Group.sources ++ sources,
        first.members ++ others.flatMap Group.members ++ [member]⟩
      groups.takeWhile (fun group => !group.touches sources)
        ++ merged :: ((groups.dropWhile fun group => !group.touches sources).tail.filter
          fun group => !group.touches sources)

/-- The bindings of a pattern by their encoded target paths, in the order of `Object.entries`. -/
def membersOf (cwd : JsString) (bindings : OrderedMap JsString TargetBinding)
    (context : List PatternAwareEvent) : List Member :=
  (StableJson.ownEntries bindings.entries).map fun entry =>
    ⟨decodePath entry.1, entry.2, bindingRows cwd context entry.2.binding⟩

def groupsOf (members : List Member) : List Group := members.foldl addMember []

/-- One choice: the values of its target paths go together. -/
structure BindingUnit where
  targetPaths : List Path
  values : List (List Data)
  counts : Option (List ℚ)

def variantCount (counts : OrderedMap JsString Number) (index : JsString) : ℚ :=
  ((counts.get? index).map Number.nonNegativeFinite).getD 0

/-- The different values of a binding. -/
def bindingValues (rows : List BindingRow) : List Data :=
  uniqueBy StableJson.stableStringify (rows.map fun row => StableJson.itemOf row.values 0)

/-- The index of a key among the texts of some values, as a text. -/
def indexText (texts : List (Option JsString)) (key : Option JsString) : JsString :=
  if key ∈ texts then decimalText (texts.idxOf key) else units "undefined"

/-- What a member observed of the joint choices, when its own values tell them apart. -/
def memberEvidence (several : Bool) (values : List (List Data)) (member : Member) (position : ℕ)
    : Option (List ℚ) :=
  match member.target.variantCounts with
  | none => none
  | some counts =>
      let keys := values.map fun value =>
        StableJson.stableStringify (StableJson.itemOf value position)
      if several && member.target.binding.isNear then none
      else if keys.Nodup then
        let texts := (bindingValues member.rows).map StableJson.stableStringify
        some (keys.map fun key => variantCount counts (indexText texts key))
      else none

/-- Exact, injective fields identify joint choices; agreeing marginals count the same observations
once.
-/
def Group.unit (group : Group) : BindingUnit :=
  let values := uniqueBy (fun value => StableJson.stableStringify (.array value))
    ((joinBindingRows (group.members.map Member.rows)).map BindingRow.values)
  let evidence := group.members.zipIdx.filterMap fun member =>
    memberEvidence (decide (1 < group.members.length)) values member.1 member.2
  { targetPaths := group.members.map Member.path
    values := values
    counts := match evidence with
      | [] => none
      | first :: rest => if rest.all (fun counts => decide (counts = first)) then some first
          else none }

def bindingUnits (cwd : JsString) (bindings : OrderedMap JsString TargetBinding)
    (context : List PatternAwareEvent) : List BindingUnit :=
  (groupsOf (membersOf cwd bindings context)).map Group.unit

end Units

-- Weighted inputs

section Weights

structure WeightedInput where
  input : Data
  probability : ℚ

/-- The target paths of a unit can be written. -/
def writable (path : Path) : Bool := decide (path ≠ []) && !path.any unsafePathSegment

/-- The values of one choice at their target paths. -/
def BindingUnit.assign (unit : BindingUnit) (input : Data) (value : List Data) : Data :=
  unit.targetPaths.zipIdx.foldl
    (fun result target => withPath result target.1 (StableJson.itemOf value target.2)) input

def smoothing : ℚ := 1 / 2

/-- Smoothed shares of the observed variants; without counts, all alike. -/
def BindingUnit.probabilities (unit : BindingUnit) : List ℚ :=
  match unit.counts with
  | some counts =>
      let denominator :=
        ((unit.values.zipIdx.map fun value => counts.getD value.2 0).sum
          + smoothing * unit.values.length)
      unit.values.zipIdx.map fun value => (counts.getD value.2 0 + smoothing) / denominator
  | none => unit.values.map fun _ => 1 / unit.values.length

/-- `Math.trunc(limit) || 0`, counted from the end when it is negative: how many of a number of
variants are retained, or all.
-/
def retainedCount (limit : Number) (total : ℕ) : Option ℕ :=
  match limit with
  | .finite value =>
      let last : ℤ := if value < 0 then ⌈value⌉ else ⌊value⌋
      some (if last < 0 then total + last else last).toNat
  | .infinite false => none
  | .infinite true | .nan => some 0

/-- A variant with a value for the next unit, and its probability. -/
structure RankedVariant where
  variant : WeightedInput
  value : List Data
  probability : ℚ

/-- The greater probability first. -/
def rank (left right : RankedVariant) : Bool := decide (right.probability ≤ left.probability)

def BindingUnit.expand (unit : BindingUnit) (variant : WeightedInput) : List RankedVariant :=
  (unit.values.zip unit.probabilities).map fun value =>
    ⟨variant, value.1, variant.probability * value.2⟩

/-- A row cannot contribute more than the global beam; stable product ordering preserves ties. -/
def pruneRow (retained : Option ℕ) (expanded : List RankedVariant) : List RankedVariant :=
  match retained with
  | none => expanded
  | some count =>
      if expanded.length ≤ count then expanded else (expanded.mergeSort rank).take count

def BindingUnit.complete (unit : BindingUnit) (ranked : RankedVariant) : WeightedInput :=
  ⟨unit.assign ranked.variant.input ranked.value, ranked.probability⟩

/-- One unit of several values: every variant by every value, ranked and cut off. -/
def BindingUnit.choose (limit : Number) (unit : BindingUnit) (variants : List WeightedInput)
    : List WeightedInput :=
  let retained := retainedCount limit (variants.length * unit.values.length)
  let ranked := variants.flatMap fun variant => pruneRow retained (unit.expand variant)
  (takeUpTo retained (ranked.mergeSort rank)).map unit.complete

def applyUnits (limit : Number) : List BindingUnit → List WeightedInput → List WeightedInput
  | [], variants => variants
  | unit :: rest, variants =>
      if unit.targetPaths.any fun path => !writable path then []
      else match unit.values with
        | [] => []
        | [value] =>
            applyUnits limit rest
              (variants.map fun variant => { variant with input := unit.assign variant.input value })
        | _ => applyUnits limit rest (unit.choose limit variants)

def applyWeightedBindings (cwd : JsString) (bindings : OrderedMap JsString TargetBinding)
    (context : List PatternAwareEvent) (limit : Number) : List WeightedInput :=
  applyUnits limit (bindingUnits cwd bindings context) [⟨.object [], 1⟩]

end Weights

-- Replay

section Replay

/-- `Math.abs(left - right) <= tolerance`. -/
def withinTolerance (left right tolerance : JsNumber) : Bool :=
  let difference := left.sub right
  if tolerance = .infinite false then decide (difference ≠ .nan)
  else match difference.value?, tolerance.value? with
    | some difference, some tolerance => decide (|difference| ≤ tolerance)
    | _, _ => false

/-- `stableEqual`: one object is also equal to itself by its structure. A missing value is a
symbol, and equal to itself alone.
-/
def sameValue : Option Data → Option Data → Bool
  | some left, some right => StableJson.stableEqual false left right
  | none, none => true
  | _, _ => false

def bindingValueMatches (binding : PatternAwareBinding) (value : Data) (target : Option Data)
    : Bool :=
  match binding with
  | .near _ tolerance =>
      match value, target with
      | .number value, some (.number target) => withinTolerance value target tolerance
      | _, _ => false
  | _ => sameValue (some value) target

/-- The rows of a member that stand for what the target has at its path. -/
def Member.matching (target : Data) (member : Member) : List BindingRow :=
  member.rows.filter fun row =>
    bindingValueMatches member.target.binding (StableJson.itemOf row.values 0)
      (getPath target member.path)

def bindingMatches (cwd : JsString) (bindings : OrderedMap JsString TargetBinding)
    (context : List PatternAwareEvent) (target : Data) : Bool :=
  !(joinBindingRows ((membersOf cwd bindings context).map (Member.matching target))).isEmpty

end Replay

end SpeculativeAction.PatternBindings
