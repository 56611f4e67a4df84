import Mathlib
import SpeculativeAction.ExecutionPaths
import SpeculativeAction.StableEquality

/-! Paths into plain data, and the texts that bindings derive from paths of files. Functions and
prototypes that a plain value inherits are no data: what a path reads there is told apart by
`reachesData`.
-/

namespace SpeculativeAction.PatternBindings

open SpeculativeAction.Library SpeculativeAction.Library.PosixPath

-- Paths of files

section Files

/-- `path.basename`. -/
def basename (text : JsString) : JsString :=
  (text.rdropWhile fun char => decide (char = sep)).rtakeWhile fun char => decide (char ≠ sep)

/-- `path.dirname`. -/
def dirname (text : JsString) : JsString :=
  let body := text.tail.rdropWhile fun char => decide (char = sep)
  let kept := body.rdropWhile fun char => decide (char ≠ sep)
  if text = [] then dot
  else if kept = [] then (if isAbsolute text then [sep] else dot)
  else if isAbsolute text = true ∧ kept.length = 1 then [sep, sep]
  else text.take kept.length

/-- `path.normalize(value).replaceAll("\\", "/")`. -/
def normalizePath (value : JsString) : JsString :=
  (normalize value).map fun char => if char = unit '\\' then sep else char

/-- A logical resource, without its trailing separator; the root of a drive keeps it. -/
def normalizeLogicalPath (value : JsString) : JsString :=
  let normalized := normalize value
  let isDrive := match normalized with
    | [letter, colon, last] =>
        decide ((65 ≤ letter.val ∧ letter.val ≤ 90 ∨ 97 ≤ letter.val ∧ letter.val ≤ 122)
          ∧ colon = unit ':' ∧ last = sep)
    | _ => false
  if normalized = [sep] ∨ isDrive = true then normalized
  else if normalized.getLast? = some sep then normalized.dropLast
  else normalized

def containsLogicalPath (cwd root target : JsString) : Bool :=
  let between :=
    ExecutionPaths.relative cwd (normalizeLogicalPath root) (normalizeLogicalPath target)
  decide (between = []
    ∨ (between ≠ dotDot ∧ ¬ dotDot ++ [sep] <+: between ∧ isAbsolute between = false))

def joinPath (cwd left right : JsString) : JsString :=
  let root := normalizePath left
  let output := normalizePath right
  if containsLogicalPath cwd root output then output
  else if basename root = output then root
  else normalizePath (join root output)

/-- `value` under the directory `start`, moved under `target`: nothing when it is not under it. -/
def rebase (value start target : JsString) : List JsString :=
  let normalized := normalizePath value
  let rest := if start = [] then some normalized
    else if start ++ [sep] <+: normalized then some (normalized.drop (start.length + 1))
    else none
  match rest with
  | none | some [] => []
  | some rest => [if target = [] then rest else target ++ sep :: rest]

inductive PathTransform where
  | dirname | basename | normalizePath | stem | stripExtension
deriving DecidableEq

def isLineTerminator (char : CodeUnit) : Bool :=
  decide (char = codeUnit 10 ∨ char = codeUnit 13 ∨ char = codeUnit 0x2028
    ∨ char = codeUnit 0x2029)

/-- The name up to its first dot after any leading ones, where the rest is one line. -/
def stem (name : JsString) : JsString :=
  let dots := name.takeWhile fun char => decide (char = unit '.')
  let rest := name.dropWhile fun char => decide (char = unit '.')
  let core := rest.takeWhile fun char => decide (char ≠ unit '.')
  match rest.dropWhile fun char => decide (char ≠ unit '.') with
  | [] => name
  | _ :: extension => if core ≠ [] ∧ !extension.any isLineTerminator then dots ++ core else name

def transform (operation : PathTransform) (value : JsString) : JsString :=
  match operation with
  | .dirname => PatternBindings.dirname value
  | .basename => PatternBindings.basename value
  | .normalizePath => PatternBindings.normalizePath value
  | .stem => PatternBindings.stem (PatternBindings.basename value)
  | .stripExtension =>
      let name := PatternBindings.basename value
      value.take (value.length - name.length) ++ PatternBindings.stem name

example : dirname (units "lib/a/b.js") = units "lib/a" := by decide

example : transform .stripExtension (units "src/a.test.ts") = units "src/a" := by decide

end Files

-- Paths into data

section Data

local instance lawfulBEqNames : LawfulBEq JsString := inferInstance

/-- A key of a record or an index of an array. -/
inductive Segment where
  | key (name : JsString)
  | index (position : ℕ)
deriving DecidableEq

abbrev Path := List Segment

def unsafePathSegment : Segment → Bool
  | .key name =>
      decide (name = units "__proto__" ∨ name = units "prototype" ∨ name = units "constructor")
  | .index _ => false

/-- The methods that every array inherits beside those of an object. -/
def arrayMethods : List JsString :=
  ["at", "concat", "copyWithin", "fill", "find", "findIndex", "findLast", "findLastIndex",
    "lastIndexOf", "pop", "push", "reverse", "shift", "unshift", "slice", "sort", "splice",
    "includes", "indexOf", "join", "keys", "entries", "values", "forEach", "filter", "flat",
    "flatMap", "map", "every", "some", "reduce", "reduceRight", "toReversed", "toSorted",
    "toSpliced", "with"].map units

/-- What a path reaches: data, a function, or one of the two prototypes. -/
inductive Reached where
  | data (value : Data)
  | method
  | objectPrototype
  | arrayPrototype

/-- What an object inherits under a name. -/
def inheritedOfObject (name : JsString) : Option Reached :=
  if name = StableJson.protoKey then some .objectPrototype
  else if name ∈ StableJson.prototypeMethods then some .method
  else none

/-- What an array has under a name that is no index. -/
def ownOrInheritedOfArray (length : ℕ) (proto : Reached) (name : JsString) : Option Reached :=
  if name = units "length" then some (.data (.number (.ofDecimal false length)))
  else if name = StableJson.protoKey then some proto
  else if name ∈ arrayMethods ∨ name ∈ StableJson.prototypeMethods then some .method
  else none

/-- One segment further; a missing one ends the path. -/
def Reached.step (current : Reached) (segment : Segment) : Option Reached :=
  match current, segment with
  | .data (.array items), .index position => (items[position]?).map .data
  | .data (.array items), .key name =>
      if StableJson.isArrayIndex name = true ∧ decimalValue name < items.length then
        (items[decimalValue name]?).map .data
      else ownOrInheritedOfArray items.length .arrayPrototype name
  | .data (.object fields), .key name =>
      if name ∈ fields.map Prod.fst then some (.data (StableJson.fieldOf fields name))
      else inheritedOfObject name
  | .objectPrototype, .key name =>
      if name = StableJson.protoKey then some (.data .null) else inheritedOfObject name
  | .arrayPrototype, .key name => ownOrInheritedOfArray 0 .objectPrototype name
  | _, _ => none

/-- The value that is read. For what is no data it is a stand-in with the same text: undefined for a
function, and an empty container for a prototype, whose own fields are hidden.
-/
def Reached.value : Reached → Data
  | .data value => value
  | .method => .undefined
  | .objectPrototype => .object []
  | .arrayPrototype => .array []

/-- The value at a path, unless it is missing. -/
def getPath (value : Data) (segments : Path) : Option Data :=
  (segments.foldlM Reached.step (.data value)).map Reached.value

def Reached.isData : Reached → Bool
  | .data _ => true
  | _ => false

/-- The path leads to data or to nothing, but to no function and no prototype. -/
def reachesData (value : Data) (segments : Path) : Bool :=
  (segments.foldlM Reached.step (.data value)).all Reached.isData

/-- `current?.[segment]`, where only arrays and records matter. -/
def readSegment (current : Data) (segment : Segment) : Data :=
  match current, segment with
  | .array items, .index position => StableJson.itemOf items position
  | .array items, .key name =>
      if StableJson.isArrayIndex name then StableJson.itemOf items (decimalValue name)
      else .undefined
  | .object fields, .key name => StableJson.fieldOf fields name
  | .object fields, .index position => StableJson.fieldOf fields (decimalText position)
  | _, _ => .undefined

/-- Setting an index past the end leaves holes; past the last array index it leaves no item. -/
def setItem (items : List Data) (position : ℕ) (child : Data) : List Data :=
  if position < 4294967295 then
    (items ++ List.replicate (position + 1 - items.length) Data.undefined).set position child
  else items

/-- A key keeps its place when it is present. -/
def setField (fields : List (JsString × Data)) (name : JsString) (child : Data)
    : List (JsString × Data) :=
  OrderedMap.setEntries name child fields

/-- A copy of the container with one segment set; another kind of container starts afresh. -/
def writeSegment (current : Data) (segment : Segment) (child : Data) : Data :=
  match segment with
  | .index position =>
      match current with
      | .array items => .array (setItem items position child)
      | _ => .array (setItem [] position child)
  | .key name =>
      match current with
      | .object fields => .object (setField fields name child)
      | _ => .object (setField [] name child)

/-- The target with the value at the path; the paths that are written have a segment. -/
def withPath (current : Data) (segments : Path) (value : Data) : Data :=
  match segments with
  | [] => current
  | [segment] => writeSegment current segment value
  | segment :: next :: rest =>
      writeSegment current segment
        (withPath (readSegment current segment) (next :: rest) value)

end Data

end SpeculativeAction.PatternBindings
