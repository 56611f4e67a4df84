import Mathlib.Algebra.Order.Field.Basic
import SpeculativeAction.Numbers
import SpeculativeAction.Library.Json

/-! The count trie of a sequence predictor: evidence per bounded suffix, decayed lazily, and an
interpolated escape over the suffixes of a history. Counts are exact, in any ordered field; the
power of two and the collation of texts come from the host.
-/

namespace SpeculativeAction.PpmTrie

open SpeculativeAction.Library

-- Records

section Records

variable {V : Type*}

/-- The key is an array index, as integers write themselves. -/
def arrayIndex? (key : JsString) : Option ℕ :=
  if key = decimalText (decimalValue key) ∧ decimalValue key < 2 ^ 32 - 1 then
    some (decimalValue key)
  else none

/-- `Object.entries` of a record: array indices first, by value, and the other keys as they came. -/
def recordEntries (fields : OrderedMap JsString V) : List (JsString × V) :=
  let indices := fields.entries.filter fun field => (arrayIndex? field.1).isSome
  let names := fields.entries.filter fun field => !(arrayIndex? field.1).isSome
  indices.mergeSort
      (fun left right => decide ((arrayIndex? left.1).getD 0 ≤ (arrayIndex? right.1).getD 0))
    ++ names

end Records

-- The trie

section Trie

structure TargetCount (K : Type*) where
  count : K
  lastSeen : ℕ

structure ContextCounts (K : Type*) where
  context : List JsString
  targets : OrderedMap JsString (TargetCount K)
  lastSeen : ℕ

/-- Only populated contexts own state. -/
structure PpmCountTrie (K : Type*) where
  order : ℕ
  counts : OrderedMap JsString (ContextCounts K)

structure PpmCountTrieRow (K : Type*) where
  context : List JsString
  counts : OrderedMap JsString K
  lastSeen : ℕ
  targetLastSeen : Option (OrderedMap JsString ℕ)

/-- `JSON.stringify(context)`. -/
def contextKey (context : List JsString) : JsString :=
  writeData (.array (context.map Data.string))

def isPositive : Number → Bool
  | .finite value => decide (0 < value)
  | .infinite negative => !negative
  | .nan => false

/-- Up to the first deterministic element. -/
def cutDeterministic {α : Type*} (deterministic : α → Bool) : List α → List α
  | [] => []
  | suffix :: longer =>
      if deterministic suffix then [suffix] else suffix :: cutDeterministic deterministic longer

/-- The shortest deterministic suffix behind the first one is preferred to its extensions. -/
def preferShortest {α : Type*} (deterministic : α → Bool) : List α → List α
  | [] => []
  | shortest :: longer => shortest :: cutDeterministic deterministic longer

variable {K : Type*} [Field K] [LinearOrder K]

/-- The evidence of a target, read at a time. -/
def decayedCount (pow2 : ℚ → K) (value : TargetCount K) (sequence halfLife : Number) : K :=
  match sequence, halfLife with
  | .finite sequence, .finite halfLife =>
      if halfLife ≤ 0 then value.count
      else value.count * pow2 (-max 0 (sequence - value.lastSeen) / halfLife)
  | _, _ => value.count

/-- The evidence of every target, advanced to a time. -/
def advanceTargets (pow2 : ℚ → K) (lastSeen : ℕ) (halfLife : Number)
    (targets : OrderedMap JsString (TargetCount K)) : OrderedMap JsString (TargetCount K) :=
  targets.mapValues fun value => ⟨decayedCount pow2 value (.finite lastSeen) halfLife, lastSeen⟩

def ContextCounts.put (current : ContextCounts K) (target : JsString) (count : K) (lastSeen : ℕ)
    : ContextCounts K :=
  { current with
    targets := current.targets.set target ⟨count, lastSeen⟩
    lastSeen := max current.lastSeen lastSeen }

/-- All sufficient statistics are advanced before a new observation is added. -/
def ContextCounts.advance (pow2 : ℚ → K) (current : ContextCounts K) (lastSeen : ℕ)
    (halfLife : Number) : ContextCounts K :=
  if isPositive halfLife = true ∧ current.lastSeen < lastSeen then
    { current with targets := advanceTargets pow2 lastSeen halfLife current.targets }
  else current

def ContextCounts.observe (pow2 : ℚ → K) (current : ContextCounts K) (target : JsString)
    (lastSeen : ℕ) (halfLife : Number) : ContextCounts K :=
  let advanced := current.advance pow2 lastSeen halfLife
  let previous := advanced.targets.get? target
  advanced.put target
    (min (Number.maxSafeInteger : K) ((previous.map TargetCount.count).getD 0 + 1))
    (max ((previous.map TargetCount.lastSeen).getD 0) lastSeen)

namespace PpmCountTrie

def create (maxOrder : Number) : PpmCountTrie K where
  order := maxOrder.nonNegativeCount
  counts := .empty

def size (trie : PpmCountTrie K) : ℕ := trie.counts.keys.length

/-- The suffixes of a history up to the order, the shortest first. -/
def suffixes (trie : PpmCountTrie K) (history : List JsString) : List (List JsString) :=
  (List.range (min history.length trie.order + 1)).map fun length =>
    history.drop (history.length - length)

/-- The counts of a context; without any, fresh ones. -/
def context (trie : PpmCountTrie K) (context : List JsString) : ContextCounts K :=
  (trie.counts.get? (contextKey context)).getD ⟨context, .empty, 0⟩

def observeContext (pow2 : ℚ → K) (target : JsString) (lastSeen : ℕ) (halfLife : Number)
    (trie : PpmCountTrie K) (context : List JsString) : PpmCountTrie K :=
  { trie with
    counts := trie.counts.set (contextKey context)
      ((trie.context context).observe pow2 target lastSeen halfLife) }

def observe (pow2 : ℚ → K) (trie : PpmCountTrie K) (history : List JsString) (target : JsString)
    (sequence halfLife : Number) : PpmCountTrie K :=
  if target = [] then trie
  else
    (trie.suffixes history).foldl
      (observeContext pow2 target sequence.nonNegativeCount halfLife) trie

/-- Replace one exact context's evidence, without changing any suffix counts. -/
def setCount (trie : PpmCountTrie K) (context : List JsString) (target : JsString) (count : K)
    (lastSeen : ℕ) : PpmCountTrie K :=
  if target ≠ [] ∧ context.length ≤ trie.order ∧ 0 < count then
    { trie with
      counts := trie.counts.set (contextKey context)
        ((trie.context context).put target (min (Number.maxSafeInteger : K) count) lastSeen) }
  else trie

/-- The populated suffixes that take part in an estimate, the shortest first. -/
def usedSuffixes (trie : PpmCountTrie K) (history : List JsString) : List (ContextCounts K) :=
  preferShortest (fun suffix => decide (suffix.targets.keys.length = 1))
    ((trie.suffixes history).filterMap fun context => trie.counts.get? (contextKey context))

/-- One suffix adds its share of what remains, and leaves the rest to the shorter ones. -/
def blend (pow2 : ℚ → K) (sequence halfLife : Number) (state : OrderedMap JsString K × K)
    (suffix : ContextCounts K) : OrderedMap JsString K × K :=
  let weighted := suffix.targets.entries.map fun entry =>
    (entry.1, decayedCount pow2 entry.2 sequence halfLife)
  let total := (weighted.map Prod.snd).sum
  let counted := weighted.filter fun entry => decide (0 < entry.2)
  let distinct := counted.length
  if total ≤ 0 ∨ distinct = 0 then state
  else
    (counted.foldl
        (fun estimates entry =>
          estimates.set entry.1
            ((estimates.get? entry.1).getD 0 + state.2 * (entry.2 / (total + distinct))))
        state.1,
      state.2 * (distinct / (total + distinct)))

def clampProbability (value : K) : K := max 0 (min 1 value)

def distribution (pow2 : ℚ → K) (trie : PpmCountTrie K) (history : List JsString)
    (sequence halfLife : Number) : OrderedMap JsString K :=
  if trie.counts.has (units "[]") then
    ((trie.usedSuffixes history).reverse.foldl (blend pow2 sequence halfLife)
      (.empty, 1)).1.mapValues clampProbability
  else .empty

-- Snapshots

def total (row : ContextCounts K) : K := (row.targets.values.map TargetCount.count).sum

/-- The order of the ranking: the empty context, then more evidence, longer contexts, later ones,
and the text of the key.
-/
def compareRank (localeCompare : JsString → JsString → Ordering)
    (left right : JsString × ContextCounts K) : Ordering :=
  (compare (decide (right.2.context = [])) (decide (left.2.context = []))).then
    ((compare (total right.2) (total left.2)).then
      ((compare right.2.context.length left.2.context.length).then
        ((compare right.2.lastSeen left.2.lastSeen).then (localeCompare left.1 right.1))))

def ranked (localeCompare : JsString → JsString → Ordering) (trie : PpmCountTrie K)
    : List (JsString × ContextCounts K) :=
  trie.counts.entries.mergeSort fun left right => (compareRank localeCompare left right).isLE

def snapshotRow (localeCompare : JsString → JsString → Ordering) (row : ContextCounts K)
    : PpmCountTrieRow K where
  context := row.context
  counts :=
    .ofList ((row.targets.entries.mergeSort fun left right =>
      (localeCompare left.1 right.1).isLE).map fun entry => (entry.1, entry.2.count))
  lastSeen := row.lastSeen
  targetLastSeen :=
    if row.targets.values.any fun value => decide (value.lastSeen ≠ row.lastSeen) then
      some (row.targets.mapValues TargetCount.lastSeen)
    else none

/-- How many contexts a bound keeps: at least one, or all. -/
def contextLimit : Number → Option ℕ
  | .finite limit => some (max 1 ⌊limit⌋).toNat
  | _ => none

def snapshot (localeCompare : JsString → JsString → Ordering) (trie : PpmCountTrie K)
    (maxContexts : Number) : List (PpmCountTrieRow K) :=
  let kept := match contextLimit maxContexts with
    | some limit => (trie.ranked localeCompare).take limit
    | none => trie.ranked localeCompare
  kept.map fun entry => snapshotRow localeCompare entry.2

def restoreRow (trie : PpmCountTrie K) (row : PpmCountTrieRow K) : PpmCountTrie K :=
  (recordEntries row.counts).foldl
    (fun trie field =>
      trie.setCount row.context field.1 field.2
        ((row.targetLastSeen.bind fun times => times.get? field.1).getD row.lastSeen))
    trie

/-- Rows of another shape are passed over; a snapshot has none. -/
def restore (trie : PpmCountTrie K) (rows : List (PpmCountTrieRow K)) : PpmCountTrie K :=
  rows.foldl restoreRow { trie with counts := .empty }

def trim (localeCompare : JsString → JsString → Ordering) (trie : PpmCountTrie K)
    (maxContexts : Number) : PpmCountTrie K :=
  match maxContexts with
  | .infinite false => trie
  | .nan => trie.restore (trie.snapshot localeCompare .nan)
  | .finite _ | .infinite true =>
      let limit := (contextLimit maxContexts).getD 1
      if trie.size ≤ limit then trie
      else
        { trie with
          counts := (((trie.ranked localeCompare).drop limit).map Prod.fst).foldl
            OrderedMap.delete trie.counts }

end PpmCountTrie

end Trie

end SpeculativeAction.PpmTrie
