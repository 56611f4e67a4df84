import SpeculativeAction.Numbers
import SpeculativeAction.Library.TransitionSystem
import SpeculativeAction.Library.InvertedIndex
import SpeculativeAction.ActionSemantics.Projection

/-! The candidate store: registrations of each scope, the partitions that index them and the
operations on both. A record is referred to by the order of its creation; entries are
compared by reference. Waking the waiters of a scope runs foreign code, which may call the
store again, so an operation that wakes them midway is a sequence of smaller ones.
-/

namespace SpeculativeAction.CandidateStore

open SpeculativeAction.Library
open SpeculativeAction.ActionSemantics

section Partitions

/-- The names an entry can be filed under. -/
inductive PartitionName where
  | pending
  | exact (key : JsString)
  | inputs (descendants : Bool) (path : JsString)
  | view (action : JsString)
  | projection (projector partition : JsString)
deriving DecidableEq

/-- The partition as the store spells it. -/
def PartitionName.text : PartitionName → JsString
  | .pending => units "pending"
  | .exact key => units "exact:" ++ key
  | .inputs true path => units "inputs:tree:" ++ path
  | .inputs false path => units "inputs:path:" ++ path
  | .view action => units "view:" ++ action
  | .projection projector partition => projectionPartition projector partition

/-- The spelling of a resolved physical path, with forward slashes. -/
def filesystemPathKey (path : PathModule) (value : JsString) : JsString :=
  (path.resolve [value]).map fun other => if other = path.separator then unit '/' else other

def inputPartition (path : PathModule) (resource : JsString) (descendants : Bool := false)
    : JsString :=
  (PartitionName.inputs descendants (filesystemPathKey path resource)).text

end Partitions

section State

inductive ResultCacheSegment where
  | cold | hot
deriving DecidableEq, Repr

structure ResultCacheEvidence where
  segment : ResultCacheSegment
  insertedAt : Number
  actorHits : ℕ
  lastActorHitAt : Option Number := none
deriving DecidableEq

/-- One registration, from its insertion to its deletion. -/
structure IndexedEntry (Entry : Type) where
  entry : Entry
  memberships : List JsString
  inputs : Bool := false
  recency : ℕ
  result : Option ResultCacheEvidence := none

/-- The registrations of one scope by id, and the partitions that refer to them. -/
structure IndexedScope where
  entries : OrderedMap JsString ℕ
  partitions : InvertedIndex JsString ℕ

def IndexedScope.empty : IndexedScope := { entries := .empty, partitions := .empty }

/-- Records are never reused: one that was deleted keeps its place. -/
structure Store (Scope Entry : Type) where
  scopes : OrderedMap Scope IndexedScope
  records : List (IndexedEntry Entry)
  sequence : ℕ

/-- What an entry says about itself and the collaborators the store was built with. -/
structure Settings (Entry : Type) where
  id : Entry → JsString
  key : Entry → Option ActionKey
  projectors : List ActionKeyProjector
  path : PathModule

variable {Scope Entry : Type} [DecidableEq Scope] [DecidableEq Entry]

def Store.empty : Store Scope Entry := { scopes := .empty, records := [], sequence := 0 }

/-- The entry registered under an id. -/
def Store.get (store : Store Scope Entry) (scope : Scope) (id : JsString) : Option Entry :=
  (store.scopes.get? scope).bind fun state =>
    (state.entries.get? id).bind fun record =>
      store.records[record]?.map (·.entry)

/-- The record of an entry, unless its id belongs to another entry. -/
def Store.record (settings : Settings Entry) (store : Store Scope Entry) (scope : Scope)
    (entry : Entry)
    : Option ℕ :=
  (store.scopes.get? scope).bind fun state =>
    (state.entries.get? (settings.id entry)).bind fun record =>
      if store.records[record]?.map (·.entry) = some entry then some record else none

/-- The records of a scope, in the order of their ids' registration. -/
def Store.registered (store : Store Scope Entry) (scope : Scope) : List ℕ :=
  match store.scopes.get? scope with
  | some state => state.entries.values
  | none => []

/-- The records a scope has filed under a key. -/
def Store.members (store : Store Scope Entry) (scope : Scope) (key : JsString) : List ℕ :=
  match store.scopes.get? scope with
  | some state => state.partitions.members key
  | none => []

def Store.values (store : Store Scope Entry) (scope : Scope) : List Entry :=
  (store.registered scope).filterMap fun record => store.records[record]?.map (·.entry)

/-- The entries whose result is in the cache. -/
def Store.cached (store : Store Scope Entry) (scope : Scope) : List Entry :=
  (store.registered scope).filterMap fun record =>
    store.records[record]?.bind fun indexed =>
      if indexed.result.isSome then some indexed.entry else none

def Store.pending (store : Store Scope Entry) (scope : Scope) : List Entry :=
  (store.members scope PartitionName.pending.text).filterMap fun record =>
    store.records[record]?.map (·.entry)

/-- Change one record in place. -/
def Store.modify (store : Store Scope Entry) (record : ℕ)
    (change : IndexedEntry Entry → IndexedEntry Entry)
    : Store Scope Entry :=
  { store with records := store.records.modify record change }

/-- Change the partitions of one scope in place. -/
def Store.modifyPartitions (store : Store Scope Entry) (scope : Scope)
    (change : InvertedIndex JsString ℕ → InvertedIndex JsString ℕ)
    : Store Scope Entry :=
  match store.scopes.get? scope with
  | some state =>
      {
        store with
        scopes := store.scopes.set scope { state with partitions := change state.partitions }
      }
  | none => store

end State

section Operations

variable {Scope Entry : Type} [DecidableEq Scope] [DecidableEq Entry]

/-- File a record under several keys, on both sides. -/
def index (store : Store Scope Entry) (scope : Scope) (record : ℕ) (keys : List JsString)
    : Store Scope Entry :=
  (store.modifyPartitions scope fun partitions => partitions.addAll keys record).modify record
    fun indexed =>
      { indexed with memberships := InvertedIndex.insertMembers indexed.memberships keys }

def unindex (store : Store Scope Entry) (scope : Scope) (record : ℕ) (keys : List JsString)
    : Store Scope Entry :=
  (store.modifyPartitions scope fun partitions => partitions.removeAll keys record).modify record
    fun indexed =>
      { indexed with memberships := InvertedIndex.removeMembers indexed.memberships keys }

/-- The store with a new record under a free id, not yet filed anywhere. -/
def register (settings : Settings Entry) (store : Store Scope Entry) (scope : Scope) (entry : Entry)
    : Store Scope Entry :=
  let state := (store.scopes.get? scope).getD .empty
  {
    scopes := store.scopes.set scope
      { state with entries := state.entries.set (settings.id entry) store.records.length }
    records := store.records ++ [{ entry, memberships := [], recency := store.sequence }]
    sequence := store.sequence + 1
  }

/-- Register an entry unless its id is taken; the entry that holds the id is returned. -/
def add (settings : Settings Entry) (store : Store Scope Entry) (scope : Scope) (entry : Entry)
    (partitions : List JsString)
    : Store Scope Entry × Option Entry :=
  let state := (store.scopes.get? scope).getD .empty
  match state.entries.get? (settings.id entry) with
  | some existing => (store, store.records[existing]?.map (·.entry))
  | none =>
      let exact := ((settings.key entry).map fun key => (PartitionName.exact key.key).text).toList
      (index (register settings store scope entry) scope store.records.length
        (PartitionName.pending.text :: exact ++ partitions), none)

def insert (settings : Settings Entry) (store : Store Scope Entry) (scope : Scope) (entry : Entry)
    : Store Scope Entry × Option Entry :=
  match store.get scope (settings.id entry) with
  | some existing => (store, some existing)
  | none =>
      let partitions := match settings.key entry with
        | some key => actionKeyProjectionPartitions key settings.projectors
        | none => []
      add settings store scope entry partitions

/-- A path and its ancestors; a parent that is not shorter is the path itself. -/
def ancestors (path : PathModule) : ℕ → JsString → List JsString
  | 0, current => [current]
  | fuel + 1, current =>
      let parent := path.dirname current
      if parent = current then [current] else current :: ancestors path fuel parent

/-- Note the records filed under one key at a depth, the smallest depth last. -/
def noteInputs (state : IndexedScope) (inputs : OrderedMap ℕ ℕ) (key : JsString) (depth : ℕ)
    : OrderedMap ℕ ℕ :=
  (state.partitions.members key).foldl
    (fun inputs record => inputs.set record (min ((inputs.get? record).getD depth) depth))
    inputs

/-- The owners of retained inputs, with how far above a resource their input lies. -/
def inputRecords (settings : Settings Entry) (store : Store Scope Entry) (scope : Scope)
    (resources : List JsString)
    : OrderedMap ℕ ℕ :=
  match store.scopes.get? scope with
  | none => .empty
  | some state =>
      let owners := state.entries.values.filter fun record =>
        store.records[record]?.any (·.inputs)
      let inputs := owners.foldl (fun inputs record => inputs.set record 1024) .empty
      resources.foldl
        (fun inputs resource =>
          let current := settings.path.resolve [resource]
          (ancestors settings.path current.length current).zipIdx.foldl
            (fun inputs (current, depth) =>
              let keys :=
                if depth = 0 then
                  [inputPartition settings.path current, inputPartition settings.path current true]
                else [inputPartition settings.path current true]
              keys.foldl (fun inputs key => noteInputs state inputs key depth) inputs)
            inputs)
        inputs

structure CandidateLookup (Entry : Type) where
  entry : Entry
  found : KeyMatch

/-- A lookup with the record it was found at. -/
structure RankedLookup (Entry : Type) extends CandidateLookup Entry where
  indexed : ℕ
  recency : ℕ

/-- Closer matches first; of equally close ones the most recently used first. -/
def RankedLookup.before (left right : RankedLookup Entry) : Bool :=
  decide (left.found.distance < right.found.distance
    ∨ left.found.distance = right.found.distance ∧ right.recency ≤ left.recency)

/-- The absolute paths of an action's resources. -/
def resourcePaths (path : PathModule) (action : ActionKey) : List JsString :=
  action.resources.flatMap fun resource =>
    if action.resourceRoot.isSome || path.isAbsolute resource then
      [path.resolve [action.resourceRoot.getD [], resource]]
    else []

/-- How a record answers an action: by its key, or by what it retains. -/
def answer (settings : Settings Entry) (action : ActionKey) (requireCoverage : Option (Entry → Bool))
    (inputs : OrderedMap ℕ ℕ) (viewed : Bool) (record : ℕ) (indexed : IndexedEntry Entry)
    : Option KeyMatch :=
  let coverage := requireCoverage.any fun required => required indexed.entry
  ((settings.key indexed.entry).bind fun key =>
      actionKeyMatch key action settings.projectors coverage).or
    (if !coverage && (inputs.has record || viewed) then
      some (.inputs (9007199254740991 - 1024 + min ((inputs.get? record).getD 0) 1024 : ℕ))
    else none)

/-- The owners of inputs a lookup consults. -/
def consultedInputs (settings : Settings Entry) (store : Store Scope Entry) (scope : Scope)
    (action : ActionKey) (includeInputs : Bool)
    : OrderedMap ℕ ℕ :=
  if includeInputs then inputRecords settings store scope (resourcePaths settings.path action)
  else .empty

/-- The owners of a view of the action a lookup consults. -/
def consultedViews (store : Store Scope Entry) (scope : Scope) (action : ActionKey)
    (includeInputs : Bool)
    : List ℕ :=
  if includeInputs then store.members scope (PartitionName.view action.key).text else []

/-- The lookup of one candidate; a record that is no longer registered answers nothing. -/
def rank (settings : Settings Entry) (store : Store Scope Entry) (scope : Scope)
    (action : ActionKey) (requireCoverage : Option (Entry → Bool)) (includeInputs : Bool)
    (record : ℕ)
    : Option (RankedLookup Entry) :=
  store.records[record]?.bind fun indexed =>
    if store.record settings scope indexed.entry ≠ some record then none
    else
      (answer settings action requireCoverage
          (consultedInputs settings store scope action includeInputs)
          (decide (record ∈ consultedViews store scope action includeInputs)) record indexed).map
        fun found =>
          { entry := indexed.entry, found, indexed := record, recency := indexed.recency }

def lookupRecords (settings : Settings Entry) (store : Store Scope Entry) (scope : Scope)
    (action : ActionKey) (partitions : List JsString)
    (requireCoverage : Option (Entry → Bool) := none) (includeInputs : Bool := false)
    : List (RankedLookup Entry) :=
  let candidates := InvertedIndex.insertMembers []
    (store.members scope (PartitionName.exact action.key).text
      ++ (consultedInputs settings store scope action includeInputs).keys
      ++ consultedViews store scope action includeInputs
      ++ partitions.flatMap (store.members scope))
  (candidates.filterMap
      (rank settings store scope action requireCoverage includeInputs)).mergeSort
    RankedLookup.before

def lookup (settings : Settings Entry) (store : Store Scope Entry) (scope : Scope)
    (action : ActionKey) (requireCoverage : Option (Entry → Bool)) (includeInputs : Bool := true)
    : List (CandidateLookup Entry) :=
  (lookupRecords settings store scope action
    (actionKeyProjectionPartitions action settings.projectors) requireCoverage includeInputs).map
    (·.toCandidateLookup)

/-- An exact match first, then the others, in the order they were found. -/
def exactFirst (left right : RankedLookup Entry) : Bool :=
  decide (left.found = .exact) || !decide (right.found = .exact)

/-- Reuse a registration that answers the key, else register the created entry. -/
def getOrCreate (settings : Settings Entry) (store : Store Scope Entry) (scope : Scope)
    (key : ActionKey) (create : Entry)
    (canReuse : Entry → KeyMatch → Bool := fun _ found => decide (found = .exact))
    : Store Scope Entry × CandidateLookup Entry × Bool :=
  let partitions := actionKeyProjectionPartitions key settings.projectors
  let reusable := ((lookupRecords settings store scope key partitions).mergeSort exactFirst).find?
    fun ranked => canReuse ranked.entry ranked.found
  match reusable with
  | some ranked => (store, ranked.toCandidateLookup, false)
  | none =>
      let (store, existing) := add settings store scope create partitions
      (store, { entry := existing.getD create, found := .exact }, existing.isNone)

/-- Revoke named inputs; the owner keeps its result and its other inputs. -/
def invalidateInputs (settings : Settings Entry) (store : Store Scope Entry) (scope : Scope)
    (entry : Entry) (resources : List JsString)
    : Store Scope Entry :=
  match store.record settings scope entry with
  | some record =>
      if resources = [] then store
      else
        unindex store scope record
          (resources.flatMap fun resource =>
            [inputPartition settings.path resource, inputPartition settings.path resource true])
  | none => store

/-- A sealed query stays addressable after the inputs that produced it are revoked. -/
def indexView (settings : Settings Entry) (store : Store Scope Entry) (scope : Scope)
    (entry : Entry) (actionKey : JsString) (retained : Bool)
    : Store Scope Entry :=
  match store.record settings scope entry with
  | some record =>
      let key := (PartitionName.view actionKey).text
      if retained then index store scope record [key] else unindex store scope record [key]
  | none => store

def delete (settings : Settings Entry) (store : Store Scope Entry) (scope : Scope) (entry : Entry)
    : Store Scope Entry × Bool :=
  match store.record settings scope entry, store.scopes.get? scope with
  | some record, some state =>
      let entries := state.entries.delete (settings.id entry)
      let released := unindex { store with scopes := store.scopes.set scope { state with entries } }
        scope record ((store.records[record]?.map (·.memberships)).getD [])
      (if entries.keys = [] then { released with scopes := released.scopes.delete scope }
        else released, true)
  | _, _ => (store, false)

/-- What a finished branch says about the inputs it retains. -/
structure BranchInputs where
  inputSource : Bool
  reconstruct : Bool
  inputResources : Option (List (JsString × Bool))

/-- Settle a registered entry: its work is no longer pending and its result is cached. -/
def settleRegistered (settings : Settings Entry) (store : Store Scope Entry) (scope : Scope)
    (entry : Entry) (branch : BranchInputs) (shared : Bool) (now : Number)
    : Store Scope Entry :=
  match store.record settings scope entry with
  | none => store
  | some record =>
      let settled := (unindex store scope record [PartitionName.pending.text]).modify record
        fun indexed => {
          indexed with
          result := some (indexed.result.getD { segment := .cold, insertedAt := now, actorHits := 0 })
        }
      let owns := (store.records[record]?.map (·.inputs)).getD false
      if shared && !owns && (branch.inputSource || branch.reconstruct) then
        (index settled scope record
          ((branch.inputResources.getD []).map fun input =>
            inputPartition settings.path input.1 input.2)).modify record
          fun indexed => { indexed with inputs := true }
      else settled

/-- Settle an entry, registering it first if it is not; registering wakes the waiters. -/
def settle (settings : Settings Entry) (store : Store Scope Entry) (scope : Scope) (entry : Entry)
    (branch : BranchInputs) (now : Number) (shared : Bool := true)
    : Store Scope Entry :=
  settleRegistered settings (insert settings store scope entry).1 scope entry branch shared now

end Operations

section Retention

variable {Scope Entry : Type} [DecidableEq Scope] [DecidableEq Entry]

structure ResultCacheLimits where
  maxEntries : Number
  maxBytes : Number
  hotFraction : Option Number := none

/-- What the store asks of its surroundings while it retires entries. -/
structure Retirement (Entry : Type) where
  estimatedBytes : Entry → Number
  score : Entry → ResultCacheEvidence → Number → Number
  now : Number
  canRetire : Entry → Bool := fun _ => true

structure RankedEntry (Entry : Type) where
  entry : Entry
  indexed : ℕ
  evidence : ResultCacheEvidence
  value : ℚ

/-- Cold entries before hot ones, then by value. -/
def RankedEntry.before (left right : RankedEntry Entry) : Bool :=
  match left.evidence.segment, right.evidence.segment with
  | .cold, .hot => true
  | .hot, .cold => false
  | _, _ => decide (left.value ≤ right.value)

/-- Retire ranked entries until the rest is within the budget. -/
def retireRanked (settings : Settings Entry) (retirement : Retirement Entry)
    (retire : Store Scope Entry → ℕ → Entry → Store Scope Entry) (scope : Scope)
    (maxEntries maxBytes : ℕ)
    : List (RankedEntry Entry) → Store Scope Entry → ℕ → ℚ → Store Scope Entry × List Entry
  | [], store, _, _ => (store, [])
  | item :: rest, store, count, bytes =>
      if count ≤ maxEntries ∧ bytes ≤ maxBytes then (store, [])
      else if retirement.canRetire item.entry
          ∧ store.record settings scope item.entry = some item.indexed
          ∧ (store.records[item.indexed]?.bind (·.result)) = some item.evidence then
        let size := (retirement.estimatedBytes item.entry).nonNegativeFinite
        let (after, retired) := retireRanked settings retirement retire scope maxEntries maxBytes
          rest (retire store item.indexed item.entry) (count - 1) (double (bytes - size))
        (after, item.entry :: retired)
      else
        retireRanked settings retirement retire scope maxEntries maxBytes rest store count bytes

/-- Rank once; protected results still occupy the budget. -/
def retireExcess (settings : Settings Entry) (retirement : Retirement Entry)
    (store : Store Scope Entry) (scope : Scope) (entries : List Entry) (limits : ResultCacheLimits)
    (retire : Store Scope Entry → ℕ → Entry → Store Scope Entry)
    : Store Scope Entry × List Entry :=
  let bytes := entries.foldl
    (fun total entry => double (total + (retirement.estimatedBytes entry).nonNegativeFinite)) 0
  let maxEntries := limits.maxEntries.nonNegativeCount
  let maxBytes := limits.maxBytes.nonNegativeCount
  if entries.length ≤ maxEntries ∧ bytes ≤ maxBytes then (store, [])
  else
    let ranked := entries.filterMap fun entry =>
      (store.record settings scope entry).bind fun record =>
        (store.records[record]?.bind (·.result)).bind fun evidence =>
          if retirement.canRetire entry then
            some {
              entry, indexed := record, evidence
              value := (retirement.score entry evidence retirement.now).nonNegativeFinite
              : RankedEntry Entry
            }
          else none
    retireRanked settings retirement retire scope maxEntries maxBytes
      (ranked.mergeSort RankedEntry.before) store entries.length bytes

/-- Evict the least valuable results that are not protected. -/
def trim (settings : Settings Entry) (retirement : Retirement Entry) (store : Store Scope Entry)
    (scope : Scope) (limits : ResultCacheLimits)
    : Store Scope Entry × List Entry :=
  retireExcess settings retirement store scope (store.cached scope) limits
    fun store _ entry => (delete settings store scope entry).1

/-- Return one result to the cold segment. -/
def demote (store : Store Scope Entry) (record : ℕ) : Store Scope Entry :=
  store.modify record fun indexed =>
    { indexed with result := indexed.result.map ({ · with segment := .cold }) }

/-- Note a hit on a cached result. -/
def noteActorHit (settings : Settings Entry) (store : Store Scope Entry) (scope : Scope)
    (entry : Entry) (now : Number)
    : Store Scope Entry :=
  match store.record settings scope entry with
  | none => store
  | some record =>
      match store.records[record]?.bind (·.result) with
      | none => store
      | some result =>
          {
            store.modify record fun indexed => {
              indexed with
              result := some {
                result with
                segment := .hot
                actorHits := result.actorHits + 1
                lastActorHitAt := some now
              }
              recency := store.sequence
            } with
            sequence := store.sequence + 1
          }

def finiteFraction : Number → ℚ
  | .finite value => max 0 (min 1 value)
  | _ => double (4 / 5)

/-- Record a hit and return the least valuable hot results to the cold segment. -/
def recordActorHit (settings : Settings Entry) (retirement : Retirement Entry)
    (store : Store Scope Entry) (scope : Scope) (entry : Entry)
    (limits : Option ResultCacheLimits := none)
    : Store Scope Entry × List Entry :=
  let hit := noteActorHit settings store scope entry retirement.now
  let cached := ((store.record settings scope entry).bind fun record =>
    store.records[record]?.bind (·.result)).isSome
  match cached, limits with
  | true, some limits =>
      let fraction := finiteFraction (limits.hotFraction.getD (.finite (double (4 / 5))))
      let capacity := limits.maxEntries.nonNegativeCount
      let hot := (hit.cached scope).filter fun entry =>
        ((hit.record settings scope entry).bind fun record =>
          hit.records[record]?.bind (·.result)).any fun result => decide (result.segment = .hot)
      let maxEntries : ℚ :=
        if capacity = 0 ∨ fraction = 0 then 0 else max 1 ⌊double (capacity * fraction)⌋
      let maxBytes : ℚ := ⌊double (limits.maxBytes.nonNegativeCount * fraction)⌋
      retireExcess settings { retirement with canRetire := fun _ => true } hit scope hot
        { maxEntries := .finite maxEntries, maxBytes := .finite maxBytes }
        fun store record _ => demote store record
  | _, _ => (hit, [])

end Retention

section Runs

variable {Scope Entry : Type} [DecidableEq Scope] [DecidableEq Entry]

/-- What can happen to the store. The last four are what an operation still does after the
waiters it woke, or the callbacks it made, changed the store.
-/
inductive Action (Scope Entry : Type) where
  | insert (scope : Scope) (entry : Entry)
  | getOrCreate (scope : Scope) (key : ActionKey) (create : Entry)
      (canReuse : Entry → KeyMatch → Bool)
  | settle (scope : Scope) (entry : Entry) (branch : BranchInputs) (now : Number) (shared : Bool)
  | invalidateInputs (scope : Scope) (entry : Entry) (resources : List JsString)
  | indexView (scope : Scope) (entry : Entry) (actionKey : JsString) (retained : Bool)
  | delete (scope : Scope) (entry : Entry)
  | trim (retirement : Retirement Entry) (scope : Scope) (limits : ResultCacheLimits)
  | recordActorHit (retirement : Retirement Entry) (scope : Scope) (entry : Entry)
      (limits : Option ResultCacheLimits)
  | add (scope : Scope) (key : ActionKey) (create : Entry)
  | settleRegistered (scope : Scope) (entry : Entry) (branch : BranchInputs) (now : Number)
      (shared : Bool)
  | noteActorHit (scope : Scope) (entry : Entry) (now : Number)
  | demote (scope : Scope) (entry : Entry)

/-- Return the result of a registered entry to the cold segment. -/
def demoteEntry (settings : Settings Entry) (store : Store Scope Entry) (scope : Scope)
    (entry : Entry)
    : Store Scope Entry :=
  match store.record settings scope entry with
  | some record => demote store record
  | none => store

def step (settings : Settings Entry) (store : Store Scope Entry)
    : Action Scope Entry → Store Scope Entry
  | .insert scope entry => (insert settings store scope entry).1
  | .getOrCreate scope key create canReuse =>
      (getOrCreate settings store scope key create canReuse).1
  | .settle scope entry branch now shared => settle settings store scope entry branch now shared
  | .invalidateInputs scope entry resources =>
      invalidateInputs settings store scope entry resources
  | .indexView scope entry actionKey retained =>
      indexView settings store scope entry actionKey retained
  | .delete scope entry => (delete settings store scope entry).1
  | .trim retirement scope limits => (trim settings retirement store scope limits).1
  | .recordActorHit retirement scope entry limits =>
      (recordActorHit settings retirement store scope entry limits).1
  | .add scope key create =>
      (add settings store scope create
        (actionKeyProjectionPartitions key settings.projectors)).1
  | .settleRegistered scope entry branch now shared =>
      settleRegistered settings store scope entry branch shared now
  | .noteActorHit scope entry now => noteActorHit settings store scope entry now
  | .demote scope entry => demoteEntry settings store scope entry

/-- The store after a sequence of operations on an empty one. -/
def afterActions (settings : Settings Entry) (actions : List (Action Scope Entry))
    : Store Scope Entry :=
  runAll (step settings) .empty actions

end Runs

end SpeculativeAction.CandidateStore
