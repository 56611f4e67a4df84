import SpeculativeAction.Library.WeightedSum
import SpeculativeAction.Numbers

/-! The records of one process handoff registry: reserving, completing, binding, trimming and
removing them. Words shared with other registries are named here and changed elsewhere.
-/

namespace SpeculativeAction.ProcessHandoff

open SpeculativeAction.Library

-- Records

section Records

/-- What a registry made: a record, a claim word or a loan word. -/
structure Name where
  registry : ℕ
  number : ℕ
deriving DecidableEq

structure ExecutionScope where
  sessionID : String
  turnID : String
  callID : Option String
deriving DecidableEq

/-- A complete owned result. It is numbered in its registry, for it is one object that moves. -/
structure Result where
  number : ℕ
  oneShot : Bool
  complete : Bool
  executionMs : Number
  /-- The bytes of its description and of its artifacts in memory. -/
  bytes : ℕ
  /-- The bytes of its artifacts in the store. -/
  artifactBytes : ℕ
deriving DecidableEq

inductive HandoffStatus where
  | completed | reserved | retained
deriving DecidableEq

inductive HandoffState where
  | running
  | ended (status : HandoffStatus) (result : Option Result)
deriving DecidableEq

def HandoffState.isRunning : HandoffState → Bool
  | .running => true
  | .ended _ _ => false

def HandoffState.result? : HandoffState → Option Result
  | .running => none
  | .ended _ result => result

/-- A capability; its invocation is kept by the registry. -/
structure Binding (Key : Type) where
  number : ℕ
  key : Key
  scope : ExecutionScope
deriving DecidableEq

/-- What `reserve` makes. The last two fields are not the source's: they say of which result a
record is a version, and which one it was forwarded for.
-/
structure Record (Key : Type) where
  key : Key
  executablePath : String
  scope : Option ExecutionScope
  state : HandoffState
  borrowers : ℤ
  declarations : List Name
  binding : Option (Binding Key)
  /-- All aliases share one reservation. -/
  claimState : Option Name
  /-- Every loan in the ancestry can revoke future claims. -/
  receipts : List Name
  /-- A version received from another registry is completed with a result of this kind. -/
  imported : Option Bool
  origin : Name
  replaces : Option Name
deriving DecidableEq

structure Launch (Value : Type) where
  value : Value
  bytes : ℕ
  executionMs : Number

/-- How invocations are captured: a snapshot of what can be owned with the bytes of its text, and
whether two snapshots have the same meaning.
-/
structure Capture (Invocation Value : Type) where
  own : Invocation → Option (Value × ℕ)
  stableEqual : Value → Value → Bool

/-- One loan of `lend`: the record, and the result that it had. -/
structure Loan where
  record : ℕ
  result : Result
  claims : Name
deriving DecidableEq

structure Lend where
  scope : Option ExecutionScope
  loans : List Loan
  /-- `lifetime.abort()` -/
  aborted : Bool
deriving DecidableEq

end Records

-- Registries

section Registries

variable {Key Value : Type}

/-- `ProcessHandoffRegistry`. Records, results, bindings and loans are numbered as they are
made. `closing` are the loans whose words the running call has still to close, and `released`
the results whose artifacts were let go of, in order.
-/
structure Registry (Key Value : Type) where
  executions : OrderedMap ℕ (Record Key)
  byKey : OrderedMap Key (List ℕ)
  invocations : ℕ → Option (Launch Value)
  maxCompleted : ℕ
  maxRetainedBytes : ℕ
  /-- `store.limits.maxBytes` -/
  maxBytes : ℕ
  retainedBytes : ℤ
  completedCount : ℤ
  disposed : Bool
  lends : List Lend
  recordsMade : ℕ
  resultsMade : ℕ
  bindingsMade : ℕ
  loansMade : ℕ
  closing : List Name
  released : List ℕ

/-- A registry on a store that holds so many certificates and bytes. -/
def Registry.empty (maxCertificates maxBytes maxRetainedBytes : ℕ) : Registry Key Value where
  executions := .empty
  byKey := .empty
  invocations _ := none
  maxCompleted := maxCertificates
  maxRetainedBytes := maxRetainedBytes
  maxBytes := maxBytes
  retainedBytes := 0
  completedCount := 0
  disposed := false
  lends := []
  recordsMade := 0
  resultsMade := 0
  bindingsMade := 0
  loansMade := 0
  closing := []
  released := []

end Registries

namespace Registry

variable {Key Value Invocation : Type} [DecidableEq Key]

-- Removal

section Removal

def bytesOf (result : Option Result) : ℕ := (result.map Result.bytes).getD 0

def artifactBytesOf (record : Record Key) : ℕ :=
  (record.state.result?.map Result.artifactBytes).getD 0

/-- The bytes of the invocation behind a record's binding. -/
def bindingBytes (invocations : ℕ → Option (Launch Value)) (record : Record Key) : ℕ :=
  ((record.binding.bind fun binding => invocations binding.number).map Launch.bytes).getD 0

/-- Loans of the record are closed and its artifacts are let go. -/
def releaseResult (registry : Registry Key Value) (number : ℕ) : Registry Key Value :=
  match registry.executions.get? number with
  | some record =>
      match record.state with
      | .running => registry
      | .ended _ result =>
          {
            registry with
            closing := registry.closing ++ record.declarations
            retainedBytes := registry.retainedBytes - bytesOf result
            released := registry.released ++ (result.map Result.number).toList
            executions :=
              registry.executions.set number { record with state := .ended .retained none }
          }
  | none => registry

/-- The binding of a record that leaves is available no more. -/
def forgetBinding (registry : Registry Key Value) (record : Record Key) : Registry Key Value :=
  {
    registry with
    retainedBytes := registry.retainedBytes - bindingBytes registry.invocations record
    invocations := match record.binding with
      | some binding => Function.update registry.invocations binding.number none
      | none => registry.invocations
  }

/-- `remove` of a record with this key, which may be gone already. -/
def remove (registry : Registry Key Value) (number : ℕ) (key : Key) : Registry Key Value :=
  let registry := registry.releaseResult number
  match registry.executions.get? number with
  | some record =>
      let registry := registry.forgetBinding record
      {
        registry with
        executions := registry.executions.delete number
        completedCount :=
          if record.state.isRunning then registry.completedCount else registry.completedCount - 1
        byKey := registry.byKey.delete key
      }
  | none => { registry with byKey := registry.byKey.delete key }

/-- The three limits, when the results of ended records have so many bytes in the store. -/
def withinLimits (registry : Registry Key Value) (limit : ℕ) (stored : ℤ) : Bool :=
  decide (registry.completedCount ≤ limit ∧ registry.retainedBytes ≤ registry.maxRetainedBytes
    ∧ stored ≤ registry.maxBytes)

def storedBytes (records : List (Record Key)) : ℤ :=
  (records.map fun record => (artifactBytesOf record : ℤ)).sum

/-- The loop of `trim`, over the records there were at its start. -/
def trimRecords (limit : ℕ)
    : List (ℕ × Record Key) → ℤ → Registry Key Value → Registry Key Value
  | [], _, registry => registry
  | (number, record) :: rest, stored, registry =>
      if registry.withinLimits limit stored then registry
      else if record.borrowers = 0 ∧ record.state.isRunning = false then
        trimRecords limit rest (stored - artifactBytesOf record) (registry.remove number record.key)
      else trimRecords limit rest stored registry

def trim (registry : Registry Key Value) : Registry Key Value :=
  trimRecords registry.maxCompleted registry.executions.entries
    (storedBytes registry.executions.values) registry

end Removal

-- Records come and complete

section Completion

/-- What `reserve` makes of its arguments, in the registry of this index. -/
def newRecord (home : ℕ) (registry : Registry Key Value) (key : Key) (executablePath : String)
    (scope : Option ExecutionScope)
    : Record Key where
  key := key
  executablePath := executablePath
  scope := scope
  state := .running
  borrowers := 0
  declarations := []
  binding := none
  claimState := none
  receipts := []
  imported := none
  origin := ⟨home, registry.recordsMade⟩
  replaces := none

/-- A record enters `executions`, and the index of its key is out of date. -/
def reserve (registry : Registry Key Value) (record : Record Key) : Registry Key Value :=
  {
    registry with
    executions := registry.executions.set registry.recordsMade record
    recordsMade := registry.recordsMade + 1
    byKey := registry.byKey.delete record.key
  }

def setRecord (registry : Registry Key Value) (number : ℕ) (record : Record Key)
    : Registry Key Value :=
  { registry with executions := registry.executions.set number record }

/-- `record`: the record of this key. -/
def record? (registry : Registry Key Value) (key : Key) (number : ℕ) : Option (Record Key) :=
  (registry.executions.get? number).filter fun record => record.key = key

/-- A running record ends with a result or without. -/
def fill (registry : Registry Key Value) (number : ℕ) (record : Record Key)
    (result : Option Result)
    : Registry Key Value :=
  {
    registry with
    retainedBytes := registry.retainedBytes + bytesOf result
    executions := registry.executions.set number { record with state := .ended .completed result }
    completedCount := registry.completedCount + 1
  }

/-- A running record of this key is completed; whether there was one. -/
def complete (registry : Registry Key Value) (key : Key) (number : ℕ) (result : Option Result)
    : Registry Key Value × Bool :=
  match registry.record? key number with
  | some record =>
      if record.state.isRunning then
        let completed := registry.fill number record result
        (if result.isNone ∨ record.scope.isNone then completed.remove number key
          else completed.trim, true)
      else (registry, false)
  | none => (registry, false)

/-- The queries of a key index its records. -/
def candidates (registry : Registry Key Value) (key : Key) : Registry Key Value × List ℕ :=
  let records := (registry.byKey.get? key).getD
    ((registry.executions.entries.filter fun entry => entry.2.key = key).map Prod.fst)
  (if records = [] then registry
    else { registry with byKey := registry.byKey.set key records }, records)

def configure (registry : Registry Key Value) (maxCompleted maxRetainedBytes : ℕ)
    : Registry Key Value :=
  { registry with maxCompleted := maxCompleted, maxRetainedBytes := maxRetainedBytes }.trim

def clearRecord (registry : Registry Key Value) (entry : ℕ × Record Key) : Registry Key Value :=
  if entry.2.state.isRunning then registry else registry.remove entry.1 entry.2.key

def clearCompleted (registry : Registry Key Value) : Registry Key Value :=
  registry.executions.entries.foldl clearRecord registry

/-- A running record is completed without a result, another one is removed. -/
def disposeRecord (registry : Registry Key Value) (entry : ℕ × Record Key)
    : Registry Key Value :=
  match registry.complete entry.2.key entry.1 none with
  | (completed, true) => completed
  | (same, false) => same.remove entry.1 entry.2.key

def disposeRecords (registry : Registry Key Value) : Registry Key Value :=
  registry.executions.entries.foldl disposeRecord registry

def dispose (registry : Registry Key Value) : Registry Key Value :=
  { disposeRecords { registry with disposed := true } with completedCount := 0 }

end Completion

-- Bindings

section Bindings

variable (capture : Capture Invocation Value)

/-- An earlier native observation of the same launch in the same session. -/
def sharesLaunch (registry : Registry Key Value) (key : Key) (number : ℕ) (record : Record Key)
    (value : Value) (entry : ℕ × Record Key)
    : Bool :=
  entry.2.key = key ∧ entry.1 ≠ number ∧ entry.2.state = .ended .retained none
    ∧ entry.2.scope.map ExecutionScope.sessionID = record.scope.map ExecutionScope.sessionID
    ∧ entry.2.executablePath = record.executablePath
    ∧ (entry.2.binding.bind fun binding => registry.invocations binding.number).any
        fun launch => capture.stableEqual launch.value value

/-- The repeated observation teaches the earlier one, which stays. -/
def shareLaunch (registry : Registry Key Value) (number : ℕ) (record : Record Key)
    (previous : Record Key) (executionMs : Number)
    : Registry Key Value × Option (Binding Key) :=
  let taught : Registry Key Value := match previous.binding with
    | some binding =>
        {
          registry with
          invocations := Function.update registry.invocations binding.number
            ((registry.invocations binding.number).map fun launch =>
              { launch with executionMs := executionMs })
        }
    | none => registry
  (taught.remove number record.key, previous.binding)

/-- A record gets a binding of its own. -/
def addLaunch (registry : Registry Key Value) (number : ℕ) (record : Record Key)
    (binding : Binding Key) (launch : Launch Value)
    : Registry Key Value :=
  {
    registry with
    bindingsMade := registry.bindingsMade + 1
    invocations := Function.update registry.invocations binding.number (some launch)
    executions := registry.executions.set number { record with binding := some binding }
    retainedBytes := registry.retainedBytes + launch.bytes
  }

/-- The trim that follows may take the binding away again. -/
def keepLaunch (registry : Registry Key Value) (key : Key) (number : ℕ) (record : Record Key)
    (scope : ExecutionScope) (launch : Launch Value)
    : Registry Key Value × Option (Binding Key) :=
  let binding : Binding Key := ⟨registry.bindingsMade, key, scope⟩
  let trimmed := (registry.addLaunch number record binding launch).trim
  (trimmed, if (trimmed.invocations binding.number).isSome then some binding else none)

def retainBinding (registry : Registry Key Value) (key : Key) (number : ℕ)
    (record : Record Key) (invocation : Invocation) (executionMs : Number)
    : Registry Key Value × Option (Binding Key) :=
  match record.scope, record.binding, capture.own invocation with
  | some scope, none, some (value, bytes) =>
      if registry.maxRetainedBytes = 0 ∨ registry.maxRetainedBytes < bytes then (registry, none)
      else
        let earlier := if record.state = .ended .retained none then
          registry.executions.entries.find?
            (sharesLaunch capture registry key number record value)
          else none
        match earlier with
        | some previous => registry.shareLaunch number record previous.2 executionMs
        | none => registry.keepLaunch key number record scope ⟨value, bytes, executionMs⟩
  | _, _, _ => (registry, none)

def bind (registry : Registry Key Value) (key : Key) (number : ℕ) (invocation : Invocation)
    : Registry Key Value × Option (Binding Key) :=
  match registry.record? key number with
  | some record =>
      match record.state.result? with
      | some result =>
          if result.complete then
            registry.retainBinding capture key number record invocation result.executionMs
          else (registry, none)
      | none => (registry, none)
  | none => (registry, none)

/-- A number that is finite and not negative. -/
def isDuration : Number → Bool
  | .finite value => decide (0 ≤ value)
  | _ => false

/-- A record of a completed native launch, which teaches preparation only. -/
def observedRecord (home : ℕ) (registry : Registry Key Value) (key : Key)
    (executablePath : String) (scope : ExecutionScope)
    : Record Key :=
  { newRecord home registry key executablePath (some scope) with state := .ended .retained none }

def reserveObserved (registry : Registry Key Value) (record : Record Key) : Registry Key Value :=
  { registry.reserve record with completedCount := registry.completedCount + 1 }

def observe (home : ℕ) (registry : Registry Key Value) (key : Key) (executablePath : String)
    (scope : ExecutionScope) (invocation : Invocation) (executionMs : Number)
    : Registry Key Value × Option (Binding Key) :=
  if registry.disposed ∨ isDuration executionMs = false then (registry, none)
  else
    let number := registry.recordsMade
    let record := observedRecord home registry key executablePath scope
    match (registry.reserveObserved record).retainBinding capture key number record invocation
      executionMs with
    | (bound, some binding) => (bound, some binding)
    | (unbound, none) => (unbound.remove number key, none)

/-- The bindings of a session. -/
def bindings (registry : Registry Key Value) (scope : ExecutionScope) : List (Binding Key) :=
  registry.executions.values.filterMap fun record =>
    record.binding.filter fun binding => binding.scope.sessionID = scope.sessionID

/-- The invocation of a binding that is still available to its session. -/
def resolveBinding (registry : Registry Key Value) (binding : Binding Key)
    (scope : Option ExecutionScope)
    : Option Value :=
  if scope.map ExecutionScope.sessionID = some binding.scope.sessionID then
    (registry.invocations binding.number).map Launch.value
  else none

end Bindings

end Registry

end SpeculativeAction.ProcessHandoff
