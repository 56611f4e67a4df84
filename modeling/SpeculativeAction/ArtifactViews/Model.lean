import SpeculativeAction.Library.OrderedMap
import SpeculativeAction.Library.ReferenceCount
import SpeculativeAction.Numbers

/-! Artifact read views over one store. Views serialize their own operations but share value
records, whose owners they count. Reading bytes, opening files and hashing are answered by
the event that resumes an add; a digest is well formed by its type.
-/

namespace SpeculativeAction.ArtifactViews

open SpeculativeAction.Library

variable {Digest : Type} [DecidableEq Digest]

-- Values and views

structure ArtifactReference (Digest : Type) where
  digest : Digest
  size : ℕ
deriving DecidableEq

/-- A transfer lends an open object or brings the bytes themselves. -/
inductive TransferKind where
  | object | bytes
deriving DecidableEq

structure ArtifactTransfer (Digest : Type) where
  reference : ArtifactReference Digest
  kind : TransferKind
deriving DecidableEq

/-- One verified content: `object` tells a lease on an open file from an image in memory.
Its owners are the references of its cell, and the releases of a cell with an object are the
calls of the lease's `dispose`.
-/
structure Value (Digest : Type) where
  reference : ArtifactReference Digest
  object : Bool
deriving DecidableEq

/-- Where an add may take its content from. -/
inductive Supplied (Digest : Type) where
  | nothing
  | transfer (transfer : ArtifactTransfer Digest)
  | view (view : ℕ)
deriving DecidableEq

/-- One serialized add; `client` is the restore that waits for it. -/
structure AddTask (Digest : Type) where
  reference : ArtifactReference Digest
  supplied : Supplied Digest
  client : Option ℕ
deriving DecidableEq

structure Limits where
  maxReadBytes : ℕ
  maxStoredBytes : ℕ
  maxOpenChunks : ℕ
deriving DecidableEq

/-- `disposed` is reached when the finalizer gives the owners up, `cleared` when it is
through.
-/
inductive Lifetime where
  | active | closing | disposed | cleared
deriving DecidableEq

/-- Values are named by their place in the heap; `lane` holds the admitted adds that have
not started, `loading` the started one that waits for its content.
-/
structure ArtifactReadView (Digest : Type) where
  limits : Limits
  values : OrderedMap Digest ℕ
  lifetime : Lifetime
  lane : List (AddTask Digest)
  loading : Option (AddTask Digest)

def ArtifactReadView.isSealed (view : ArtifactReadView Digest) : Bool :=
  view.lifetime ≠ .active

/-- A view owns its values until its finalizer gives them up. -/
def ArtifactReadView.owns (view : ArtifactReadView Digest) : Bool :=
  view.lifetime = .active || view.lifetime = .closing

inductive RestoreSource (Digest : Type) where
  | nothing
  | transfers (transfers : List (ArtifactTransfer Digest))
  | view (view : ℕ)
deriving DecidableEq

/-- A restore adds its references one after the other. -/
structure Restore (Digest : Type) where
  view : ℕ
  remaining : List (ArtifactReference Digest)
  source : RestoreSource Digest
  waiting : Bool
  complete : Option Bool
deriving DecidableEq

structure Loan where
  view : ℕ
  objects : List ℕ
  released : Bool
deriving DecidableEq

structure State (Digest : Type) where
  values : List (SharedCell (Value Digest))
  views : List (ArtifactReadView Digest)
  restores : List (Restore Digest)
  loans : List Loan

def initial : State Digest where
  values := []
  views := []
  restores := []
  loans := []

-- Reading a view

section Reading

variable (state : State Digest) (view : ArtifactReadView Digest)

def referenceOf (id : ℕ) : Option (ArtifactReference Digest) :=
  (state.values[id]?).map fun cell => cell.payload.reference

def sizeOf (id : ℕ) : ℕ := ((referenceOf state id).map ArtifactReference.size).getD 0

def artifacts : ℕ := view.values.values.length

def bytes : ℕ := (view.values.values.map (sizeOf state)).sum

/-- The value a view holds for a reference of the same size. -/
def lookup (reference : ArtifactReference Digest) : Option ℕ :=
  (view.values.get? reference.digest).filter fun id =>
    (referenceOf state id).map ArtifactReference.size = some reference.size

end Reading

/-- The digest's form is its type's; only the size is left to check. -/
def validArtifact (reference : ArtifactReference Digest) : Bool :=
  reference.size ≤ Number.maxSafeInteger

/-- The distinct references in order; a digest of two sizes is refused. -/
def collectSizes
    : List (ArtifactReference Digest)
      → OrderedMap Digest ℕ
      → Option (OrderedMap Digest ℕ)
  | [], sizes => some sizes
  | reference :: rest, sizes =>
      if validArtifact reference
          && (sizes.get? reference.digest).all (· = reference.size) then
        collectSizes rest (sizes.set reference.digest reference.size)
      else
        none

/-- The limits a constructor accepts. -/
def validLimits (limits : Limits) : Bool :=
  limits.maxReadBytes ≤ 2 ^ 30 && limits.maxStoredBytes ≤ Number.maxSafeInteger
    && limits.maxOpenChunks ≤ 65536

-- Operations

section Operations

variable (state : State Digest)

def setView (id : ℕ) (view : ArtifactReadView Digest) : State Digest :=
  { state with views := state.views.set id view }

/-- A settled add resumes the restore that awaits it; anything but success ends it. -/
def settleClient (client : Option ℕ) (added : Bool) : State Digest :=
  match client with
  | none => state
  | some restore =>
      {
        state with
        restores := state.restores.modify restore fun record =>
          {
            record with
            waiting := false
            complete := if added then record.complete else some false
          }
      }

/-- `serialize`: a sealed lifetime refuses the add, an open one appends it to its lane. -/
def submitAdd (id : ℕ) (view : ArtifactReadView Digest) (task : AddTask Digest)
    : State Digest :=
  if view.isSealed then
    settleClient state task.client false
  else
    setView state id { view with lane := view.lane ++ [task] }

/-- The next add of a restore, or its end; an aborted restore does not end well. -/
def advanceRestore (id : ℕ) (restore : Restore Digest) (view : ArtifactReadView Digest)
    (aborted : Bool)
    : State Digest :=
  match restore.remaining with
  | [] =>
      { state with
        restores := state.restores.set id { restore with complete := some !aborted } }
  | reference :: rest =>
      let supplied : Option (Supplied Digest) := match restore.source with
        | .nothing => some .nothing
        | .view source => some (.view source)
        | .transfers transfers =>
            (transfers.find? (·.reference.digest = reference.digest)).map .transfer
      match supplied with
      | none =>
          { state with
            restores := state.restores.set id { restore with complete := some false } }
      | some supplied =>
          submitAdd
            {
              state with
              restores :=
                state.restores.set id { restore with remaining := rest, waiting := true }
            }
            restore.view view ⟨reference, supplied, some id⟩

/-- How the synchronous part of an add ends. -/
inductive Started where
  | threw
  | held
  | shared (value : ℕ)
  | loads
deriving DecidableEq

/-- The value of another view that an add may share. -/
def sharedValue (task : AddTask Digest) : Option ℕ :=
  match task.supplied with
  | .view source => (state.views[source]?).bind fun source => lookup state source task.reference
  | _ => none

def suppliedSealed (task : AddTask Digest) : Bool :=
  match task.supplied with
  | .view source => (state.views[source]?).any ArtifactReadView.isSealed
  | _ => false

def suppliedMismatch (task : AddTask Digest) : Bool :=
  match task.supplied with
  | .transfer transfer => transfer.reference ≠ task.reference
  | _ => false

/-- Everything an add does before it first waits. -/
def startAdd (view : ArtifactReadView Digest) (task : AddTask Digest) (aborted : Bool)
    : Started :=
  if aborted || !validArtifact task.reference || suppliedSealed state task then
    .threw
  else if view.values.has task.reference.digest then
    if (lookup state view task.reference).isSome then .held else .threw
  else if bytes state view + task.reference.size > view.limits.maxStoredBytes
      ∨ artifacts view ≥ view.limits.maxOpenChunks then
    .threw
  else
    match sharedValue state task with
    | some value => .shared value
    | none => if suppliedMismatch task then .threw else .loads

/-- The lane starts its next add when none is running. -/
def startNext (id : ℕ) (view : ArtifactReadView Digest) (aborted : Bool) : State Digest :=
  match view.loading, view.lane with
  | none, task :: rest =>
      match startAdd state view task aborted with
      | .threw => settleClient (setView state id { view with lane := rest }) task.client false
      | .held => settleClient (setView state id { view with lane := rest }) task.client true
      | .shared value =>
          settleClient
            (setView
              { state with values := SharedHeap.borrow state.values value }
              id
              {
                view with
                lane := rest
                values := view.values.set task.reference.digest value
              })
            task.client true
      | .loads => setView state id { view with lane := rest, loading := some task }
  | _, _ => state

/-- How the content of a loading add arrives. -/
inductive Loaded where
  | threw
  | unavailable
  | verified (object : Bool)
deriving DecidableEq

/-- The rest of an add: verified content becomes a value with one owner. -/
def finishAdd (id : ℕ) (view : ArtifactReadView Digest) (loaded : Loaded) : State Digest :=
  match view.loading with
  | none => state
  | some task =>
      match loaded with
      | .threw | .unavailable =>
          settleClient (setView state id { view with loading := none }) task.client false
      | .verified object =>
          settleClient
            (setView
              { state with values := SharedHeap.alloc state.values ⟨task.reference, object⟩ }
              id
              {
                view with
                loading := none
                values := view.values.set task.reference.digest state.values.length
              })
            task.client true

/-- Every object of an open view is lent; a disposed lease would refuse. -/
def lend (id : ℕ) (view : ArtifactReadView Digest) : Option Loan :=
  let objects := view.values.values.filter fun value =>
    (state.values[value]?).any fun cell => cell.payload.object
  if view.isSealed
      || objects.any fun value => (state.values[value]?).any fun cell => cell.released ≠ 0 then
    none
  else
    some ⟨id, objects, false⟩

/-- The finalizer gives up one owner of every value. -/
def finalize (id : ℕ) (view : ArtifactReadView Digest) : State Digest :=
  setView { state with values := view.values.values.foldl SharedHeap.drop state.values }
    id { view with lifetime := .disposed }

end Operations

-- The system

/-- `dispose` seals the lifetime at once; `finalize` is the lane's last operation and
`clear` the end of it, when every lease it disposed has settled.
-/
inductive Event (Digest : Type) where
  | create (limits : Limits)
  | add (view : ℕ) (reference : ArtifactReference Digest) (supplied : Supplied Digest)
  | restore (view : ℕ) (references : List (ArtifactReference Digest))
      (source : RestoreSource Digest)
  | advance (restore : ℕ) (aborted : Bool)
  | start (view : ℕ) (aborted : Bool)
  | finish (view : ℕ) (loaded : Loaded)
  | lend (view : ℕ)
  | release (loan : ℕ)
  | dispose (view : ℕ)
  | finalize (view : ℕ)
  | clear (view : ℕ)

/-- A supply of transfers names each digest once. -/
def validSource : RestoreSource Digest → Bool
  | .transfers transfers => (transfers.map fun transfer => transfer.reference.digest).Nodup
  | _ => true

/-- One event at an existing view. -/
def stepView (state : State Digest) (id : ℕ) (view : ArtifactReadView Digest)
    (event : Event Digest)
    : State Digest :=
  match event with
  | .add _ reference supplied => submitAdd state id view ⟨reference, supplied, none⟩
  | .restore _ references source =>
      match collectSizes references OrderedMap.empty with
      | some sizes =>
          if validSource source then
            {
              state with
              restores := state.restores ++ [{
                view := id
                remaining := sizes.entries.map fun entry => ⟨entry.1, entry.2⟩
                source
                waiting := false
                complete := none
              }]
            }
          else
            state
      | none => state
  | .start _ aborted => startNext state id view aborted
  | .finish _ loaded => finishAdd state id view loaded
  | .lend _ => { state with loans := state.loans ++ (lend state id view).toList }
  | .dispose _ =>
      if view.isSealed then state else setView state id { view with lifetime := .closing }
  | .finalize _ =>
      if view.lifetime = .closing && view.lane.isEmpty && view.loading.isNone then
        finalize state id view
      else
        state
  | .clear _ =>
      if view.lifetime = .disposed then
        setView state id { view with lifetime := .cleared, values := OrderedMap.empty }
      else
        state
  | _ => state

def step (state : State Digest) (event : Event Digest) : State Digest :=
  match event with
  | .create limits =>
      if validLimits limits then
        {
          state with
          views := state.views ++ [{
            limits
            values := OrderedMap.empty
            lifetime := .active
            lane := []
            loading := none
          }]
        }
      else
        state
  | .release loan =>
      { state with
        loans := state.loans.modify loan fun record => { record with released := true } }
  | .advance restore aborted =>
      match state.restores[restore]? with
      | none => state
      | some record =>
          match state.views[record.view]? with
          | none => state
          | some view =>
              if record.waiting || record.complete.isSome then
                state
              else
                advanceRestore state restore record view aborted
  | .add view _ _ | .restore view _ _ | .start view _ | .finish view _ | .lend view
  | .dispose view | .finalize view | .clear view =>
      match state.views[view]? with
      | none => state
      | some record => stepView state view record event

end SpeculativeAction.ArtifactViews
