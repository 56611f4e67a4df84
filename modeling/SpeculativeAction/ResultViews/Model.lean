import SpeculativeAction.Numbers
import SpeculativeAction.Library.NumberText
import SpeculativeAction.Library.OrderedMap
import SpeculativeAction.Library.ReferenceCount

/-! Result views of one open session: a candidate keeps projected outputs under the Actor's
action key, and the proof behind a view is shared between the views and the projections that
use it. Everything a backend or a proof answers is part of the event that resumes the code.
-/

namespace SpeculativeAction.ResultViews

open SpeculativeAction.Library

variable {Output Execution Compatibility Proof : Type}

-- Projections and views

inductive MatchKind where
  | exact | projected | inputs
deriving DecidableEq

/-- How `projectOutput` may answer: from a kept view, from the output or from the inputs. -/
inductive Mode where
  | cached | output | inputs
deriving DecidableEq

inductive ValidationStatus where
  | valid | stale | indeterminate | incompatible
deriving DecidableEq

/-- What projection and validation read of a sealed branch. -/
structure WorldBranch (Output : Type) where
  output : Output
  inputsOnly : Bool
  capturedBytes : ℚ
  reconstructs : Bool
  currentActionScope : Bool
deriving DecidableEq

/-- A successful `ProjectionResult`; its resource is named by its place in the heap. -/
structure Projection (Output Execution Compatibility Proof : Type) where
  output : Output
  execution : Option Execution
  reused : Bool
  inputs : Bool
  compatibility : Option Compatibility
  validate : Option Proof
  capturedBytes : Option Number
  requiresQueryValidation : Bool
  resource : Option ℕ
deriving DecidableEq

structure RetainedResultView (Output Execution Compatibility Proof : Type) where
  output : Output
  bytes : ℚ
  execution : Execution
  inputs : Bool
  compatibility : Option Compatibility
  validate : Option Proof
  resource : Option ℕ
  capturedBytes : ℚ
  requiresQueryValidation : Bool
deriving DecidableEq

/-- What a branch rebuilds from its inputs. `dispose` names the disposer it hands over. -/
structure Rebuilt (Output Compatibility Proof : Type) where
  output : Option Output
  compatibility : Option Compatibility
  validate : Option Proof
  capturedBytes : Option Number
  requiresQueryValidation : Bool
  dispose : Option ℕ
deriving DecidableEq

/-- How the measured evaluation of a projection ends: `ruled` is the projection rule's
output, and the branch is asked to rebuild only without one.
-/
inductive Measured (Output Execution Compatibility Proof : Type) where
  | failed
  | done (ruled : Option Output) (rebuilt : Option (Rebuilt Output Compatibility Proof))
      (computation : Execution)
deriving DecidableEq

/-- The settings the cache budget reads. -/
structure Settings where
  reuseEnabled : Option Bool
  resourceCacheMaxEntries : Option Number
  resourceCacheMaxBytes : Option Number
deriving DecidableEq

def positiveCount : Option Number → ℚ
  | some (.finite value) => max 1 ⌊value⌋
  | _ => 1

def defaultResourceCacheMaxBytes : ℕ := 256 * 1024 * 1024

/-- A limit that is no finite number falls back to the default. -/
def cacheByteLimit (settings : Settings) : ℚ :=
  match settings.resourceCacheMaxBytes with
  | some (.finite value) => positiveCount (some (.finite value))
  | _ => positiveCount (some (.finite defaultResourceCacheMaxBytes))

def finiteMetric : Option Number → ℚ
  | some value => value.nonNegativeFinite
  | none => 0

-- State

/-- One candidate. `ownBytes` repeats what its creation and its execution assigned to
`estimatedBytes`, so that the views' share can be told apart.
-/
structure Candidate (Output Execution Compatibility Proof : Type) where
  stored : Bool
  branch : Option (WorldBranch Output)
  resultBytes : ℚ
  ownBytes : ℚ
  resultViews
    : OrderedMap JsString (RetainedResultView Output Execution Compatibility Proof)

/-- `estimatedBytes` reads the branch's captured bytes anew on every access. -/
def Candidate.capturedBytes (candidate : Candidate Output Execution Compatibility Proof)
    : ℚ :=
  (candidate.branch.map WorldBranch.capturedBytes).getD 0

def Candidate.estimatedBytes (candidate : Candidate Output Execution Compatibility Proof)
    : ℚ :=
  candidate.resultBytes + candidate.capturedBytes

def Candidate.setEstimatedBytes (candidate : Candidate Output Execution Compatibility Proof)
    (bytes : ℚ)
    : Candidate Output Execution Compatibility Proof :=
  { candidate with resultBytes := bytes - candidate.capturedBytes }

/-- The candidate's bytes without its views. -/
def Candidate.baseBytes (candidate : Candidate Output Execution Compatibility Proof) : ℚ :=
  candidate.ownBytes + candidate.capturedBytes

/-- Store a view under its key, or delete what is there. -/
def Candidate.putView (candidate : Candidate Output Execution Compatibility Proof)
    (key : JsString)
    (view : Option (RetainedResultView Output Execution Compatibility Proof))
    : Candidate Output Execution Compatibility Proof :=
  match view with
  | some view => { candidate with resultViews := candidate.resultViews.set key view }
  | none => { candidate with resultViews := candidate.resultViews.delete key }

/-- Who called `prepareCandidateOutput`: the preview of an Actor call or its selection. -/
inductive Caller where
  | promoteActorCall | selectActorCandidate
deriving DecidableEq

/-- Where one preparation waits. From `prepared` on its caller holds the projection. -/
inductive Phase (Output Execution Compatibility Proof : Type) where
  | projecting (mode : Mode)
  | measuring (mode : Mode)
  | validating (mode : Mode) (projection : Projection Output Execution Compatibility Proof)
  | prepared (projection : Projection Output Execution Compatibility Proof)
  | finished
deriving DecidableEq

structure Preparation (Output Execution Compatibility Proof : Type) where
  candidate : ℕ
  action : JsString
  matchKind : MatchKind
  caller : Caller
  phase : Phase Output Execution Compatibility Proof
deriving DecidableEq

/-- Candidates, preparations and resources are named by their position. A resource's
payload is its disposer, its releases are the calls of `lifecycle.release`; `discarded`
lists the disposers of rebuilt outputs that never became a resource.
-/
structure State (Output Execution Compatibility Proof : Type) where
  candidates : List (Candidate Output Execution Compatibility Proof)
  preparations : List (Preparation Output Execution Compatibility Proof)
  resources : List (SharedCell ℕ)
  discarded : List ℕ

def initial : State Output Execution Compatibility Proof where
  candidates := []
  preparations := []
  resources := []
  discarded := []

/-- The value operations of the host: cloning may throw. -/
structure Host (Output : Type) where
  cloneSharedData : Output → Option Output
  estimateValueBytes : Output → ℕ

-- Views

section Views

variable (state : State Output Execution Compatibility Proof)

def releaseProjectionResource (resource : Option ℕ)
    : State Output Execution Compatibility Proof :=
  { state with resources := SharedHeap.dropAny state.resources resource }

/-- One mutation owns a view's storage, budget and proof reference. -/
def setResultView (candidate : ℕ) (key : JsString)
    (view : Option (RetainedResultView Output Execution Compatibility Proof))
    : State Output Execution Compatibility Proof :=
  match state.candidates[candidate]? with
  | none => state
  | some record =>
      let previous := record.resultViews.get? key
      if previous.isNone && view.isNone then
        state
      else
        let change := (view.map RetainedResultView.bytes).getD 0
          - (previous.map RetainedResultView.bytes).getD 0
        releaseProjectionResource
          {
            state with
            resources :=
              SharedHeap.borrowAny state.resources (view.bind RetainedResultView.resource)
            candidates := state.candidates.set candidate
              ((record.putView key view).setEstimatedBytes
                (record.estimatedBytes + change))
          }
          (previous.bind RetainedResultView.resource)

/-- Views in storage order give way until one more entry of `bytes` fits the budget. -/
def evictViews (candidate : ℕ) (settings : Settings) (bytes : ℚ)
    : List JsString
      → State Output Execution Compatibility Proof
      → State Output Execution Compatibility Proof
  | [], state => state
  | key :: rest, state =>
      match state.candidates[candidate]? with
      | none => state
      | some record =>
          if (record.resultViews.keys.length : ℚ)
                ≥ positiveCount settings.resourceCacheMaxEntries
              ∨ record.estimatedBytes + bytes > cacheByteLimit settings then
            evictViews candidate settings bytes rest
              (setResultView state candidate key none)
          else
            state

/-- Keep a projection as a view under its action key. An unfitting proof is left out
where the query does not depend on it.
-/
def retainResultView (host : Host Output) (candidate : ℕ) (action : JsString)
    (projection : Projection Output Execution Compatibility Proof) (settings : Settings)
    : State Output Execution Compatibility Proof × Bool :=
  match projection.execution, host.cloneSharedData projection.output with
  | some execution, some owned =>
      if settings.reuseEnabled = some false || projection.reused then
        (state, false)
      else
        let outputBytes : ℚ := host.estimateValueBytes owned + action.length * 2 + 64
        let state := setResultView state candidate action none
        match state.candidates[candidate]? with
        | none => (state, false)
        | some record =>
            let whole := outputBytes + finiteMetric projection.capturedBytes
            let bare := !projection.requiresQueryValidation
              && decide (record.estimatedBytes + whole > cacheByteLimit settings)
            let bytes := if bare then outputBytes else whole
            let state :=
              evictViews candidate settings bytes record.resultViews.keys state
            match state.candidates[candidate]? with
            | none => (state, false)
            | some record =>
                if record.estimatedBytes + bytes ≤ cacheByteLimit settings then
                  (setResultView state candidate action (some {
                    output := owned
                    bytes
                    execution
                    inputs := projection.inputs
                    compatibility := projection.compatibility
                    validate := if bare then none else projection.validate
                    resource := if bare then none else projection.resource
                    capturedBytes := bytes - outputBytes
                    requiresQueryValidation := projection.requiresQueryValidation
                  }), true)
                else
                  (state, false)
  | _, _ => (state, false)

/-- Leaving the store drops every view of the candidate. -/
def removeCandidate (candidate : ℕ) : State Output Execution Compatibility Proof :=
  match state.candidates[candidate]? with
  | none => state
  | some record =>
      record.resultViews.keys.foldl (fun state key => setResultView state candidate key none)
        { state with candidates := state.candidates.set candidate { record with stored := false } }

end Views

-- Preparation of a candidate's output

section Preparing

variable (state : State Output Execution Compatibility Proof)

def setPhase (preparation : ℕ) (record : Preparation Output Execution Compatibility Proof)
    (phase : Phase Output Execution Compatibility Proof)
    : State Output Execution Compatibility Proof :=
  { state with preparations := state.preparations.set preparation { record with phase } }

/-- The match `projectOutput` is asked about; the inputs mode replaces the ranked one. -/
def askedMatch (mode : Mode) (matchKind : MatchKind) : MatchKind :=
  if mode = .inputs then .inputs else matchKind

/-- The kept view `projectOutput` may serve: one without its proof only from a branch that
can still commit and validate as a whole.
-/
def servedView (candidate : Candidate Output Execution Compatibility Proof)
    (branch : WorldBranch Output) (action : JsString) (mode : Mode)
    : Option (RetainedResultView Output Execution Compatibility Proof) :=
  if mode = .cached then
    (candidate.resultViews.get? action).filter
      fun view => view.validate.isSome || !branch.inputsOnly
  else
    none

/-- The synchronous part of `projectOutput`: refuse, serve a kept view, answer with the
output itself, or start an evaluation.
-/
def projectOutput (host : Host Output) (preparation : ℕ)
    (record : Preparation Output Execution Compatibility Proof) (mode : Mode)
    (candidate : Candidate Output Execution Compatibility Proof)
    (branch : WorldBranch Output)
    : State Output Execution Compatibility Proof :=
  let matchKind := askedMatch mode record.matchKind
  if branch.inputsOnly && matchKind ≠ .inputs then
    setPhase state preparation record .finished
  else
    match servedView candidate branch record.action mode with
    | some view =>
        match host.cloneSharedData view.output with
        | none => setPhase state preparation record .finished
        | some output =>
            setPhase
              { state with resources := SharedHeap.borrowAny state.resources view.resource }
              preparation record (.validating mode {
                output
                execution := some view.execution
                reused := true
                inputs := view.inputs
                compatibility := view.compatibility
                validate := view.validate
                capturedBytes := some (.finite view.capturedBytes)
                requiresQueryValidation := view.requiresQueryValidation
                resource := view.resource
              })
    | none =>
        if !branch.inputsOnly && matchKind = .exact && mode ≠ .inputs then
          setPhase state preparation record (.validating mode {
            output := branch.output
            execution := none
            reused := false
            inputs := false
            compatibility := none
            validate := none
            capturedBytes := none
            requiresQueryValidation := false
            resource := none
          })
        else
          setPhase state preparation record (.measuring mode)

/-- A projection rule answers only for a projected match outside the inputs mode. -/
def ruleOutput (branch : WorldBranch Output) (matchKind : MatchKind) (mode : Mode)
    (ruled : Option Output)
    : Option Output :=
  if !branch.inputsOnly && matchKind = .projected && mode ≠ .inputs then ruled else none

/-- The branch rebuilds, if it can, only what no rule answered. -/
def rebuiltOutput (branch : WorldBranch Output) (ruled : Option Output)
    (rebuilt : Option (Rebuilt Output Compatibility Proof))
    : Option (Rebuilt Output Compatibility Proof) :=
  if ruled.isSome || !branch.reconstructs then none else rebuilt

/-- The end of `projectOutput`: a rebuilt proof becomes a resource with one reference, or is
disposed of at once.
-/
def finishProjection (preparation : ℕ)
    (record : Preparation Output Execution Compatibility Proof) (mode : Mode)
    (branch : WorldBranch Output)
    (measured : Measured Output Execution Compatibility Proof)
    : State Output Execution Compatibility Proof :=
  match measured with
  | .failed => setPhase state preparation record .finished
  | .done ruled rebuilt computation =>
      let ruled := ruleOutput branch record.matchKind mode ruled
      let rebuilt := rebuiltOutput branch ruled rebuilt
      let dispose := rebuilt.bind Rebuilt.dispose
      let validate := rebuilt.bind Rebuilt.validate
      let requiresQueryValidation :=
        (rebuilt.map Rebuilt.requiresQueryValidation).getD false
      let discard := setPhase { state with discarded := state.discarded ++ dispose.toList }
        preparation record .finished
      if (requiresQueryValidation || mode = .inputs) && validate.isNone then
        discard
      else
        match ruled.or (rebuilt.bind Rebuilt.output) with
        | none => discard
        | some output =>
            setPhase
              {
                state with
                resources := match dispose with
                  | some disposer => SharedHeap.alloc state.resources disposer
                  | none => state.resources
              }
              preparation record (.validating mode {
                output
                execution := some computation
                reused := false
                inputs := rebuilt.isSome
                compatibility := rebuilt.bind Rebuilt.compatibility
                validate
                capturedBytes := rebuilt.bind Rebuilt.capturedBytes
                requiresQueryValidation
                resource := dispose.map fun _ => state.resources.length
              })

/-- A stale projection may be tried again without the view or from the inputs.
`inputsAllowed` says that a shared candidate answers an observation.
-/
def retryPhase (mode : Mode) (projection : Projection Output Execution Compatibility Proof)
    (branch : WorldBranch Output) (status : ValidationStatus) (inputsAllowed : Bool)
    : Phase Output Execution Compatibility Proof :=
  if status = .stale then
    if projection.reused then
      .projecting .output
    else if mode ≠ .inputs && branch.currentActionScope && branch.reconstructs
        && inputsAllowed then
      .projecting .inputs
    else
      .finished
  else
    .finished

/-- What follows a validation: a valid projection goes to the caller, any other gives its
resource back.
-/
def finishValidation (preparation : ℕ)
    (record : Preparation Output Execution Compatibility Proof) (mode : Mode)
    (projection : Projection Output Execution Compatibility Proof)
    (branch : WorldBranch Output) (status : ValidationStatus)
    (inputsAllowed : Bool)
    : State Output Execution Compatibility Proof :=
  match status with
  | .valid => setPhase state preparation record (.prepared projection)
  | status =>
      setPhase (releaseProjectionResource state projection.resource) preparation record
        (retryPhase mode projection branch status inputsAllowed)

end Preparing

-- The system

/-- `resultBytes` are assigned by the execution before it succeeds, and the branch may count
its captured bytes anew at any time.
-/
inductive Event (Output Execution Compatibility Proof : Type) where
  | createCandidate (estimatedBytes : ℚ)
  | assignBytes (candidate : ℕ) (estimatedBytes : ℚ)
  | succeed (candidate : ℕ) (branch : WorldBranch Output)
  | recount (candidate : ℕ) (capturedBytes : ℚ)
  | removeCandidate (candidate : ℕ)
  | prepare (candidate : ℕ) (action : JsString) (matchKind : MatchKind) (caller : Caller)
  | stop (preparation : ℕ)
  | project (preparation : ℕ)
  | measured (preparation : ℕ) (result : Measured Output Execution Compatibility Proof)
  | validated (preparation : ℕ) (status : ValidationStatus) (inputsAllowed : Bool)
  | retain (preparation : ℕ) (settings : Settings)
  | release (preparation : ℕ)

section System

variable (host : Host Output)

def stepCandidate (state : State Output Execution Compatibility Proof) (candidate : ℕ)
    (change
      : Candidate Output Execution Compatibility Proof
        → Candidate Output Execution Compatibility Proof)
    : State Output Execution Compatibility Proof :=
  { state with candidates := state.candidates.modify candidate change }

/-- Resume one preparation; an event that does not fit its phase changes nothing. -/
def stepPreparation (state : State Output Execution Compatibility Proof) (preparation : ℕ)
    (record : Preparation Output Execution Compatibility Proof)
    (candidate : Candidate Output Execution Compatibility Proof)
    (branch : WorldBranch Output)
    (event : Event Output Execution Compatibility Proof)
    : State Output Execution Compatibility Proof :=
  match event, record.phase with
  | .stop _, .projecting _ => setPhase state preparation record .finished
  | .project _, .projecting mode =>
      projectOutput state host preparation record mode candidate branch
  | .measured _ result, .measuring mode =>
      finishProjection state preparation record mode branch result
  | .validated _ status inputsAllowed, .validating mode projection =>
      finishValidation state preparation record mode projection branch status inputsAllowed
  | .retain _ settings, .prepared projection =>
      -- A preview keeps its result only while the candidate is still stored.
      if record.caller = .promoteActorCall && !candidate.stored then
        state
      else
        (retainResultView state host record.candidate record.action projection settings).1
  | .release _, .prepared projection =>
      setPhase (releaseProjectionResource state projection.resource) preparation record .finished
  | _, _ => state

def step (state : State Output Execution Compatibility Proof)
    (event : Event Output Execution Compatibility Proof)
    : State Output Execution Compatibility Proof :=
  match event with
  | .createCandidate bytes =>
      {
        state with
        candidates := state.candidates ++ [{
          stored := true
          branch := none
          resultBytes := bytes
          ownBytes := bytes
          resultViews := OrderedMap.empty
        }]
      }
  | .assignBytes candidate bytes =>
      stepCandidate state candidate fun record =>
        if record.branch.isNone then
          { record.setEstimatedBytes bytes with ownBytes := bytes }
        else
          record
  | .succeed candidate branch =>
      stepCandidate state candidate fun record =>
        if record.branch.isNone then { record with branch := some branch } else record
  | .recount candidate bytes =>
      stepCandidate state candidate fun record =>
        { record with branch := record.branch.map fun branch => { branch with capturedBytes := bytes } }
  | .removeCandidate candidate => removeCandidate state candidate
  | .prepare candidate action matchKind caller =>
      -- Only a succeeded execution has a branch to project.
      if ((state.candidates[candidate]?).bind Candidate.branch).isSome then
        {
          state with
          preparations := state.preparations
            ++ [{ candidate, action, matchKind, caller, phase := .projecting .cached }]
        }
      else
        state
  | .stop preparation | .project preparation | .measured preparation _
  | .validated preparation _ _ | .retain preparation _ | .release preparation =>
      match state.preparations[preparation]? with
      | none => state
      | some record =>
          match state.candidates[record.candidate]? with
          | none => state
          | some candidate =>
              match candidate.branch with
              | none => state
              | some branch =>
                  stepPreparation host state preparation record candidate branch event

end System

end SpeculativeAction.ResultViews
