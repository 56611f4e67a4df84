import SpeculativeAction.Library.Memo
import SpeculativeAction.ReuseLookup.Observation

/-! The lookup of a replayable certificate: candidates are tried in order, and those that ask for
the same observation share it.
-/

namespace SpeculativeAction.ReuseLookup

open SpeculativeAction.Library

-- Certificates

inductive DescriptorType where
  | closed | regular | null | directory | pipe | socket | eventfd | tty | device | other
deriving DecidableEq, Repr

structure InheritedFileDescriptor where
  fd : ℕ
  type : DescriptorType
  contentDigest : Option JsString
  /-- Kernel object representative. -/
  object : Option ℕ
  eof : Option Bool
deriving DecidableEq, Repr

structure ProcessStdin where
  closed : Bool
  digest : Option JsString
  eof : Bool
deriving DecidableEq, Repr

/-- What of the exec identity decides whether a result may be replayed. -/
structure ExecPrototype where
  executablePath : JsString
  environmentComplete : Bool
  fileDescriptorTableComplete : Bool
  stdin : ProcessStdin
  inheritedFDs : List InheritedFileDescriptor
deriving DecidableEq, Repr

structure ResourceObjectEffect where
  id : ℕ
  consumed : Option ℕ
deriving DecidableEq, Repr

/-- A sealed certificate: its dependencies are a normal form, and its key was taken of them. -/
structure ProcessProvenanceCertificate (hash : JsString → JsString) (Producer : Type) where
  id : JsString
  weakKey : JsString
  strongKey : JsString
  prototype : ExecPrototype
  producer : Producer
  evidence : DynamicDependencyCertificate
  resourceObjects : List ResourceObjectEffect
  continuation : Bool
  sealed : ∃ recorded, DynamicDependency.normalizeDependencies recorded = some evidence.dependencies
  strong
    : DynamicDependency.processStrongKey hash weakKey evidence.dependencies = some strongKey

inductive ReplaySink where
  | buffered | pipe | tty | interactive
deriving DecidableEq, Repr

structure ReplayObservationContract where
  sink : ReplaySink
  orderedJournal : Bool
  transactionalEffects : Bool
  continuation : Bool
deriving DecidableEq, Repr

inductive ProcessReuseMissReason where
  | noCandidatePathset
  | certificateTainted
  | producerGuaranteeIncompatible
  | dependencyChanged
  | validationIndeterminate
  | artifactMissing
  | artifactUnreadable
  | observationContractIncompatible
deriving DecidableEq, Repr

variable {hash : JsString → JsString} {Producer Closure State : Type}

/-- Sealed handoff candidates and the taints that their transfer accepts. -/
structure LiveCandidates (hash : JsString → JsString) (Producer : Type) where
  certificates : List (ProcessProvenanceCertificate hash Producer)
  acceptedTaints : List ProvenanceTaint

structure ProcessReuseRequest (hash : JsString → JsString) (Producer : Type) where
  weakKey : JsString
  /-- Coarse index partition. -/
  executablePath : JsString
  contract : ReplayObservationContract
  validation : ProvenanceValidationContext
  acceptedTaints : List ProvenanceTaint
  acceptProducer : Option (Producer → Bool)
  excludedCertificates : List JsString
  live : Option (LiveCandidates hash Producer)

/-- What loading the artifacts of a certificate gives. -/
inductive LoadedArtifacts (Closure : Type) where
  | unreadable
  | missing
  | loaded (artifacts : Closure)

inductive ReplayKind where
  | completedReplay
  | runningResume
deriving DecidableEq, Repr

/-- The decision of a lookup; `rejected` when it throws. Its counters and the names of changed
dependencies only report on it.
-/
inductive ProcessReusePlan (hash : JsString → JsString) (Producer Closure : Type) where
  | ready (kind : ReplayKind) (live : Bool)
    (certificate : ProcessProvenanceCertificate hash Producer) (strongKey : JsString)
    (dependencies : List DynamicDependency) (artifacts : Closure)
  | miss (reasons : List ProcessReuseMissReason)
  | rejected

/-- How a plan replays, whether live, and the certificate that it replays. -/
def ProcessReusePlan.replayed
    : ProcessReusePlan hash Producer Closure → Option (ReplayKind × Bool × JsString)
  | .ready kind live certificate .. => some (kind, live, certificate.id)
  | _ => none

theorem ProcessReusePlan.ready_of_replayed {plan : ProcessReusePlan hash Producer Closure}
    {kind : ReplayKind} {live : Bool} {id : JsString}
    (replayed : plan.replayed = some (kind, live, id))
    : ∃ certificate strongKey dependencies artifacts,
        plan = .ready kind live certificate strongKey dependencies artifacts
        ∧ certificate.id = id := by
  cases plan with
  | ready planKind planLive certificate strongKey dependencies artifacts =>
      simp only [ProcessReusePlan.replayed, Option.some.injEq, Prod.mk.injEq] at replayed
      obtain ⟨rfl, rfl, same⟩ := replayed
      exact ⟨certificate, strongKey, dependencies, artifacts, rfl, same⟩
  | miss reasons => cases replayed
  | rejected => cases replayed

-- Candidates

section Candidates

variable (certificate : ProcessProvenanceCertificate hash Producer)

def stdinReplayable : Bool :=
  let stdin := certificate.prototype.stdin
  let input := certificate.prototype.inheritedFDs.find? fun descriptor => descriptor.fd = 0
  stdin.closed
    || stdin.digest.any ContentChunks.isSha256Digest
      && (stdin.eof
        || input.any fun input =>
          decide (input.type = .pipe ∨ input.type = .socket) && decide (input.eof = some false)
            && decide (input.contentDigest = stdin.digest)
            && certificate.resourceObjects.any fun effect =>
              decide (some effect.id = input.object) && effect.consumed.isSome)

def certificateReplayable (acceptedTaints : List ProvenanceTaint) : Bool :=
  certificate.evidence.complete && certificate.evidence.taints.all acceptedTaints.contains
    && certificate.prototype.environmentComplete
    && certificate.prototype.fileDescriptorTableComplete && stdinReplayable certificate

def contractCompatible (contract : ReplayObservationContract) : Bool :=
  contract.orderedJournal && contract.transactionalEffects && decide (contract.sink = .buffered)
    && (!certificate.continuation
      || contract.continuation && !certificate.evidence.taints.any fun taint =>
        decide (taint = .pidObservation ∨ taint = .descriptorObservation))

/-- Why a candidate is passed over before its dependencies are looked at. A continuation is for
live candidates only.
-/
def refusal (request : ProcessReuseRequest hash Producer) (acceptedTaints : List ProvenanceTaint)
    (live : Bool)
    : Option ProcessReuseMissReason :=
  if request.acceptProducer.any fun accept => !accept certificate.producer then
    some .producerGuaranteeIncompatible
  else if !certificateReplayable certificate acceptedTaints then some .certificateTainted
  else if !contractCompatible certificate request.contract || certificate.continuation && !live then
    some .observationContractIncompatible
  else none

end Candidates

/-- Live candidates of the weak key. -/
def liveCandidates (request : ProcessReuseRequest hash Producer)
    : List (ProcessProvenanceCertificate hash Producer) :=
  ((request.live.map LiveCandidates.certificates).getD []).filter fun certificate =>
    decide (certificate.weakKey = request.weakKey)

/-- Stored certificates of the weak key, in the order of the rows. -/
def candidatesByWeakKey (request : ProcessReuseRequest hash Producer)
    (stored : List (ProcessProvenanceCertificate hash Producer))
    : List (ProcessProvenanceCertificate hash Producer) :=
  stored.filter fun certificate =>
    decide (certificate.weakKey = request.weakKey)
      && decide (certificate.prototype.executablePath = request.executablePath)
      && !request.excludedCertificates.contains certificate.id

def isLive (request : ProcessReuseRequest hash Producer) : Bool := !(liveCandidates request).isEmpty

def acceptedTaints (request : ProcessReuseRequest hash Producer) : List ProvenanceTaint :=
  request.acceptedTaints
    ++ if isLive request then (request.live.map LiveCandidates.acceptedTaints).getD [] else []

def candidates (request : ProcessReuseRequest hash Producer)
    (stored : List (ProcessProvenanceCertificate hash Producer))
    : List (ProcessProvenanceCertificate hash Producer) :=
  if isLive request then liveCandidates request else candidatesByWeakKey request stored

-- Current inputs

/-- The current inputs of a candidate; `rejected` when their key cannot be taken. -/
inductive CurrentInputs where
  | unavailable
  | current (strongKey : JsString) (dependencies : List DynamicDependency)
  | rejected

/-- A fresh observation of what the evidence asks for, and the key of what was observed. -/
def freshInputs (hash : JsString → JsString) (context : ProvenanceValidationContext)
    (weakKey : JsString) (acceptedTaints : List ProvenanceTaint)
    (evidence : DynamicDependencyCertificate)
    : CurrentInputs :=
  match validateDynamicDependencyCertificate hash context acceptedTaints evidence with
  | none => .unavailable
  | some dependencies =>
      match DynamicDependency.processStrongKey hash weakKey dependencies with
      | none => .rejected
      | some strongKey => .current strongKey dependencies

/-- The name under which an observation is shared. -/
def observationName (hash : JsString → JsString) (evidence : DynamicDependencyCertificate)
    : JsString :=
  joinComma (evidence.taints.map ProvenanceTaint.text) ++ unit ':'
    :: (DynamicDependency.dependencyPathsetKey hash evidence.dependencies).getD []

/-- `observeProcessInputs`: evidence with one name is observed once in a lookup. -/
def observeProcessInputs (hash : JsString → JsString) (context : ProvenanceValidationContext)
    (weakKey : JsString) (acceptedTaints : List ProvenanceTaint)
    (walked : OrderedMap JsString CurrentInputs) (evidence : DynamicDependencyCertificate)
    : CurrentInputs × OrderedMap JsString CurrentInputs :=
  if !evidence.complete then (.unavailable, walked)
  else if (DynamicDependency.dependencyPathsetKey hash evidence.dependencies).isNone then
    (.rejected, walked)
  else
    Memo.remember (observationName hash) (freshInputs hash context weakKey acceptedTaints) walked
      evidence

-- Lookups

def addReason (reasons : List ProcessReuseMissReason) (reason : ProcessReuseMissReason)
    : List ProcessReuseMissReason :=
  if reason ∈ reasons then reasons else reasons ++ [reason]

/-- What becomes of a candidate: a plan, or the reason to go on with the next one. -/
def judge (load : ProcessProvenanceCertificate hash Producer → LoadedArtifacts Closure)
    (live : Bool) (certificate : ProcessProvenanceCertificate hash Producer)
    : CurrentInputs → ProcessReusePlan hash Producer Closure ⊕ ProcessReuseMissReason
  | .rejected => .inl .rejected
  | .unavailable => .inr .validationIndeterminate
  | .current strongKey dependencies =>
      if certificate.strongKey ≠ strongKey then .inr .dependencyChanged
      else
        match load certificate with
        | .unreadable => .inr .artifactUnreadable
        | .missing => .inr .artifactMissing
        | .loaded artifacts =>
            .inl (.ready (if certificate.continuation then .runningResume else .completedReplay)
              live certificate strongKey dependencies artifacts)

/-- Try the candidates in order, with a way to get their current inputs. -/
def tryCandidates
    (observe : State → DynamicDependencyCertificate → CurrentInputs × State)
    (load : ProcessProvenanceCertificate hash Producer → LoadedArtifacts Closure)
    (request : ProcessReuseRequest hash Producer)
    : State → List ProcessReuseMissReason → List (ProcessProvenanceCertificate hash Producer)
      → ProcessReusePlan hash Producer Closure
  | _, reasons, [] => .miss (if reasons.isEmpty then [.noCandidatePathset] else reasons)
  | state, reasons, certificate :: rest =>
      match refusal certificate request (acceptedTaints request) (isLive request) with
      | some reason => tryCandidates observe load request state (addReason reasons reason) rest
      | none =>
          match judge load (isLive request) certificate (observe state certificate.evidence).1 with
          | .inl plan => plan
          | .inr reason =>
              tryCandidates observe load request (observe state certificate.evidence).2
                (addReason reasons reason) rest

/-- `ProcessReusePlanner.lookup`: one observation for all candidates that ask for the same. -/
def lookup (load : ProcessProvenanceCertificate hash Producer → LoadedArtifacts Closure)
    (request : ProcessReuseRequest hash Producer)
    (stored : List (ProcessProvenanceCertificate hash Producer))
    : ProcessReusePlan hash Producer Closure :=
  if !ContentChunks.isSha256Digest request.weakKey then .rejected
  else
    tryCandidates
      (observeProcessInputs hash request.validation request.weakKey (acceptedTaints request))
      load request .empty [] (candidates request stored)

/-- Every candidate is validated by itself, with an observation of its own. -/
def lookupIndependently
    (load : ProcessProvenanceCertificate hash Producer → LoadedArtifacts Closure)
    (request : ProcessReuseRequest hash Producer)
    (stored : List (ProcessProvenanceCertificate hash Producer))
    : ProcessReusePlan hash Producer Closure :=
  if !ContentChunks.isSha256Digest request.weakKey then .rejected
  else
    tryCandidates
      (fun _ evidence =>
        (freshInputs hash request.validation request.weakKey (acceptedTaints request) evidence, ()))
      load request () [] (candidates request stored)

end SpeculativeAction.ReuseLookup
