import SpeculativeAction.ReuseLookup.Lookup
import SpeculativeAction.ReuseLookup.Observed

/-! Sharing observations changes no decision of a lookup, and what it replays is of the present. -/

namespace SpeculativeAction.ReuseLookup

open SpeculativeAction.Library

variable {hash : JsString → JsString} {Producer Closure State : Type}

-- Names of observations

section Names

/-- The first separator of a text splits it in one way. -/
theorem append_separator_inj {separator : CodeUnit} {left right leftRest rightRest : JsString}
    (leftFree : separator ∉ left) (rightFree : separator ∉ right)
    (same : left ++ separator :: leftRest = right ++ separator :: rightRest)
    : leftRest = rightRest := by
  induction left generalizing right with
  | nil =>
      cases right with
      | nil => exact (List.cons.inj same).2
      | cons head tail => exact absurd ((List.cons.inj same).1 ▸ List.mem_cons_self) rightFree
  | cons head tail ih =>
      cases right with
      | nil => exact absurd ((List.cons.inj same).1 ▸ List.mem_cons_self) leftFree
      | cons other rest =>
          exact ih (fun member => leftFree (List.mem_cons_of_mem _ member))
            (fun member => rightFree (List.mem_cons_of_mem _ member)) (List.cons.inj same).2

theorem mem_joinComma {texts : List JsString} {value : CodeUnit} (member : value ∈ joinComma texts)
    : value = unit ',' ∨ ∃ text ∈ texts, value ∈ text := by
  induction texts with
  | nil => cases member
  | cons text rest ih =>
      cases rest with
      | nil => exact .inr ⟨text, List.mem_cons_self, member⟩
      | cons next later =>
          rw [joinComma] at member
          · rcases List.mem_append.mp member with inside | member
            · exact .inr ⟨text, List.mem_cons_self, inside⟩
            · rcases List.mem_cons.mp member with same | member
              · exact .inl same
              · rcases ih member with same | found
                · exact .inl same
                · obtain ⟨other, listed, inside⟩ := found
                  exact .inr ⟨other, List.mem_cons_of_mem _ listed, inside⟩
          · simp

theorem colon_not_mem_taints (taints : List ProvenanceTaint)
    : unit ':' ∉ joinComma (taints.map ProvenanceTaint.text) := by
  intro member
  rcases mem_joinComma member with same | ⟨text, listed, inside⟩
  · revert same
    decide
  · obtain ⟨taint, _, rfl⟩ := List.mem_map.mp listed
    revert inside
    cases taint <;> decide +kernel

end Names

-- Shared inputs

/-- Evidence of a candidate that is not passed over. -/
structure Eligible (acceptedTaints : List ProvenanceTaint) (evidence : DynamicDependencyCertificate)
    : Prop where
  complete : evidence.complete = true
  taints : evidence.taints.all acceptedTaints.contains = true
  normal : DynamicDependency.Normal evidence.dependencies

section Inputs

variable {context : ProvenanceValidationContext} {weakKey : JsString}
  {accepted : List ProvenanceTaint} {left right evidence : DynamicDependencyCertificate}

/-- Evidence with one name is observed the same. -/
theorem freshInputs_congr (injective : Function.Injective hash) (first : Eligible accepted left)
    (second : Eligible accepted right)
    (same : observationName hash left = observationName hash right)
    : freshInputs hash context weakKey accepted left
      = freshInputs hash context weakKey accepted right := by
  have keys := append_separator_inj (colon_not_mem_taints left.taints)
    (colon_not_mem_taints right.taints) same
  rw [DynamicDependency.dependencyPathsetKey, DynamicDependency.dependencyPathsetKey,
    first.normal.normalizeDependencies_eq, second.normal.normalizeDependencies_eq] at keys
  have checks : left.dependencies.map (check hash context)
      = right.dependencies.map (check hash context) :=
    map_check_congr (DynamicDependency.pathsets_same injective keys)
  have observations
      : validateDynamicDependencyCertificate hash context accepted left
        = validateDynamicDependencyCertificate hash context accepted right := by
    simp only [validateDynamicDependencyCertificate, first.complete, second.complete, first.taints,
      second.taints, checks]
  rw [freshInputs, freshInputs, observations]

theorem observeProcessInputs_spec (injective : Function.Injective hash)
    {walked : OrderedMap JsString CurrentInputs}
    (recalls
      : Memo.Recalls (Eligible accepted) (observationName hash)
          (freshInputs hash context weakKey accepted) walked)
    (eligible : Eligible accepted evidence)
    : (observeProcessInputs hash context weakKey accepted walked evidence).1
        = freshInputs hash context weakKey accepted evidence
      ∧ Memo.Recalls (Eligible accepted) (observationName hash)
          (freshInputs hash context weakKey accepted)
          (observeProcessInputs hash context weakKey accepted walked evidence).2 := by
  have named
      : (DynamicDependency.dependencyPathsetKey hash evidence.dependencies).isNone = false := by
    rw [DynamicDependency.dependencyPathsetKey, eligible.normal.normalizeDependencies_eq]
    rfl
  rw [observeProcessInputs, eligible.complete, named]
  exact recalls.remember (fun _ _ first second => freshInputs_congr injective first second) eligible

end Inputs

-- Candidates in order

section Trying

variable {load : ProcessProvenanceCertificate hash Producer → LoadedArtifacts Closure}
  {request : ProcessReuseRequest hash Producer}
  {certificates : List (ProcessProvenanceCertificate hash Producer)}
  {certificate : ProcessProvenanceCertificate hash Producer}
  {fresh : DynamicDependencyCertificate → CurrentInputs}
  {observe : State → DynamicDependencyCertificate → CurrentInputs × State}
  {dependencies : List DynamicDependency}

theorem eligible_of_refusal {accepted : List ProvenanceTaint} {live : Bool}
    (taken : refusal certificate request accepted live = none)
    : Eligible accepted certificate.evidence := by
  have replayable : certificateReplayable certificate accepted = true := by
    by_contra other
    rw [refusal] at taken
    split at taken
    · cases taken
    · rw [Bool.not_eq_true _ |>.mp other] at taken
      cases taken
  simp only [certificateReplayable, Bool.and_eq_true] at replayable
  obtain ⟨recorded, sealed⟩ := certificate.sealed
  exact ⟨replayable.1.1.1.1, replayable.1.1.1.2,
    (DynamicDependency.normalizeDependencies_spec sealed).1⟩

/-- A way to get inputs that agrees with fresh ones on every eligible candidate decides the same:
by induction over the candidates, what it remembers stays good.
-/
theorem tryCandidates_congr (good : State → Prop)
    (each
      : ∀ state evidence,
          good state → Eligible (acceptedTaints request) evidence
          → (observe state evidence).1 = fresh evidence ∧ good (observe state evidence).2)
    {state : State} (remembered : good state) (reasons : List ProcessReuseMissReason)
    : tryCandidates observe load request state reasons certificates
      = tryCandidates (fun _ evidence => (fresh evidence, ())) load request () reasons
          certificates := by
  induction certificates generalizing state reasons with
  | nil => rfl
  | cons certificate rest ih =>
      rw [tryCandidates, tryCandidates]
      cases taken : refusal certificate request (acceptedTaints request) (isLive request) with
      | some reason => exact ih remembered _
      | none =>
          obtain ⟨same, next⟩ := each state certificate.evidence remembered
            (eligible_of_refusal taken)
          dsimp only
          rw [same]
          cases judge load (isLive request) certificate (fresh certificate.evidence) with
          | inl plan => rfl
          | inr reason => exact ih next _

theorem judge_eq_ready {inputs : CurrentInputs} {kind : ReplayKind} {live from_ : Bool}
    {chosen : ProcessProvenanceCertificate hash Producer} {strongKey : JsString}
    {artifacts : Closure}
    (judged
      : judge load from_ certificate inputs
        = .inl (.ready kind live chosen strongKey dependencies artifacts))
    : chosen = certificate ∧ strongKey = certificate.strongKey
      ∧ inputs = .current strongKey dependencies
      ∧ (kind = .runningResume → certificate.continuation = true) ∧ live = from_ := by
  cases inputs with
  | unavailable => cases judged
  | rejected => cases judged
  | current key observed =>
      rw [judge] at judged
      split at judged
      · cases judged
      · next same =>
          rw [not_not] at same
          cases loaded : load certificate with
          | unreadable =>
              rw [loaded] at judged
              cases judged
          | missing =>
              rw [loaded] at judged
              cases judged
          | loaded closure =>
              rw [loaded] at judged
              cases judged
              refine ⟨rfl, same.symm, rfl, fun resumed => ?_, rfl⟩
              by_contra complete
              rw [if_neg complete] at resumed
              cases resumed

/-- A plan that is ready replays a candidate that was not passed over, whose inputs have its key.
-/
theorem ready_of_tryCandidates {state : State} {reasons : List ProcessReuseMissReason}
    {kind : ReplayKind} {live : Bool} {strongKey : JsString} {artifacts : Closure}
    (planned
      : tryCandidates observe load request state reasons certificates
        = .ready kind live certificate strongKey dependencies artifacts)
    : certificate ∈ certificates
      ∧ refusal certificate request (acceptedTaints request) (isLive request) = none
      ∧ strongKey = certificate.strongKey
      ∧ (∃ state, (observe state certificate.evidence).1 = .current strongKey dependencies)
      ∧ (kind = .runningResume → certificate.continuation = true) ∧ live = isLive request := by
  induction certificates generalizing state reasons with
  | nil => cases planned
  | cons head rest ih =>
      rw [tryCandidates] at planned
      cases taken : refusal head request (acceptedTaints request) (isLive request) with
      | some reason =>
          rw [taken] at planned
          obtain ⟨member, facts⟩ := ih planned
          exact ⟨List.mem_cons_of_mem _ member, facts⟩
      | none =>
          rw [taken] at planned
          dsimp only at planned
          cases judged : judge load (isLive request) head (observe state head.evidence).1 with
          | inl plan =>
              rw [judged] at planned
              dsimp only at planned
              rw [planned] at judged
              obtain ⟨rfl, key, inputs, facts⟩ := judge_eq_ready judged
              exact ⟨List.mem_cons_self, taken, key, ⟨state, inputs⟩, facts⟩
          | inr reason =>
              rw [judged] at planned
              obtain ⟨member, facts⟩ := ih planned
              exact ⟨List.mem_cons_of_mem _ member, facts⟩

end Trying

-- Exact evidence

section Exactness

variable {context : ProvenanceValidationContext} {accepted : List ProvenanceTaint}
  {certificate : ProcessProvenanceCertificate hash Producer}

/-- Inputs with the key of a certificate are exactly its evidence: the digest fixes the normal
form of what was observed, and each observation keeps the identity of what it was taken for.
-/
theorem exact_of_freshInputs (injective : Function.Injective hash) {weakKey : JsString}
    {dependencies : List DynamicDependency}
    (inputs
      : freshInputs hash context weakKey accepted certificate.evidence
        = .current certificate.strongKey dependencies)
    : ∀ dependency ∈ certificate.evidence.dependencies,
        check hash context dependency = .observed dependency := by
  obtain ⟨recorded, sealed⟩ := certificate.sealed
  have normal := (DynamicDependency.normalizeDependencies_spec sealed).1
  rw [freshInputs] at inputs
  split at inputs
  · cases inputs
  next observed validated =>
  split at inputs
  · cases inputs
  next strongKey keyed =>
  obtain ⟨rfl, rfl⟩ := CurrentInputs.current.inj inputs
  obtain ⟨current, normalized, currentKey⟩ := Option.map_eq_some_iff.mp keyed
  have strong := certificate.strong
  rw [DynamicDependency.processStrongKey, normal.normalizeDependencies_eq] at strong
  have same := DynamicDependency.strongKeys_same injective
    (currentKey.trans (Option.some.inj strong).symm)
  intro dependency member
  rw [← same] at member
  obtain ⟨source, inside, canonical⟩ :=
    (DynamicDependency.normalizeDependencies_spec normalized).2 dependency member
  -- The observation that this evidence is the normal form of, and what it was taken for.
  have outcome : ∃ expected ∈ certificate.evidence.dependencies,
      check hash context expected = .observed source := by
    rw [validateDynamicDependencyCertificate] at validated
    split at validated
    · cases validated
    · split at validated
      · cases validated
      · split at validated
        · rw [← Option.some.inj validated, List.mem_filterMap] at inside
          obtain ⟨outcome, listed, shown⟩ := inside
          obtain ⟨expected, there, rfl⟩ := List.mem_map.mp listed
          refine ⟨expected, there, ?_⟩
          cases checked : check hash context expected with
          | observed found =>
              rw [checked] at shown
              exact congrArg _ (Option.some.inj shown)
          | gone =>
              rw [checked] at shown
              cases shown
          | failed =>
              rw [checked] at shown
              cases shown
        · cases validated
  obtain ⟨expected, there, checked⟩ := outcome
  obtain ⟨identity, unchanged⟩ := check_spec checked
  rw [unchanged] at canonical
  subst canonical
  rw [same] at member
  obtain rfl := normal.eq_of_identity there member identity.symm
  exact checked

end Exactness

/-- A lookup that shares observations decides as one that validates each candidate by itself, and
what it replays or resumes has exactly its recorded evidence now.
-/
theorem lookup_shares_exactly (injective : Function.Injective hash)
    (load : ProcessProvenanceCertificate hash Producer → LoadedArtifacts Closure)
    (request : ProcessReuseRequest hash Producer)
    (stored : List (ProcessProvenanceCertificate hash Producer))
    : lookup load request stored = lookupIndependently load request stored
      ∧ ∀ kind live certificate strongKey dependencies artifacts,
          lookup load request stored
            = .ready kind live certificate strongKey dependencies artifacts
          → certificate ∈ candidates request stored
            ∧ ∀ dependency ∈ certificate.evidence.dependencies,
                check hash request.validation dependency = .observed dependency := by
  have same : lookup load request stored = lookupIndependently load request stored := by
    rw [lookup, lookupIndependently]
    split
    · rfl
    · refine tryCandidates_congr
        (Memo.Recalls (Eligible (acceptedTaints request)) (observationName hash)
          (freshInputs hash request.validation request.weakKey (acceptedTaints request)))
        ?_ .empty []
      intro walked evidence recalls eligible
      exact observeProcessInputs_spec injective recalls eligible
  refine ⟨same, fun kind live certificate strongKey dependencies artifacts planned => ?_⟩
  rw [same, lookupIndependently] at planned
  split at planned
  · cases planned
  · obtain ⟨member, _, rfl, ⟨_, inputs⟩, _⟩ := ready_of_tryCandidates planned
    exact ⟨member, exact_of_freshInputs injective inputs⟩

/-- A plan is authorised: it is for the requested identity, its producer is accepted, its result
may be replayed under the accepted taints and the contract, and only a live continuation is
resumed.
-/
theorem lookup_authorises
    {load : ProcessProvenanceCertificate hash Producer → LoadedArtifacts Closure}
    {request : ProcessReuseRequest hash Producer}
    {stored : List (ProcessProvenanceCertificate hash Producer)} {kind : ReplayKind} {live : Bool}
    {certificate : ProcessProvenanceCertificate hash Producer} {strongKey : JsString}
    {dependencies : List DynamicDependency} {artifacts : Closure}
    (planned
      : lookup load request stored
        = .ready kind live certificate strongKey dependencies artifacts)
    : certificate.weakKey = request.weakKey
      ∧ (∀ accept, request.acceptProducer = some accept → accept certificate.producer = true)
      ∧ certificateReplayable certificate (acceptedTaints request) = true
      ∧ contractCompatible certificate request.contract = true
      ∧ (kind = .runningResume → certificate ∈ liveCandidates request) := by
  rw [lookup] at planned
  split at planned
  · cases planned
  obtain ⟨member, taken, _, _, resumes, _⟩ := ready_of_tryCandidates planned
  have key : certificate.weakKey = request.weakKey := by
    rw [candidates] at member
    split at member
    · exact of_decide_eq_true (List.mem_filter.mp member).2
    · have found := (List.mem_filter.mp member).2
      simp only [Bool.and_eq_true, decide_eq_true_eq] at found
      exact found.1.1
  rw [refusal] at taken
  split at taken
  · cases taken
  next producer =>
  split at taken
  · cases taken
  next replayable =>
  split at taken
  · cases taken
  next compatible =>
  rw [Bool.not_eq_true, Bool.or_eq_false_iff] at compatible
  refine ⟨key, fun accept given => ?_, by simpa using replayable, by simpa using compatible.1,
    fun resumed => ?_⟩
  · rw [given] at producer
    simpa using producer
  · have continued := compatible.2
    rw [resumes resumed, Bool.true_and, Bool.not_eq_false'] at continued
    rw [candidates, if_pos continued] at member
    exact member

-- A lookup that replays

def sampleDigest (last : Char) : JsString := units "sha256:" ++ List.replicate 64 (unit last)

/-- An absence, a lock, and the metadata of the locked file. -/
def sampleDependencies (metadata : Char) : List DynamicDependency :=
  [.absence (units "/a") none none, .lock (units "/b") true,
    .metadata (units "/b") false (sampleDigest metadata) none]

theorem sampleDependencies_normal {metadata : Char} (either : metadata = 'a' ∨ metadata = 'b')
    : DynamicDependency.Normal (sampleDependencies metadata) := by
  rcases either with rfl | rfl
  · exact ⟨by decide +kernel, by decide +kernel, by decide +kernel⟩
  · exact ⟨by decide +kernel, by decide +kernel, by decide +kernel⟩

/-- A certificate of one producer that saw the file with some metadata. -/
def sampleCertificate (name metadata : Char) (either : metadata = 'a' ∨ metadata = 'b')
    (continuation : Bool)
    : ProcessProvenanceCertificate id ℕ where
  id := sampleDigest name
  weakKey := sampleDigest 'e'
  strongKey := DynamicDependency.digestObject id (record
    [(.weakKey, .string (sampleDigest 'e')),
      (.dependencies, .array ((sampleDependencies metadata).map DynamicDependency.data))])
  prototype := {
    executablePath := units "/bin/true"
    environmentComplete := true
    fileDescriptorTableComplete := true
    stdin := { closed := true, digest := none, eof := false }
    inheritedFDs := []
  }
  producer := 1
  evidence := { complete := true, dependencies := sampleDependencies metadata, taints := [.clock] }
  resourceObjects := []
  continuation
  sealed :=
    ⟨sampleDependencies metadata, (sampleDependencies_normal either).normalizeDependencies_eq⟩
  strong := by
    rw [DynamicDependency.processStrongKey,
      (sampleDependencies_normal either).normalizeDependencies_eq]
    rfl

/-- Only `/b` is there, with the metadata `b`, and no one holds a lock of it. -/
def sampleContext : ProvenanceValidationContext where
  filesystem := {
    stat := fun target _ =>
      if target = units "/b" then
        .ok { isFile := true, isDirectory := false, nlink := 1, identity := [] }
      else .error .missing
    captureFileDigest := fun _ => .error .missing
    captureFilesystemEntry := fun _ _ => .error .missing
    locked := fun _ _ => .ok false
    filesystemMetadataDigest := fun _ => sampleDigest 'b'
    filesystemObservationDigest := fun _ _ => sampleDigest 'b'
  }
  resolvePath := some
  fileDescriptors := fun _ => none
  verifies := true

/-- Only the first producer is accepted. -/
def sampleRequest (live : Option (LiveCandidates id ℕ)) : ProcessReuseRequest id ℕ where
  weakKey := sampleDigest 'e'
  executablePath := units "/bin/true"
  contract := {
    sink := .buffered
    orderedJournal := true
    transactionalEffects := true
    continuation := live.isSome
  }
  validation := sampleContext
  acceptedTaints := [.clock]
  acceptProducer := some fun producer => decide (producer = 1)
  excludedCertificates := []
  live

def staleCertificate : ProcessProvenanceCertificate id ℕ :=
  sampleCertificate 'c' 'a' (.inl rfl) false

def freshCertificate : ProcessProvenanceCertificate id ℕ :=
  sampleCertificate 'd' 'b' (.inr rfl) false

/-- The second of two certificates that share one observation is replayed. -/
theorem lookup_shares_exactly_sample
    : observationName id staleCertificate.evidence = observationName id freshCertificate.evidence
      ∧ lookup (fun _ => .loaded ()) (sampleRequest none) [staleCertificate, freshCertificate]
        = lookupIndependently (fun _ => .loaded ()) (sampleRequest none)
            [staleCertificate, freshCertificate]
      ∧ ∃ certificate strongKey dependencies artifacts,
          lookup (fun _ => .loaded ()) (sampleRequest none) [staleCertificate, freshCertificate]
            = .ready .completedReplay false certificate strongKey dependencies artifacts
          ∧ certificate.id = sampleDigest 'd'
          ∧ ∀ dependency ∈ certificate.evidence.dependencies,
              check id sampleContext dependency = .observed dependency := by
  have shared := lookup_shares_exactly Function.injective_id (fun _ => .loaded ())
    (sampleRequest none) [staleCertificate, freshCertificate]
  have replayed
      : (lookup (fun _ => .loaded ()) (sampleRequest none)
          [staleCertificate, freshCertificate]).replayed
        = some (.completedReplay, false, sampleDigest 'd') := by
    decide +kernel
  obtain ⟨certificate, strongKey, dependencies, artifacts, planned, same⟩ :=
    ProcessReusePlan.ready_of_replayed replayed
  refine ⟨by decide +kernel, shared.1, certificate, strongKey, dependencies, artifacts, planned,
    same, ?_⟩
  exact (shared.2 .completedReplay false certificate strongKey dependencies artifacts planned).2

/-- A request with a live continuation of an accepted producer. -/
def liveRequest : ProcessReuseRequest id ℕ :=
  sampleRequest (some {
    certificates := [sampleCertificate 'd' 'b' (.inr rfl) true]
    acceptedTaints := []
  })

theorem lookup_authorises_sample
    : ∃ certificate strongKey dependencies artifacts,
        lookup (fun _ => .loaded ()) liveRequest [freshCertificate]
          = .ready .runningResume true certificate strongKey dependencies artifacts
        ∧ certificate.weakKey = sampleDigest 'e'
        ∧ decide (certificate.producer = 1) = true
        ∧ certificateReplayable certificate (acceptedTaints liveRequest) = true
        ∧ contractCompatible certificate liveRequest.contract = true
        ∧ certificate ∈ liveCandidates liveRequest := by
  have replayed
      : (lookup (fun _ => .loaded ()) liveRequest [freshCertificate]).replayed
        = some (.runningResume, true, sampleDigest 'd') := by
    decide +kernel
  obtain ⟨certificate, strongKey, dependencies, artifacts, planned, _⟩ :=
    ProcessReusePlan.ready_of_replayed replayed
  obtain ⟨key, producer, replayable, compatible, resumes⟩ := lookup_authorises planned
  exact ⟨certificate, strongKey, dependencies, artifacts, planned, key, producer _ rfl, replayable,
    compatible, resumes rfl⟩

end SpeculativeAction.ReuseLookup
