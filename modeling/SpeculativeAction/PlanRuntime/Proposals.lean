import SpeculativeAction.Library.JsonText
import SpeculativeAction.Library.OrderedMap
import SpeculativeAction.Settlement
import SpeculativeAction.StableJson

/-! Plan proposals and deltas: what a producer offers, what the runtime owns after checking
it once, and when two actions are the same execution.
-/

namespace SpeculativeAction

open SpeculativeAction.Library

-- Tokens

/-- White space in the sense of trimming. -/
def isTrimmed (char : Char) : Bool :=
  let code := char.toNat
  (9 ≤ code && code ≤ 13) || code == 0x20 || code == 0xA0 || code == 0x1680
    || (0x2000 ≤ code && code ≤ 0x200A) || code == 0x2028 || code == 0x2029
    || code == 0x202F || code == 0x205F || code == 0x3000 || code == 0xFEFF

/-- A token is nonempty and has no white space at either end. -/
def validToken (value : String) : Bool :=
  match value.toList.head?, value.toList.getLast? with
  | some first, some last => !isTrimmed first && !isTrimmed last
  | _, _ => false

-- Offered records

/-- A dependency as a producer writes it. -/
structure OfferedDependency where
  actionID : String
  proposalID : Option String := none
  identity : Option String := none
  condition : Option String := none
  observation : Option String := none

/-- A reference to a backend capability and whether its record is frozen. -/
structure OperationBinding where
  ref : ℕ
  frozen : Bool
deriving DecidableEq

inductive ResourceDemand where
  | units (value : Number)
  | resources (entries : List (String × Number))

/-- An action as a producer writes it; fields the runtime never reads are left out. -/
structure OfferedAction where
  id : String
  type : String
  operation : Option OperationBinding := none
  tool : String
  input : Value
  horizon : Option Number := none
  latestHorizon : Option Number := none
  resourceDemand : Option ResourceDemand := none
  dependsOn : List OfferedDependency := []

inductive OfferedUpdate where
  | proposal (id source : String) (revision : Number) (actions : List OfferedAction)
    (retainDescendants : Bool)
  | delta (proposalID source : String) (revision : Number) (upsert : List OfferedAction)
    (remove : List String)

-- Owned records

/-- What a dependency waits for; only a prediction carries a forecast observation. -/
inductive DependencyCondition where
  | executionSettled
  | executionSucceeded
  | actorAdopted
  | prediction (observation : String)
  | resource
deriving DecidableEq

/-- A cross-plan edge pins its parent's identity beside its proposal. -/
structure DependencyPin where
  proposalID : String
  identity : String
deriving DecidableEq

structure PlanDependency where
  actionID : String
  pin : Option DependencyPin
  condition : DependencyCondition
deriving DecidableEq

inductive PlanActionType where
  | toolCall | operation
deriving DecidableEq

structure PlanAction where
  id : String
  type : PlanActionType
  operation : Option ℕ
  tool : String
  input : Snapshot
  horizon : Option Number
  latestHorizon : Option Number
  resourceDemand : Option ResourceDemand
  dependsOn : List PlanDependency

/-- A checked update, owned once at handoff. -/
inductive PlanUpdate where
  | proposal (id source : String) (revision : ℕ) (actions : List PlanAction)
    (retainDescendants : Bool)
  | delta (proposalID source : String) (revision : ℕ) (upsert : List PlanAction)
    (remove : List String)

namespace PlanUpdate

/-- The plan an update is for: `update.id` or `update.proposalID`. -/
def planID : PlanUpdate → String
  | .proposal id .. => id
  | .delta proposalID .. => proposalID

def source : PlanUpdate → String
  | .proposal _ source .. => source
  | .delta _ source .. => source

def revision : PlanUpdate → ℕ
  | .proposal _ _ revision .. => revision
  | .delta _ _ revision .. => revision

def upserted : PlanUpdate → List PlanAction
  | .proposal _ _ _ actions _ => actions
  | .delta _ _ _ upsert _ => upsert

end PlanUpdate

inductive UpdateRejection where
  | invalidIdentity
  | invalidRevision
  | sourceMismatch
  | proposalMissing
  | staleRevision
  | duplicateAction
  | invalidAction
  | invalidDependency
deriving DecidableEq

-- Checking and owning an update

/-- The condition a dependency record names, with its forecast where it needs one. -/
def ownCondition (condition : String) (observation : Option String)
    : Option DependencyCondition :=
  match condition with
  | "execution_settled" => some .executionSettled
  | "execution_succeeded" => some .executionSucceeded
  | "actor_adopted" => some .actorAdopted
  | "resource" => some .resource
  | "prediction" =>
      match observation with
      | some text => if validToken text then some (.prediction text) else none
      | none => none
  | _ => none

/-- A cross-plan edge names both the proposal and the identity, or neither. -/
def ownPin (proposalID identity : Option String) : Option (Option DependencyPin) :=
  match proposalID, identity with
  | none, none => some none
  | some proposalID, some identity =>
      if validToken proposalID && validToken identity then
        some (some ⟨proposalID, identity⟩)
      else
        none
  | _, _ => none

def ownDependency (offered : OfferedDependency) : Option PlanDependency :=
  if validToken offered.actionID then
    match ownPin offered.proposalID offered.identity,
        ownCondition (offered.condition.getD "execution_settled") offered.observation with
    | some pin, some condition => some ⟨offered.actionID, pin, condition⟩
    | _, _ => none
  else
    none

def ownType (offered : OfferedAction) : Option PlanActionType :=
  if validToken offered.id && validToken offered.tool then
    match offered.type, offered.operation with
    | "tool_call", none => some .toolCall
    | "operation", some binding => if binding.frozen then some .operation else none
    | _, _ => none
  else
    none

/-- The first pass of `validateActions`: scheduling records only, in order. -/
def ownScheduling (seen : List String)
    : List OfferedAction
      → Except UpdateRejection (List (OfferedAction × PlanActionType × List PlanDependency))
  | [] => .ok []
  | offered :: rest =>
      match ownType offered with
      | none => .error .invalidAction
      | some type =>
          if offered.id ∈ seen then
            .error .duplicateAction
          else
            match offered.dependsOn.mapM ownDependency with
            | none => .error .invalidDependency
            | some dependsOn =>
                match ownScheduling (offered.id :: seen) rest with
                | .error reason => .error reason
                | .ok owned => .ok ((offered, type, dependsOn) :: owned)

def resourceDimensions : List String := ["cpu", "memory", "io", "gpu", "gpuMemory", "network"]

def ResourceDemand.valid : ResourceDemand → Bool
  | .units _ => true
  | .resources entries =>
      entries.all fun (dimension, value) =>
        resourceDimensions.contains dimension
          && match value with
            | .finite amount => decide (0 ≤ amount)
            | _ => false

/-- The second pass: demands and inputs, which may run producer accessors. -/
def ownAction : OfferedAction × PlanActionType × List PlanDependency → Option PlanAction
  | (offered, type, dependsOn) =>
      if offered.resourceDemand.all ResourceDemand.valid then
        (immutableSnapshot offered.input).map fun input =>
          {
            id := offered.id
            type
            operation := offered.operation.map OperationBinding.ref
            tool := offered.tool
            input
            horizon := offered.horizon
            latestHorizon := offered.latestHorizon
            resourceDemand := offered.resourceDemand
            dependsOn
          }
      else
        none

def validateActions (actions : List OfferedAction) : Except UpdateRejection (List PlanAction) :=
  match ownScheduling [] actions with
  | .error reason => .error reason
  | .ok scheduled =>
      match scheduled.mapM ownAction with
      | none => .error .invalidAction
      | some owned => .ok owned

/-- An action that a one-step planner may offer: immediate and without dependencies. -/
def OfferedAction.immediate (action : OfferedAction) : Bool :=
  (action.horizon.map Number.nonNegativeFinite).getD 0 = 0 && action.dependsOn.isEmpty

def PlanAction.immediate (action : PlanAction) : Bool :=
  (action.horizon.map Number.nonNegativeFinite).getD 0 = 0 && action.dependsOn.isEmpty

/-- Check and own a producer's update. A one-step owner drops everything but immediate
actions.
-/
def capture (update : OfferedUpdate) (multiStep : Bool := true)
    : Except UpdateRejection PlanUpdate :=
  match update with
  | .proposal id source revision actions retainDescendants =>
      if !(validToken id && validToken source) then
        .error .invalidIdentity
      else
        match revision.safeCount? with
        | none => .error .invalidRevision
        | some count =>
            match validateActions
                (if multiStep then actions else actions.filter OfferedAction.immediate) with
            | .error reason => .error reason
            | .ok owned => .ok (.proposal id source count owned (multiStep && retainDescendants))
  | .delta proposalID source revision upsert remove =>
      if !(validToken proposalID && validToken source) then
        .error .invalidIdentity
      else
        match revision.safeCount? with
        | none => .error .invalidRevision
        | some count =>
            match validateActions (if multiStep then upsert else []) with
            | .error reason => .error reason
            | .ok owned =>
                if remove.any (!validToken ·) then
                  .error .invalidAction
                else
                  .ok (.delta proposalID source count owned remove)

/-- An owned update is not checked again; a one-step owner narrows it. -/
def PlanUpdate.recapture (update : PlanUpdate) (multiStep : Bool := true) : PlanUpdate :=
  if multiStep then
    update
  else
    match update with
    | .proposal id source revision actions _ =>
        .proposal id source revision (actions.filter PlanAction.immediate) false
    | .delta proposalID source revision _ remove =>
        .delta proposalID source revision [] remove

-- Horizons and execution equality

def horizon (action : PlanAction) : ℕ := (action.horizon.map Number.nonNegativeCount).getD 0

def latestHorizon (action : PlanAction) : ℕ :=
  max (horizon action)
    (((action.latestHorizon.orElse fun _ => action.horizon).map Number.nonNegativeCount).getD 0)

theorem horizon_le_latestHorizon (action : PlanAction) : horizon action ≤ latestHorizon action :=
  le_max_left _ _

def DependencyCondition.name : DependencyCondition → String
  | .executionSettled => "execution_settled"
  | .executionSucceeded => "execution_succeeded"
  | .actorAdopted => "actor_adopted"
  | .prediction _ => "prediction"
  | .resource => "resource"

/-- The JSON text of an owned dependency record, whose fields have one order. -/
def dependencyText (dependency : PlanDependency) : String :=
  "\x7b\"actionID\":" ++ (JsonText.quote dependency.actionID
    ++ ((match dependency.pin with
        | some pin =>
            ",\"proposalID\":" ++ (JsonText.quote pin.proposalID
              ++ (",\"identity\":" ++ JsonText.quote pin.identity))
        | none => "")
      ++ (",\"condition\":" ++ (JsonText.quote dependency.condition.name
        ++ match dependency.condition with
          | .prediction observation => ",\"observation\":" ++ (JsonText.quote observation ++ "\x7d")
          | _ => "\x7d"))))

/-- One change of a dependency count; a zero count is dropped. -/
def countDependency (counts : OrderedMap String ℤ) (change : PlanDependency × ℤ)
    : OrderedMap String ℤ :=
  let key := dependencyText change.1
  let count := (counts.get? key).getD 0 + change.2
  if count ≠ 0 then counts.set key count else counts.delete key

/-- Same execution: equal type, capability, tool and input, and the same dependency
records counted by their text, whatever their order.
-/
def samePlanActionExecution (left right : PlanAction) : Bool :=
  if left.type ≠ right.type || left.operation ≠ right.operation || left.tool ≠ right.tool
      || !left.input.isDeepStrictEqual right.input then
    false
  else
    let changes := left.dependsOn.map (·, (1 : ℤ)) ++ right.dependsOn.map (·, (-1 : ℤ))
    (changes.foldl countDependency OrderedMap.empty).entries.isEmpty

end SpeculativeAction
