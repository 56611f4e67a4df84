import SpeculativeAction.Library.NumberArithmetic

/-! What the scheduler knows of one piece of work, and the comparison it orders work by.
Numbers are the host's: every result is rounded.
-/

namespace SpeculativeAction.Scheduler

open SpeculativeAction.Library

section Numbers

def zero : JsNumber := .ofRat 0

def one : JsNumber := .ofRat 1

def ofBool (value : Bool) : JsNumber := if value then one else zero

/-- Clamp measured values; non-finite and missing evidence contributes zero. -/
def nonNegativeFinite (value : Option JsNumber) : JsNumber :=
  match value with
  | some value => if value.isFinite then zero.max value else zero
  | none => zero

def nonNegativeCount (value : Option JsNumber) : JsNumber :=
  match value with
  | some value => if value.isFinite then zero.max value.floor else zero
  | none => zero

def positiveCount (value : Option JsNumber) : JsNumber :=
  match value with
  | some value => if value.isFinite then one.max value.floor else one
  | none => one

end Numbers

section Work

inductive Dimension where
  | cpu
  | memory
  | io
  | gpu
  | gpuMemory
  | network
deriving DecidableEq, Repr

def dimensions : List Dimension := [.cpu, .memory, .io, .gpu, .gpuMemory, .network]

/-- CPU equivalents, bytes and fractional capacities, where they are known. -/
abbrev HardwareResources := Dimension → Option JsNumber

/-- How a forecast states its demand: a number of CPUs or every dimension. -/
inductive ResourceDemand where
  | units (count : JsNumber)
  | resources (resources : HardwareResources)

/-- Current work and dependency facts. -/
structure PredictionForecast where
  expectedDurationMs : Option JsNumber := none
  elapsedMs : Option JsNumber := none
  resourceDemand : Option ResourceDemand := none
  decisionBatchesUntilCall : Option JsNumber := none
  criticalPathSteps : Option JsNumber := none
  confidence : Option JsNumber := none
  hitProbability : Option JsNumber := none
  adoptionProbability : Option JsNumber := none
  background : Bool := false
  actorDemand : Bool := false
  actorHint : Bool := false
  dependenciesResolved : Bool := false

structure ScheduledWork where
  expectedDurationMs : Option JsNumber
  elapsedMs : JsNumber
  resources : HardwareResources
  resourceUnits : JsNumber
  decisionBatchesUntilCall : JsNumber
  criticalPathSteps : JsNumber
  confidence : JsNumber
  background : Bool
  actorDemand : Bool
  actorHint : Bool
  dependenciesResolved : Bool

/-- The greatest of some numbers and a first one. -/
def maxOf (first : JsNumber) (values : List JsNumber) : JsNumber := values.foldl JsNumber.max first

def minOf (first : JsNumber) (values : List JsNumber) : JsNumber := values.foldl JsNumber.min first

def onCpu (count : JsNumber) : HardwareResources := fun key =>
  if key = .cpu then some count else none

def demandOf (forecast : PredictionForecast) : HardwareResources :=
  match forecast.resourceDemand with
  | some (.units count) => onCpu (positiveCount (some count))
  | some (.resources resources) => resources
  | none => onCpu one

/-- Raise what is needed by one demand. -/
def raise (resources demand : HardwareResources) : HardwareResources := fun key =>
  match demand key with
  | some amount => some (((resources key).getD zero).max (nonNegativeFinite (some amount)))
  | none => resources key

def resourcesOf (forecasts : List PredictionForecast) : HardwareResources :=
  forecasts.foldl (fun resources forecast => raise resources (demandOf forecast)) fun _ => none

/-- How likely a forecast is: its confidence or else its chances to be hit and adopted. -/
def confidenceOf (forecast : PredictionForecast) : JsNumber :=
  one.min (nonNegativeFinite (some (forecast.confidence.getD
    ((forecast.hitProbability.getD one).mul (forecast.adoptionProbability.getD one)))))

def evaluate (forecasts : List PredictionForecast) : ScheduledWork :=
  let resources := resourcesOf forecasts
  let durations := forecasts.filterMap fun forecast =>
    forecast.expectedDurationMs.map fun duration => nonNegativeFinite (some duration)
  {
    expectedDurationMs :=
      if durations = [] then none else some (maxOf (.infinite true) durations)
    elapsedMs := maxOf zero (forecasts.map fun forecast => nonNegativeFinite forecast.elapsedMs)
    resources
    resourceUnits := one.max ((resources .cpu).getD zero)
    decisionBatchesUntilCall :=
      minOf (.infinite false)
        (forecasts.map fun forecast => nonNegativeCount forecast.decisionBatchesUntilCall)
    criticalPathSteps :=
      maxOf one (forecasts.map fun forecast => positiveCount forecast.criticalPathSteps)
    confidence := maxOf zero (forecasts.map confidenceOf)
    background := !forecasts.isEmpty && forecasts.all (·.background)
    actorDemand := forecasts.any (·.actorDemand)
    actorHint := forecasts.any (·.actorHint)
    dependenciesResolved := forecasts.any (·.dependenciesResolved)
  }

end Work

section Comparison

/-- The part of a capacity that work takes where it takes most. -/
def pressure (capacity : HardwareResources) (work : ScheduledWork) : JsNumber :=
  maxOf zero (dimensions.map fun key =>
    ((work.resources key).getD zero).divPositive
      ((JsNumber.ofRat (1 / 10 ^ 9)).max ((capacity key).getD (.infinite false))))

/-- How long the work still takes, when that is known. -/
def remaining (work : ScheduledWork) : Option JsNumber :=
  work.expectedDurationMs.map fun expected => zero.max (expected.sub work.elapsedMs)

/-- Decision batches to the call beyond those the critical path takes. -/
def slack (work : ScheduledWork) : JsNumber :=
  zero.max (work.decisionBatchesUntilCall.sub work.criticalPathSteps)

/-- The difference of two remaining durations, when both are known. -/
def remainingDifference (left right : Option JsNumber) : JsNumber :=
  match left, right with
  | some left, some right => left.sub right
  | _, _ => zero

/-- Negative when the left work goes first. -/
def compare (capacity : HardwareResources) (left right : ScheduledWork) : JsNumber :=
  ((ofBool right.actorDemand).sub (ofBool left.actorDemand)).orElse <|
  ((slack left).sub (slack right)).orElse <|
  ((ofBool right.actorHint).sub (ofBool left.actorHint)).orElse <|
  ((ofBool left.background).sub (ofBool right.background)).orElse <|
  (left.decisionBatchesUntilCall.sub right.decisionBatchesUntilCall).orElse <|
  (right.confidence.sub left.confidence).orElse <|
  ((pressure capacity left).sub (pressure capacity right)).orElse <|
  remainingDifference (remaining left) (remaining right)

end Comparison

end SpeculativeAction.Scheduler
