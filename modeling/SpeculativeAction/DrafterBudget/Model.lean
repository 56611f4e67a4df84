import SpeculativeAction.Library.Heap
import SpeculativeAction.Numbers

/-! The token budget that the Drafter requests of one user task share. The counters of a
task are one mutable object; a request keeps the object it was admitted by, while the
budget swaps its own object at the first look after the task has finished.
-/

namespace SpeculativeAction.DrafterBudget

open SpeculativeAction.Library

section Numbers

/-- The smallest of two numbers; not-a-number wins over every number. -/
def least (left right : Number) : Number :=
  match left, right with
  | .nan, _ => .nan
  | _, .nan => .nan
  | .finite first, .finite second => .finite (min first second)
  | .finite first, .infinite negative => if negative then .infinite true else .finite first
  | .infinite negative, .finite second => if negative then .infinite true else .finite second
  | .infinite negative, .infinite negative' => .infinite (negative || negative')

/-- A number less a finite one. -/
def minus (left : Number) (right : ℚ) : Number :=
  match left with
  | .finite value => .finite (value - right)
  | other => other

/-- The smallest of a number and a finite one, rounded down, when it is above zero. The
result is never infinite.
-/
def positiveFloor? (left : Number) (right : ℚ) : Option ℚ :=
  match least left (.finite right) with
  | .finite value => if 0 < (⌊value⌋ : ℚ) then some (⌊value⌋ : ℚ) else none
  | _ => none

/-- Whether a finite number reaches a limit. -/
def reaches (value : ℚ) (limit : Number) : Bool :=
  match limit with
  | .finite bound => bound ≤ value
  | .infinite negative => negative
  | .nan => false

/-- What is left after rounding down is at most the finite number. -/
theorem positiveFloor?_le {left : Number} {right result : ℚ}
    (rounded : positiveFloor? left right = some result)
    : result ≤ right := by
  unfold positiveFloor? at rounded
  split at rounded
  · rename_i value smallest
    have bounded : value ≤ right := by
      cases left with
      | finite first =>
          obtain rfl := Number.finite.inj smallest
          exact min_le_right first right
      | infinite negative =>
          cases negative
          · exact (Number.finite.inj smallest).ge
          · cases smallest
      | nan => cases smallest
    split at rounded
    · rw [← Option.some.inj rounded]
      exact (Int.floor_le value).trans bounded
    · cases rounded
  · cases rounded

end Numbers

section Budget

/-- Positive limits, normalised when settings are read. -/
structure BudgetPolicy where
  drafterTaskMaxRequests : ℕ
  drafterTaskMaxTokens : ℕ
deriving DecidableEq, Repr

/-- The counters of one task. -/
structure TaskState where
  requests : ℕ := 0
  reportedTokens : ℚ := 0
  unreportedTokens : ℚ := 0
  reservedTokens : ℚ := 0
  skippedRequests : ℕ := 0
deriving DecidableEq, Repr

instance : Inhabited TaskState := ⟨{}⟩

def TaskState.spent (state : TaskState) : ℚ :=
  state.reportedTokens + state.unreportedTokens + state.reservedTokens

inductive Suppression where
  | drafterRequestLimit
  | drafterTokenLimit
  | drafterContextLimit
deriving DecidableEq, Repr

structure SkipDetail where
  promptTokens : ℚ
  remainingTokens : ℚ
  contextWindow : Number
deriving DecidableEq, Repr

/-- The task objects ever made, the one in use and whether its task has finished. -/
structure Budget where
  states : Heap TaskState
  state : ℕ
  finished : Bool

namespace Budget

def empty : Budget := ⟨Heap.empty.alloc {}, 0, false⟩

def current (budget : Budget) : TaskState := budget.states.read budget.state

/-- A finished task's object is left to its requests and replaced. -/
def rollOver (budget : Budget) : Budget :=
  if budget.finished then ⟨budget.states.alloc {}, budget.states.size, false⟩ else budget

def modifyState (budget : Budget) (state : ℕ) (change : TaskState → TaskState) : Budget :=
  { budget with states := budget.states.modify state change }

def skip (budget : Budget) : Budget :=
  budget.modifyState budget.state fun state =>
    { state with skippedRequests := state.skippedRequests + 1 }

/-- Whether the current task may send one more request, and else why not. -/
def available (policy : BudgetPolicy) (budget : Budget) : Budget × Option Suppression :=
  let budget := budget.rollOver
  if budget.current.requests < policy.drafterTaskMaxRequests
      ∧ budget.current.spent < policy.drafterTaskMaxTokens then
    (budget, none)
  else
    (
      budget.skip,
      some (if policy.drafterTaskMaxRequests ≤ budget.current.requests then .drafterRequestLimit
        else .drafterTokenLimit)
    )

/-- What a request brings: the estimates of its prompt, the limits of its model and the
limit its caller asks for.
-/
structure RunInput where
  aborted : Bool := false
  contextTokens : ℚ
  inputTokens : Option ℚ := none
  modelMaxTokens : Number
  contextWindow : Number
  optionsMaxTokens : Option Number := none
deriving DecidableEq, Repr

namespace RunInput

def prompt (input : RunInput) : ℚ := max input.contextTokens (input.inputTokens.getD 0)

def output (input : RunInput) : Number :=
  least (least (input.optionsMaxTokens.getD input.modelMaxTokens) input.modelMaxTokens)
    (minus input.contextWindow input.prompt)

/-- The tokens the model may answer with, when there is room for one. -/
def maxTokens? (input : RunInput) (remaining : ℚ) : Option ℚ :=
  positiveFloor? input.output (remaining - input.prompt)

end RunInput

/-- How a request starts: it is refused, or sent with a limit and a reservation. -/
inductive Admission where
  | aborted
  | skipped (reason : Suppression) (detail : Option SkipDetail)
  | admitted (state : ℕ) (maxTokens reservation : ℚ)
deriving DecidableEq, Repr

/-- A request up to the call of its model; everything to there is one step. -/
def run (policy : BudgetPolicy) (input : RunInput) (budget : Budget) : Budget × Admission :=
  if input.aborted then
    (budget, .aborted)
  else
    match budget.available policy with
    | (budget, some reason) => (budget, .skipped reason none)
    | (budget, none) =>
        let remaining := policy.drafterTaskMaxTokens - budget.current.spent
        match input.maxTokens? remaining with
        | none =>
            (
              budget.skip,
              .skipped
                (if reaches input.prompt input.contextWindow then .drafterContextLimit
                  else .drafterTokenLimit)
                (some ⟨input.prompt, remaining, input.contextWindow⟩)
            )
        | some maxTokens =>
            let reservation := input.prompt + maxTokens
            (
              budget.modifyState budget.state fun state =>
                {
                  state with
                  requests := state.requests + 1
                  reservedTokens := state.reservedTokens + reservation
                },
              .admitted budget.state maxTokens reservation
            )

inductive StopReason where
  | stop
  | length
  | toolUse
  | error
  | aborted
deriving DecidableEq, Repr

/-- How the call of the model ends. -/
inductive Completion where
  | answered (tokens : Number) (stopReason : StopReason)
  | thrown
deriving DecidableEq, Repr

/-- The usage an answer reports, when it is one to be believed: an answer that failed
before any usage was known reports none.
-/
def Completion.reported? (completion : Completion) : Option ℚ :=
  match completion with
  | .answered (.finite tokens) stopReason =>
      if 0 ≤ tokens ∧ (0 < tokens ∨ ¬ (stopReason = .error ∨ stopReason = .aborted)) then
        some tokens
      else
        none
  | _ => none

/-- The counters after a request ends. Missing usage can still be billable, so its
reservation stays charged.
-/
def settled (state : TaskState) (reservation : ℚ) (completion : Completion) : TaskState :=
  match completion.reported? with
  | some tokens =>
      {
        state with
        reportedTokens := state.reportedTokens + tokens
        reservedTokens := state.reservedTokens - reservation
      }
  | none =>
      {
        state with
        unreportedTokens := state.unreportedTokens + reservation
        reservedTokens := state.reservedTokens - reservation
      }

/-- The end of a request admitted by the task object `state`. -/
def complete (budget : Budget) (state : ℕ) (reservation : ℚ) (completion : Completion) : Budget :=
  budget.modifyState state fun state => settled state reservation completion

def finishTask (budget : Budget) : Budget := { budget with finished := true }

end Budget

end Budget

section System

/-- What became of an admitted request. -/
inductive Outcome where
  | outstanding
  | reported (tokens : ℚ)
  | unreported
deriving DecidableEq, Repr

/-- An admitted request: the task object it keeps, its reservation, how often a task had
been finished before it, and its outcome so far.
-/
structure Request where
  state : ℕ
  reservation : ℚ
  finishes : ℕ
  outcome : Outcome := .outstanding
deriving DecidableEq, Repr

/-- A budget with the requests it admitted, in order of admission. -/
structure System where
  budget : Budget
  requests : List Request
  finishes : ℕ

def System.start : System := ⟨.empty, [], 0⟩

/-- What can happen to a budget. A call that throws before its first await is a `run`
followed by the end of that request.
-/
inductive Event where
  | probe
  | run (input : Budget.RunInput)
  | complete (index : ℕ) (completion : Budget.Completion)
  | finishTask

namespace Request

def outcomeOf (completion : Budget.Completion) : Outcome :=
  match completion.reported? with
  | some tokens => .reported tokens
  | none => .unreported

def ended (request : Request) (completion : Budget.Completion) : Request :=
  { request with outcome := outcomeOf completion }

/-- The request at `index`, if it has not ended. -/
def outstanding? (requests : List Request) (index : ℕ) : Option Request :=
  requests[index]?.filter fun request => request.outcome = .outstanding

end Request

namespace System

/-- The step of one event; a request ends once. -/
def step (policy : BudgetPolicy) (system : System) (event : Event) : System :=
  match event with
  | .probe => { system with budget := (system.budget.available policy).1 }
  | .run input =>
      match system.budget.run policy input with
      | (budget, .admitted state _ reservation) =>
          {
            system with
            budget
            requests :=
              system.requests
                ++ [{ state := state, reservation := reservation, finishes := system.finishes }]
          }
      | (budget, _) => { system with budget }
  | .complete index completion =>
      match Request.outstanding? system.requests index with
      | some request =>
          {
            system with
            budget := system.budget.complete request.state request.reservation completion
            requests := system.requests.set index (request.ended completion)
          }
      | none => system
  | .finishTask =>
      { system with budget := system.budget.finishTask, finishes := system.finishes + 1 }

end System

end System

end SpeculativeAction.DrafterBudget
