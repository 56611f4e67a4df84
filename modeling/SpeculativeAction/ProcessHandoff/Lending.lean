import SpeculativeAction.ProcessHandoff.Registry

/-! Registries that lend one-shot results to each other. A claim, a settlement and the end of a
loan change words that other threads share; each atomic operation on a word is one step, and the
steps of the threads interleave freely.
-/

namespace SpeculativeAction.ProcessHandoff

open SpeculativeAction.Library

-- Words, hits and tasks

section Words

/-- `CLAIM` -/
inductive ClaimWord where
  | available | reserved | consumed
deriving DecidableEq

/-- The word of a loan: `LOAN.closed`, `LOAN.consumed`, and so many times `LOAN.reader`. -/
structure LoanWord where
  closed : Bool
  consumed : Bool
  readers : ℕ
deriving DecidableEq

/-- The word beyond its closed bit is not zero. -/
def LoanWord.isTaken (word : LoanWord) : Bool := word.consumed || word.readers != 0

def LoanWord.fresh : LoanWord := ⟨false, false, 0⟩

inductive Stage where
  /-- The receipts are being counted. -/
  | claiming
  /-- Granted and not settled. -/
  | pending
  /-- Settling; the reservation is still held. -/
  | leaving (consumed : Bool)
  /-- The reservation was given up; the record is still to be changed. -/
  | letGo (consumed : Bool)
  | settled (consumed : Bool)
deriving DecidableEq

def Stage.isConsumed : Stage → Bool
  | .leaving consumed | .letGo consumed | .settled consumed => consumed
  | _ => false

/-- The reservation of the claim was not given up. -/
def Stage.isHolding : Stage → Bool
  | .claiming | .pending | .leaving _ => true
  | _ => false

def Stage.isSettled : Stage → Bool
  | .settled _ => true
  | _ => false

/-- A claim on a completed result, with what it read of the record. -/
structure Hit where
  registry : ℕ
  record : ℕ
  result : Result
  /-- Of which result the record holds a version. -/
  origin : Name
  claimState : Option Name
  receipts : List Name
  /-- The receipts in which the claim is counted. -/
  held : List Name
  /-- `forwardOwner.executablePath` -/
  forwardOwner : Option String
  scope : Option ExecutionScope
  stage : Stage
  granted : Bool
deriving DecidableEq

/-- What `offer` gives away. -/
structure LentResult (Key : Type) where
  key : Key
  executablePath : String
  scope : Option ExecutionScope
  oneShot : Bool
  reservation : Option Name
  claims : List Name
  /-- The loan that was made for it, the record that lends, and its result. -/
  loan : Name
  lender : Name
  origin : Name
deriving DecidableEq

/-- What a thread has still to do, its closings aside: the other loans of a lend, the receipts
that a claim counts itself in, or a settlement with the receipts that it marks.
-/
inductive Task where
  | settlingLoans (loans : List Loan)
  | claiming (hit : ℕ) (receipts : List Name)
  | leaving (hit : ℕ) (forward : Bool) (marks : List Name)
  | finishing (hit : ℕ) (forward : Bool)
deriving DecidableEq

def Task.idle : Task := .settlingLoans []

end Words

-- What claims and loans do to a registry

namespace Registry

variable {Key Value : Type}

section Claims

/-- A claimed record; a one-shot result is reserved. -/
def claimed (record : Record Key) (result : Result) : Record Key :=
  {
    record with
    state := if result.oneShot then .ended .reserved (some result) else record.state
    borrowers := record.borrowers + 1
  }

def returnBorrower (registry : Registry Key Value) (number : ℕ) : Registry Key Value :=
  match registry.executions.get? number with
  | some record => registry.setRecord number { record with borrowers := record.borrowers - 1 }
  | none => registry

variable [DecidableEq Key]

/-- The consumer keeps the result: a record of its own replaces the one that was consumed. -/
def handOver (home : ℕ) (registry : Registry Key Value) (hit : Hit) (record : Record Key)
    (executablePath : String)
    : Registry Key Value :=
  let next : Record Key :=
    {
      newRecord home registry record.key executablePath hit.scope with
      binding := record.binding
      replaces := some hit.origin
    }
  let reserved := registry.reserve next
  {
    reserved with
    retainedBytes := reserved.retainedBytes - hit.result.bytes
    executions := reserved.executions.set hit.record
      { record with binding := none, state := .ended .retained none }
  }

def forward (home : ℕ) (registry : Registry Key Value) (hit : Hit) (record : Record Key)
    (executablePath : String)
    : Registry Key Value :=
  let moved := (registry.handOver home hit record executablePath).remove hit.record record.key
  (moved.complete record.key registry.recordsMade (some hit.result)).1

/-- The end of a settlement, once its words are changed. -/
def finish (home : ℕ) (registry : Registry Key Value) (hit : Hit) (consumed forwarded : Bool)
    : Registry Key Value :=
  let settled := match registry.executions.get? hit.record with
    | some record =>
        if hit.result.oneShot then
          if consumed then
            match hit.forwardOwner, forwarded with
            | some executablePath, true => registry.forward home hit record executablePath
            | _, _ => registry.releaseResult hit.record
          else registry.setRecord hit.record
            { record with state := .ended .completed (some hit.result) }
        else registry
    | none => registry
  settled.trim

end Claims

section Loans

/-- The record of an offered result, which gets a reservation to share when it is one-shot. -/
def shared (home number : ℕ) (record : Record Key) (result : Result) : Record Key :=
  if result.oneShot then
    { record with claimState := some (record.claimState.getD ⟨home, number⟩) }
  else record

/-- A loan is declared on its record and noted in its lend. -/
def declare (home : ℕ) (registry : Registry Key Value) (lend number : ℕ) (record : Record Key)
    (result : Result)
    : Registry Key Value :=
  let claims : Name := ⟨home, registry.loansMade⟩
  {
    registry with
    executions := registry.executions.set number
      { record with declarations := record.declarations ++ [claims] }
    lends := registry.lends.modify lend fun entry =>
      { entry with loans := entry.loans ++ [⟨number, result, claims⟩] }
    loansMade := registry.loansMade + 1
  }

variable [DecidableEq Key]

/-- The release of a loan, when something below it has taken the result or nothing has. -/
def releaseLoan (registry : Registry Key Value) (loan : Loan) (consumed : Bool)
    : Registry Key Value :=
  let undeclared := match registry.executions.get? loan.record with
    | some record => registry.setRecord loan.record
        { record with declarations := record.declarations.erase loan.claims }
    | none => registry
  let released := match undeclared.executions.get? loan.record with
    | some record =>
        if consumed ∧ loan.result.oneShot ∧ record.state.result? = some loan.result then
          undeclared.releaseResult loan.record
        else undeclared
    | none => undeclared
  released.trim

/-- A record for a received result, on the loans of its ancestry. -/
def importedRecord (home : ℕ) (registry : Registry Key Value) (transfer : LentResult Key)
    : Record Key :=
  {
    newRecord home registry transfer.key transfer.executablePath transfer.scope with
    claimState := transfer.reservation
    receipts := transfer.claims
    imported := some transfer.oneShot
    origin := transfer.origin
  }

end Loans

end Registry

-- Steps

section Steps

variable {Key Value Invocation : Type}

/-- Registries on their threads, and the words that they share. -/
structure System (Key Value : Type) where
  registries : ℕ → Registry Key Value
  tasks : ℕ → Task
  /-- The reservations there are. -/
  words : Name → Option ClaimWord
  loans : Name → LoanWord
  transfers : List (LentResult Key)
  hits : List Hit

/-- Empty registries with their limits. -/
def System.start (maxCertificates maxBytes maxRetainedBytes : ℕ → ℕ) : System Key Value where
  registries home := .empty (maxCertificates home) (maxBytes home) (maxRetainedBytes home)
  tasks _ := .idle
  words _ := none
  loans _ := .fresh
  transfers := []
  hits := []

/-- What a result that is published is described by. -/
structure Summary where
  oneShot : Bool
  complete : Bool
  executionMs : Number
  bytes : ℕ
  artifactBytes : ℕ

/-- What a thread does next: an operation of its registry, or the next step of the one it is in. -/
inductive Operation (Key Invocation : Type) where
  | reserve (key : Key) (executablePath : String) (scope : Option ExecutionScope)
  /-- A running record ends, with a result that was published or restored, or without. -/
  | complete (key : Key) (number : ℕ) (summary : Option Summary)
  | observe (key : Key) (executablePath : String) (scope : ExecutionScope)
      (invocation : Invocation) (executionMs : Number)
  | bind (key : Key) (number : ℕ) (invocation : Invocation)
  | query (key : Key)
  /-- A description that cannot be read, or the close of a receiver. -/
  | remove (key : Key) (number : ℕ)
  | configure (maxCompleted maxRetainedBytes : ℕ)
  | clearCompleted
  | dispose
  | claim (number : ℕ) (forwardOwner : Option String) (scope : Option ExecutionScope)
  | settle (hit : ℕ) (consumed forward : Bool)
  | lend (scope : Option ExecutionScope)
  /-- Whether the artifacts could be lent. -/
  | offer (lend number : ℕ) (leased : Bool)
  | settleLend (lend : ℕ)
  | receive (transfer : ℕ)
  | advance

namespace System

variable [DecidableEq Key] (capture : Capture Invocation Value)

def setRegistry (system : System Key Value) (home : ℕ) (registry : Registry Key Value)
    : System Key Value :=
  { system with registries := Function.update system.registries home registry }

def setTask (system : System Key Value) (home : ℕ) (task : Task) : System Key Value :=
  { system with tasks := Function.update system.tasks home task }

def setLoan (system : System Key Value) (loan : Name) (word : LoanWord) : System Key Value :=
  { system with loans := Function.update system.loans loan word }

def setHit (system : System Key Value) (number : ℕ) (hit : Hit) : System Key Value :=
  { system with hits := system.hits.set number hit }

/-- The registry is in no call. -/
def isIdle (system : System Key Value) (home : ℕ) : Bool :=
  (system.registries home).closing = [] ∧ system.tasks home = .idle

/-- `compareExchange` of a reservation that is there, from available to reserved. -/
def reserveWord (system : System Key Value) : Option Name → Option (System Key Value)
  | none => some system
  | some word =>
      if system.words word = some .available then
        some { system with words := Function.update system.words word (some .reserved) }
      else none

/-- A settlement gives the reservation up. -/
def giveUpWord (system : System Key Value) (consumed : Bool)
    : Option Name → System Key Value
  | none => system
  | some word =>
      let next := if consumed then some ClaimWord.consumed
        else if system.words word = some .reserved then some .available else system.words word
      { system with words := Function.update system.words word next }

/-- The result of a published record, and the registry that has made it. -/
def publish (registry : Registry Key Value) : Option Summary → Registry Key Value × Option Result
  | none => (registry, none)
  | some summary =>
      ({ registry with resultsMade := registry.resultsMade + 1 },
        some ⟨registry.resultsMade, summary.oneShot, summary.complete, summary.executionMs,
          summary.bytes, summary.artifactBytes⟩)

/-- A result of a received record is of the kind of the one that was lent. -/
def summaryFits (record : Record Key) (summary : Option Summary) : Bool :=
  match record.imported, summary with
  | some oneShot, some summary => oneShot == summary.oneShot
  | _, _ => true

/-- A claim begins. Closed receipts that it sees beforehand, its scope and the branch of the record
can only refuse it, so that they are left open here.
-/
def claimStep (system : System Key Value) (home number : ℕ) (forwardOwner : Option String)
    (scope : Option ExecutionScope)
    : Option (System Key Value) :=
  let registry := system.registries home
  match registry.executions.get? number with
  | some record =>
      match record.state with
      | .ended .completed (some result) =>
          let reserved := if result.oneShot then system.reserveWord record.claimState
            else some system
          reserved.map fun system =>
            {
              (system.setRegistry home
                (registry.setRecord number (Registry.claimed record result))).setTask home
                  (.claiming system.hits.length record.receipts) with
              hits := system.hits ++ [
                {
                  registry := home
                  record := number
                  result := result
                  origin := record.origin
                  claimState := record.claimState
                  receipts := record.receipts
                  held := []
                  forwardOwner := forwardOwner
                  scope := scope
                  stage := .claiming
                  granted := false
                }]
            }
      | _ => none
  | none => none

/-- A completed result is offered to a lend that is not over; closed receipts and scopes can only
keep it from being offered.
-/
def offerStep (system : System Key Value) (home lend number : ℕ) (leased : Bool)
    : Option (System Key Value) :=
  let registry := system.registries home
  match registry.executions.get? number, registry.lends[lend]? with
  | some record, some entry =>
      match record.state with
      | .ended .completed (some result) =>
          if entry.aborted then none
          else
            let shared := Registry.shared home number record result
            let loan : Name := ⟨home, registry.loansMade⟩
            let words := if result.oneShot ∧ record.claimState = none then
              Function.update system.words ⟨home, number⟩ (some .available) else system.words
            if leased then
              some {
                system.setRegistry home (registry.declare home lend number shared result) with
                words := words
                transfers := system.transfers ++ [
                  {
                    key := record.key
                    executablePath := record.executablePath
                    scope := record.scope
                    oneShot := result.oneShot
                    reservation := shared.claimState
                    claims := record.receipts ++ [loan]
                    loan := loan
                    lender := ⟨home, number⟩
                    origin := record.origin
                  }]
              }
            else some { system.setRegistry home (registry.setRecord number shared) with
              words := words }
      | _ => none
  | _, _ => none

/-- The next step of the call a thread is in, when its closings are done. -/
def taskStep (system : System Key Value) (home : ℕ) : Option (System Key Value) :=
  let registry := system.registries home
  match system.tasks home with
  | .settlingLoans [] => none
  | .settlingLoans (loan :: rest) =>
      let word := system.loans loan.claims
      some (((system.setLoan loan.claims { word with closed := true }).setRegistry home
        (registry.releaseLoan loan word.isTaken)).setTask home (.settlingLoans rest))
  | .claiming number receipts =>
      system.hits[number]?.map fun hit =>
        match receipts with
        | [] => (system.setHit number { hit with stage := .pending, granted := true }).setTask
            home .idle
        | receipt :: rest =>
            let word := system.loans receipt
            let counted := system.setLoan receipt { word with readers := word.readers + 1 }
            if word.closed then
              ((counted.setHit number
                { hit with held := hit.held ++ [receipt], stage := .leaving false }).setRegistry
                  home (registry.returnBorrower hit.record)).setTask home
                    (.leaving number false [])
            else (counted.setHit number { hit with held := hit.held ++ [receipt] }).setTask home
              (.claiming number rest)
  | .leaving number forward marks =>
      system.hits[number]?.map fun hit =>
        match marks, hit.held with
        | receipt :: rest, _ =>
            (system.setLoan receipt { system.loans receipt with consumed := true }).setTask home
              (.leaving number forward rest)
        | [], receipt :: rest =>
            let word := system.loans receipt
            (system.setLoan receipt { word with readers := word.readers - 1 }).setHit number
              { hit with held := rest }
        | [], [] =>
            ((system.giveUpWord hit.stage.isConsumed hit.claimState).setHit number
              { hit with stage := .letGo hit.stage.isConsumed }).setTask home
                (.finishing number forward)
  | .finishing number forward =>
      system.hits[number]?.map fun hit =>
        ((system.setRegistry home
          (registry.finish home hit hit.stage.isConsumed forward)).setHit number
            { hit with stage := .settled hit.stage.isConsumed }).setTask home .idle

def advance (system : System Key Value) (home : ℕ) : Option (System Key Value) :=
  let registry := system.registries home
  match registry.closing with
  | loan :: rest =>
      some ((system.setLoan loan { system.loans loan with closed := true }).setRegistry home
        { registry with closing := rest })
  | [] => system.taskStep home

/-- An operation that only its own registry sees. -/
def localStep (registry : Registry Key Value) (home : ℕ)
    : Operation Key Invocation → Option (Registry Key Value)
  | .reserve key executablePath scope =>
      if registry.disposed then none
      else some (registry.reserve (Registry.newRecord home registry key executablePath scope))
  | .complete key number summary =>
      match registry.record? key number with
      | some record =>
          if record.state.isRunning ∧ summaryFits record summary then
            let (registry, result) := publish registry summary
            some (registry.complete key number result).1
          else none
      | none => none
  | .observe key executablePath scope invocation executionMs =>
      some (registry.observe capture home key executablePath scope invocation executionMs).1
  | .bind key number invocation => some (registry.bind capture key number invocation).1
  | .query key => some (registry.candidates key).1
  | .remove key number =>
      match registry.executions.get? number with
      | some record => if record.key = key then some (registry.remove number key) else none
      | none => some (registry.remove number key)
  | .configure maxCompleted maxRetainedBytes =>
      some (registry.configure maxCompleted maxRetainedBytes)
  | .clearCompleted => some registry.clearCompleted
  | .dispose => some registry.dispose
  | .lend scope => some { registry with lends := registry.lends ++ [⟨scope, [], false⟩] }
  | _ => none

/-- One step of a thread. -/
def step (system : System Key Value) (label : ℕ × Operation Key Invocation)
    : Option (System Key Value) :=
  let (home, operation) := label
  let registry := system.registries home
  match operation with
  | .advance => system.advance home
  | operation =>
      if system.isIdle home then
        match operation with
        | .claim number forwardOwner scope => system.claimStep home number forwardOwner scope
        | .settle number consumed forward =>
            match system.hits[number]? with
            | some hit =>
                if hit.registry = home ∧ hit.stage = .pending then
                  some (((system.setHit number { hit with stage := .leaving consumed }).setRegistry
                    home (registry.returnBorrower hit.record)).setTask home
                      (.leaving number forward (if consumed then hit.receipts else [])))
                else none
            | none => none
        | .offer lend number leased => system.offerStep home lend number leased
        | .settleLend lend =>
            registry.lends[lend]?.map fun entry =>
              (system.setRegistry home
                {
                  registry with
                  lends := registry.lends.set lend { entry with aborted := true }
                }).setTask home (.settlingLoans entry.loans)
        | .receive number =>
            if registry.disposed then none
            else system.transfers[number]?.map fun transfer =>
              system.setRegistry home
                (registry.reserve (Registry.importedRecord home registry transfer))
        | operation => (localStep capture registry home operation).map (system.setRegistry home)
      else none

end System

end Steps

end SpeculativeAction.ProcessHandoff
