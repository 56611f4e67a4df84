import Mathlib.Tactic.IntervalCases
import SpeculativeAction.EffectTransaction.Model

/-! The authority word shared by the one-shot children of a process and the branch that
encloses them. Any number of ownership objects on any number of threads change it; each
atomic operation on the word is one step, and an object's own fields belong to its thread.
-/

namespace SpeculativeAction.ProcessHandoff

open SpeculativeAction.Library SpeculativeAction.EffectTransaction

section AuthorityWord

/-- `BRANCH.partial`: a child was consumed. -/
def branchPartial : BitVec 32 := 1

/-- `BRANCH.whole`: the enclosing branch is claimed. -/
def branchWhole : BitVec 32 := 2

/-- `BRANCH.child`: one claimed child; the rest of the word counts them. -/
def branchChild : BitVec 32 := 4

/-- `state & bit` as a condition. -/
def hasBit (state bit : BitVec 32) : Bool := state &&& bit != 0

/-- The word that stands for a number of claimed children and the two flags. -/
def branchWord (children : ℕ) (whole consumed : Bool) : BitVec 32 :=
  BitVec.ofNat 32 (4 * children + 2 * whole.toNat + consumed.toNat)

private theorem and_bit_ofNat (value index : ℕ) (small : index < 32)
    : BitVec.ofNat 32 value &&& BitVec.twoPow 32 index
      = if value.testBit index then BitVec.twoPow 32 index else 0 := by
  ext position bound
  by_cases same : position = index
  · subst same
    cases bit : value.testBit position <;>
      simp [bit, ← BitVec.getLsbD_eq_getElem, BitVec.getLsbD_ofNat, bound]
  · cases value.testBit index <;> simp [BitVec.getElem_twoPow, same]

@[simp] theorem hasBit_whole (children : ℕ) (whole consumed : Bool)
    : hasBit (branchWord children whole consumed) branchWhole = whole := by
  have bit : (4 * children + 2 * whole.toNat + consumed.toNat).testBit 1 = whole := by
    rw [Nat.testBit_eq_decide_div_mod_eq]
    cases whole <;> cases consumed <;> simp <;> omega
  have masked := and_bit_ofNat (4 * children + 2 * whole.toNat + consumed.toNat) 1 (by decide)
  rw [bit] at masked
  rw [hasBit, branchWord, show branchWhole = BitVec.twoPow 32 1 by decide, masked]
  cases whole <;> decide

@[simp] theorem hasBit_partial (children : ℕ) (whole consumed : Bool)
    : hasBit (branchWord children whole consumed) branchPartial = consumed := by
  have bit : (4 * children + 2 * whole.toNat + consumed.toNat).testBit 0 = consumed := by
    rw [Nat.testBit_eq_decide_div_mod_eq]
    cases whole <;> cases consumed <;> simp <;> omega
  have masked := and_bit_ofNat (4 * children + 2 * whole.toNat + consumed.toNat) 0 (by decide)
  rw [bit] at masked
  rw [hasBit, branchWord, show branchPartial = BitVec.twoPow 32 0 by decide, masked]
  cases consumed <;> decide

/-- Adding a child counts one more, modulo the width of the word. -/
theorem branchWord_add_child (children : ℕ) (whole consumed : Bool)
    : branchWord children whole consumed + branchChild
      = branchWord (children + 1) whole consumed := by
  rw [branchWord, branchWord, show branchChild = BitVec.ofNat 32 4 from rfl,
    ← BitVec.ofNat_add]
  congr 1
  omega

theorem branchWord_sub_child (children : ℕ) (whole consumed : Bool)
    : branchWord (children + 1) whole consumed - branchChild
      = branchWord children whole consumed := by
  rw [← branchWord_add_child, BitVec.add_sub_cancel]

/-- Marking a consumed child leaves the count and the other flag. -/
theorem branchWord_or_partial (children : ℕ) (whole consumed : Bool)
    : branchWord children whole consumed ||| branchPartial
      = branchWord children whole true := by
  have low (bits : ℕ) (small : bits < 4) : 4 * children + bits = 4 * children ||| bits := by
    simpa using Nat.two_pow_add_eq_or_of_lt (i := 2) small children
  have flags : 2 * whole.toNat + consumed.toNat < 4 := by
    cases whole <;> cases consumed <;> decide
  have marked : 2 * whole.toNat + true.toNat < 4 := by cases whole <;> decide
  rw [branchWord, branchWord, show branchPartial = BitVec.ofNat 32 1 from rfl,
    ← BitVec.ofNat_or, Nat.add_assoc, Nat.add_assoc, low _ flags, low _ marked, Nat.or_assoc]
  cases whole <;> cases consumed <;> rfl

/-- While the children fit the word, it is zero exactly when it stands for nothing. -/
theorem branchWord_eq_zero_iff {children : ℕ} (fits : children < 2 ^ 30)
    (whole consumed : Bool)
    : branchWord children whole consumed = 0
      ↔ children = 0 ∧ whole = false ∧ consumed = false := by
  rw [← BitVec.toNat_inj, branchWord, BitVec.toNat_ofNat,
    Nat.mod_eq_of_lt (by cases whole <;> cases consumed <;> simp <;> omega)]
  cases whole <;> cases consumed <;> simp

end AuthorityWord

section Calls

/-- One `claimChild` call and the settlement it returned. -/
inductive ClaimPhase where
  /-- The call has read the word without the whole flag. -/
  | loaded (state : BitVec 32)
  /-- The exchange failed; the word is read again. -/
  | retrying
  /-- The branch is claimed as a whole; nothing was granted. -/
  | refused
  /-- Granted and not settled. -/
  | pending
  /-- Settled as consumed: marked, but not yet counted off. -/
  | marked
  | settled (consumed : Bool)
deriving DecidableEq, Repr

/-- The claim is counted in the word. -/
def ClaimPhase.isOutstanding : ClaimPhase → Bool
  | .pending | .marked => true
  | _ => false

def ClaimPhase.isConsumed : ClaimPhase → Bool
  | .marked => true
  | .settled consumed => consumed
  | _ => false

def ClaimPhase.isGranted : ClaimPhase → Bool
  | .pending | .marked | .settled _ => true
  | _ => false

/-- One `commit` call. -/
inductive CommitPhase where
  | refused (failure : EffectCommitFailure)
  /-- The object already owns this very `apply`; its promise is returned. -/
  | joined (commit : ℕ)
  /-- The word is claimed; `apply` starts in a later task. -/
  | claimed
  | running
  /-- `apply` failed recoverably; the handler that gives the word back has not run. -/
  | rejected
  | recovered
  | succeeded
  | failed (error : Thrown)
deriving DecidableEq, Repr

/-- The call still holds the whole branch. -/
def CommitPhase.holdsWhole : CommitPhase → Bool
  | .claimed | .running | .rejected | .succeeded | .failed _ => true
  | _ => false

/-- `apply` succeeded or failed otherwise than recoverably. -/
def CommitPhase.isFinal : CommitPhase → Bool
  | .succeeded | .failed _ => true
  | _ => false

/-- `apply` was invoked for this call. -/
def CommitPhase.wasInvoked : CommitPhase → Bool
  | .running | .rejected | .recovered | .succeeded | .failed _ => true
  | _ => false

/-- A commit call on one ownership object; functions are known by their identity. -/
structure Commit where
  object : ℕ
  apply : ℕ
  phase : CommitPhase
deriving DecidableEq, Repr

/-- The `apply` an object last started, and the commit that started it. -/
structure Transfer where
  apply : ℕ
  commit : ℕ
deriving DecidableEq, Repr

/-- The shared word, every call made so far and the `transfer` field of each object. -/
structure Ownership where
  authority : BitVec 32 := 0
  claims : List ClaimPhase := []
  commits : List Commit := []
  transfer : ℕ → Option Transfer := fun _ => none

namespace Ownership

/-- `wholeClaimed`. -/
def wholeClaimed (state : Ownership) : Bool := hasBit state.authority branchWhole

/-- What `claimChild` does with the word it has read. -/
def afterLoad (state : BitVec 32) : ClaimPhase :=
  if hasBit state branchWhole then .refused else .loaded state

def setClaim (state : Ownership) (claim : ℕ) (phase : ClaimPhase) : Ownership :=
  { state with claims := state.claims.set claim phase }

def setCommit (state : Ownership) (commit : ℕ) (call : Commit) : Ownership :=
  { state with commits := state.commits.set commit call }

def claimChild (state : Ownership) : Ownership :=
  { state with claims := state.claims ++ [afterLoad state.authority] }

/-- The compare-exchange of a claim in progress, or the read after a failed one. -/
def advanceClaim (state : Ownership) (claim : ℕ) : Ownership :=
  match state.claims[claim]? with
  | some (.loaded seen) =>
      if state.authority = seen then
        { state.setClaim claim .pending with authority := state.authority + branchChild }
      else state.setClaim claim .retrying
  | some .retrying => state.setClaim claim (afterLoad state.authority)
  | _ => state

/-- Call a settlement; only the first call does anything. -/
def settle (state : Ownership) (claim : ℕ) (consumed : Bool) : Ownership :=
  match state.claims[claim]? with
  | some .pending =>
      if consumed then
        { state.setClaim claim .marked with authority := state.authority ||| branchPartial }
      else
        {
          state.setClaim claim (.settled false) with
          authority := state.authority - branchChild
        }
  | _ => state

/-- The second operation of a consuming settlement. -/
def countOff (state : Ownership) (claim : ℕ) : Ownership :=
  match state.claims[claim]? with
  | some .marked =>
      {
        state.setClaim claim (.settled true) with
        authority := state.authority - branchChild
      }
  | _ => state

/-- The refusal of a commit that found the word in use. -/
def refusal (state : BitVec 32) : EffectCommitFailure :=
  effectCommitFailure
    (.plain
      (if hasBit state branchPartial then "process execution was partially consumed"
      else "process execution was already claimed"))
    .recoverable

def addCommit (state : Ownership) (call : Commit) : Ownership :=
  { state with commits := state.commits ++ [call] }

/-- A commit found the word zero and set the whole flag. -/
def claimWhole (state : Ownership) (object apply : ℕ) : Ownership :=
  {
    state.addCommit ⟨object, apply, .claimed⟩ with
    authority := branchWhole
    transfer :=
      Function.update state.transfer object (some { apply, commit := state.commits.length })
  }

/-- A commit of an `apply` the object does not already own. -/
def commitFresh (state : Ownership) (object apply : ℕ) : Ownership :=
  if state.authority = 0 then state.claimWhole object apply
  else state.addCommit ⟨object, apply, .refused (refusal state.authority)⟩

def commit (state : Ownership) (object apply : ℕ) : Ownership :=
  match state.transfer object with
  | some transfer =>
      if transfer.apply = apply then state.addCommit ⟨object, apply, .joined transfer.commit⟩
      else state.commitFresh object apply
  | none => state.commitFresh object apply

/-- Invoke `apply` of a commit that claimed the word. -/
def invoke (state : Ownership) (commit : ℕ) : Ownership :=
  match state.commits[commit]? with
  | some ⟨object, apply, .claimed⟩ => state.setCommit commit ⟨object, apply, .running⟩
  | _ => state

/-- An error that permits another attempt. -/
def isRecoverable : Thrown → Bool
  | .failure failure => failure.disposition == .recoverable
  | .plain _ => false

/-- The promise of `apply` settles. -/
def finish (state : Ownership) (commit : ℕ) (result : Except Thrown Unit) : Ownership :=
  match state.commits[commit]? with
  | some ⟨object, apply, .running⟩ =>
      match result with
      | .ok _ => state.setCommit commit ⟨object, apply, .succeeded⟩
      | .error error =>
          if isRecoverable error then state.setCommit commit ⟨object, apply, .rejected⟩
          else state.setCommit commit ⟨object, apply, .failed error⟩
  | _ => state

/-- The handler of a recoverable failure gives the word and the transfer back. -/
def recover (state : Ownership) (commit : ℕ) : Ownership :=
  match state.commits[commit]? with
  | some ⟨object, apply, .rejected⟩ =>
      {
        state.setCommit commit ⟨object, apply, .recovered⟩ with
        authority := 0
        transfer := Function.update state.transfer object none
      }
  | _ => state

end Ownership

/-- One atomic operation, or the start of `apply` or the settling of its promise. -/
inductive OwnershipAction where
  | claimChild
  | advanceClaim (claim : ℕ)
  | settle (claim : ℕ) (consumed : Bool)
  | countOff (claim : ℕ)
  | commit (object apply : ℕ)
  | invoke (commit : ℕ)
  | finish (commit : ℕ) (result : Except Thrown Unit)
  | recover (commit : ℕ)

namespace Ownership

def step (state : Ownership) : OwnershipAction → Ownership
  | .claimChild => state.claimChild
  | .advanceClaim claim => state.advanceClaim claim
  | .settle claim consumed => state.settle claim consumed
  | .countOff claim => state.countOff claim
  | .commit object apply => state.commit object apply
  | .invoke commit => state.invoke commit
  | .finish commit result => state.finish commit result
  | .recover commit => state.recover commit

/-- The state after any interleaving of the calls on every object. -/
def afterActions (actions : List OwnershipAction) : Ownership := runAll step {} actions

end Ownership

end Calls

end SpeculativeAction.ProcessHandoff
