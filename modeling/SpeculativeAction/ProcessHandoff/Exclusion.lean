import SpeculativeAction.ProcessHandoff.Ownership

/-! Whole-versus-children exclusion of the authority word: what the word stands for in
every reachable state, and what no interleaving can do after a child or the whole branch
was taken.
-/

namespace SpeculativeAction.ProcessHandoff

open SpeculativeAction.Library SpeculativeAction.EffectTransaction

section Slots

variable {α : Type*} {slots : List α} {slot : ℕ} {old : α}

/-- Replacing one entry moves the count by what the two entries count. -/
theorem countP_replace (counts : α → Bool) (found : slots[slot]? = some old) (new : α)
    : (slots.set slot new).countP counts + (counts old).toNat
      = slots.countP counts + (counts new).toNat := by
  obtain ⟨inside, rfl⟩ := List.getElem?_eq_some_iff.mp found
  have positive : counts slots[slot] = true → 0 < slots.countP counts := fun counted =>
    List.countP_pos_iff.mpr ⟨_, List.getElem_mem inside, counted⟩
  rw [List.countP_set inside]
  cases before : counts slots[slot] <;> cases after : counts new <;> simp_all

theorem any_replace (flags : α → Bool) (found : slots[slot]? = some old) {new : α}
    (same : flags new = flags old)
    : (slots.set slot new).any flags = slots.any flags := by
  have counted := countP_replace flags found new
  rw [same, Nat.add_right_cancel_iff] at counted
  rw [Bool.eq_iff_iff, List.any_eq_true, List.any_eq_true, ← List.countP_pos_iff,
    ← List.countP_pos_iff, counted]

theorem any_replace_true (flags : α → Bool) (found : slots[slot]? = some old) {new : α}
    (flagged : flags new = true)
    : (slots.set slot new).any flags = true := by
  obtain ⟨inside, -⟩ := List.getElem?_eq_some_iff.mp found
  exact List.any_eq_true.mpr ⟨new, List.mem_set inside new, flagged⟩

/-- What the slots hold after one more was added. -/
theorem getElem?_add {index : ℕ} {new stored : α}
    : (slots ++ [new])[index]? = some stored
      ↔ slots[index]? = some stored ∨ index = slots.length ∧ new = stored := by
  grind

end Slots

/-- The call holds the whole branch. -/
def Commit.holdsWhole (call : Commit) : Bool := call.phase.holdsWhole

namespace Ownership

/-- How many child claims are granted and not counted off. -/
def outstanding (state : Ownership) : ℕ := state.claims.countP ClaimPhase.isOutstanding

/-- A child was consumed. -/
def anyConsumed (state : Ownership) : Bool := state.claims.any ClaimPhase.isConsumed

/-- A commit holds the whole branch. -/
def anyWhole (state : Ownership) : Bool := state.commits.any Commit.holdsWhole

/-- What the word stands for, and why a compare-exchange or a shared `transfer` can only
succeed when it should.
-/
structure Consistent (state : Ownership) : Prop where
  word : state.authority = branchWord state.outstanding state.anyWhole state.anyConsumed
  seen : ∀ value, .loaded value ∈ state.claims → hasBit value branchWhole = false
  alone : state.anyWhole = true → state.outstanding = 0 ∧ state.anyConsumed = false
  single
    : ∀ (left right : ℕ) (leftCall rightCall : Commit),
        state.commits[left]? = some leftCall
        → state.commits[right]? = some rightCall
        → leftCall.holdsWhole = true
        → rightCall.holdsWhole = true
        → left = right
  transfers
    : ∀ object transfer,
        state.transfer object = some transfer
        → ∃ call,
            state.commits[transfer.commit]? = some call
            ∧ call.object = object
            ∧ call.holdsWhole = true

theorem consistent_initial : Consistent {} where
  word := rfl
  seen := by simp
  alone := by simp [anyWhole]
  single := by simp
  transfers := by simp

section Steps

variable {state : Ownership} {claim : ℕ} {old new : ClaimPhase}

/-- Moving one claim moves the count by what its two phases count. -/
theorem outstanding_setClaim (found : state.claims[claim]? = some old) (new : ClaimPhase)
    : (state.setClaim claim new).outstanding + old.isOutstanding.toNat
      = state.outstanding + new.isOutstanding.toNat :=
  countP_replace ClaimPhase.isOutstanding found new

theorem anyConsumed_setClaim (found : state.claims[claim]? = some old)
    (same : new.isConsumed = old.isConsumed)
    : (state.setClaim claim new).anyConsumed = state.anyConsumed :=
  any_replace ClaimPhase.isConsumed found same

theorem anyConsumed_setClaim_true (found : state.claims[claim]? = some old)
    (consumed : new.isConsumed = true)
    : (state.setClaim claim new).anyConsumed = true :=
  any_replace_true ClaimPhase.isConsumed found consumed

/-- A claim that is not granted by the move changes nothing the word stands for. -/
theorem Consistent.moveClaim (consistent : Consistent state)
    (found : state.claims[claim]? = some old) (outstanding : new.isOutstanding = old.isOutstanding)
    (consumed : new.isConsumed = old.isConsumed)
    (seen : ∀ value, new = .loaded value → hasBit value branchWhole = false)
    : Consistent (state.setClaim claim new) := by
  have count : (state.setClaim claim new).outstanding = state.outstanding := by
    have moved := outstanding_setClaim found new
    rw [outstanding] at moved
    exact Nat.add_right_cancel moved
  have flag : (state.setClaim claim new).anyConsumed = state.anyConsumed :=
    anyConsumed_setClaim found consumed
  constructor
  case word => rw [count, flag]; exact consistent.word
  case seen =>
    intro value member
    rcases List.mem_or_eq_of_mem_set member with stays | rfl
    · exact consistent.seen value stays
    · exact seen value rfl
  case alone => rw [count, flag]; exact consistent.alone
  case single => exact consistent.single
  case transfers => exact consistent.transfers

/-- The word a claim keeps after a load has no whole flag. -/
theorem seen_afterLoad {state value : BitVec 32} (loaded : afterLoad state = .loaded value)
    : hasBit value branchWhole = false := by
  unfold afterLoad at loaded
  split at loaded
  · cases loaded
  · rename_i absent
    rw [← ClaimPhase.loaded.inj loaded]
    simpa using absent

@[simp] theorem isOutstanding_afterLoad (state : BitVec 32)
    : (afterLoad state).isOutstanding = false := by
  unfold afterLoad; split <;> rfl

@[simp] theorem isConsumed_afterLoad (state : BitVec 32)
    : (afterLoad state).isConsumed = false := by
  unfold afterLoad; split <;> rfl

@[simp] theorem isGranted_afterLoad (state : BitVec 32)
    : (afterLoad state).isGranted = false := by
  unfold afterLoad; split <;> rfl

section

variable (consistent : Consistent state)

include consistent

theorem Consistent.claimChild
    : Consistent state.claimChild := by
  have count : state.claimChild.outstanding = state.outstanding := by
    simp [outstanding, Ownership.claimChild]
  have flag : state.claimChild.anyConsumed = state.anyConsumed := by
    simp [anyConsumed, Ownership.claimChild]
  constructor
  case word => rw [count, flag]; exact consistent.word
  case seen =>
    intro value member
    rcases List.mem_append.mp member with stays | fresh
    · exact consistent.seen value stays
    · exact seen_afterLoad (List.mem_singleton.mp fresh).symm
  case alone => rw [count, flag]; exact consistent.alone
  case single => exact consistent.single
  case transfers => exact consistent.transfers

/-- A claim may be granted only while no commit holds the branch. -/
theorem Consistent.not_whole {value : BitVec 32} (member : .loaded value ∈ state.claims)
    (same : state.authority = value)
    : state.anyWhole = false := by
  have absent := consistent.seen value member
  rwa [← same, consistent.word, hasBit_whole] at absent

/-- Granting a claim counts it, in the word as in the claims. -/
theorem Consistent.grant {value : BitVec 32} (found : state.claims[claim]? = some (.loaded value))
    (same : state.authority = value)
    : Consistent
        { state.setClaim claim .pending with authority := state.authority + branchChild } := by
  have free := consistent.not_whole (List.mem_of_getElem? found) same
  have granted : (state.setClaim claim .pending).outstanding = state.outstanding + 1 := by
    simpa [ClaimPhase.isOutstanding] using outstanding_setClaim found .pending
  have flag : (state.setClaim claim .pending).anyConsumed = state.anyConsumed :=
    anyConsumed_setClaim found rfl
  constructor
  case word =>
    change state.authority + branchChild
      = branchWord (state.setClaim claim .pending).outstanding state.anyWhole
          (state.setClaim claim .pending).anyConsumed
    rw [granted, flag, consistent.word, branchWord_add_child]
  case seen =>
    intro other member
    rcases List.mem_or_eq_of_mem_set member with stays | fresh
    · exact consistent.seen other stays
    · cases fresh
  case alone => exact fun whole => absurd (free.symm.trans whole) (by decide)
  case single => exact consistent.single
  case transfers => exact consistent.transfers

theorem Consistent.advanceClaim (claim : ℕ)
    : Consistent (state.advanceClaim claim) := by
  unfold Ownership.advanceClaim
  cases found : state.claims[claim]? with
  | none => exact consistent
  | some phase =>
      cases phase with
      | loaded value =>
          dsimp only
          by_cases same : state.authority = value
          · rw [if_pos same]
            exact consistent.grant found same
          · rw [if_neg same]
            exact consistent.moveClaim found rfl rfl (by simp)
      | retrying =>
          exact consistent.moveClaim found (isOutstanding_afterLoad _) (isConsumed_afterLoad _)
            (fun _ loaded => seen_afterLoad loaded)
      | _ => exact consistent

/-- While a claim is outstanding no commit holds the branch. -/
theorem Consistent.free_of_outstanding (found : state.claims[claim]? = some old)
    (outstanding : old.isOutstanding = true)
    : state.anyWhole = false := by
  by_contra whole
  have childless := (consistent.alone (by simpa using whole)).1
  exact List.countP_eq_zero.mp childless old (List.mem_of_getElem? found) outstanding

/-- A settlement changes one claim and the word, and only while the branch is free. -/
theorem Consistent.settleClaim (found : state.claims[claim]? = some old)
    (outstanding : old.isOutstanding = true) (unloaded : ∀ value, new ≠ .loaded value)
    {authority : BitVec 32}
    (word
      : authority
        = branchWord (state.setClaim claim new).outstanding false
            (state.setClaim claim new).anyConsumed)
    : Consistent { state.setClaim claim new with authority } := by
  have free := consistent.free_of_outstanding found outstanding
  constructor
  case word =>
    change authority = branchWord (state.setClaim claim new).outstanding state.anyWhole
      (state.setClaim claim new).anyConsumed
    rw [free, word]
  case seen =>
    intro value member
    rcases List.mem_or_eq_of_mem_set member with stays | fresh
    · exact consistent.seen value stays
    · exact absurd fresh.symm (unloaded value)
  case alone => exact fun whole => absurd (free.symm.trans whole) (by decide)
  case single => exact consistent.single
  case transfers => exact consistent.transfers

theorem Consistent.settle (claim : ℕ) (consumed : Bool)
    : Consistent (state.settle claim consumed) := by
  unfold Ownership.settle
  split
  · rename_i found
    have word := consistent.word
    rw [consistent.free_of_outstanding found rfl] at word
    split
    · have same : (state.setClaim claim .marked).outstanding = state.outstanding :=
        Nat.add_right_cancel (outstanding_setClaim found .marked)
      refine consistent.settleClaim found rfl (by simp) ?_
      rw [word, branchWord_or_partial, same, anyConsumed_setClaim_true found rfl]
    · have fewer
          : (state.setClaim claim (.settled false)).outstanding + 1 = state.outstanding :=
        outstanding_setClaim found (.settled false)
      have flag : (state.setClaim claim (.settled false)).anyConsumed = state.anyConsumed :=
        anyConsumed_setClaim found rfl
      refine consistent.settleClaim found rfl (by simp) ?_
      rw [word, ← fewer, branchWord_sub_child, flag]
  · exact consistent

theorem Consistent.countOff (claim : ℕ)
    : Consistent (state.countOff claim) := by
  unfold Ownership.countOff
  split
  · rename_i found
    have word := consistent.word
    rw [consistent.free_of_outstanding found rfl] at word
    have fewer
        : (state.setClaim claim (.settled true)).outstanding + 1 = state.outstanding :=
      outstanding_setClaim found (.settled true)
    have flag : (state.setClaim claim (.settled true)).anyConsumed = state.anyConsumed :=
      anyConsumed_setClaim found rfl
    refine consistent.settleClaim found rfl (by simp) ?_
    rw [word, ← fewer, branchWord_sub_child, flag]
  · exact consistent

end

/-- Moving one commit that keeps its claim on the branch, or gives up nothing. -/
theorem anyWhole_setCommit {commit : ℕ} {call moved : Commit}
    (found : state.commits[commit]? = some call) (same : moved.holdsWhole = call.holdsWhole)
    : (state.setCommit commit moved).anyWhole = state.anyWhole :=
  any_replace Commit.holdsWhole found same

/-- A commit that keeps its hold and its object leaves everything the word stands for. -/
theorem Consistent.moveCommit (consistent : Consistent state) {commit : ℕ} {call moved : Commit}
    (found : state.commits[commit]? = some call) (same : moved.holdsWhole = call.holdsWhole)
    (object : moved.object = call.object)
    : Consistent (state.setCommit commit moved) := by
  have whole := anyWhole_setCommit found same
  have former (index : ℕ) (other : Commit)
      (at_ : (state.setCommit commit moved).commits[index]? = some other)
      (holds : other.holdsWhole = true)
      : ∃ before, state.commits[index]? = some before ∧ before.holdsWhole = true := by
    by_cases here : commit = index
    · subst here
      rw [setCommit, List.getElem?_set_self (List.getElem?_eq_some_iff.mp found).1] at at_
      exact ⟨call, found, same ▸ Option.some.inj at_ ▸ holds⟩
    · rw [setCommit, List.getElem?_set_ne here] at at_
      exact ⟨other, at_, holds⟩
  constructor
  case word => rw [whole]; exact consistent.word
  case seen => exact consistent.seen
  case alone => rw [whole]; exact consistent.alone
  case single =>
    intro left right leftCall rightCall leftAt rightAt leftHolds rightHolds
    obtain ⟨leftBefore, leftFound, leftHeld⟩ := former left leftCall leftAt leftHolds
    obtain ⟨rightBefore, rightFound, rightHeld⟩ := former right rightCall rightAt rightHolds
    exact consistent.single _ _ _ _ leftFound rightFound leftHeld rightHeld
  case transfers =>
    intro owner transfer stored
    obtain ⟨before, beforeAt, owned, holds⟩ := consistent.transfers owner transfer stored
    by_cases here : commit = transfer.commit
    · subst here
      obtain rfl : call = before := Option.some.inj (found.symm.trans beforeAt)
      exact ⟨moved, List.getElem?_set_self (List.getElem?_eq_some_iff.mp found).1,
        object.trans owned, same.trans holds⟩
    · exact ⟨before, (List.getElem?_set_ne here).trans beforeAt, owned, holds⟩

/-- A call that only adds a record without a hold changes nothing. -/
theorem Consistent.addCommit (consistent : Consistent state) {call : Commit}
    (holds : call.holdsWhole = false)
    : Consistent (state.addCommit call) := by
  have whole : (state.addCommit call).anyWhole = state.anyWhole := by
    simp [anyWhole, Ownership.addCommit, holds]
  have former {index : ℕ} {other : Commit}
      (stored : (state.addCommit call).commits[index]? = some other)
      (held : other.holdsWhole = true)
      : state.commits[index]? = some other := by
    rcases getElem?_add.mp stored with before | ⟨-, rfl⟩
    · exact before
    · exact absurd (holds.symm.trans held) (by decide)
  constructor
  case word => rw [whole]; exact consistent.word
  case seen => exact consistent.seen
  case alone => rw [whole]; exact consistent.alone
  case single =>
    intro left right leftCall rightCall leftAt rightAt leftHolds rightHolds
    exact consistent.single _ _ _ _ (former leftAt leftHolds) (former rightAt rightHolds)
      leftHolds rightHolds
  case transfers =>
    intro owner transfer stored
    obtain ⟨before, found, owned, held⟩ := consistent.transfers owner transfer stored
    exact ⟨before, getElem?_add.mpr (.inl found), owned, held⟩

/-- A zero word stands for nothing while the children fit it. -/
theorem Consistent.free_of_zero (consistent : Consistent state) (fits : state.outstanding < 2 ^ 30)
    (zero : state.authority = 0)
    : state.outstanding = 0 ∧ state.anyWhole = false ∧ state.anyConsumed = false := by
  rw [consistent.word, branchWord_eq_zero_iff fits] at zero
  exact zero

/-- No call holds the branch when the word has no whole flag. -/
theorem not_holds (free : state.anyWhole = false) {index : ℕ} {call : Commit}
    (stored : state.commits[index]? = some call)
    : call.holdsWhole = false := by
  simpa using List.any_eq_false.mp free call (List.mem_of_getElem? stored)

section

variable (consistent : Consistent state)

include consistent

/-- The exchange of zero by the whole flag takes the branch from nobody. -/
theorem Consistent.claimWhole (fits : state.outstanding < 2 ^ 30) (zero : state.authority = 0)
    (object apply : ℕ)
    : Consistent (state.claimWhole object apply) := by
  obtain ⟨childless, free, unconsumed⟩ := consistent.free_of_zero fits zero
  have taken : (state.claimWhole object apply).anyWhole = true := by
    simp [anyWhole, Ownership.claimWhole, Ownership.addCommit, Commit.holdsWhole,
      CommitPhase.holdsWhole]
  constructor
  case word =>
    change branchWhole
      = branchWord state.outstanding (state.claimWhole object apply).anyWhole state.anyConsumed
    rw [taken, childless, unconsumed]
    rfl
  case seen => exact consistent.seen
  case alone => exact fun _ => ⟨childless, unconsumed⟩
  case single =>
    have last {index : ℕ} {call : Commit}
        (stored : (state.claimWhole object apply).commits[index]? = some call)
        (held : call.holdsWhole = true)
        : index = state.commits.length := by
      rcases getElem?_add.mp stored with before | ⟨here, -⟩
      · exact absurd ((not_holds free before).symm.trans held) (by decide)
      · exact here
    intro left right leftCall rightCall leftAt rightAt leftHolds rightHolds
    exact (last leftAt leftHolds).trans (last rightAt rightHolds).symm
  case transfers =>
    intro owner transfer stored
    dsimp only [Ownership.claimWhole] at stored
    by_cases here : owner = object
    · subst here
      rw [Function.update_self] at stored
      obtain rfl := Option.some.inj stored
      exact ⟨_, getElem?_add.mpr (.inr ⟨rfl, rfl⟩), rfl, rfl⟩
    · rw [Function.update_of_ne here] at stored
      obtain ⟨before, found, -, held⟩ := consistent.transfers owner transfer stored
      exact absurd ((not_holds free found).symm.trans held) (by decide)

theorem Consistent.commitFresh (fits : state.outstanding < 2 ^ 30) (object apply : ℕ)
    : Consistent (state.commitFresh object apply) := by
  unfold Ownership.commitFresh
  by_cases zero : state.authority = 0
  · rw [if_pos zero]
    exact consistent.claimWhole fits zero object apply
  · rw [if_neg zero]
    exact consistent.addCommit rfl

theorem Consistent.commit (fits : state.outstanding < 2 ^ 30) (object apply : ℕ)
    : Consistent (state.commit object apply) := by
  unfold Ownership.commit
  split
  · split
    · exact consistent.addCommit rfl
    · exact consistent.commitFresh fits object apply
  · exact consistent.commitFresh fits object apply

theorem Consistent.invoke (commit : ℕ)
    : Consistent (state.invoke commit) := by
  unfold Ownership.invoke
  split
  · rename_i found
    exact consistent.moveCommit found rfl rfl
  · exact consistent

theorem Consistent.finish (commit : ℕ) (result : Except Thrown Unit)
    : Consistent (state.finish commit result) := by
  unfold Ownership.finish
  split
  · rename_i found
    cases result with
    | ok _ => exact consistent.moveCommit found rfl rfl
    | error error =>
        dsimp only
        split <;> exact consistent.moveCommit found rfl rfl
  · exact consistent

/-- The call that holds the branch is the only one, so giving the word back frees it. -/
theorem Consistent.recover (commit : ℕ)
    : Consistent (state.recover commit) := by
  unfold Ownership.recover
  split
  · rename_i object apply found
    have inside := (List.getElem?_eq_some_iff.mp found).1
    have taken : state.anyWhole = true :=
      List.any_eq_true.mpr ⟨_, List.mem_of_getElem? found, rfl⟩
    obtain ⟨childless, unconsumed⟩ := consistent.alone taken
    have freed {index : ℕ} {call : Commit}
        (stored
          : (state.commits.set commit ⟨object, apply, .recovered⟩)[index]? = some call)
        : call.holdsWhole = false := by
      by_cases here : commit = index
      · subst here
        rw [List.getElem?_set_self inside] at stored
        exact Option.some.inj stored ▸ rfl
      · rw [List.getElem?_set_ne here] at stored
        by_contra held
        exact here (consistent.single _ _ _ _ found stored rfl (by simpa using held))
    have free
        : (state.commits.set commit ⟨object, apply, .recovered⟩).any Commit.holdsWhole
          = false := by
      refine List.any_eq_false.mpr fun call member => ?_
      obtain ⟨index, stored⟩ := List.getElem?_of_mem member
      simpa using freed stored
    constructor
    case word =>
      change 0 = branchWord state.outstanding
        ((state.commits.set commit ⟨object, apply, .recovered⟩).any Commit.holdsWhole)
        state.anyConsumed
      rw [free, childless, unconsumed]
      rfl
    case seen => exact consistent.seen
    case alone => exact fun whole => absurd (free.symm.trans whole) (by decide)
    case single =>
      intro left right leftCall rightCall leftAt _ leftHolds _
      exact absurd ((freed leftAt).symm.trans leftHolds) (by decide)
    case transfers =>
      intro owner transfer stored
      dsimp only at stored
      by_cases here : owner = object
      · subst here
        rw [Function.update_self] at stored
        cases stored
      · rw [Function.update_of_ne here] at stored
        obtain ⟨before, at_, owned, held⟩ := consistent.transfers owner transfer stored
        have same := consistent.single _ _ _ _ at_ found held rfl
        rw [same, found] at at_
        exact absurd (owned.symm.trans (congrArg Commit.object (Option.some.inj at_).symm)) here
  · exact consistent

/-- Every step keeps the word and the calls consistent while the children fit the word. -/
theorem Consistent.step (fits : state.outstanding < 2 ^ 30) (action : OwnershipAction)
    : Consistent (state.step action) := by
  cases action with
  | claimChild => exact consistent.claimChild
  | advanceClaim claim => exact consistent.advanceClaim claim
  | settle claim consumed => exact consistent.settle claim consumed
  | countOff claim => exact consistent.countOff claim
  | commit object apply => exact consistent.commit fits object apply
  | invoke commit => exact consistent.invoke commit
  | finish commit result => exact consistent.finish commit result
  | recover commit => exact consistent.recover commit

end

end Steps

section Moves

/-- What one step can do to one claim, given the word before it. -/
inductive ClaimMove (authority : BitVec 32) : ClaimPhase → ClaimPhase → Prop
  | grant : ClaimMove authority (.loaded authority) .pending
  | retry (value : BitVec 32) : ClaimMove authority (.loaded value) .retrying
  | reload : ClaimMove authority .retrying (afterLoad authority)
  | mark : ClaimMove authority .pending .marked
  | release : ClaimMove authority .pending (.settled false)
  | countOff : ClaimMove authority .marked (.settled true)

/-- What one step can do to one commit. -/
inductive CommitMove : CommitPhase → CommitPhase → Prop
  | invoke : CommitMove .claimed .running
  | succeed : CommitMove .running .succeeded
  | fail (error : Thrown) : CommitMove .running (.failed error)
  | reject : CommitMove .running .rejected
  | recover : CommitMove .rejected .recovered

/-- How a new commit call starts. -/
inductive CommitStart (state : Ownership) (call : Commit) : Prop
  | join (transfer : Transfer) (owned : state.transfer call.object = some transfer)
  | claim (zero : state.authority = 0)
  | refuse (used : state.authority ≠ 0) (phase : call.phase = .refused (refusal state.authority))

/-- The claims after a step: one more call, one claim moved, or the same. -/
theorem step_claims (state : Ownership) (action : OwnershipAction)
    : (state.step action).claims = state.claims
      ∨ (state.step action).claims = state.claims ++ [afterLoad state.authority]
      ∨ ∃ claim old new,
          state.claims[claim]? = some old
          ∧ (state.step action).claims = state.claims.set claim new
          ∧ ClaimMove state.authority old new := by
  cases action with
  | claimChild => exact .inr (.inl rfl)
  | advanceClaim claim =>
      simp only [step]
      unfold Ownership.advanceClaim
      cases found : state.claims[claim]? with
      | none => exact .inl rfl
      | some phase =>
          cases phase with
          | loaded value =>
              dsimp only
              by_cases same : state.authority = value
              · subst same
                rw [if_pos rfl]
                exact .inr (.inr ⟨claim, _, _, found, rfl, .grant⟩)
              · rw [if_neg same]
                exact .inr (.inr ⟨claim, _, _, found, rfl, .retry value⟩)
          | retrying => exact .inr (.inr ⟨claim, _, _, found, rfl, .reload⟩)
          | _ => exact .inl rfl
  | settle claim consumed =>
      simp only [step, Ownership.settle]
      split
      · rename_i found
        split
        · exact .inr (.inr ⟨claim, _, _, found, rfl, .mark⟩)
        · exact .inr (.inr ⟨claim, _, _, found, rfl, .release⟩)
      · exact .inl rfl
  | countOff claim =>
      simp only [step, Ownership.countOff]
      split
      · rename_i found
        exact .inr (.inr ⟨claim, _, _, found, rfl, .countOff⟩)
      · exact .inl rfl
  | commit object apply =>
      refine .inl ?_
      simp only [step, Ownership.commit, Ownership.commitFresh]
      split
      · split
        · rfl
        · split <;> rfl
      · split <;> rfl
  | invoke commit =>
      refine .inl ?_
      simp only [step, Ownership.invoke]
      split <;> rfl
  | finish commit result =>
      refine .inl ?_
      simp only [step, Ownership.finish]
      split
      · cases result with
        | ok _ => rfl
        | error error => dsimp only; split <;> rfl
      · rfl
  | recover commit =>
      refine .inl ?_
      simp only [step, Ownership.recover]
      split <;> rfl

/-- The commits after a step: one more call, one call moved, or the same. -/
theorem step_commits (state : Ownership) (action : OwnershipAction)
    : (state.step action).commits = state.commits
      ∨ (∃ call,
          (state.step action).commits = state.commits ++ [call] ∧ CommitStart state call
          ∧ call.phase.wasInvoked = false)
      ∨ ∃ commit old new,
          state.commits[commit]? = some old
          ∧ (state.step action).commits = state.commits.set commit new
          ∧ CommitMove old.phase new.phase := by
  cases action with
  | claimChild => exact .inl rfl
  | advanceClaim claim =>
      refine .inl ?_
      simp only [step]
      unfold Ownership.advanceClaim
      cases found : state.claims[claim]? with
      | none => rfl
      | some phase =>
          cases phase with
          | loaded value =>
              dsimp only
              by_cases same : state.authority = value
              · rw [if_pos same]
                rfl
              · rw [if_neg same]
                rfl
          | _ => rfl
  | settle claim consumed =>
      refine .inl ?_
      simp only [step, Ownership.settle]
      split
      · split <;> rfl
      · rfl
  | countOff claim =>
      refine .inl ?_
      simp only [step, Ownership.countOff]
      split <;> rfl
  | commit object apply =>
      refine .inr (.inl ?_)
      have fresh
          : ∃ call,
              (state.commitFresh object apply).commits = state.commits ++ [call]
              ∧ CommitStart state call ∧ call.phase.wasInvoked = false := by
        unfold Ownership.commitFresh
        by_cases zero : state.authority = 0
        · rw [if_pos zero]
          exact ⟨_, rfl, .claim zero, rfl⟩
        · rw [if_neg zero]
          exact ⟨_, rfl, .refuse zero rfl, rfl⟩
      simp only [step, Ownership.commit]
      split
      · rename_i transfer owned
        split
        · exact ⟨_, rfl, .join transfer owned, rfl⟩
        · exact fresh
      · exact fresh
  | invoke commit =>
      simp only [step, Ownership.invoke]
      split
      · rename_i found
        exact .inr (.inr ⟨commit, _, _, found, rfl, .invoke⟩)
      · exact .inl rfl
  | finish commit result =>
      simp only [step, Ownership.finish]
      split
      · rename_i found
        cases result with
        | ok _ => exact .inr (.inr ⟨commit, _, _, found, rfl, .succeed⟩)
        | error error =>
            dsimp only
            split
            · exact .inr (.inr ⟨commit, _, _, found, rfl, .reject⟩)
            · exact .inr (.inr ⟨commit, _, _, found, rfl, .fail error⟩)
      · exact .inl rfl
  | recover commit =>
      simp only [step, Ownership.recover]
      split
      · rename_i found
        exact .inr (.inr ⟨commit, _, _, found, rfl, .recover⟩)
      · exact .inl rfl

end Moves

section Later

/-- The commit failed as recoverable because a child had been consumed. -/
def IsPartlyConsumed (call : Commit) : Prop :=
  call.phase = .refused
    {
      disposition := .recoverable
      message := "process execution was partially consumed"
    }

/-- Since `before`, where a child had been consumed, every new commit was refused. -/
structure AfterConsumed (before after : Ownership) : Prop where
  consumed : after.anyConsumed = true
  grows : before.commits.length ≤ after.commits.length
  refused
    : ∀ (index : ℕ) (call : Commit),
        before.commits.length ≤ index
        → after.commits[index]? = some call
        → IsPartlyConsumed call

/-- Since `before`, where `apply` had succeeded or failed for good, no claim was granted
and no `apply` was invoked.
-/
structure AfterFinal (before after : Ownership) : Prop where
  final : ∃ call ∈ after.commits, call.phase.isFinal = true
  claims
    : ∀ (index : ℕ) (claim : ClaimPhase),
        after.claims[index]? = some claim
        → claim.isGranted = true
        → ∃ old, before.claims[index]? = some old ∧ old.isGranted = true
  commits
    : ∀ (index : ℕ) (call : Commit),
        after.commits[index]? = some call
        → call.phase.wasInvoked = true
        → ∃ old, before.commits[index]? = some old ∧ old.phase.wasInvoked = true

variable {before state : Ownership}

/-- A claim that moves keeps having been consumed, or becomes it. -/
theorem ClaimMove.consumed {authority : BitVec 32} {old new : ClaimPhase}
    (move : ClaimMove authority old new)
    : new.isConsumed = old.isConsumed ∨ new.isConsumed = true := by
  cases move with
  | grant | retry | release => exact .inl rfl
  | reload => exact .inl (isConsumed_afterLoad _)
  | mark | countOff => exact .inr rfl

/-- A consumed child stays consumed. -/
theorem anyConsumed_step (consumed : state.anyConsumed = true) (action : OwnershipAction)
    : (state.step action).anyConsumed = true := by
  rw [anyConsumed]
  rcases step_claims state action with same | added | ⟨claim, old, new, found, moved, move⟩
  · rwa [same]
  · rw [added, List.any_append, show state.claims.any ClaimPhase.isConsumed = true from consumed,
      Bool.true_or]
  · rw [moved]
    rcases move.consumed with kept | becomes
    · exact (any_replace _ found kept).trans consumed
    · exact any_replace_true _ found becomes

/-- While a child is consumed no commit holds the branch and no object owns an `apply`. -/
theorem Consistent.free_of_consumed (consistent : Consistent state)
    (consumed : state.anyConsumed = true)
    : state.anyWhole = false := by
  by_contra whole
  have unconsumed := (consistent.alone (by simpa using whole)).2
  exact absurd (unconsumed.symm.trans consumed) (by decide)

theorem Consistent.transfer_none (consistent : Consistent state) (free : state.anyWhole = false)
    (object : ℕ)
    : state.transfer object = none := by
  by_contra owns
  obtain ⟨transfer, stored⟩ := Option.ne_none_iff_exists'.mp owns
  obtain ⟨call, found, -, held⟩ := consistent.transfers object transfer stored
  exact absurd ((not_holds free found).symm.trans held) (by decide)

/-- A refused commit stays refused, since only commits under way move. -/
theorem CommitMove.not_refused {old new : CommitPhase} (move : CommitMove old new)
    (failure : EffectCommitFailure)
    : old ≠ .refused failure := by
  cases move <;> simp

/-- One step keeps refusing every commit once a child was consumed. -/
theorem AfterConsumed.step (later : AfterConsumed before state) (consistent : Consistent state)
    (action : OwnershipAction)
    : AfterConsumed before (state.step action) := by
  refine ⟨anyConsumed_step later.consumed action, ?_, ?_⟩
  all_goals
    rcases step_commits state action with
      same | ⟨added, extended, started, -⟩ | ⟨commit, old, new, found, moved, move⟩
  · rw [same]; exact later.grows
  · rw [extended, List.length_append]; exact Nat.le_add_right_of_le later.grows
  · rw [moved, List.length_set]; exact later.grows
  · rw [same]; exact later.refused
  · rw [extended]
    intro index call fresh stored
    rcases getElem?_add.mp stored with stays | ⟨-, rfl⟩
    · exact later.refused index call fresh stays
    · have free := consistent.free_of_consumed later.consumed
      have marked : hasBit state.authority branchPartial = true := by
        rw [consistent.word, hasBit_partial, later.consumed]
      cases started with
      | join transfer owned =>
          rw [consistent.transfer_none free] at owned
          cases owned
      | claim zero => rw [zero] at marked; exact absurd marked (by decide)
      | refuse _ phase =>
          rw [IsPartlyConsumed, phase, refusal, if_pos marked]
          rfl
  · rw [moved]
    intro index call fresh stored
    by_cases here : commit = index
    · subst here
      exact absurd (later.refused commit old fresh found) (move.not_refused _)
    · rw [List.getElem?_set_ne here] at stored
      exact later.refused index call fresh stored

/-- A granted claim was granted before, or the word has just been found without a hold. -/
theorem ClaimMove.granted {authority : BitVec 32} {old new : ClaimPhase}
    (move : ClaimMove authority old new) (granted : new.isGranted = true)
    : old.isGranted = true ∨ old = .loaded authority := by
  cases move with
  | grant => exact .inr rfl
  | retry => cases granted
  | reload => exact absurd ((isGranted_afterLoad _).symm.trans granted) (by decide)
  | mark | release | countOff => exact .inl rfl

/-- An `apply` was invoked before, or its commit had just claimed the branch. -/
theorem CommitMove.invoked {old new : CommitPhase} (move : CommitMove old new)
    : old.wasInvoked = true ∨ old = .claimed := by
  cases move <;> simp [CommitPhase.wasInvoked]

theorem CommitMove.not_final {old new : CommitPhase} (move : CommitMove old new)
    : old.isFinal = false := by
  cases move <;> rfl

/-- A final commit holds the branch. -/
theorem holdsWhole_of_final {call : Commit} (final : call.phase.isFinal = true)
    : call.holdsWhole = true := by
  obtain ⟨object, apply, phase⟩ := call
  cases phase <;> first | rfl | cases final

/-- One step grants no claim and invokes no `apply` once an `apply` was final. -/
theorem AfterFinal.step (later : AfterFinal before state) (consistent : Consistent state)
    (action : OwnershipAction)
    : AfterFinal before (state.step action) := by
  obtain ⟨finalCall, member, final⟩ := later.final
  obtain ⟨finalIndex, finalAt⟩ := List.getElem?_of_mem member
  have taken : state.anyWhole = true :=
    List.any_eq_true.mpr ⟨finalCall, member, holdsWhole_of_final final⟩
  refine ⟨?_, ?_, ?_⟩
  · rcases step_commits state action with
      same | ⟨added, extended, -, -⟩ | ⟨commit, old, new, found, moved, move⟩
    · exact ⟨finalCall, same ▸ member, final⟩
    · exact ⟨finalCall, extended ▸ List.mem_append_left _ member, final⟩
    · have elsewhere : commit ≠ finalIndex := by
        rintro rfl
        obtain rfl := Option.some.inj (found.symm.trans finalAt)
        exact absurd (move.not_final.symm.trans final) (by decide)
      have stays : (state.step action).commits[finalIndex]? = some finalCall := by
        rw [moved, List.getElem?_set_ne elsewhere, finalAt]
      exact ⟨finalCall, List.mem_of_getElem? stays, final⟩
  · intro index claim stored granted
    rcases step_claims state action with same | added | ⟨moving, old, new, found, moved, move⟩
    · exact later.claims index claim (same ▸ stored) granted
    · rw [added] at stored
      rcases getElem?_add.mp stored with stays | ⟨-, rfl⟩
      · exact later.claims index claim stays granted
      · exact absurd ((isGranted_afterLoad _).symm.trans granted) (by decide)
    · rw [moved] at stored
      by_cases here : moving = index
      · subst here
        rw [List.getElem?_set_self (List.getElem?_eq_some_iff.mp found).1] at stored
        obtain rfl := Option.some.inj stored
        rcases move.granted granted with was | rfl
        · exact later.claims moving old found was
        · have free := consistent.not_whole (List.mem_of_getElem? found) rfl
          exact absurd (free.symm.trans taken) (by decide)
      · rw [List.getElem?_set_ne here] at stored
        exact later.claims index claim stored granted
  · intro index call stored invoked
    rcases step_commits state action with
      same | ⟨added, extended, -, uninvoked⟩ | ⟨commit, old, new, found, moved, move⟩
    · exact later.commits index call (same ▸ stored) invoked
    · rw [extended] at stored
      rcases getElem?_add.mp stored with stays | ⟨-, rfl⟩
      · exact later.commits index call stays invoked
      · exact absurd (uninvoked.symm.trans invoked) (by decide)
    · rw [moved] at stored
      by_cases here : commit = index
      · subst here
        rcases move.invoked with was | claimed
        · exact later.commits commit old found was
        · have held : old.holdsWhole = true := by rw [Commit.holdsWhole, claimed]; rfl
          have same := consistent.single _ _ _ _ found finalAt held (holdsWhole_of_final final)
          rw [same, finalAt] at found
          rw [← Option.some.inj found] at claimed
          rw [claimed] at final
          cases final
      · rw [List.getElem?_set_ne here] at stored
        exact later.commits index call stored invoked

end Later

section Exclusion

/-- The whole branch and its children exclude each other: in `before`, and in any state
`after` that it leads to.
-/
structure Exclusive (before after : Ownership) : Prop where
  /-- While `apply` runs, and once it is final, no child is claimed or consumed. -/
  alone
    : ∀ call ∈ before.commits,
        call.phase = .running ∨ call.phase.isFinal = true
        → ∀ claim ∈ before.claims, claim.isOutstanding = false ∧ claim.isConsumed = false
  /-- Once a child is consumed, every later commit is refused as recoverable. -/
  refused
    : (∃ claim ∈ before.claims, claim.isConsumed = true) → AfterConsumed before after
  /-- Once `apply` is final, no claim is granted and no other `apply` invoked. -/
  closed : (∃ call ∈ before.commits, call.phase.isFinal = true) → AfterFinal before after
  /-- Giving the word back after a recoverable failure clears it and erases nobody's claim. -/
  recovered
    : ∀ (commit : ℕ) (call : Commit),
        before.commits[commit]? = some call
        → call.phase = .rejected
        → (before.recover commit).authority = 0
          ∧ (before.recover commit).outstanding = 0
          ∧ (before.recover commit).anyWhole = false
          ∧ (before.recover commit).anyConsumed = false
  /-- With all children settled unconsumed and no commit holding it, the word is zero. -/
  released
    : before.outstanding = 0
      → before.anyConsumed = false
      → before.anyWhole = false
      → before.authority = 0

/-- After the step fewer than `2 ^ 30` child claims are outstanding at once. -/
def FewChildren (state : Ownership) (action : OwnershipAction) : Prop :=
  (state.step action).outstanding < 2 ^ 30

instance (state : Ownership) (action : OwnershipAction)
    : Decidable (FewChildren state action) :=
  inferInstanceAs (Decidable (_ < _))

theorem fewChildren_consistent {state : Ownership} {actions : List OwnershipAction}
    (consistent : Consistent state) (fits : state.outstanding < 2 ^ 30)
    (few : RunAllMeets step FewChildren state actions)
    : Consistent (runAll step state actions)
      ∧ (runAll step state actions).outstanding < 2 ^ 30 :=
  runAll_invariant_of_meets
    (fun state => Consistent state ∧ state.outstanding < 2 ^ 30) FewChildren
    (fun _ action good fewer => ⟨good.1.step good.2 action, fewer⟩) ⟨consistent, fits⟩ few

/-- Whole-versus-children exclusion over every interleaving, as long as fewer than `2 ^ 30`
child claims are outstanding at any moment.
-/
theorem afterActions_exclusive (actions more : List OwnershipAction)
    (few : RunAllMeets step FewChildren {} (actions ++ more))
    : Exclusive (afterActions actions) (afterActions (actions ++ more)) := by
  obtain ⟨first, second⟩ := runAllMeets_append.mp few
  obtain ⟨consistent, fits⟩ := fewChildren_consistent consistent_initial (by decide) first
  change Consistent (afterActions actions) at consistent
  change (afterActions actions).outstanding < 2 ^ 30 at fits
  have later (holds : Ownership → Prop) (base : holds (afterActions actions))
      (kept : ∀ state action, Consistent state → holds state → holds (state.step action))
      : holds (afterActions (actions ++ more)) := by
    rw [afterActions, runAll_append]
    have run := runAll_invariant_of_meets
      (fun state => (Consistent state ∧ state.outstanding < 2 ^ 30) ∧ holds state) FewChildren
      (fun state action good fewer =>
        ⟨⟨good.1.1.step good.1.2 action, fewer⟩, kept state action good.1.1 good.2⟩)
      ⟨⟨consistent, fits⟩, base⟩ second
    exact run.2
  constructor
  case alone =>
    intro call member active claim stored
    have held : call.holdsWhole = true := by
      rcases active with running | final
      · rw [Commit.holdsWhole, running]; rfl
      · exact holdsWhole_of_final final
    obtain ⟨childless, unconsumed⟩ :=
      consistent.alone (List.any_eq_true.mpr ⟨call, member, held⟩)
    exact ⟨by simpa using List.countP_eq_zero.mp childless claim stored,
      by simpa using List.any_eq_false.mp unconsumed claim stored⟩
  case refused =>
    intro consumed
    exact later (AfterConsumed (afterActions actions))
      ⟨List.any_eq_true.mpr consumed, Nat.le_refl _,
        fun index call past stored =>
          absurd (List.getElem?_eq_some_iff.mp stored).1 (Nat.not_lt.mpr past)⟩
      (fun _ action good since => since.step good action)
  case closed =>
    intro final
    exact later (AfterFinal (afterActions actions))
      ⟨final, fun _ claim stored granted => ⟨claim, stored, granted⟩,
        fun _ call stored invoked => ⟨call, stored, invoked⟩⟩
      (fun _ action good since => since.step good action)
  case recovered =>
    intro commit call found rejected
    obtain ⟨object, apply, phase⟩ := call
    obtain rfl : phase = .rejected := rejected
    have zero : ((afterActions actions).recover commit).authority = 0 := by
      rw [Ownership.recover, found]
    have after := consistent.recover commit
    have same
        : ((afterActions actions).recover commit).outstanding
          = (afterActions actions).outstanding := by
      rw [Ownership.recover, found]
      rfl
    exact ⟨zero, after.free_of_zero (same ▸ fits) zero⟩
  case released =>
    intro childless unconsumed free
    rw [consistent.word, childless, unconsumed, free]
    rfl

/-- A consumed child refuses the commit that follows it. -/
theorem afterActions_exclusive_sample
    : Exclusive
        (afterActions [.claimChild, .advanceClaim 0, .settle 0 true, .countOff 0])
        (afterActions
          ([.claimChild, .advanceClaim 0, .settle 0 true, .countOff 0] ++ [.commit 0 0])) :=
  afterActions_exclusive _ _ (by decide)

/-- Grant a number of child claims, one after the other. -/
def claimChildren (count : ℕ) : List OwnershipAction :=
  (List.range count).flatMap fun claim => [.claimChild, .advanceClaim claim]

/-- Granted claims only move the word, modulo its width. -/
theorem afterActions_claimChildren (count : ℕ)
    : afterActions (claimChildren count)
      = {
          authority := branchWord count false false
          claims := List.replicate count .pending
        } := by
  induction count with
  | zero => rfl
  | succ count ih =>
      have last : claimChildren (count + 1)
          = claimChildren count ++ [.claimChild, .advanceClaim count] := by
        simp [claimChildren, List.range_succ]
      rw [last, afterActions, runAll_append]
      rw [afterActions] at ih
      rw [ih]
      have loaded : afterLoad (branchWord count false false)
          = .loaded (branchWord count false false) := by
        simp [afterLoad]
      simp only [runAll, List.foldl_cons, List.foldl_nil, step, Ownership.claimChild, loaded]
      unfold Ownership.advanceClaim
      rw [getElem?_add.mpr (.inr ⟨by simp, rfl⟩)]
      dsimp only
      rw [if_pos rfl, branchWord_add_child]
      simp [setClaim, List.replicate_succ']

/-- Children that wrap the word to zero do not keep a commit from running `apply`. -/
theorem not_exclusive_of_wrap {count : ℕ} (wraps : branchWord count false false = 0)
    (children : 0 < count)
    : ¬ Exclusive (afterActions (claimChildren count ++ [.commit 0 0, .invoke 0]))
        (afterActions (claimChildren count ++ [.commit 0 0, .invoke 0])) := by
  intro exclusive
  have reached
      : afterActions (claimChildren count ++ [.commit 0 0, .invoke 0])
        = ((afterActions (claimChildren count)).commit 0 0).invoke 0 := by
    rw [afterActions, runAll_append]
    rfl
  rw [reached, afterActions_claimChildren, wraps] at exclusive
  have quiet := exclusive.alone ⟨0, 0, .running⟩
    (by simp [Ownership.commit, commitFresh, claimWhole, addCommit, Ownership.invoke, setCommit])
    (.inl rfl) .pending
    (by simp [Ownership.commit, commitFresh, claimWhole, addCommit, Ownership.invoke, setCommit,
      Nat.ne_of_gt children])
  exact absurd quiet.1 (by decide)

/-- With `2 ^ 30` children outstanding the word is zero again, and a commit runs `apply`. -/
theorem overflow_runs_apply
    : ∃ actions, ¬ Exclusive (afterActions actions) (afterActions (actions ++ [])) :=
  ⟨claimChildren (2 ^ 30) ++ [.commit 0 0, .invoke 0], by
    rw [List.append_nil]
    exact not_exclusive_of_wrap (by decide) (by decide)⟩

end Exclusion

end Ownership

end SpeculativeAction.ProcessHandoff
