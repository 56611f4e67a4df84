import Mathlib.Algebra.Order.Group.Multiset
import SpeculativeAction.ArtifactViews.Model
import SpeculativeAction.Library.TransitionSystem
import SpeculativeAction.Library.WeightedSum

/-! Shared leases are counted: a value's owners are the views that hold it and have not been
disposed, its lease is disposed when the last of them is, and every view keeps its budget.
-/

namespace SpeculativeAction.ArtifactViews

open SpeculativeAction.Library

variable {Digest : Type} [DecidableEq Digest] {state : State Digest}
  {next : State Digest} {value : ℕ} {reference : ArtifactReference Digest}
  {task : AddTask Digest} {aborted : Bool}

-- The owners of a value

/-- The number of undisposed views that hold a value. -/
def ownersOf (state : State Digest) (value : ℕ) : ℕ :=
  state.views.countP fun view => view.owns && decide (value ∈ view.values.values)

/-- How often the lease of a value was disposed; an image has none. -/
def leaseDisposals (cell : SharedCell (Value Digest)) : ℕ :=
  if cell.payload.object then cell.released else 0

/-- The accounting of one state. -/
structure Exact (state : State Digest) : Prop where
  owners
    : ∀ (value : ℕ) (cell : SharedCell (Value Digest)),
        state.values[value]? = some cell → cell.references = (ownersOf state value : ℤ)
  disposals
    : ∀ (value : ℕ) (cell : SharedCell (Value Digest)),
        state.values[value]? = some cell
        → leaseDisposals cell
          = if cell.payload.object ∧ ownersOf state value = 0 then 1 else 0
  chunks : ∀ view ∈ state.views, artifacts view ≤ view.limits.maxOpenChunks
  stored : ∀ view ∈ state.views, bytes state view ≤ view.limits.maxStoredBytes

/-- The values a view owns. -/
def ArtifactReadView.held (view : ArtifactReadView Digest) : Multiset ℕ :=
  if view.owns then (view.values.values : Multiset ℕ) else 0

def held (state : State Digest) : Multiset ℕ :=
  (state.views.map ArtifactReadView.held).sum

/-- One view over a heap: values lie under their own digest within the budget, a loading
add still fits, and a disposed view has no operation left.
-/
structure ViewSound (state : State Digest) (view : ArtifactReadView Digest) : Prop where
  keyed
    : ∀ (digest : Digest) (value : ℕ),
        view.values.get? digest = some value
        → ∃ reference, referenceOf state value = some reference ∧ reference.digest = digest
  chunks : artifacts view ≤ view.limits.maxOpenChunks
  stored : bytes state view ≤ view.limits.maxStoredBytes
  fits
    : ∀ task : AddTask Digest,
        view.loading = some task
        → view.values.get? task.reference.digest = none
          ∧ artifacts view < view.limits.maxOpenChunks
          ∧ bytes state view + task.reference.size ≤ view.limits.maxStoredBytes
  settled : view.owns = false → view.lane = [] ∧ view.loading = none

/-- The invariant of a run. -/
structure Sound (state : State Digest) : Prop where
  counted : SharedHeap.Counted state.values (held state)
  views : ∀ view ∈ state.views, ViewSound state view

/-- A value lies under one digest only, so a view holds it once. -/
theorem ViewSound.values_nodup (sound : ViewSound state view)
    : view.values.values.Nodup := by
  refine OrderedMap.values_nodup fun left right value leftStored rightStored => ?_
  obtain ⟨reference, found, rfl⟩ := sound.keyed left value leftStored
  obtain ⟨other, again, rfl⟩ := sound.keyed right value rightStored
  rw [Option.some.inj (found.symm.trans again)]

theorem ViewSound.count_held (sound : ViewSound state view) (value : ℕ)
    : view.held.count value
      = if view.owns && decide (value ∈ view.values.values) then 1 else 0 := by
  unfold ArtifactReadView.held
  cases view.owns with
  | false => simp
  | true =>
      by_cases member : value ∈ view.values.values
      · simp [member, List.count_eq_one_of_mem sound.values_nodup member]
      · simp [member]

theorem count_held {views : List (ArtifactReadView Digest)}
    (sound : ∀ view ∈ views, ViewSound state view) (value : ℕ)
    : (views.map ArtifactReadView.held).sum.count value
      = views.countP fun view => view.owns && decide (value ∈ view.values.values) := by
  induction views with
  | nil => simp
  | cons view rest ih =>
      have tail := ih fun other member => sound other (List.mem_cons_of_mem _ member)
      have head := (sound view List.mem_cons_self).count_held value
      rw [List.map_cons, List.sum_cons, Multiset.count_add, tail, head, List.countP_cons,
        add_comm]

/-- The invariant says what is claimed of every state. -/
theorem Sound.exact (sound : Sound state) : Exact state where
  owners value cell found := by
    rw [sound.counted.references value cell found, held, count_held sound.views]
    rfl
  disposals value cell found := by
    have released := sound.counted.released value cell found
    rw [held, count_held sound.views] at released
    unfold leaseDisposals
    rw [released]
    cases cell.payload.object <;> simp [ownersOf]
  chunks view member := (sound.views view member).chunks
  stored view member := (sound.views view member).stored

-- Changing the heap

/-- The values of one heap keep their payload in another. -/
def Extends (before after : List (SharedCell (Value Digest))) : Prop :=
  ∀ value < before.length,
    (after[value]?).map SharedCell.payload = (before[value]?).map SharedCell.payload

omit [DecidableEq Digest] in
theorem referenceOf_of_extends (grows : Extends state.values next.values)
    (found : referenceOf state value = some reference)
    : referenceOf next value = some reference := by
  obtain ⟨cell, present, same⟩ := Option.map_eq_some_iff.mp found
  have payload := grows value (List.getElem?_eq_some_iff.mp present).1
  rw [present, Option.map_some] at payload
  obtain ⟨after, presentAfter, equal⟩ := Option.map_eq_some_iff.mp payload
  rw [referenceOf, presentAfter, Option.map_some, equal, same]

/-- A view reads the same bytes in a heap that extends its own. -/
theorem ViewSound.bytes_extends (sound : ViewSound state view)
    (grows : Extends state.values next.values)
    : bytes next view = bytes state view := by
  refine congrArg List.sum (List.map_congr_left fun value member => ?_)
  obtain ⟨digest, stored⟩ := OrderedMap.mem_values_iff.mp member
  obtain ⟨reference, found, -⟩ := sound.keyed digest value stored
  rw [sizeOf, sizeOf, found, referenceOf_of_extends grows found]

theorem ViewSound.extends (sound : ViewSound state view) (grows : Extends state.values next.values)
    : ViewSound next view where
  keyed digest value stored := by
    obtain ⟨reference, found, same⟩ := sound.keyed digest value stored
    exact ⟨reference, referenceOf_of_extends grows found, same⟩
  chunks := sound.chunks
  stored := by
    rw [sound.bytes_extends grows]
    exact sound.stored
  fits := by
    rw [sound.bytes_extends grows]
    exact sound.fits
  settled := sound.settled

/-- A sound view stays sound while its values stay and no add starts loading. -/
theorem ViewSound.retarget {next : ArtifactReadView Digest} (sound : ViewSound state view)
    (values : next.values = view.values) (limits : next.limits = view.limits)
    (loading : next.loading = view.loading ∨ next.loading = none)
    (settled : next.owns = false → next.lane = [] ∧ next.loading = none)
    : ViewSound state next where
  keyed := by
    rw [values]
    exact sound.keyed
  chunks := by
    rw [artifacts, values, limits]
    exact sound.chunks
  stored := by
    rw [bytes, values, limits]
    exact sound.stored
  fits task starts := by
    rcases loading with same | idle
    · rw [artifacts, bytes, values, limits]
      exact sound.fits task (same ▸ starts)
    · rw [idle] at starts
      cases starts
  settled := settled

/-- A value that fits and is filed under its digest keeps a view sound. -/
theorem ViewSound.file (sound : ViewSound state view)
    (filed : referenceOf state value = some reference)
    (fresh : view.values.get? reference.digest = none)
    (chunks : artifacts view < view.limits.maxOpenChunks)
    (stored : bytes state view + reference.size ≤ view.limits.maxStoredBytes)
    (owns : view.owns = true) (lane : List (AddTask Digest))
    : ViewSound state
        { view with
          lane, loading := none, values := view.values.set reference.digest value } where
  keyed digest other found := by
    rw [OrderedMap.get?_set] at found
    split at found
    · next same =>
        obtain rfl := Option.some.inj found
        exact ⟨reference, filed, same.symm⟩
    · exact sound.keyed digest other found
  chunks := by
    rw [artifacts, OrderedMap.values_set_of_fresh fresh, List.length_append]
    exact chunks
  stored := by
    have total := OrderedMap.sum_set (sizeOf state) view.values reference.digest value
    have size : sizeOf state value = reference.size := by
      rw [sizeOf, filed]
      rfl
    rw [fresh, size] at total
    simp only [Option.map_none, Option.getD_none, add_zero] at total
    simp only [bytes, total] at stored ⊢
    exact stored
  fits task starts := by cases starts
  settled lost := by
    have same : view.owns = false := lost
    rw [owns] at same
    cases same

-- Changing one view

variable {id : ℕ} {view : ArtifactReadView Digest}

/-- Replacing a view keeps the invariant when the new one is sound over a heap that extends
the old and counts what the new one holds instead.
-/
theorem Sound.replace (sound : Sound state) (found : state.views[id]? = some view)
    {next : ArtifactReadView Digest} (values : List (SharedCell (Value Digest)))
    (grows : Extends state.values values) (viewSound : ViewSound { state with values } next)
    (counted
      : ∀ others : Multiset ℕ,
          held state = others + view.held
          → SharedHeap.Counted values (others + next.held))
    : Sound (setView { state with values } id next) where
  counted := by
    obtain ⟨others, before, after⟩ := sum_map_split ArtifactReadView.held found
    rw [held, setView, after]
    exact counted others before
  views other member := by
    have moved : ViewSound { state with values } other := by
      rcases List.mem_or_eq_of_mem_set member with old | rfl
      · exact (sound.views other old).extends grows
      · exact viewSound
    exact ⟨moved.keyed, moved.chunks, moved.stored, moved.fits, moved.settled⟩

omit [DecidableEq Digest] in
theorem extends_refl (values : List (SharedCell (Value Digest))) : Extends values values :=
  fun _ _ => rfl

/-- Replacing a view by one that owns the same values. -/
theorem Sound.keep (sound : Sound state) (found : state.views[id]? = some view)
    {next : ArtifactReadView Digest} (viewSound : ViewSound state next)
    (same : next.held = view.held)
    : Sound (setView state id next) := by
  refine sound.replace found state.values (extends_refl _) viewSound ?_
  intro others split
  rw [same, ← split]
  exact sound.counted

/-- Restores and loans own nothing. -/
theorem Sound.settleClient (sound : Sound state) (client : Option ℕ) (added : Bool)
    : Sound (settleClient state client added) := by
  cases client with
  | none => exact sound
  | some restore =>
      refine ⟨sound.counted, fun view member => ?_⟩
      have before := sound.views view member
      exact ⟨before.keyed, before.chunks, before.stored, before.fits, before.settled⟩

omit [DecidableEq Digest] in
theorem owns_of_unsealed (unsealed : view.isSealed = false) : view.owns = true := by
  have active : view.lifetime = .active := by simpa [ArtifactReadView.isSealed] using unsealed
  simp [ArtifactReadView.owns, active]

theorem Sound.submitAdd (sound : Sound state) (found : state.views[id]? = some view)
    (task : AddTask Digest)
    : Sound (submitAdd state id view task) := by
  unfold ArtifactViews.submitAdd
  split
  · exact sound.settleClient _ _
  · next open_ =>
    refine sound.keep found ?_ rfl
    have owns := owns_of_unsealed (Bool.not_eq_true _ ▸ open_)
    refine (sound.views view (List.mem_of_getElem? found)).retarget rfl rfl (.inl rfl) ?_
    intro lost
    exact absurd (owns.symm.trans lost) (by simp)

theorem Sound.withRestores (sound : Sound state) (restores : List (Restore Digest))
    : Sound { state with restores } := by
  refine ⟨sound.counted, fun view member => ?_⟩
  have before := sound.views view member
  exact ⟨before.keyed, before.chunks, before.stored, before.fits, before.settled⟩

theorem Sound.withLoans (sound : Sound state) (loans : List Loan)
    : Sound { state with loans } := by
  refine ⟨sound.counted, fun view member => ?_⟩
  have before := sound.views view member
  exact ⟨before.keyed, before.chunks, before.stored, before.fits, before.settled⟩

theorem Sound.advanceRestore (sound : Sound state) {restore : ℕ} {record : Restore Digest}
    (found : state.views[record.view]? = some view) (aborted : Bool)
    : Sound (advanceRestore state restore record view aborted) := by
  unfold ArtifactViews.advanceRestore
  split
  · exact sound.withRestores _
  · dsimp only
    split
    · exact sound.withRestores _
    · apply Sound.submitAdd
      · exact sound.withRestores _
      · exact found

/-- What a lookup finds in an open view is owned by that view. -/
theorem mem_held_of_lookup {source : ℕ} (found : state.views[source]? = some view)
    (unsealed : view.isSealed = false) (finds : lookup state view reference = some value)
    : value ∈ held state
      ∧ (referenceOf state value).map ArtifactReference.size = some reference.size
      ∧ view.values.get? reference.digest = some value := by
  have stored := Option.eq_some_of_filter_eq_some finds
  have size : (referenceOf state value).map ArtifactReference.size = some reference.size := by
    have checked := (Option.filter_eq_some_iff.mp finds).2
    simpa using checked
  refine ⟨?_, size, stored⟩
  obtain ⟨others, before, -⟩ := sum_map_split ArtifactReadView.held found
  have member : value ∈ view.held := by
    rw [ArtifactReadView.held, owns_of_unsealed unsealed]
    exact OrderedMap.mem_values_iff.mpr ⟨reference.digest, stored⟩
  rw [held, before]
  exact Multiset.mem_add.mpr (.inr member)

/-- What an add that starts may rely on, outcome by outcome. -/
structure StartChecks (state : State Digest) (view : ArtifactReadView Digest)
    (task : AddTask Digest)
    : Prop where
  fresh : view.values.get? task.reference.digest = none
  chunks : artifacts view < view.limits.maxOpenChunks
  stored : bytes state view + task.reference.size ≤ view.limits.maxStoredBytes

theorem startAdd_checks
    (proceeds
      : startAdd state view task aborted = .loads
        ∨ ∃ value, startAdd state view task aborted = .shared value)
    : StartChecks state view task ∧ suppliedSealed state task = false := by
  unfold startAdd at proceeds
  split at proceeds
  · rcases proceeds with loads | ⟨value, shares⟩
    · cases loads
    · cases shares
  · next checked =>
    split at proceeds
    · split at proceeds
      all_goals
        rcases proceeds with loads | ⟨value, shares⟩
        · cases loads
        · cases shares
    · next absent =>
      split at proceeds
      · rcases proceeds with loads | ⟨value, shares⟩
        · cases loads
        · cases shares
      · next fits =>
        refine ⟨⟨?_, by omega, by omega⟩, by simp_all⟩
        refine OrderedMap.get?_eq_none_iff.mpr ?_
        simpa using absent

/-- An add shares only a value its source view holds under the same reference. -/
theorem sharedValue_of_shared (shares : startAdd state view task aborted = .shared value)
    : sharedValue state task = some value := by
  unfold startAdd at shares
  split at shares
  · cases shares
  · split at shares
    · split at shares <;> cases shares
    · split at shares
      · cases shares
      · split at shares
        · next other same =>
            rw [same, Started.shared.inj shares]
        · split at shares <;> cases shares

/-- What is filed under a digest, and of the same size, is the reference itself. -/
theorem ViewSound.referenceOf_of_size (sound : ViewSound state view)
    (stored : view.values.get? reference.digest = some value)
    (size : (referenceOf state value).map ArtifactReference.size = some reference.size)
    : referenceOf state value = some reference := by
  obtain ⟨other, found, same⟩ := sound.keyed reference.digest value stored
  rw [found, Option.map_some, Option.some.injEq] at size
  rw [found]
  cases other
  cases reference
  simp_all

/-- Filing a value under a fresh digest adds one holding. -/
theorem ArtifactReadView.held_file (view : ArtifactReadView Digest) {digest : Digest}
    (lane : List (AddTask Digest)) (owns : view.owns = true)
    (fresh : view.values.get? digest = none)
    : ({
        view with
        lane
        loading := none
        values := view.values.set digest value
      } : ArtifactReadView Digest).held
      = value ::ₘ view.held := by
  have same
      : ({
          view with
          lane
          loading := none
          values := view.values.set digest value
        } : ArtifactReadView Digest).owns = true := owns
  rw [held, held, same, owns, if_pos rfl, if_pos rfl, OrderedMap.values_set_of_fresh fresh,
    ← Multiset.coe_add, Multiset.add_comm, ← Multiset.cons_coe, Multiset.cons_add]
  rfl

/-- An add that shares a value becomes one more owner of it. -/
theorem Sound.shareValue (sound : Sound state) (found : state.views[id]? = some view)
    (owns : view.owns = true) (shares : startAdd state view task aborted = .shared value)
    (lane : List (AddTask Digest))
    : Sound
        (setView { state with values := SharedHeap.borrow state.values value } id
          {
            view with
            lane
            loading := none
            values := view.values.set task.reference.digest value
          }) := by
  obtain ⟨checks, unsealed⟩ := startAdd_checks (.inr ⟨value, shares⟩)
  have source := sharedValue_of_shared shares
  unfold sharedValue at source
  unfold suppliedSealed at unsealed
  cases supplied : task.supplied with
  | nothing => simp [supplied] at source
  | transfer => simp [supplied] at source
  | view source_ =>
      simp only [supplied] at source unsealed
      obtain ⟨other, present, finds⟩ := Option.bind_eq_some_iff.mp source
      rw [present, Option.any_some] at unsealed
      obtain ⟨live, size, filed⟩ := mem_held_of_lookup present unsealed finds
      have grows : Extends state.values (SharedHeap.borrow state.values value) :=
        fun one _ => SharedHeap.payload_borrow state.values value one
      have reference := (sound.views other (List.mem_of_getElem? present)).referenceOf_of_size
        filed size
      have viewSound := (sound.views view (List.mem_of_getElem? found)).file reference
        checks.fresh checks.chunks checks.stored owns lane
      refine sound.replace found _ grows (viewSound.extends grows) fun others split => ?_
      rw [split] at live
      have owned := sound.counted
      rw [split] at owned
      have shared := owned.borrow live
      rwa [← Multiset.add_cons, ← view.held_file lane owns checks.fresh] at shared

theorem owns_of_lane (sound : ViewSound state view) (busy : view.lane ≠ []) : view.owns = true := by
  cases owns : view.owns with
  | false => exact absurd (sound.settled owns).1 busy
  | true => rfl

theorem owns_of_loading (sound : ViewSound state view) (busy : view.loading = some task)
    : view.owns = true := by
  cases owns : view.owns with
  | false => rw [(sound.settled owns).2] at busy; cases busy
  | true => rfl

/-- Starting the lane's next add keeps the invariant, outcome by outcome. -/
theorem Sound.startNext (sound : Sound state) (found : state.views[id]? = some view)
    (aborted : Bool)
    : Sound (startNext state id view aborted) := by
  have before := sound.views view (List.mem_of_getElem? found)
  unfold ArtifactViews.startNext
  split
  · next task rest idle busy =>
    have owns := owns_of_lane before (by simp [busy])
    have popped : Sound (setView state id { view with lane := rest }) := by
      refine sound.keep found (before.retarget rfl rfl (.inl rfl) fun lost => ?_) rfl
      exact absurd (owns.symm.trans lost) (by simp)
    cases started : startAdd state view task aborted with
    | threw => exact popped.settleClient _ _
    | held => exact popped.settleClient _ _
    | shared value =>
        have shared := sound.shareValue found owns started rest
        rw [← idle] at shared
        exact shared.settleClient _ _
    | loads =>
        have checks := (startAdd_checks (.inl started)).1
        refine sound.keep found ?_ rfl
        refine ⟨before.keyed, before.chunks, before.stored, ?_, ?_⟩
        · intro other same
          obtain rfl := Option.some.inj same
          exact ⟨checks.fresh, checks.chunks, checks.stored⟩
        · intro lost
          exact absurd (owns.symm.trans lost) (by simp)
  · exact sound

/-- Verified content becomes a value with one owner; any other end adds none. -/
theorem Sound.finishAdd (sound : Sound state) (found : state.views[id]? = some view)
    (loaded : Loaded)
    : Sound (finishAdd state id view loaded) := by
  have before := sound.views view (List.mem_of_getElem? found)
  unfold ArtifactViews.finishAdd
  cases busy : view.loading with
  | none => exact sound
  | some task =>
      have owns := owns_of_loading before busy
      have stopped : Sound (setView state id { view with loading := none }) := by
        refine sound.keep found (before.retarget rfl rfl (.inr rfl) fun lost => ?_) rfl
        exact absurd (owns.symm.trans lost) (by simp)
      cases loaded with
      | threw => exact stopped.settleClient _ _
      | unavailable => exact stopped.settleClient _ _
      | verified object =>
          obtain ⟨fresh, chunks, stored⟩ := before.fits task busy
          have grows
              : Extends state.values (SharedHeap.alloc state.values ⟨task.reference, object⟩) :=
            fun _ old => SharedHeap.payload_alloc _ _ old
          have moved
              : ViewSound
                  { state with values := SharedHeap.alloc state.values ⟨task.reference, object⟩ }
                  view :=
            before.extends grows
          refine Sound.settleClient (sound.replace found _ grows ?_ fun others split => ?_) _ _
          · refine moved.file ?_ fresh chunks ?_ owns view.lane
            · rw [referenceOf]
              simp [SharedHeap.alloc]
            · rw [before.bytes_extends grows]
              exact stored
          · have owned := sound.counted.alloc (⟨task.reference, object⟩ : Value Digest)
            rwa [split, ← Multiset.add_cons,
              ← view.held_file view.lane owns fresh] at owned

/-- The finalizer gives up exactly what the view owned. -/
theorem Sound.finalize (sound : Sound state) (found : state.views[id]? = some view)
    (owns : view.owns = true) (empty : view.lane = []) (idle : view.loading = none)
    : Sound (finalize state id view) := by
  have before := sound.views view (List.mem_of_getElem? found)
  have grows : Extends state.values (view.values.values.foldl SharedHeap.drop state.values) :=
    fun _ _ => SharedHeap.payload_dropAll _ _ _
  unfold ArtifactViews.finalize
  refine sound.replace found _ grows ?_ fun others split => ?_
  · exact (before.extends grows).retarget rfl rfl (.inl rfl) fun _ => ⟨empty, idle⟩
  · have owned := sound.counted
    rw [split, ArtifactReadView.held, if_pos owns] at owned
    have nothing
        : ({ view with lifetime := .disposed } : ArtifactReadView Digest).held = 0 := rfl
    rw [nothing, add_zero]
    exact owned.dropAll

theorem Sound.stepView (sound : Sound state) (found : state.views[id]? = some view)
    (event : Event Digest)
    : Sound (stepView state id view event) := by
  have before := sound.views view (List.mem_of_getElem? found)
  cases event with
  | create limits => exact sound
  | advance restore aborted => exact sound
  | release loan => exact sound
  | add _ reference supplied => exact sound.submitAdd found _
  | restore _ references source =>
      unfold ArtifactViews.stepView
      dsimp only
      split
      · split
        · exact sound.withRestores _
        · exact sound
      · exact sound
  | start _ aborted => exact sound.startNext found aborted
  | finish _ loaded => exact sound.finishAdd found loaded
  | lend _ => exact sound.withLoans _
  | dispose _ =>
      unfold ArtifactViews.stepView
      dsimp only
      split
      · exact sound
      · next open_ =>
        have owns := owns_of_unsealed (Bool.not_eq_true _ ▸ open_)
        refine sound.keep found (before.retarget rfl rfl (.inl rfl) fun lost => ?_) ?_
        · cases lost
        · rw [ArtifactReadView.held, ArtifactReadView.held, owns]
          rfl
  | finalize _ =>
      unfold ArtifactViews.stepView
      dsimp only
      split
      · next ready =>
        simp only [Bool.and_eq_true, decide_eq_true_eq, List.isEmpty_iff,
          Option.isNone_iff_eq_none] at ready
        refine sound.finalize found ?_ ready.1.2 ready.2
        simp [ArtifactReadView.owns, ready.1.1]
      · exact sound
  | clear _ =>
      unfold ArtifactViews.stepView
      dsimp only
      split
      · next disposed =>
        have lost : view.owns = false := by simp [ArtifactReadView.owns, disposed]
        obtain ⟨empty, idle⟩ := before.settled lost
        refine sound.keep found ⟨?_, ?_, ?_, ?_, fun _ => ⟨empty, idle⟩⟩ ?_
        · intro digest value stored
          cases stored
        · exact Nat.zero_le _
        · exact Nat.zero_le _
        · intro task busy
          rw [idle] at busy
          cases busy
        · rw [ArtifactReadView.held, ArtifactReadView.held, lost]
          rfl
      · exact sound

-- Runs

theorem initial_sound : Sound (initial : State Digest) where
  counted := SharedHeap.counted_nil
  views := by simp [initial]

/-- Every event keeps the invariant. -/
theorem Sound.step (sound : Sound state) (event : Event Digest) : Sound (step state event) := by
  cases event with
  | create limits =>
      unfold ArtifactViews.step
      dsimp only
      split
      · refine ⟨?_, fun view member => ?_⟩
        · have same (view : ArtifactReadView Digest) (empty : view.values = OrderedMap.empty)
              : held { state with views := state.views ++ [view] } = held state := by
            simp [held, ArtifactReadView.held, empty, OrderedMap.values, OrderedMap.empty]
          rw [same _ rfl]
          exact sound.counted
        · rcases List.mem_append.mp member with old | new
          · have before := sound.views view old
            exact ⟨before.keyed, before.chunks, before.stored, before.fits, before.settled⟩
          · rw [List.mem_singleton.mp new]
            refine ⟨?_, Nat.zero_le _, Nat.zero_le _, ?_, ?_⟩
            · intro digest value stored
              cases stored
            · intro task busy
              cases busy
            · intro lost
              exact ⟨rfl, rfl⟩
      · exact sound
  | release loan => exact sound.withLoans _
  | advance restore aborted =>
      unfold ArtifactViews.step
      dsimp only
      split
      · exact sound
      · split
        · exact sound
        · next found =>
          split
          · exact sound
          · exact sound.advanceRestore found aborted
  | add view _ _ | restore view _ _ | start view _ | finish view _ | lend view
  | dispose view | finalize view | clear view =>
      unfold ArtifactViews.step
      dsimp only
      split
      · exact sound
      · next record found => exact sound.stepView found _

/-- In every reachable state a value's owners are the undisposed views that hold it, its
lease was disposed once when there are none and not at all otherwise, and every view keeps
its descriptor and byte budgets.
-/
theorem afterEvents_leasesExact (events : List (Event Digest))
    : Exact (runAll step (initial : State Digest) events) :=
  (runAll_invariant Sound initial_sound (fun _ event sound => sound.step event) events).exact

/-- While a view is open none of its leases is disposed. -/
theorem Sound.lend_isSome (sound : Sound state) (found : state.views[id]? = some view)
    (unsealed : view.isSealed = false)
    : (lend state id view).isSome := by
  unfold lend
  dsimp only
  split
  · next refused =>
    exfalso
    rw [unsealed, Bool.false_or, List.any_eq_true] at refused
    obtain ⟨value, member, released⟩ := refused
    obtain ⟨cell, present, positive⟩ := (Option.any_eq_true _ _).mp released
    obtain ⟨others, before, -⟩ := sum_map_split ArtifactReadView.held found
    have live : value ∈ held state := by
      rw [held, before]
      refine Multiset.mem_add.mpr (.inr ?_)
      rw [ArtifactReadView.held, owns_of_unsealed unsealed]
      exact (List.mem_filter.mp member).1
    have count : (held state).count value ≠ 0 := (Multiset.count_pos.mpr live).ne'
    have none_ := sound.counted.released value cell present
    rw [if_neg count] at none_
    simp [none_] at positive
  · rfl

/-- In every reachable state an open view can lend all its objects. -/
theorem afterEvents_lends (events : List (Event Digest))
    (found
      : (runAll step (initial : State Digest) events).views[id]? = some view)
    (unsealed : view.isSealed = false)
    : (lend (runAll step initial events) id view).isSome :=
  (runAll_invariant Sound initial_sound (fun _ event sound => sound.step event)
    events).lend_isSome found unsealed

/-- A view adds an object and shares it with a second one, which is disposed of again. -/
def sharedEvents : List (Event ℕ) :=
  [.create ⟨1024, 1024, 16⟩, .create ⟨1024, 1024, 16⟩,
    .add 0 ⟨7, 3⟩ .nothing, .start 0 false, .finish 0 (.verified true),
    .add 1 ⟨7, 3⟩ (.view 0), .start 1 false, .dispose 1, .finalize 1, .clear 1]

theorem afterEvents_lends_shared
    : ∃ view,
        (runAll step initial sharedEvents).views[0]? = some view
        ∧ view.values.values = [0]
        ∧ ((runAll step initial sharedEvents).views[1]?.map ArtifactReadView.lifetime)
            = some .cleared
        ∧ (lend (runAll step initial sharedEvents) 0 view).isSome :=
  ⟨_, rfl, rfl, rfl, afterEvents_lends sharedEvents rfl rfl⟩

end SpeculativeAction.ArtifactViews
