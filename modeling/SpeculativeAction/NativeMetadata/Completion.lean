import SpeculativeAction.NativeMetadata.Model

/-! Completing a line again with more records of its call gives the line that completing it once
gives, so it does not matter how often a line was completed on the way.
-/

namespace SpeculativeAction.NativeMetadata

open SpeculativeAction.Library

-- Records that may fail

section Results

variable {ε α β : Type*}

theorem bind_eq_ok {first : Except ε α} {next : α → Except ε β} {value : β}
    : first.bind next = .ok value ↔ ∃ middle, first = .ok middle ∧ next middle = .ok value := by
  cases first with
  | error problem => simp [Except.bind]
  | ok middle => simp [Except.bind]

end Results

-- A call with fewer records

section Earlier

variable {host : Host} {privateUpper : JsString} {earlier call later : Call}
  {record : NativeRecord}

/-- The call as it was before some of its records. -/
structure Call.Before (earlier later : Call) : Prop where
  line : earlier.line = later.line
  number : earlier.number = later.number
  canceled : earlier.canceled = true → later.canceled = true
  returned : ∀ body, earlier.returned = some body → later.returned = some body

theorem Call.Before.refl (call : Call) : call.Before call :=
  ⟨rfl, rfl, id, fun _ same => same⟩

theorem Call.Before.trans (first : earlier.Before call) (second : call.Before later)
    : earlier.Before later :=
  ⟨first.line.trans second.line, first.number.trans second.number,
    second.canceled ∘ first.canceled, fun body same => second.returned body (first.returned body same)⟩

/-- What a record leaves as it was, and what it adds. -/
structure Call.Extends (call later : Call) (record : NativeRecord) : Prop where
  before : call.Before later
  observation : later.observation = call.observation
  returned : later.returned.isSome = true
    ↔ call.returned.isSome = true ∨ record.kind = 6 ∧ record.error = 0
  requested : later.requested = true
    ↔ call.requested = true ∨ record.kind = 0 ∧ record.error = 0
  response : later.response.isSome = true
    ↔ call.response.isSome = true ∨ record.kind = 4 ∧ record.error = 0

theorem observePath_extends (path : record.kind = 1 ∨ record.kind = 7) (value : JsString)
    : call.Extends (call.observePath record value) record := by
  have kinds : record.kind ≠ 6 ∧ record.kind ≠ 0 ∧ record.kind ≠ 4 := by omega
  unfold Call.observePath
  dsimp only
  split_ifs <;>
    exact ⟨⟨rfl, rfl, id, fun _ same => same⟩, rfl, by simp [kinds], by simp [kinds],
      by simp [kinds]⟩

theorem Call.observe_extends (observed : call.observe privateUpper record = .ok later)
    : call.Extends later record := by
  unfold Call.observe at observed
  dsimp only at observed
  by_cases failed : record.error ≠ 0
  · rw [if_pos failed] at observed
    cases observed
    exact ⟨⟨rfl, rfl, id, fun _ same => same⟩, rfl, by simp [failed], by simp [failed],
      by simp [failed]⟩
  rw [if_neg failed] at observed
  rw [not_not] at failed
  split at observed
  · rename_i request
    split_ifs at observed
    cases observed
    exact ⟨⟨rfl, rfl, id, fun _ same => same⟩, rfl, by simp [request], by simp [request, failed],
      by simp [request]⟩
  · rename_i response
    split_ifs at observed
    cases observed
    exact ⟨⟨rfl, rfl, id, fun _ same => same⟩, rfl, by simp [response], by simp [response],
      by simp [response, failed]⟩
  · rename_i rejected
    cases observed
    exact ⟨⟨rfl, rfl, id, fun _ same => same⟩, rfl, by simp [rejected], by simp [rejected],
      by simp [rejected]⟩
  · rename_i cancel
    cases observed
    exact ⟨⟨rfl, rfl, fun _ => rfl, fun _ same => same⟩, rfl, by simp [cancel], by simp [cancel],
      by simp [cancel]⟩
  · rename_i return_
    split_ifs at observed with refused
    cases observed
    have open_ : call.returned = none :=
      Option.not_isSome_iff_eq_none.mp fun some_ => refused (.inl some_)
    exact ⟨⟨rfl, rfl, id, by simp [open_]⟩, rfl, by simp [return_, failed], by simp [return_],
      by simp [return_]⟩
  · rename_i path
    obtain ⟨value, -, same⟩ := bind_eq_ok.mp observed
    cases same
    exact observePath_extends (.inl path) value
  · rename_i path
    obtain ⟨value, -, same⟩ := bind_eq_ok.mp observed
    cases same
    exact observePath_extends (.inr path) value
  · cases observed

theorem observePath_kept (call : Call) (record : NativeRecord) (value : JsString)
    (kept : Option StatObservation)
    : Call.observePath { call with observation := kept } record value
      = { call.observePath record value with observation := kept } := by
  unfold Call.observePath
  dsimp only
  split_ifs <;> rfl

/-- A kept observation plays no part in what a record does. -/
theorem Call.observe_kept (kept : Option StatObservation)
    (observed : call.observe privateUpper record = .ok later)
    : Call.observe privateUpper { call with observation := kept } record
      = .ok { later with observation := kept } := by
  unfold Call.observe at observed ⊢
  dsimp only at observed ⊢
  by_cases failed : record.error ≠ 0
  · rw [if_pos failed] at observed ⊢
    cases observed
    rfl
  rw [if_neg failed] at observed ⊢
  split at observed
  · split_ifs at observed with refused
    cases observed
    exact if_neg refused
  · split_ifs at observed with refused
    cases observed
    exact if_neg refused
  · cases observed
    rfl
  · cases observed
    rfl
  · split_ifs at observed with refused
    cases observed
    exact if_neg refused
  · obtain ⟨value, read, same⟩ := bind_eq_ok.mp observed
    cases same
    exact bind_eq_ok.mpr ⟨value, read, congrArg Except.ok (observePath_kept call record value kept)⟩
  · obtain ⟨value, read, same⟩ := bind_eq_ok.mp observed
    cases same
    exact bind_eq_ok.mpr ⟨value, read, congrArg Except.ok (observePath_kept call record value kept)⟩
  · cases observed

end Earlier

-- Completing again

section Again

variable {host : Host} {earlier call later : Call} {kept : Option StatObservation}

/-- The kept observation is the one that would be made. -/
structure Call.Kept (host : Host) (call : Call) (kept : Option StatObservation) : Prop where
  made : ∀ observation ∈ kept,
    call.returned.isSome = true
      ∧ observation = nativeStatObservation host call.data (call.number == 332)

/-- Nothing was kept of a call yet. -/
theorem Call.kept_none (host : Host) (call : Call) : call.Kept host none := by
  refine ⟨fun observation member => ?_⟩
  cases member

theorem Call.Kept.extend (keeps : call.Kept host kept) (before : call.Before later)
    : later.Kept host kept := by
  refine ⟨fun observation member => ?_⟩
  obtain ⟨returned, same⟩ := keeps.made observation member
  obtain ⟨body, isBody⟩ := Option.isSome_iff_exists.mp returned
  have still := before.returned body isBody
  refine ⟨by rw [still]; rfl, ?_⟩
  rw [same, Call.data, Call.data, isBody, still, before.number]

theorem Call.vanished_of_before (before : earlier.Before later) (vanished : earlier.vanished = true)
    : later.vanished = true := by
  rw [Call.vanished, Bool.or_eq_true] at vanished ⊢
  refine vanished.imp before.canceled fun restarted => ?_
  cases returned : earlier.returned with
  | none =>
      rw [Call.result, returned] at restarted
      exact absurd restarted Bool.false_ne_true
  | some body =>
      rw [Call.result, returned] at restarted
      rw [Call.result, before.returned body returned]
      exact restarted

/-- The line that a call is completed to, with the text of its result. -/
def Call.finished (host : Host) (call : Call) (line : NativeLine) (result : JsString)
    : NativeLine :=
  let name := if call.vanished then [] else line.name
  let failure := if name = [] then none else call.failure
  { line with
    order := call.ended.getD line.native.entered
    name
    result
    failure
    args := call.args line.native.descriptor
    native := { line.native with
      paths := call.paths
      observation := call.observed host failure
      nullDevice := call.nullDevice } }

theorem Call.finish_eq_ok_iff {line finished : NativeLine}
    : call.finish host line = .ok finished
      ↔ ∃ result, resultText host call.result = .ok result
        ∧ call.finished host line result = finished := by
  refine bind_eq_ok.trans ⟨?_, ?_⟩
  · rintro ⟨result, text, same⟩
    exact ⟨result, text, Except.ok.inj same⟩
  · rintro ⟨result, text, same⟩
    exact ⟨result, text, congrArg Except.ok same⟩

/-- Completing a line again, with more records, is completing it once. -/
theorem Call.finished_again (before : earlier.Before later) (line : NativeLine)
    (result again : JsString)
    : later.finished host (earlier.finished host line result) again
      = later.finished host line again := by
  have name : (if later.vanished then [] else if earlier.vanished then [] else line.name)
      = if later.vanished then [] else line.name := by
    by_cases vanished : earlier.vanished = true
    · rw [if_pos (Call.vanished_of_before before vanished),
        if_pos (Call.vanished_of_before before vanished)]
    · rw [if_neg vanished]
  simp only [Call.finished, name]

theorem Call.finish_again {line middle : NativeLine} (before : earlier.Before later)
    (first : earlier.finish host line = .ok middle)
    : later.finish host middle = later.finish host line := by
  obtain ⟨result, -, rfl⟩ := Call.finish_eq_ok_iff.mp first
  unfold Call.finish
  cases resultText host later.result with
  | error problem => rfl
  | ok again => exact congrArg Except.ok (Call.finished_again before line result again)

/-- A kept observation is the one that is put into the line. -/
theorem Call.observed_kept (keeps : call.Kept host kept) (fresh : call.observation = none)
    (failure : Option JsString)
    : Call.observed host { call with observation := kept } failure
      = call.observed host failure := by
  unfold Call.observed
  cases kept with
  | none => rw [fresh]; rfl
  | some observation =>
      rw [fresh]
      dsimp only [Option.getD_some, Option.getD_none]
      rw [(keeps.made observation rfl).2]
      rfl

theorem Call.finish_kept (keeps : call.Kept host kept) (fresh : call.observation = none)
    (line : NativeLine)
    : Call.finish host { call with observation := kept } line = call.finish host line := by
  have observed := Call.observed_kept keeps fresh
  unfold Call.finish
  have text : Call.result { call with observation := kept } = call.result := rfl
  rw [text]
  cases resultText host call.result with
  | error problem => rfl
  | ok result =>
      refine congrArg Except.ok ?_
      simp only [observed]
      rfl

theorem Call.observed_eq_some {failure : Option JsString} {observation : StatObservation}
    (fresh : call.observation = none) (observed : call.observed host failure = some observation)
    : call.returned.isSome = true
      ∧ observation = nativeStatObservation host call.data (call.number == 332) := by
  unfold Call.observed at observed
  split_ifs at observed with zero
  rw [fresh] at observed
  cases observed
  obtain ⟨body, returned, -⟩ := Option.map_eq_some_iff.mp zero.2.2
  exact ⟨by rw [returned]; rfl, rfl⟩

/-- The observation in a completed line is kept from then on. -/
theorem Call.kept_of_finish {line finished : NativeLine} (keeps : call.Kept host kept)
    (fresh : call.observation = none) (finishes : call.finish host line = .ok finished)
    : call.Kept host (finished.native.observation.or kept) := by
  obtain ⟨result, -, rfl⟩ := Call.finish_eq_ok_iff.mp finishes
  refine ⟨fun observation member => ?_⟩
  cases observed : call.observed host (if (if call.vanished then [] else line.name) = []
      then none else call.failure) with
  | none =>
      rw [Call.finished] at member
      dsimp only at member
      rw [observed] at member
      exact keeps.made observation member
  | some made =>
      rw [Call.finished] at member
      dsimp only at member
      rw [observed] at member
      cases member
      exact Call.observed_eq_some fresh observed

/-- Whether a line can be completed does not depend on the line. -/
def Call.Finishable (host : Host) (call : Call) : Prop :=
  ∃ result, resultText host call.result = .ok result

theorem Call.Finishable.finish (finishable : call.Finishable host) (line : NativeLine)
    : ∃ finished, call.finish host line = .ok finished := by
  obtain ⟨result, text⟩ := finishable
  exact ⟨_, Call.finish_eq_ok_iff.mpr ⟨result, text, rfl⟩⟩

theorem Call.Finishable.anti (finishable : later.Finishable host) (before : earlier.Before later)
    : earlier.Finishable host := by
  cases returned : earlier.returned with
  | none => exact ⟨[], by rw [Call.result, returned]; rfl⟩
  | some body =>
      obtain ⟨result, text⟩ := finishable
      refine ⟨result, ?_⟩
      rw [Call.result, before.returned body returned] at text
      rw [Call.result, returned]
      exact text

end Again

end SpeculativeAction.NativeMetadata
