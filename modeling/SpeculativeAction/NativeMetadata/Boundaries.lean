import SpeculativeAction.NativeMetadata.Completion

/-! Where a read ends makes no difference to the lines and the index, as long as no record of a
call comes in a later read than the one that completed it. The traces of two ways to read are
compared with the calls as they are collected without completing any.
-/

namespace SpeculativeAction.NativeMetadata

open SpeculativeAction.Library

-- What one record does

section Steps

variable {privateUpper : JsString} {trace next : NativeTrace} {changed marked : List ℕ}
  {record : NativeRecord}

/-- A record of a call, and not of a process or of the index of inputs. -/
def NativeRecord.isCall (record : NativeRecord) : Bool :=
  decide (record.kind ≠ 12 ∧ record.kind ∉ [10, 11, 138, 139])

/-- What a record does to the trace and to the calls that the read has changed. -/
inductive Observed (privateUpper : JsString) (trace : NativeTrace) (changed : List ℕ)
    (record : NativeRecord) : NativeTrace → List ℕ → Prop
  | process (line : NativeLine) (kind : record.kind = 12) (read : processLine record = .ok line)
    : Observed privateUpper trace changed record (trace.append line) changed
  | input (index : InputIndex) (notProcess : record.kind ≠ 12)
    (kind : record.kind ∈ [10, 11, 138, 139]) (read : trace.index.observe record = .ok index)
    : Observed privateUpper trace changed record { trace with index } changed
  | enter (call : Call) (line : NativeLine) (isCall : record.isCall = true)
    (kind : record.kind = 8) (unknown : trace.calls.get? record.id = none)
    (read : entry trace.lines.length record = .ok (call, line))
    : Observed privateUpper trace changed record
        ({ trace with calls := trace.calls.set record.id call }.append line)
        (mark changed record.id)
  | known (call later : Call) (isCall : record.isCall = true) (kind : record.kind ≠ 8)
    (found : trace.calls.get? record.id = some call)
    (read : call.observe privateUpper record = .ok later)
    : Observed privateUpper trace changed record
        { trace with calls := trace.calls.set record.id later } (mark changed record.id)

theorem observe_eq_ok_iff
    : NativeTrace.observe privateUpper (trace, changed) record = .ok (next, marked)
      ↔ Observed privateUpper trace changed record next marked := by
  unfold NativeTrace.observe
  dsimp only
  by_cases process : record.kind = 12
  · rw [if_pos process]
    constructor
    · intro observed
      obtain ⟨line, read, same⟩ := bind_eq_ok.mp observed
      cases same
      exact .process line process read
    · intro observed
      cases observed with
      | process line _ read => exact bind_eq_ok.mpr ⟨line, read, rfl⟩
      | input _ notProcess => exact absurd process notProcess
      | enter _ _ isCall => exact absurd process (of_decide_eq_true isCall).1
      | known _ _ isCall => exact absurd process (of_decide_eq_true isCall).1
  rw [if_neg process]
  by_cases input : record.kind ∈ [10, 11, 138, 139]
  · rw [if_pos input]
    constructor
    · intro observed
      obtain ⟨index, read, same⟩ := bind_eq_ok.mp observed
      cases same
      exact .input index process input read
    · intro observed
      cases observed with
      | process _ isProcess => exact absurd isProcess process
      | input index _ _ read => exact bind_eq_ok.mpr ⟨index, read, rfl⟩
      | enter _ _ isCall => exact absurd input (of_decide_eq_true isCall).2
      | known _ _ isCall => exact absurd input (of_decide_eq_true isCall).2
  rw [if_neg input]
  have isCall : record.isCall = true := decide_eq_true ⟨process, input⟩
  by_cases enters : record.kind = 8
  · rw [if_pos enters]
    constructor
    · intro observed
      obtain ⟨entered, read, same⟩ := bind_eq_ok.mp observed
      cases same
      unfold NativeTrace.enter at read
      split_ifs at read with present
      obtain ⟨⟨call, line⟩, isEntry, same⟩ := bind_eq_ok.mp read
      cases same
      exact .enter call line isCall enters (Option.not_isSome_iff_eq_none.mp present) isEntry
    · intro observed
      cases observed with
      | process _ isProcess => exact absurd isProcess process
      | input _ _ isInput => exact absurd isInput input
      | enter call line _ _ unknown read =>
          refine bind_eq_ok.mpr ⟨_, ?_, rfl⟩
          unfold NativeTrace.enter
          rw [unknown, if_neg (by simp)]
          exact bind_eq_ok.mpr ⟨(call, line), read, rfl⟩
      | known _ _ _ notEntry => exact absurd enters notEntry
  rw [if_neg enters]
  cases found : trace.calls.get? record.id with
  | none =>
      constructor
      · intro observed
        cases observed
      · intro observed
        cases observed with
        | process _ isProcess => exact absurd isProcess process
        | input _ _ isInput => exact absurd isInput input
        | enter _ _ _ isEntry => exact absurd isEntry enters
        | known _ _ _ _ isFound => rw [found] at isFound; cases isFound
  | some call =>
      constructor
      · intro observed
        obtain ⟨later, read, same⟩ := bind_eq_ok.mp observed
        cases same
        exact .known call later isCall enters found read
      · intro observed
        cases observed with
        | process _ isProcess => exact absurd isProcess process
        | input _ _ isInput => exact absurd isInput input
        | enter _ _ _ isEntry => exact absurd isEntry enters
        | known call' later _ _ isFound read =>
            rw [found] at isFound
            cases isFound
            exact bind_eq_ok.mpr ⟨later, read, rfl⟩

end Steps

-- Calls collected without completing any

section Collecting

variable {privateUpper : JsString} {trace next : NativeTrace} {changed marked : List ℕ}
  {record : NativeRecord} {records : List NativeRecord} {id kind : ℕ} {call : Call}

/-- A record of a kind that came for a call without an error. -/
def Has (records : List NativeRecord) (id kind : ℕ) : Prop :=
  ∃ record ∈ records, record.id = id ∧ record.kind = kind ∧ record.error = 0

/-- The call is one on a position of a file. -/
def Positional (records : List NativeRecord) (id : ℕ) : Prop :=
  ∃ record ∈ records, record.id = id ∧ record.kind = 8
    ∧ (uint record.body 8 8 = 17 ∨ uint record.body 8 8 = 18)

/-- The return of a call is there, and the request and the response where it needs them. -/
def Complete (records : List NativeRecord) (id : ℕ) : Prop :=
  Has records id 6 ∧ (Positional records id ∨ Has records id 0 ∧ Has records id 4)

theorem has_append : Has (records ++ [record]) id kind
    ↔ Has records id kind ∨ record.id = id ∧ record.kind = kind ∧ record.error = 0 := by
  simp only [Has, List.mem_append, List.mem_singleton, or_and_right, exists_or, exists_eq_left]

theorem positional_append : Positional (records ++ [record]) id
    ↔ Positional records id ∨ record.id = id ∧ record.kind = 8
      ∧ (uint record.body 8 8 = 17 ∨ uint record.body 8 8 = 18) := by
  simp only [Positional, List.mem_append, List.mem_singleton, or_and_right, exists_or,
    exists_eq_left]

/-- What a call has of its records. -/
structure Call.Tracks (call : Call) (records : List NativeRecord) (id : ℕ) : Prop where
  fresh : call.observation = none
  returned : call.returned.isSome = true ↔ Has records id 6
  requested : call.requested = true ↔ Has records id 0
  response : call.response.isSome = true ↔ Has records id 4
  positional : call.positional = true ↔ Positional records id

/-- The calls as they are collected from some records. -/
structure Collected (records : List NativeRecord) (trace : NativeTrace) (changed : List ℕ)
    : Prop where
  place : ∀ id call, trace.calls.get? id = some call → call.line < trace.lines.length
  apart : ∀ id other call call', trace.calls.get? id = some call
    → trace.calls.get? other = some call' → call.line = call'.line → id = other
  tracks : ∀ id call, trace.calls.get? id = some call → call.Tracks records id
  entered : ∀ record ∈ records, record.isCall = true
    → (trace.calls.get? record.id).isSome = true
  marked : ∀ id, (trace.calls.get? id).isSome = true → id ∈ changed

theorem Call.Tracks.complete_iff (tracks : call.Tracks records id)
    : call.complete = true ↔ Complete records id := by
  rw [Call.complete, Bool.and_eq_true, Bool.or_eq_true, Bool.and_eq_true, tracks.returned,
    tracks.positional, tracks.requested, tracks.response, Complete]

/-- A record of something else leaves what a call has as it is. -/
theorem Call.Tracks.other (tracks : call.Tracks records id)
    (other : record.id ≠ id ∨ record.isCall = false) : call.Tracks (records ++ [record]) id := by
  have kinds : ∀ kind, kind ∉ [10, 11, 138, 139] → kind ≠ 12
      → ¬ (record.id = id ∧ record.kind = kind) := by
    rintro kind notInput notProcess ⟨sameId, rfl⟩
    rcases other with different | notCall
    · exact different sameId
    · exact of_decide_eq_false notCall ⟨notProcess, notInput⟩
  have has : ∀ kind, kind ∉ [10, 11, 138, 139] → kind ≠ 12
      → (Has (records ++ [record]) id kind ↔ Has records id kind) := by
    intro kind notInput notProcess
    rw [has_append, or_iff_left]
    exact fun now => kinds kind notInput notProcess ⟨now.1, now.2.1⟩
  refine ⟨tracks.fresh, ?_, ?_, ?_, ?_⟩
  · rw [tracks.returned, has 6 (by decide) (by decide)]
  · rw [tracks.requested, has 0 (by decide) (by decide)]
  · rw [tracks.response, has 4 (by decide) (by decide)]
  · rw [tracks.positional, positional_append, or_iff_left]
    exact fun now => kinds 8 (by decide) (by decide) ⟨now.1, now.2.1⟩

/-- One more record of a call. -/
theorem Call.Tracks.observe {later : Call} (tracks : call.Tracks records record.id)
    (notEntry : record.kind ≠ 8) (extends_ : call.Extends later record)
    : later.Tracks (records ++ [record]) record.id := by
  refine ⟨extends_.observation.trans tracks.fresh, ?_, ?_, ?_, ?_⟩
  · rw [extends_.returned, has_append, tracks.returned, eq_self, true_and]
  · rw [extends_.requested, has_append, tracks.requested, eq_self, true_and]
  · rw [extends_.response, has_append, tracks.response, eq_self, true_and]
  · rw [positional_append, or_iff_left fun now => notEntry now.2.1, ← tracks.positional,
      Call.positional, Call.positional, extends_.before.number]

/-- A call that is entered. -/
theorem entry_cases {place : ℕ} {line : NativeLine} (read : entry place record = .ok (call, line))
    : record.error = 0 ∧ call.line = place ∧ call.number = uint record.body 8 8
      ∧ call.returned = none ∧ call.requested = false ∧ call.response = none
      ∧ call.observation = none := by
  unfold entry at read
  split_ifs at read with refused
  dsimp only at read
  cases name : callName? (uint record.body 8 8) with
  | none =>
      rw [name] at read
      cases read
  | some name =>
      simp only [name] at read
      cases read
      exact ⟨by_contra fun failed => refused (.inl failed), rfl, rfl, rfl, rfl, rfl, rfl⟩

theorem Call.Tracks.enter {place : ℕ} {line : NativeLine}
    (read : entry place record = .ok (call, line)) (isCall : record.kind = 8)
    (unseen : ∀ earlier ∈ records, earlier.isCall = true → earlier.id ≠ record.id)
    : call.Tracks (records ++ [record]) record.id := by
  obtain ⟨noError, -, number, returned, requested, response, observation⟩ := entry_cases read
  have none_ : ∀ kind, kind ∉ [10, 11, 138, 139] → kind ≠ 12 → kind ≠ 8
      → ¬ Has (records ++ [record]) record.id kind := by
    intro kind notInput notProcess notEntry has
    rcases has_append.mp has with ⟨earlier, member, sameId, rfl, -⟩ | ⟨-, isKind, -⟩
    · exact unseen earlier member (decide_eq_true ⟨notProcess, notInput⟩) sameId
    · exact notEntry (isKind.symm.trans isCall)
  refine ⟨observation, ?_, ?_, ?_, ?_⟩
  · simp [returned, none_ 6]
  · simp [requested, none_ 0]
  · simp [response, none_ 4]
  · rw [positional_append, or_iff_right, Call.positional, number]
    · simp [isCall]
    · rintro ⟨earlier, member, sameId, isEntry, -⟩
      refine unseen earlier member ?_ sameId
      rw [NativeRecord.isCall, isEntry]
      decide

theorem mem_mark {id other : ℕ} : other ∈ mark changed id ↔ other ∈ changed ∨ other = id := by
  unfold mark
  split_ifs with member
  · exact ⟨.inl, fun either => either.elim (fun here => here) fun same => same ▸ member⟩
  · rw [List.mem_append, List.mem_singleton]

theorem nodup_mark (distinct : changed.Nodup) : (mark changed id).Nodup := by
  unfold mark
  split_ifs with member
  · exact distinct
  · exact distinct.append (List.nodup_singleton id)
      (List.disjoint_singleton.mpr member)

/-- What was collected, with one more record. -/
theorem Collected.step (collected : Collected records trace changed)
    (observed : Observed privateUpper trace changed record next marked)
    : Collected (records ++ [record]) next marked := by
  have entered : ∀ later : NativeTrace,
      (∀ id, (trace.calls.get? id).isSome = true → (later.calls.get? id).isSome = true)
      → (record.isCall = true → (later.calls.get? record.id).isSome = true)
      → ∀ record' ∈ records ++ [record], record'.isCall = true
        → (later.calls.get? record'.id).isSome = true := by
    intro later kept now record' member isCall
    rcases List.mem_append.mp member with earlier | last
    · exact kept _ (collected.entered record' earlier isCall)
    · rw [List.mem_singleton.mp last] at isCall ⊢
      exact now isCall
  cases observed with
  | process line kind read =>
      have notCall : record.isCall = false := by
        rw [NativeRecord.isCall, kind]
        decide
      refine ⟨fun id call found => ?_, collected.apart, fun id call found => ?_,
        entered _ (fun _ some_ => some_) (fun isCall => ?_), collected.marked⟩
      · have bound := collected.place id call found
        rw [NativeTrace.append, List.length_append]
        exact Nat.lt_of_lt_of_le bound (Nat.le_add_right _ _)
      · exact (collected.tracks id call found).other (.inr notCall)
      · rw [notCall] at isCall
        exact absurd isCall Bool.false_ne_true
  | input index notProcess kind read =>
      have notCall : record.isCall = false := decide_eq_false fun both => both.2 kind
      refine ⟨collected.place, collected.apart, fun id call found => ?_,
        entered _ (fun _ some_ => some_) (fun isCall => ?_), collected.marked⟩
      · exact (collected.tracks id call found).other (.inr notCall)
      · rw [notCall] at isCall
        exact absurd isCall Bool.false_ne_true
  | enter call line isCall kind unknown read =>
      have place := (entry_cases read).2.1
      have lookup : ∀ id, ((trace.calls.set record.id call).get? id)
          = if id = record.id then some call else trace.calls.get? id :=
        fun id => OrderedMap.get?_set trace.calls record.id id call
      have unseen : ∀ earlier ∈ records, earlier.isCall = true → earlier.id ≠ record.id := by
        intro earlier member earlierCall same
        have present := collected.entered earlier member earlierCall
        rw [same, unknown] at present
        exact Bool.false_ne_true present
      refine ⟨fun id call' found => ?_, fun id other call' call'' found found' same => ?_,
        fun id call' found => ?_, entered _ (fun id present => ?_) (fun _ => ?_), fun id present => ?_⟩
      · rw [NativeTrace.append, List.length_append, List.length_singleton]
        change (trace.calls.set record.id call).get? id = some call' at found
        rw [lookup] at found
        split_ifs at found
        · cases found
          rw [place]
          exact Nat.lt_succ_self _
        · exact Nat.lt_succ_of_lt (collected.place id call' found)
      · change (trace.calls.set record.id call).get? id = some call' at found
        change (trace.calls.set record.id call).get? other = some call'' at found'
        rw [lookup] at found found'
        split_ifs at found found' with here there there
        · exact here.trans there.symm
        · cases found
          have bound := collected.place other call'' found'
          omega
        · cases found'
          have bound := collected.place id call' found
          omega
        · exact collected.apart id other call' call'' found found' same
      · change (trace.calls.set record.id call).get? id = some call' at found
        rw [lookup] at found
        split_ifs at found with here
        · cases found
          rw [here]
          exact Call.Tracks.enter read kind unseen
        · exact (collected.tracks id call' found).other (.inl (Ne.symm here))
      · change ((trace.calls.set record.id call).get? id).isSome = true
        rw [lookup]
        split_ifs
        · rfl
        · exact present
      · change ((trace.calls.set record.id call).get? record.id).isSome = true
        rw [lookup, if_pos rfl]
        rfl
      · change ((trace.calls.set record.id call).get? id).isSome = true at present
        rw [lookup] at present
        split_ifs at present with here
        · exact mem_mark.mpr (.inr here)
        · exact mem_mark.mpr (.inl (collected.marked id present))
  | known call later isCall kind found read =>
      have extends_ := Call.observe_extends read
      have lookup : ∀ id, ((trace.calls.set record.id later).get? id)
          = if id = record.id then some later else trace.calls.get? id :=
        fun id => OrderedMap.get?_set trace.calls record.id id later
      -- the places are those of the calls before
      have before : ∀ id call', (trace.calls.set record.id later).get? id = some call'
          → ∃ call'', trace.calls.get? id = some call'' ∧ call'.line = call''.line := by
        intro id call' found'
        rw [lookup] at found'
        split_ifs at found' with here
        · cases found'
          exact ⟨call, here ▸ found, extends_.before.line.symm⟩
        · exact ⟨call', found', rfl⟩
      refine ⟨fun id call' found' => ?_, fun id other call' call'' found' found'' same => ?_,
        fun id call' found' => ?_, entered _ (fun id present => ?_) (fun _ => ?_),
        fun id present => ?_⟩
      · obtain ⟨old, isOld, line⟩ := before id call' found'
        rw [line]
        exact collected.place id old isOld
      · obtain ⟨old, isOld, line⟩ := before id call' found'
        obtain ⟨old', isOld', line'⟩ := before other call'' found''
        exact collected.apart id other old old' isOld isOld' (line.symm.trans (same.trans line'))
      · change (trace.calls.set record.id later).get? id = some call' at found'
        rw [lookup] at found'
        split_ifs at found' with here
        · cases found'
          rw [here]
          exact (collected.tracks record.id call found).observe kind extends_
        · exact (collected.tracks id call' found').other (.inl (Ne.symm here))
      · change ((trace.calls.set record.id later).get? id).isSome = true
        rw [lookup]
        split_ifs
        · rfl
        · exact present
      · change ((trace.calls.set record.id later).get? record.id).isSome = true
        rw [lookup, if_pos rfl]
        rfl
      · change ((trace.calls.set record.id later).get? id).isSome = true at present
        rw [lookup] at present
        split_ifs at present with here
        · exact mem_mark.mpr (.inr here)
        · exact mem_mark.mpr (.inl (collected.marked id present))

end Collecting

-- A trace beside the collected calls

section Relating

variable {host : Host} {privateUpper : JsString} {left right leftNext rightNext : NativeTrace}
  {changed rightChanged rightMarked : List ℕ} {records : List NativeRecord}
  {record : NativeRecord}

/-- A call of a trace, with the call as it was collected: it was forgotten with its last line, or
its line stands for some of its records, and for all of them where no record came since.
-/
inductive CallRelated (host : Host) (held : Option Call) (line : Option NativeLine) (call : Call)
    (base : NativeLine) (changed : Prop) : Prop
  | forgotten (gone : held = none) (complete : call.complete = true) (unchanged : ¬ changed)
    (current : NativeLine) (isLine : line = some current)
    (finished : call.finish host base = .ok current)
  | kept (observation : Option StatObservation)
    (there_ : held = some { call with observation }) (keeps : call.Kept host observation)
    (current : NativeLine) (isLine : line = some current)
    (partly : current = base ∨ ∃ earlier : Call, earlier.Before call
      ∧ earlier.finish host base = .ok current)
    (settled : ¬ changed → call.finish host base = .ok current ∧ call.complete = false)

/-- A trace with the calls that its read has changed, beside the collected calls. -/
structure Related (host : Host) (left right : NativeTrace) (changed : List ℕ) : Prop where
  files : left.files = right.files
  index : left.index = right.index
  length : left.lines.length = right.lines.length
  others : ∀ place, (∀ id call, right.calls.get? id = some call → call.line ≠ place)
    → left.lines[place]? = right.lines[place]?
  unknown : ∀ id, right.calls.get? id = none → left.calls.get? id = none
  calls : ∀ id call, right.calls.get? id = some call
    → ∃ base, right.lines[call.line]? = some base
      ∧ CallRelated host (left.calls.get? id) left.lines[call.line]? call base (id ∈ changed)

/-- The call is complete in a trace that no longer holds it. -/
def Forgotten (left right : NativeTrace) (id : ℕ) : Prop :=
  left.calls.get? id = none ∧ (right.calls.get? id).isSome = true

/-- Lines that are appended leave a call as it is. -/
theorem CallRelated.append {held : Option Call} {call : Call} {base : NativeLine}
    {changedCall : Prop} {lines : List NativeLine}
    (related : CallRelated host held lines[call.line]? call base changedCall) (line : NativeLine)
    : CallRelated host held (lines ++ [line])[call.line]? call base changedCall := by
  have still : ∀ current, lines[call.line]? = some current
      → (lines ++ [line])[call.line]? = some current := by
    intro current isLine
    rw [List.getElem?_append_left (List.getElem?_eq_some_iff.mp isLine).1]
    exact isLine
  cases related with
  | forgotten gone complete unchanged current isLine finished =>
      exact .forgotten gone complete unchanged current (still current isLine) finished
  | kept observation there_ keeps current isLine partly settled =>
      exact .kept observation there_ keeps current (still current isLine) partly settled

/-- A call stays as it is when another one is marked. -/
theorem CallRelated.mark {held : Option Call} {line : Option NativeLine} {call : Call}
    {base : NativeLine} {id other : ℕ} (different : id ≠ other)
    (related : CallRelated host held line call base (id ∈ changed))
    : CallRelated host held line call base (id ∈ mark changed other) := by
  have same : id ∈ NativeMetadata.mark changed other ↔ id ∈ changed := by
    rw [mem_mark, or_iff_left different]
  rwa [same]

theorem getElem?_append_eq {lines lines' : List NativeLine} (length : lines.length = lines'.length)
    (line : NativeLine) {place : ℕ} (same : place < lines'.length → lines[place]? = lines'[place]?)
    : (lines ++ [line])[place]? = (lines' ++ [line])[place]? := by
  by_cases bound : place < lines'.length
  · rw [List.getElem?_append_left (length ▸ bound), List.getElem?_append_left bound, same bound]
  · rw [List.getElem?_append_right (by omega), List.getElem?_append_right (by omega), length]

/-- A record that both traces take. -/
theorem Related.step (related : Related host left right changed)
    (observed : Observed privateUpper right rightChanged record rightNext rightMarked)
    (alive : record.isCall = true → ¬ Forgotten left right record.id)
    : ∃ leftNext marked, Observed privateUpper left changed record leftNext marked
      ∧ (changed.Nodup → marked.Nodup) ∧ Related host leftNext rightNext marked
      ∧ ∀ id, Forgotten leftNext rightNext id ↔ Forgotten left right id := by
  cases observed with
  | process line kind read =>
      refine ⟨left.append line, changed, .process line kind read, id, ?_, fun _ => Iff.rfl⟩
      refine ⟨?_, related.index, ?_, fun place free => ?_, related.unknown, fun id call found => ?_⟩
      · rw [NativeTrace.append, NativeTrace.append, related.files, related.length]
      · rw [NativeTrace.append, NativeTrace.append, List.length_append, List.length_append,
          related.length]
      · exact getElem?_append_eq related.length line fun _ => related.others place free
      · obtain ⟨base, isBase, callRelated⟩ := related.calls id call found
        refine ⟨base, ?_, callRelated.append line⟩
        rw [NativeTrace.append, List.getElem?_append_left (List.getElem?_eq_some_iff.mp isBase).1]
        exact isBase
  | input index notProcess kind read =>
      have readLeft : left.index.observe record = .ok index := by rw [related.index]; exact read
      refine ⟨{ left with index }, changed, .input index notProcess kind readLeft, id, ?_,
        fun _ => Iff.rfl⟩
      exact ⟨related.files, rfl, related.length, related.others, related.unknown, related.calls⟩
  | enter call line isCall kind unknown read =>
      have place := (entry_cases read).2.1
      have fresh : { call with observation := none } = call := by
        rw [← (entry_cases read).2.2.2.2.2.2]
      have leftUnknown := related.unknown record.id unknown
      have readLeft : entry left.lines.length record = .ok (call, line) := by
        rw [related.length]
        exact read
      have lookup : ∀ id, (right.calls.set record.id call).get? id
          = if id = record.id then some call else right.calls.get? id :=
        fun id => OrderedMap.get?_set right.calls record.id id call
      have leftLookup : ∀ id, (left.calls.set record.id call).get? id
          = if id = record.id then some call else left.calls.get? id :=
        fun id => OrderedMap.get?_set left.calls record.id id call
      refine ⟨_, _, .enter call line isCall kind leftUnknown readLeft, nodup_mark, ?_,
        fun id => ?_⟩
      · refine ⟨?_, related.index, ?_, fun at_ free => ?_, fun id absent => ?_,
          fun id call' found => ?_⟩
        · simp only [NativeTrace.append, related.files, related.length]
        · simp only [NativeTrace.append, List.length_append, related.length]
        · refine getElem?_append_eq related.length line fun _ => related.others at_ ?_
          intro id call' found same
          have different : id ≠ record.id := by
            rintro rfl
            rw [unknown] at found
            cases found
          exact free id call' ((lookup id).trans ((if_neg different).trans found)) same
        · change (right.calls.set record.id call).get? id = none at absent
          change (left.calls.set record.id call).get? id = none
          rw [lookup] at absent
          rw [leftLookup]
          split_ifs at absent ⊢
          exact related.unknown id absent
        · change (right.calls.set record.id call).get? id = some call' at found
          rw [lookup] at found
          change ∃ base, (right.lines ++ [line])[call'.line]? = some base
            ∧ CallRelated host ((left.calls.set record.id call).get? id)
              (left.lines ++ [line])[call'.line]? call' base (id ∈ NativeMetadata.mark changed record.id)
          rw [leftLookup]
          split_ifs at found with here
          · cases found
            rw [if_pos here, place]
            refine ⟨line, by simp, .kept none (congrArg some fresh.symm) (Call.kept_none host call) line
              (by simp [← related.length]) (.inl rfl) fun unmarked => ?_⟩
            exact absurd (mem_mark.mpr (.inr here)) unmarked
          · rw [if_neg here]
            obtain ⟨base, isBase, callRelated⟩ := related.calls id call' found
            refine ⟨base, ?_, (callRelated.append line).mark here⟩
            rw [List.getElem?_append_left (List.getElem?_eq_some_iff.mp isBase).1]
            exact isBase
      · change (left.calls.set record.id call).get? id = none
            ∧ ((right.calls.set record.id call).get? id).isSome = true
          ↔ left.calls.get? id = none ∧ (right.calls.get? id).isSome = true
        rw [lookup, leftLookup]
        split_ifs with here
        · rw [here, unknown]
          simp
        · exact Iff.rfl
  | known call later isCall kind found read =>
      have extends_ := Call.observe_extends read
      obtain ⟨base, isBase, callRelated⟩ := related.calls record.id call found
      cases callRelated with
      | forgotten gone => exact absurd ⟨gone, by rw [found]; rfl⟩ (alive isCall)
      | kept observation there_ keeps current isLine partly settled =>
      have lookup : ∀ id, (right.calls.set record.id later).get? id
          = if id = record.id then some later else right.calls.get? id :=
        fun id => OrderedMap.get?_set right.calls record.id id later
      have leftLookup : ∀ id,
          (left.calls.set record.id { later with observation }).get? id
            = if id = record.id then some { later with observation } else left.calls.get? id :=
        fun id => OrderedMap.get?_set left.calls record.id id _
      refine ⟨_, _, .known _ _ isCall kind there_ (Call.observe_kept observation read), nodup_mark,
        ?_, fun id => ?_⟩
      · refine ⟨related.files, related.index, related.length, fun place free => ?_,
          fun id absent => ?_, fun id call' found' => ?_⟩
        · refine related.others place fun id call' found' same => ?_
          by_cases here : id = record.id
          · rw [here, found] at found'
            cases found'
            exact free record.id later ((lookup _).trans (if_pos rfl))
              (extends_.before.line.symm.trans same)
          · exact free id call' ((lookup id).trans ((if_neg here).trans found')) same
        · change (right.calls.set record.id later).get? id = none at absent
          change (left.calls.set record.id { later with observation }).get? id = none
          rw [lookup] at absent
          rw [leftLookup]
          split_ifs at absent ⊢
          exact related.unknown id absent
        · change (right.calls.set record.id later).get? id = some call' at found'
          rw [lookup] at found'
          change ∃ base, right.lines[call'.line]? = some base
            ∧ CallRelated host ((left.calls.set record.id { later with observation }).get? id)
              left.lines[call'.line]? call' base (id ∈ NativeMetadata.mark changed record.id)
          rw [leftLookup]
          split_ifs at found' with here
          · cases found'
            rw [extends_.before.line] at isBase isLine
            rw [if_pos here]
            refine ⟨base, isBase, .kept observation rfl (keeps.extend extends_.before) current isLine
              ?_ fun unmarked => ?_⟩
            · refine partly.imp_right ?_
              rintro ⟨earlier, before, finished⟩
              exact ⟨earlier, before.trans extends_.before, finished⟩
            · exact absurd (mem_mark.mpr (.inr here)) unmarked
          · rw [if_neg here]
            obtain ⟨base', isBase', callRelated'⟩ := related.calls id call' found'
            exact ⟨base', isBase', callRelated'.mark here⟩
      · change (left.calls.set record.id { later with observation }).get? id = none
            ∧ ((right.calls.set record.id later).get? id).isSome = true
          ↔ left.calls.get? id = none ∧ (right.calls.get? id).isSome = true
        rw [lookup, leftLookup]
        split_ifs with here
        · rw [here, there_]
          simp
        · exact Iff.rfl

/-- The collected calls only get more records. -/
theorem Observed.before
    (observed : Observed privateUpper right rightChanged record rightNext rightMarked) {id : ℕ}
    {call : Call} (found : right.calls.get? id = some call)
    : ∃ later, rightNext.calls.get? id = some later ∧ call.Before later := by
  cases observed with
  | process line kind read => exact ⟨call, found, .refl call⟩
  | input index notProcess kind read => exact ⟨call, found, .refl call⟩
  | enter entered line isCall kind unknown read =>
      have different : id ≠ record.id := by
        rintro rfl
        rw [unknown] at found
        cases found
      refine ⟨call, ?_, .refl call⟩
      exact (OrderedMap.get?_set right.calls record.id id entered).trans
        ((if_neg different).trans found)
  | known old later isCall kind isOld read =>
      have lookup := OrderedMap.get?_set right.calls record.id id later
      by_cases here : id = record.id
      · rw [here, isOld] at found
        cases found
        exact ⟨later, lookup.trans (if_pos here), (Call.observe_extends read).before⟩
      · exact ⟨call, lookup.trans ((if_neg here).trans found), .refl call⟩

/-- The records of a read, by induction on them: they are all taken unless one of them is of a
call that the trace has forgotten.
-/
theorem Related.run (now : List NativeRecord) (related : Related host left right changed)
    (collected : Collected records right rightChanged)
    (observed : now.foldlM (NativeTrace.observe privateUpper) (right, rightChanged)
      = .ok (rightNext, rightMarked))
    (alive : ∀ record ∈ now, record.isCall = true → ¬ Forgotten left right record.id)
    : ∃ leftNext marked, now.foldlM (NativeTrace.observe privateUpper) (left, changed)
        = .ok (leftNext, marked)
      ∧ (changed.Nodup → marked.Nodup) ∧ Related host leftNext rightNext marked := by
  induction now generalizing left right changed records rightChanged with
  | nil =>
      cases observed
      exact ⟨left, changed, rfl, id, related⟩
  | cons first rest ih =>
      obtain ⟨⟨middle, middleChanged⟩, one, later⟩ := bind_eq_ok.mp observed
      have step := observe_eq_ok_iff.mp one
      obtain ⟨leftMiddle, marked, leftStep, distinct, relatedMiddle, still⟩ :=
        related.step step (alive first List.mem_cons_self)
      obtain ⟨leftNext, last, ran, distinct', relatedNext⟩ :=
        ih relatedMiddle (collected.step step) later fun record member isCall forgotten =>
          alive record (List.mem_cons_of_mem _ member) isCall ((still record.id).mp forgotten)
      exact ⟨leftNext, last, bind_eq_ok.mpr ⟨_, observe_eq_ok_iff.mpr leftStep, ran⟩,
        distinct' ∘ distinct, relatedNext⟩

/-- A record of a forgotten call is refused, so a read that is taken has none. -/
theorem Related.alive_of_run (now : List NativeRecord) (related : Related host left right changed)
    (collected : Collected records right rightChanged)
    (observed : now.foldlM (NativeTrace.observe privateUpper) (right, rightChanged)
      = .ok (rightNext, rightMarked))
    {result : NativeTrace × List ℕ}
    (ran : now.foldlM (NativeTrace.observe privateUpper) (left, changed) = .ok result)
    : ∀ record ∈ now, record.isCall = true → ¬ Forgotten left right record.id := by
  induction now generalizing left right changed records rightChanged with
  | nil => exact fun record member => absurd member List.not_mem_nil
  | cons first rest ih =>
      obtain ⟨⟨middle, middleChanged⟩, one, later⟩ := bind_eq_ok.mp observed
      obtain ⟨⟨leftMiddle, marked⟩, leftOne, leftLater⟩ := bind_eq_ok.mp ran
      have step := observe_eq_ok_iff.mp one
      have leftStep := observe_eq_ok_iff.mp leftOne
      have alive : first.isCall = true → ¬ Forgotten left right first.id := by
        rintro isCall ⟨gone, present⟩
        cases leftStep with
        | process _ kind => exact (of_decide_eq_true isCall).1 kind
        | input _ _ kind => exact (of_decide_eq_true isCall).2 kind
        | known _ _ _ _ found => rw [gone] at found; cases found
        | enter _ _ _ kind =>
            cases step with
            | process _ isProcess => exact (of_decide_eq_true isCall).1 isProcess
            | input _ _ isInput => exact (of_decide_eq_true isCall).2 isInput
            | known _ _ _ notEntry => exact notEntry kind
            | enter _ _ _ _ unknown => rw [unknown] at present; cases present
      obtain ⟨leftMiddle', marked', leftStep', -, relatedMiddle, still⟩ :=
        related.step step alive
      have same := leftOne.symm.trans (observe_eq_ok_iff.mpr leftStep')
      cases same
      intro record member isCall forgotten
      rcases List.mem_cons.mp member with rfl | more
      · exact alive isCall forgotten
      · exact ih relatedMiddle (collected.step step) later leftLater record more isCall
          ((still record.id).mpr forgotten)

/-- What is collected of more records. -/
theorem Collected.run (now : List NativeRecord) (collected : Collected records right rightChanged)
    (observed : now.foldlM (NativeTrace.observe privateUpper) (right, rightChanged)
      = .ok (rightNext, rightMarked))
    : Collected (records ++ now) rightNext rightMarked
      ∧ ∀ id call, right.calls.get? id = some call
        → ∃ later, rightNext.calls.get? id = some later ∧ call.Before later := by
  induction now generalizing right records rightChanged with
  | nil =>
      cases observed
      rw [List.append_nil]
      exact ⟨collected, fun id call found => ⟨call, found, .refl call⟩⟩
  | cons first rest ih =>
      obtain ⟨⟨middle, middleChanged⟩, one, later⟩ := bind_eq_ok.mp observed
      have step := observe_eq_ok_iff.mp one
      obtain ⟨whole, before⟩ := ih (collected.step step) later
      rw [List.append_assoc] at whole
      refine ⟨whole, fun id call found => ?_⟩
      obtain ⟨middleCall, isMiddle, first⟩ := step.before found
      obtain ⟨last, isLast, second⟩ := before id middleCall isMiddle
      exact ⟨last, isLast, first.trans second⟩

end Relating

-- The end of a read

section Finishing

variable {host : Host} {privateUpper : JsString} {left right leftNext rightNext : NativeTrace}
  {changed rest rightChanged rightMarked : List ℕ} {records : List NativeRecord} {id : ℕ}

/-- Only the membership of a call among the changed ones counts. -/
theorem CallRelated.congr {held : Option Call} {line : Option NativeLine} {call : Call}
    {base : NativeLine} {changedCall changedCall' : Prop} (same : changedCall ↔ changedCall')
    (related : CallRelated host held line call base changedCall)
    : CallRelated host held line call base changedCall' := by
  rwa [← propext same]

/-- The completed line of a call that was kept is that of the collected call. -/
theorem finish_kept_line {call : Call} {kept : Option StatObservation} {base current : NativeLine}
    (keeps : call.Kept host kept) (fresh : call.observation = none)
    (partly : current = base ∨ ∃ earlier : Call, earlier.Before call
      ∧ earlier.finish host base = .ok current)
    : Call.finish host { call with observation := kept } current = call.finish host base := by
  rw [Call.finish_kept keeps fresh]
  rcases partly with rfl | ⟨earlier, before, first⟩
  · rfl
  · exact Call.finish_again before first

/-- A changed call at the end of a read. -/
theorem Related.finishCall (related : Related host left right (id :: rest))
    (collected : Collected records right rightChanged) (once : id ∉ rest)
    : ((∃ leftNext, NativeTrace.finishCall host left id = .ok leftNext)
        ↔ ∀ call, right.calls.get? id = some call → call.Finishable host)
      ∧ ∀ leftNext, NativeTrace.finishCall host left id = .ok leftNext
        → Related host leftNext right rest := by
  have others : ∀ other, other ≠ id → (other ∈ id :: rest ↔ other ∈ rest) := by
    intro other different
    rw [List.mem_cons, or_iff_right different]
  unfold NativeTrace.finishCall
  cases found : right.calls.get? id with
  | none =>
      rw [related.unknown id found]
      refine ⟨⟨fun _ call none_ => absurd none_.symm (Option.some_ne_none call),
        fun _ => ⟨left, rfl⟩⟩, fun leftNext same => ?_⟩
      cases same
      refine { related with calls := fun other call isCall => ?_ }
      have different : other ≠ id := by
        rintro rfl
        rw [found] at isCall
        cases isCall
      obtain ⟨base, isBase, callRelated⟩ := related.calls other call isCall
      exact ⟨base, isBase, callRelated.congr (others other different)⟩
  | some call =>
      obtain ⟨base, isBase, callRelated⟩ := related.calls id call found
      cases callRelated with
      | forgotten _ _ unchanged => exact absurd List.mem_cons_self unchanged
      | kept observation there_ keeps current isLine partly settled =>
      have fresh := (collected.tracks id call found).fresh
      have finishes := finish_kept_line keeps fresh partly
      rw [there_]
      dsimp only
      rw [isLine]
      dsimp only
      refine ⟨⟨?_, fun finishable => ?_⟩, fun leftNext same => ?_⟩
      · rintro ⟨leftNext, same⟩ call' same'
        cases same'
        obtain ⟨line, finished, -⟩ := bind_eq_ok.mp same
        rw [finishes] at finished
        obtain ⟨result, text, -⟩ := Call.finish_eq_ok_iff.mp finished
        exact ⟨result, text⟩
      · obtain ⟨line, finished⟩ := (finishable call rfl).finish base
        exact ⟨_, bind_eq_ok.mpr ⟨line, finishes.trans finished, rfl⟩⟩
      obtain ⟨line, finished, same⟩ := bind_eq_ok.mp same
      rw [finishes] at finished
      obtain rfl : { left with
          lines := left.lines.set call.line line
          calls :=
            if call.complete then left.calls.delete id
            else left.calls.set id
              { call with observation := line.native.observation.or observation } }
        = leftNext := Except.ok.inj same
      have bound : call.line < left.lines.length := (List.getElem?_eq_some_iff.mp isLine).1
      have lookup : ∀ other,
          (if call.complete then left.calls.delete id
            else left.calls.set id
              { call with observation := line.native.observation.or observation }).get? other
          = if other = id then
              if call.complete then none
              else some { call with observation := line.native.observation.or observation }
            else left.calls.get? other := by
        intro other
        split_ifs with isComplete here here
        · rw [OrderedMap.get?_delete, if_pos here]
        · rw [OrderedMap.get?_delete, if_neg here]
        · rw [OrderedMap.get?_set, if_pos here]
        · rw [OrderedMap.get?_set, if_neg here]
      refine ⟨related.files, related.index, ?_, fun place free => ?_, fun other absent => ?_,
        fun other call' isCall => ?_⟩
      · rw [List.length_set]
        exact related.length
      · rw [List.getElem?_set_ne (free id call found)]
        exact related.others place free
      · have different : other ≠ id := by
          rintro rfl
          rw [found] at absent
          cases absent
        rw [lookup, if_neg different]
        exact related.unknown other absent
      · rw [lookup]
        by_cases here : other = id
        · rw [here, found] at isCall
          cases isCall
          refine ⟨base, isBase, ?_⟩
          rw [if_pos here, List.getElem?_set_self bound]
          cases isComplete : call.complete with
          | true =>
              rw [if_pos rfl]
              exact .forgotten rfl isComplete (here ▸ once) line rfl finished
          | false =>
              rw [if_neg Bool.false_ne_true]
              exact .kept _ rfl (Call.kept_of_finish keeps fresh finished) line rfl
                (.inr ⟨call, .refl call, finished⟩) fun _ => ⟨finished, isComplete⟩
        · rw [if_neg here]
          have apart : call.line ≠ call'.line := fun same =>
            here (collected.apart id other call call' found isCall same).symm
          obtain ⟨base', isBase', callRelated'⟩ := related.calls other call' isCall
          rw [List.getElem?_set_ne apart]
          exact ⟨base', isBase', callRelated'.congr (others other here)⟩

/-- The end of a read, by induction on the changed calls. -/
theorem Related.finish (related : Related host left right changed)
    (collected : Collected records right rightChanged) (distinct : changed.Nodup)
    : ((∃ leftNext, changed.foldlM (NativeTrace.finishCall host) left = .ok leftNext)
        ↔ ∀ id ∈ changed, ∀ call, right.calls.get? id = some call → call.Finishable host)
      ∧ ∀ leftNext, changed.foldlM (NativeTrace.finishCall host) left = .ok leftNext
        → Related host leftNext right [] := by
  induction changed generalizing left with
  | nil =>
      refine ⟨⟨fun _ id member => absurd member List.not_mem_nil, fun _ => ⟨left, rfl⟩⟩, ?_⟩
      intro leftNext same
      cases same
      exact related
  | cons id rest ih =>
      obtain ⟨once, distinctRest⟩ := List.nodup_cons.mp distinct
      obtain ⟨first, firstRelated⟩ := related.finishCall collected once
      refine ⟨⟨?_, fun finishable => ?_⟩, fun leftNext ran => ?_⟩
      · rintro ⟨leftNext, ran⟩
        obtain ⟨middle, one, later⟩ := bind_eq_ok.mp ran
        have rest_ := (ih (firstRelated middle one) distinctRest).1.mp ⟨leftNext, later⟩
        intro other member
        rcases List.mem_cons.mp member with rfl | more
        · exact first.mp ⟨middle, one⟩
        · exact rest_ other more
      · obtain ⟨middle, one⟩ := first.mpr (finishable id List.mem_cons_self)
        obtain ⟨leftNext, later⟩ := (ih (firstRelated middle one) distinctRest).1.mpr
          fun other member => finishable other (List.mem_cons_of_mem _ member)
        exact ⟨leftNext, bind_eq_ok.mpr ⟨middle, one, later⟩⟩
      · obtain ⟨middle, one, later⟩ := bind_eq_ok.mp ran
        exact (ih (firstRelated middle one) distinctRest).2 leftNext later

end Finishing

end SpeculativeAction.NativeMetadata
