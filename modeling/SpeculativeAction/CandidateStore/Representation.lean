import SpeculativeAction.CandidateStore.Model

/-! The two sides of the index agree: whatever happens to the store, a partition refers to
exactly the registered records that are filed under it, and every registered entry is
either pending or cached.
-/

namespace SpeculativeAction.CandidateStore

open SpeculativeAction.Library
open SpeculativeAction.ActionSemantics

section Names

/-- The first unit of a partition's name. -/
def PartitionName.lead : PartitionName → CodeUnit
  | .pending => unit 'p'
  | .exact _ => unit 'e'
  | .inputs .. => unit 'i'
  | .view _ => unit 'v'
  | .projection .. => unit '['

theorem PartitionName.head_text (name : PartitionName) : name.text.head? = some name.lead := by
  cases name with
  | pending => rfl
  | exact key => rfl
  | inputs descendants path => cases descendants <;> rfl
  | view action => rfl
  | projection projector partition => rfl

/-- Pending work, tagged names and projections occupy disjoint name spaces. -/
theorem PartitionName.text_injective : Function.Injective PartitionName.text := by
  intro left right same
  have leads : left.lead = right.lead := by
    have heads := congrArg List.head? same
    rw [head_text, head_text] at heads
    exact Option.some.inj heads
  cases left <;> cases right
  all_goals
    simp only [lead] at leads
    try exact absurd leads (by decide)
  case pending.pending => rfl
  case exact.exact key other => exact congrArg exact (List.append_cancel_left same)
  case inputs.inputs descendants path other place =>
    cases descendants <;> cases other
    · exact congrArg (inputs false) (List.append_cancel_left same)
    · exact absurd (List.append_inj_left same (by decide)) (by decide)
    · exact absurd (List.append_inj_left same (by decide)) (by decide)
    · exact congrArg (inputs true) (List.append_cancel_left same)
  case view.view action other => exact congrArg view (List.append_cancel_left same)
  case projection.projection projector partition other place =>
    have parsed := congrArg jsonParse same
    simp only [text, projectionPartition] at parsed
    rw [jsonParse_writeData rfl, jsonParse_writeData rfl] at parsed
    simp only [Option.some.injEq, Data.array.injEq, List.cons.injEq, Data.string.injEq] at parsed
    rw [parsed.1, parsed.2.1]

@[simp] theorem PartitionName.text_inj {left right : PartitionName}
    : left.text = right.text ↔ left = right := text_injective.eq_iff

end Names

section Links

variable {Scope Entry : Type} [DecidableEq Scope]
  {settings : Settings Entry} {store : Store Scope Entry} {scope : Scope} {id : JsString}
  {record : ℕ} {indexed : IndexedEntry Entry}

/-- The record an id leads to in a scope. -/
def Store.recordAt (store : Store Scope Entry) (scope : Scope) (id : JsString) : Option ℕ :=
  (store.scopes.get? scope).bind fun state => state.entries.get? id

/-- Registrations and partitions refer to each other. -/
structure Linked (settings : Settings Entry) (store : Store Scope Entry) : Prop where
  allocated : ∀ (scope : Scope) (id : JsString) (record : ℕ),
    store.recordAt scope id = some record
    → ∃ indexed, store.records[record]? = some indexed ∧ settings.id indexed.entry = id
  sole : ∀ (scope other : Scope) (id name : JsString) (record : ℕ),
    store.recordAt scope id = some record → store.recordAt other name = some record
    → scope = other
  filed : ∀ (scope : Scope) (key : JsString) (record : ℕ),
    record ∈ store.members scope key
    ↔ (∃ id, store.recordAt scope id = some record)
      ∧ ∃ indexed, store.records[record]? = some indexed ∧ key ∈ indexed.memberships
  released : ∀ (record : ℕ) (indexed : IndexedEntry Entry),
    store.records[record]? = some indexed
    → (∀ scope id, store.recordAt scope id ≠ some record)
    → indexed.memberships = []
  inhabited : ∀ scope : Scope,
    (store.scopes.get? scope).isSome → ∃ id record, store.recordAt scope id = some record

/-- The id a record is found under is its entry's own. -/
theorem Linked.same_id (linked : Linked settings store) {other : Scope} {name : JsString}
    (here : store.recordAt scope id = some record) (there : store.recordAt other name = some record)
    : id = name := by
  obtain ⟨indexed, found, same⟩ := linked.allocated scope id record here
  obtain ⟨again, foundAgain, sameAgain⟩ := linked.allocated other name record there
  rw [found] at foundAgain
  obtain rfl := Option.some.inj foundAgain
  exact same.symm.trans sameAgain

/-- One record of a store was rewritten in place; the registrations stay. -/
structure Rewrites (settings : Settings Entry) (store after : Store Scope Entry) (record : ℕ)
    (final : IndexedEntry Entry)
    : Prop where
  linked : Linked settings after
  registrations : ∀ (scope : Scope) (id : JsString),
    after.recordAt scope id = store.recordAt scope id
  rewritten : after.records[record]? = some final
  others : ∀ other : ℕ, other ≠ record → after.records[other]? = store.records[other]?

theorem Rewrites.trans {middle after : Store Scope Entry} {first final : IndexedEntry Entry}
    (earlier : Rewrites settings store middle record first)
    (later : Rewrites settings middle after record final)
    : Rewrites settings store after record final where
  linked := later.linked
  registrations scope id := (later.registrations scope id).trans (earlier.registrations scope id)
  rewritten := later.rewritten
  others other different := (later.others other different).trans (earlier.others other different)

@[simp] theorem recordAt_modifyPartitions (store : Store Scope Entry) (scope other : Scope)
    (id : JsString) (change : InvertedIndex JsString ℕ → InvertedIndex JsString ℕ)
    : (store.modifyPartitions scope change).recordAt other id = store.recordAt other id := by
  unfold Store.modifyPartitions
  split
  · rename_i state found
    by_cases same : other = scope
    · subst same
      simp [Store.recordAt, OrderedMap.get?_set, found]
    · simp [Store.recordAt, OrderedMap.get?_set, same]
  · rfl

theorem isSome_get?_modifyPartitions (store : Store Scope Entry) (scope other : Scope)
    (change : InvertedIndex JsString ℕ → InvertedIndex JsString ℕ)
    : ((store.modifyPartitions scope change).scopes.get? other).isSome
      = (store.scopes.get? other).isSome := by
  unfold Store.modifyPartitions
  split
  · rename_i state found
    by_cases same : other = scope
    · subst same
      simp [OrderedMap.get?_set, found]
    · simp [OrderedMap.get?_set, same]
  · rfl

@[simp] theorem records_modifyPartitions (store : Store Scope Entry) (scope : Scope)
    (change : InvertedIndex JsString ℕ → InvertedIndex JsString ℕ)
    : (store.modifyPartitions scope change).records = store.records := by
  unfold Store.modifyPartitions
  split <;> rfl

/-- Changing the partitions of one scope leaves those of the others. -/
theorem members_modifyPartitions (present : store.recordAt scope id = some record) (other : Scope)
    (key : JsString) (change : InvertedIndex JsString ℕ → InvertedIndex JsString ℕ)
    : ∃ partitions : InvertedIndex JsString ℕ,
        (∀ key, partitions.members key = store.members scope key)
        ∧ (store.modifyPartitions scope change).members other key
          = if other = scope then (change partitions).members key else store.members other key := by
  unfold Store.recordAt at present
  cases found : store.scopes.get? scope with
  | none =>
      rw [found] at present
      cases present
  | some state =>
      refine ⟨state.partitions, fun key => by rw [Store.members, found], ?_⟩
      unfold Store.modifyPartitions
      rw [found]
      by_cases same : other = scope
      · subst same
        simp [Store.members, OrderedMap.get?_set]
      · simp [Store.members, OrderedMap.get?_set, same]

/-- Rewriting a registered record together with the partitions that name it. -/
theorem Linked.rewrite (linked : Linked settings store)
    (present : store.recordAt scope id = some record)
    (found : store.records[record]? = some indexed)
    (partitions : InvertedIndex JsString ℕ → InvertedIndex JsString ℕ)
    (change : IndexedEntry Entry → IndexedEntry Entry)
    (entry : (change indexed).entry = indexed.entry)
    (agree
      : ∀ index : InvertedIndex JsString ℕ,
          (∀ key, record ∈ index.members key ↔ key ∈ indexed.memberships)
          → ∀ key reader,
              reader ∈ (partitions index).members key
              ↔ if reader = record then key ∈ (change indexed).memberships
                else reader ∈ index.members key)
    : Rewrites settings store ((store.modifyPartitions scope partitions).modify record change)
        record (change indexed) := by
  have rewritten
      : ((store.modifyPartitions scope partitions).modify record change).records[record]?
        = some (change indexed) := by
    simp [Store.modify, found]
  have others (other : ℕ) (different : other ≠ record)
      : ((store.modifyPartitions scope partitions).modify record change).records[other]?
        = store.records[other]? := by
    simp [Store.modify, Ne.symm different]
  have registrations (scope' : Scope) (name : JsString)
      : ((store.modifyPartitions scope partitions).modify record change).recordAt scope' name
        = store.recordAt scope' name :=
    recordAt_modifyPartitions store scope scope' name partitions
  refine ⟨⟨?_, ?_, ?_, ?_, ?_⟩, registrations, rewritten, others⟩
  · intro other name reader there
    rw [registrations] at there
    obtain ⟨stored, storedAt, named⟩ := linked.allocated other name reader there
    by_cases same : reader = record
    · subst same
      rw [found] at storedAt
      obtain rfl := Option.some.inj storedAt
      exact ⟨change indexed, rewritten, by rw [entry, named]⟩
    · exact ⟨stored, (others reader same).trans storedAt, named⟩
  · intro first second left right reader here there
    rw [registrations] at here there
    exact linked.sole first second left right reader here there
  · intro other key reader
    simp only [registrations]
    obtain ⟨before, same, after⟩ := members_modifyPartitions present other key partitions
    have members
        : ((store.modifyPartitions scope partitions).modify record change).members other key
          = if other = scope then (partitions before).members key else store.members other key :=
      after
    rw [members]
    have owned (key : JsString) : record ∈ before.members key ↔ key ∈ indexed.memberships := by
      rw [same, linked.filed]
      constructor
      · intro filed
        obtain ⟨-, stored, storedAt, member⟩ := filed
        rw [found] at storedAt
        exact Option.some.inj storedAt ▸ member
      · exact fun member => ⟨⟨id, present⟩, indexed, found, member⟩
    by_cases here : reader = record
    · subst here
      rw [rewritten]
      by_cases home : other = scope
      · subst home
        rw [if_pos rfl, agree before owned, if_pos rfl]
        constructor
        · exact fun member => ⟨⟨id, present⟩, _, rfl, member⟩
        · intro filed
          obtain ⟨-, stored, storedAt, member⟩ := filed
          exact Option.some.inj storedAt ▸ member
      · rw [if_neg home, linked.filed]
        constructor
        · intro filed
          obtain ⟨⟨name, there⟩, -⟩ := filed
          exact absurd (linked.sole other scope name id reader there present) home
        · intro filed
          obtain ⟨⟨name, there⟩, -⟩ := filed
          exact absurd (linked.sole other scope name id reader there present) home
    · rw [others reader here]
      by_cases home : other = scope
      · subst home
        rw [if_pos rfl, agree before owned, if_neg here, same, linked.filed]
      · rw [if_neg home, linked.filed]
  · intro reader stored storedAt free
    by_cases same : reader = record
    · subst same
      exact absurd present (registrations scope id ▸ free scope id)
    · rw [others reader same] at storedAt
      refine linked.released reader stored storedAt fun other name => ?_
      exact registrations other name ▸ free other name
  · intro other some_
    have old : (store.scopes.get? other).isSome :=
      (isSome_get?_modifyPartitions store scope other partitions).symm.trans some_
    obtain ⟨name, reader, there⟩ := linked.inhabited other old
    exact ⟨name, reader, (registrations other name).trans there⟩

/-- Filing a registered record under more keys. -/
theorem Linked.index (linked : Linked settings store)
    (present : store.recordAt scope id = some record)
    (found : store.records[record]? = some indexed) (keys : List JsString)
    : Rewrites settings store (index store scope record keys) record {
        indexed with memberships := InvertedIndex.insertMembers indexed.memberships keys
      } := by
  refine linked.rewrite present found (fun partitions => partitions.addAll keys record)
    (fun indexed =>
      { indexed with memberships := InvertedIndex.insertMembers indexed.memberships keys })
    rfl ?_
  intro index owned key reader
  rw [InvertedIndex.mem_members_addAll, InvertedIndex.mem_insertMembers]
  split
  · rename_i same
    rw [same, owned]
    simp
  · rename_i different
    simp [different]

theorem Linked.unindex (linked : Linked settings store)
    (present : store.recordAt scope id = some record)
    (found : store.records[record]? = some indexed) (keys : List JsString)
    : Rewrites settings store (unindex store scope record keys) record {
        indexed with memberships := InvertedIndex.removeMembers indexed.memberships keys
      } := by
  refine linked.rewrite present found (fun partitions => partitions.removeAll keys record)
    (fun indexed =>
      { indexed with memberships := InvertedIndex.removeMembers indexed.memberships keys }) rfl ?_
  intro index owned key reader
  rw [InvertedIndex.mem_members_removeAll]
  split
  · rename_i same
    rw [same, owned]
    simp
  · rename_i different
    simp [different]

/-- Changing what a registered record says besides its entry and its memberships. -/
theorem Linked.modify (linked : Linked settings store)
    (present : store.recordAt scope id = some record)
    (found : store.records[record]? = some indexed)
    (change : IndexedEntry Entry → IndexedEntry Entry)
    (entry : (change indexed).entry = indexed.entry)
    (memberships : (change indexed).memberships = indexed.memberships)
    : Rewrites settings store (store.modify record change) record (change indexed) := by
  have unchanged : store.modifyPartitions scope (fun partitions => partitions) = store := by
    unfold Store.modifyPartitions
    split
    · rename_i state stored
      rw [OrderedMap.set_of_get? stored]
    · rfl
  have rewrites := linked.rewrite present found (fun partitions => partitions) change entry (by
    intro index owned key reader
    split
    · rename_i same
      rw [same, owned, memberships]
    · exact Iff.rfl)
  rw [unchanged] at rewrites
  exact rewrites

end Links

section Records

variable {Scope Entry : Type} [DecidableEq Scope] {settings : Settings Entry} {keyed : Prop}

/-- What holds of one registered record. With `keyed` it is filed under its entry's key and
the projections of that key.
-/
structure RecordSound (settings : Settings Entry) (keyed : Prop) (indexed : IndexedEntry Entry)
    : Prop where
  pending : PartitionName.pending.text ∈ indexed.memberships ↔ indexed.result = none
  inputs : ∀ (descendants : Bool) (path : JsString),
    (PartitionName.inputs descendants path).text ∈ indexed.memberships → indexed.inputs = true
  keyed : keyed → ∀ key ∈ settings.key indexed.entry,
    (PartitionName.exact key.key).text ∈ indexed.memberships
    ∧ ∀ partition ∈ actionKeyProjectionPartitions key settings.projectors,
        partition ∈ indexed.memberships

/-- The store is linked and its registered records are sound. -/
structure Represented (settings : Settings Entry) (keyed : Prop) (store : Store Scope Entry)
    : Prop where
  linked : Linked settings store
  sound : ∀ (scope : Scope) (id : JsString) (record : ℕ) (indexed : IndexedEntry Entry),
    store.recordAt scope id = some record → store.records[record]? = some indexed
    → RecordSound settings keyed indexed

/-- The rewritten record must be sound; the others still are. -/
theorem Represented.rewrites {store after : Store Scope Entry} {record : ℕ}
    {final : IndexedEntry Entry} (represented : Represented settings keyed store)
    (rewrites : Rewrites settings store after record final)
    (sound : RecordSound settings keyed final)
    : Represented settings keyed after := by
  refine ⟨rewrites.linked, fun scope id other indexed present found => ?_⟩
  by_cases same : other = record
  · subst same
    rw [rewrites.rewritten] at found
    exact Option.some.inj found ▸ sound
  · rw [rewrites.registrations] at present
    rw [rewrites.others other same] at found
    exact represented.sound scope id other indexed present found

/-- A partition's text is none of the names the store manages itself. -/
theorem projection_of_mem {key : ActionKey} {projectors : List ActionKeyProjector}
    {partition : JsString} (member : partition ∈ actionKeyProjectionPartitions key projectors)
    : ∃ projector text, partition = (PartitionName.projection projector text).text := by
  obtain ⟨projector, -, filed⟩ := List.mem_filterMap.mp (List.mem_eraseDups.mp member)
  cases found : projector.partition key with
  | none =>
      rw [found] at filed
      cases filed
  | some text =>
      rw [found] at filed
      exact ⟨projector.id, text, (Option.some.inj filed).symm⟩

/-- Keys by which an entry is addressed survive the removal of names of other kinds. -/
theorem RecordSound.keyed_filter {indexed : IndexedEntry Entry}
    (sound : RecordSound settings keyed indexed) {keys : List JsString}
    (foreign
      : ∀ key ∈ keys,
          (∀ name, key ≠ (PartitionName.exact name).text)
          ∧ ∀ projector text, key ≠ (PartitionName.projection projector text).text)
    : keyed → ∀ key ∈ settings.key indexed.entry,
        (PartitionName.exact key.key).text ∈ InvertedIndex.removeMembers indexed.memberships keys
        ∧ ∀ partition ∈ actionKeyProjectionPartitions key settings.projectors,
            partition ∈ InvertedIndex.removeMembers indexed.memberships keys := by
  intro isKeyed key own
  obtain ⟨exact, projections⟩ := sound.keyed isKeyed key own
  refine ⟨?_, fun partition member => ?_⟩
  · refine InvertedIndex.mem_removeMembers.mpr ⟨exact, fun removed => ?_⟩
    exact (foreign _ removed).1 _ rfl
  · refine InvertedIndex.mem_removeMembers.mpr ⟨projections partition member, fun removed => ?_⟩
    obtain ⟨projector, text, same⟩ := projection_of_mem member
    exact (foreign _ removed).2 projector text same

theorem Represented.sequence {store : Store Scope Entry}
    (represented : Represented settings keyed store) (sequence : ℕ)
    : Represented settings keyed { store with sequence } where
  linked := {
    allocated := represented.linked.allocated
    sole := represented.linked.sole
    filed := represented.linked.filed
    released := represented.linked.released
    inhabited := represented.linked.inhabited
  }
  sound := represented.sound

theorem Represented.empty (settings : Settings Entry) (keyed : Prop)
    : Represented settings keyed (.empty : Store Scope Entry) where
  linked := {
    allocated := fun _ _ _ present => nomatch present
    sole := fun _ _ _ _ _ present => nomatch present
    filed := fun scope key record => by
      refine ⟨fun member => absurd member List.not_mem_nil, fun filed => ?_⟩
      obtain ⟨⟨id, present⟩, -⟩ := filed
      cases present
    released := fun _ _ found => nomatch found
    inhabited := fun _ isScope => nomatch isScope
  }
  sound := fun _ _ _ _ present => nomatch present

end Records

section Mutators

variable {Scope Entry : Type} [DecidableEq Scope] [DecidableEq Entry]
  {settings : Settings Entry} {store : Store Scope Entry} {scope : Scope} {entry : Entry}
  {record : ℕ} {keyed : Prop}

/-- A record that is found is registered under its entry's id. -/
theorem Linked.recordAt_of_record (found : store.record settings scope entry = some record)
    : store.recordAt scope (settings.id entry) = some record
      ∧ ∃ indexed, store.records[record]? = some indexed ∧ indexed.entry = entry := by
  unfold Store.record at found
  unfold Store.recordAt
  cases inScope : store.scopes.get? scope with
  | none =>
      rw [inScope] at found
      cases found
  | some state =>
      rw [inScope, Option.bind_some] at found
      rw [Option.bind_some]
      cases present : state.entries.get? (settings.id entry) with
      | none =>
          rw [present] at found
          cases found
      | some other =>
          rw [present, Option.bind_some] at found
          split at found
          · rename_i same
            obtain rfl := Option.some.inj found
            obtain ⟨indexed, storedAt, owner⟩ := Option.map_eq_some_iff.mp same
            exact ⟨rfl, indexed, storedAt, owner⟩
          · cases found

section

variable (represented : Represented settings keyed store)

include represented

/-- Removing names that are neither pending nor addresses keeps a record sound. -/
theorem Represented.unindex (present : store.record settings scope entry = some record)
    (keys : List JsString)
    (foreign
      : ∀ key ∈ keys,
          key ≠ PartitionName.pending.text
          ∧ (∀ name, key ≠ (PartitionName.exact name).text)
          ∧ ∀ projector text, key ≠ (PartitionName.projection projector text).text)
    : Represented settings keyed (unindex store scope record keys) := by
  obtain ⟨registered, indexed, found, -⟩ := Linked.recordAt_of_record present
  have sound := represented.sound scope _ record indexed registered found
  refine represented.rewrites (represented.linked.unindex registered found keys) ⟨?_, ?_, ?_⟩
  · rw [← sound.pending, InvertedIndex.mem_removeMembers]
    refine ⟨And.left, fun member => ⟨member, fun removed => ?_⟩⟩
    exact (foreign _ removed).1 rfl
  · exact fun descendants path member =>
      sound.inputs descendants path (InvertedIndex.mem_removeMembers.mp member).1
  · exact sound.keyed_filter fun key removed => (foreign key removed).2

theorem Represented.invalidateInputs (scope : Scope) (entry : Entry) (resources : List JsString)
    : Represented settings keyed (invalidateInputs settings store scope entry resources) := by
  unfold CandidateStore.invalidateInputs
  split
  · rename_i record present
    split
    · exact represented
    · refine represented.unindex present _ fun key member => ?_
      obtain ⟨resource, -, named⟩ := List.mem_flatMap.mp member
      rcases List.mem_cons.mp named with path | named
      · rw [path, inputPartition]
        simp
      · rw [List.mem_singleton.mp named, inputPartition]
        simp
  · exact represented

theorem Represented.indexView (scope : Scope) (entry : Entry) (actionKey : JsString)
    (retained : Bool)
    : Represented settings keyed (indexView settings store scope entry actionKey retained) := by
  unfold CandidateStore.indexView
  split
  · rename_i record present
    dsimp only
    split
    · obtain ⟨registered, indexed, found, -⟩ := Linked.recordAt_of_record present
      have sound := represented.sound scope _ record indexed registered found
      refine represented.rewrites (represented.linked.index registered found _) ⟨?_, ?_, ?_⟩
      · rw [← sound.pending, InvertedIndex.mem_insertMembers]
        simp
      · intro descendants path member
        rw [InvertedIndex.mem_insertMembers] at member
        exact sound.inputs descendants path (by simpa using member)
      · intro isKeyed key own
        obtain ⟨exact, projections⟩ := sound.keyed isKeyed key own
        exact ⟨InvertedIndex.mem_insertMembers.mpr (.inr exact), fun partition member =>
          InvertedIndex.mem_insertMembers.mpr (.inr (projections partition member))⟩
    · refine represented.unindex present _ fun key member => ?_
      rw [List.mem_singleton.mp member]
      simp
  · exact represented

/-- Settling moves a record from pending to cached, in one step for anyone who looks. -/
theorem Represented.settleRegistered (scope : Scope) (entry : Entry) (branch : BranchInputs)
    (shared : Bool) (now : Number)
    : Represented settings keyed
        (settleRegistered settings store scope entry branch shared now) := by
  unfold CandidateStore.settleRegistered
  split
  · exact represented
  · rename_i record present
    obtain ⟨registered, indexed, found, -⟩ := Linked.recordAt_of_record present
    have sound := represented.sound scope _ record indexed registered found
    have removed := represented.linked.unindex registered found [PartitionName.pending.text]
    have registeredAfter := (removed.registrations scope _).trans registered
    have settled := removed.trans (removed.linked.modify registeredAfter removed.rewritten
      (fun indexed => {
        indexed with
        result := some (indexed.result.getD { segment := .cold, insertedAt := now, actorHits := 0 })
      }) rfl rfl)
    have foreign
        : ∀ key ∈ [PartitionName.pending.text],
            (∀ name, key ≠ (PartitionName.exact name).text)
            ∧ ∀ projector text, key ≠ (PartitionName.projection projector text).text := by
      intro key member
      rw [List.mem_singleton.mp member]
      simp
    have addressed := sound.keyed_filter foreign
    dsimp only
    split
    · have again := (settled.registrations scope _).trans registered
      have filed := settled.trans (settled.linked.index again settled.rewritten
        ((branch.inputResources.getD []).map fun input =>
          inputPartition settings.path input.1 input.2))
      have last := (filed.registrations scope _).trans registered
      refine represented.rewrites (filed.trans (filed.linked.modify last filed.rewritten
        (fun indexed => { indexed with inputs := true }) rfl rfl)) ⟨?_, ?_, ?_⟩
      · simp [InvertedIndex.mem_insertMembers, inputPartition]
      · intros
        rfl
      · intro isKeyed key own
        obtain ⟨exact, projections⟩ := addressed isKeyed key own
        exact ⟨InvertedIndex.mem_insertMembers.mpr (.inr exact), fun partition member =>
          InvertedIndex.mem_insertMembers.mpr (.inr (projections partition member))⟩
    · refine represented.rewrites settled ⟨?_, ?_, addressed⟩
      · simp
      · exact fun descendants path member =>
          sound.inputs descendants path (InvertedIndex.mem_removeMembers.mp member).1

/-- A change of the evidence of a cached record leaves it cached. -/
theorem Represented.modifyResult (present : store.record settings scope entry = some record)
    (change : IndexedEntry Entry → IndexedEntry Entry)
    (only
      : ∀ indexed ∈ store.records[record]?,
          (change indexed).entry = indexed.entry
          ∧ (change indexed).memberships = indexed.memberships
          ∧ (change indexed).inputs = indexed.inputs
          ∧ ((change indexed).result = none ↔ indexed.result = none))
    : Represented settings keyed (store.modify record change) := by
  obtain ⟨registered, indexed, found, -⟩ := Linked.recordAt_of_record present
  have sound := represented.sound scope _ record indexed registered found
  obtain ⟨entry, memberships, inputs, result⟩ := only indexed found
  refine represented.rewrites (represented.linked.modify registered found change entry memberships)
    ⟨?_, ?_, ?_⟩
  · rw [memberships, sound.pending, result]
  · rw [memberships, inputs]
    exact sound.inputs
  · rw [memberships, entry]
    exact sound.keyed

theorem Represented.noteActorHit (scope : Scope) (entry : Entry) (now : Number)
    : Represented settings keyed (noteActorHit settings store scope entry now) := by
  unfold CandidateStore.noteActorHit
  split
  · exact represented
  · rename_i record present
    split
    · exact represented
    · rename_i result cached
      refine (represented.modifyResult present _ ?_).sequence _
      intro indexed found
      rw [Option.mem_def.mp found, Option.bind_some] at cached
      exact ⟨rfl, rfl, rfl, by rw [cached]; simp⟩

theorem Represented.demote (present : store.record settings scope entry = some record)
    : Represented settings keyed (demote store record) :=
  represented.modifyResult present _ fun _ _ => ⟨rfl, rfl, rfl, Option.map_eq_none_iff⟩

end

end Mutators

section Registration

variable {Scope Entry : Type} [DecidableEq Scope]
  {settings : Settings Entry} {store : Store Scope Entry} {keyed : Prop}

theorem recordAt_register (settings : Settings Entry) (store : Store Scope Entry)
    (scope other : Scope) (entry : Entry) (name : JsString)
    : (register settings store scope entry).recordAt other name
      = if other = scope ∧ name = settings.id entry then some store.records.length
        else store.recordAt other name := by
  by_cases same : other = scope
  · subst same
    cases found : store.scopes.get? other with
    | none =>
        by_cases own : name = settings.id entry
        · simp [register, Store.recordAt, found, own, OrderedMap.get?_set]
        · simp [register, Store.recordAt, found, own, OrderedMap.get?_set, IndexedScope.empty]
    | some state => simp [register, Store.recordAt, found, OrderedMap.get?_set]
  · simp [register, Store.recordAt, OrderedMap.get?_set, same]

theorem members_register (settings : Settings Entry) (store : Store Scope Entry)
    (scope other : Scope) (entry : Entry) (key : JsString)
    : (register settings store scope entry).members other key = store.members other key := by
  by_cases same : other = scope
  · subst same
    cases found : store.scopes.get? other with
    | none =>
        simp [register, Store.members, found, OrderedMap.get?_set, IndexedScope.empty]
    | some state => simp [register, Store.members, found, OrderedMap.get?_set]
  · simp [register, Store.members, OrderedMap.get?_set, same]

/-- Every registered record was allocated. -/
theorem Linked.lt_length (linked : Linked settings store) {scope : Scope} {id : JsString}
    {record : ℕ} (present : store.recordAt scope id = some record)
    : record < store.records.length := by
  obtain ⟨indexed, found, -⟩ := linked.allocated scope id record present
  exact (List.getElem?_eq_some_iff.mp found).1

theorem getElem?_register_of_lt (settings : Settings Entry) (store : Store Scope Entry)
    (scope : Scope) (entry : Entry) {record : ℕ} (allocated : record < store.records.length)
    : (register settings store scope entry).records[record]? = store.records[record]? :=
  List.getElem?_append_left allocated

theorem getElem?_register_self (settings : Settings Entry) (store : Store Scope Entry)
    (scope : Scope) (entry : Entry)
    : (register settings store scope entry).records[store.records.length]?
      = some { entry, memberships := [], recency := store.sequence } :=
  List.getElem?_concat_length

/-- A fresh record under a free id keeps the links: nothing refers to it yet. -/
theorem Linked.register (linked : Linked settings store) {scope : Scope} {entry : Entry}
    (free : store.recordAt scope (settings.id entry) = none)
    : Linked settings (register settings store scope entry) := by
  have old {other : Scope} {name : JsString} {record : ℕ}
      (present : store.recordAt other name = some record)
      : (CandidateStore.register settings store scope entry).recordAt other name = some record := by
    rw [recordAt_register, if_neg, present]
    intro both
    rw [both.1, both.2, free] at present
    cases present
  have either {other : Scope} {name : JsString} {record : ℕ}
      (present
        : (CandidateStore.register settings store scope entry).recordAt other name = some record)
      : (other = scope ∧ name = settings.id entry ∧ record = store.records.length)
        ∨ record < store.records.length ∧ store.recordAt other name = some record := by
    rw [recordAt_register] at present
    split at present
    · rename_i both
      exact .inl ⟨both.1, both.2, (Option.some.inj present).symm⟩
    · exact .inr ⟨linked.lt_length present, present⟩
  refine ⟨?_, ?_, ?_, ?_, ?_⟩
  · intro other name record present
    rcases either present with fresh | before
    · obtain ⟨-, named, new⟩ := fresh
      rw [new, named]
      exact ⟨_, getElem?_register_self .., rfl⟩
    · obtain ⟨allocated, present⟩ := before
      rw [getElem?_register_of_lt _ _ _ _ allocated]
      exact linked.allocated other name record present
  · intro first second left right record here there
    rcases either here with fresh | before
    · rcases either there with again | later
      · exact fresh.1.trans again.1.symm
      · exact absurd later.1 (fresh.2.2 ▸ Nat.lt_irrefl _)
    · rcases either there with again | later
      · exact absurd before.1 (again.2.2 ▸ Nat.lt_irrefl _)
      · exact linked.sole first second left right record before.2 later.2
  · intro other key record
    rw [members_register, linked.filed]
    constructor
    · intro filed
      obtain ⟨⟨name, present⟩, stored⟩ := filed
      rw [getElem?_register_of_lt _ _ _ _ (linked.lt_length present)]
      exact ⟨⟨name, old present⟩, stored⟩
    · intro filed
      obtain ⟨⟨name, present⟩, indexed, stored, member⟩ := filed
      rcases either present with fresh | before
      · rw [fresh.2.2, getElem?_register_self] at stored
        rw [← Option.some.inj stored] at member
        cases member
      · rw [getElem?_register_of_lt _ _ _ _ before.1] at stored
        exact ⟨⟨name, before.2⟩, indexed, stored, member⟩
  · intro record indexed stored unregistered
    by_cases allocated : record < store.records.length
    · rw [getElem?_register_of_lt _ _ _ _ allocated] at stored
      exact linked.released record indexed stored fun other name present =>
        unregistered other name (old present)
    · have new : record = store.records.length := by
        have bound := (List.getElem?_eq_some_iff.mp stored).1
        have size
            : (CandidateStore.register settings store scope entry).records.length
              = store.records.length + 1 := List.length_append
        omega
      refine absurd ?_ (unregistered scope (settings.id entry))
      rw [recordAt_register, if_pos ⟨rfl, rfl⟩, new]
  · intro other isScope
    by_cases same : other = scope
    · exact ⟨settings.id entry, store.records.length, by
        rw [recordAt_register, if_pos ⟨same, rfl⟩]⟩
    · have before : (store.scopes.get? other).isSome := by
        rw [CandidateStore.register] at isScope
        simpa [OrderedMap.get?_set, same] using isScope
      obtain ⟨name, record, present⟩ := linked.inhabited other before
      exact ⟨name, record, old present⟩

theorem Represented.add (represented : Represented settings keyed store) (scope : Scope)
    (entry : Entry) {partitions : List JsString}
    (projections
      : ∀ partition ∈ partitions,
          ∃ projector text, partition = (PartitionName.projection projector text).text)
    (complete
      : keyed → ∀ key ∈ settings.key entry,
          ∀ partition ∈ actionKeyProjectionPartitions key settings.projectors,
            partition ∈ partitions)
    : Represented settings keyed (add settings store scope entry partitions).1 := by
  unfold CandidateStore.add
  dsimp only
  split
  · exact represented
  · rename_i absent
    have free : store.recordAt scope (settings.id entry) = none := by
      unfold Store.recordAt
      cases found : store.scopes.get? scope with
      | none => rfl
      | some state =>
          rw [found] at absent
          exact absent
    have registered
        : (register settings store scope entry).recordAt scope (settings.id entry)
          = some store.records.length := by
      rw [recordAt_register, if_pos ⟨rfl, rfl⟩]
    have rewrites := (represented.linked.register free).index registered
      (getElem?_register_self settings store scope entry)
      (PartitionName.pending.text
        :: ((settings.key entry).map fun key => (PartitionName.exact key.key).text).toList
        ++ partitions)
    refine ⟨rewrites.linked, fun other name record indexed present found => ?_⟩
    rw [rewrites.registrations] at present
    by_cases same : record = store.records.length
    · rw [same, rewrites.rewritten] at found
      rw [← Option.some.inj found]
      refine ⟨?_, ?_, ?_⟩
      · simp [InvertedIndex.mem_insertMembers]
      · intro descendants path member
        simp only [InvertedIndex.mem_insertMembers, List.cons_append, List.mem_cons,
          List.mem_append, PartitionName.text_inj, reduceCtorEq, Option.mem_toList,
          Option.map_eq_some_iff, and_false, exists_false, List.not_mem_nil, false_or,
          or_false] at member
        obtain ⟨projector, text, named⟩ := projections _ member
        cases PartitionName.text_injective named
      · intro isKeyed key own
        refine ⟨?_, fun partition member => ?_⟩
        · simp [InvertedIndex.mem_insertMembers, Option.mem_def.mp own]
        · simp [InvertedIndex.mem_insertMembers, complete isKeyed key own partition member]
    · rw [rewrites.others record same] at found
      rw [recordAt_register] at present
      split at present
      · exact absurd (Option.some.inj present).symm same
      · rw [getElem?_register_of_lt _ _ _ _ (represented.linked.lt_length present)] at found
        exact represented.sound other name record indexed present found

theorem Represented.insert (represented : Represented settings keyed store) (scope : Scope)
    (entry : Entry)
    : Represented settings keyed (insert settings store scope entry).1 := by
  unfold CandidateStore.insert
  split
  · exact represented
  · refine represented.add scope entry ?_ ?_
    · intro partition member
      split at member
      · exact projection_of_mem member
      · cases member
    · intro _ key own partition member
      rw [Option.mem_def.mp own]
      exact member

/-- An entry created for a key is filed under that key's projections. -/
theorem Represented.create (represented : Represented settings keyed store) (scope : Scope)
    {key : ActionKey} {create : Entry} (promised : keyed → settings.key create = some key)
    : Represented settings keyed
        (CandidateStore.add settings store scope create
          (actionKeyProjectionPartitions key settings.projectors)).1 := by
  refine represented.add scope create (fun partition member => projection_of_mem member) ?_
  intro isKeyed other own partition member
  rw [promised isKeyed] at own
  exact Option.some.inj own ▸ member

end Registration

section Deletion

variable {Scope Entry : Type} [DecidableEq Scope] [DecidableEq Entry]

/-- What a successful deletion leaves: the id is free, no partition names the record, and
the record itself is filed nowhere.
-/
structure Deleted (settings : Settings Entry) (store after : Store Scope Entry) (scope : Scope)
    (id : JsString) (record : ℕ)
    : Prop where
  registrations : ∀ (other : Scope) (name : JsString),
    after.recordAt other name
      = if other = scope ∧ name = id then none else store.recordAt other name
  members : ∀ (other : Scope) (key : JsString) (reader : ℕ),
    reader ∈ after.members other key ↔ reader ∈ store.members other key ∧ reader ≠ record
  emptied : ∀ indexed ∈ after.records[record]?, indexed.memberships = []
  others : ∀ other : ℕ, other ≠ record → after.records[other]? = store.records[other]?
  inhabited : ∀ other : Scope,
    (after.scopes.get? other).isSome → ∃ name reader, after.recordAt other name = some reader

theorem Linked.delete {settings : Settings Entry} {store : Store Scope Entry}
    (linked : Linked settings store) {scope : Scope} {entry : Entry} {record : ℕ}
    (present : store.record settings scope entry = some record)
    : Deleted settings store (delete settings store scope entry).1 scope (settings.id entry)
        record := by
  obtain ⟨registered, indexed, found, -⟩ := Linked.recordAt_of_record present
  obtain ⟨state, inScope, entryAt⟩ := Option.bind_eq_some_iff.mp registered
  -- only the record itself is filed under its memberships and named by nothing else
  have cleared (key : JsString) (reader : ℕ)
      : reader ∈ (state.partitions.removeAll indexed.memberships record).members key
        ↔ reader ∈ store.members scope key ∧ reader ≠ record := by
    have named : store.members scope key = state.partitions.members key := by
      rw [Store.members, inScope]
    rw [InvertedIndex.mem_members_removeAll, named]
    refine and_congr_right fun member => ⟨fun kept same => kept ⟨?_, same⟩, fun other both => ?_⟩
    · obtain ⟨-, stored, storedAt, filed⟩ := (linked.filed scope key reader).mp (named ▸ member)
      rw [same, found] at storedAt
      exact Option.some.inj storedAt ▸ filed
    · exact other both.2
  let left : IndexedScope := {
    entries := state.entries.delete (settings.id entry)
    partitions := state.partitions.removeAll indexed.memberships record
  }
  let released : Store Scope Entry := {
    scopes := (store.scopes.set scope { state with entries := left.entries }).set scope left
    records := store.records.modify record fun stored => {
      stored with memberships := InvertedIndex.removeMembers stored.memberships indexed.memberships
    }
    sequence := store.sequence
  }
  have result
      : (CandidateStore.delete settings store scope entry).1
        = if left.entries.keys = [] then { released with scopes := released.scopes.delete scope }
          else released := by
    simp only [CandidateStore.delete, present, inScope, found, Option.map_some, Option.getD_some,
      CandidateStore.unindex, Store.modifyPartitions, OrderedMap.get?_set, if_true, Store.modify]
    rfl
  have records
      : (CandidateStore.delete settings store scope entry).1.records = released.records := by
    rw [result]
    split <;> rfl
  have scopes (other : Scope)
      : (CandidateStore.delete settings store scope entry).1.scopes.get? other
        = if other = scope then if left.entries.keys = [] then none else some left
          else store.scopes.get? other := by
    rw [result]
    by_cases same : other = scope
    · by_cases last : left.entries.keys = []
      · simp [last, same, OrderedMap.get?_delete]
      · simp [last, same, released, OrderedMap.get?_set]
    · by_cases last : left.entries.keys = []
      · simp [last, same, released, OrderedMap.get?_delete, OrderedMap.get?_set]
      · simp [last, same, released, OrderedMap.get?_set]
  have registrations (other : Scope) (name : JsString)
      : (CandidateStore.delete settings store scope entry).1.recordAt other name
        = if other = scope ∧ name = settings.id entry then none
          else store.recordAt other name := by
    rw [Store.recordAt, scopes]
    by_cases same : other = scope
    · have rest : store.recordAt other name = state.entries.get? name := by
        rw [Store.recordAt, same, inScope, Option.bind_some]
      rw [if_pos same, rest]
      by_cases last : left.entries.keys = []
      · have gone : left.entries.get? name = none :=
          OrderedMap.get?_eq_none_iff.mpr (last ▸ List.not_mem_nil)
        rw [OrderedMap.get?_delete] at gone
        rw [if_pos last, Option.bind_none]
        by_cases own : name = settings.id entry
        · rw [if_pos ⟨same, own⟩]
        · rw [if_neg own] at gone
          rw [if_neg fun both => own both.2, gone]
      · rw [if_neg last, Option.bind_some, OrderedMap.get?_delete]
        simp [same]
    · rw [if_neg same, if_neg fun both => same both.1, Store.recordAt]
  refine ⟨registrations, ?_, ?_, ?_, ?_⟩
  · intro other key reader
    rw [Store.members, scopes]
    by_cases same : other = scope
    · subst same
      rw [if_pos rfl]
      by_cases last : left.entries.keys = []
      · rw [if_pos last]
        refine ⟨fun member => absurd member List.not_mem_nil, fun kept => ?_⟩
        obtain ⟨⟨name, there⟩, -⟩ := (linked.filed other key reader).mp kept.1
        -- the scope has no other registration left
        have own : name = settings.id entry := by
          by_contra different
          have still := registrations other name
          rw [if_neg fun both => different both.2, there, Store.recordAt, scopes, if_pos rfl,
            if_pos last] at still
          cases still
        rw [own, registered] at there
        exact absurd (Option.some.inj there).symm kept.2
      · rw [if_neg last]
        exact cleared key reader
    · rw [if_neg same]
      refine ⟨fun member => ⟨member, fun own => ?_⟩, And.left⟩
      obtain ⟨⟨name, there⟩, -⟩ := (linked.filed other key reader).mp member
      exact same (linked.sole other scope name _ record (own ▸ there) registered)
  · intro stored storedAt
    rw [Option.mem_def, records] at storedAt
    rw [List.getElem?_modify_eq, found] at storedAt
    rw [← Option.some.inj storedAt]
    refine List.eq_nil_iff_forall_not_mem.mpr fun key member => ?_
    exact (InvertedIndex.mem_removeMembers.mp member).2
      (InvertedIndex.mem_removeMembers.mp member).1
  · intro other different
    rw [records]
    simp [released, Ne.symm different]
  · intro other isScope
    rw [scopes] at isScope
    by_cases same : other = scope
    · rw [if_pos same] at isScope
      by_cases last : left.entries.keys = []
      · rw [if_pos last] at isScope
        cases isScope
      · obtain ⟨name, rest⟩ := List.exists_mem_of_ne_nil _ last
        obtain ⟨reader, stored⟩ := OrderedMap.mem_keys_iff.mp rest
        refine ⟨name, reader, ?_⟩
        rw [Store.recordAt, scopes, if_pos same, if_neg last]
        exact stored
    · rw [if_neg same] at isScope
      obtain ⟨name, reader, there⟩ := linked.inhabited other isScope
      exact ⟨name, reader, by rw [registrations, if_neg fun both => same both.1, there]⟩

theorem Represented.delete {settings : Settings Entry} {keyed : Prop} {store : Store Scope Entry}
    (represented : Represented settings keyed store) (scope : Scope) (entry : Entry)
    : Represented settings keyed (delete settings store scope entry).1 := by
  cases present : store.record settings scope entry with
  | none =>
      unfold CandidateStore.delete
      rw [present]
      exact represented
  | some record =>
      have deleted := represented.linked.delete present
      obtain ⟨registered, -⟩ := Linked.recordAt_of_record present
      have linked := represented.linked
      have before {other : Scope} {name : JsString} {reader : ℕ}
          (there
            : (CandidateStore.delete settings store scope entry).1.recordAt other name
              = some reader)
          : store.recordAt other name = some reader ∧ reader ≠ record := by
        rw [deleted.registrations] at there
        split at there
        · cases there
        · rename_i different
          refine ⟨there, fun same => different ?_⟩
          rw [same] at there
          exact ⟨linked.sole _ _ _ _ _ there registered, linked.same_id there registered⟩
      have after {other : Scope} {name : JsString} {reader : ℕ}
          (there : store.recordAt other name = some reader) (different : reader ≠ record)
          : (CandidateStore.delete settings store scope entry).1.recordAt other name
            = some reader := by
        rw [deleted.registrations, if_neg, there]
        intro both
        rw [both.1, both.2, registered] at there
        exact different (Option.some.inj there).symm
      refine ⟨⟨?_, ?_, ?_, ?_, deleted.inhabited⟩, ?_⟩
      · intro other name reader there
        obtain ⟨there, different⟩ := before there
        rw [deleted.others reader different]
        exact linked.allocated other name reader there
      · intro first second left right reader here there
        exact linked.sole first second left right reader (before here).1 (before there).1
      · intro other key reader
        rw [deleted.members, linked.filed]
        constructor
        · intro filed
          obtain ⟨⟨⟨name, there⟩, stored⟩, different⟩ := filed
          rw [deleted.others reader different]
          exact ⟨⟨name, after there different⟩, stored⟩
        · intro filed
          obtain ⟨⟨name, there⟩, stored⟩ := filed
          obtain ⟨there, different⟩ := before there
          rw [deleted.others reader different] at stored
          exact ⟨⟨⟨name, there⟩, stored⟩, different⟩
      · intro reader indexed stored free
        by_cases same : reader = record
        · exact deleted.emptied indexed (same ▸ stored)
        · rw [deleted.others reader same] at stored
          exact linked.released reader indexed stored fun other name there =>
            free other name (after there same)
      · intro other name reader indexed there stored
        obtain ⟨there, different⟩ := before there
        rw [deleted.others reader different] at stored
        exact represented.sound other name reader indexed there stored

end Deletion

section Runs

variable {Scope Entry : Type} [DecidableEq Scope] [DecidableEq Entry]
  {settings : Settings Entry} {keyed : Prop} {store : Store Scope Entry}
  {retire : Store Scope Entry → ℕ → Entry → Store Scope Entry}

theorem Represented.getOrCreate (represented : Represented settings keyed store) (scope : Scope)
    {key : ActionKey} {create : Entry} (promised : keyed → settings.key create = some key)
    (canReuse : Entry → KeyMatch → Bool)
    : Represented settings keyed (getOrCreate settings store scope key create canReuse).1 := by
  unfold CandidateStore.getOrCreate
  dsimp only
  split
  · exact represented
  · exact represented.create scope promised

/-- Retiring keeps what every single retirement keeps, by induction over the ranking. -/
theorem Represented.retireRanked (retirement : Retirement Entry) (scope : Scope)
    (one
      : ∀ (store : Store Scope Entry) (record : ℕ) (entry : Entry),
          Represented settings keyed store
          → store.record settings scope entry = some record
          → Represented settings keyed (retire store record entry))
    (maxEntries maxBytes : ℕ) (ranked : List (RankedEntry Entry)) (store : Store Scope Entry)
    (count : ℕ) (bytes : ℚ) (represented : Represented settings keyed store)
    : Represented settings keyed
        (retireRanked settings retirement retire scope maxEntries maxBytes ranked store count
          bytes).1 := by
  induction ranked generalizing store count bytes with
  | nil => exact represented
  | cons item rest ih =>
      unfold CandidateStore.retireRanked
      split
      · exact represented
      · split
        · rename_i retires
          exact ih _ _ _ (one store item.indexed item.entry represented retires.2.1)
        · exact ih _ _ _ represented

theorem Represented.retireExcess (represented : Represented settings keyed store)
    (retirement : Retirement Entry) (scope : Scope)
    (one
      : ∀ (store : Store Scope Entry) (record : ℕ) (entry : Entry),
          Represented settings keyed store
          → store.record settings scope entry = some record
          → Represented settings keyed (retire store record entry))
    (entries : List Entry) (limits : ResultCacheLimits)
    : Represented settings keyed
        (retireExcess settings retirement store scope entries limits retire).1 := by
  unfold CandidateStore.retireExcess
  dsimp only
  split
  · exact represented
  · exact Represented.retireRanked retirement scope one _ _ _ _ _ _ represented

theorem Represented.recordActorHit (represented : Represented settings keyed store)
    (retirement : Retirement Entry) (scope : Scope) (entry : Entry)
    (limits : Option ResultCacheLimits)
    : Represented settings keyed
        (recordActorHit settings retirement store scope entry limits).1 := by
  have hit := represented.noteActorHit scope entry retirement.now
  unfold CandidateStore.recordActorHit
  dsimp only
  split
  · refine hit.retireExcess _ scope ?_ _ _
    exact fun store record entry represented present => represented.demote present
  · exact hit

/-- The caller's promise about the entries it creates for a key. -/
def Action.Promised (settings : Settings Entry) : Action Scope Entry → Prop
  | .getOrCreate _ key create _ | .add _ key create => settings.key create = some key
  | _ => True

/-- Each operation, and each part of one, keeps the representation. -/
theorem Represented.step (represented : Represented settings keyed store)
    (action : Action Scope Entry) (promised : keyed → action.Promised settings)
    : Represented settings keyed (step settings store action) := by
  cases action with
  | insert scope entry => exact represented.insert scope entry
  | getOrCreate scope key create canReuse =>
      exact represented.getOrCreate scope promised canReuse
  | settle scope entry branch now shared =>
      exact (represented.insert scope entry).settleRegistered scope entry branch shared now
  | invalidateInputs scope entry resources =>
      exact represented.invalidateInputs scope entry resources
  | indexView scope entry actionKey retained =>
      exact represented.indexView scope entry actionKey retained
  | delete scope entry => exact represented.delete scope entry
  | trim retirement scope limits =>
      exact represented.retireExcess retirement scope
        (fun store record entry represented _ => represented.delete scope entry) _ limits
  | recordActorHit retirement scope entry limits =>
      exact represented.recordActorHit retirement scope entry limits
  | add scope key create => exact represented.create scope promised
  | settleRegistered scope entry branch now shared =>
      exact represented.settleRegistered scope entry branch shared now
  | noteActorHit scope entry now => exact represented.noteActorHit scope entry now
  | demote scope entry =>
      unfold CandidateStore.step demoteEntry
      dsimp only
      split
      · rename_i record present
        exact represented.demote present
      · exact represented

theorem afterActions_represented_of_promised (settings : Settings Entry) (keyed : Prop)
    (actions : List (Action Scope Entry))
    (promised : keyed → ∀ action ∈ actions, action.Promised settings)
    : Represented settings keyed (afterActions settings actions) :=
  runAll_invariant_of_allowed (Represented settings keyed)
    (fun action => keyed → action.Promised settings) (.empty settings keyed)
    (fun _ action promised represented => represented.step action promised) actions
    (fun action member isKeyed => promised isKeyed action member)

/-- An entry whose work is still to settle. -/
def IndexedEntry.IsPending (indexed : IndexedEntry Entry) : Prop :=
  units "pending" ∈ indexed.memberships ∧ indexed.result = none

/-- An entry whose result is kept. -/
def IndexedEntry.IsCached (indexed : IndexedEntry Entry) : Prop :=
  indexed.result.isSome ∧ units "pending" ∉ indexed.memberships

/-- The index of every scope says what the records of that scope say. -/
structure Representation (settings : Settings Entry) (store : Store Scope Entry) : Prop where
  /-- A partition names exactly the registered records filed under its key. -/
  filed : ∀ (scope : Scope) (state : IndexedScope), store.scopes.get? scope = some state
    → ∀ (key : JsString) (record : ℕ),
        record ∈ state.partitions.members key
        ↔ ∃ id indexed,
            state.entries.get? id = some record
            ∧ store.records[record]? = some indexed
            ∧ key ∈ indexed.memberships
  noEmptyPartition : ∀ (scope : Scope) (state : IndexedScope),
    store.scopes.get? scope = some state
    → ∀ (key : JsString) (members : List ℕ),
        state.partitions.buckets.get? key = some members → members ≠ []
  noEmptyScope : ∀ (scope : Scope) (state : IndexedScope),
    store.scopes.get? scope = some state → state.entries.keys ≠ []
  /-- A record no scope has registered is named by no partition, and is filed nowhere. -/
  deleted : ∀ (record : ℕ) (indexed : IndexedEntry Entry), store.records[record]? = some indexed
    → (∀ (scope : Scope) (state : IndexedScope), store.scopes.get? scope = some state
        → ∀ id, state.entries.get? id ≠ some record)
    → indexed.memberships = []
      ∧ ∀ (scope : Scope) (state : IndexedScope), store.scopes.get? scope = some state
        → ∀ key, record ∉ state.partitions.members key
  /-- A registered entry is pending or cached, and not both. -/
  pendingOrCached : ∀ (scope : Scope) (state : IndexedScope),
    store.scopes.get? scope = some state
    → ∀ (id : JsString) (record : ℕ), state.entries.get? id = some record
    → ∃ indexed,
        store.records[record]? = some indexed
        ∧ settings.id indexed.entry = id
        ∧ (indexed.IsPending ∨ indexed.IsCached)
        ∧ ¬(indexed.IsPending ∧ indexed.IsCached)

/-- Both sides of the index agree after any operations, whatever runs between their parts. -/
theorem afterActions_representation (settings : Settings Entry)
    (actions : List (Action Scope Entry))
    : Representation settings (afterActions settings actions) := by
  have represented : Represented settings False (afterActions settings actions) :=
    afterActions_represented_of_promised settings False actions fun impossible => impossible.elim
  have linked := represented.linked
  have recordAt {scope : Scope} {state : IndexedScope}
      (inScope : (afterActions settings actions).scopes.get? scope = some state) (id : JsString)
      : (afterActions settings actions).recordAt scope id = state.entries.get? id := by
    rw [Store.recordAt, inScope, Option.bind_some]
  have members {scope : Scope} {state : IndexedScope}
      (inScope : (afterActions settings actions).scopes.get? scope = some state) (key : JsString)
      : (afterActions settings actions).members scope key = state.partitions.members key := by
    rw [Store.members, inScope]
  have registered {scope : Scope} {id : JsString} {record : ℕ}
      (present : (afterActions settings actions).recordAt scope id = some record)
      : ∃ state,
          (afterActions settings actions).scopes.get? scope = some state
          ∧ state.entries.get? id = some record :=
    Option.bind_eq_some_iff.mp present
  refine ⟨?_, ?_, ?_, ?_, ?_⟩
  · intro scope state inScope key record
    rw [← members inScope, linked.filed]
    simp only [recordAt inScope]
    constructor
    · intro filed
      obtain ⟨⟨id, present⟩, indexed, found, member⟩ := filed
      exact ⟨id, indexed, present, found, member⟩
    · intro filed
      obtain ⟨id, indexed, present, found, member⟩ := filed
      exact ⟨⟨id, present⟩, indexed, found, member⟩
  · exact fun scope state _ key bucket stored => (state.partitions.sound key bucket stored).1
  · intro scope state inScope empty
    obtain ⟨id, record, present⟩ := linked.inhabited scope (by rw [inScope]; rfl)
    rw [recordAt inScope] at present
    exact List.not_mem_nil (empty ▸ OrderedMap.mem_keys_iff.mpr ⟨record, present⟩)
  · intro record indexed found unregistered
    have free (scope : Scope) (id : JsString)
        : (afterActions settings actions).recordAt scope id ≠ some record := by
      intro present
      obtain ⟨state, inScope, entryAt⟩ := registered present
      exact unregistered scope state inScope id entryAt
    refine ⟨linked.released record indexed found free, fun scope state inScope key member => ?_⟩
    rw [← members inScope, linked.filed] at member
    obtain ⟨⟨id, present⟩, -⟩ := member
    exact free scope id present
  · intro scope state inScope id record present
    rw [← recordAt inScope] at present
    obtain ⟨indexed, found, named⟩ := linked.allocated scope id record present
    have pending : units "pending" ∈ indexed.memberships ↔ indexed.result = none :=
      (represented.sound scope id record indexed present found).pending
    refine ⟨indexed, found, named, ?_, fun both => both.2.2 both.1.1⟩
    cases evidence : indexed.result with
    | none => exact .inl ⟨pending.mpr evidence, evidence⟩
    | some result =>
        refine .inr ⟨by rw [evidence]; rfl, fun member => ?_⟩
        rw [pending.mp member] at evidence
        cases evidence

end Runs

end SpeculativeAction.CandidateStore
