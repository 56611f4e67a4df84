import SpeculativeAction.CandidateStore.Representation

/-! Looking an action up through the index finds what a scan of all registrations finds.
-/

namespace SpeculativeAction.CandidateStore

open SpeculativeAction.Library
open SpeculativeAction.ActionSemantics

section Scan

variable {Scope Entry : Type} [DecidableEq Scope]

/-- How far above the action's resources the nearest retained input of a record lies. -/
def inputDepth (settings : Settings Entry) (store : Store Scope Entry) (scope : Scope)
    (action : ActionKey) (record : ℕ)
    : ℕ :=
  ((inputRecords settings store scope (resourcePaths settings.path action)).get? record).getD 0

/-- A registered entry answers by its key, or when no coverage is asked by inputs it retains
or by a view of the action.
-/
def scan (settings : Settings Entry) (store : Store Scope Entry) (scope : Scope)
    (action : ActionKey) (requireCoverage : Option (Entry → Bool)) (includeInputs : Bool)
    (record : ℕ)
    : Option (CandidateLookup Entry) :=
  store.records[record]?.bind fun indexed =>
    let coverage := requireCoverage.any fun required => required indexed.entry
    let byKey := (settings.key indexed.entry).bind fun key =>
      actionKeyMatch key action settings.projectors coverage
    let byInputs : Option KeyMatch :=
      if coverage = false ∧ includeInputs = true
          ∧ (indexed.inputs = true
            ∨ indexed.memberships.contains (PartitionName.view action.key).text = true) then
        some (.inputs (9007199254740991 - 1024
          + min (inputDepth settings store scope action record) 1024 : ℕ))
      else none
    (byKey.or byInputs).map fun found => { entry := indexed.entry, found }

/-- Ask every registered entry in turn. -/
def fullScan (settings : Settings Entry) (store : Store Scope Entry) (scope : Scope)
    (action : ActionKey) (requireCoverage : Option (Entry → Bool)) (includeInputs : Bool)
    : List (CandidateLookup Entry) :=
  (store.registered scope).filterMap
    (scan settings store scope action requireCoverage includeInputs)

end Scan

section Owners

variable {Scope Entry : Type} [DecidableEq Scope]
  {inputs : OrderedMap ℕ ℕ} {record : ℕ} {store : Store Scope Entry} {scope : Scope}
  {settings : Settings Entry} {indexed : IndexedEntry Entry}

/-- Noting owners again adds no one, by induction over the records filed under the key. -/
theorem keys_noteInputs {state : IndexedScope} {key : JsString} {depth : ℕ} {owner : ℕ → Prop}
    (known : ∀ record, record ∈ inputs.keys ↔ owner record)
    (filed : ∀ record ∈ state.partitions.members key, owner record)
    : ∀ record, record ∈ (noteInputs state inputs key depth).keys ↔ owner record := by
  refine List.foldlRecOn (motive := fun inputs : OrderedMap ℕ ℕ =>
    ∀ record, record ∈ inputs.keys ↔ owner record) _ _ known ?_
  intro before known member listed record
  rw [OrderedMap.mem_keys_set, known]
  refine ⟨fun either => ?_, .inr⟩
  rcases either with same | before
  · exact same ▸ filed member listed
  · exact before

/-- The keys after setting every listed one. -/
theorem mem_keys_setEach {records : List ℕ} {depth : ℕ}
    : record ∈ (records.foldl (fun inputs record => inputs.set record depth) inputs).keys
      ↔ record ∈ records ∨ record ∈ inputs.keys := by
  induction records generalizing inputs with
  | nil => simp
  | cons first rest ih =>
      rw [List.foldl_cons, ih, OrderedMap.mem_keys_set, List.mem_cons]
      tauto

theorem mem_registered
    : record ∈ store.registered scope ↔ ∃ id, store.recordAt scope id = some record := by
  unfold Store.registered Store.recordAt
  cases store.scopes.get? scope with
  | none =>
      refine ⟨fun member => absurd member List.not_mem_nil, fun present => ?_⟩
      obtain ⟨id, absent⟩ := present
      cases absent
  | some state => exact OrderedMap.mem_values_iff

theorem nodup_registered (linked : Linked settings store) (scope : Scope)
    : (store.registered scope).Nodup := by
  unfold Store.registered
  cases inScope : store.scopes.get? scope with
  | none => exact List.nodup_nil
  | some state =>
      refine OrderedMap.values_nodup fun left right record here there => ?_
      have recordAt (id : JsString) : store.recordAt scope id = state.entries.get? id := by
        rw [Store.recordAt, inScope, Option.bind_some]
      rw [← recordAt] at here there
      exact linked.same_id here there

/-- A registered record that retains inputs. -/
def OwnsInputs (store : Store Scope Entry) (scope : Scope) (record : ℕ) : Prop :=
  record ∈ store.registered scope ∧ store.records[record]?.any (·.inputs) = true

/-- The owners of inputs are the registered records that retain some. -/
theorem mem_keys_inputRecords {keyed : Prop} (represented : Represented settings keyed store)
    (scope : Scope) (resources : List JsString)
    : ∀ record : ℕ,
        record ∈ (inputRecords settings store scope resources).keys
        ↔ OwnsInputs store scope record := by
  unfold inputRecords
  cases inScope : store.scopes.get? scope with
  | none =>
      intro record
      simp [OwnsInputs, Store.registered, inScope]
  | some state =>
      have registered : store.registered scope = state.entries.values := by
        rw [Store.registered, inScope]
      have owned (descendants : Bool) (path : JsString)
          : ∀ record ∈ state.partitions.members (inputPartition settings.path path descendants),
              OwnsInputs store scope record := by
        intro record member
        have filed : record ∈ store.members scope (inputPartition settings.path path descendants) := by
          rw [Store.members, inScope]
          exact member
        obtain ⟨⟨id, present⟩, indexed, found, named⟩ :=
          (represented.linked.filed _ _ _).mp filed
        refine ⟨mem_registered.mpr ⟨id, present⟩, ?_⟩
        rw [found]
        exact (represented.sound scope id record indexed present found).inputs _ _ named
      have base (record : ℕ)
          : record ∈ ((state.entries.values.filter fun record =>
                store.records[record]?.any (·.inputs)).foldl
              (fun inputs record => inputs.set record 1024) OrderedMap.empty).keys
            ↔ OwnsInputs store scope record := by
        rw [mem_keys_setEach, OwnsInputs, registered, List.mem_filter]
        simp
      -- every step of the walk up from a resource only notes owners
      refine List.foldlRecOn (motive := fun inputs : OrderedMap ℕ ℕ =>
        ∀ record, record ∈ inputs.keys ↔ OwnsInputs store scope record) _ _ base ?_
      intro inputs known resource _
      refine List.foldlRecOn (motive := fun inputs : OrderedMap ℕ ℕ =>
        ∀ record, record ∈ inputs.keys ↔ OwnsInputs store scope record) _ _ known ?_
      intro inputs known level _
      refine List.foldlRecOn (motive := fun inputs : OrderedMap ℕ ℕ =>
        ∀ record, record ∈ inputs.keys ↔ OwnsInputs store scope record) _ _ known ?_
      intro inputs known key listed
      refine keys_noteInputs known ?_
      split at listed
      · rcases List.mem_cons.mp listed with path | tree
        · exact path ▸ owned false _
        · exact List.mem_singleton.mp tree ▸ owned true _
      · exact List.mem_singleton.mp listed ▸ owned true _

theorem filed_iff (linked : Linked settings store) (registered : record ∈ store.registered scope)
    (found : store.records[record]? = some indexed) (key : JsString)
    : record ∈ store.members scope key ↔ key ∈ indexed.memberships := by
  rw [linked.filed]
  constructor
  · intro filed
    obtain ⟨-, stored, storedAt, member⟩ := filed
    rw [found] at storedAt
    exact Option.some.inj storedAt ▸ member
  · exact fun member => ⟨mem_registered.mp registered, indexed, found, member⟩

theorem mem_consultedInputs {keyed : Prop} (represented : Represented settings keyed store)
    (scope : Scope) (action : ActionKey) (includeInputs : Bool) (record : ℕ)
    : record ∈ (consultedInputs settings store scope action includeInputs).keys
      ↔ includeInputs = true ∧ OwnsInputs store scope record := by
  unfold consultedInputs
  cases includeInputs with
  | true => simpa using mem_keys_inputRecords represented scope _ record
  | false => simp

theorem mem_consultedViews {action : ActionKey} {includeInputs : Bool}
    : record ∈ consultedViews store scope action includeInputs
      ↔ includeInputs = true
        ∧ record ∈ store.members scope (PartitionName.view action.key).text := by
  unfold consultedViews
  cases includeInputs <;> simp

/-- An entry that answers by its key is filed where the lookup reads: under the exact key,
or under a projection of the action.
-/
theorem mem_of_actionKeyMatch {key action : ActionKey} {coverage : Bool} {found : KeyMatch}
    (sound : RecordSound settings True indexed) (own : settings.key indexed.entry = some key)
    (lawful : ∀ projector ∈ settings.projectors, projector.Lawful)
    (matched : actionKeyMatch key action settings.projectors coverage = some found)
    : (PartitionName.exact action.key).text ∈ indexed.memberships
      ∨ ∃ partition ∈ actionKeyProjectionPartitions action settings.projectors,
          partition ∈ indexed.memberships := by
  obtain ⟨exact, projections⟩ := sound.keyed trivial key own
  by_cases same : key.key = action.key
  · exact .inl (same ▸ exact)
  · obtain ⟨partition, before, after⟩ := shared_partition lawful matched same
    exact .inr ⟨partition, after, projections partition before⟩

/-- What the scan finds is filed where the lookup reads. -/
theorem consulted_of_scan (represented : Represented settings True store)
    (lawful : ∀ projector ∈ settings.projectors, projector.Lawful)
    (registered : record ∈ store.registered scope) {action : ActionKey}
    {requireCoverage : Option (Entry → Bool)} {includeInputs : Bool} {value : CandidateLookup Entry}
    (found : scan settings store scope action requireCoverage includeInputs record = some value)
    : record ∈ store.members scope (PartitionName.exact action.key).text
      ∨ record ∈ (consultedInputs settings store scope action includeInputs).keys
      ∨ record ∈ consultedViews store scope action includeInputs
      ∨ ∃ partition ∈ actionKeyProjectionPartitions action settings.projectors,
          record ∈ store.members scope partition := by
  obtain ⟨id, present⟩ := mem_registered.mp registered
  obtain ⟨indexed, stored, -⟩ := represented.linked.allocated scope id record present
  simp only [filed_iff represented.linked registered stored, mem_consultedInputs represented,
    mem_consultedViews, OwnsInputs, stored, Option.any_some]
  rw [scan, stored, Option.bind_some] at found
  obtain ⟨result, offered, -⟩ := Option.map_eq_some_iff.mp found
  rcases Option.or_eq_some_iff.mp offered with byKey | byInputs
  · obtain ⟨key, own, matched⟩ := Option.bind_eq_some_iff.mp byKey
    have sound := represented.sound scope id record indexed present stored
    rcases mem_of_actionKeyMatch sound own lawful matched with exact | projected
    · exact .inl exact
    · exact .inr (.inr (.inr projected))
  · obtain ⟨-, retained⟩ := byInputs
    split at retained
    · rename_i conditions
      rcases conditions.2.2 with inputs | viewed
      · exact .inr (.inl ⟨conditions.2.1, registered, inputs⟩)
      · exact .inr (.inr (.inl ⟨conditions.2.1, List.contains_iff_mem.mp viewed⟩))
    · cases retained

end Owners

section Agreement

variable {Scope Entry : Type} [DecidableEq Scope] [DecidableEq Entry]
  {settings : Settings Entry} {store : Store Scope Entry}

/-- A registered record is the record of its own entry. -/
theorem record_of_registered (linked : Linked settings store) {scope : Scope} {record : ℕ}
    {indexed : IndexedEntry Entry} (registered : record ∈ store.registered scope)
    (found : store.records[record]? = some indexed)
    : store.record settings scope indexed.entry = some record := by
  obtain ⟨id, present⟩ := mem_registered.mp registered
  obtain ⟨stored, storedAt, named⟩ := linked.allocated scope id record present
  rw [found] at storedAt
  obtain rfl := Option.some.inj storedAt
  obtain ⟨state, inScope, entryAt⟩ := Option.bind_eq_some_iff.mp present
  rw [Store.record, inScope, Option.bind_some, named, entryAt, Option.bind_some, found]
  simp

/-- Two lists without repetition give the same results when they give each of them at the
same places.
-/
theorem filterMap_perm {α β : Type} {left right : List α} {first second : α → Option β}
    (leftNodup : left.Nodup) (rightNodup : right.Nodup)
    (same
      : ∀ item value,
          (item ∈ left ∧ first item = some value) ↔ (item ∈ right ∧ second item = some value))
    : (left.filterMap first).Perm (right.filterMap second) := by
  -- pair each result with its place, so that no two are equal
  have tag (choose : α → Option β) (items : List α)
      : items.filterMap choose
        = (items.filterMap fun item => (choose item).map (Prod.mk item)).map Prod.snd := by
    rw [List.map_filterMap]
    refine List.filterMap_congr fun item _ => ?_
    rw [Option.map_map]
    cases choose item <;> rfl
  have tagged (choose : α → Option β) {items : List α} (distinct : items.Nodup)
      : (items.filterMap fun item => (choose item).map (Prod.mk item)).Nodup := by
    refine List.Nodup.filterMap ?_ distinct
    intro item other pair here there
    obtain ⟨value, -, made⟩ := Option.map_eq_some_iff.mp (Option.mem_def.mp here)
    obtain ⟨value', -, made'⟩ := Option.map_eq_some_iff.mp (Option.mem_def.mp there)
    exact congrArg Prod.fst (made.trans made'.symm)
  rw [tag first, tag second]
  refine List.Perm.map _ ((List.perm_ext_iff_of_nodup (tagged first leftNodup)
    (tagged second rightNodup)).mpr fun pair => ?_)
  obtain ⟨item, value⟩ := pair
  have listed (choose : α → Option β) (items : List α)
      : (item, value) ∈ (items.filterMap fun item => (choose item).map (Prod.mk item))
        ↔ item ∈ items ∧ choose item = some value := by
    simp only [List.mem_filterMap, Option.map_eq_some_iff, Prod.mk.injEq]
    constructor
    · intro found
      obtain ⟨other, member, result, chosen, rfl, rfl⟩ := found
      exact ⟨member, chosen⟩
    · exact fun found => ⟨item, found.1, value, found.2, rfl, rfl⟩
  rw [listed, listed, same]

/-- A registered record gives the lookup what it gives the scan. -/
theorem rank_eq_scan {keyed : Prop} (represented : Represented settings keyed store) {scope : Scope}
    {record : ℕ} (registered : record ∈ store.registered scope) (action : ActionKey)
    (requireCoverage : Option (Entry → Bool)) (includeInputs : Bool)
    : (rank settings store scope action requireCoverage includeInputs record).map
          (·.toCandidateLookup)
      = scan settings store scope action requireCoverage includeInputs record := by
  obtain ⟨id, present⟩ := mem_registered.mp registered
  obtain ⟨indexed, found, -⟩ := represented.linked.allocated scope id record present
  have retains
      : (consultedInputs settings store scope action includeInputs).has record = true
          ∨ record ∈ consultedViews store scope action includeInputs
        ↔ includeInputs = true
          ∧ (indexed.inputs = true
            ∨ indexed.memberships.contains (PartitionName.view action.key).text = true) := by
    rw [List.contains_iff_mem, OrderedMap.has_iff, mem_consultedInputs represented, mem_consultedViews,
      filed_iff represented.linked registered found, OwnsInputs, found, Option.any_some]
    tauto
  unfold rank scan answer
  rw [found, Option.bind_some, Option.bind_some,
    record_of_registered represented.linked registered found, if_neg (not_not_intro rfl),
    Option.map_map]
  simp only [Bool.and_eq_true, Bool.or_eq_true, Bool.not_eq_true', decide_eq_true_eq, retains]
  refine congrArg (Option.map fun found =>
    ({ entry := indexed.entry, found } : CandidateLookup Entry)) (congrArg (Option.or _) ?_)
  split
  · rename_i offered
    rw [consultedInputs, if_pos offered.2.1, inputDepth]
  · rfl

theorem lookup_perm_of_represented (represented : Represented settings True store)
    (lawful : ∀ projector ∈ settings.projectors, projector.Lawful) (scope : Scope)
    (action : ActionKey) (requireCoverage : Option (Entry → Bool)) (includeInputs : Bool)
    : (lookup settings store scope action requireCoverage includeInputs).Perm
        (fullScan settings store scope action requireCoverage includeInputs) := by
  have linked := represented.linked
  have registered_of_members {key : JsString} {record : ℕ}
      (member : record ∈ store.members scope key)
      : record ∈ store.registered scope :=
    mem_registered.mpr ((linked.filed _ _ _).mp member).1
  refine ((List.mergeSort_perm _ _).map _).trans ?_
  rw [List.map_filterMap]
  refine filterMap_perm (InvertedIndex.nodup_insertMembers List.nodup_nil _)
    (nodup_registered linked scope) fun record value => ?_
  simp only [InvertedIndex.mem_insertMembers, List.not_mem_nil, or_false, List.mem_append,
    List.mem_flatMap, or_assoc]
  constructor
  · intro ranked
    obtain ⟨consulted, found⟩ := ranked
    have registered : record ∈ store.registered scope := by
      rcases consulted with exact | inputs | viewed | projected
      · exact registered_of_members exact
      · exact ((mem_consultedInputs represented scope action includeInputs record).mp inputs).2.1
      · exact registered_of_members (mem_consultedViews.mp viewed).2
      · obtain ⟨partition, -, member⟩ := projected
        exact registered_of_members member
    exact ⟨registered, rank_eq_scan represented registered action requireCoverage _ ▸ found⟩
  · intro scanned
    obtain ⟨registered, found⟩ := scanned
    refine ⟨consulted_of_scan represented lawful registered found, ?_⟩
    rw [rank_eq_scan represented registered]
    exact found

/-- After any operations the index answers as a scan of the registrations does, when the
projections only relate keys of one partition, as the shipped ones do.
-/
theorem lookup_perm_fullScan (settings : Settings Entry)
    (lawful : ∀ projector ∈ settings.projectors, projector.Lawful)
    (actions : List (Action Scope Entry)) (promised : ∀ action ∈ actions, action.Promised settings)
    (scope : Scope) (action : ActionKey) (requireCoverage : Option (Entry → Bool))
    (includeInputs : Bool)
    : (lookup settings (afterActions settings actions) scope action requireCoverage
          includeInputs).Perm
        (fullScan settings (afterActions settings actions) scope action requireCoverage
          includeInputs)
      ∧ ∀ projector ∈ shippedProjectors, projector.Lawful :=
  ⟨lookup_perm_of_represented
      (afterActions_represented_of_promised settings True actions fun _ => promised) lawful scope
      action requireCoverage includeInputs,
    shippedProjectors_lawful⟩

/-- A read that was created for its key and settled is looked up by that key. -/
theorem lookup_perm_fullScan_sample
    : let key : ActionKey := {
        key := units "k", hash := [], tool := units "read", input := .object [], resources := []
        resourceRoot := none, semanticsEpoch := [], schemaHash := [], executionFingerprint := []
        semantics := none
      }
      let settings : Settings ℕ := {
        id := fun _ => units "actor_1"
        key := fun _ => some key
        projectors := shippedProjectors
        path := {
          separator := unit '/', resolve := List.flatten, dirname := id, isAbsolute := fun _ => true
        }
      }
      let store := afterActions settings [
        .getOrCreate () key 1 fun _ _ => true,
        .settle () 1 { inputSource := false, reconstruct := false, inputResources := none }
          (.finite 0) true
      ]
      (lookup settings store () key none true).Perm (fullScan settings store () key none true)
      ∧ ∀ projector ∈ shippedProjectors, projector.Lawful := by
  intro key settings store
  refine lookup_perm_fullScan settings shippedProjectors_lawful _ ?_ () key none true
  intro action member
  rcases List.mem_cons.mp member with created | settled
  · exact created ▸ rfl
  · exact List.mem_singleton.mp settled ▸ trivial

/-- The key of reading some lines of one file. -/
def readKey (offset limit : ℕ) (key : JsString) : ActionKey where
  key := key
  hash := []
  tool := units "read"
  input := .object [(units "path", .string (units "f")),
    (units "offset", .number (ActionSemantics.JsNumber.ofRat offset)),
    (units "limit", .number (ActionSemantics.JsNumber.ofRat limit))]
  resources := []
  resourceRoot := none
  semanticsEpoch := []
  schemaHash := []
  executionFingerprint := []
  semantics := none

/-- Every entry reads the first ten lines. -/
def readSettings : Settings ℕ where
  id := fun _ => units "actor_1"
  key := fun _ => some (readKey 1 10 (units "wide"))
  projectors := shippedProjectors
  path := {
    separator := unit '/', resolve := List.flatten, dirname := id, isAbsolute := fun _ => true
  }

/-- Without the promise the index can miss a projected match: an entry that is created for
another tool's key is not filed under the partition of its own.
-/
theorem lookup_misses_unpromised
    : ¬ ∀ (settings : Settings ℕ) (actions : List (Action Unit ℕ)) (action : ActionKey),
          (∀ projector ∈ settings.projectors, projector.Lawful) →
          (lookup settings (afterActions settings actions) () action none true).Perm
            (fullScan settings (afterActions settings actions) () action none true) := by
  intro always
  let write : ActionKey := { readKey 1 10 (units "other") with tool := units "write" }
  let narrow := readKey 2 3 (units "narrow")
  let actions : List (Action Unit ℕ) :=
    [.getOrCreate () write 1 fun _ found => decide (found = .exact)]
  have same := (always readSettings actions narrow shippedProjectors_lawful).length_eq
  have missed
      : (lookup readSettings (afterActions readSettings actions) () narrow none true).length
        = 0 := by
    decide +kernel
  have scanned
      : (fullScan readSettings (afterActions readSettings actions) () narrow none true).length
        = 1 := by
    decide +kernel
  rw [missed, scanned] at same
  cases same

end Agreement

end SpeculativeAction.CandidateStore
