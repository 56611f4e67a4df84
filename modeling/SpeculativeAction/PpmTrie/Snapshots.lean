import SpeculativeAction.Library.StableSort
import SpeculativeAction.PpmTrie.Alike

/-! Rows that a snapshot keeps whole: positive counts, and the latest of their targets' times as
their own. Observations and restorations build no others, so a restored snapshot holds the evidence
of the trie it was taken of.
-/

namespace SpeculativeAction.PpmTrie

open SpeculativeAction.Library

open PpmCountTrie

-- Sound rows

section Sound

variable {K : Type*} [Field K] [LinearOrder K]

/-- The host's power of two, of an age: positive, and no growth. -/
structure Fades (pow2 : ℚ → K) : Prop where
  pos : ∀ exponent, 0 < pow2 exponent
  le_one : ∀ exponent ≤ 0, pow2 exponent ≤ 1

/-- Counts within their range, and the latest time of a target as the time of the row. -/
structure RowSound (row : ContextCounts K) : Prop where
  named : ∀ target value, row.targets.get? target = some value → target ≠ []
  positive : ∀ target value, row.targets.get? target = some value → 0 < value.count
  bounded
    : ∀ target value, row.targets.get? target = some value
      → value.count ≤ (Number.maxSafeInteger : K)
  seen : ∀ target value, row.targets.get? target = some value → value.lastSeen ≤ row.lastSeen
  latest
    : ∀ bound, (∀ target value, row.targets.get? target = some value → value.lastSeen ≤ bound)
      → row.lastSeen ≤ bound

variable {pow2 : ℚ → K} {halfLife : Number} {row other : ContextCounts K} {target : JsString}

theorem rowSound_fresh (context : List JsString)
    : RowSound (⟨context, .empty, 0⟩ : ContextCounts K) where
  named _ _ found := by cases found
  positive _ _ found := by cases found
  bounded _ _ found := by cases found
  seen _ _ found := by cases found
  latest bound _ := Nat.zero_le bound

theorem RowSound.of_alike (sound : RowSound row) (same : RowAlike other row) : RowSound other where
  named target value found := sound.named target value (same.targets target ▸ found)
  positive target value found := sound.positive target value (same.targets target ▸ found)
  bounded target value found := sound.bounded target value (same.targets target ▸ found)
  seen target value found := same.lastSeen ▸ sound.seen target value (same.targets target ▸ found)
  latest bound all :=
    same.lastSeen ▸ sound.latest bound fun target value found =>
      all target value (same.targets target ▸ found)

variable [IsStrictOrderedRing K]

/-- Evidence that fades stays within its range. -/
theorem decayedCount_range (fades : Fades pow2) {value : TargetCount K} (positive : 0 < value.count)
    (sequence : Number)
    : 0 < decayedCount pow2 value sequence halfLife
      ∧ decayedCount pow2 value sequence halfLife ≤ value.count := by
  unfold decayedCount
  split
  · split
    · exact ⟨positive, le_rfl⟩
    · next time life lasting =>
        have past : -max 0 (time - (value.lastSeen : ℚ)) / life ≤ 0 :=
          div_nonpos_of_nonpos_of_nonneg (neg_nonpos.mpr (le_max_left 0 _))
            (not_le.mp lasting).le
        exact ⟨mul_pos positive (fades.pos _),
          mul_le_of_le_one_right positive.le (fades.le_one _ past)⟩
  · exact ⟨positive, le_rfl⟩

omit [IsStrictOrderedRing K] in
/-- A count is put beside sound ones, at a time that is the latest or no earlier than its own. -/
theorem rowSound_put
    (ranges
      : ∀ other value, row.targets.get? other = some value
        → other ≠ [] ∧ 0 < value.count ∧ value.count ≤ (Number.maxSafeInteger : K))
    (nonempty : target ≠ []) {count : K} (positive : 0 < count)
    (bounded : count ≤ (Number.maxSafeInteger : K)) {lastSeen : ℕ}
    (seen
      : ∀ other value, row.targets.get? other = some value
        → value.lastSeen ≤ max row.lastSeen lastSeen)
    (latest
      : ∀ bound, lastSeen ≤ bound
        → (∀ other value, other ≠ target → row.targets.get? other = some value
          → value.lastSeen ≤ bound)
        → row.lastSeen ≤ bound)
    : RowSound (row.put target count lastSeen) := by
  have stored : ∀ other value, (row.put target count lastSeen).targets.get? other = some value
      → (other = target ∧ value = ⟨count, lastSeen⟩)
        ∨ (other ≠ target ∧ row.targets.get? other = some value) := by
    intro other value found
    rw [ContextCounts.put, OrderedMap.get?_set] at found
    split at found
    · next same => exact .inl ⟨same, (Option.some.inj found).symm⟩
    · next different => exact .inr ⟨different, found⟩
  refine ⟨fun other value found => ?_, fun other value found => ?_, fun other value found => ?_,
    fun other value found => ?_, fun bound all => ?_⟩
  · rcases stored other value found with ⟨rfl, -⟩ | ⟨-, old⟩
    · exact nonempty
    · exact (ranges other value old).1
  · rcases stored other value found with ⟨-, rfl⟩ | ⟨-, old⟩
    · exact positive
    · exact (ranges other value old).2.1
  · rcases stored other value found with ⟨-, rfl⟩ | ⟨-, old⟩
    · exact bounded
    · exact (ranges other value old).2.2
  · rcases stored other value found with ⟨-, rfl⟩ | ⟨-, old⟩
    · exact le_max_right _ _
    · exact seen other value old
  · have written : (row.put target count lastSeen).targets.get? target = some ⟨count, lastSeen⟩ := by
      rw [ContextCounts.put, OrderedMap.get?_set, if_pos rfl]
    have last : lastSeen ≤ bound := all target _ written
    refine max_le (latest bound last fun other value different old => ?_) last
    refine all other value ?_
    rw [ContextCounts.put, OrderedMap.get?_set, if_neg different]
    exact old

omit [IsStrictOrderedRing K] in
theorem context_observe (pow2 : ℚ → K) (halfLife : Number) (row : ContextCounts K)
    (target : JsString) (lastSeen : ℕ)
    : (row.observe pow2 target lastSeen halfLife).context = row.context := by
  rw [ContextCounts.observe, ContextCounts.put, ContextCounts.advance]
  split <;> rfl

omit [IsStrictOrderedRing K] in
theorem populated_observe (pow2 : ℚ → K) (halfLife : Number) (row : ContextCounts K)
    (target : JsString) (lastSeen : ℕ)
    : (row.observe pow2 target lastSeen halfLife).targets.entries ≠ [] := by
  have member : target ∈ (row.observe pow2 target lastSeen halfLife).targets.keys :=
    OrderedMap.mem_keys_set.mpr (.inl rfl)
  obtain ⟨entry, inside, -⟩ := List.mem_map.mp member
  exact List.ne_nil_of_mem inside

/-- An observation leaves a sound row. -/
theorem RowSound.observe (fades : Fades pow2) (sound : RowSound row) (nonempty : target ≠ [])
    (lastSeen : ℕ)
    : RowSound (row.observe pow2 target lastSeen halfLife) := by
  have counted : ∀ previous : Option (TargetCount K),
      (∀ value, previous = some value → 0 < value.count)
      → 0 < min (Number.maxSafeInteger : K) ((previous.map TargetCount.count).getD 0 + 1) := by
    intro previous each
    refine lt_min (by exact_mod_cast (by decide : 0 < Number.maxSafeInteger)) ?_
    cases previous with
    | none => exact (zero_add (1 : K)).symm ▸ one_pos
    | some value => exact add_pos (each value rfl) one_pos
  rw [ContextCounts.observe, ContextCounts.advance]
  by_cases ahead : isPositive halfLife = true ∧ row.lastSeen < lastSeen
  · rw [if_pos ahead]
    have advanced : ∀ other value,
        (advanceTargets pow2 lastSeen halfLife row.targets).get? other = some value
        → other ≠ [] ∧ 0 < value.count ∧ value.count ≤ (Number.maxSafeInteger : K)
          ∧ value.lastSeen = lastSeen := by
      intro other value found
      rw [advanceTargets, OrderedMap.get?_mapValues] at found
      obtain ⟨old, stored, rfl⟩ := Option.map_eq_some_iff.mp found
      obtain ⟨positive, less⟩ := decayedCount_range fades
        (sound.positive other old stored) (.finite lastSeen)
      exact ⟨sound.named other old stored, positive, less.trans (sound.bounded other old stored),
        rfl⟩
    refine rowSound_put
      (fun other value found => ⟨(advanced other value found).1, (advanced other value found).2.1,
        (advanced other value found).2.2.1⟩)
      nonempty (counted _ fun value found => (advanced target value found).2.1) (min_le_left _ _)
      (fun other value found => ?_) fun bound last _ => ?_
    · rw [(advanced other value found).2.2.2]
      exact (le_max_right _ _).trans (le_max_right _ _)
    · exact ahead.2.le.trans ((le_max_right _ _).trans last)
  · rw [if_neg ahead]
    refine rowSound_put
      (fun other value found => ⟨sound.named other value found, sound.positive other value found,
        sound.bounded other value found⟩)
      nonempty (counted _ fun value found => sound.positive target value found) (min_le_left _ _)
      (fun other value found => (sound.seen other value found).trans (le_max_left _ _))
      fun bound last others => sound.latest bound fun other value found => ?_
    by_cases same : other = target
    · subst same
      rw [found] at last
      exact (le_max_left _ _).trans last
    · exact others other value same found

end Sound

-- One row

section Entries

theorem recordEntries_perm {V : Type*} (fields : OrderedMap JsString V)
    : (recordEntries fields).Perm fields.entries :=
  ((List.mergeSort_perm _ _).append_right _).trans
    (List.filter_append_perm (fun field => (arrayIndex? field.1).isSome) fields.entries)

variable {K : Type*}

/-- Counts put one after the other. -/
def putAll (entries : List (JsString × TargetCount K)) (row : ContextCounts K) : ContextCounts K :=
  entries.foldl (fun row entry => row.put entry.1 entry.2.count entry.2.lastSeen) row

variable {entries : List (JsString × TargetCount K)} {row : ContextCounts K}

theorem context_putAll : (putAll entries row).context = row.context := by
  induction entries generalizing row with
  | nil => rfl
  | cons entry rest ih => exact ih

theorem targets_putAll
    : (putAll entries row).targets = OrderedMap.updateAll (fun _ value => value) entries row.targets
    := by
  induction entries generalizing row with
  | nil => rfl
  | cons entry rest ih => exact ih

theorem lastSeen_putAll (bound : ℕ)
    : (putAll entries row).lastSeen ≤ bound
      ↔ row.lastSeen ≤ bound ∧ ∀ entry ∈ entries, entry.2.lastSeen ≤ bound := by
  induction entries generalizing row with
  | nil => exact ⟨fun low => ⟨low, fun entry member => by cases member⟩, And.left⟩
  | cons entry rest ih =>
      have step : putAll (entry :: rest) row
          = putAll rest (row.put entry.1 entry.2.count entry.2.lastSeen) := rfl
      rw [step, ih, List.forall_mem_cons, ← and_assoc]
      exact and_congr_left fun _ => max_le_iff

end Entries

section Row

variable {K : Type*} {localeCompare : JsString → JsString → Ordering} {row : ContextCounts K}
  {trie : PpmCountTrie K}

/-- The counts of a snapshot are those of the targets. -/
theorem snapshotRow_counts (row : ContextCounts K)
    : (snapshotRow localeCompare row).counts.entries.Perm
        (row.targets.entries.map fun entry => (entry.1, entry.2.count)) := by
  have sorted := (List.mergeSort_perm row.targets.entries fun left right =>
    (localeCompare left.1 right.1).isLE).map fun entry => (entry.1, entry.2.count)
  have distinct : ((row.targets.entries.map fun entry => (entry.1, entry.2.count)).map
      Prod.fst).Nodup := by
    rw [OrderedMap.keys_map]
    exact row.targets.distinct
  have distinct' := (sorted.map Prod.fst).nodup_iff.mpr distinct
  refine List.Perm.trans ?_ sorted
  refine (List.perm_ext_iff_of_nodup (OrderedMap.distinct _).of_map (distinct'.of_map _)).mpr ?_
  rintro ⟨target, count⟩
  rw [← OrderedMap.get?_eq_some_iff]
  exact OrderedMap.get?_ofList distinct'

/-- The time of a target, from its own or from the row. -/
theorem snapshotRow_lastSeen {target : JsString} {value : TargetCount K}
    (found : row.targets.get? target = some value)
    : ((snapshotRow localeCompare row).targetLastSeen.bind fun times => times.get? target).getD
        (snapshotRow localeCompare row).lastSeen
      = value.lastSeen := by
  rw [snapshotRow]
  simp only
  split
  · rw [Option.bind_some, OrderedMap.get?_mapValues, found]
    rfl
  · next uniform =>
      rw [Option.bind_none, Option.getD_none]
      by_contra different
      refine uniform (List.any_eq_true.mpr ⟨value, ?_, decide_eq_true (Ne.symm different)⟩)
      exact OrderedMap.mem_values_iff.mpr ⟨target, found⟩

variable [Field K] [LinearOrder K]

/-- Counts in range are set as they are, one by one. -/
theorem foldl_setCount {context : List JsString} (short : context.length ≤ trie.order)
    {fields : List (JsString × K)} (time : JsString → ℕ)
    (ranges
      : ∀ field ∈ fields,
        field.1 ≠ [] ∧ 0 < field.2 ∧ field.2 ≤ (Number.maxSafeInteger : K))
    : fields.foldl (fun trie field => trie.setCount context field.1 field.2 (time field.1))
        { trie with counts := trie.counts.set (contextKey context) row }
      = { trie with
          counts := trie.counts.set (contextKey context)
            (putAll (fields.map fun field => (field.1, ⟨field.2, time field.1⟩)) row) } := by
  induction fields generalizing row with
  | nil => rfl
  | cons field rest ih =>
      obtain ⟨⟨named, positive, bounded⟩, later⟩ := List.forall_mem_cons.mp ranges
      have stored : ({ trie with counts := trie.counts.set (contextKey context) row } :
          PpmCountTrie K).context context = row := by
        rw [PpmCountTrie.context, OrderedMap.get?_set, if_pos rfl, Option.getD_some]
      rw [List.foldl_cons, setCount, if_pos ⟨named, short, positive⟩, stored, OrderedMap.set_set,
        min_eq_right bounded, ih later]
      rfl

/-- The first count of a context finds nothing stored. -/
theorem setCount_fresh {context : List JsString}
    (absent : trie.counts.get? (contextKey context) = none) (target : JsString) (count : K)
    (lastSeen : ℕ)
    : trie.setCount context target count lastSeen
      = if target ≠ [] ∧ context.length ≤ trie.order ∧ 0 < count then
          ({ trie with
             counts := trie.counts.set (contextKey context) ⟨context, .empty, 0⟩ }).setCount
            context target count lastSeen
        else trie := by
  rw [setCount, setCount]
  have fresh : trie.context context = ⟨context, .empty, 0⟩ := by
    rw [PpmCountTrie.context, absent, Option.getD_none]
  have stored : ({ trie with
      counts := trie.counts.set (contextKey context) ⟨context, .empty, 0⟩ } :
        PpmCountTrie K).context context = ⟨context, .empty, 0⟩ := by
    rw [PpmCountTrie.context, OrderedMap.get?_set, if_pos rfl, Option.getD_some]
  by_cases taken : target ≠ [] ∧ context.length ≤ trie.order ∧ 0 < count
  · rw [if_pos taken, if_pos taken, if_pos taken, fresh, stored, OrderedMap.set_set]
  · rw [if_neg taken, if_neg taken]

/-- A context that is too long is not restored. -/
theorem restoreRow_long {row : PpmCountTrieRow K} (long : trie.order < row.context.length)
    : trie.restoreRow row = trie := by
  rw [restoreRow]
  induction recordEntries row.counts with
  | nil => rfl
  | cons field rest ih =>
      rw [List.foldl_cons, setCount, if_neg fun taken => absurd taken.2.1 (not_le.mpr long)]
      exact ih

/-- A sound row is what its entries put together, in any order. -/
theorem RowSound.putAll_alike (sound : RowSound row) {entries : List (JsString × TargetCount K)}
    (same : entries.Perm row.targets.entries)
    : RowAlike (putAll entries ⟨row.context, .empty, 0⟩) row := by
  have distinct : (entries.map Prod.fst).Nodup :=
    (same.map Prod.fst).nodup_iff.mpr row.targets.distinct
  refine ⟨context_putAll, fun target => ?_, le_antisymm ?_ ?_⟩
  · rw [targets_putAll]
    ext value
    refine (OrderedMap.get?_ofList distinct).trans ?_
    rw [same.mem_iff, OrderedMap.get?_eq_some_iff]
  · rw [lastSeen_putAll]
    refine ⟨Nat.zero_le _, fun entry member => ?_⟩
    exact sound.seen entry.1 entry.2 (OrderedMap.get?_eq_some_iff.mpr (same.mem_iff.mp member))
  · refine sound.latest _ fun target value found => ?_
    exact ((lastSeen_putAll _).mp le_rfl).2 (target, value)
      (same.mem_iff.mpr (OrderedMap.get?_eq_some_iff.mp found))

/-- A populated row is restored beside what the trie stores of other contexts. -/
theorem restoreRow_snapshotRow (localeCompare : JsString → JsString → Ordering)
    (sound : RowSound row) (populated : row.targets.entries ≠ [])
    (short : row.context.length ≤ trie.order)
    (absent : trie.counts.get? (contextKey row.context) = none)
    : ∃ restored,
        trie.restoreRow (snapshotRow localeCompare row)
          = { trie with counts := trie.counts.set (contextKey row.context) restored }
        ∧ RowAlike restored row := by
  let time : JsString → ℕ := fun target =>
    ((snapshotRow localeCompare row).targetLastSeen.bind fun times => times.get? target).getD
      (snapshotRow localeCompare row).lastSeen
  have fields := (recordEntries_perm (snapshotRow localeCompare row).counts).trans
    (snapshotRow_counts row)
  have same : ((recordEntries (snapshotRow localeCompare row).counts).map fun field =>
      ((field.1, ⟨field.2, time field.1⟩) : JsString × TargetCount K)).Perm
        row.targets.entries := by
    refine (fields.map _).trans (List.Perm.of_eq ?_)
    rw [List.map_map]
    conv_rhs => rw [← List.map_id row.targets.entries]
    refine List.map_congr_left fun entry member => ?_
    have read : time entry.1 = entry.2.lastSeen :=
      snapshotRow_lastSeen (OrderedMap.get?_eq_some_iff.mpr member)
    rw [Function.comp_apply, read]
    rfl
  have ranges : ∀ field ∈ recordEntries (snapshotRow localeCompare row).counts,
      field.1 ≠ [] ∧ 0 < field.2 ∧ field.2 ≤ (Number.maxSafeInteger : K) := by
    intro field member
    obtain ⟨entry, inside, rfl⟩ := List.mem_map.mp (fields.mem_iff.mp member)
    have found : row.targets.get? entry.1 = some entry.2 := OrderedMap.get?_eq_some_iff.mpr inside
    exact ⟨sound.named _ _ found, sound.positive _ _ found, sound.bounded _ _ found⟩
  refine ⟨_, ?_, sound.putAll_alike same⟩
  rw [restoreRow, ← foldl_setCount short time ranges]
  cases listed : recordEntries (snapshotRow localeCompare row).counts with
  | nil =>
      rw [listed] at fields
      exact absurd (List.map_eq_nil_iff.mp fields.nil_eq.symm) populated
  | cons field rest =>
      obtain ⟨named, positive, -⟩ := ranges field (listed ▸ List.mem_cons_self)
      rw [List.foldl_cons, List.foldl_cons]
      have first := setCount_fresh absent field.1 field.2 (time field.1)
      rw [if_pos ⟨named, short, positive⟩] at first
      exact congrArg (fun start => rest.foldl (fun trie field =>
        trie.setCount row.context field.1 field.2 (time field.1)) start) first

end Row

-- Whole tries

section Tries

variable {K : Type*} [Field K] [LinearOrder K] {localeCompare : JsString → JsString → Ordering}
  {trie : PpmCountTrie K} {rows : List (ContextCounts K)} {blank : PpmCountTrie K}

/-- What every trie in use stores: sound, populated rows of contexts within the order. -/
structure Valid (trie : PpmCountTrie K) : Prop where
  sound : trie.counts.Forall fun _ row => RowSound row
  populated : trie.counts.Forall fun _ row => row.targets.entries ≠ []
  keyed : trie.counts.Forall fun key row => key = contextKey row.context
  short : trie.counts.Forall fun _ row => row.context.length ≤ trie.order

theorem valid_create (maxOrder : Number) : Valid (create maxOrder : PpmCountTrie K) :=
  ⟨.empty, .empty, .empty, .empty⟩

/-- The rows of a snapshot. -/
def keptRows (localeCompare : JsString → JsString → Ordering) (trie : PpmCountTrie K)
    (maxContexts : Number) : List (ContextCounts K) :=
  (match contextLimit maxContexts with
    | some limit => (trie.ranked localeCompare).take limit
    | none => trie.ranked localeCompare).map Prod.snd

theorem snapshot_eq (maxContexts : Number)
    : trie.snapshot localeCompare maxContexts
      = (keptRows localeCompare trie maxContexts).map (snapshotRow localeCompare) := by
  rw [snapshot, keptRows, List.map_map]
  rfl

theorem ranked_perm : (trie.ranked localeCompare).Perm trie.counts.entries :=
  List.mergeSort_perm _ _

/-- A snapshot keeps rows of the trie, each once. -/
theorem keptRows_sublist (localeCompare : JsString → JsString → Ordering) (trie : PpmCountTrie K)
    (maxContexts : Number)
    : ∃ kept : List (JsString × ContextCounts K),
        keptRows localeCompare trie maxContexts = kept.map Prod.snd
        ∧ kept.Sublist (trie.ranked localeCompare) := by
  rw [keptRows]
  cases contextLimit maxContexts with
  | none => exact ⟨_, rfl, .refl _⟩
  | some limit => exact ⟨_, rfl, List.take_sublist _ _⟩

theorem Valid.keptRows_stored (valid : Valid trie) {maxContexts : Number} {row : ContextCounts K}
    (kept : row ∈ keptRows localeCompare trie maxContexts)
    : trie.counts.get? (contextKey row.context) = some row := by
  obtain ⟨rows, listed, sub⟩ := keptRows_sublist localeCompare trie maxContexts
  rw [listed] at kept
  obtain ⟨⟨key, row'⟩, member, rfl⟩ := List.mem_map.mp kept
  have stored := OrderedMap.get?_eq_some_iff.mpr (ranked_perm.mem_iff.mp (sub.subset member))
  exact valid.keyed key row' stored ▸ stored

theorem Valid.keptRows_distinct (valid : Valid trie) (maxContexts : Number)
    : ((keptRows localeCompare trie maxContexts).map ContextCounts.context).Nodup := by
  obtain ⟨rows, listed, sub⟩ := keptRows_sublist localeCompare trie maxContexts
  have keys : (rows.map Prod.fst).Nodup :=
    ((ranked_perm.map Prod.fst).nodup_iff.mpr trie.counts.distinct).sublist (sub.map Prod.fst)
  have keyed : rows.map Prod.fst
      = ((keptRows localeCompare trie maxContexts).map ContextCounts.context).map contextKey := by
    rw [listed, List.map_map, List.map_map]
    refine List.map_congr_left fun entry member => ?_
    exact valid.keyed entry.1 entry.2
      (OrderedMap.get?_eq_some_iff.mpr (ranked_perm.mem_iff.mp (sub.subset member)))
  exact (keyed ▸ keys).of_map contextKey

/-- The rows within the order are restored beside what the trie stores. -/
structure Restored (trie : PpmCountTrie K) (rows : List (ContextCounts K))
    (restored : PpmCountTrie K) : Prop where
  order : restored.order = trie.order
  found
    : ∀ row ∈ rows, row.context.length ≤ trie.order
      → ∃ row', restored.counts.get? (contextKey row.context) = some row' ∧ RowAlike row' row
  others
    : ∀ key, (∀ row ∈ rows, row.context.length ≤ trie.order → contextKey row.context ≠ key)
      → restored.counts.get? key = trie.counts.get? key

/-- Rows of different contexts are restored one by one. -/
theorem restore_rows (sound : ∀ row ∈ rows, RowSound row ∧ row.targets.entries ≠ [])
    (distinct : (rows.map ContextCounts.context).Nodup)
    (absent : ∀ row ∈ rows, trie.counts.get? (contextKey row.context) = none)
    : Restored trie rows ((rows.map (snapshotRow localeCompare)).foldl restoreRow trie) := by
  induction rows generalizing trie with
  | nil => exact ⟨rfl, fun row member => absurd member List.not_mem_nil, fun _ _ => rfl⟩
  | cons row rest ih =>
      obtain ⟨⟨sound_, populated⟩, soundRest⟩ := List.forall_mem_cons.mp sound
      obtain ⟨fresh, distinctRest⟩ := List.nodup_cons.mp distinct
      obtain ⟨absent_, absentRest⟩ := List.forall_mem_cons.mp absent
      rw [List.map_cons, List.foldl_cons]
      by_cases short : row.context.length ≤ trie.order
      · obtain ⟨restored, stored, alike⟩ := restoreRow_snapshotRow localeCompare sound_ populated
          short absent_
        have apart : ∀ other ∈ rest, contextKey other.context ≠ contextKey row.context := by
          intro other member same
          exact fresh (contextKey_injective same ▸ List.mem_map_of_mem member)
        rw [stored]
        have absentNow : ∀ other ∈ rest,
            (trie.counts.set (contextKey row.context) restored).get? (contextKey other.context)
              = none := by
          intro other member
          rw [OrderedMap.get?_set, if_neg (apart other member)]
          exact absentRest other member
        obtain ⟨order_, found, others⟩ : Restored
            { trie with counts := trie.counts.set (contextKey row.context) restored } rest _ :=
          ih soundRest distinctRest absentNow
        refine ⟨order_, List.forall_mem_cons.mpr ⟨fun _ => ⟨restored, ?_, alike⟩, found⟩,
          fun key none_ => ?_⟩
        · rw [others _ fun other member _ => apart other member, OrderedMap.get?_set, if_pos rfl]
        · obtain ⟨different, later⟩ := List.forall_mem_cons.mp none_
          rw [others key later, OrderedMap.get?_set, if_neg (different short).symm]
      · have passed : trie.restoreRow (snapshotRow localeCompare row) = trie :=
          restoreRow_long (not_le.mp short)
        rw [passed]
        obtain ⟨order_, found, others⟩ := ih soundRest distinctRest absentRest
        refine ⟨order_, List.forall_mem_cons.mpr ⟨fun within => absurd within short, found⟩,
          fun key none_ => others key (List.forall_mem_cons.mp none_).2⟩

/-- The rows of a valid trie that a snapshot keeps, restored into any trie. -/
theorem Valid.restored (valid : Valid trie) (maxContexts : Number)
    : Restored { blank with counts := .empty } (keptRows localeCompare trie maxContexts)
        (blank.restore (trie.snapshot localeCompare maxContexts)) := by
  rw [restore, snapshot_eq]
  refine restore_rows (fun row kept => ?_) (valid.keptRows_distinct maxContexts) fun _ _ => rfl
  have stored := valid.keptRows_stored kept
  exact ⟨valid.sound _ _ stored, valid.populated _ _ stored⟩

omit [Field K] [LinearOrder K] in
theorem Restored.empty_stored {order : ℕ} {restored : PpmCountTrie K}
    (all : Restored ⟨order, .empty⟩ rows restored) {key : JsString} {row : ContextCounts K}
    (stored : restored.counts.get? key = some row)
    : ∃ kept ∈ rows,
        kept.context.length ≤ order ∧ key = contextKey kept.context ∧ RowAlike row kept := by
  by_contra none_
  have absent : ∀ kept ∈ rows, kept.context.length ≤ order → contextKey kept.context ≠ key := by
    intro kept member short same
    obtain ⟨row', found, alike⟩ := all.found kept member short
    rw [same, stored] at found
    exact none_ ⟨kept, member, short, same.symm, Option.some.inj found ▸ alike⟩
  rw [all.others key absent] at stored
  cases stored

/-- A restored snapshot is valid. -/
theorem Valid.restore (valid : Valid trie) (maxContexts : Number)
    : Valid (blank.restore (trie.snapshot localeCompare maxContexts)) := by
  have all : Restored { blank with counts := .empty } (keptRows localeCompare trie maxContexts)
      (blank.restore (trie.snapshot localeCompare maxContexts)) := valid.restored maxContexts
  have each : ∀ key row,
      (blank.restore (trie.snapshot localeCompare maxContexts)).counts.get? key = some row
      → ∃ kept,
        trie.counts.get? (contextKey kept.context) = some kept
        ∧ kept.context.length ≤ blank.order ∧ key = contextKey kept.context
        ∧ RowAlike row kept := by
    intro key row stored
    obtain ⟨kept, member, short, keyed, alike⟩ := all.empty_stored stored
    exact ⟨kept, valid.keptRows_stored member, short, keyed, alike⟩
  refine ⟨fun key row stored => ?_, fun key row stored => ?_, fun key row stored => ?_,
    fun key row stored => ?_⟩ <;>
  obtain ⟨kept, found, short, keyed, alike⟩ := each key row stored
  · exact (valid.sound _ _ found).of_alike alike
  · intro empty_
    have same := alike.entries_perm
    rw [empty_] at same
    exact valid.populated _ _ found same.nil_eq.symm
  · exact keyed.trans (congrArg contextKey alike.context.symm)
  · exact alike.context ▸ all.order ▸ short

/-- A whole snapshot restores the evidence of its trie. -/
theorem Valid.restore_alike (valid : Valid trie) (order_ : blank.order = trie.order)
    {maxContexts : Number} (whole : contextLimit maxContexts = none)
    : Alike (blank.restore (trie.snapshot localeCompare maxContexts)) trie := by
  have all : Restored { blank with counts := .empty } (keptRows localeCompare trie maxContexts)
      (blank.restore (trie.snapshot localeCompare maxContexts)) := valid.restored maxContexts
  have kept : ∀ key row, trie.counts.get? key = some row
      → row ∈ keptRows localeCompare trie maxContexts := by
    intro key row stored
    rw [keptRows, whole]
    exact List.mem_map_of_mem
      (ranked_perm.mem_iff.mpr (OrderedMap.get?_eq_some_iff.mp stored))
  refine ⟨all.order.trans order_, fun key => ?_⟩
  cases stored : trie.counts.get? key with
  | some row =>
      have short : row.context.length ≤ blank.order := order_ ▸ valid.short key row stored
      obtain ⟨row', found, alike⟩ := all.found row (kept key row stored) short
      rw [valid.keyed key row stored, found]
      exact .some alike
  | none =>
      have absent : ∀ row ∈ keptRows localeCompare trie maxContexts,
          row.context.length ≤ blank.order → contextKey row.context ≠ key := by
        intro row member _ same
        rw [← same, valid.keptRows_stored member] at stored
        cases stored
      rw [all.others key absent]
      exact .none

/-- Removed contexts leave a valid trie. -/
theorem Valid.delete (valid : Valid trie) (keys : List JsString)
    : Valid { trie with counts := keys.foldl OrderedMap.delete trie.counts } :=
  ⟨valid.sound.deleteAll keys, valid.populated.deleteAll keys, valid.keyed.deleteAll keys,
    valid.short.deleteAll keys⟩

/-- What a bound on the number of contexts leaves. -/
def bounded (localeCompare : JsString → JsString → Ordering) (trie : PpmCountTrie K) (limit : ℕ)
    : PpmCountTrie K :=
  if trie.size ≤ limit then trie
  else
    { trie with
      counts := (((trie.ranked localeCompare).drop limit).map Prod.fst).foldl
        OrderedMap.delete trie.counts }

theorem Valid.bounded (valid : Valid trie) (limit : ℕ)
    : Valid (bounded localeCompare trie limit) := by
  rw [PpmTrie.bounded]
  split
  · exact valid
  · exact valid.delete _

/-- A bound leaves a valid trie. -/
theorem Valid.trim (valid : Valid trie) (maxContexts : Number)
    : Valid (trie.trim localeCompare maxContexts) := by
  cases maxContexts with
  | finite value => exact valid.bounded _
  | nan => exact valid.restore .nan
  | infinite negative =>
      cases negative with
      | false => exact valid
      | true => exact valid.bounded _

/-- The counts of a context within the order are sound and its own. -/
theorem Valid.context (valid : Valid trie) (context : List JsString)
    : RowSound (trie.context context) ∧ (trie.context context).context = context := by
  rw [PpmCountTrie.context]
  cases stored : trie.counts.get? (contextKey context) with
  | none => exact ⟨rowSound_fresh context, rfl⟩
  | some row =>
      exact ⟨valid.sound _ _ stored, (contextKey_injective (valid.keyed _ _ stored)).symm⟩

/-- An observation leaves a valid trie. -/
theorem Valid.observe [IsStrictOrderedRing K] {pow2 : ℚ → K} (fades : Fades pow2)
    (valid : Valid trie) (history : List JsString) (target : JsString) (sequence halfLife : Number)
    : Valid (trie.observe pow2 history target sequence halfLife) := by
  rw [PpmCountTrie.observe]
  split
  · exact valid
  next nonempty =>
    have order_ : ((trie.suffixes history).foldl
        (observeContext pow2 target sequence.nonNegativeCount halfLife) trie).order = trie.order :=
      order_observeContexts (trie.suffixes history)
    have each : ∀ key row,
        ((trie.suffixes history).foldl
          (observeContext pow2 target sequence.nonNegativeCount halfLife) trie).counts.get? key
            = some row
        → RowSound row ∧ row.targets.entries ≠ [] ∧ key = contextKey row.context
          ∧ row.context.length ≤ trie.order := by
      intro key row stored
      by_cases present : ∃ context ∈ trie.suffixes history, contextKey context = key
      · obtain ⟨context, member, rfl⟩ := present
        rw [get?_observeContexts (suffixes_nodup trie history) member] at stored
        obtain rfl := Option.some.inj stored
        obtain ⟨sound, own⟩ := valid.context context
        have same := context_observe pow2 halfLife (trie.context context) target
          sequence.nonNegativeCount
        refine ⟨sound.observe fades nonempty _, populated_observe _ _ _ _ _, ?_, ?_⟩
        · rw [same, own]
        · rw [same, own]
          exact (mem_suffixes.mp member).2
      · rw [get?_observeContexts_other fun context member keyed =>
          present ⟨context, member, keyed⟩] at stored
        exact ⟨valid.sound _ _ stored, valid.populated _ _ stored, valid.keyed _ _ stored,
          valid.short _ _ stored⟩
    exact ⟨fun key row stored => (each key row stored).1,
      fun key row stored => (each key row stored).2.1,
      fun key row stored => (each key row stored).2.2.1,
      fun key row stored => order_ ▸ (each key row stored).2.2.2⟩

end Tries

end SpeculativeAction.PpmTrie
