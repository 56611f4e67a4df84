import Mathlib.Algebra.Order.BigOperators.Group.List
import SpeculativeAction.CandidateStore.Lookup

/-! Eviction and demotion: results are ranked once and retired in that order until the rest is
within the budget, so exactly a prefix of the ranking goes.
-/

namespace SpeculativeAction.CandidateStore

open SpeculativeAction.Library
open SpeculativeAction.ActionSemantics

-- Spending a list until it is enough

section Cut

variable {Item Budget : Type} (enough : Budget → Prop) [DecidablePred enough]
variable (spend : Budget → Item → Budget)

/-- The items that are spent, in order, before the budget is enough. -/
def cut : Budget → List Item → List Item
  | _, [] => []
  | budget, item :: rest =>
      if enough budget then [] else item :: cut (spend budget item) rest

theorem cut_prefix (budget : Budget) (items : List Item)
    : cut enough spend budget items <+: items := by
  induction items generalizing budget with
  | nil => exact List.prefix_refl _
  | cons item rest ih =>
      rw [cut]
      split
      · exact List.nil_prefix
      · exact List.cons_prefix_cons.mpr ⟨rfl, ih _⟩

/-- Nothing is spent that was not needed. -/
theorem cut_needed (budget : Budget) (items : List Item) {fewer : ℕ}
    (less : fewer < (cut enough spend budget items).length)
    : ¬ enough (((cut enough spend budget items).take fewer).foldl spend budget) := by
  induction items generalizing budget fewer with
  | nil => cases less
  | cons item rest ih =>
      rw [cut] at less ⊢
      split at less
      · cases less
      · rename_i lacking
        rw [if_neg lacking]
        cases fewer with
        | zero => exact lacking
        | succ fewer => exact ih _ (Nat.lt_of_succ_lt_succ less)

/-- What is spent is enough, unless everything is spent. -/
theorem cut_settled (budget : Budget) (items : List Item)
    : enough ((cut enough spend budget items).foldl spend budget)
      ∨ cut enough spend budget items = items := by
  induction items generalizing budget with
  | nil => exact .inr rfl
  | cons item rest ih =>
      rw [cut]
      split
      · rename_i already
        exact .inl already
      · rcases ih (spend budget item) with settled | all
        · exact .inl settled
        · exact .inr (congrArg (item :: ·) all)

end Cut

-- The ranking and its budget

section Ranking

variable {Scope Entry : Type} [DecidableEq Scope] [DecidableEq Entry]

/-- The bytes an entry counts for. -/
def Retirement.size (retirement : Retirement Entry) (entry : Entry) : ℚ :=
  (retirement.estimatedBytes entry).nonNegativeFinite

/-- The bytes of some entries, added up one after the other. -/
def Retirement.bytes (retirement : Retirement Entry) (entries : List Entry) : ℚ :=
  entries.foldl (fun total entry => double (total + retirement.size entry)) 0

/-- The bytes that are left of a total, as retiring entries takes them away. -/
def Retirement.left (retirement : Retirement Entry) (total : ℚ) (retired : List Entry) : ℚ :=
  retired.foldl (fun bytes entry => double (bytes - retirement.size entry)) total

def ResultCacheLimits.Within (limits : ResultCacheLimits) (count : ℕ) (bytes : ℚ) : Prop :=
  count ≤ limits.maxEntries.nonNegativeCount ∧ bytes ≤ limits.maxBytes.nonNegativeCount

instance (limits : ResultCacheLimits) (count : ℕ) (bytes : ℚ)
    : Decidable (limits.Within count bytes) :=
  inferInstanceAs (Decidable (_ ∧ _))

/-- The evidence of a registered entry's result. -/
def Store.evidence (settings : Settings Entry) (store : Store Scope Entry) (scope : Scope)
    (entry : Entry)
    : Option ResultCacheEvidence :=
  (store.record settings scope entry).bind fun record => store.records[record]?.bind (·.result)

/-- The entries that may be retired, the first ones first. -/
def ranking (settings : Settings Entry) (retirement : Retirement Entry) (store : Store Scope Entry)
    (scope : Scope) (entries : List Entry)
    : List (RankedEntry Entry) :=
  (entries.filterMap fun entry =>
    (store.record settings scope entry).bind fun record =>
      (store.records[record]?.bind (·.result)).bind fun evidence =>
        if retirement.canRetire entry then
          some {
            entry, indexed := record, evidence
            value := (retirement.score entry evidence retirement.now).nonNegativeFinite
            : RankedEntry Entry
          }
        else none).mergeSort RankedEntry.before

/-- Which entries are retired: the first ones of the ranking, and no more than it takes. -/
structure RetiredByRank (settings : Settings Entry) (retirement : Retirement Entry)
    (store : Store Scope Entry) (scope : Scope) (entries : List Entry)
    (limits : ResultCacheLimits) (retired : List Entry)
    : Prop where
  ranked
    : ((ranking settings retirement store scope entries).map (·.entry)).Perm
        (entries.filter retirement.canRetire)
  valued
    : ∀ item ∈ ranking settings retirement store scope entries,
        store.evidence settings scope item.entry = some item.evidence
        ∧ item.value
          = (retirement.score item.entry item.evidence retirement.now).nonNegativeFinite
  coldFirst
    : (ranking settings retirement store scope entries).Pairwise fun left right =>
        left.evidence.segment = .cold ∧ right.evidence.segment = .hot
        ∨ left.evidence.segment = right.evidence.segment ∧ left.value ≤ right.value
  first : retired <+: (ranking settings retirement store scope entries).map (·.entry)
  idle : limits.Within entries.length (retirement.bytes entries) → retired = []
  needed
    : ∀ fewer < retired.length,
        ¬ limits.Within (entries.length - fewer)
          (retirement.left (retirement.bytes entries) (retired.take fewer))
  settled
    : limits.Within (entries.length - retired.length)
          (retirement.left (retirement.bytes entries) retired)
        ∨ retired = (ranking settings retirement store scope entries).map (·.entry)

omit [DecidableEq Entry] in
theorem before_total (left right : RankedEntry Entry)
    : left.before right || right.before left := by
  unfold RankedEntry.before
  rcases left.evidence.segment with _ | _ <;> rcases right.evidence.segment with _ | _ <;> simp
  · exact le_total _ _
  · exact le_total _ _

omit [DecidableEq Entry] in
theorem before_trans (first second third : RankedEntry Entry) (earlier : first.before second = true)
    (later : second.before third = true)
    : first.before third = true := by
  unfold RankedEntry.before at earlier later ⊢
  revert earlier later
  rcases first.evidence.segment with _ | _ <;> rcases second.evidence.segment with _ | _ <;>
    rcases third.evidence.segment with _ | _ <;> simp
  · exact fun earlier later => earlier.trans later
  · exact fun earlier later => earlier.trans later

omit [DecidableEq Entry] in
theorem coldFirst_of_before {left right : RankedEntry Entry} (before : left.before right = true)
    : left.evidence.segment = .cold ∧ right.evidence.segment = .hot
      ∨ left.evidence.segment = right.evidence.segment ∧ left.value ≤ right.value := by
  unfold RankedEntry.before at before
  revert before
  rcases left.evidence.segment with _ | _ <;> rcases right.evidence.segment with _ | _ <;> simp

end Ranking

-- Retiring in the order of the ranking

section Retiring

variable {Scope Entry : Type} [DecidableEq Scope] [DecidableEq Entry]
variable {settings : Settings Entry} {store : Store Scope Entry} {scope : Scope}

/-- A ranked entry is registered with the evidence it was ranked by. -/
structure Ready (settings : Settings Entry) (scope : Scope) (store : Store Scope Entry)
    (item : RankedEntry Entry)
    : Prop where
  record : store.record settings scope item.entry = some item.indexed
  evidence : (store.records[item.indexed]?.bind (·.result)) = some item.evidence

/-- Retiring one ranked entry keeps the store sound and the others ready. -/
structure RetiresOne (settings : Settings Entry) (scope : Scope)
    (retire : Store Scope Entry → ℕ → Entry → Store Scope Entry)
    : Prop where
  represented
    : ∀ (store : Store Scope Entry) (item : RankedEntry Entry),
        Represented settings False store → Ready settings scope store item →
          Represented settings False (retire store item.indexed item.entry)
  others
    : ∀ (store : Store Scope Entry) (item other : RankedEntry Entry),
        Represented settings False store → Ready settings scope store item →
          Ready settings scope store other → other.indexed ≠ item.indexed →
            Ready settings scope (retire store item.indexed item.entry) other

/-- What retiring an entry leaves to count. -/
def spend (retirement : Retirement Entry) (budget : ℕ × ℚ) (item : RankedEntry Entry) : ℕ × ℚ :=
  (budget.1 - 1, double (budget.2 - retirement.size item.entry))

/-- The ranked entries that go. -/
def outranked (retirement : Retirement Entry) (limits : ResultCacheLimits) (budget : ℕ × ℚ)
    (ranked : List (RankedEntry Entry))
    : List (RankedEntry Entry) :=
  cut (fun budget => limits.Within budget.1 budget.2) (spend retirement) budget ranked

/-- Callbacks retire no replacement, so every ranked entry goes until it is enough. -/
theorem retireRanked_eq {retire : Store Scope Entry → ℕ → Entry → Store Scope Entry}
    (retires : RetiresOne settings scope retire) (retirement : Retirement Entry)
    (limits : ResultCacheLimits) (ranked : List (RankedEntry Entry)) (store : Store Scope Entry)
    (budget : ℕ × ℚ) (represented : Represented settings False store)
    (distinct : (ranked.map (·.indexed)).Nodup)
    (ready : ∀ item ∈ ranked, Ready settings scope store item)
    (may : ∀ item ∈ ranked, retirement.canRetire item.entry = true)
    : retireRanked settings retirement retire scope limits.maxEntries.nonNegativeCount
          limits.maxBytes.nonNegativeCount ranked store budget.1 budget.2
        = ((outranked retirement limits budget ranked).foldl
              (fun store item => retire store item.indexed item.entry) store,
            (outranked retirement limits budget ranked).map (·.entry)) := by
  induction ranked generalizing store budget with
  | nil => rfl
  | cons item rest ih =>
      obtain ⟨fresh, later⟩ := List.nodup_cons.mp distinct
      have first := ready item List.mem_cons_self
      by_cases enough
          : budget.1 ≤ limits.maxEntries.nonNegativeCount
            ∧ budget.2 ≤ limits.maxBytes.nonNegativeCount
      · have nothing : outranked retirement limits budget (item :: rest) = [] := if_pos enough
        rw [nothing, retireRanked, if_pos enough]
        rfl
      · have more
            : outranked retirement limits budget (item :: rest)
              = item :: outranked retirement limits (spend retirement budget item) rest :=
          if_neg enough
        rw [more, retireRanked, if_neg enough,
          if_pos ⟨may item List.mem_cons_self, first.record, first.evidence⟩]
        have others : ∀ other ∈ rest,
            Ready settings scope (retire store item.indexed item.entry) other := by
          intro other member
          refine retires.others store item other represented first
            (ready other (List.mem_cons_of_mem _ member)) fun same => fresh ?_
          exact List.mem_map.mpr ⟨other, member, same⟩
        have tail := ih (retire store item.indexed item.entry) (spend retirement budget item)
          (retires.represented store item represented first) later others
          fun other member => may other (List.mem_cons_of_mem _ member)
        exact congrArg (fun result => (result.1, item.entry :: result.2)) tail

theorem record_iff {entry : Entry} {record : ℕ}
    : store.record settings scope entry = some record
      ↔ store.recordAt scope (settings.id entry) = some record
        ∧ ∃ indexed, store.records[record]? = some indexed ∧ indexed.entry = entry := by
  refine ⟨Linked.recordAt_of_record, fun found => ?_⟩
  obtain ⟨registered, indexed, stored, same⟩ := found
  obtain ⟨state, inScope, entryAt⟩ := Option.bind_eq_some_iff.mp registered
  rw [Store.record, inScope, Option.bind_some, entryAt, Option.bind_some, stored, if_pos]
  rw [Option.map_some, same]

/-- Deleting one entry leaves the others registered with their evidence. -/
theorem retiresOne_delete
    : RetiresOne settings scope fun (store : Store Scope Entry) _ entry =>
        (delete settings store scope entry).1 where
  represented store item represented _ := represented.delete scope item.entry
  others store item other represented first ready different := by
    have deleted := represented.linked.delete first.record
    obtain ⟨registered, indexed, stored, same⟩ := record_iff.mp ready.record
    refine ⟨record_iff.mpr ⟨?_, indexed, ?_, same⟩, ?_⟩
    · rw [deleted.registrations, if_neg, registered]
      intro both
      obtain ⟨own, -⟩ := record_iff.mp first.record
      rw [both.2, own] at registered
      exact different (Option.some.inj registered).symm
    · rw [deleted.others _ different, stored]
    · rw [deleted.others _ different]
      exact ready.evidence

/-- Demoting one entry leaves the others registered with their evidence. -/
theorem retiresOne_demote
    : RetiresOne settings scope fun (store : Store Scope Entry) record _ => demote store record where
  represented store item represented first := represented.demote first.record
  others store item other represented first ready different := by
    obtain ⟨registered, indexed, stored, same⟩ := record_iff.mp ready.record
    have unchanged : (demote store item.indexed).records[other.indexed]?
        = store.records[other.indexed]? := by
      rw [demote, Store.modify, List.getElem?_modify_ne _ _ (Ne.symm different)]
    refine ⟨record_iff.mpr ⟨registered, indexed, ?_, same⟩, ?_⟩
    · rw [unchanged, stored]
    · rw [unchanged]
      exact ready.evidence

end Retiring

-- The cached entries

section Cached

variable {Scope Entry : Type} [DecidableEq Scope] [DecidableEq Entry]
variable {settings : Settings Entry} {store : Store Scope Entry} {scope : Scope}
  {entry : Entry} {retirement : Retirement Entry} {entries : List Entry}

theorem mem_cached (linked : Linked settings store)
    : entry ∈ store.cached scope ↔ (store.evidence settings scope entry).isSome := by
  unfold Store.cached Store.evidence
  rw [List.mem_filterMap]
  constructor
  · intro listed
    obtain ⟨record, registered, kept⟩ := listed
    obtain ⟨indexed, stored, cached⟩ := Option.bind_eq_some_iff.mp kept
    split at cached
    next result =>
      obtain rfl := Option.some.inj cached
      rw [record_of_registered linked registered stored, Option.bind_some, stored,
        Option.bind_some]
      exact result
    next => cases cached
  · intro result
    obtain ⟨evidence, found⟩ := Option.isSome_iff_exists.mp result
    obtain ⟨record, present, kept⟩ := Option.bind_eq_some_iff.mp found
    obtain ⟨registered, indexed, stored, same⟩ := record_iff.mp present
    refine ⟨record, mem_registered.mpr ⟨_, registered⟩, ?_⟩
    rw [stored, Option.bind_some] at kept ⊢
    rw [if_pos (by rw [kept]; rfl), same]

/-- The result of a registered record, if it has one. -/
theorem record_of_cached (linked : Linked settings store) {record : ℕ}
    (registered : record ∈ store.registered scope)
    (kept
      : (store.records[record]?.bind fun indexed =>
          if indexed.result.isSome then some indexed.entry else none) = some entry)
    : store.record settings scope entry = some record := by
  obtain ⟨indexed, stored, cached⟩ := Option.bind_eq_some_iff.mp kept
  split at cached
  next =>
    obtain rfl := Option.some.inj cached
    exact record_of_registered linked registered stored
  next => cases cached

theorem nodup_cached (linked : Linked settings store) (scope : Scope)
    : (store.cached scope).Nodup := by
  unfold Store.cached
  refine List.pairwise_filterMap.mpr ?_
  refine (nodup_registered linked scope).imp_of_mem ?_
  intro _ _ here there different entry kept other kept' same
  have first := record_of_cached linked here kept
  have second := record_of_cached linked there kept'
  rw [same, second] at first
  exact different (Option.some.inj first).symm

/-- Evidence is read through the record of the entry. -/
theorem evidence_iff {evidence : ResultCacheEvidence}
    : store.evidence settings scope entry = some evidence
      ↔ ∃ record,
          store.record settings scope entry = some record
          ∧ (store.records[record]?.bind (·.result)) = some evidence :=
  Option.bind_eq_some_iff

/-- Different entries have different records. -/
theorem record_inj {other : Entry} {record : ℕ}
    (here : store.record settings scope entry = some record)
    (there : store.record settings scope other = some record)
    : entry = other := by
  obtain ⟨-, indexed, stored, same⟩ := record_iff.mp here
  obtain ⟨-, again, storedAgain, sameAgain⟩ := record_iff.mp there
  rw [stored] at storedAgain
  rw [← same, ← sameAgain, Option.some.inj storedAgain]

-- The ranking of cached entries

/-- What a cached entry is ranked by. -/
def rankedOf (retirement : Retirement Entry) (entry : Entry) (record : ℕ)
    (evidence : ResultCacheEvidence)
    : RankedEntry Entry where
  entry := entry
  indexed := record
  evidence := evidence
  value := (retirement.score entry evidence retirement.now).nonNegativeFinite

theorem mem_ranking {item : RankedEntry Entry}
    : item ∈ ranking settings retirement store scope entries
      ↔ item.entry ∈ entries
        ∧ Ready settings scope store item
        ∧ retirement.canRetire item.entry = true
        ∧ item.value
          = (retirement.score item.entry item.evidence retirement.now).nonNegativeFinite := by
  unfold ranking
  rw [List.mem_mergeSort, List.mem_filterMap]
  constructor
  · intro listed
    obtain ⟨entry, member, found⟩ := listed
    obtain ⟨record, present, found⟩ := Option.bind_eq_some_iff.mp found
    obtain ⟨evidence, kept, found⟩ := Option.bind_eq_some_iff.mp found
    split at found
    next may =>
      obtain rfl := Option.some.inj found
      exact ⟨member, ⟨present, kept⟩, may, rfl⟩
    next => cases found
  · intro ranked
    obtain ⟨member, ready, may, value⟩ := ranked
    refine ⟨item.entry, member, ?_⟩
    rw [ready.record, Option.bind_some, ready.evidence, Option.bind_some, if_pos may, ← value]

theorem ranking_entries (cached : ∀ entry ∈ entries, (store.evidence settings scope entry).isSome)
    : ((ranking settings retirement store scope entries).map (·.entry)).Perm
        (entries.filter retirement.canRetire) := by
  have sorted := List.mergeSort_perm (entries.filterMap fun entry =>
    (store.record settings scope entry).bind fun record =>
      (store.records[record]?.bind (·.result)).bind fun evidence =>
        if retirement.canRetire entry then some (rankedOf retirement entry record evidence)
        else none) RankedEntry.before
  refine (sorted.map (·.entry)).trans (List.Perm.of_eq ?_)
  clear sorted
  induction entries with
  | nil => rfl
  | cons entry rest ih =>
      have tail := ih fun other member => cached other (List.mem_cons_of_mem _ member)
      obtain ⟨evidence, found⟩ :=
        Option.isSome_iff_exists.mp (cached entry List.mem_cons_self)
      obtain ⟨record, present, kept⟩ := evidence_iff.mp found
      by_cases may : retirement.canRetire entry = true
      · rw [List.filterMap_cons_some (b := rankedOf retirement entry record evidence)]
        · rw [List.map_cons, tail, List.filter_cons_of_pos may]
          rfl
        · rw [present, Option.bind_some, kept, Option.bind_some, if_pos may]
      · rw [List.filterMap_cons_none, tail, List.filter_cons_of_neg may]
        rw [present, Option.bind_some, kept, Option.bind_some, if_neg may]

theorem ranking_distinct (distinct : entries.Nodup)
    (cached : ∀ entry ∈ entries, (store.evidence settings scope entry).isSome)
    : ((ranking settings retirement store scope entries).map (·.indexed)).Nodup := by
  have entriesDistinct : ((ranking settings retirement store scope entries).map (·.entry)).Nodup :=
    (ranking_entries cached).nodup_iff.mpr (distinct.filter _)
  refine List.pairwise_map.mpr ?_
  refine (List.pairwise_map.mp entriesDistinct).imp_of_mem fun here there different same => ?_
  have first := (mem_ranking.mp here).2.1.record
  have second := (mem_ranking.mp there).2.1.record
  rw [same] at first
  exact different (record_inj first second)

omit [DecidableEq Entry] in
/-- What is left to count is what was there without what went. -/
theorem foldl_spend (retirement : Retirement Entry) (count : ℕ) (bytes : ℚ)
    (gone : List (RankedEntry Entry))
    : gone.foldl (spend retirement) (count, bytes)
      = (count - gone.length, retirement.left bytes (gone.map (·.entry))) := by
  induction gone generalizing count bytes with
  | nil => rfl
  | cons item rest ih =>
      rw [List.foldl_cons, spend, ih]
      refine Prod.ext ?_ rfl
      rw [List.length_cons]
      dsimp only
      omega

/-- Retiring the excess retires a prefix of the ranking, one entry after the other. -/
theorem retireExcess_byRank {retire : Store Scope Entry → ℕ → Entry → Store Scope Entry}
    (retires : RetiresOne settings scope retire) (represented : Represented settings False store)
    (retirement : Retirement Entry) (limits : ResultCacheLimits) (distinct : entries.Nodup)
    (cached : ∀ entry ∈ entries, (store.evidence settings scope entry).isSome)
    : ∃ gone,
        gone <+: ranking settings retirement store scope entries
        ∧ retireExcess settings retirement store scope entries limits retire
          = (gone.foldl (fun store item => retire store item.indexed item.entry) store,
              gone.map (·.entry))
        ∧ RetiredByRank settings retirement store scope entries limits (gone.map (·.entry)) := by
  have ranked := @ranking_entries _ _ _ _ settings store scope retirement entries cached
  have valued : ∀ item ∈ ranking settings retirement store scope entries,
      store.evidence settings scope item.entry = some item.evidence
        ∧ item.value
          = (retirement.score item.entry item.evidence retirement.now).nonNegativeFinite := by
    intro item listed
    obtain ⟨-, ready, -, value⟩ := mem_ranking.mp listed
    exact ⟨evidence_iff.mpr ⟨_, ready.record, ready.evidence⟩, value⟩
  have coldFirst := (List.pairwise_mergeSort before_trans before_total _ :
    (ranking settings retirement store scope entries).Pairwise _).imp fun before =>
      coldFirst_of_before before
  by_cases within : limits.Within entries.length (retirement.bytes entries)
  · refine ⟨[], List.nil_prefix, if_pos within, ?_⟩
    exact ⟨ranked, valued, coldFirst, List.nil_prefix, fun _ => rfl,
      fun fewer less => absurd less (Nat.not_lt_zero _), .inl within⟩
  · let budget := (entries.length, retirement.bytes entries)
    let gone := outranked retirement limits budget
      (ranking settings retirement store scope entries)
    have start : gone <+: ranking settings retirement store scope entries := cut_prefix _ _ _ _
    refine ⟨gone, start, ?_, ranked, valued, coldFirst, start.map _, ?_, ?_, ?_⟩
    · have all := retireRanked_eq retires retirement limits
        (ranking settings retirement store scope entries) store budget represented
        (ranking_distinct distinct cached) (fun item listed => (mem_ranking.mp listed).2.1)
        fun item listed => (mem_ranking.mp listed).2.2.1
      exact (if_neg within).trans all
    · exact fun already => absurd already within
    · intro fewer less
      rw [List.length_map] at less
      have lacking
          : ¬ limits.Within ((gone.take fewer).foldl (spend retirement) budget).1
              ((gone.take fewer).foldl (spend retirement) budget).2 :=
        cut_needed _ (spend retirement) budget _ less
      rw [foldl_spend] at lacking
      rw [← List.map_take]
      rw [List.length_take, Nat.min_eq_left less.le] at lacking
      exact lacking
    · rcases cut_settled (fun budget => limits.Within budget.1 budget.2) (spend retirement) budget
        (ranking settings retirement store scope entries) with settled | all
      · rw [foldl_spend] at settled
        rw [List.length_map]
        exact .inl settled
      · exact .inr (congrArg _ all)

end Cached

-- Byte counts that are not rounded

section Whole

variable {Entry : Type} {retirement : Retirement Entry} {entries : List Entry}

/-- Sizes are whole and so small in total that no sum of them is rounded. -/
structure Whole (retirement : Retirement Entry) (entries : List Entry) : Prop where
  whole : ∀ entry ∈ entries, ∃ size : ℕ, retirement.size entry = size
  small : (entries.map retirement.size).sum ≤ 2 ^ 53

theorem double_natCast {whole : ℕ} (small : (whole : ℚ) ≤ 2 ^ 53) : double whole = whole := by
  have digits : whole ≤ 2 ^ 53 := by exact_mod_cast small
  rw [double, roundBinary64_natCast digits, Option.getD_some]

theorem size_nonneg (retirement : Retirement Entry) (entry : Entry) : 0 ≤ retirement.size entry :=
  Number.nonNegativeFinite_nonneg _

theorem sum_nonneg (retirement : Retirement Entry) (entries : List Entry)
    : 0 ≤ (entries.map retirement.size).sum := by
  refine List.sum_nonneg fun size listed => ?_
  obtain ⟨entry, -, rfl⟩ := List.mem_map.mp listed
  exact size_nonneg retirement entry

theorem foldl_add_whole {start : ℕ}
    (whole : ∀ entry ∈ entries, ∃ size : ℕ, retirement.size entry = size)
    (small : start + (entries.map retirement.size).sum ≤ 2 ^ 53)
    : entries.foldl (fun total entry => double (total + retirement.size entry)) (start : ℚ)
      = start + (entries.map retirement.size).sum := by
  induction entries generalizing start with
  | nil => simp
  | cons entry rest ih =>
      obtain ⟨size, same⟩ := whole entry List.mem_cons_self
      rw [List.map_cons, List.sum_cons, ← add_assoc, same, ← Nat.cast_add] at small
      have fits : ((start + size : ℕ) : ℚ) ≤ 2 ^ 53 :=
        (le_add_of_nonneg_right (sum_nonneg retirement rest)).trans small
      rw [List.foldl_cons, same, ← Nat.cast_add, double_natCast fits,
        ih (fun other member => whole other (List.mem_cons_of_mem _ member)) small,
        List.map_cons, List.sum_cons, same, Nat.cast_add, add_assoc]

/-- The bytes of whole sizes are their sum. -/
theorem Whole.bytes_eq (whole : Whole retirement entries)
    : retirement.bytes entries = (entries.map retirement.size).sum := by
  have small : ((0 : ℕ) : ℚ) + (entries.map retirement.size).sum ≤ 2 ^ 53 := by
    simpa using whole.small
  have sum := foldl_add_whole whole.whole small
  rw [Nat.cast_zero, zero_add] at sum
  exact sum

theorem Whole.sum_eq (whole : Whole retirement entries)
    : ∃ total : ℕ, (entries.map retirement.size).sum = total := by
  have sizes := whole.whole
  clear whole
  induction entries with
  | nil => exact ⟨0, rfl⟩
  | cons entry rest ih =>
      obtain ⟨size, same⟩ := sizes entry List.mem_cons_self
      obtain ⟨total, sum⟩ := ih fun other member => sizes other (List.mem_cons_of_mem _ member)
      exact ⟨size + total, by rw [List.map_cons, List.sum_cons, same, sum, Nat.cast_add]⟩

theorem Whole.perm {others : List Entry} (whole : Whole retirement entries)
    (same : entries.Perm others)
    : Whole retirement others where
  whole entry member := whole.whole entry (same.mem_iff.mpr member)
  small := (same.map retirement.size).sum_eq ▸ whole.small

theorem Whole.of_append (retired : List Entry) {rest : List Entry}
    (whole : Whole retirement (retired ++ rest))
    : Whole retirement rest where
  whole entry member := whole.whole entry (List.mem_append_right _ member)
  small := by
    have small := whole.small
    rw [List.map_append, List.sum_append] at small
    exact (le_add_of_nonneg_left (sum_nonneg retirement retired)).trans small

/-- Taking whole sizes away leaves the sum of the rest, by induction over what is taken. -/
theorem Whole.left_eq {retired rest : List Entry} (whole : Whole retirement (retired ++ rest))
    : retirement.left ((retired ++ rest).map retirement.size).sum retired
      = (rest.map retirement.size).sum := by
  induction retired with
  | nil => rfl
  | cons entry more ih =>
      have later : Whole retirement (more ++ rest) := Whole.of_append [entry] whole
      obtain ⟨total, sum⟩ := later.sum_eq
      have kept : double ((more ++ rest).map retirement.size).sum
          = ((more ++ rest).map retirement.size).sum := by
        rw [sum]
        exact double_natCast (sum ▸ later.small)
      rw [List.cons_append, List.map_cons, List.sum_cons, Retirement.left, List.foldl_cons,
        add_sub_cancel_left, kept]
      exact ih later

end Whole

-- Evicting

section Eviction

variable {Scope Entry : Type} [DecidableEq Scope] [DecidableEq Entry]
variable {settings : Settings Entry} {store : Store Scope Entry} {scope : Scope}

/-- What trimming a scope does. -/
structure TrimmedByRank (settings : Settings Entry) (retirement : Retirement Entry)
    (store : Store Scope Entry) (scope : Scope) (limits : ResultCacheLimits)
    (result : Store Scope Entry × List Entry)
    : Prop where
  retired
    : RetiredByRank settings retirement store scope (store.cached scope) limits result.2
  remaining
    : (result.1.cached scope).Perm ((store.cached scope).filter fun entry => entry ∉ result.2)
  within
    : Whole retirement (store.cached scope) →
        limits.Within (result.1.cached scope).length (retirement.bytes (result.1.cached scope))
        ∨ ∀ entry ∈ result.1.cached scope, retirement.canRetire entry = false

/-- Deletion leaves no evidence of the entry, and that of every other one. -/
theorem evidence_delete (represented : Represented settings False store) {item : RankedEntry Entry}
    (ready : Ready settings scope store item) (other : Entry)
    : (delete settings store scope item.entry).1.evidence settings scope other
      = if other = item.entry then none else store.evidence settings scope other := by
  have deleted := represented.linked.delete ready.record
  obtain ⟨own, -⟩ := record_iff.mp ready.record
  by_cases same : other = item.entry
  · rw [if_pos same]
    refine Option.eq_none_iff_forall_ne_some.mpr fun evidence found => ?_
    obtain ⟨record, present, -⟩ := evidence_iff.mp found
    obtain ⟨registered, -⟩ := record_iff.mp present
    rw [deleted.registrations, if_pos ⟨rfl, congrArg settings.id same⟩] at registered
    cases registered
  · rw [if_neg same]
    refine Option.ext fun evidence => evidence_iff.trans ?_
    constructor
    · intro found
      obtain ⟨record, present, kept⟩ := found
      obtain ⟨registered, indexed, stored, entry⟩ := record_iff.mp present
      rw [deleted.registrations] at registered
      split at registered
      next => cases registered
      next elsewhere =>
        have different : record ≠ item.indexed := fun equal =>
          elsewhere ⟨rfl, represented.linked.same_id (equal ▸ registered) own⟩
        rw [deleted.others _ different] at stored kept
        exact evidence_iff.mpr ⟨record, record_iff.mpr ⟨registered, indexed, stored, entry⟩, kept⟩
    · intro found
      obtain ⟨record, present, kept⟩ := evidence_iff.mp found
      have different : record ≠ item.indexed := fun equal =>
        same (record_inj (equal ▸ present) ready.record)
      have after := retiresOne_delete.others store item
        { entry := other, indexed := record, evidence := evidence, value := 0 } represented ready
        ⟨present, kept⟩ different
      exact ⟨record, after.record, after.evidence⟩

/-- What retiring a prefix of the ranking leaves, by induction over what is retired. -/
theorem foldl_retires {retire : Store Scope Entry → ℕ → Entry → Store Scope Entry}
    (retires : RetiresOne settings scope retire)
    (replaced : Option ResultCacheEvidence → Option ResultCacheEvidence)
    (one
      : ∀ (store : Store Scope Entry) (item : RankedEntry Entry),
          Represented settings False store → Ready settings scope store item →
            ∀ other,
              (retire store item.indexed item.entry).evidence settings scope other
                = if other = item.entry then replaced (store.evidence settings scope other)
                  else store.evidence settings scope other)
    (gone : List (RankedEntry Entry)) (store : Store Scope Entry)
    (represented : Represented settings False store)
    (distinct : (gone.map (·.indexed)).Nodup)
    (ready : ∀ item ∈ gone, Ready settings scope store item)
    : Represented settings False
          (gone.foldl (fun store item => retire store item.indexed item.entry) store)
      ∧ ∀ other,
          (gone.foldl (fun store item => retire store item.indexed item.entry) store).evidence
              settings scope other
            = if other ∈ gone.map (·.entry) then replaced (store.evidence settings scope other)
              else store.evidence settings scope other := by
  induction gone generalizing store with
  | nil => exact ⟨represented, fun other => (if_neg List.not_mem_nil).symm⟩
  | cons item rest ih =>
      obtain ⟨fresh, later⟩ := List.nodup_cons.mp distinct
      have first := ready item List.mem_cons_self
      have elsewhere : ∀ other ∈ rest, other.indexed ≠ item.indexed := fun other member same =>
        fresh (List.mem_map.mpr ⟨other, member, same⟩)
      obtain ⟨represented', evidence⟩ := ih (retire store item.indexed item.entry)
        (retires.represented store item represented first) later fun other member =>
          retires.others store item other represented first
            (ready other (List.mem_cons_of_mem _ member)) (elsewhere other member)
      refine ⟨represented', fun other => ?_⟩
      rw [List.foldl_cons, evidence, one store item represented first, List.map_cons]
      by_cases own : other = item.entry
      · have absent : other ∉ rest.map (·.entry) := by
          intro member
          obtain ⟨again, listed, same⟩ := List.mem_map.mp member
          have there := (ready again (List.mem_cons_of_mem _ listed)).record
          rw [same, own, first.record] at there
          exact elsewhere again listed (Option.some.inj there).symm
        rw [if_neg absent, if_pos own, if_pos (own ▸ List.mem_cons_self)]
      · by_cases listed : other ∈ rest.map (·.entry)
        · rw [if_pos listed, if_neg own, if_pos (List.mem_cons_of_mem _ listed)]
        · rw [if_neg listed, if_neg own, if_neg]
          exact fun member => (List.mem_cons.mp member).elim own listed

/-- Of distinct entries, some of which are retired, the retired ones and the rest. -/
theorem perm_retired {entries retired : List Entry} (distinct : retired.Nodup) (all : entries.Nodup)
    (some_ : ∀ entry ∈ retired, entry ∈ entries)
    : entries.Perm (retired ++ entries.filter fun entry => entry ∉ retired) := by
  refine (List.perm_ext_iff_of_nodup all ?_).mpr fun entry => ?_
  · refine distinct.append (all.filter _) fun entry here there => ?_
    have gone := (List.mem_filter.mp there).2
    exact of_decide_eq_true gone here
  · rw [List.mem_append, List.mem_filter]
    constructor
    · intro listed
      by_cases gone : entry ∈ retired
      · exact .inl gone
      · exact .inr ⟨listed, decide_eq_true gone⟩
    · exact fun either => either.elim (some_ entry) (·.1)

/-- Where sizes are whole, what is left to count is what is counted again. -/
theorem RetiredByRank.within {retirement : Retirement Entry} {entries rest retired : List Entry}
    {limits : ResultCacheLimits}
    (byRank : RetiredByRank settings retirement store scope entries limits retired)
    (all : entries.Nodup) (whole : Whole retirement entries)
    (remaining : rest.Perm (entries.filter fun entry => entry ∉ retired))
    : limits.Within rest.length (retirement.bytes rest)
      ∨ ∀ entry ∈ rest, retirement.canRetire entry = false := by
  have ranked := byRank.ranked
  have retiredDistinct : retired.Nodup :=
    byRank.first.sublist.nodup (ranked.nodup_iff.mpr (all.filter _))
  have some_ : ∀ entry ∈ retired, entry ∈ entries := fun entry member =>
    List.mem_of_mem_filter (ranked.mem_iff.mp (byRank.first.subset member))
  have parts := (perm_retired retiredDistinct all some_).trans
    (List.Perm.append_left retired remaining.symm)
  rcases byRank.settled with within | every
  · refine .inl ?_
    have split_ := whole.perm parts
    have counted : entries.length - retired.length = rest.length := by
      rw [parts.length_eq, List.length_append, Nat.add_sub_cancel_left]
    rw [counted, whole.bytes_eq, (parts.map retirement.size).sum_eq, split_.left_eq] at within
    rw [(split_.of_append retired).bytes_eq]
    exact within
  · refine .inr fun entry member => ?_
    obtain ⟨listed, kept⟩ := List.mem_filter.mp (remaining.mem_iff.mp member)
    by_contra may
    refine of_decide_eq_true kept ?_
    rw [every]
    exact ranked.mem_iff.mpr (List.mem_filter.mpr ⟨listed, Bool.not_eq_false _ ▸ may⟩)

/-- Trimming evicts by rank. -/
theorem trim_byRank (represented : Represented settings False store) (retirement : Retirement Entry)
    (scope : Scope) (limits : ResultCacheLimits)
    : TrimmedByRank settings retirement store scope limits
        (trim settings retirement store scope limits) := by
  have all := nodup_cached represented.linked scope
  have cached : ∀ entry ∈ store.cached scope, (store.evidence settings scope entry).isSome :=
    fun entry => (mem_cached represented.linked).mp
  obtain ⟨gone, start, same, byRank⟩ :=
    retireExcess_byRank retiresOne_delete represented retirement limits all cached
  have ready : ∀ item ∈ gone, Ready settings scope store item := fun item member =>
    (mem_ranking.mp (start.subset member)).2.1
  have distinct : (gone.map (·.indexed)).Nodup :=
    (start.map _).sublist.nodup (ranking_distinct all cached)
  obtain ⟨represented', evidence⟩ := foldl_retires retiresOne_delete (fun _ => none)
    (fun store item represented first => evidence_delete represented first) gone store represented
    distinct ready
  rw [trim, same]
  have remaining
      : ((gone.foldl (fun store item => (delete settings store scope item.entry).1) store).cached
          scope).Perm ((store.cached scope).filter fun entry => entry ∉ gone.map (·.entry)) := by
    refine (List.perm_ext_iff_of_nodup (nodup_cached represented'.linked scope)
      (all.filter _)).mpr fun entry => ?_
    rw [mem_cached represented'.linked, evidence, List.mem_filter, mem_cached represented.linked]
    split
    next member => simp [member]
    next member => simp [member]
  exact ⟨byRank, remaining, fun whole => byRank.within all whole remaining⟩

end Eviction

-- Demoting

section Demotion

variable {Scope Entry : Type} [DecidableEq Scope] [DecidableEq Entry]
variable {settings : Settings Entry} {store : Store Scope Entry} {scope : Scope}

/-- The part of the budget that hot entries may take. -/
def hotShare (limits : ResultCacheLimits) : ResultCacheLimits :=
  let fraction := finiteFraction (limits.hotFraction.getD (.finite (double (4 / 5))))
  let capacity := limits.maxEntries.nonNegativeCount
  let maxEntries : ℚ :=
    if capacity = 0 ∨ fraction = 0 then 0 else max 1 ⌊double (capacity * fraction)⌋
  let maxBytes : ℚ := ⌊double (limits.maxBytes.nonNegativeCount * fraction)⌋
  { maxEntries := .finite maxEntries, maxBytes := .finite maxBytes }

/-- The entries of the hot segment. -/
def hotEntries (settings : Settings Entry) (store : Store Scope Entry) (scope : Scope)
    : List Entry :=
  (store.cached scope).filter fun entry =>
    (store.evidence settings scope entry).any fun result => decide (result.segment = .hot)

/-- What recording a hit of an entry does. -/
structure HitDemotesByRank (settings : Settings Entry) (retirement : Retirement Entry)
    (store : Store Scope Entry) (scope : Scope) (entry : Entry) (limits : ResultCacheLimits)
    (result : Store Scope Entry × List Entry)
    : Prop where
  values : ∀ other, result.1.values other = store.values other
  cached : ∀ other, result.1.cached other = store.cached other
  missed : entry ∉ store.cached scope → result = (store, [])
  demoted
    : entry ∈ store.cached scope →
        RetiredByRank settings { retirement with canRetire := fun _ => true }
          (noteActorHit settings store scope entry retirement.now) scope
          (hotEntries settings (noteActorHit settings store scope entry retirement.now) scope)
          (hotShare limits) result.2
  remaining
    : entry ∈ store.cached scope →
        hotEntries settings result.1 scope
          = (hotEntries settings (noteActorHit settings store scope entry retirement.now)
              scope).filter fun other => other ∉ result.2
  within
    : entry ∈ store.cached scope → Whole retirement (store.cached scope) →
        (hotShare limits).Within (hotEntries settings result.1 scope).length
          (retirement.bytes (hotEntries settings result.1 scope))

/-- One record of a store is changed, and keeps its entry and whether it has a result. -/
structure ModifiesResult (store after : Store Scope Entry) (record : ℕ)
    (change : IndexedEntry Entry → IndexedEntry Entry)
    : Prop where
  scopes : after.scopes = store.scopes
  records : after.records = store.records.modify record change
  entries : ∀ indexed, (change indexed).entry = indexed.entry
  results
    : ∀ indexed, store.records[record]? = some indexed →
        (change indexed).result.isSome = indexed.result.isSome

namespace ModifiesResult

variable {after : Store Scope Entry} {record : ℕ}
variable {change : IndexedEntry Entry → IndexedEntry Entry}

omit [DecidableEq Entry] in
theorem registered (modifies : ModifiesResult store after record change) (scope : Scope)
    : after.registered scope = store.registered scope := by
  rw [Store.registered, modifies.scopes, Store.registered]

omit [DecidableEq Entry] in
theorem values (modifies : ModifiesResult store after record change) (scope : Scope)
    : after.values scope = store.values scope := by
  rw [Store.values, modifies.registered, Store.values]
  refine List.filterMap_congr fun reader _ => ?_
  rw [modifies.records, List.getElem?_modify]
  cases store.records[reader]? with
  | none => rfl
  | some indexed =>
      simp only [Option.map_eq_map, Option.map_some]
      split
      next => rw [modifies.entries]
      next => rfl

omit [DecidableEq Entry] in
theorem cached (modifies : ModifiesResult store after record change) (scope : Scope)
    : after.cached scope = store.cached scope := by
  rw [Store.cached, modifies.registered, Store.cached]
  refine List.filterMap_congr fun reader _ => ?_
  rw [modifies.records, List.getElem?_modify]
  cases stored : store.records[reader]? with
  | none => rfl
  | some indexed =>
      simp only [Option.map_eq_map, Option.map_some, Option.bind_some]
      split
      next same => rw [modifies.entries, modifies.results indexed (same ▸ stored)]
      next => rfl

end ModifiesResult

omit [DecidableEq Scope] [DecidableEq Entry] in
theorem demote_modifies (store : Store Scope Entry) (record : ℕ)
    : ModifiesResult store (demote store record) record fun indexed =>
        { indexed with result := indexed.result.map ({ · with segment := .cold }) } where
  scopes := rfl
  records := rfl
  entries _ := rfl
  results _ _ := Option.isSome_map

/-- Noting a hit changes at most the evidence of one record. -/
theorem noteActorHit_modifies (store : Store Scope Entry) (entry : Entry) (now : Number)
    : noteActorHit settings store scope entry now = store
      ∨ ∃ record change,
          ModifiesResult store (noteActorHit settings store scope entry now) record change := by
  unfold noteActorHit
  split
  next => exact .inl rfl
  next record present =>
    split
    next => exact .inl rfl
    next result kept =>
      refine .inr ⟨record, _, rfl, rfl, fun _ => rfl, fun indexed stored => ?_⟩
      rw [stored, Option.bind_some] at kept
      rw [kept]
      rfl

theorem noteActorHit_of_missed (represented : Represented settings False store) {entry : Entry}
    (missed : entry ∉ store.cached scope) (now : Number)
    : noteActorHit settings store scope entry now = store := by
  have nothing : store.evidence settings scope entry = none := by
    rw [mem_cached represented.linked] at missed
    simpa using missed
  unfold noteActorHit
  split
  next => rfl
  next record present =>
    split
    next => rfl
    next result kept =>
      rw [Store.evidence, present, Option.bind_some, kept] at nothing
      cases nothing

theorem noteActorHit_keeps (settings : Settings Entry) (store : Store Scope Entry) (scope : Scope)
    (entry : Entry) (now : Number) (other : Scope)
    : (noteActorHit settings store scope entry now).values other = store.values other
      ∧ (noteActorHit settings store scope entry now).cached other = store.cached other := by
  rcases noteActorHit_modifies store entry now with same | ⟨record, change, modifies⟩
  · rw [same]
    exact ⟨rfl, rfl⟩
  · exact ⟨modifies.values other, modifies.cached other⟩

/-- Evidence that is no longer hot. -/
def cooled (evidence : Option ResultCacheEvidence) : Option ResultCacheEvidence :=
  evidence.map ({ · with segment := .cold })

theorem record_demote (record : ℕ) (other : Entry)
    : (demote store record).record settings scope other = store.record settings scope other := by
  have entries (reader : ℕ)
      : (demote store record).records[reader]?.map (·.entry)
        = store.records[reader]?.map (·.entry) := by
    rw [demote, Store.modify, List.getElem?_modify]
    cases store.records[reader]? with
    | none => rfl
    | some indexed =>
        simp only [Option.map_eq_map, Option.map_some]
        split <;> rfl
  unfold Store.record
  simp only [entries]
  rfl

theorem evidence_demote {item : RankedEntry Entry} (ready : Ready settings scope store item)
    (other : Entry)
    : (demote store item.indexed).evidence settings scope other
      = if other = item.entry then cooled (store.evidence settings scope other)
        else store.evidence settings scope other := by
  rw [Store.evidence, record_demote, Store.evidence]
  cases present : store.record settings scope other with
  | none =>
      split
      next same => rw [same, ready.record] at present; cases present
      next => rfl
  | some record =>
      rw [Option.bind_some, Option.bind_some, demote, Store.modify, List.getElem?_modify]
      by_cases own : other = item.entry
      · have here : item.indexed = record := by
          rw [own, ready.record] at present
          exact Option.some.inj present
        rw [if_pos own]
        cases store.records[record]? with
        | none => rfl
        | some indexed => simp only [Option.map_eq_map, Option.map_some, Option.bind_some, cooled,
            if_pos here]
      · have elsewhere : item.indexed ≠ record := fun same =>
          own (record_inj present (same ▸ ready.record))
        rw [if_neg own]
        cases store.records[record]? with
        | none => rfl
        | some indexed => simp only [Option.map_eq_map, Option.map_some, Option.bind_some,
            if_neg elsewhere]

omit [DecidableEq Entry] in
/-- Demotions delete no entry. -/
theorem foldl_demote_keeps (gone : List (RankedEntry Entry)) (store : Store Scope Entry)
    (other : Scope)
    : (gone.foldl (fun store item => demote store item.indexed) store).values other
        = store.values other
      ∧ (gone.foldl (fun store item => demote store item.indexed) store).cached other
        = store.cached other := by
  induction gone generalizing store with
  | nil => exact ⟨rfl, rfl⟩
  | cons item rest ih =>
      obtain ⟨values, cached⟩ := ih (demote store item.indexed)
      have one := demote_modifies store item.indexed
      exact ⟨values.trans (one.values other), cached.trans (one.cached other)⟩

omit [DecidableEq Entry] in
theorem Whole.filter {retirement : Retirement Entry} {entries : List Entry}
    (whole : Whole retirement entries) (keep : Entry → Bool)
    : Whole retirement (entries.filter keep) := by
  have parts := (List.filter_append_perm keep entries).symm.trans List.perm_append_comm
  exact (whole.perm parts).of_append _

theorem recordActorHit_of_cached {entry : Entry}
    (cached : (store.evidence settings scope entry).isSome = true) (retirement : Retirement Entry)
    (limits : ResultCacheLimits)
    : recordActorHit settings retirement store scope entry (some limits)
      = retireExcess settings { retirement with canRetire := fun _ => true }
          (noteActorHit settings store scope entry retirement.now) scope
          (hotEntries settings (noteActorHit settings store scope entry retirement.now) scope)
          (hotShare limits) fun store record _ => demote store record := by
  unfold Store.evidence at cached
  unfold recordActorHit
  dsimp only
  rw [cached]
  rfl

/-- Recording a hit demotes by rank. -/
theorem recordActorHit_byRank (represented : Represented settings False store)
    (retirement : Retirement Entry) (scope : Scope) (entry : Entry) (limits : ResultCacheLimits)
    : HitDemotesByRank settings retirement store scope entry limits
        (recordActorHit settings retirement store scope entry (some limits)) := by
  by_cases listed : entry ∈ store.cached scope
  · let hit := noteActorHit settings store scope entry retirement.now
    have hitRepresented : Represented settings False hit :=
      represented.noteActorHit scope entry retirement.now
    have hitKeeps := noteActorHit_keeps settings store scope entry retirement.now
    have all : (hotEntries settings hit scope).Nodup :=
      (nodup_cached hitRepresented.linked scope).filter _
    have cached : ∀ other ∈ hotEntries settings hit scope,
        (hit.evidence settings scope other).isSome := fun other member =>
      (mem_cached hitRepresented.linked).mp (List.mem_of_mem_filter member)
    obtain ⟨gone, start, same, byRank⟩ := retireExcess_byRank retiresOne_demote hitRepresented
      { retirement with canRetire := fun _ => true } (hotShare limits) all cached
    have ready : ∀ item ∈ gone, Ready settings scope hit item := fun item member =>
      (mem_ranking.mp (start.subset member)).2.1
    have distinct : (gone.map (·.indexed)).Nodup :=
      (start.map _).sublist.nodup (ranking_distinct all cached)
    obtain ⟨-, evidence⟩ := foldl_retires retiresOne_demote cooled
      (fun store item represented first => evidence_demote first) gone hit hitRepresented
      distinct ready
    have keeps := foldl_demote_keeps gone hit
    have remaining
        : hotEntries settings (gone.foldl (fun store item => demote store item.indexed) hit) scope
          = (hotEntries settings hit scope).filter fun other =>
              other ∉ gone.map (·.entry) := by
      rw [hotEntries, (keeps scope).2, hotEntries, List.filter_filter]
      refine List.filter_congr fun other _ => ?_
      rw [evidence]
      split
      next member =>
        simp only [member, not_true_eq_false, decide_false, Bool.false_and, cooled]
        cases hit.evidence settings scope other <;> rfl
      next member => simp only [member, not_false_eq_true, decide_true, Bool.true_and]
    rw [recordActorHit_of_cached ((mem_cached represented.linked).mp listed), same]
    refine ⟨fun other => (keeps other).1.trans (hitKeeps other).1,
      fun other => (keeps other).2.trans (hitKeeps other).2,
      fun missed => absurd listed missed, fun _ => byRank, fun _ => remaining, fun _ whole => ?_⟩
    have hotWhole : Whole retirement (hotEntries settings hit scope) :=
      Whole.filter ((hitKeeps scope).2 ▸ whole) _
    rcases byRank.within all ⟨hotWhole.whole, hotWhole.small⟩ (List.Perm.of_eq remaining)
      with within | none_
    · exact within
    · -- every hot entry may be demoted, so none is left
      have nothing
          : hotEntries settings (gone.foldl (fun store item => demote store item.indexed) hit) scope
            = [] :=
        List.eq_nil_iff_forall_not_mem.mpr fun other member =>
          Bool.false_ne_true (none_ other member).symm
      rw [nothing]
      exact ⟨Nat.zero_le _, Nat.cast_nonneg _⟩
  · have missed := noteActorHit_of_missed represented listed retirement.now
    have nothing : recordActorHit settings retirement store scope entry (some limits)
        = (store, []) := by
      rw [mem_cached represented.linked, Bool.not_eq_true] at listed
      unfold Store.evidence at listed
      unfold recordActorHit
      dsimp only
      rw [listed, missed]
    rw [nothing]
    exact ⟨fun _ => rfl, fun _ => rfl, fun _ => rfl, fun listed' => absurd listed' listed,
      fun listed' => absurd listed' listed, fun listed' => absurd listed' listed⟩

end Demotion

-- Reachable stores

section Reachable

variable {Scope Entry : Type} [DecidableEq Scope] [DecidableEq Entry]

/-- In every reachable store, trimming evicts and a hit demotes by rank. -/
theorem afterActions_evicts_byRank (settings : Settings Entry) (actions : List (Action Scope Entry))
    (retirement : Retirement Entry) (scope : Scope) (limits : ResultCacheLimits)
    : TrimmedByRank settings retirement (afterActions settings actions) scope limits
          (trim settings retirement (afterActions settings actions) scope limits)
        ∧ ∀ entry,
            HitDemotesByRank settings retirement (afterActions settings actions) scope entry limits
              (recordActorHit settings retirement (afterActions settings actions) scope entry
                (some limits)) := by
  have represented : Represented settings False (afterActions settings actions) :=
    afterActions_represented_of_promised settings False actions fun impossible => impossible.elim
  exact ⟨trim_byRank represented retirement scope limits,
    fun entry => recordActorHit_byRank represented retirement scope entry limits⟩

end Reachable

-- Limits that are not finite, sizes that are rounded, and a hit that is none

section Exceptions

/-- `amount <= limit` -/
def atMost (amount : ℚ) : Number → Bool
  | .finite limit => decide (amount ≤ limit)
  | .infinite negative => !negative
  | .nan => false

def plainSettings : Settings ℕ where
  id entry := List.replicate entry (unit 'a')
  key _ := none
  projectors := []
  path :=
    { separator := unit '/', resolve := List.flatten, dirname := id, isAbsolute := fun _ => true }

def settling (entry : ℕ) : Action Unit ℕ :=
  .settle () entry { inputSource := false, reconstruct := false, inputResources := none }
    (.finite 0) true

/-- The first of two entries is so large that the other one is rounded away. -/
def roundedRetirement : Retirement ℕ where
  estimatedBytes entry := if entry = 0 then .finite 9007199254740992 else .finite 1
  score _ _ _ := .finite 0
  now := .finite 0

def unboundedLimits : ResultCacheLimits :=
  { maxEntries := .infinite false, maxBytes := .infinite false }

def byteLimits : ResultCacheLimits := { maxEntries := .finite 2, maxBytes := .finite 0 }

def noLimits : ResultCacheLimits := { maxEntries := .finite 0, maxBytes := .finite 0 }

/-- Nothing is left to count, but an entry is left. -/
theorem trim_rounded
    : ((trim plainSettings roundedRetirement
        (afterActions plainSettings [settling 0, settling 1]) () byteLimits).1.cached ())
      = [1] := by
  unfold trim retireExcess
  dsimp only
  rw [if_neg (by decide +kernel), List.mergeSort_of_pairwise (by decide +kernel)]
  decide +kernel

theorem trim_unbounded
    : (trim plainSettings roundedRetirement (afterActions plainSettings [settling 1]) ()
        unboundedLimits).2
      = [1] := by
  unfold trim retireExcess
  dsimp only
  rw [if_neg (by decide +kernel), List.mergeSort_of_pairwise (by decide +kernel)]
  decide +kernel

/-- Infinite limits count as none at all; what rounding took away is not evicted; and the hit of
an entry without a result demotes nothing.
-/
theorem eviction_not_always_exact
    : (¬ ∀ (actions : List (Action Unit ℕ)) (retirement : Retirement ℕ)
          (limits : ResultCacheLimits),
          atMost ((afterActions plainSettings actions).cached ()).length limits.maxEntries = true →
          atMost (retirement.bytes ((afterActions plainSettings actions).cached ()))
              limits.maxBytes = true →
            (trim plainSettings retirement (afterActions plainSettings actions) () limits).2 = [])
      ∧ (¬ ∀ (actions : List (Action Unit ℕ)) (retirement : Retirement ℕ)
          (limits : ResultCacheLimits),
          limits.Within
              ((trim plainSettings retirement (afterActions plainSettings actions) ()
                limits).1.cached ()).length
              (retirement.bytes ((trim plainSettings retirement
                (afterActions plainSettings actions) () limits).1.cached ()))
            ∨ ∀ entry ∈ (trim plainSettings retirement (afterActions plainSettings actions) ()
                limits).1.cached (), retirement.canRetire entry = false)
      ∧ ¬ ∀ (actions : List (Action Unit ℕ)) (retirement : Retirement ℕ) (entry : ℕ)
          (limits : ResultCacheLimits),
          (hotShare limits).Within
            (hotEntries plainSettings
              (recordActorHit plainSettings retirement (afterActions plainSettings actions) ()
                entry (some limits)).1 ()).length
            (retirement.bytes (hotEntries plainSettings
              (recordActorHit plainSettings retirement (afterActions plainSettings actions) ()
                entry (some limits)).1 ())) := by
  refine ⟨fun always => ?_, fun always => ?_, fun always => ?_⟩
  · have idle := always [settling 1] roundedRetirement unboundedLimits (by decide +kernel)
      (by decide +kernel)
    rw [trim_unbounded] at idle
    cases idle
  · have settled := always [settling 0, settling 1] roundedRetirement byteLimits
    rw [trim_rounded] at settled
    rcases settled with within | protected_
    · exact absurd within (by decide +kernel)
    · exact absurd (protected_ 1 (List.mem_singleton_self 1)) (by decide)
  · have within := always
      [settling 1, .recordActorHit roundedRetirement () 1 none] roundedRetirement 0 noLimits
    exact absurd within (by decide +kernel)

end Exceptions

end SpeculativeAction.CandidateStore
