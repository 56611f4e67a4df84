import Mathlib.Order.Std
import SpeculativeAction.PpmTrie.Distribution
import SpeculativeAction.PpmTrie.Snapshots

/-! A snapshot goes round: the restored trie distributes as the one it was taken of, and goes on to
do so as long as the host's collation tells the keys of its contexts apart. A bound keeps the
contexts that rank first.
-/

namespace SpeculativeAction.PpmTrie

open SpeculativeAction.Library

open PpmCountTrie

-- Ranks

section Ranks

variable {K : Type*} [Field K] [LinearOrder K] {localeCompare : JsString → JsString → Ordering}

/-- What the ranking reads of a context. -/
structure Rank (K : Type*) where
  key : JsString
  context : List JsString
  total : K
  lastSeen : ℕ

def rankOf (entry : JsString × ContextCounts K) : Rank K :=
  ⟨entry.1, entry.2.context, total entry.2, entry.2.lastSeen⟩

def compareRanks (localeCompare : JsString → JsString → Ordering) : Rank K → Rank K → Ordering :=
  compareLex (fun left right => compare (decide (right.context = [])) (decide (left.context = [])))
    (compareLex (fun left right => compare right.total left.total)
      (compareLex (fun left right => compare right.context.length left.context.length)
        (compareLex (fun left right => compare right.lastSeen left.lastSeen)
          fun left right => localeCompare left.key right.key)))

theorem compareRank_eq (left right : JsString × ContextCounts K)
    : compareRank localeCompare left right
      = compareRanks localeCompare (rankOf left) (rankOf right) :=
  rfl

/-- A comparison of what is read, the greater first. -/
theorem transCmp_descending {α β : Type*} [Ord β] [Std.TransOrd β] (read : α → β)
    : Std.TransCmp fun left right => compare (read right) (read left) where
  eq_swap := Std.OrientedOrd.eq_swap
  isLE_trans first second := Std.TransOrd.isLE_trans second first

instance transCmp_compareRanks [Std.TransCmp localeCompare]
    : Std.TransCmp (compareRanks localeCompare : Rank K → Rank K → Ordering) := by
  have root := transCmp_descending fun rank : Rank K => decide (rank.context = [])
  have totals := transCmp_descending fun rank : Rank K => rank.total
  have lengths := transCmp_descending fun rank : Rank K => rank.context.length
  have times := transCmp_descending fun rank : Rank K => rank.lastSeen
  have keys : Std.TransCmp fun left right : Rank K => localeCompare left.key right.key := {
    eq_swap := Std.OrientedCmp.eq_swap
    isLE_trans := Std.TransCmp.isLE_trans }
  unfold compareRanks
  infer_instance

omit [Field K] in
/-- Ranks that compare equal have keys that do. -/
theorem key_of_compareRanks {left right : Rank K}
    (equal : compareRanks localeCompare left right = .eq)
    : localeCompare left.key right.key = .eq := by
  unfold compareRanks at equal
  simp only [compareLex_eq_eq] at equal
  exact equal.2.2.2.2

variable {trie : PpmCountTrie K}

/-- The collation tells the keys apart. -/
def Apart (localeCompare : JsString → JsString → Ordering) (keys : JsString → Prop) : Prop :=
  ∀ left right, keys left → keys right → localeCompare left right = .eq → left = right

/-- The ranking sorts the ranks. -/
theorem ranks_ranked
    : (trie.ranked localeCompare).map rankOf
      = (trie.counts.entries.map rankOf).mergeSort fun left right =>
        (compareRanks localeCompare left right).isLE := by
  rw [ranked]
  exact List.map_mergeSort fun left _ right _ => by rw [compareRank_eq]

theorem keys_ranked
    : (trie.ranked localeCompare).map Prod.fst
      = ((trie.ranked localeCompare).map rankOf).map Rank.key := by
  rw [List.map_map]
  rfl

omit [LinearOrder K] in
/-- Tries that hold the same evidence have the same ranks. -/
theorem Alike.ranks_perm {left right : PpmCountTrie K} (same : Alike left right)
    : (left.counts.entries.map rankOf).Perm (right.counts.entries.map rankOf) := by
  have distinct : ∀ trie : PpmCountTrie K, (trie.counts.entries.map rankOf).Nodup := by
    intro trie
    refine List.Nodup.of_map Rank.key ?_
    rw [List.map_map]
    exact trie.counts.distinct
  have half : ∀ {left right : PpmCountTrie K}, Alike left right →
      ∀ rank ∈ left.counts.entries.map rankOf, rank ∈ right.counts.entries.map rankOf := by
    intro left right same rank member
    obtain ⟨⟨key, row⟩, inside, rfl⟩ := List.mem_map.mp member
    have rows := same.rows key
    rw [OrderedMap.get?_eq_some_iff.mpr inside] at rows
    rcases optionRel_cases rows with ⟨impossible, -⟩ | ⟨one, other, found, stored, alike⟩
    · cases impossible
    · obtain rfl := Option.some.inj found
      refine List.mem_map.mpr ⟨(key, other), OrderedMap.get?_eq_some_iff.mp stored, ?_⟩
      rw [rankOf, rankOf, alike.context, alike.total, alike.lastSeen]
  exact (List.perm_ext_iff_of_nodup (distinct left) (distinct right)).mpr fun rank =>
    ⟨half same rank, half same.symm rank⟩

/-- The same evidence under keys that are told apart ranks in one order. -/
theorem Alike.keys_ranked [Std.TransCmp localeCompare] {left right : PpmCountTrie K}
    (same : Alike left right) (apart : Apart localeCompare fun key => key ∈ left.counts.keys)
    : (left.ranked localeCompare).map Prod.fst = (right.ranked localeCompare).map Prod.fst := by
  rw [PpmTrie.keys_ranked, PpmTrie.keys_ranked, ranks_ranked, ranks_ranked]
  refine congrArg (List.map Rank.key)
    (mergeSort_eq_of_perm isLE_trans isLE_total same.ranks_perm ?_)
  intro first firstIn second secondIn up down
  obtain ⟨⟨firstKey, firstRow⟩, firstStored, rfl⟩ := List.mem_map.mp firstIn
  obtain ⟨⟨secondKey, secondRow⟩, secondStored, rfl⟩ := List.mem_map.mp secondIn
  have keys : firstKey = secondKey :=
    apart firstKey secondKey (List.mem_map_of_mem firstStored) (List.mem_map_of_mem secondStored)
      (key_of_compareRanks (eq_of_isLE_of_isLE up down))
  subst keys
  have rows : some firstRow = some secondRow :=
    (OrderedMap.get?_eq_some_iff.mpr firstStored).symm.trans
      (OrderedMap.get?_eq_some_iff.mpr secondStored)
  rw [Option.some.inj rows]

end Ranks

-- Bounds

section Bounds

variable {K : Type*} [Field K] [LinearOrder K] {localeCompare : JsString → JsString → Ordering}
  {trie : PpmCountTrie K}

theorem length_ranked : (trie.ranked localeCompare).length = trie.size := by
  rw [ranked_perm.length_eq, PpmCountTrie.size, OrderedMap.keys, List.length_map]

theorem keys_ranked_nodup : ((trie.ranked localeCompare).map Prod.fst).Nodup :=
  (ranked_perm.map Prod.fst).nodup_iff.mpr trie.counts.distinct

/-- The contexts that a bound keeps and those behind them are different. -/
theorem ranked_disjoint (limit : ℕ)
    : (((trie.ranked localeCompare).take limit).map Prod.fst).Disjoint
        (((trie.ranked localeCompare).drop limit).map Prod.fst) := by
  have distinct : ((trie.ranked localeCompare).map Prod.fst).Nodup := keys_ranked_nodup
  rw [← List.take_append_drop limit (trie.ranked localeCompare), List.map_append] at distinct
  exact List.disjoint_of_nodup_append distinct

theorem mem_keys_ranked (localeCompare : JsString → JsString → Ordering) {key : JsString}
    (limit : ℕ)
    : key ∈ trie.counts.keys
      ↔ key ∈ ((trie.ranked localeCompare).take limit).map Prod.fst
        ∨ key ∈ ((trie.ranked localeCompare).drop limit).map Prod.fst := by
  rw [← List.mem_append, ← List.map_append, List.take_append_drop]
  exact (ranked_perm.map Prod.fst).mem_iff.symm

/-- A bound keeps the contexts that rank first. -/
theorem mem_keys_bounded {limit : ℕ} {key : JsString}
    : key ∈ (bounded localeCompare trie limit).counts.keys
      ↔ key ∈ ((trie.ranked localeCompare).take limit).map Prod.fst := by
  have all : key ∈ trie.counts.keys ↔ _ := mem_keys_ranked localeCompare limit
  rw [bounded]
  split
  · next small =>
      rw [all, List.drop_of_length_le (length_ranked.trans_le small)]
      exact or_iff_left List.not_mem_nil
  · rw [OrderedMap.mem_keys_deleteAll, all]
    constructor
    · rintro ⟨notBehind, ahead | behind⟩
      · exact ahead
      · exact absurd behind notBehind
    · exact fun ahead => ⟨fun behind => ranked_disjoint limit ahead behind, .inl ahead⟩

theorem size_bounded (limit : ℕ) : (bounded localeCompare trie limit).size ≤ limit := by
  have within : (bounded localeCompare trie limit).counts.keys
      ⊆ ((trie.ranked localeCompare).take limit).map Prod.fst :=
    fun key member => mem_keys_bounded.mp member
  calc (bounded localeCompare trie limit).size
      ≤ (((trie.ranked localeCompare).take limit).map Prod.fst).length :=
        ((OrderedMap.keys_nodup _).subperm within).length_le
    _ ≤ limit := by
        rw [List.length_map]
        exact List.length_take_le _ _

instance transCmp_compareRank [Std.TransCmp localeCompare]
    : Std.TransCmp (compareRank localeCompare : JsString × ContextCounts K → _ → Ordering) where
  eq_swap {left right} := by
    rw [compareRank_eq, compareRank_eq]
    exact Std.OrientedCmp.eq_swap
  isLE_trans {left middle right} first second := by
    rw [compareRank_eq] at first second ⊢
    exact Std.TransCmp.isLE_trans first second

/-- A context that is kept ranks no later than one that is not. -/
theorem isLE_of_bounded [Std.TransCmp localeCompare] {limit : ℕ}
    {kept removed : JsString × ContextCounts K}
    (ahead : kept ∈ (trie.ranked localeCompare).take limit)
    (behind : removed ∈ (trie.ranked localeCompare).drop limit)
    : (compareRank localeCompare kept removed).isLE = true := by
  have sorted : (trie.ranked localeCompare).Pairwise fun left right =>
      (compareRank localeCompare left right).isLE = true :=
    List.pairwise_mergeSort isLE_trans isLE_total _
  rw [← List.take_append_drop limit (trie.ranked localeCompare), List.pairwise_append] at sorted
  exact sorted.2.2 kept ahead removed behind

/-- The empty context ranks first. -/
theorem Valid.root_kept [Std.TransCmp localeCompare] (valid : Valid trie) {limit : ℕ}
    (some_ : 1 ≤ limit) (stored : contextKey [] ∈ trie.counts.keys)
    : contextKey [] ∈ (PpmTrie.bounded localeCompare trie limit).counts.keys := by
  rw [mem_keys_bounded]
  rcases (mem_keys_ranked localeCompare limit).mp stored with ahead | behind
  · exact ahead
  exfalso
  obtain ⟨root, inside, named⟩ := List.mem_map.mp behind
  have rows : ∀ entry ∈ trie.ranked localeCompare, entry.1 = contextKey entry.2.context :=
    fun entry member => valid.keyed entry.1 entry.2
      (OrderedMap.get?_eq_some_iff.mpr (ranked_perm.mem_iff.mp member))
  obtain ⟨first, ahead⟩ : ∃ first, first ∈ (trie.ranked localeCompare).take limit := by
    refine List.exists_mem_of_ne_nil _ fun empty_ => ?_
    rcases List.take_eq_nil_iff.mp empty_ with zero | none_
    · omega
    · rw [none_, List.drop_nil] at inside
      cases inside
  have rootEmpty : root.2.context = [] :=
    contextKey_injective ((rows root (List.mem_of_mem_drop inside)).symm.trans named)
  have ranks := isLE_of_bounded ahead inside
  have firstEmpty : first.2.context = [] := by
    by_contra nonempty
    rw [compareRank, decide_eq_true rootEmpty, decide_eq_false nonempty] at ranks
    cases ranks
  have same : first.1 = root.1 := by
    rw [rows first (List.mem_of_mem_take ahead), rows root (List.mem_of_mem_drop inside),
      firstEmpty, rootEmpty]
  exact ranked_disjoint limit (List.mem_map_of_mem ahead) (same ▸ List.mem_map_of_mem inside)

/-- The same evidence under keys that are told apart is bounded alike. -/
theorem Alike.bounded [Std.TransCmp localeCompare] {left right : PpmCountTrie K}
    (same : Alike left right) (apart : Apart localeCompare fun key => key ∈ left.counts.keys)
    (limit : ℕ)
    : Alike (PpmTrie.bounded localeCompare left limit)
      (PpmTrie.bounded localeCompare right limit) := by
  rw [PpmTrie.bounded, PpmTrie.bounded, same.size]
  split
  · exact same
  · rw [List.map_drop, List.map_drop, same.keys_ranked apart]
    exact ⟨same.order, Alike.delete same.rows _⟩

end Bounds

-- Runs

section Runs

variable {K : Type*} [Field K] [LinearOrder K] {key : JsString}

/-- What changes a trie from within. -/
inductive Step where
  | observe (history : List JsString) (target : JsString) (sequence halfLife : Number)
  | trim (maxContexts : Number)

def step (localeCompare : JsString → JsString → Ordering) (pow2 : ℚ → K) (trie : PpmCountTrie K)
    : Step → PpmCountTrie K
  | .observe history target sequence halfLife => trie.observe pow2 history target sequence halfLife
  | .trim maxContexts => trie.trim localeCompare maxContexts

def run (localeCompare : JsString → JsString → Ordering) (pow2 : ℚ → K) (steps : List Step)
    (trie : PpmCountTrie K) : PpmCountTrie K :=
  steps.foldl (step localeCompare pow2) trie

/-- Observations, bounds and restorations of earlier snapshots, in any order. -/
inductive Reachable (localeCompare : JsString → JsString → Ordering) (pow2 : ℚ → K)
    : PpmCountTrie K → Prop
  | create (maxOrder : Number) : Reachable localeCompare pow2 (create maxOrder)
  | step {trie : PpmCountTrie K} (reachable : Reachable localeCompare pow2 trie) (taken : Step)
    : Reachable localeCompare pow2 (step localeCompare pow2 trie taken)
  | restore {trie earlier : PpmCountTrie K} (reachable : Reachable localeCompare pow2 trie)
    (saved : Reachable localeCompare pow2 earlier) (maxContexts : Number)
    : Reachable localeCompare pow2 (trie.restore (earlier.snapshot localeCompare maxContexts))

theorem Reachable.run {pow2 : ℚ → K} {trie : PpmCountTrie K}
    (reachable : Reachable localeCompare pow2 trie) (steps : List Step)
    : Reachable localeCompare pow2 (PpmTrie.run localeCompare pow2 steps trie) := by
  induction steps generalizing trie with
  | nil => exact reachable
  | cons taken rest ih => exact ih (reachable.step taken)

/-- The keys of the contexts that a trie stores, or that further steps observe. -/
def OccurringKey (trie : PpmCountTrie K) (steps : List Step) (key : JsString) : Prop :=
  key ∈ trie.counts.keys
    ∨ ∃ history target sequence halfLife context,
        .observe history target sequence halfLife ∈ steps
        ∧ context <:+ history ∧ context.length ≤ trie.order ∧ key = contextKey context

variable {localeCompare : JsString → JsString → Ordering} {pow2 : ℚ → K}
  {trie left right : PpmCountTrie K}

theorem order_bounded (limit : ℕ) : (bounded localeCompare trie limit).order = trie.order := by
  rw [bounded]
  split <;> rfl

theorem Valid.order_step (valid : Valid trie) (taken : Step)
    : (step localeCompare pow2 trie taken).order = trie.order := by
  cases taken with
  | observe history target sequence halfLife =>
      rw [PpmTrie.step, PpmCountTrie.observe]
      split
      · rfl
      · exact order_observeContexts _
  | trim maxContexts =>
      cases maxContexts with
      | finite value => exact order_bounded _
      | nan => exact (valid.restored .nan).order
      | infinite negative =>
          cases negative with
          | false => rfl
          | true => exact order_bounded _

/-- An observation stores the suffixes of its history. -/
theorem mem_keys_observe {history : List JsString} {target : JsString} {sequence halfLife : Number}
    (stored : key ∈ (trie.observe pow2 history target sequence halfLife).counts.keys)
    : key ∈ trie.counts.keys
      ∨ ∃ context, context <:+ history ∧ context.length ≤ trie.order
        ∧ key = contextKey context := by
  rw [PpmCountTrie.observe] at stored
  split at stored
  · exact .inl stored
  by_cases present : ∃ context ∈ trie.suffixes history, contextKey context = key
  · obtain ⟨context, member, rfl⟩ := present
    obtain ⟨suffix, short⟩ := mem_suffixes.mp member
    exact .inr ⟨context, suffix, short, rfl⟩
  · rw [OrderedMap.mem_keys_iff, get?_observeContexts_other fun context member keyed =>
      present ⟨context, member, keyed⟩, ← OrderedMap.mem_keys_iff] at stored
    exact .inl stored

theorem mem_keys_of_bounded {limit : ℕ}
    (kept : key ∈ (bounded localeCompare trie limit).counts.keys)
    : key ∈ trie.counts.keys :=
  (mem_keys_ranked localeCompare limit).mpr (.inl (mem_keys_bounded.mp kept))

/-- A bound stores nothing new. -/
theorem Valid.mem_keys_of_trim (valid : Valid trie) {maxContexts : Number}
    (kept : key ∈ (trie.trim localeCompare maxContexts).counts.keys)
    : key ∈ trie.counts.keys := by
  cases maxContexts with
  | finite value => exact mem_keys_of_bounded kept
  | nan => exact ((valid.restore_alike rfl rfl).mem_keys key).mp kept
  | infinite negative =>
      cases negative with
      | false => exact kept
      | true => exact mem_keys_of_bounded kept

/-- What occurs behind a step occurs with it. -/
theorem Valid.occurring_step (valid : Valid trie) {taken : Step} {rest : List Step}
    (occurs : OccurringKey (step localeCompare pow2 trie taken) rest key)
    : OccurringKey trie (taken :: rest) key := by
  rcases occurs with stored | ⟨history, target, sequence, halfLife, context, member, named⟩
  · cases taken with
    | observe history target sequence halfLife =>
        rcases mem_keys_observe stored with old | ⟨context, named⟩
        · exact .inl old
        · exact .inr ⟨history, target, sequence, halfLife, context, List.mem_cons_self, named⟩
    | trim maxContexts => exact .inl (valid.mem_keys_of_trim stored)
  · rw [valid.order_step] at named
    exact .inr ⟨history, target, sequence, halfLife, context, List.mem_cons_of_mem _ member, named⟩

/-- One step keeps evidence alike. -/
theorem Alike.step [Std.TransCmp localeCompare] (same : Alike left right) (validLeft : Valid left)
    (validRight : Valid right) (apart : Apart localeCompare fun key => key ∈ left.counts.keys)
    (taken : Step)
    : Alike (PpmTrie.step localeCompare pow2 left taken)
      (PpmTrie.step localeCompare pow2 right taken) := by
  cases taken with
  | observe history target sequence halfLife => exact same.observe history target
  | trim maxContexts =>
      cases maxContexts with
      | finite value => exact same.bounded apart _
      | nan =>
          exact ((validLeft.restore_alike rfl rfl).trans same).trans
            (validRight.restore_alike rfl rfl).symm
      | infinite negative =>
          cases negative with
          | false => exact same
          | true => exact same.bounded apart _

variable [IsStrictOrderedRing K]

theorem Valid.step (fades : Fades pow2) (valid : Valid trie) (taken : Step)
    : Valid (step localeCompare pow2 trie taken) := by
  cases taken with
  | observe history target sequence halfLife => exact valid.observe fades ..
  | trim maxContexts => exact valid.trim maxContexts

theorem Reachable.valid (fades : Fades pow2) (reachable : Reachable localeCompare pow2 trie)
    : Valid trie := by
  induction reachable with
  | create maxOrder => exact valid_create maxOrder
  | step _ taken valid => exact valid.step fades taken
  | restore _ _ maxContexts _ valid => exact valid.restore maxContexts

/-- Tries that hold the same evidence go on to, as long as the keys are told apart. -/
theorem Alike.run [Std.TransCmp localeCompare] (fades : Fades pow2) (same : Alike left right)
    (validLeft : Valid left) (validRight : Valid right) (steps : List Step)
    (apart : Apart localeCompare (OccurringKey left steps))
    : Alike (PpmTrie.run localeCompare pow2 steps left)
      (PpmTrie.run localeCompare pow2 steps right) := by
  induction steps generalizing left right with
  | nil => exact same
  | cons taken rest ih =>
      have here : Apart localeCompare fun key => key ∈ left.counts.keys :=
        fun one other oneIn otherIn => apart one other (.inl oneIn) (.inl otherIn)
      refine ih (same.step validLeft validRight here taken) (validLeft.step fades taken)
        (validRight.step fades taken) fun one other oneIn otherIn => ?_
      exact apart one other (validLeft.occurring_step oneIn) (validLeft.occurring_step otherIn)

end Runs

-- The round trip

section Exact

variable {K : Type*} [Field K] [LinearOrder K] {localeCompare : JsString → JsString → Ordering}
  {pow2 : ℚ → K} {trie : PpmCountTrie K}

/-- A trie and the one restored from its snapshot cannot be told apart; a bound keeps the contexts
that rank first.
-/
structure RoundTrip (localeCompare : JsString → JsString → Ordering) (pow2 : ℚ → K)
    (trie : PpmCountTrie K) : Prop where
  distribution
    : ∀ blank : PpmCountTrie K, blank.order = trie.order
      → ∀ history sequence halfLife target,
        ((blank.restore (trie.snapshot localeCompare (.infinite false))).distribution pow2 history
            sequence halfLife).get? target
          = (trie.distribution pow2 history sequence halfLife).get? target
  behaviour
    : ∀ blank : PpmCountTrie K, blank.order = trie.order
      → ∀ steps, Apart localeCompare (OccurringKey trie steps)
      → ∀ history sequence halfLife target,
        ((run localeCompare pow2 steps
            (blank.restore (trie.snapshot localeCompare (.infinite false)))).distribution pow2
              history sequence halfLife).get? target
          = ((run localeCompare pow2 steps trie).distribution pow2 history sequence
              halfLife).get? target
  evidence
    : ∀ blank : PpmCountTrie K, blank.order = trie.order
      → ∀ steps, Apart localeCompare (OccurringKey trie steps)
      → Alike
        (run localeCompare pow2 steps
          (blank.restore (trie.snapshot localeCompare (.infinite false))))
        (run localeCompare pow2 steps trie)
  size
    : ∀ limit, ((trie.trim localeCompare (.finite limit)).size : ℤ) ≤ max 1 ⌊limit⌋
  sizeLeast : (trie.trim localeCompare (.infinite true)).size ≤ 1
  root
    : ∀ maxContexts, contextKey [] ∈ trie.counts.keys
      → contextKey [] ∈ (trie.trim localeCompare maxContexts).counts.keys
  ranking
    : ∀ maxContexts, ∀ kept ∈ trie.counts.entries, ∀ removed ∈ trie.counts.entries,
      kept.1 ∈ (trie.trim localeCompare maxContexts).counts.keys
      → removed.1 ∉ (trie.trim localeCompare maxContexts).counts.keys
      → (compareRank localeCompare kept removed).isLE = true

/-- A bound keeps the empty context. -/
theorem Valid.root_trim [Std.TransCmp localeCompare] (valid : Valid trie) (maxContexts : Number)
    (stored : contextKey [] ∈ trie.counts.keys)
    : contextKey [] ∈ (trie.trim localeCompare maxContexts).counts.keys := by
  cases maxContexts with
  | finite value =>
      have some_ : 1 ≤ (max 1 ⌊value⌋).toNat := by
        have least := le_max_left 1 ⌊value⌋
        omega
      exact valid.root_kept some_ stored
  | nan => exact ((valid.restore_alike rfl rfl).mem_keys _).mpr stored
  | infinite negative =>
      cases negative with
      | false => exact stored
      | true => exact valid.root_kept le_rfl stored

/-- Of two contexts, one within a bound and one beyond it, the first ranks no later. -/
theorem ranking_bounded [Std.TransCmp localeCompare] {limit : ℕ}
    {kept removed : JsString × ContextCounts K} (keptIn : kept ∈ trie.counts.entries)
    (removedIn : removed ∈ trie.counts.entries)
    (ahead : kept.1 ∈ (bounded localeCompare trie limit).counts.keys)
    (behind : removed.1 ∉ (bounded localeCompare trie limit).counts.keys)
    : (compareRank localeCompare kept removed).isLE = true := by
  rw [mem_keys_bounded] at ahead behind
  have either : ∀ entry ∈ trie.counts.entries,
      entry ∈ (trie.ranked localeCompare).take limit
        ∨ entry ∈ (trie.ranked localeCompare).drop limit := by
    intro entry member
    rw [← List.mem_append, List.take_append_drop]
    exact ranked_perm.mem_iff.mpr member
  have keptFirst : kept ∈ (trie.ranked localeCompare).take limit :=
    (either kept keptIn).resolve_right fun beyond =>
      ranked_disjoint limit ahead (List.mem_map_of_mem beyond)
  have removedLater : removed ∈ (trie.ranked localeCompare).drop limit :=
    (either removed removedIn).resolve_left fun within => behind (List.mem_map_of_mem within)
  exact isLE_of_bounded keptFirst removedLater

theorem Valid.ranking_trim [Std.TransCmp localeCompare] (valid : Valid trie) (maxContexts : Number)
    {kept removed : JsString × ContextCounts K} (keptIn : kept ∈ trie.counts.entries)
    (removedIn : removed ∈ trie.counts.entries)
    (ahead : kept.1 ∈ (trie.trim localeCompare maxContexts).counts.keys)
    (behind : removed.1 ∉ (trie.trim localeCompare maxContexts).counts.keys)
    : (compareRank localeCompare kept removed).isLE = true := by
  have stored : removed.1 ∈ trie.counts.keys := List.mem_map_of_mem removedIn
  cases maxContexts with
  | finite value => exact ranking_bounded keptIn removedIn ahead behind
  | nan => exact absurd (((valid.restore_alike rfl rfl).mem_keys _).mpr stored) behind
  | infinite negative =>
      cases negative with
      | false => exact absurd stored behind
      | true => exact ranking_bounded keptIn removedIn ahead behind

variable [IsStrictOrderedRing K]

theorem round_trip (fades : Fades pow2) [Std.TransCmp localeCompare]
    (reachable : Reachable localeCompare pow2 trie)
    : RoundTrip localeCompare pow2 trie := by
  have valid := reachable.valid fades
  have restored : ∀ blank : PpmCountTrie K, blank.order = trie.order →
      Alike (blank.restore (trie.snapshot localeCompare (.infinite false))) trie :=
    fun blank same => valid.restore_alike same rfl
  have evidence : ∀ blank : PpmCountTrie K, blank.order = trie.order →
      ∀ steps, Apart localeCompare (OccurringKey trie steps) →
      Alike (run localeCompare pow2 steps
          (blank.restore (trie.snapshot localeCompare (.infinite false))))
        (run localeCompare pow2 steps trie) :=
    fun blank same steps apart =>
      ((restored blank same).symm.run fades valid (valid.restore _) steps apart).symm
  refine {
    distribution := fun blank same history sequence halfLife target =>
      (restored blank same).distribution history target
    behaviour := fun blank same steps apart history sequence halfLife target =>
      (evidence blank same steps apart).distribution history target
    evidence := evidence
    size := fun limit => ?_
    sizeLeast := size_bounded 1
    root := fun maxContexts stored => valid.root_trim maxContexts stored
    ranking := fun maxContexts kept keptIn removed removedIn ahead behind =>
      valid.ranking_trim maxContexts keptIn removedIn ahead behind }
  have within : (trie.trim localeCompare (.finite limit)).size ≤ (max 1 ⌊limit⌋).toNat :=
    size_bounded _
  have least := le_max_left 1 ⌊limit⌋
  omega

theorem realPow2_fades : Fades realPow2 where
  pos := realPow2_decay.pos
  le_one exponent negative :=
    Real.rpow_le_one_of_one_le_of_nonpos one_le_two (by exact_mod_cast negative)

/-- Two observations, one behind the other. -/
def sampleSteps : List Step :=
  [.observe [units "a"] (units "b") (.finite 1) (.finite 1),
    .observe [units "b", units "a"] (units "c") (.finite 2) (.finite 1)]

theorem round_trip_sample
    : RoundTrip compare realPow2 (run compare realPow2 sampleSteps (create (.finite 2))) :=
  round_trip realPow2_fades ((Reachable.create (.finite 2)).run sampleSteps)

end Exact

-- Keys that compare equal

section Ties

variable {localeCompare : JsString → JsString → Ordering}

deriving instance DecidableEq for TargetCount, ContextCounts, PpmCountTrie

/-- A letter and the combining accent behind it are one letter. -/
def compose : JsString → JsString
  | 0x65 :: 0x301 :: rest => 0xE9 :: compose rest
  | unit :: rest => unit :: compose rest
  | [] => []

/-- A collation that takes canonically equivalent texts for equal. -/
def collate (left right : JsString) : Ordering := compare (compose left) (compose right)

instance transCmp_collate : Std.TransCmp collate where
  eq_swap := Std.OrientedOrd.eq_swap
  isLE_trans := Std.TransOrd.isLE_trans

theorem ranked_eq_insertionSort {K : Type*} [Field K] [LinearOrder K] [Std.TransCmp localeCompare]
    (trie : PpmCountTrie K)
    : trie.ranked localeCompare
      = trie.counts.entries.insertionSort fun left right =>
        (compareRank localeCompare left right).isLE = true :=
  mergeSort_eq_insertionSort isLE_trans isLE_total _

theorem bounded_eq_insertionSort {K : Type*} [Field K] [LinearOrder K] [Std.TransCmp localeCompare]
    (trie : PpmCountTrie K) (limit : ℕ)
    : bounded localeCompare trie limit
      = if trie.size ≤ limit then trie
        else
          { trie with
            counts := (((trie.counts.entries.insertionSort fun left right =>
              (compareRank localeCompare left right).isLE = true).drop limit).map Prod.fst).foldl
                OrderedMap.delete trie.counts } := by
  rw [bounded, ranked_eq_insertionSort]

/-- A row of one target is saved and set again. -/
theorem restoreRow_single (trie : PpmCountTrie ℚ) (context : List JsString) (count : ℚ)
    : trie.restoreRow
        (snapshotRow collate ⟨context, .ofList [(units "x", ⟨count, 0⟩)], 0⟩)
      = trie.setCount context (units "x") count 0 := by
  have sorted : (OrderedMap.ofList [(units "x", (⟨count, 0⟩ : TargetCount ℚ))]).entries.mergeSort
      (fun left right => (collate left.1 right.1).isLE) = [(units "x", ⟨count, 0⟩)] :=
    List.mergeSort_singleton _
  have saved : snapshotRow collate ⟨context, .ofList [(units "x", ⟨count, 0⟩)], 0⟩
      = ⟨context, .ofList [(units "x", count)], 0, none⟩ := by
    rw [snapshotRow]
    simp only [sorted]
    rfl
  have indices : (OrderedMap.ofList [(units "x", count)]).entries.filter
      (fun field => (arrayIndex? field.1).isSome) = [] := rfl
  have fields : recordEntries (OrderedMap.ofList [(units "x", count)]) = [(units "x", count)] := by
    rw [recordEntries, indices, List.mergeSort_nil]
    rfl
  rw [saved, restoreRow, fields]
  rfl

/-- The composed and the decomposed letter. -/
def composed : JsString := [codeUnit 0xE9]

def decomposed : JsString := [codeUnit 0x65, codeUnit 0x301]

def tied : PpmCountTrie ℚ :=
  run collate (fun _ => 1)
    [.observe [decomposed] (units "x") (.finite 0) (.finite 0),
      .observe [composed] (units "x") (.finite 0) (.finite 0),
      .observe [composed] (units "x") (.finite 0) (.finite 0)]
    (create (.finite 1))

def tiedSteps : List Step :=
  [.observe [decomposed] (units "x") (.finite 0) (.finite 0), .trim (.finite 2)]

theorem ranked_tied
    : tied.ranked collate
      = [(contextKey [], ⟨[], .ofList [(units "x", ⟨3, 0⟩)], 0⟩),
        (contextKey [composed], ⟨[composed], .ofList [(units "x", ⟨2, 0⟩)], 0⟩),
        (contextKey [decomposed], ⟨[decomposed], .ofList [(units "x", ⟨1, 0⟩)], 0⟩)] := by
  rw [ranked_eq_insertionSort]
  decide +kernel

/-- The restored trie, as its rows are set. -/
def tiedRestored : PpmCountTrie ℚ :=
  (((create (.finite 1)).setCount [] (units "x") 3 0).setCount [composed] (units "x") 2 0).setCount
    [decomposed] (units "x") 1 0

theorem restore_tied
    : (create (.finite 1)).restore (tied.snapshot collate (.infinite false)) = tiedRestored := by
  have rows : tied.snapshot collate (.infinite false)
      = (tied.ranked collate).map fun entry => snapshotRow collate entry.2 := rfl
  rw [rows, ranked_tied, List.map_cons, List.map_cons, List.map_singleton, restore, List.foldl_cons,
    List.foldl_cons, List.foldl_cons, restoreRow_single, restoreRow_single, restoreRow_single]
  rfl

/-- The order of equal keys is that of their arrival, and a restored trie has them in another. -/
theorem round_trip_literal
    : Reachable collate (fun _ => (1 : ℚ)) tied
      ∧ ((run collate (fun _ => 1) tiedSteps
            ((create (.finite 1)).restore
              (tied.snapshot collate (.infinite false)))).distribution (fun _ => 1) [composed]
                (.finite 0) (.finite 0)).get? (units "x")
        ≠ ((run collate (fun _ => 1) tiedSteps tied).distribution (fun _ => 1) [composed]
            (.finite 0) (.finite 0)).get? (units "x") := by
  have ran : ∀ trie : PpmCountTrie ℚ, run collate (fun _ => 1) tiedSteps trie
      = bounded collate
        (trie.observe (fun _ => 1) [decomposed] (units "x") (.finite 0) (.finite 0)) 2 := by
    intro trie
    have limit : (max 1 ⌊(2 : ℚ)⌋).toNat = 2 := by decide +kernel
    rw [← limit]
    rfl
  refine ⟨(Reachable.create (.finite 1)).run _, ?_⟩
  rw [ran, ran, restore_tied, bounded_eq_insertionSort, bounded_eq_insertionSort]
  decide +kernel

end Ties

end SpeculativeAction.PpmTrie
