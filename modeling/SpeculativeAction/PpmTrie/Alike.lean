import SpeculativeAction.PpmTrie.Evidence

/-! Tries that hold the same evidence, in whatever order they came by it: they keep doing so under
observations, and they distribute alike.
-/

namespace SpeculativeAction.PpmTrie

open SpeculativeAction.Library

open PpmCountTrie

variable {K : Type*}

/-- The same evidence of a context. -/
structure RowAlike (left right : ContextCounts K) : Prop where
  context : left.context = right.context
  targets : ∀ target, left.targets.get? target = right.targets.get? target
  lastSeen : left.lastSeen = right.lastSeen

/-- The same evidence of every context. -/
structure Alike (left right : PpmCountTrie K) : Prop where
  order : left.order = right.order
  rows : ∀ key, Option.Rel RowAlike (left.counts.get? key) (right.counts.get? key)

/-- Related options are both empty or hold related values. -/
theorem optionRel_cases {α β : Type*} {related : α → β → Prop} {left : Option α}
    {right : Option β} (same : Option.Rel related left right)
    : (left = none ∧ right = none)
      ∨ ∃ first second, left = some first ∧ right = some second ∧ related first second := by
  cases same with
  | none => exact .inl ⟨rfl, rfl⟩
  | some one => exact .inr ⟨_, _, rfl, rfl, one⟩

section Rows

variable {left right : ContextCounts K}

theorem RowAlike.refl (row : ContextCounts K) : RowAlike row row := ⟨rfl, fun _ => rfl, rfl⟩

theorem RowAlike.symm (same : RowAlike left right) : RowAlike right left :=
  ⟨same.context.symm, fun target => (same.targets target).symm, same.lastSeen.symm⟩

theorem RowAlike.trans {third : ContextCounts K} (first : RowAlike left right)
    (second : RowAlike right third)
    : RowAlike left third :=
  ⟨first.context.trans second.context,
    fun target => (first.targets target).trans (second.targets target),
    first.lastSeen.trans second.lastSeen⟩

theorem RowAlike.entries_perm (same : RowAlike left right)
    : left.targets.entries.Perm right.targets.entries :=
  OrderedMap.entries_perm_of_get? same.targets

theorem RowAlike.length_keys (same : RowAlike left right)
    : left.targets.keys.length = right.targets.keys.length :=
  (same.entries_perm.map Prod.fst).length_eq

theorem RowAlike.put (same : RowAlike left right) (target : JsString) (count : K) (lastSeen : ℕ)
    : RowAlike (left.put target count lastSeen) (right.put target count lastSeen) := by
  refine ⟨same.context, fun other => ?_, ?_⟩
  · rw [ContextCounts.put, ContextCounts.put, OrderedMap.get?_set, OrderedMap.get?_set,
      same.targets]
  · rw [ContextCounts.put, ContextCounts.put, same.lastSeen]

end Rows

section Field

variable [Field K] [LinearOrder K] {pow2 : ℚ → K} {halfLife sequence : Number}
  {left right : ContextCounts K}

omit [LinearOrder K] in
theorem RowAlike.advance (same : RowAlike left right) (lastSeen : ℕ)
    : RowAlike (left.advance pow2 lastSeen halfLife) (right.advance pow2 lastSeen halfLife) := by
  rw [ContextCounts.advance, ContextCounts.advance, same.lastSeen]
  by_cases ahead : isPositive halfLife = true ∧ right.lastSeen < lastSeen
  · rw [if_pos ahead, if_pos ahead]
    refine ⟨same.context, fun target => ?_, rfl⟩
    rw [advanceTargets, advanceTargets, OrderedMap.get?_mapValues, OrderedMap.get?_mapValues,
      same.targets]
  · rw [if_neg ahead, if_neg ahead]
    exact same

theorem RowAlike.observe (same : RowAlike left right) (target : JsString) (lastSeen : ℕ)
    : RowAlike (left.observe pow2 target lastSeen halfLife)
      (right.observe pow2 target lastSeen halfLife) := by
  have advanced : RowAlike (left.advance pow2 lastSeen halfLife)
      (right.advance pow2 lastSeen halfLife) := same.advance lastSeen
  rw [ContextCounts.observe, ContextCounts.observe, advanced.targets]
  exact advanced.put ..

omit [LinearOrder K] in
theorem RowAlike.total (same : RowAlike left right)
    : PpmCountTrie.total left = PpmCountTrie.total right := by
  rw [PpmCountTrie.total, PpmCountTrie.total]
  exact ((same.entries_perm.map Prod.snd).map TargetCount.count).sum_eq

/-- The same estimates, and as much left to share. -/
def EstimatesAlike (left right : OrderedMap JsString K × K) : Prop :=
  (∀ target, left.1.get? target = right.1.get? target) ∧ left.2 = right.2

/-- One suffix blends alike. -/
theorem RowAlike.blend (same : RowAlike left right) {before after : OrderedMap JsString K × K}
    (states : EstimatesAlike before after)
    : EstimatesAlike (PpmCountTrie.blend pow2 sequence halfLife before left)
      (PpmCountTrie.blend pow2 sequence halfLife after right) := by
  have weighted := same.entries_perm.map fun entry =>
    (entry.1, decayedCount pow2 entry.2 sequence halfLife)
  have counted := weighted.filter fun entry => decide (0 < entry.2)
  have totals := (weighted.map Prod.snd).sum_eq
  have numbers := counted.length_eq
  have distinct : (((left.targets.entries.map fun entry =>
      (entry.1, decayedCount pow2 entry.2 sequence halfLife)).filter
        fun entry => decide (0 < entry.2)).map Prod.fst).Nodup := by
    refine List.Nodup.sublist (List.filter_sublist.map Prod.fst) ?_
    rw [OrderedMap.keys_map (fun value => decayedCount pow2 value sequence halfLife)]
    exact left.targets.distinct
  rw [PpmCountTrie.blend, PpmCountTrie.blend]
  simp only [totals, numbers, states.2]
  split
  · exact states
  · exact ⟨fun target => OrderedMap.get?_updateAll_perm
      (fun (estimate : Option K) (count : K) => estimate.getD 0 + after.2 * (count / _)) distinct
        counted states.1 target, rfl⟩

end Field

section Suffixes

variable {α β : Type*} {related : α → β → Prop} {leftCut : α → Bool} {rightCut : β → Bool}
  {left : List α} {right : List β}

theorem cutDeterministic_forall₂ (same : List.Forall₂ related left right)
    (cuts : ∀ first second, related first second → leftCut first = rightCut second)
    : List.Forall₂ related (cutDeterministic leftCut left) (cutDeterministic rightCut right) := by
  induction same with
  | nil => exact .nil
  | @cons first second _ _ one more ih =>
      rw [cutDeterministic, cutDeterministic, cuts first second one]
      split
      · exact .cons one .nil
      · exact .cons one ih

theorem preferShortest_forall₂ (same : List.Forall₂ related left right)
    (cuts : ∀ first second, related first second → leftCut first = rightCut second)
    : List.Forall₂ related (preferShortest leftCut left) (preferShortest rightCut right) := by
  cases same with
  | nil => exact .nil
  | cons one more => exact .cons one (cutDeterministic_forall₂ more cuts)

theorem filterMap_forall₂ {ι : Type*} {first : ι → Option α} {second : ι → Option β}
    (same : ∀ item, Option.Rel related (first item) (second item)) (items : List ι)
    : List.Forall₂ related (items.filterMap first) (items.filterMap second) := by
  induction items with
  | nil => exact .nil
  | cons item rest ih =>
      rw [List.filterMap_cons, List.filterMap_cons]
      rcases optionRel_cases (same item) with ⟨none_, other⟩ | ⟨one, two, found, other, alike⟩
      · rw [none_, other]
        exact ih
      · rw [found, other]
        exact .cons alike ih

end Suffixes

namespace Alike

section Plain

variable {left right third : PpmCountTrie K}

theorem symm (same : Alike left right) : Alike right left := by
  refine ⟨same.order.symm, fun key => ?_⟩
  rcases optionRel_cases (same.rows key) with ⟨none_, other⟩ | ⟨one, two, found, other, alike⟩
  · rw [none_, other]
    exact .none
  · rw [found, other]
    exact .some alike.symm

theorem trans (first : Alike left right) (second : Alike right third) : Alike left third := by
  refine ⟨first.order.trans second.order, fun key => ?_⟩
  rcases optionRel_cases (first.rows key) with ⟨none_, other⟩ | ⟨one, two, found, other, near⟩
  · rw [none_, ← other]
    exact second.rows key
  · have far := second.rows key
    rw [other] at far
    rw [found]
    rcases optionRel_cases far with ⟨impossible, -⟩ | ⟨same, three, equal, last, alike⟩
    · cases impossible
    · rw [last]
      exact .some (near.trans (Option.some.inj equal ▸ alike))

theorem suffixes (same : Alike left right) (history : List JsString)
    : left.suffixes history = right.suffixes history := by
  rw [PpmCountTrie.suffixes, PpmCountTrie.suffixes, same.order]

/-- The counts of a context are alike, stored or fresh. -/
theorem context (same : Alike left right) (context : List JsString)
    : RowAlike (left.context context) (right.context context) := by
  rw [PpmCountTrie.context, PpmCountTrie.context]
  rcases optionRel_cases (same.rows (contextKey context)) with
    ⟨none_, other⟩ | ⟨one, two, found, other, alike⟩
  · rw [none_, other]
    exact .refl _
  · rw [found, other]
    exact alike

/-- The same keys are stored. -/
theorem mem_keys (same : Alike left right) (key : JsString)
    : key ∈ left.counts.keys ↔ key ∈ right.counts.keys := by
  rw [OrderedMap.mem_keys_iff, OrderedMap.mem_keys_iff]
  rcases optionRel_cases (same.rows key) with ⟨none_, other⟩ | ⟨one, two, found, other, -⟩
  · rw [none_, other]
  · exact iff_of_true ⟨one, found⟩ ⟨two, other⟩

theorem keys_perm (same : Alike left right) : left.counts.keys.Perm right.counts.keys :=
  (List.perm_ext_iff_of_nodup left.counts.keys_nodup right.counts.keys_nodup).mpr same.mem_keys

theorem size (same : Alike left right) : left.size = right.size := same.keys_perm.length_eq

/-- Removing the same contexts leaves the same evidence. -/
theorem delete {left right : OrderedMap JsString (ContextCounts K)}
    (same : ∀ key, Option.Rel RowAlike (left.get? key) (right.get? key)) (keys : List JsString)
    : ∀ key, Option.Rel RowAlike ((keys.foldl OrderedMap.delete left).get? key)
        ((keys.foldl OrderedMap.delete right).get? key) := by
  induction keys generalizing left right with
  | nil => exact same
  | cons removed rest ih =>
      refine ih fun key => ?_
      rw [OrderedMap.get?_delete, OrderedMap.get?_delete]
      split
      · exact .none
      · exact same key

end Plain

section Field

variable [Field K] [LinearOrder K] {pow2 : ℚ → K} {halfLife sequence : Number}
  {left right : PpmCountTrie K}

/-- Observations are added alike. -/
theorem observe (same : Alike left right) (history : List JsString) (target : JsString)
    : Alike (left.observe pow2 history target sequence halfLife)
      (right.observe pow2 history target sequence halfLife) := by
  rw [PpmCountTrie.observe, PpmCountTrie.observe]
  by_cases empty : target = []
  · rw [if_pos empty, if_pos empty]
    exact same
  rw [if_neg empty, if_neg empty, ← same.suffixes history]
  refine ⟨by rw [order_observeContexts, order_observeContexts, same.order], fun key => ?_⟩
  have distinct := suffixes_nodup left history
  by_cases present : ∃ context ∈ left.suffixes history, contextKey context = key
  · obtain ⟨context, member, rfl⟩ := present
    rw [get?_observeContexts distinct member, get?_observeContexts distinct member]
    exact .some ((same.context context).observe target _)
  · have others : ∀ context ∈ left.suffixes history, contextKey context ≠ key :=
      fun context member keyed => present ⟨context, member, keyed⟩
    rw [get?_observeContexts_other others, get?_observeContexts_other others]
    exact same.rows key

omit [Field K] [LinearOrder K] in
theorem usedSuffixes (same : Alike left right) (history : List JsString)
    : List.Forall₂ RowAlike (left.usedSuffixes history) (right.usedSuffixes history) := by
  rw [PpmCountTrie.usedSuffixes, PpmCountTrie.usedSuffixes, ← same.suffixes history]
  refine preferShortest_forall₂ (filterMap_forall₂ (fun context => same.rows _) _) ?_
  intro first second rows
  rw [rows.length_keys]

/-- Every target has the same probability. -/
theorem distribution (same : Alike left right) (history : List JsString) (target : JsString)
    : (left.distribution pow2 history sequence halfLife).get? target
      = (right.distribution pow2 history sequence halfLife).get? target := by
  have present : left.counts.has (units "[]") = right.counts.has (units "[]") := by
    rw [OrderedMap.has, OrderedMap.has]
    exact decide_eq_decide.mpr (same.mem_keys _)
  rw [PpmCountTrie.distribution, PpmCountTrie.distribution, present]
  split
  · have rows := List.rel_reverse (same.usedSuffixes history)
    have start : EstimatesAlike ((.empty, 1) : OrderedMap JsString K × K) (.empty, 1) :=
      ⟨fun _ => rfl, rfl⟩
    have step : Relator.LiftFun EstimatesAlike (Relator.LiftFun RowAlike EstimatesAlike)
        (blend pow2 sequence halfLife) (blend pow2 sequence halfLife) :=
      fun _ _ states _ _ one => one.blend states
    have estimates := List.rel_foldl step start rows
    rw [OrderedMap.get?_mapValues, OrderedMap.get?_mapValues, estimates.1 target]
  · rfl

end Field

end Alike

end SpeculativeAction.PpmTrie
