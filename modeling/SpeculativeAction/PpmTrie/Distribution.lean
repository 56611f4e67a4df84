import SpeculativeAction.Library.Grouping
import SpeculativeAction.PpmTrie.Evidence

/-! The distribution after a history: an interpolated escape over the suffixes of the history, from
the longest one that takes part to the shortest, computed from eager counts.
-/

namespace SpeculativeAction.PpmTrie

open SpeculativeAction.Library PpmCountTrie

-- The reference

section Reference

variable {K : Type*} [Field K] [LinearOrder K] (pow2 : ℚ → K) (halfLife : Number)
  (observations : List Observation)

/-- The targets that were observed in a context. -/
def referenceTargets (context : List JsString) : Finset JsString :=
  ((observations.filter fun observation => decide (observation.Sees context)).map
    Observation.target).toFinset

def referenceTotal (context : List JsString) (time : ℚ) : K :=
  ∑ target ∈ referenceTargets observations context,
    referenceCount pow2 halfLife observations context target time

/-- The suffixes of a history up to the order that were seen, the shortest first, up to the
shortest deterministic one.
-/
def referenceSuffixes (order : ℕ) (history : List JsString) : List (List JsString) :=
  let suffixes := (List.range (min history.length order + 1)).map fun length =>
    history.drop (history.length - length)
  preferShortest (fun context => decide ((referenceTargets observations context).card = 1))
    (suffixes.filter fun context => observations.any fun observation =>
      decide (observation.Sees context))

/-- A suffix gives its share of what remains, and the shorter ones share the escape. -/
def referenceBlend (target : JsString) (time : ℚ) : K → List (List JsString) → K
  | _, [] => 0
  | remaining, context :: shorter =>
      let total := referenceTotal pow2 halfLife observations context time
      let distinct : K := (referenceTargets observations context).card
      remaining * (referenceCount pow2 halfLife observations context target time
          / (total + distinct))
        + referenceBlend target time (remaining * (distinct / (total + distinct))) shorter

def referenceProbability (order : ℕ) (history : List JsString) (target : JsString) (time : ℚ)
    : K :=
  referenceBlend pow2 halfLife observations target time 1
    (referenceSuffixes observations order history).reverse

end Reference

-- The suffixes that take part

section Suffixes

variable {α β : Type*} {list : List α} {deterministic : α → Bool}

theorem cutDeterministic_map (f : α → β) (deterministic : β → Bool) (list : List α)
    : cutDeterministic deterministic (list.map f)
      = (cutDeterministic (deterministic ∘ f) list).map f := by
  induction list with
  | nil => rfl
  | cons first rest ih =>
      rw [List.map_cons, cutDeterministic, cutDeterministic, ih]
      by_cases cut : deterministic (f first) = true
      · rw [if_pos cut, if_pos (show (deterministic ∘ f) first = true from cut)]
        rfl
      · rw [if_neg cut, if_neg (show ¬ (deterministic ∘ f) first = true from cut)]
        rfl

theorem cutDeterministic_congr {left right : α → Bool}
    (same : ∀ member ∈ list, left member = right member)
    : cutDeterministic left list = cutDeterministic right list := by
  induction list with
  | nil => rfl
  | cons first rest ih =>
      obtain ⟨here, later⟩ := List.forall_mem_cons.mp same
      rw [cutDeterministic, cutDeterministic, here, ih later]

theorem mem_of_cutDeterministic {member : α} (kept : member ∈ cutDeterministic deterministic list)
    : member ∈ list := by
  induction list with
  | nil => cases kept
  | cons first rest ih =>
      rw [cutDeterministic] at kept
      by_cases cut : deterministic first = true
      · rw [if_pos cut] at kept
        exact List.mem_singleton.mp kept ▸ List.mem_cons_self
      · rw [if_neg cut] at kept
        rcases List.mem_cons.mp kept with rfl | later
        · exact List.mem_cons_self
        · exact List.mem_cons_of_mem _ (ih later)

theorem preferShortest_map (f : α → β) {deterministic : β → Bool} {other : α → Bool}
    (same : ∀ member ∈ list, deterministic (f member) = other member)
    : preferShortest deterministic (list.map f) = (preferShortest other list).map f := by
  cases list with
  | nil => rfl
  | cons first rest =>
      have alike : ∀ member ∈ rest, (deterministic ∘ f) member = other member :=
        fun member inside => same member (List.mem_cons_of_mem _ inside)
      rw [List.map_cons, preferShortest, preferShortest, cutDeterministic_map,
        cutDeterministic_congr alike]
      rfl

theorem mem_of_preferShortest {member : α} (kept : member ∈ preferShortest deterministic list)
    : member ∈ list := by
  cases list with
  | nil => cases kept
  | cons first rest =>
      rcases List.mem_cons.mp kept with rfl | later
      · exact List.mem_cons_self
      · exact List.mem_cons_of_mem _ (mem_of_cutDeterministic later)

end Suffixes

section Rows

variable {K : Type*} [Field K] [LinearOrder K] [IsStrictOrderedRing K] {pow2 : ℚ → K}
  {halfLife : Number} {order : ℕ} {observations : List Observation} {context : List JsString}
  {row : ContextCounts K} {trie : PpmCountTrie K}

omit [LinearOrder K] [IsStrictOrderedRing K] in
/-- The targets of a row are those that were observed. -/
theorem RowExact.mem_keys (exact_ : RowExact pow2 halfLife observations context row)
    (target : JsString)
    : target ∈ row.targets.keys ↔ target ∈ referenceTargets observations context := by
  have stored : target ∈ row.targets.keys ↔ occurrences observations context target ≠ [] := by
    rw [ne_eq, ← exact_.absent target, OrderedMap.get?_eq_none_iff, not_not]
  rw [stored, referenceTargets, List.mem_toFinset, List.mem_map]
  constructor
  · intro some_
    obtain ⟨observation, member⟩ := List.exists_mem_of_ne_nil _ some_
    obtain ⟨inside, counts⟩ := List.mem_filter.mp member
    obtain ⟨sees, same⟩ := of_decide_eq_true counts
    exact ⟨observation, List.mem_filter.mpr ⟨inside, decide_eq_true sees⟩, same⟩
  · rintro ⟨observation, member, same⟩
    obtain ⟨inside, sees⟩ := List.mem_filter.mp member
    refine List.ne_nil_of_mem (a := observation) (List.mem_filter.mpr ⟨inside, ?_⟩)
    exact decide_eq_true ⟨of_decide_eq_true sees, same⟩

omit [LinearOrder K] [IsStrictOrderedRing K] in
theorem RowExact.toFinset_keys (exact_ : RowExact pow2 halfLife observations context row)
    : row.targets.keys.toFinset = referenceTargets observations context := by
  ext target
  rw [List.mem_toFinset, exact_.mem_keys]

omit [LinearOrder K] [IsStrictOrderedRing K] in
theorem RowExact.length_keys (exact_ : RowExact pow2 halfLife observations context row)
    : row.targets.keys.length = (referenceTargets observations context).card := by
  rw [← exact_.toFinset_keys, List.toFinset_card_of_nodup row.targets.keys_nodup]

/-- What was observed has some weight left. -/
theorem referenceCount_pos (decay : MultiplicativeDecay pow2) {target : JsString}
    (observed : target ∈ referenceTargets observations context) (time : ℚ)
    : 0 < referenceCount pow2 halfLife observations context target time := by
  rw [referenceTargets, List.mem_toFinset, List.mem_map] at observed
  obtain ⟨observation, member, same⟩ := observed
  obtain ⟨inside, sees⟩ := List.mem_filter.mp member
  have counted : observation ∈ occurrences observations context target :=
    List.mem_filter.mpr ⟨inside, decide_eq_true ⟨of_decide_eq_true sees, same⟩⟩
  refine List.sum_pos _ ?_ (List.ne_nil_of_mem (List.mem_map_of_mem counted))
  intro weighed fading
  obtain ⟨other, _, rfl⟩ := List.mem_map.mp fading
  exact weight_pos decay _

omit [LinearOrder K] [IsStrictOrderedRing K] in
/-- The rows that take part are those of the reference's contexts. -/
theorem Represents.usedSuffixes (represents : Represents pow2 halfLife order observations trie)
    (history : List JsString)
    : trie.usedSuffixes history
      = (referenceSuffixes observations order history).map trie.context := by
  have rows : (trie.suffixes history).filterMap
        (fun context => trie.counts.get? (contextKey context))
      = ((trie.suffixes history).filter fun context => observations.any fun observation =>
          decide (observation.Sees context)).map trie.context := by
    rw [← List.filterMap_eq_map, List.filterMap_filter]
    refine List.filterMap_congr fun context member => ?_
    have bounded := (mem_suffixes.mp member).2.trans_eq represents.bounded
    cases found : trie.counts.get? (contextKey context) with
    | none =>
        have unseen : ¬ (observations.any fun observation =>
            decide (observation.Sees context)) = true := by
          intro seen
          obtain ⟨observation, inside, sees⟩ := List.any_eq_true.mp seen
          exact represents.populated context bounded
            ⟨observation, inside, of_decide_eq_true sees⟩ found
        rw [if_neg unseen]
    | some row =>
        obtain ⟨observation, inside, sees⟩ := (represents.row found).2.1
        have seen : (observations.any fun observation =>
            decide (observation.Sees context)) = true :=
          List.any_eq_true.mpr ⟨observation, inside, decide_eq_true sees⟩
        have stored : trie.context context = row := by
          rw [PpmCountTrie.context, found]
          rfl
        rw [if_pos seen, Function.comp_apply, stored]
  rw [PpmCountTrie.usedSuffixes, rows, referenceSuffixes]
  have same : trie.suffixes history
      = (List.range (min history.length order + 1)).map fun length =>
        history.drop (history.length - length) := by
    rw [suffixes, represents.bounded]
  rw [← same]
  refine preferShortest_map trie.context fun context member => ?_
  have bounded := (mem_suffixes.mp (List.mem_filter.mp member).1).2.trans_eq represents.bounded
  rw [(represents.context_exact bounded).length_keys]

omit [LinearOrder K] [IsStrictOrderedRing K] in
theorem mem_referenceSuffixes {history : List JsString}
    (member : context ∈ referenceSuffixes observations order history)
    : context.length ≤ order ∧ ∃ observation ∈ observations, observation.Sees context := by
  obtain ⟨inside, seen⟩ := List.mem_filter.mp (mem_of_preferShortest member)
  obtain ⟨length, range, rfl⟩ := List.mem_map.mp inside
  obtain ⟨observation, observed, sees⟩ := List.any_eq_true.mp seen
  refine ⟨?_, observation, observed, of_decide_eq_true sees⟩
  have bound := List.mem_range.mp range
  rw [List.length_drop]
  omega

end Rows

-- The blend

section Gains

variable {T K : Type*} [DecidableEq T] [AddCommMonoid K]

/-- Every target of a list gains its share. -/
def addGains (gain : T → K) (targets : List T) (estimates : OrderedMap T K) : OrderedMap T K :=
  targets.foldl
    (fun estimates target => estimates.set target ((estimates.get? target).getD 0 + gain target))
    estimates

variable {gain : T → K} {targets : List T} {estimates : OrderedMap T K}

theorem getD_addGains_other {target : T} (other : target ∉ targets)
    : (addGains gain targets estimates).get? target = estimates.get? target := by
  induction targets generalizing estimates with
  | nil => rfl
  | cons first rest ih =>
      obtain ⟨different, later⟩ := not_or.mp (List.mem_cons.not.mp other)
      rw [addGains, List.foldl_cons]
      exact (ih later).trans ((OrderedMap.get?_set ..).trans (if_neg different))

theorem getD_addGains (distinct : targets.Nodup) (target : T)
    : ((addGains gain targets estimates).get? target).getD 0
      = (estimates.get? target).getD 0 + if target ∈ targets then gain target else 0 := by
  induction targets generalizing estimates with
  | nil => exact (add_zero _).symm
  | cons first rest ih =>
      obtain ⟨fresh, later⟩ := List.nodup_cons.mp distinct
      have step : addGains gain (first :: rest) estimates
          = addGains gain rest
            (estimates.set first ((estimates.get? first).getD 0 + gain first)) := rfl
      rw [step]
      by_cases here : target = first
      · subst here
        rw [getD_addGains_other fresh, OrderedMap.get?_set, if_pos rfl, if_pos List.mem_cons_self]
        rfl
      · have elsewhere : target ∈ first :: rest ↔ target ∈ rest :=
          List.mem_cons.trans (or_iff_right here)
        rw [ih later, OrderedMap.get?_set, if_neg here, if_congr elsewhere rfl rfl]

theorem sum_addGains (gain : T → K) (targets : List T) (estimates : OrderedMap T K)
    : (addGains gain targets estimates).values.sum
      = estimates.values.sum + (targets.map gain).sum := by
  induction targets generalizing estimates with
  | nil => exact (add_zero _).symm
  | cons first rest ih =>
      have step : addGains gain (first :: rest) estimates
          = addGains gain rest
            (estimates.set first ((estimates.get? first).getD 0 + gain first)) := rfl
      rw [step, ih, sum_values_add, List.map_cons, List.sum_cons, add_assoc]

end Gains

section Blend

variable {K : Type*} [Field K] [LinearOrder K] [IsStrictOrderedRing K] {pow2 : ℚ → K}
  {halfLife : Number} {order : ℕ} {observations : List Observation} {context : List JsString}
  {row : ContextCounts K} {trie : PpmCountTrie K} {time : ℚ}

omit [LinearOrder K] [IsStrictOrderedRing K] in
/-- The total of a row is that of its reference. -/
theorem RowExact.total (exact_ : RowExact pow2 halfLife observations context row)
    : (row.targets.keys.map fun target =>
        referenceCount pow2 halfLife observations context target time).sum
      = referenceTotal pow2 halfLife observations context time := by
  rw [referenceTotal, ← exact_.toFinset_keys, List.sum_toFinset _ row.targets.keys_nodup]

theorem referenceTotal_pos (halfLife : Number) (time : ℚ) (decay : MultiplicativeDecay pow2)
    (seen : ∃ observation ∈ observations, observation.Sees context)
    : 0 < referenceTotal pow2 halfLife observations context time
      ∧ 0 < (referenceTargets observations context).card := by
  obtain ⟨observation, member, sees⟩ := seen
  have observed : observation.target ∈ referenceTargets observations context :=
    List.mem_toFinset.mpr (List.mem_map_of_mem
      (List.mem_filter.mpr ⟨member, decide_eq_true sees⟩))
  refine ⟨Finset.sum_pos (fun target inside => referenceCount_pos decay inside time) ⟨_, observed⟩,
    Finset.card_pos.mpr ⟨_, observed⟩⟩

/-- The share of a target in what a suffix gets. -/
def share (pow2 : ℚ → K) (halfLife : Number) (observations : List Observation)
    (context : List JsString) (time : ℚ) (remaining : K) (target : JsString) : K :=
  remaining * (referenceCount pow2 halfLife observations context target time
    / (referenceTotal pow2 halfLife observations context time
      + (referenceTargets observations context).card))

/-- What a suffix leaves to the shorter ones. -/
def escape (pow2 : ℚ → K) (halfLife : Number) (observations : List Observation)
    (context : List JsString) (time : ℚ) (remaining : K) : K :=
  remaining * ((referenceTargets observations context).card
    / (referenceTotal pow2 halfLife observations context time
      + (referenceTargets observations context).card))

/-- A row is blended as its reference. -/
theorem RowExact.blend (decay : MultiplicativeDecay pow2)
    (exact_ : RowExact pow2 halfLife observations context row)
    (seen : ∃ observation ∈ observations, observation.Sees context)
    (late : ∀ observation ∈ observations, (observation.time : ℚ) ≤ time)
    (state : OrderedMap JsString K × K)
    : PpmCountTrie.blend pow2 (.finite time) halfLife state row
      = (addGains (share pow2 halfLife observations context time state.2) row.targets.keys state.1,
        escape pow2 halfLife observations context time state.2) := by
  have weighted : (row.targets.entries.map fun entry =>
        (entry.1, decayedCount pow2 entry.2 (.finite time) halfLife))
      = row.targets.keys.map fun target =>
        (target, referenceCount pow2 halfLife observations context target time) := by
    rw [OrderedMap.keys, List.map_map]
    refine List.map_congr_left fun entry member => ?_
    have stored := OrderedMap.get?_eq_some_iff.mpr (show (entry.1, entry.2) ∈ _ from member)
    have read := decayedCount_of_exact decay (exact_.last_le_of_seen seen late)
      (exact_.counts entry.1 entry.2 stored)
      fun decaying => exact_.current decaying entry.1 entry.2 stored
    rw [read]
    rfl
  have totals : ((row.targets.keys.map fun target =>
        (target, referenceCount pow2 halfLife observations context target time)).map Prod.snd).sum
      = referenceTotal pow2 halfLife observations context time := by
    rw [List.map_map]
    exact exact_.total
  have counted : (row.targets.keys.map fun target =>
        (target, referenceCount pow2 halfLife observations context target time)).filter
          (fun entry => decide (0 < entry.2))
      = row.targets.keys.map fun target =>
        (target, referenceCount pow2 halfLife observations context target time) := by
    rw [List.filter_eq_self]
    intro entry member
    obtain ⟨target, inside, rfl⟩ := List.mem_map.mp member
    exact decide_eq_true (referenceCount_pos decay ((exact_.mem_keys target).mp inside) time)
  obtain ⟨positive, some_⟩ := referenceTotal_pos halfLife time decay seen
  rw [PpmCountTrie.blend, weighted, totals, counted, List.length_map, exact_.length_keys,
    if_neg (not_or.mpr ⟨not_le.mpr positive, some_.ne'⟩), List.foldl_map]
  rfl

theorem share_pos (decay : MultiplicativeDecay pow2)
    (seen : ∃ observation ∈ observations, observation.Sees context) {remaining : K}
    (left : 0 < remaining) {target : JsString}
    (observed : target ∈ referenceTargets observations context)
    : 0 < share pow2 halfLife observations context time remaining target := by
  obtain ⟨positive, some_⟩ := referenceTotal_pos halfLife time decay seen
  exact mul_pos left (div_pos (referenceCount_pos decay observed time)
    (add_pos positive (Nat.cast_pos.mpr some_)))

/-- The shares of a suffix and its escape are all that remained. -/
theorem sum_share_add_escape (decay : MultiplicativeDecay pow2)
    (exact_ : RowExact pow2 halfLife observations context row)
    (seen : ∃ observation ∈ observations, observation.Sees context) (remaining : K)
    : (row.targets.keys.map (share pow2 halfLife observations context time remaining)).sum
        + escape pow2 halfLife observations context time remaining
      = remaining := by
  obtain ⟨positive, some_⟩ := referenceTotal_pos halfLife time decay seen
  have denominator : referenceTotal pow2 halfLife observations context time
      + (referenceTargets observations context).card ≠ 0 :=
    (add_pos positive (Nat.cast_pos.mpr some_)).ne'
  have shares : (row.targets.keys.map
        (share pow2 halfLife observations context time remaining)).sum
      = remaining * (referenceTotal pow2 halfLife observations context time
        / (referenceTotal pow2 halfLife observations context time
          + (referenceTargets observations context).card)) := by
    unfold share
    simp only [div_eq_mul_inv]
    rw [List.sum_map_mul_left, List.sum_map_mul_right, exact_.total]
  rw [shares, escape, ← mul_add, ← add_div, div_self denominator, mul_one]

/-- The estimates and what remains, behind some suffixes. -/
structure Blended (before after : OrderedMap JsString K × K) (gain : JsString → K) : Prop where
  estimates : ∀ target, (after.1.get? target).getD 0 = (before.1.get? target).getD 0 + gain target
  positive : OrderedMap.Forall (fun _ estimate => 0 < estimate) after.1
  remaining : 0 < after.2
  conserved : after.1.values.sum + after.2 = before.1.values.sum + before.2

theorem forall_addGains {gain : JsString → K} {targets : List JsString}
    {estimates : OrderedMap JsString K} (distinct : targets.Nodup)
    (positive : OrderedMap.Forall (fun _ estimate => 0 < estimate) estimates)
    (gains : ∀ target ∈ targets, 0 < gain target)
    : OrderedMap.Forall (fun _ estimate => 0 < estimate) (addGains gain targets estimates) := by
  intro target estimate found
  by_cases member : target ∈ targets
  · have value : ((addGains gain targets estimates).get? target).getD 0 = _ :=
      getD_addGains distinct target
    rw [found, Option.getD_some, if_pos member] at value
    rw [value]
    refine add_pos_of_nonneg_of_pos ?_ (gains target member)
    cases before : estimates.get? target with
    | none => exact le_rfl
    | some old => exact (positive target old before).le
  · rw [getD_addGains_other member] at found
    exact positive target estimate found

/-- The whole blend, by induction on the suffixes from the longest on. -/
theorem Represents.blended (decay : MultiplicativeDecay pow2)
    (represents : Represents pow2 halfLife order observations trie)
    (late : ∀ observation ∈ observations, (observation.time : ℚ) ≤ time)
    {contexts : List (List JsString)}
    (used : ∀ context ∈ contexts, context.length ≤ order
      ∧ ∃ observation ∈ observations, observation.Sees context)
    {state : OrderedMap JsString K × K}
    (positive : OrderedMap.Forall (fun _ estimate => 0 < estimate) state.1)
    (left : 0 < state.2)
    : Blended state
      ((contexts.map trie.context).foldl (PpmCountTrie.blend pow2 (.finite time) halfLife) state)
      (fun target =>
        referenceBlend pow2 halfLife observations target time state.2 contexts) := by
  induction contexts generalizing state with
  | nil => exact ⟨fun _ => (add_zero _).symm, positive, left, rfl⟩
  | cons context shorter ih =>
      obtain ⟨⟨bounded, seen⟩, later⟩ := List.forall_mem_cons.mp used
      have exact_ := represents.context_exact bounded
      obtain ⟨total, some_⟩ := referenceTotal_pos halfLife time decay seen
      have distinct := (trie.context context).targets.keys_nodup
      have escapes : 0 < escape pow2 halfLife observations context time state.2 :=
        mul_pos left (div_pos (Nat.cast_pos.mpr some_) (add_pos total (Nat.cast_pos.mpr some_)))
      have gains : ∀ target ∈ (trie.context context).targets.keys,
          0 < share pow2 halfLife observations context time state.2 target :=
        fun target inside => share_pos decay seen left ((exact_.mem_keys target).mp inside)
      rw [List.map_cons, List.foldl_cons, exact_.blend decay seen late]
      have rest := @ih later
        (addGains (share pow2 halfLife observations context time state.2)
          (trie.context context).targets.keys state.1,
          escape pow2 halfLife observations context time state.2)
        (forall_addGains distinct positive gains) escapes
      refine ⟨fun target => ?_, rest.positive, rest.remaining, ?_⟩
      · rw [rest.estimates, getD_addGains distinct, add_assoc]
        refine congrArg ((state.1.get? target).getD 0 + ·) ?_
        rw [referenceBlend]
        refine congrArg (· + _) ?_
        by_cases observed : target ∈ (trie.context context).targets.keys
        · rw [if_pos observed]
          rfl
        · have none_ : occurrences observations context target = [] := by
            rw [← exact_.absent target]
            exact OrderedMap.get?_eq_none_iff.mpr observed
          rw [if_neg observed, referenceCount, none_, List.map_nil, List.sum_nil, zero_div,
            mul_zero]
      · rw [rest.conserved, sum_addGains, add_assoc, sum_share_add_escape decay exact_ seen]

end Blend

-- The evidence of a run

section Exact

variable {halfLife : Number} {order : ℕ} {observations : List Observation}
  {trie : PpmCountTrie ℝ} {time : ℚ}

theorem contextKey_nil : contextKey [] = units "[]" := by decide

/-- What the trie answers at a time, compared with eager evidence. -/
structure EvidenceExact (halfLife : Number) (order : ℕ) (observations : List Observation)
    (trie : PpmCountTrie ℝ) (time : ℚ) : Prop where
  counts : ∀ context target, context.length ≤ order →
    storedCount realPow2 trie context target (.finite time) halfLife
      = referenceCount realPow2 halfLife observations context target time
  distribution : ∀ history target,
    (trie.distribution realPow2 history (.finite time) halfLife).get? target
      = if 0 < referenceProbability realPow2 halfLife observations order history target time then
          some (referenceProbability realPow2 halfLife observations order history target time)
        else none
  nonneg : ∀ history,
    ∀ probability ∈ (trie.distribution realPow2 history (.finite time) halfLife).values,
      0 ≤ probability
  total : ∀ history,
    (trie.distribution realPow2 history (.finite time) halfLife).values.sum ≤ 1

/-- Without the empty context no suffix was seen. -/
theorem Represents.referenceSuffixes_eq_nil
    (represents : Represents realPow2 halfLife order observations trie)
    (empty : trie.counts.has (units "[]") = false) (history : List JsString)
    : referenceSuffixes observations order history = [] := by
  refine List.eq_nil_iff_forall_not_mem.mpr fun context member => ?_
  obtain ⟨_, observation, inside, sees⟩ := mem_referenceSuffixes member
  refine represents.populated [] (Nat.zero_le _)
    ⟨observation, inside, List.nil_suffix, sees.2⟩ ?_
  rw [contextKey_nil, OrderedMap.get?_eq_none_iff]
  exact OrderedMap.has_eq_false_iff.mp empty

/-- Probabilities need no clamp. -/
theorem clamp_estimates {estimates : OrderedMap JsString ℝ}
    (positive : OrderedMap.Forall (fun _ estimate => 0 < estimate) estimates)
    (total : estimates.values.sum ≤ 1)
    : estimates.mapValues clampProbability = estimates := by
  have bounds (value : ℝ) (member : value ∈ estimates.values) : 0 < value ∧ value ≤ 1 := by
    have all (other : ℝ) (inside : other ∈ estimates.values) : 0 < other := by
      obtain ⟨key, stored⟩ := OrderedMap.mem_values_iff.mp inside
      exact positive key other stored
    exact ⟨all value member,
      (List.single_le_sum (fun other inside => (all other inside).le) value member).trans total⟩
  refine OrderedMap.ext ?_
  refine (List.map_congr_left fun entry member => ?_).trans (List.map_id _)
  obtain ⟨least, most⟩ := bounds entry.2 (List.mem_map_of_mem member)
  rw [clampProbability, min_eq_right most, max_eq_right least.le]
  rfl

theorem Represents.exact (represents : Represents realPow2 halfLife order observations trie)
    (late : ∀ observation ∈ observations, (observation.time : ℚ) ≤ time)
    : EvidenceExact halfLife order observations trie time := by
  have decay := realPow2_decay
  -- The estimates before the clamp, and that they need none.
  have estimated (history : List JsString) : ∃ estimates : OrderedMap JsString ℝ,
      trie.distribution realPow2 history (.finite time) halfLife = estimates
      ∧ OrderedMap.Forall (fun _ estimate => 0 < estimate) estimates
      ∧ estimates.values.sum ≤ 1
      ∧ ∀ target, (estimates.get? target).getD 0
        = referenceProbability realPow2 halfLife observations order history target time := by
    have used : ∀ context ∈ (referenceSuffixes observations order history).reverse,
        context.length ≤ order ∧ ∃ observation ∈ observations, observation.Sees context :=
      fun context member => mem_referenceSuffixes (List.mem_reverse.mp member)
    have start : OrderedMap.Forall (fun _ estimate => 0 < estimate)
        ((.empty, 1) : OrderedMap JsString ℝ × ℝ).1 := OrderedMap.Forall.empty
    have blended := represents.blended decay late used start one_pos
    have total := blended.conserved
    have remaining := blended.remaining
    have none_ : (OrderedMap.empty : OrderedMap JsString ℝ).values.sum = 0 := rfl
    rw [none_, zero_add] at total
    cases empty : trie.counts.has (units "[]") with
    | false =>
        refine ⟨.empty, if_neg (Bool.eq_false_iff.mp empty), OrderedMap.Forall.empty,
          none_.trans_le zero_le_one, fun target => ?_⟩
        rw [referenceProbability, represents.referenceSuffixes_eq_nil empty]
        rfl
    | true =>
        refine ⟨_, ?_, blended.positive, by linarith, fun target => ?_⟩
        · rw [PpmCountTrie.distribution, if_pos empty, represents.usedSuffixes, ← List.map_reverse]
          exact clamp_estimates blended.positive (by linarith)
        · exact (blended.estimates target).trans (zero_add _)
  refine ⟨fun context target bounded => represents.storedCount decay bounded late,
    fun history target => ?_, fun history probability member => ?_, fun history => ?_⟩
  · obtain ⟨estimates, same, positive, _, values⟩ := estimated history
    rw [same, ← values]
    cases found : estimates.get? target with
    | none => rw [Option.getD_none, if_neg (lt_irrefl _)]
    | some estimate => rw [Option.getD_some, if_pos (positive target estimate found)]
  · obtain ⟨estimates, same, positive, _, _⟩ := estimated history
    rw [same] at member
    obtain ⟨target, found⟩ := OrderedMap.mem_values_iff.mp member
    exact (positive target probability found).le
  · obtain ⟨estimates, same, _, total, _⟩ := estimated history
    rw [same]
    exact total

theorem evidence_exact (maxOrder : Number)
    (ordered : (observations.map Observation.time).Pairwise (· ≤ ·))
    (unsaturated : Unsaturated realPow2 halfLife maxOrder.nonNegativeCount observations)
    (late : ∀ observation ∈ observations, (observation.time : ℚ) ≤ time)
    : EvidenceExact halfLife maxOrder.nonNegativeCount observations
      (observeAll realPow2 halfLife (create maxOrder) observations) time :=
  (represents_observeAll realPow2_decay maxOrder ordered unsaturated).exact late

/-- Nothing weighs more than an observation that is just made. -/
theorem weight_le_one {age : ℚ} (nonneg : 0 ≤ age) : weight realPow2 halfLife age ≤ 1 := by
  cases halfLife with
  | finite value =>
      rw [weight]
      by_cases positive : value ≤ 0
      · rw [if_pos positive]
      · rw [if_neg positive]
        refine Real.rpow_le_one_of_one_le_of_nonpos one_le_two ?_
        exact_mod_cast div_nonpos_of_nonpos_of_nonneg (neg_nonpos.mpr nonneg) (not_le.mp positive).le
  | infinite | nan => exact le_rfl

/-- Not more observations than the largest safe integer never saturate a count. -/
theorem unsaturated_of_length (ordered : (observations.map Observation.time).Pairwise (· ≤ ·))
    (few : observations.length ≤ Number.maxSafeInteger)
    : Unsaturated realPow2 halfLife order observations := by
  intro earlier observation part context _ _
  have times := ordered.sublist (part.sublist.map Observation.time)
  rw [List.map_append, List.pairwise_append] at times
  have before : ∀ member ∈ earlier ++ [observation], member.time ≤ observation.time := by
    intro member inside
    rcases List.mem_append.mp inside with old | now
    · exact times.2.2 _ (List.mem_map_of_mem old) _ (List.mem_singleton_self _)
    · rw [List.mem_singleton.mp now]
  have counted : referenceCount realPow2 halfLife (earlier ++ [observation]) context
      observation.target observation.time
      ≤ (occurrences (earlier ++ [observation]) context observation.target).length := by
    have bound := List.sum_le_card_nsmul
      ((occurrences (earlier ++ [observation]) context observation.target).map fun member =>
        weight realPow2 halfLife (observation.time - member.time)) 1 fun share inside => by
          obtain ⟨member, counts, rfl⟩ := List.mem_map.mp inside
          exact weight_le_one (sub_nonneg.mpr
            (Nat.cast_le.mpr (before member (List.mem_filter.mp counts).1)))
    rwa [List.length_map, nsmul_eq_mul, mul_one] at bound
  refine counted.trans (Nat.cast_le.mpr ?_)
  exact ((List.length_filter_le _ _).trans part.length_le).trans few

def sampleObservations : List Observation :=
  [⟨[units "a"], units "b", .finite 1⟩, ⟨[units "b", units "a"], units "c", .finite 2⟩]

theorem evidence_exact_sample
    : EvidenceExact (.finite 1) 2 sampleObservations
      (observeAll realPow2 (.finite 1) (create (.finite 2)) sampleObservations) 3 := by
  have ordered : (sampleObservations.map Observation.time).Pairwise (· ≤ ·) := by decide +kernel
  have few : sampleObservations.length ≤ Number.maxSafeInteger := by decide
  have late : ∀ observation ∈ sampleObservations, (observation.time : ℚ) ≤ 3 := by decide +kernel
  exact evidence_exact (.finite 2) ordered (unsaturated_of_length ordered few) late

/-- The count of every observation of a target, at its own sequence number. -/
noncomputable def literalCount (halfLife : Number) (observations : List (Observation × ℚ))
    (context : List JsString) (target : JsString) (time : ℚ) : ℝ :=
  ((observations.filter fun observation => decide (context <:+ observation.1.history
      ∧ observation.1.target = target)).map fun observation =>
    weight realPow2 halfLife (time - observation.2)).sum

/-- The observation of an empty target leaves nothing behind, and half a step counts as none. -/
theorem evidence_exact_literal
    : storedCount realPow2
          (observeAll realPow2 (.finite 0) (create (.finite 1)) [⟨[], [], .finite 0⟩]) [] []
          (.finite 0) (.finite 0)
        ≠ literalCount (.finite 0) [(⟨[], [], .finite 0⟩, 0)] [] [] 0
      ∧ storedCount realPow2
          (observeAll realPow2 (.finite 1) (create (.finite 1))
            [⟨[], units "a", .finite (1 / 2)⟩]) [] (units "a") (.finite (1 / 2)) (.finite 1)
        ≠ literalCount (.finite 1) [(⟨[], units "a", .finite (1 / 2)⟩, 1 / 2)] [] (units "a")
          (1 / 2) := by
  constructor
  · have stored : storedCount realPow2
        (observeAll realPow2 (.finite 0) (create (.finite 1)) [⟨[], [], .finite 0⟩]) [] []
        (.finite 0) (.finite 0) = 0 := rfl
    have literal : literalCount (.finite 0) [(⟨[], [], .finite 0⟩, 0)] [] [] 0 = 1 := by
      change (([(⟨[], [], .finite 0⟩, 0)] : List (Observation × ℚ)).map _).sum = 1
      rw [List.map_singleton, List.sum_singleton, weight, if_pos le_rfl]
    rw [stored, literal]
    exact zero_ne_one
  · have ordered : (([⟨[], units "a", .finite (1 / 2)⟩] : List Observation).map
        Observation.time).Pairwise (· ≤ ·) := List.pairwise_singleton _ _
    have few : ([⟨[], units "a", .finite (1 / 2)⟩] : List Observation).length
        ≤ Number.maxSafeInteger := by decide
    have late : ∀ observation ∈ ([⟨[], units "a", .finite (1 / 2)⟩] : List Observation),
        (observation.time : ℚ) ≤ 1 / 2 := by decide +kernel
    have stored : storedCount realPow2
          (observeAll realPow2 (.finite 1) (create (.finite 1))
            [⟨[], units "a", .finite (1 / 2)⟩]) [] (units "a") (.finite (1 / 2)) (.finite 1)
        = referenceCount realPow2 (.finite 1) [⟨[], units "a", .finite (1 / 2)⟩] [] (units "a")
          (1 / 2) :=
      (represents_observeAll realPow2_decay (.finite 1) ordered
        (unsaturated_of_length ordered few)).storedCount realPow2_decay (Nat.zero_le _) late
    have faded : referenceCount realPow2 (.finite 1) [⟨[], units "a", .finite (1 / 2)⟩] []
        (units "a") (1 / 2) = realPow2 (-(1 / 2 - 0) / 1) := by
      have time : (⟨[], units "a", .finite (1 / 2)⟩ : Observation).time = 0 := by decide +kernel
      change (([⟨[], units "a", .finite (1 / 2)⟩] : List Observation).map _).sum = _
      rw [List.map_singleton, List.sum_singleton, time, weight, if_neg (not_le.mpr one_pos),
        Nat.cast_zero]
    have literal : literalCount (.finite 1) [(⟨[], units "a", .finite (1 / 2)⟩, 1 / 2)] []
        (units "a") (1 / 2) = 1 := by
      change (([(⟨[], units "a", .finite (1 / 2)⟩, 1 / 2)] : List (Observation × ℚ)).map _).sum = 1
      rw [List.map_singleton, List.sum_singleton, sub_self, weight_zero realPow2_decay]
    rw [stored, faded, literal]
    refine ne_of_lt (Real.rpow_lt_one_of_one_lt_of_neg one_lt_two ?_)
    norm_num

end Exact

end SpeculativeAction.PpmTrie
