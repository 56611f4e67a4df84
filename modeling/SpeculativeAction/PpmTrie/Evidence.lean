import Mathlib.Algebra.BigOperators.Ring.List
import Mathlib.Analysis.SpecialFunctions.Pow.Real
import SpeculativeAction.PpmTrie.Model

/-! Eager evidence: every observation counts for each suffix of its history and fades from its own
time on. The stored counts, which are advanced when their context is seen, are the same.
-/

namespace SpeculativeAction.PpmTrie

open SpeculativeAction.Library PpmCountTrie

-- Eager evidence

section Reference

structure Observation where
  history : List JsString
  target : JsString
  sequence : Number

/-- The discrete time of an observation. -/
def Observation.time (observation : Observation) : ℕ := observation.sequence.nonNegativeCount

/-- The observation counts for a context. -/
def Observation.Sees (observation : Observation) (context : List JsString) : Prop :=
  context <:+ observation.history ∧ observation.target ≠ []

instance (observation : Observation) (context : List JsString)
    : Decidable (observation.Sees context) :=
  inferInstanceAs (Decidable (_ ∧ _))

/-- Powers that turn sums of exponents into products. -/
structure MultiplicativeDecay {K : Type*} [Field K] [LinearOrder K] (pow2 : ℚ → K) : Prop where
  zero : pow2 0 = 1
  add : ∀ left right, pow2 (left + right) = pow2 left * pow2 right
  pos : ∀ exponent, 0 < pow2 exponent

/-- `2 ** exponent` over the real numbers. -/
noncomputable def realPow2 (exponent : ℚ) : ℝ := (2 : ℝ) ^ (exponent : ℝ)

theorem realPow2_decay : MultiplicativeDecay realPow2 where
  zero := by
    rw [realPow2, Rat.cast_zero, Real.rpow_zero]
  add left right := by
    rw [realPow2, Rat.cast_add, Real.rpow_add two_pos, realPow2, realPow2]
  pos exponent := Real.rpow_pos_of_pos two_pos _

variable {K : Type*} [Field K] [LinearOrder K]

/-- What is left of an observation after a time; without a half-life, all of it. -/
def weight (pow2 : ℚ → K) (halfLife : Number) (age : ℚ) : K :=
  match halfLife with
  | .finite halfLife => if halfLife ≤ 0 then 1 else pow2 (-age / halfLife)
  | _ => 1

/-- The observations of a target in a context. -/
def occurrences (observations : List Observation) (context : List JsString) (target : JsString)
    : List Observation :=
  observations.filter fun observation =>
    decide (observation.Sees context ∧ observation.target = target)

def referenceCount (pow2 : ℚ → K) (halfLife : Number) (observations : List Observation)
    (context : List JsString) (target : JsString) (time : ℚ) : K :=
  ((occurrences observations context target).map fun observation =>
    weight pow2 halfLife (time - observation.time)).sum

/-- The trie after observing with one half-life. -/
def observeAll (pow2 : ℚ → K) (halfLife : Number) (trie : PpmCountTrie K)
    (observations : List Observation) : PpmCountTrie K :=
  observations.foldl
    (fun trie observation =>
      trie.observe pow2 observation.history observation.target observation.sequence halfLife)
    trie

/-- The stored count of a target, read at a time. -/
def storedCount (pow2 : ℚ → K) (trie : PpmCountTrie K) (context : List JsString)
    (target : JsString) (sequence halfLife : Number) : K :=
  match (trie.counts.get? (contextKey context)).bind fun row => row.targets.get? target with
  | some value => decayedCount pow2 value sequence halfLife
  | none => 0

end Reference

-- Keys and suffixes

section Keys

theorem isJson_context (context : List JsString)
    : (Data.array (context.map Data.string)).isJson = true := by
  rw [Data.isJson, Data.itemsJson_iff]
  intro item member
  obtain ⟨text, _, rfl⟩ := List.mem_map.mp member
  rfl

/-- Different contexts have different keys. -/
theorem contextKey_injective : Function.Injective contextKey := by
  intro left right same
  have read := jsonParse_writeData (isJson_context left)
  unfold contextKey at same
  rw [same, jsonParse_writeData (isJson_context right)] at read
  have items := Data.array.inj (Option.some.inj read)
  exact (List.map_injective_iff.mpr fun _ _ same => Data.string.inj same) items.symm

variable {K : Type*} {trie : PpmCountTrie K}

theorem mem_suffixes {history context : List JsString}
    : context ∈ trie.suffixes history ↔ context <:+ history ∧ context.length ≤ trie.order := by
  rw [suffixes, List.mem_map]
  constructor
  · rintro ⟨length, inside, rfl⟩
    have bound := List.mem_range.mp inside
    refine ⟨List.drop_suffix _ _, ?_⟩
    rw [List.length_drop]
    omega
  · rintro ⟨⟨earlier, rfl⟩, bound⟩
    refine ⟨context.length, List.mem_range.mpr ?_, ?_⟩
    · rw [List.length_append]
      omega
    · rw [List.length_append, Nat.add_sub_cancel, List.drop_left]

theorem suffixes_nodup (trie : PpmCountTrie K) (history : List JsString)
    : (trie.suffixes history).Nodup := by
  refine List.Nodup.map_on ?_ List.nodup_range
  intro left leftIn right rightIn same
  have lengths := congrArg List.length same
  have leftBound := List.mem_range.mp leftIn
  have rightBound := List.mem_range.mp rightIn
  rw [List.length_drop, List.length_drop] at lengths
  omega

end Keys

-- Weights

section Weights

/-- The half-life lets evidence fade. -/
def Decaying (halfLife : Number) : Prop := ∃ value, halfLife = .finite value ∧ 0 < value

variable {K : Type*} [Field K] [LinearOrder K] {pow2 : ℚ → K} {halfLife : Number}

theorem isPositive_of_decaying (decaying : Decaying halfLife) : isPositive halfLife = true := by
  obtain ⟨value, rfl, positive⟩ := decaying
  exact decide_eq_true positive

omit [LinearOrder K] in
theorem weight_eq_one (lasting : ¬ Decaying halfLife) (age : ℚ) : weight pow2 halfLife age = 1 := by
  cases halfLife with
  | finite value =>
      by_cases positive : value ≤ 0
      · exact if_pos positive
      · exact absurd ⟨value, rfl, not_le.mp positive⟩ lasting
  | infinite | nan => rfl

theorem weight_zero (decay : MultiplicativeDecay pow2) : weight pow2 halfLife 0 = 1 := by
  cases halfLife with
  | finite value =>
      rw [weight]
      by_cases positive : value ≤ 0
      · rw [if_pos positive]
      · rw [if_neg positive, neg_zero, zero_div, decay.zero]
  | infinite | nan => rfl

theorem weight_add (decay : MultiplicativeDecay pow2) (age more : ℚ)
    : weight pow2 halfLife (age + more) = weight pow2 halfLife age * weight pow2 halfLife more := by
  cases halfLife with
  | finite value =>
      rw [weight, weight, weight]
      by_cases positive : value ≤ 0
      · rw [if_pos positive, if_pos positive, if_pos positive, mul_one]
      · rw [if_neg positive, if_neg positive, if_neg positive, ← decay.add, neg_add, add_div]
  | infinite | nan => exact (mul_one 1).symm

theorem weight_pos [IsStrictOrderedRing K] (decay : MultiplicativeDecay pow2) (age : ℚ)
    : 0 < weight pow2 halfLife age := by
  cases halfLife with
  | finite value =>
      rw [weight]
      by_cases positive : value ≤ 0
      · rw [if_pos positive]
        exact zero_lt_one
      · rw [if_neg positive]
        exact decay.pos _
  | infinite | nan => exact zero_lt_one

omit [LinearOrder K] in
/-- Reading a count lets it fade by the time since its last change. -/
theorem decayedCount_eq (value : TargetCount K) (time : ℚ)
    : decayedCount pow2 value (.finite time) halfLife
      = value.count * weight pow2 halfLife (max 0 (time - value.lastSeen)) := by
  cases halfLife with
  | finite life =>
      rw [decayedCount, weight]
      by_cases positive : life ≤ 0
      · rw [if_pos positive, if_pos positive, mul_one]
      · rw [if_neg positive, if_neg positive]
  | infinite | nan => exact (mul_one _).symm

variable {observations : List Observation} {context : List JsString} {target : JsString}

/-- All evidence fades alike. -/
theorem referenceCount_later (decay : MultiplicativeDecay pow2) (time later : ℚ)
    : referenceCount pow2 halfLife observations context target later
      = referenceCount pow2 halfLife observations context target time
        * weight pow2 halfLife (later - time) := by
  rw [referenceCount, referenceCount, ← List.sum_map_mul_right]
  refine congrArg List.sum (List.map_congr_left fun observation _ => ?_)
  rw [← weight_add decay]
  exact congrArg (weight pow2 halfLife) (by ring)

theorem occurrences_append (observations : List Observation) (observation : Observation)
    (context : List JsString) (target : JsString)
    : occurrences (observations ++ [observation]) context target
      = occurrences observations context target
        ++ if observation.Sees context ∧ observation.target = target then [observation] else [] := by
  rw [occurrences, List.filter_append, List.filter_singleton]
  by_cases counts : observation.Sees context ∧ observation.target = target
  · rw [if_pos counts, decide_eq_true counts]
    rfl
  · rw [if_neg counts, decide_eq_false counts]
    rfl

/-- An observation adds one to the count of its target, at its own time. -/
theorem referenceCount_append (decay : MultiplicativeDecay pow2) {observation : Observation}
    (sees : observation.Sees context)
    : referenceCount pow2 halfLife (observations ++ [observation]) context observation.target
        observation.time
      = referenceCount pow2 halfLife observations context observation.target observation.time
        + 1 := by
  rw [referenceCount, occurrences_append, if_pos ⟨sees, rfl⟩, List.map_append, List.sum_append,
    List.map_singleton, List.sum_singleton, sub_self, weight_zero decay]
  rfl

omit [LinearOrder K] in
theorem referenceCount_append_of_not {observation : Observation} {time : ℚ}
    (other : ¬ (observation.Sees context ∧ observation.target = target))
    : referenceCount pow2 halfLife (observations ++ [observation]) context target time
      = referenceCount pow2 halfLife observations context target time := by
  rw [referenceCount, occurrences_append, if_neg other, List.append_nil]
  rfl

/-- Reading a count that was right at its time. -/
theorem decayedCount_of_exact (decay : MultiplicativeDecay pow2) {value : TargetCount K} {last : ℕ}
    {time : ℚ} (later : (last : ℚ) ≤ time)
    (count : value.count = referenceCount pow2 halfLife observations context target last)
    (current : Decaying halfLife → value.lastSeen = last)
    : decayedCount pow2 value (.finite time) halfLife
      = referenceCount pow2 halfLife observations context target time := by
  rw [decayedCount_eq, count, referenceCount_later decay last time]
  by_cases decaying : Decaying halfLife
  · rw [current decaying, max_eq_right (sub_nonneg.mpr later)]
  · rw [weight_eq_one decaying, weight_eq_one decaying]

end Weights

-- The counts of a context

section Rows

variable {K : Type*} [Field K] [LinearOrder K]

/-- The row of a context holds the eager counts as of its own time. -/
structure RowExact (pow2 : ℚ → K) (halfLife : Number) (observations : List Observation)
    (context : List JsString) (row : ContextCounts K) : Prop where
  named : row.context = context
  last : row.lastSeen = 0 ∨ ∃ observation ∈ observations, observation.time = row.lastSeen
  absent : ∀ target, row.targets.get? target = none ↔ occurrences observations context target = []
  counts : ∀ target value, row.targets.get? target = some value →
    value.count = referenceCount pow2 halfLife observations context target row.lastSeen
  past : ∀ target value, row.targets.get? target = some value → value.lastSeen ≤ row.lastSeen
  current : Decaying halfLife → ∀ target value, row.targets.get? target = some value →
    value.lastSeen = row.lastSeen

variable {pow2 : ℚ → K} {halfLife : Number} {observations : List Observation}
  {context : List JsString} {row : ContextCounts K} {observation : Observation}

omit [LinearOrder K] in
theorem RowExact.last_le (exact_ : RowExact pow2 halfLife observations context row) {time : ℕ}
    (late : ∀ observation ∈ observations, observation.time ≤ time)
    : row.lastSeen ≤ time := by
  rcases exact_.last with never | ⟨observation, member, same⟩
  · rw [never]
    exact Nat.zero_le _
  · rw [← same]
    exact late observation member

omit [LinearOrder K] in
/-- A time behind all observations is behind the row of a context that was seen. -/
theorem RowExact.last_le_of_seen (exact_ : RowExact pow2 halfLife observations context row)
    (seen : ∃ observation ∈ observations, observation.Sees context) {time : ℚ}
    (late : ∀ observation ∈ observations, (observation.time : ℚ) ≤ time)
    : (row.lastSeen : ℚ) ≤ time := by
  rcases exact_.last with never | ⟨observation, member, same⟩
  · obtain ⟨observation, member, _⟩ := seen
    rw [never, Nat.cast_zero]
    exact (Nat.cast_nonneg _).trans (late observation member)
  · rw [← same]
    exact late observation member

omit [LinearOrder K] in
/-- A context without observations has a fresh row. -/
theorem rowExact_fresh (unseen : ∀ observation ∈ observations, ¬ observation.Sees context)
    : RowExact pow2 halfLife observations context (⟨context, .empty, 0⟩ : ContextCounts K) where
  named := rfl
  last := .inl rfl
  absent target := by
    refine iff_of_true rfl (List.filter_eq_nil_iff.mpr fun observation member counts => ?_)
    exact unseen observation member (of_decide_eq_true counts).1
  counts target value found := by cases found
  past target value found := by cases found
  current _ target value found := by cases found

/-- The counts of a row, advanced to the time of an observation. -/
structure Advanced (pow2 : ℚ → K) (halfLife : Number) (observations : List Observation)
    (context : List JsString) (time : ℕ) (row advanced : ContextCounts K) : Prop where
  named : advanced.context = row.context
  lastSeen : advanced.lastSeen = row.lastSeen
  absent : ∀ target, advanced.targets.get? target = none ↔ row.targets.get? target = none
  counts : ∀ target value, advanced.targets.get? target = some value →
    value.count = referenceCount pow2 halfLife observations context target time
  past : ∀ target value, advanced.targets.get? target = some value → value.lastSeen ≤ time
  current : Decaying halfLife → ∀ target value, advanced.targets.get? target = some value →
    value.lastSeen = time

theorem RowExact.advance (decay : MultiplicativeDecay pow2)
    (exact_ : RowExact pow2 halfLife observations context row) {time : ℕ}
    (late : row.lastSeen ≤ time)
    : Advanced pow2 halfLife observations context time row (row.advance pow2 time halfLife) := by
  have later : (row.lastSeen : ℚ) ≤ time := Nat.cast_le.mpr late
  unfold ContextCounts.advance
  by_cases advances : isPositive halfLife = true ∧ row.lastSeen < time
  · rw [if_pos advances]
    have read (target : JsString) (value : TargetCount K)
        (found : (advanceTargets pow2 time halfLife row.targets).get? target = some value)
        : ∃ before, row.targets.get? target = some before
          ∧ value = ⟨decayedCount pow2 before (.finite time) halfLife, time⟩ := by
      rw [advanceTargets, OrderedMap.get?_mapValues, Option.map_eq_some_iff] at found
      obtain ⟨before, stored, same⟩ := found
      exact ⟨before, stored, same.symm⟩
    refine ⟨rfl, rfl, fun target => ?_, fun target value found => ?_, fun target value found => ?_,
      fun _ target value found => ?_⟩
    · change (advanceTargets pow2 time halfLife row.targets).get? target = none ↔ _
      rw [advanceTargets, OrderedMap.get?_mapValues, Option.map_eq_none_iff]
    · obtain ⟨before, stored, rfl⟩ := read target value found
      exact decayedCount_of_exact decay later (exact_.counts target before stored)
        fun decaying => exact_.current decaying target before stored
    · obtain ⟨before, stored, rfl⟩ := read target value found
      exact le_rfl
    · obtain ⟨before, stored, rfl⟩ := read target value found
      rfl
  · rw [if_neg advances]
    refine ⟨rfl, rfl, fun _ => Iff.rfl, fun target value found => ?_,
      fun target value found => (exact_.past target value found).trans late,
      fun decaying target value found => ?_⟩
    · rw [exact_.counts target value found, referenceCount_later decay row.lastSeen (time : ℚ)]
      by_cases decaying : Decaying halfLife
      · have same : row.lastSeen = time := by
          have still := not_and.mp advances (isPositive_of_decaying decaying)
          omega
        rw [same, sub_self, weight_zero decay, mul_one]
      · rw [weight_eq_one decaying, mul_one]
    · have still := not_and.mp advances (isPositive_of_decaying decaying)
      rw [exact_.current decaying target value found]
      omega

omit [LinearOrder K] in
/-- A row that the observation does not see stays right. -/
theorem RowExact.unseen (exact_ : RowExact pow2 halfLife observations context row)
    (other : ¬ observation.Sees context)
    : RowExact pow2 halfLife (observations ++ [observation]) context row where
  named := exact_.named
  last := exact_.last.imp_right fun ⟨earlier, member, same⟩ =>
    ⟨earlier, List.mem_append_left _ member, same⟩
  absent target := by
    rw [exact_.absent, occurrences_append, if_neg fun sees => other sees.1, List.append_nil]
  counts target value found := by
    rw [exact_.counts target value found,
      referenceCount_append_of_not fun sees => other sees.1]
  past := exact_.past
  current := exact_.current

/-- Observing keeps the row of a context right, below the bound of saturation. -/
theorem RowExact.observe (decay : MultiplicativeDecay pow2)
    (exact_ : RowExact pow2 halfLife observations context row) (sees : observation.Sees context)
    (late : ∀ earlier ∈ observations, earlier.time ≤ observation.time)
    (below : referenceCount pow2 halfLife (observations ++ [observation]) context
      observation.target observation.time ≤ Number.maxSafeInteger)
    : RowExact pow2 halfLife (observations ++ [observation]) context
      (row.observe pow2 observation.target observation.time halfLife) := by
  have advanced := exact_.advance decay (exact_.last_le late)
  rw [referenceCount_append decay sees] at below
  rw [ContextCounts.observe]
  generalize row.advance pow2 observation.time halfLife = current at advanced
  have time : max current.lastSeen observation.time = observation.time := by
    rw [advanced.lastSeen]
    exact max_eq_right (exact_.last_le late)
  -- What was counted before, with nothing for a new target.
  have previous
      : ((current.targets.get? observation.target).map TargetCount.count).getD 0
        = referenceCount pow2 halfLife observations context observation.target
            observation.time := by
    cases found : current.targets.get? observation.target with
    | none =>
        have no := (exact_.absent _).mp ((advanced.absent _).mp found)
        rw [referenceCount, no]
        rfl
    | some value => exact advanced.counts _ value found
  have seen : max
      (((current.targets.get? observation.target).map TargetCount.lastSeen).getD 0)
      observation.time = observation.time := by
    cases found : current.targets.get? observation.target with
    | none => exact max_eq_right (Nat.zero_le _)
    | some value => exact max_eq_right (advanced.past _ value found)
  have put (target : JsString) (value : TargetCount K)
      (found : (current.targets.set observation.target
        ⟨referenceCount pow2 halfLife observations context observation.target observation.time + 1,
          observation.time⟩).get? target = some value)
      : (target = observation.target ∧ value = ⟨referenceCount pow2 halfLife observations context
            observation.target observation.time + 1, observation.time⟩)
        ∨ target ≠ observation.target ∧ current.targets.get? target = some value := by
    rw [OrderedMap.get?_set] at found
    by_cases same : target = observation.target
    · rw [if_pos same] at found
      exact .inl ⟨same, (Option.some.inj found).symm⟩
    · rw [if_neg same] at found
      exact .inr ⟨same, found⟩
  rw [previous, seen, min_eq_right below, ContextCounts.put, time]
  exact {
    named := advanced.named.trans exact_.named
    last := .inr ⟨observation, List.mem_append_right _ (List.mem_singleton_self _), rfl⟩
    absent := fun target => by
      rw [OrderedMap.get?_set, occurrences_append]
      by_cases same : target = observation.target
      · rw [if_pos same, if_pos ⟨sees, same.symm⟩]
        exact iff_of_false (Option.some_ne_none _) (List.append_ne_nil_of_right_ne_nil _
          (List.cons_ne_nil _ _))
      · rw [if_neg same, if_neg fun both => same both.2.symm, List.append_nil,
          advanced.absent, exact_.absent]
    counts := fun target value found => by
      rcases put target value found with ⟨rfl, rfl⟩ | ⟨different, stored⟩
      · exact (referenceCount_append decay sees).symm
      · rw [referenceCount_append_of_not fun both => different both.2.symm]
        exact advanced.counts target value stored
    past := fun target value found => by
      rcases put target value found with ⟨rfl, rfl⟩ | ⟨_, stored⟩
      · exact le_rfl
      · exact advanced.past target value stored
    current := fun decaying target value found => by
      rcases put target value found with ⟨rfl, rfl⟩ | ⟨_, stored⟩
      · rfl
      · exact advanced.current decaying target value stored }

end Rows

-- The counts of every context

section Tries

variable {K : Type*} [Field K] [LinearOrder K] {contexts : List (List JsString)}

/-- The trie has a row for every context that was seen up to the order, and it is right. -/
structure Represents (pow2 : ℚ → K) (halfLife : Number) (order : ℕ)
    (observations : List Observation) (trie : PpmCountTrie K) : Prop where
  bounded : trie.order = order
  stored : ∀ key row, trie.counts.get? key = some row → ∃ context, key = contextKey context
    ∧ context.length ≤ order ∧ (∃ observation ∈ observations, observation.Sees context)
    ∧ RowExact pow2 halfLife observations context row
  populated : ∀ context, context.length ≤ order →
    (∃ observation ∈ observations, observation.Sees context) →
    trie.counts.get? (contextKey context) ≠ none

variable {pow2 : ℚ → K} {halfLife : Number} {order : ℕ} {observations : List Observation}
  {trie : PpmCountTrie K} {context : List JsString} {observation : Observation}

omit [LinearOrder K] in
theorem represents_create (maxOrder : Number)
    : Represents pow2 halfLife maxOrder.nonNegativeCount [] (create maxOrder : PpmCountTrie K) where
  bounded := rfl
  stored key row found := by cases found
  populated context _ seen := by
    obtain ⟨observation, member, _⟩ := seen
    cases member

omit [LinearOrder K] in
theorem Represents.row (represents : Represents pow2 halfLife order observations trie)
    {row : ContextCounts K} (found : trie.counts.get? (contextKey context) = some row)
    : context.length ≤ order ∧ (∃ observation ∈ observations, observation.Sees context)
      ∧ RowExact pow2 halfLife observations context row := by
  obtain ⟨other, same, rest⟩ := represents.stored _ row found
  exact contextKey_injective same ▸ rest

omit [LinearOrder K] in
/-- The counts of a context, stored or fresh. -/
theorem Represents.context_exact (represents : Represents pow2 halfLife order observations trie)
    (bounded : context.length ≤ order)
    : RowExact pow2 halfLife observations context (trie.context context) := by
  rw [PpmCountTrie.context]
  cases found : trie.counts.get? (contextKey context) with
  | some row => exact (represents.row found).2.2
  | none =>
      exact rowExact_fresh fun observation member sees =>
        represents.populated context bounded ⟨observation, member, sees⟩ found

variable {target : JsString} {lastSeen : ℕ}

/-- Other contexts are left alone. -/
theorem get?_observeContexts_other {key : JsString}
    (other : ∀ context ∈ contexts, contextKey context ≠ key)
    : (contexts.foldl (observeContext pow2 target lastSeen halfLife) trie).counts.get? key
      = trie.counts.get? key := by
  induction contexts generalizing trie with
  | nil => rfl
  | cons first rest ih =>
      obtain ⟨different, later⟩ := List.forall_mem_cons.mp other
      rw [List.foldl_cons, ih later, observeContext, OrderedMap.get?_set, if_neg different.symm]

/-- Every context is observed once. -/
theorem get?_observeContexts (distinct : contexts.Nodup) (member : context ∈ contexts)
    : (contexts.foldl (observeContext pow2 target lastSeen halfLife) trie).counts.get?
        (contextKey context)
      = some ((trie.context context).observe pow2 target lastSeen halfLife) := by
  induction contexts generalizing trie with
  | nil => cases member
  | cons first rest ih =>
      obtain ⟨fresh, later⟩ := List.nodup_cons.mp distinct
      rw [List.foldl_cons]
      by_cases here : context = first
      · subst here
        have others : ∀ other ∈ rest, contextKey other ≠ contextKey context := by
          intro other inside same
          exact fresh (contextKey_injective same ▸ inside)
        rw [get?_observeContexts_other others, observeContext, OrderedMap.get?_set, if_pos rfl]
      · have same : (observeContext pow2 target lastSeen halfLife trie first).context context
            = trie.context context := by
          rw [PpmCountTrie.context, PpmCountTrie.context, observeContext, OrderedMap.get?_set,
            if_neg fun keys => here (contextKey_injective keys)]
        rw [ih later ((List.mem_cons.mp member).resolve_left here), same]

theorem order_observeContexts (contexts : List (List JsString))
    : (contexts.foldl (observeContext pow2 target lastSeen halfLife) trie).order = trie.order := by
  induction contexts generalizing trie with
  | nil => rfl
  | cons first rest ih =>
      rw [List.foldl_cons, ih]
      rfl

/-- An observation counts for every suffix of its history up to the order. -/
theorem Represents.observe (decay : MultiplicativeDecay pow2)
    (represents : Represents pow2 halfLife order observations trie)
    (late : ∀ earlier ∈ observations, earlier.time ≤ observation.time)
    (below : ∀ context, context.length ≤ order → observation.Sees context →
      referenceCount pow2 halfLife (observations ++ [observation]) context observation.target
        observation.time ≤ Number.maxSafeInteger)
    : Represents pow2 halfLife order (observations ++ [observation])
      (trie.observe pow2 observation.history observation.target observation.sequence
        halfLife) := by
  have more {context : List JsString}
      (seen : ∃ earlier ∈ observations, earlier.Sees context)
      : ∃ earlier ∈ observations ++ [observation], earlier.Sees context := by
    obtain ⟨earlier, member, sees⟩ := seen
    exact ⟨earlier, List.mem_append_left _ member, sees⟩
  have last {context : List JsString} (sees : observation.Sees context)
      : ∃ earlier ∈ observations ++ [observation], earlier.Sees context :=
    ⟨observation, List.mem_append_right _ (List.mem_singleton_self _), sees⟩
  have earlier {context : List JsString} (other : ¬ observation.Sees context)
      (seen : ∃ earlier ∈ observations ++ [observation], earlier.Sees context)
      : ∃ earlier ∈ observations, earlier.Sees context := by
    obtain ⟨earlier, member, sees⟩ := seen
    rcases List.mem_append.mp member with before | now
    · exact ⟨earlier, before, sees⟩
    · exact absurd (List.mem_singleton.mp now ▸ sees) other
  rw [PpmCountTrie.observe]
  by_cases empty : observation.target = []
  · have unseen (context : List JsString) : ¬ observation.Sees context := fun sees => sees.2 empty
    rw [if_pos empty]
    refine ⟨represents.bounded, fun key row found => ?_, fun context bounded seen =>
      represents.populated context bounded (earlier (unseen context) seen)⟩
    obtain ⟨context, same, bounded, seen, exact_⟩ := represents.stored key row found
    exact ⟨context, same, bounded, more seen, exact_.unseen (unseen context)⟩
  · rw [if_neg empty]
    have observed (context : List JsString)
        : context ∈ trie.suffixes observation.history
          ↔ observation.Sees context ∧ context.length ≤ order := by
      rw [mem_suffixes, represents.bounded]
      exact and_congr_left' (and_iff_left empty).symm
    refine ⟨(order_observeContexts _).trans represents.bounded, fun key row found => ?_,
      fun context bounded seen => ?_⟩
    · by_cases member : ∃ context ∈ trie.suffixes observation.history, contextKey context = key
      · obtain ⟨context, inside, rfl⟩ := member
        obtain ⟨sees, bounded⟩ := (observed context).mp inside
        rw [get?_observeContexts (suffixes_nodup trie _) inside] at found
        refine ⟨context, rfl, bounded, last sees, ?_⟩
        rw [← Option.some.inj found]
        exact (represents.context_exact bounded).observe decay sees late (below context bounded sees)
      · have other : ∀ context ∈ trie.suffixes observation.history, contextKey context ≠ key :=
          fun context inside same => member ⟨context, inside, same⟩
        rw [get?_observeContexts_other other] at found
        obtain ⟨context, rfl, bounded, seen, exact_⟩ := represents.stored key row found
        refine ⟨context, rfl, bounded, more seen, exact_.unseen fun sees => ?_⟩
        exact other context ((observed context).mpr ⟨sees, bounded⟩) rfl
    · by_cases sees : observation.Sees context
      · rw [get?_observeContexts (suffixes_nodup trie _) ((observed context).mpr ⟨sees, bounded⟩)]
        exact Option.some_ne_none _
      · have others : ∀ other ∈ trie.suffixes observation.history,
            contextKey other ≠ contextKey context := by
          intro other inside same
          exact sees ((observed context).mp (contextKey_injective same ▸ inside)).1
        rw [get?_observeContexts_other others]
        exact represents.populated context bounded (earlier sees seen)

/-- The counts never reach the bound of saturation. -/
def Unsaturated (pow2 : ℚ → K) (halfLife : Number) (order : ℕ) (observations : List Observation)
    : Prop :=
  ∀ earlier observation, earlier ++ [observation] <+: observations →
    ∀ context, context.length ≤ order → observation.Sees context →
      referenceCount pow2 halfLife (earlier ++ [observation]) context observation.target
        observation.time ≤ Number.maxSafeInteger

theorem represents_observeAll (decay : MultiplicativeDecay pow2) (maxOrder : Number)
    (ordered : (observations.map Observation.time).Pairwise (· ≤ ·))
    (unsaturated : Unsaturated pow2 halfLife maxOrder.nonNegativeCount observations)
    : Represents pow2 halfLife maxOrder.nonNegativeCount observations
      (observeAll pow2 halfLife (create maxOrder) observations) := by
  induction observations using List.reverseRecOn with
  | nil => exact represents_create maxOrder
  | append_singleton earlier observation ih =>
      rw [List.map_append, List.pairwise_append] at ordered
      have before := ih ordered.1 fun first other part =>
        unsaturated first other (part.trans (List.prefix_append _ _))
      rw [observeAll, List.foldl_append]
      exact before.observe decay
        (fun first member => ordered.2.2 _ (List.mem_map_of_mem member) _
          (List.mem_singleton_self _))
        (unsaturated earlier observation List.prefix_rfl)

/-- The stored count of a target, read at a time behind all observations. -/
theorem Represents.storedCount (decay : MultiplicativeDecay pow2)
    (represents : Represents pow2 halfLife order observations trie)
    (bounded : context.length ≤ order) {time : ℚ}
    (late : ∀ observation ∈ observations, (observation.time : ℚ) ≤ time)
    : storedCount pow2 trie context target (.finite time) halfLife
      = referenceCount pow2 halfLife observations context target time := by
  rw [PpmTrie.storedCount]
  cases found : trie.counts.get? (contextKey context) with
  | none =>
      have unseen : occurrences observations context target = [] :=
        List.filter_eq_nil_iff.mpr fun observation member counts =>
          represents.populated context bounded
            ⟨observation, member, (of_decide_eq_true counts).1⟩ found
      rw [referenceCount, unseen]
      rfl
  | some row =>
      obtain ⟨_, seen, exact_⟩ := represents.row found
      rw [Option.bind_some]
      cases stored : row.targets.get? target with
      | none =>
          rw [referenceCount, (exact_.absent target).mp stored]
          rfl
      | some value =>
          exact decayedCount_of_exact decay (exact_.last_le_of_seen seen late)
            (exact_.counts target value stored)
            fun decaying => exact_.current decaying target value stored

end Tries

end SpeculativeAction.PpmTrie
