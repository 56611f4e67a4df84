import SpeculativeAction.Library.NumberSums
import SpeculativeAction.TaskTiming.Model

/-! The interval algebra as a whole: the parts of an interval outside others, the duration of a
union, and the credit of what one producer alone covers. Arithmetic is exact.
-/

namespace SpeculativeAction.TaskTiming

open SpeculativeAction.Library
open MeasureTheory

section Apart

/-- The intervals come one after the other, with no overlap. -/
def Apart (spans : List Span) : Prop :=
  spans.Pairwise fun left right => left.completedAt ≤ right.startedAt

/-- An interval behind all others keeps them apart. -/
theorem Apart.append {spans : List Span} {last : Span} (apart : Apart spans)
    (behind : ∀ span ∈ spans, span.completedAt ≤ last.startedAt)
    : Apart (spans ++ [last]) := by
  refine List.pairwise_append.mpr ⟨apart, List.pairwise_singleton _ _, ?_⟩
  intro span member other isLast
  rw [List.mem_singleton.mp isLast]
  exact behind span member

/-- Excluding the rest of the parts, by induction over it: what was found ends before the next
start.
-/
theorem exclusiveStep_apart {interval : Span} (rest : List Span) {found : List Span × ℚ}
    (lastingParts : ∀ part ∈ rest, part.startedAt ≤ part.completedAt)
    (reached : found.2 ≤ interval.completedAt) (apart : Apart found.1)
    (behind : ∀ span ∈ found.1, span.completedAt ≤ found.2)
    : Apart (rest.foldl (exclusiveStep interval) found).1
      ∧ ∀ span ∈ (rest.foldl (exclusiveStep interval) found).1,
          span.completedAt ≤ (rest.foldl (exclusiveStep interval) found).2 := by
  induction rest generalizing found with
  | nil => exact ⟨apart, behind⟩
  | cons part rest ih =>
      have later : ∀ other ∈ rest, other.startedAt ≤ other.completedAt :=
        fun other member => lastingParts other (List.mem_cons_of_mem _ member)
      rw [List.foldl_cons]
      by_cases skipped : part.completedAt ≤ found.2 ∨ interval.completedAt ≤ part.startedAt
      · rw [exclusiveStep, if_pos skipped]
        exact ih later reached apart behind
      obtain ⟨ends, starts⟩ := not_or.mp skipped
      have lasts := lastingParts part List.mem_cons_self
      have next : max found.2 part.startedAt
          ≤ min interval.completedAt (max found.2 part.completedAt) :=
        max_le (le_min reached (le_max_left _ _))
          (le_min (not_le.mp starts).le (lasts.trans (le_max_right _ _)))
      rw [exclusiveStep, if_neg skipped]
      by_cases gap : found.2 < part.startedAt
      · rw [if_pos gap]
        refine ih later (min_le_left _ _) (apart.append behind) fun span member => ?_
        rcases List.mem_append.mp member with before | last
        · exact (behind span before).trans ((le_max_left _ _).trans next)
        · rw [List.mem_singleton.mp last]
          exact (le_max_right _ _).trans next
      · rw [if_neg gap]
        exact ih later (min_le_left _ _) apart fun span member =>
          (behind span member).trans ((le_max_left _ _).trans next)

theorem exclusiveIntervals_apart {interval : Span} {shared : List Span}
    (lasting : interval.startedAt ≤ interval.completedAt)
    (lastingParts : ∀ part ∈ shared, part.startedAt ≤ part.completedAt)
    : Apart (exclusiveIntervals interval shared) := by
  have reached : (([], interval.startedAt) : List Span × ℚ).2 ≤ interval.completedAt := lasting
  obtain ⟨apart, behind⟩ := exclusiveStep_apart (shared.mergeSort startsFirst)
    (fun part member => lastingParts part (List.mem_mergeSort.mp member)) reached
    List.Pairwise.nil (fun span member => nomatch member)
  unfold exclusiveIntervals
  dsimp only
  split_ifs
  · exact apart.append behind
  · exact apart

end Apart

section Credits

variable {P Key : Type} [DecidableEq Key]

/-- The calls of `credit`, in order. -/
abbrev Credits (P : Type) := List (P × ℚ)

def Credits.add (credits : Credits P) (producer : P) (duration : ℚ) : Credits P :=
  credits ++ [(producer, duration)]

/-- What a key is credited in all. -/
def Credits.of (keyOf : P → Key) (credits : Credits P) (key : Key) : ℚ :=
  ((credits.filter fun call => decide (keyOf call.1 = key)).map Prod.snd).sum

theorem Credits.of_add (keyOf : P → Key) (credits : Credits P) (producer : P) (duration : ℚ)
    (key : Key)
    : (credits.add producer duration).of keyOf key
      = credits.of keyOf key + if keyOf producer = key then duration else 0 := by
  unfold Credits.of Credits.add
  rw [List.filter_append, List.map_append, List.sum_append]
  by_cases same : keyOf producer = key
  · simp [same]
  · simp [same]

/-- No credit is empty or negative, as a stretch is only counted forward. -/
theorem credits_pos {keyOf : P → Key} {points : List (Point P)} {state : Sweep P Key (Credits P)}
    (positive : ∀ call ∈ state.modes, 0 < call.2)
    : ∀ call ∈ (points.foldl (Sweep.step keyOf Credits.add) state).modes, 0 < call.2 := by
  induction points generalizing state with
  | nil => exact positive
  | cons point rest ih =>
      refine ih fun call member => ?_
      have shifted : (Sweep.step keyOf Credits.add state point).modes
          = (state.advance Credits.add point.moment).modes := by
        unfold Sweep.step Sweep.shift
        split <;> rfl
      rw [shifted] at member
      unfold Sweep.advance at member
      by_cases later : state.previous < point.moment
      · rw [if_pos later] at member
        dsimp only at member
        split at member
        · rename_i alone _
          by_cases known : state.unknown = 0
          · rw [if_pos known] at member
            rcases List.mem_append.mp member with before | last
            · exact positive call before
            · rw [List.mem_singleton.mp last]
              exact sub_pos.mpr later
          · rw [if_neg known] at member
            exact positive call member
        · exact positive call member
      · rw [if_neg later] at member
        exact positive call member

end Credits

/-- The interval algebra: excluding, the duration of a union, and attribution. -/
theorem interval_algebra {P Key : Type} [DecidableEq Key] (keyOf : P → Key)
    : (∀ (interval : Interval) (shared : List Interval),
        let parts := exclusiveIntervals interval.toSpan (shared.map (·.toSpan))
        Apart parts
        ∧ (∀ part ∈ parts, part.startedAt < part.completedAt)
        ∧ cover parts = interval.toSpan.toSet \ cover (shared.map (·.toSpan)))
      ∧ (∀ intervals : List Interval,
        (unionDuration (intervals.map (·.toSpan)) : ℝ)
          = volume.real (cover (intervals.map (·.toSpan))))
      ∧ ∀ spans : List (Interval × Option P),
        let attributed := spans.map fun span => (span.1.toSpan, span.2)
        let counted := attributeUnion keyOf Credits.add attributed []
        (counted.1 : ℝ) = volume.real (cover (attributed.map (·.1)))
        ∧ (∀ key, ((Credits.of keyOf counted.2 key : ℚ) : ℝ)
          = volume.real (soleCover keyOf attributed key))
        ∧ ∀ call ∈ counted.2, 0 < call.2 := by
  refine ⟨fun interval shared => ?_, fun intervals => ?_, fun spans => ?_⟩
  · have lastingParts : ∀ part ∈ shared.map (·.toSpan), part.startedAt ≤ part.completedAt := by
      intro part member
      obtain ⟨whole, -, rfl⟩ := List.mem_map.mp member
      exact whole.lasting
    obtain ⟨difference, proper⟩ := exclusiveIntervals_spec interval.lasting lastingParts
    exact ⟨exclusiveIntervals_apart interval.lasting lastingParts,
      fun part member => (proper part member).2, difference⟩
  · refine unionDuration_eq fun span member => ?_
    obtain ⟨whole, -, rfl⟩ := List.mem_map.mp member
    exact whole.nonneg
  · have lasting : ∀ span ∈ spans.map fun span => (span.1.toSpan, span.2),
        span.1.startedAt ≤ span.1.completedAt := by
      intro span member
      obtain ⟨whole, -, rfl⟩ := List.mem_map.mp member
      exact whole.1.lasting
    have nonneg : ∀ span ∈ spans.map fun span => (span.1.toSpan, span.2),
        0 ≤ span.1.startedAt := by
      intro span member
      obtain ⟨whole, -, rfl⟩ := List.mem_map.mp member
      exact whole.1.nonneg
    refine ⟨attributeUnion_total [] lasting nonneg, fun key => ?_,
      credits_pos fun call member => nomatch member⟩
    have counts (credits : Credits P) (producer : P) (duration : ℚ) (_ : 0 < duration)
        : Credits.of keyOf (Credits.add credits producer duration) key
          = Credits.of keyOf credits key + if keyOf producer = key then duration else 0 :=
      Credits.of_add keyOf credits producer duration key
    have credited := attributeUnion_credit (fun credits => Credits.of keyOf credits key)
      ([] : Credits P) lasting nonneg counts
    have none_ : Credits.of keyOf ([] : Credits P) key = 0 := rfl
    rwa [none_, Rat.cast_zero, zero_add] at credited

/-- `unionDuration` with the sums of the host, which are rounded. -/
def roundedDuration (intervals : List Span) : ℚ :=
  ((intervals.mergeSort startsFirst).foldl (fun counted interval =>
    (roundedValue (counted.1
      + max 0 (roundedValue (interval.completedAt - max counted.2 interval.startedAt))),
      max counted.2 interval.completedAt)) (0, 0)).1

/-- Two intervals that last 1 and 2^53 together last no binary64 number. -/
theorem roundedDuration_differs
    : ¬ ∀ intervals : List Interval,
        (roundedDuration (intervals.map (·.toSpan)) : ℝ)
          = volume.real (cover (intervals.map (·.toSpan))) := by
  intro measures
  let intervals : List Interval :=
    [⟨⟨0, 1⟩, by norm_num, by norm_num⟩, ⟨⟨2, 2 ^ 53 + 2⟩, by norm_num, by norm_num⟩]
  have sorted : (intervals.map (·.toSpan)).mergeSort startsFirst = intervals.map (·.toSpan) :=
    List.mergeSort_of_pairwise (by simp [intervals, startsFirst])
  have rounded : roundedDuration (intervals.map (·.toSpan)) = 2 ^ 53 := by
    rw [roundedDuration, sorted]
    decide +kernel
  have whole : unionDuration (intervals.map (·.toSpan)) = 2 ^ 53 + 1 := by
    rw [unionDuration, sorted]
    decide +kernel
  have same := measures intervals
  rw [← unionDuration_eq (by simp [intervals]), rounded, whole] at same
  norm_num at same

end SpeculativeAction.TaskTiming
