import Mathlib.MeasureTheory.Measure.Lebesgue.Basic
import Mathlib.MeasureTheory.Measure.Real

/-! Finite unions of half-open intervals with rational ends, and their length on the line.
-/

namespace SpeculativeAction.Library

open MeasureTheory

/-- An interval from its start up to its end, the end excluded. -/
structure Span where
  startedAt : ℚ
  completedAt : ℚ
deriving DecidableEq

/-- The points of the line an interval covers. -/
def Span.toSet (span : Span) : Set ℝ := Set.Ico (span.startedAt : ℝ) span.completedAt

/-- The points covered by some interval of a list. -/
def cover (spans : List Span) : Set ℝ := {point | ∃ span ∈ spans, point ∈ span.toSet}

theorem mem_cover {spans : List Span} {point : ℝ}
    : point ∈ cover spans ↔ ∃ span ∈ spans, point ∈ span.toSet := Iff.rfl

@[simp] theorem cover_nil : cover [] = ∅ := by
  ext point
  simp [mem_cover]

theorem cover_append (first second : List Span)
    : cover (first ++ second) = cover first ∪ cover second := by
  ext point
  simp only [mem_cover, List.mem_append, Set.mem_union, or_and_right, exists_or]

theorem cover_singleton (span : Span) : cover [span] = span.toSet := by
  ext point
  simp [mem_cover]

theorem cover_congr {first second : List Span} (same : ∀ span, span ∈ first ↔ span ∈ second)
    : cover first = cover second := by
  ext point
  simp only [mem_cover, same]

theorem volume_cover_ne_top (spans : List Span) : volume (cover spans) ≠ ⊤ := by
  induction spans with
  | nil => simp
  | cons span rest ih =>
      have split : cover (span :: rest) = span.toSet ∪ cover rest := by
        rw [← List.singleton_append, cover_append, cover_singleton]
      rw [split]
      exact measure_union_ne_top (by simp [Span.toSet]) ih

/-- A larger union is at least as long. -/
theorem volume_cover_mono {first second : List Span}
    (within : ∀ point, point ∈ cover first → point ∈ cover second)
    : volume.real (cover first) ≤ volume.real (cover second) :=
  measureReal_mono within (volume_cover_ne_top second)

/-- The length of a set below a point grows by a stretch that lies in it. -/
theorem volume_inter_Iio_add {points : Set ℝ} (finite : volume points ≠ ⊤) {before after : ℝ}
    (forward : before ≤ after)
    (within : ∀ point, before ≤ point → point < after → point ∈ points)
    : volume.real (points ∩ Set.Iio after)
      = volume.real (points ∩ Set.Iio before) + (after - before) := by
  have split : points ∩ Set.Iio after = points ∩ Set.Iio before ∪ Set.Ico before after := by
    ext point
    simp only [Set.mem_inter_iff, Set.mem_Iio, Set.mem_union, Set.mem_Ico]
    constructor
    · intro both
      rcases lt_or_ge point before with low | high
      · exact .inl ⟨both.1, low⟩
      · exact .inr ⟨high, both.2⟩
    · intro either
      rcases either with low | high
      · exact ⟨low.1, low.2.trans_le forward⟩
      · exact ⟨within point high.1 high.2, high.2⟩
  have apart : Disjoint (points ∩ Set.Iio before) (Set.Ico before after) := by
    refine Set.disjoint_left.mpr fun point low high => ?_
    exact absurd high.1 (not_le_of_gt low.2)
  rw [split, measureReal_union apart measurableSet_Ico
    (measure_ne_top_of_subset Set.inter_subset_left finite) (by simp),
    Real.volume_real_Ico_of_le forward]

/-- Nor does it change along a stretch outside it. -/
theorem inter_Iio_eq {points : Set ℝ} {before after : ℝ} (forward : before ≤ after)
    (outside : ∀ point, before ≤ point → point < after → point ∉ points)
    : points ∩ Set.Iio after = points ∩ Set.Iio before := by
  ext point
  simp only [Set.mem_inter_iff, Set.mem_Iio]
  refine ⟨fun both => ⟨both.1, ?_⟩, fun both => ⟨both.1, both.2.trans_le forward⟩⟩
  by_contra late
  exact outside point (not_lt.mp late) both.2 both.1

end SpeculativeAction.Library
