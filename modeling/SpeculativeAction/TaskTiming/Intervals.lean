import SpeculativeAction.Library.OrderedMap
import SpeculativeAction.Library.Spans

/-! The interval accounting of a call: what intervals exclude others, how long a union
lasts, and who is credited for which part of it. Arithmetic is exact.
-/

namespace SpeculativeAction.TaskTiming

open SpeculativeAction.Library
open MeasureTheory

section Definitions

def startsFirst (left right : Span) : Bool := decide (left.startedAt ≤ right.startedAt)

/-- The total so far and the end of what was counted. -/
def unionStep (counted : ℚ × ℚ) (interval : Span) : ℚ × ℚ :=
  (counted.1 + max 0 (interval.completedAt - max counted.2 interval.startedAt),
    max counted.2 interval.completedAt)

def unionDuration (intervals : List Span) : ℚ :=
  ((intervals.mergeSort startsFirst).foldl unionStep (0, 0)).1

/-- The exclusive intervals so far and where the next one can start. -/
def exclusiveStep (interval : Span) (found : List Span × ℚ) (part : Span) : List Span × ℚ :=
  if part.completedAt ≤ found.2 ∨ interval.completedAt ≤ part.startedAt then found
  else
    (if found.2 < part.startedAt then
      found.1 ++ [{ startedAt := found.2, completedAt := part.startedAt }]
    else found.1, min interval.completedAt (max found.2 part.completedAt))

/-- The parts of an interval outside the shared ones. -/
def exclusiveIntervals (interval : Span) (shared : List Span) : List Span :=
  let found := (shared.mergeSort startsFirst).foldl (exclusiveStep interval) ([], interval.startedAt)
  if found.2 < interval.completedAt then
    found.1 ++ [{ startedAt := found.2, completedAt := interval.completedAt }]
  else found.1

variable {P Key M : Type} [DecidableEq Key]

/-- An end of an interval, with what the interval is attributed to. -/
structure Point (P : Type) where
  moment : ℚ
  delta : ℤ
  producer : Option P

/-- The sweep over the ends: how many intervals of each producer are open. -/
structure Sweep (P Key M : Type) where
  previous : ℚ := 0
  unknown : ℤ := 0
  total : ℚ := 0
  active : OrderedMap Key (P × ℤ) := .empty
  modes : M

def pointsOf (spans : List (Span × Option P)) : List (Point P) :=
  spans.flatMap fun span => [
    { moment := span.1.startedAt, delta := 1, producer := span.2 },
    { moment := span.1.completedAt, delta := -1, producer := span.2 }
  ]

/-- Count the stretch up to a point and credit it when one producer alone is open. -/
def Sweep.advance (credit : M → P → ℚ → M) (state : Sweep P Key M) (moment : ℚ) : Sweep P Key M :=
  if state.previous < moment then
    {
      state with
      total :=
        if 0 < state.unknown ∨ state.active.keys ≠ [] then
          state.total + (moment - state.previous)
        else state.total
      modes :=
        match state.active.values with
        | [alone] =>
            if state.unknown = 0 then credit state.modes alone.1 (moment - state.previous)
            else state.modes
        | _ => state.modes
    }
  else state

/-- Open or close an interval of a producer. -/
def Sweep.shift (keyOf : P → Key) (state : Sweep P Key M) (point : Point P) : Sweep P Key M :=
  match point.producer with
  | none => { state with previous := point.moment, unknown := state.unknown + point.delta }
  | some producer =>
      let key := keyOf producer
      let count := ((state.active.get? key).map (·.2)).getD 0 + point.delta
      {
        state with
        previous := point.moment
        active :=
          if count ≠ 0 then state.active.set key (producer, count) else state.active.delete key
      }

def Sweep.step (keyOf : P → Key) (credit : M → P → ℚ → M) (state : Sweep P Key M)
    (point : Point P)
    : Sweep P Key M :=
  (state.advance credit point.moment).shift keyOf point

/-- How long the union of the intervals lasts; a stretch with one known producer and no
unknown one is credited to it.
-/
def attributeUnion (keyOf : P → Key) (credit : M → P → ℚ → M) (spans : List (Span × Option P))
    (modes : M)
    : ℚ × M :=
  let swept := ((pointsOf spans).mergeSort fun left right =>
    decide (left.moment ≤ right.moment)).foldl (Sweep.step keyOf credit) { modes }
  (swept.total, swept.modes)

end Definitions

section Union

theorem startsFirst_trans (left middle right : Span) (first : startsFirst left middle = true)
    (second : startsFirst middle right = true)
    : startsFirst left right = true :=
  decide_eq_true ((of_decide_eq_true first).trans (of_decide_eq_true second))

theorem startsFirst_total (left right : Span)
    : (startsFirst left right || startsFirst right left) = true := by
  simp [startsFirst, le_total]

theorem mergeSort_startsFirst (spans : List Span)
    : (spans.mergeSort startsFirst).Pairwise fun left right =>
        left.startedAt ≤ right.startedAt :=
  (List.pairwise_mergeSort startsFirst_trans startsFirst_total spans).imp of_decide_eq_true

/-- Counting the rest of the sorted intervals, by induction over it: the total is the length
of the union up to where counting has come.
-/
theorem unionStep_foldl {all rest : List Span} {counted : ℚ × ℚ}
    (sorted : rest.Pairwise fun left right => left.startedAt ≤ right.startedAt)
    (whole
      : ∀ span ∈ all, span ∈ rest ∨ span.completedAt ≤ counted.2)
    (part : ∀ span ∈ rest, span ∈ all)
    (total : (counted.1 : ℝ) = volume.real (cover all ∩ Set.Iio (counted.2 : ℝ)))
    : ((rest.foldl unionStep counted).1 : ℝ) = volume.real (cover all) := by
  induction rest generalizing counted with
  | nil =>
      have below : cover all ∩ Set.Iio (counted.2 : ℝ) = cover all := by
        refine Set.inter_eq_left.mpr fun point covered => ?_
        obtain ⟨span, member, inside⟩ := covered
        rcases whole span member with later | done
        · cases later
        · exact inside.2.trans_le (by exact_mod_cast done)
      rw [List.foldl_nil, total, below]
  | cons span rest ih =>
      obtain ⟨first, sorted⟩ := List.pairwise_cons.mp sorted
      rw [List.foldl_cons]
      refine ih sorted ?_ (fun other member => part other (List.mem_cons_of_mem _ member)) ?_
      · intro other member
        rcases whole other member with later | done
        · rcases List.mem_cons.mp later with same | later
          · exact .inr (same ▸ le_max_right _ _)
          · exact .inl later
        · exact .inr (done.trans (le_max_left _ _))
      -- before the next start nothing is open that was not counted
      have outside (point : ℝ) (late : (counted.2 : ℝ) ≤ point) (early : point < span.startedAt)
          : point ∉ cover all := by
        intro covered
        obtain ⟨other, member, inside⟩ := covered
        rcases whole other member with later | done
        · have starts : span.startedAt ≤ other.startedAt := by
            rcases List.mem_cons.mp later with same | later
            · exact same ▸ le_rfl
            · exact first other later
          have reach : (span.startedAt : ℝ) ≤ other.startedAt := by exact_mod_cast starts
          exact absurd (early.trans_le (reach.trans inside.1)) (lt_irrefl _)
        · have reach : (other.completedAt : ℝ) ≤ counted.2 := by exact_mod_cast done
          exact absurd (inside.2.trans_le (reach.trans late)) (lt_irrefl _)
      have within (point : ℝ) (late : (span.startedAt : ℝ) ≤ point)
          (early : point < span.completedAt)
          : point ∈ cover all :=
        ⟨span, part span List.mem_cons_self, late, early⟩
      have finite := volume_cover_ne_top all
      unfold unionStep
      dsimp only
      push_cast
      rw [total]
      rcases le_or_gt span.completedAt counted.2 with done | open_
      · have done' : (span.completedAt : ℝ) ≤ counted.2 := by exact_mod_cast done
        rw [max_eq_left done', max_eq_left (by linarith [le_max_left (counted.2 : ℝ) span.startedAt]),
          add_zero]
      · have open' : (counted.2 : ℝ) < span.completedAt := by exact_mod_cast open_
        rw [max_eq_right open'.le]
        rcases le_or_gt (span.startedAt : ℝ) counted.2 with started | gap
        · rw [max_eq_left started, max_eq_right (by linarith),
            volume_inter_Iio_add finite open'.le
              fun point late early => within point (started.trans late) early]
        · rw [max_eq_right gap.le]
          rcases le_or_gt (span.completedAt : ℝ) span.startedAt with empty | proper
          · rw [max_eq_left (by linarith), add_zero, inter_Iio_eq open'.le
              fun point late early => outside point late (early.trans_le empty)]
          · rw [max_eq_right (by linarith), volume_inter_Iio_add finite proper.le within,
              inter_Iio_eq gap.le outside]

/-- The duration of a union is its length. -/
theorem unionDuration_eq {intervals : List Span} (nonneg : ∀ span ∈ intervals, 0 ≤ span.startedAt)
    : (unionDuration intervals : ℝ) = volume.real (cover intervals) := by
  unfold unionDuration
  refine unionStep_foldl (mergeSort_startsFirst intervals)
    (fun span member => .inl (List.mem_mergeSort.mpr member))
    (fun span member => List.mem_mergeSort.mp member) ?_
  have empty : cover intervals ∩ Set.Iio (((0 : ℚ) : ℚ) : ℝ) = ∅ := by
    refine Set.eq_empty_of_forall_notMem fun point both => ?_
    obtain ⟨⟨span, member, inside⟩, below⟩ := both
    have start : (0 : ℝ) ≤ span.startedAt := by exact_mod_cast nonneg span member
    have negative : point < 0 := by simpa using below
    exact absurd (start.trans inside.1) (not_le_of_gt negative)
  rw [empty]
  simp

end Union

section Exclusion

/-- Nothing of a part that was dealt with is left between the next start and the end. -/
def Spent (interval : Span) (start : ℚ) (part : Span) : Prop :=
  ∀ point : ℝ, (start : ℝ) ≤ point → point < interval.completedAt → point ∉ part.toSet

/-- Excluding the rest of the sorted parts, by induction over it: what was found so far is
what no part covers up to the next start.
-/
theorem exclusiveStep_foldl {interval : Span} {all rest : List Span} {found : List Span × ℚ}
    (lasting : interval.startedAt ≤ interval.completedAt)
    (lastingParts : ∀ part ∈ all, part.startedAt ≤ part.completedAt)
    (sorted : rest.Pairwise fun left right => left.startedAt ≤ right.startedAt)
    (whole : ∀ part ∈ all, part ∈ rest ∨ Spent interval found.2 part)
    (some_ : ∀ part ∈ rest, part ∈ all) (started : interval.startedAt ≤ found.2)
    (exact : cover found.1 = (interval.toSet \ cover all) ∩ Set.Iio (found.2 : ℝ))
    (proper
      : ∀ span ∈ found.1,
          interval.startedAt ≤ span.startedAt ∧ span.startedAt < span.completedAt)
    : let last := rest.foldl (exclusiveStep interval) found
      (∀ part ∈ all, Spent interval last.2 part)
      ∧ interval.startedAt ≤ last.2
      ∧ cover last.1 = (interval.toSet \ cover all) ∩ Set.Iio (last.2 : ℝ)
      ∧ ∀ span ∈ last.1,
          interval.startedAt ≤ span.startedAt ∧ span.startedAt < span.completedAt := by
  induction rest generalizing found with
  | nil =>
      refine ⟨fun part member => ?_, started, exact, proper⟩
      rcases whole part member with later | spent
      · cases later
      · exact spent
  | cons part rest ih =>
      obtain ⟨first, sorted⟩ := List.pairwise_cons.mp sorted
      rw [List.foldl_cons]
      have fewer (other : Span) (member : other ∈ rest) : other ∈ all :=
        some_ other (List.mem_cons_of_mem _ member)
      -- before the next part starts nothing is covered
      have free (point : ℝ) (late : (found.2 : ℝ) ≤ point) (early : point < part.startedAt)
          (inside : point < interval.completedAt)
          : point ∉ cover all := by
        intro covered
        obtain ⟨other, member, holds⟩ := covered
        rcases whole other member with later | spent
        · have starts : (part.startedAt : ℝ) ≤ other.startedAt := by
            rcases List.mem_cons.mp later with same | later
            · rw [same]
            · exact_mod_cast first other later
          exact absurd (early.trans_le (starts.trans holds.1)) (lt_irrefl _)
        · exact spent point late inside holds
      unfold exclusiveStep
      split
      · rename_i outside
        refine ih sorted (fun other member => ?_) fewer started exact proper
        rcases whole other member with later | spent
        · rcases List.mem_cons.mp later with same | later
          · refine .inr fun point late early holds => ?_
            rw [same] at holds
            rcases outside with before | after
            · have ends : (part.completedAt : ℝ) ≤ found.2 := by exact_mod_cast before
              exact absurd (holds.2.trans_le (ends.trans late)) (lt_irrefl _)
            · have starts : (interval.completedAt : ℝ) ≤ part.startedAt := by exact_mod_cast after
              exact absurd (early.trans_le (starts.trans holds.1)) (lt_irrefl _)
          · exact .inl later
        · exact .inr spent
      · rename_i meets
        rw [not_or, not_le, not_le] at meets
        have reaches : (found.2 : ℝ) < part.completedAt := by exact_mod_cast meets.1
        have startsInside : (part.startedAt : ℝ) < interval.completedAt := by
          exact_mod_cast meets.2
        have next
            : ((min interval.completedAt (max found.2 part.completedAt) : ℚ) : ℝ)
              = min (interval.completedAt : ℝ) part.completedAt := by
          push_cast
          rw [max_eq_right reaches.le]
        have partLasts : (part.startedAt : ℝ) ≤ part.completedAt := by
          exact_mod_cast lastingParts part (some_ part List.mem_cons_self)
        have startedReal : (interval.startedAt : ℝ) ≤ found.2 := by exact_mod_cast started
        have partCovers (point : ℝ) (late : (part.startedAt : ℝ) ≤ point)
            (early : point < part.completedAt)
            : point ∈ cover all :=
          ⟨part, some_ part List.mem_cons_self, late, early⟩
        refine ih sorted (fun other member => ?_) fewer ?_ ?_ ?_
        · rcases whole other member with later | spent
          · rcases List.mem_cons.mp later with same | later
            · refine .inr fun point late early holds => ?_
              rw [next] at late
              rw [same] at holds
              rcases min_le_iff.mp late with past | past
              · exact absurd early (not_lt_of_ge past)
              · exact absurd holds.2 (not_lt_of_ge past)
            · exact .inl later
          · refine .inr fun point late early => spent point ?_ early
            rw [next] at late
            rcases min_le_iff.mp late with past | past
            · exact absurd early (not_lt_of_ge past)
            · exact reaches.le.trans past
        · exact le_min lasting (started.trans (le_max_left _ _))
        · dsimp only
          rw [next]
          have below (point : ℝ) (early : point < found.2) (inside : point < interval.completedAt)
              : point < min (interval.completedAt : ℝ) part.completedAt :=
            lt_min inside (early.trans reaches)
          split
          · rename_i gap
            have gap' : (found.2 : ℝ) < part.startedAt := by exact_mod_cast gap
            rw [cover_append, cover_singleton, exact]
            ext point
            simp only [Set.mem_union, Set.mem_inter_iff, Set.mem_Iio]
            constructor
            · intro either
              rcases either with before | inGap
              · exact ⟨before.1, below point before.2 before.1.1.2⟩
              · have early : point < part.startedAt := inGap.2
                have inside := early.trans startsInside
                exact ⟨⟨⟨startedReal.trans inGap.1, inside⟩, free point inGap.1 early inside⟩,
                  lt_min inside (early.trans_le partLasts)⟩
            · intro both
              obtain ⟨outside, early⟩ := both
              rcases lt_or_ge point (found.2 : ℝ) with before | late
              · exact .inl ⟨outside, before⟩
              · refine .inr ⟨late, ?_⟩
                by_contra inPart
                exact outside.2 (partCovers point (not_lt.mp inPart)
                  (early.trans_le (min_le_right _ _)))
          · rename_i close
            have close' : (part.startedAt : ℝ) ≤ found.2 := by exact_mod_cast not_lt.mp close
            rw [exact]
            ext point
            simp only [Set.mem_inter_iff, Set.mem_Iio]
            refine ⟨fun both => ⟨both.1, below point both.2 both.1.1.2⟩, fun both => ?_⟩
            refine ⟨both.1, ?_⟩
            by_contra late
            exact both.1.2 (partCovers point (close'.trans (not_lt.mp late))
              (both.2.trans_le (min_le_right _ _)))
        · dsimp only
          split
          · rename_i gap
            intro span member
            rcases List.mem_append.mp member with before | new
            · exact proper span before
            · rw [List.mem_singleton.mp new]
              exact ⟨started, gap⟩
          · exact proper

/-- The exclusive intervals cover the interval without the shared parts; none is empty. -/
theorem exclusiveIntervals_spec {interval : Span} {shared : List Span}
    (lasting : interval.startedAt ≤ interval.completedAt)
    (lastingParts : ∀ part ∈ shared, part.startedAt ≤ part.completedAt)
    : cover (exclusiveIntervals interval shared) = interval.toSet \ cover shared
      ∧ ∀ span ∈ exclusiveIntervals interval shared,
          interval.startedAt ≤ span.startedAt ∧ span.startedAt < span.completedAt := by
  have base
      : cover (([] : List Span), interval.startedAt).1
        = (interval.toSet \ cover shared)
          ∩ Set.Iio ((([] : List Span), interval.startedAt).2 : ℝ) := by
    symm
    rw [cover_nil]
    refine Set.eq_empty_of_forall_notMem fun point both => ?_
    exact absurd both.1.1.1 (not_le_of_gt both.2)
  obtain ⟨spent, started, exact, proper⟩ := exclusiveStep_foldl lasting lastingParts
    (mergeSort_startsFirst shared) (fun part member => .inl (List.mem_mergeSort.mpr member))
    (fun part member => List.mem_mergeSort.mp member) le_rfl base
    (fun _ member => nomatch member)
  unfold exclusiveIntervals
  generalize (shared.mergeSort startsFirst).foldl (exclusiveStep interval)
    ([], interval.startedAt) = found at spent started exact proper ⊢
  dsimp only
  split
  · rename_i rest
    refine ⟨?_, fun span member => ?_⟩
    · rw [cover_append, cover_singleton, exact]
      ext point
      simp only [Set.mem_union, Set.mem_inter_iff, Set.mem_Iio, Set.mem_sdiff]
      constructor
      · intro either
        rcases either with before | last
        · exact before.1
        · refine ⟨⟨?_, last.2⟩, fun covered => ?_⟩
          · have reach : (interval.startedAt : ℝ) ≤ found.2 := by exact_mod_cast started
            exact reach.trans last.1
          · obtain ⟨part, member, holds⟩ := covered
            exact spent part member point last.1 last.2 holds
      · intro outside
        rcases lt_or_ge point (found.2 : ℝ) with before | late
        · exact .inl ⟨outside, before⟩
        · exact .inr ⟨late, outside.1.2⟩
    · rcases List.mem_append.mp member with before | last
      · exact proper span before
      · rw [List.mem_singleton.mp last]
        exact ⟨started, rest⟩
  · rename_i done
    refine ⟨?_, proper⟩
    rw [exact]
    refine Set.inter_eq_left.mpr fun point inside => ?_
    have ends : (interval.completedAt : ℝ) ≤ found.2 := by exact_mod_cast not_lt.mp done
    exact inside.1.2.trans_le ends

end Exclusion

section Sole

variable {P Key : Type}

/-- The points of the line covered by intervals of one producer key only. -/
def soleCover (keyOf : P → Key) (spans : List (Span × Option P)) (key : Key) : Set ℝ :=
  {moment | (∃ span ∈ spans, moment ∈ span.1.toSet)
    ∧ ∀ span ∈ spans, moment ∈ span.1.toSet → span.2.map keyOf = some key}

theorem soleCover_congr {keyOf : P → Key} {first second : List (Span × Option P)}
    (same : ∀ span, span ∈ first ↔ span ∈ second) (key : Key)
    : soleCover keyOf first key = soleCover keyOf second key := by
  ext moment
  simp only [soleCover, same]

end Sole

section Attribution

variable {P Key M : Type} [DecidableEq Key]
  {keyOf : P → Key} {spans : List (Span × Option P)} {moment : ℝ} {state : Sweep P Key M}
  {credit : M → P → ℚ → M}

/-- How many more starts than ends of one kind are among the points. -/
def level (keyOf : P → Key) (points : List (Point P)) (kind : Option Key) : ℤ :=
  ((points.filter fun point => decide (point.producer.map keyOf = kind)).map (·.delta)).sum

@[simp] theorem level_nil (keyOf : P → Key) (kind : Option Key) : level keyOf [] kind = 0 := rfl

@[simp] theorem level_cons (keyOf : P → Key) (point : Point P) (rest : List (Point P))
    (kind : Option Key)
    : level keyOf (point :: rest) kind
      = (if point.producer.map keyOf = kind then point.delta else 0) + level keyOf rest kind := by
  unfold level
  by_cases same : point.producer.map keyOf = kind
  · simp [same]
  · simp [same]

theorem level_append (keyOf : P → Key) (first second : List (Point P)) (kind : Option Key)
    : level keyOf (first ++ second) kind = level keyOf first kind + level keyOf second kind := by
  simp [level, List.filter_append]

theorem level_perm {first second : List (Point P)} (same : first.Perm second) (kind : Option Key)
    : level keyOf first kind = level keyOf second kind :=
  ((same.filter _).map _).sum_eq

open Classical in
/-- How many intervals of one kind cover a point of the line. -/
noncomputable def covering (keyOf : P → Key) (spans : List (Span × Option P)) (kind : Option Key)
    (moment : ℝ)
    : ℕ :=
  spans.countP fun span => decide (span.2.map keyOf = kind ∧ moment ∈ span.1.toSet)

theorem covering_pos {kind : Option Key}
    : 0 < covering keyOf spans kind moment
      ↔ ∃ span ∈ spans, span.2.map keyOf = kind ∧ moment ∈ span.1.toSet := by
  simp [covering, List.countP_pos_iff]

/-- The points up to a moment count the intervals that cover it. -/
theorem level_pointsOf (keyOf : P → Key)
    (lasting : ∀ span ∈ spans, span.1.startedAt ≤ span.1.completedAt) (kind : Option Key)
    (moment : ℝ)
    : level keyOf ((pointsOf spans).filter fun point => decide ((point.moment : ℝ) ≤ moment)) kind
      = covering keyOf spans kind moment := by
  induction spans with
  | nil => rfl
  | cons span rest ih =>
      have later := ih fun other member => lasting other (List.mem_cons_of_mem _ member)
      have lasts : (span.1.startedAt : ℝ) ≤ span.1.completedAt := by
        exact_mod_cast lasting span List.mem_cons_self
      have split
          : pointsOf (span :: rest)
            = { moment := span.1.startedAt, delta := 1, producer := span.2 }
              :: { moment := span.1.completedAt, delta := -1, producer := span.2 }
              :: pointsOf rest := rfl
      rw [split, covering, List.countP_cons, ← covering, Nat.cast_add, ← later]
      by_cases open_ : (span.1.startedAt : ℝ) ≤ moment
      · by_cases closed : (span.1.completedAt : ℝ) ≤ moment
        · have outside : moment ∉ span.1.toSet := fun inside => absurd inside.2 (not_lt_of_ge closed)
          by_cases same : span.2.map keyOf = kind <;>
            simp [open_, closed, same, outside]
        · have inside : moment ∈ span.1.toSet := ⟨open_, not_le.mp closed⟩
          by_cases same : span.2.map keyOf = kind <;>
            simp [open_, closed, same, inside, add_comm]
      · have closed : ¬(span.1.completedAt : ℝ) ≤ moment := fun ended => open_ (lasts.trans ended)
        have outside : moment ∉ span.1.toSet := fun inside => open_ inside.1
        simp [open_, closed, outside]

/-- The sweep knows how many intervals of each kind are open. -/
structure Tracks (keyOf : P → Key) (points : List (Point P)) (state : Sweep P Key M) : Prop where
  unknown : state.unknown = level keyOf points none
  active : ∀ key : Key,
    (state.active.get? key).map (·.2)
    = if level keyOf points (some key) = 0 then none else some (level keyOf points (some key))
  keyed : ∀ (key : Key) (entry : P × ℤ), state.active.get? key = some entry → keyOf entry.1 = key

theorem tracks_advance {points : List (Point P)} (tracks : Tracks keyOf points state)
    (credit : M → P → ℚ → M) (moment : ℚ)
    : Tracks keyOf points (state.advance credit moment) := by
  unfold Sweep.advance
  split
  · exact ⟨tracks.unknown, tracks.active, tracks.keyed⟩
  · exact tracks

theorem tracks_shift {points : List (Point P)} (tracks : Tracks keyOf points state)
    (point : Point P)
    : Tracks keyOf (points ++ [point]) (state.shift keyOf point) := by
  have added (kind : Option Key)
      : level keyOf (points ++ [point]) kind
        = level keyOf points kind
          + if point.producer.map keyOf = kind then point.delta else 0 := by
    rw [level_append, level_cons, level_nil, add_zero]
  unfold Sweep.shift
  cases attributed : point.producer with
  | none =>
      refine ⟨?_, fun key => ?_, tracks.keyed⟩
      · rw [added, attributed]
        simp [tracks.unknown]
      · rw [added, attributed]
        simp [tracks.active]
  | some producer =>
      have count
          : ((state.active.get? (keyOf producer)).map (·.2)).getD 0
            = level keyOf points (some (keyOf producer)) := by
        rw [tracks.active]
        split
        · rename_i zero
          rw [zero]
          rfl
        · rfl
      dsimp only
      rw [count]
      refine ⟨?_, fun key => ?_, fun key entry stored => ?_⟩
      · rw [added, attributed]
        simp [tracks.unknown]
      · rw [added, attributed]
        simp only [Option.map_some, Option.some.injEq]
        by_cases same : keyOf producer = key
        · subst same
          rw [if_pos rfl]
          split
          · rename_i open_
            simp [OrderedMap.get?_set]
          · rename_i closed
            rw [not_ne_iff] at closed
            simp [OrderedMap.get?_delete, closed]
        · rw [if_neg same, add_zero, ← tracks.active]
          split
          · simp [OrderedMap.get?_set, Ne.symm same]
          · simp [OrderedMap.get?_delete, Ne.symm same]
      · split at stored
        · rw [OrderedMap.get?_set] at stored
          split at stored
          · rename_i same
            rw [← Option.some.inj stored, same]
          · exact tracks.keyed key entry stored
        · rw [OrderedMap.get?_delete] at stored
          split at stored
          · cases stored
          · exact tracks.keyed key entry stored

/-- A value the sweep adds up is the length of the set it adds the stretches of, by
induction over the rest of the sorted points.
-/
theorem sweep_value {value : Sweep P Key M → ℚ} {counted : Set ℝ} (seen : List (Point P))
    {rest : List (Point P)} (finite : volume counted ≠ ⊤)
    (shift : ∀ (state : Sweep P Key M) (point : Point P),
      value (state.shift keyOf point) = value state)
    (gain
      : ∀ (before : List (Point P)) (point : Point P) (after : List (Point P))
          (state : Sweep P Key M),
          seen ++ rest = before ++ point :: after
          → Tracks keyOf before state
          → (∀ other ∈ before, other.moment ≤ state.previous)
          → state.previous < point.moment
          → ((∀ moment : ℝ, (state.previous : ℝ) ≤ moment → moment < point.moment
                → moment ∈ counted)
              ∧ value (state.advance credit point.moment)
                = value state + (point.moment - state.previous))
            ∨ (∀ moment : ℝ, (state.previous : ℝ) ≤ moment → moment < point.moment
                → moment ∉ counted)
              ∧ value (state.advance credit point.moment) = value state)
    (sorted : rest.Pairwise fun left right => left.moment ≤ right.moment)
    (forward : ∀ point ∈ rest, state.previous ≤ point.moment)
    (tracks : Tracks keyOf seen state)
    (passed : ∀ other ∈ seen, other.moment ≤ state.previous)
    (ends : ∀ moment ∈ counted, ∃ point ∈ seen ++ rest, moment < (point.moment : ℝ))
    (total : (value state : ℝ) = volume.real (counted ∩ Set.Iio (state.previous : ℝ)))
    : (value (rest.foldl (Sweep.step keyOf credit) state) : ℝ) = volume.real counted := by
  induction rest generalizing seen state with
  | nil =>
      have below : counted ∩ Set.Iio (state.previous : ℝ) = counted := by
        refine Set.inter_eq_left.mpr fun moment inside => ?_
        obtain ⟨point, member, early⟩ := ends moment inside
        rw [List.append_nil] at member
        exact early.trans_le (by exact_mod_cast passed point member)
      rw [List.foldl_nil, total, below]
  | cons point rest ih =>
      obtain ⟨first, sorted⟩ := List.pairwise_cons.mp sorted
      have here := forward point List.mem_cons_self
      have arrives
          : ((state.advance credit point.moment).shift keyOf point).previous = point.moment := by
        unfold Sweep.shift
        split <;> rfl
      have parts : seen ++ point :: rest = (seen ++ [point]) ++ rest := by
        rw [List.append_assoc, List.singleton_append]
      rw [List.foldl_cons, Sweep.step]
      refine ih (seen ++ [point]) ?_ sorted ?_
        (tracks_shift (tracks_advance tracks credit point.moment) point) ?_ ?_ ?_
      · rw [← parts]
        exact gain
      · rw [arrives]
        exact first
      · rw [arrives]
        intro other member
        rcases List.mem_append.mp member with before | now
        · exact (passed other before).trans here
        · rw [List.mem_singleton.mp now]
      · rw [← parts]
        exact ends
      · rw [arrives, shift]
        rcases here.eq_or_lt with same | later
        · have still : state.advance credit point.moment = state := by
            unfold Sweep.advance
            rw [if_neg (by rw [same]; exact lt_irrefl _)]
          rw [still, total, same]
        · have later' : (state.previous : ℝ) < point.moment := by exact_mod_cast later
          rcases gain seen point rest state rfl tracks passed later with inside | outside
          · rw [inside.2, volume_inter_Iio_add finite later'.le inside.1, ← total]
            push_cast
            ring
          · rw [outside.2, inter_Iio_eq later'.le outside.1, total]

/-- Between two ends the points already passed are those up to any moment there. -/
theorem level_passed (lasting : ∀ span ∈ spans, span.1.startedAt ≤ span.1.completedAt)
    {before after : List (Point P)} {point : Point P}
    (points : (before ++ point :: after).Perm (pointsOf spans))
    (sorted : (before ++ point :: after).Pairwise fun left right => left.moment ≤ right.moment)
    {previous : ℚ} (passed : ∀ other ∈ before, other.moment ≤ previous)
    (late : (previous : ℝ) ≤ moment) (early : moment < point.moment) (kind : Option Key)
    : level keyOf before kind = covering keyOf spans kind moment := by
  have upTo
      : (before ++ point :: after).filter (fun other => decide ((other.moment : ℝ) ≤ moment))
        = before := by
    rw [List.filter_append, List.filter_eq_self.mpr, List.filter_eq_nil_iff.mpr, List.append_nil]
    · intro other member reached
      have next : point.moment ≤ other.moment := by
        rcases List.mem_cons.mp member with same | later
        · rw [same]
        · exact (List.pairwise_cons.mp (List.pairwise_append.mp sorted).2.1).1 other later
      have next' : (point.moment : ℝ) ≤ other.moment := by exact_mod_cast next
      exact absurd (early.trans_le (next'.trans (of_decide_eq_true reached))) (lt_irrefl _)
    · intro other member
      have done : (other.moment : ℝ) ≤ previous := by exact_mod_cast passed other member
      exact decide_eq_true (done.trans late)
  rw [← level_pointsOf keyOf lasting, ← level_perm (points.filter _), upTo]

theorem mem_pointsOf {point : Point P}
    : point ∈ pointsOf spans
      ↔ ∃ span ∈ spans,
          point = { moment := span.1.startedAt, delta := 1, producer := span.2 }
          ∨ point = { moment := span.1.completedAt, delta := -1, producer := span.2 } := by
  simp [pointsOf, List.mem_flatMap]

/-- What a sweep over all points adds up is the length of the set it adds stretches of. -/
theorem attributeUnion_value (value : Sweep P Key M → ℚ) {counted : Set ℝ} (modes : M)
    (lasting : ∀ span ∈ spans, span.1.startedAt ≤ span.1.completedAt)
    (nonneg : ∀ span ∈ spans, 0 ≤ span.1.startedAt)
    (within : ∀ moment ∈ counted, ∃ span ∈ spans, moment ∈ span.1.toSet)
    (shift : ∀ (state : Sweep P Key M) (point : Point P),
      value (state.shift keyOf point) = value state)
    (initial : value { modes } = 0)
    (gain
      : ∀ (before : List (Point P)) (state : Sweep P Key M) (next : ℚ),
          Tracks keyOf before state
          → state.previous < next
          → (∀ moment : ℝ, (state.previous : ℝ) ≤ moment → moment < next
              → ∀ kind, level keyOf before kind = covering keyOf spans kind moment)
          → ((∀ moment : ℝ, (state.previous : ℝ) ≤ moment → moment < next → moment ∈ counted)
              ∧ value (state.advance credit next) = value state + (next - state.previous))
            ∨ (∀ moment : ℝ, (state.previous : ℝ) ≤ moment → moment < next → moment ∉ counted)
              ∧ value (state.advance credit next) = value state)
    : (value (((pointsOf spans).mergeSort fun left right =>
          decide (left.moment ≤ right.moment)).foldl (Sweep.step keyOf credit) { modes }) : ℝ)
      = volume.real counted := by
  have points := List.mergeSort_perm (pointsOf spans) fun left right =>
    decide (left.moment ≤ right.moment)
  have sorted
      : ((pointsOf spans).mergeSort fun left right => decide (left.moment ≤ right.moment)).Pairwise
          fun left right => left.moment ≤ right.moment := by
    refine (List.pairwise_mergeSort ?_ ?_ (pointsOf spans)).imp of_decide_eq_true
    · intro left middle right first second
      exact decide_eq_true ((of_decide_eq_true first).trans (of_decide_eq_true second))
    · intro left right
      simp [le_total]
  have ordered (point : Point P) (member : point ∈ pointsOf spans) : 0 ≤ point.moment := by
    obtain ⟨span, listed, either⟩ := mem_pointsOf.mp member
    rcases either with start | finish
    · exact start ▸ nonneg span listed
    · exact finish ▸ (nonneg span listed).trans (lasting span listed)
  have inCover (moment : ℝ) (inside : moment ∈ counted) : moment ∈ cover (spans.map (·.1)) := by
    obtain ⟨span, listed, covers⟩ := within moment inside
    exact ⟨span.1, List.mem_map_of_mem listed, covers⟩
  have finite : volume counted ≠ ⊤ :=
    measure_ne_top_of_subset inCover (volume_cover_ne_top _)
  refine sweep_value [] finite shift ?_ sorted ?_ ⟨rfl, fun _ => rfl, ?_⟩ ?_ ?_ ?_
  · intro before point after state parts tracks passed later
    rw [List.nil_append] at parts
    refine gain before state point.moment tracks later fun moment late early kind => ?_
    exact level_passed lasting (parts ▸ points) (parts ▸ sorted) passed late early kind
  · exact fun point member => ordered point (points.mem_iff.mp member)
  · intro key entry stored
    cases stored
  · intro other member
    cases member
  · intro moment inside
    obtain ⟨span, listed, covers⟩ := within moment inside
    refine ⟨{ moment := span.1.completedAt, delta := -1, producer := span.2 }, ?_, covers.2⟩
    exact points.mem_iff.mpr (mem_pointsOf.mpr ⟨span, listed, .inr rfl⟩)
  · rw [initial]
    have empty : counted ∩ Set.Iio (((0 : ℚ) : ℚ) : ℝ) = ∅ := by
      refine Set.eq_empty_of_forall_notMem fun moment both => ?_
      obtain ⟨span, listed, covers⟩ := within moment both.1
      have start : (0 : ℝ) ≤ span.1.startedAt := by exact_mod_cast nonneg span listed
      have negative : moment < 0 := by simpa using both.2
      exact absurd (start.trans covers.1) (not_le_of_gt negative)
    rw [empty]
    simp

/-- The total of the sweep is the length of the union of its intervals. -/
theorem attributeUnion_total (modes : M)
    (lasting : ∀ span ∈ spans, span.1.startedAt ≤ span.1.completedAt)
    (nonneg : ∀ span ∈ spans, 0 ≤ span.1.startedAt)
    : ((attributeUnion keyOf credit spans modes).1 : ℝ)
      = volume.real (cover (spans.map (·.1))) := by
  refine attributeUnion_value (·.total) modes lasting nonneg ?_ ?_ rfl ?_
  · intro moment inside
    obtain ⟨interval, listed, covers⟩ := inside
    obtain ⟨span, member, same⟩ := List.mem_map.mp listed
    exact ⟨span, member, same ▸ covers⟩
  · intro state point
    unfold Sweep.shift
    split <;> rfl
  · intro before state next tracks later counts
    by_cases open_ : 0 < state.unknown ∨ state.active.keys ≠ []
    · refine .inl ⟨fun moment late early => ?_, ?_⟩
      · have covered : ∃ kind, 0 < covering keyOf spans kind moment := by
          rcases open_ with unknown | active
          · rw [tracks.unknown, counts moment late early none] at unknown
            exact ⟨none, by exact_mod_cast unknown⟩
          · obtain ⟨key, listed⟩ := List.exists_mem_of_ne_nil _ active
            obtain ⟨entry, stored⟩ := OrderedMap.mem_keys_iff.mp listed
            have count := tracks.active key
            rw [stored, counts moment late early (some key)] at count
            refine ⟨some key, Nat.pos_of_ne_zero fun zero => ?_⟩
            rw [zero] at count
            cases count
        obtain ⟨kind, positive⟩ := covered
        obtain ⟨span, listed, -, inside⟩ := covering_pos.mp positive
        exact ⟨span.1, List.mem_map_of_mem listed, inside⟩
      · unfold Sweep.advance
        rw [if_pos later]
        exact if_pos open_
    · refine .inr ⟨fun moment late early inside => open_ ?_, ?_⟩
      · obtain ⟨interval, listed, covers⟩ := inside
        obtain ⟨span, member, same⟩ := List.mem_map.mp listed
        have positive : 0 < covering keyOf spans (span.2.map keyOf) moment :=
          covering_pos.mpr ⟨span, member, rfl, same ▸ covers⟩
        rw [← Int.natCast_pos, ← counts moment late early] at positive
        cases attributed : span.2.map keyOf with
        | none =>
            rw [attributed] at positive
            exact .inl (tracks.unknown ▸ positive)
        | some key =>
            rw [attributed] at positive
            have count := tracks.active key
            rw [if_neg positive.ne'] at count
            obtain ⟨entry, stored, -⟩ := Option.map_eq_some_iff.mp count
            exact .inr (List.ne_nil_of_mem (OrderedMap.mem_keys_iff.mpr ⟨entry, stored⟩))
      · unfold Sweep.advance
        rw [if_pos later]
        exact if_neg open_

/-- A stretch on which one producer is open and no unknown one lies in its sole cover. -/
theorem mem_soleCover_iff {key : Key}
    : moment ∈ soleCover keyOf spans key
      ↔ 0 < covering keyOf spans (some key) moment
        ∧ ∀ kind, kind ≠ some key → covering keyOf spans kind moment = 0 := by
  constructor
  · intro inside
    obtain ⟨⟨span, listed, covers⟩, only⟩ := inside
    refine ⟨covering_pos.mpr ⟨span, listed, only span listed covers, covers⟩, ?_⟩
    intro kind different
    by_contra positive
    obtain ⟨other, member, same, covers⟩ := covering_pos.mp (Nat.pos_of_ne_zero positive)
    exact different (same.symm.trans (only other member covers))
  · intro counts
    obtain ⟨span, listed, -, covers⟩ := covering_pos.mp counts.1
    refine ⟨⟨span, listed, covers⟩, fun other member inside => ?_⟩
    by_contra different
    have positive : 0 < covering keyOf spans (other.2.map keyOf) moment :=
      covering_pos.mpr ⟨other, member, rfl, inside⟩
    rw [counts.2 _ different] at positive
    exact absurd positive (lt_irrefl 0)

/-- Each key is credited the length of what it alone covers. -/
theorem attributeUnion_credit {key : Key} (read : M → ℚ) (modes : M)
    (lasting : ∀ span ∈ spans, span.1.startedAt ≤ span.1.completedAt)
    (nonneg : ∀ span ∈ spans, 0 ≤ span.1.startedAt)
    (credits
      : ∀ modes producer duration, 0 < duration
        → read (credit modes producer duration)
          = read modes + if keyOf producer = key then duration else 0)
    : (read (attributeUnion keyOf credit spans modes).2 : ℝ)
      = read modes + volume.real (soleCover keyOf spans key) := by
  have counted
      : ((read (attributeUnion keyOf credit spans modes).2 - read modes : ℚ) : ℝ)
        = volume.real (soleCover keyOf spans key) := by
    refine attributeUnion_value (fun state => read state.modes - read modes) modes
      lasting nonneg (fun moment inside => inside.1) ?_ (sub_self _) ?_
    · intro state point
      unfold Sweep.shift
      split <;> rfl
    · intro before state next tracks later counts
      have none_ (moment : ℝ) (late : (state.previous : ℝ) ≤ moment) (early : moment < next)
          : state.unknown = covering keyOf spans none moment :=
        tracks.unknown.trans (counts moment late early none)
      have some_ (moment : ℝ) (late : (state.previous : ℝ) ≤ moment) (early : moment < next)
          (other : Key)
          : state.active.get? other = none ↔ covering keyOf spans (some other) moment = 0 := by
        rw [← Option.map_eq_none_iff, tracks.active, counts moment late early]
        split
        · rename_i zero
          simpa using zero
        · rename_i positive
          simpa using positive
      unfold Sweep.advance
      rw [if_pos later]
      dsimp only
      by_cases alone : ∃ entry, state.active.values = [entry] ∧ state.unknown = 0
      · obtain ⟨entry, single, known⟩ := alone
        obtain ⟨own, stored⟩ := OrderedMap.get?_of_values_eq single
        have named : keyOf entry.1 = own := tracks.keyed own entry (by rw [stored, if_pos rfl])
        rw [single]
        dsimp only
        rw [if_pos known, credits _ _ _ (sub_pos.mpr later), named]
        by_cases same : own = key
        · subst same
          refine .inl ⟨fun moment late early => mem_soleCover_iff.mpr ⟨?_, ?_⟩, ?_⟩
          · refine Nat.pos_of_ne_zero fun zero => ?_
            have gone := (some_ moment late early own).mpr zero
            rw [stored, if_pos rfl] at gone
            cases gone
          · intro kind different
            cases kind with
            | none => exact_mod_cast (none_ moment late early).symm.trans known
            | some other =>
                refine (some_ moment late early other).mp ?_
                rw [stored, if_neg fun same => different (congrArg some same)]
          · rw [if_pos rfl]
            ring
        · refine .inr ⟨fun moment late early inside => ?_, ?_⟩
          · have zero := (some_ moment late early key).mp (by rw [stored, if_neg (Ne.symm same)])
            have positive := (mem_soleCover_iff.mp inside).1
            rw [zero] at positive
            exact absurd positive (lt_irrefl 0)
          · rw [if_neg same, add_zero]
      · refine .inr ⟨fun moment late early inside => alone ?_, ?_⟩
        · obtain ⟨positive, others⟩ := mem_soleCover_iff.mp inside
          cases stored : state.active.get? key with
          | none =>
              rw [(some_ moment late early key).mp stored] at positive
              exact absurd positive (lt_irrefl 0)
          | some entry =>
              refine ⟨entry, OrderedMap.values_eq_of_get? stored fun other different => ?_, ?_⟩
              · refine (some_ moment late early other).mpr (others _ fun same => different ?_)
                exact Option.some.inj same
              · rw [none_ moment late early, others none (by simp)]
                rfl
        · split
          · rename_i entry single
            rw [if_neg fun known => alone ⟨entry, single, known⟩]
          · rfl
  push_cast at counted
  linarith

end Attribution

end SpeculativeAction.TaskTiming
