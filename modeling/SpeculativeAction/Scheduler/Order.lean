import SpeculativeAction.Scheduler.Model

/-! When the scheduler's comparison is one of a total preorder. Seven quantities rank the work;
the remaining duration decides last, and only between two known ones.
-/

namespace SpeculativeAction.Scheduler

open SpeculativeAction.Library

section Measured

variable {first : JsNumber} {values : List JsNumber}

/-- Every number of a piece of work that the comparison reads can be compared. -/
structure Measured (work : ScheduledWork) : Prop where
  expected : ∀ duration, work.expectedDurationMs = some duration → duration.isFinite = true
  elapsed : work.elapsedMs.isFinite = true
  resources : ∀ key amount, work.resources key = some amount → amount.isFinite = true
  batches : work.decisionBatchesUntilCall.HasPlace
  critical : work.criticalPathSteps.isFinite = true
  confidence : work.confidence.HasPlace

theorem isFinite_zero : zero.isFinite = true := by
  simp [zero, JsNumber.isFinite_ofRat, roundBinary64, roundHalfEven]

theorem isFinite_one : one.isFinite = true :=
  JsNumber.isFinite_ofRat (roundBinary64_natCast (by norm_num : 1 ≤ 2 ^ 53))

theorem isFinite_nonNegativeFinite (value : Option JsNumber)
    : (nonNegativeFinite value).isFinite = true := by
  unfold nonNegativeFinite
  split
  · split
    · rename_i finite
      exact JsNumber.isFinite_max isFinite_zero finite
    · exact isFinite_zero
  · exact isFinite_zero

theorem isFinite_nonNegativeCount (value : Option JsNumber)
    : (nonNegativeCount value).isFinite = true := by
  unfold nonNegativeCount
  split
  · split
    · rename_i finite
      exact JsNumber.isFinite_max isFinite_zero (JsNumber.isFinite_floor finite)
    · exact isFinite_zero
  · exact isFinite_zero

theorem isFinite_positiveCount (value : Option JsNumber)
    : (positiveCount value).isFinite = true := by
  unfold positiveCount
  split
  · split
    · rename_i finite
      exact JsNumber.isFinite_max isFinite_one (JsNumber.isFinite_floor finite)
    · exact isFinite_one
  · exact isFinite_one

theorem isFinite_maxOf (start : first.isFinite = true)
    (all : ∀ value ∈ values, value.isFinite = true)
    : (maxOf first values).isFinite = true :=
  List.foldlRecOn (motive := fun greatest => JsNumber.isFinite greatest = true) values _ start
    fun _ finite value member => JsNumber.isFinite_max finite (all value member)

theorem hasPlace_maxOf (start : first.HasPlace) (all : ∀ value ∈ values, value ≠ .nan)
    : (maxOf first values).HasPlace :=
  List.foldlRecOn (motive := fun greatest => JsNumber.HasPlace greatest) values _ start
    fun _ has value member => has.max (all value member)

theorem hasPlace_minOf (start : first.HasPlace) (all : ∀ value ∈ values, value.HasPlace)
    : (minOf first values).HasPlace :=
  List.foldlRecOn (motive := fun least => JsNumber.HasPlace least) values _ start
    fun _ has value member => has.min (all value member)

/-- The greatest of some durations is one of them. -/
theorem isFinite_longest {durations : List JsNumber} (some_ : durations ≠ [])
    (all : ∀ duration ∈ durations, duration.isFinite = true)
    : (maxOf (.infinite true) durations).isFinite = true := by
  cases durations with
  | nil => exact absurd rfl some_
  | cons duration rest =>
      have finite := all duration List.mem_cons_self
      have start : (JsNumber.infinite true).max duration = duration := by
        obtain ⟨value, exact_⟩ := JsNumber.isFinite_iff.mp finite
        have has := JsNumber.hasPlace_of_value? exact_
        unfold JsNumber.max
        rw [if_neg (not_or.mpr ⟨by simp, has.1⟩), if_pos]
        rw [JsNumber.place_of_value? exact_]
        exact WithBot.bot_lt_coe _
      rw [maxOf, List.foldl_cons, start]
      exact isFinite_maxOf finite fun other member => all other (List.mem_cons_of_mem _ member)

theorem isFinite_resourcesOf (forecasts : List PredictionForecast) (key : Dimension)
    (amount : JsNumber) (needed : resourcesOf forecasts key = some amount)
    : amount.isFinite = true := by
  have all
      : ∀ key amount, resourcesOf forecasts key = some amount → amount.isFinite = true := by
    refine List.foldlRecOn
      (motive := fun resources : HardwareResources =>
        ∀ key amount, resources key = some amount → amount.isFinite = true)
      forecasts _ (fun _ _ missing => nomatch missing) ?_
    intro resources before forecast _ key amount raised
    unfold raise at raised
    split at raised
    · rw [← Option.some.inj raised]
      refine JsNumber.isFinite_max ?_ (isFinite_nonNegativeFinite _)
      cases known : resources key with
      | none => exact isFinite_zero
      | some earlier => exact before key earlier known
    · exact before key amount raised
  exact all key amount needed

theorem hasPlace_confidenceOf (forecast : PredictionForecast)
    : (confidenceOf forecast).HasPlace :=
  (JsNumber.HasPlace.of_isFinite isFinite_one).min
    (.of_isFinite (isFinite_nonNegativeFinite _))

/-- Evaluated work is measured, whatever was forecast. -/
theorem measured_evaluate (forecasts : List PredictionForecast) : Measured (evaluate forecasts) where
  expected duration known := by
    unfold evaluate at known
    dsimp only at known
    split at known
    · cases known
    · rename_i some_
      rw [← Option.some.inj known]
      refine isFinite_longest some_ fun other member => ?_
      obtain ⟨forecast, -, stated⟩ := List.mem_filterMap.mp member
      obtain ⟨value, -, rfl⟩ := Option.map_eq_some_iff.mp stated
      exact isFinite_nonNegativeFinite _
  elapsed := by
    refine isFinite_maxOf isFinite_zero fun value member => ?_
    obtain ⟨forecast, -, rfl⟩ := List.mem_map.mp member
    exact isFinite_nonNegativeFinite _
  resources := isFinite_resourcesOf forecasts
  batches := by
    refine hasPlace_minOf ⟨by simp, by simp⟩ fun value member => ?_
    obtain ⟨forecast, -, rfl⟩ := List.mem_map.mp member
    exact .of_isFinite (isFinite_nonNegativeCount _)
  critical := by
    refine isFinite_maxOf isFinite_one fun value member => ?_
    obtain ⟨forecast, -, rfl⟩ := List.mem_map.mp member
    exact isFinite_positiveCount _
  confidence := by
    refine hasPlace_maxOf (.of_isFinite isFinite_zero) fun value member => ?_
    obtain ⟨forecast, -, rfl⟩ := List.mem_map.mp member
    exact (hasPlace_confidenceOf forecast).1

theorem hasPlace_ofBool (value : Bool) : (ofBool value).HasPlace := by
  cases value with
  | false => exact .of_isFinite isFinite_zero
  | true => exact .of_isFinite isFinite_one

variable {work : ScheduledWork}

theorem Measured.hasPlace_slack (measured : Measured work) : (slack work).HasPlace :=
  (JsNumber.HasPlace.of_isFinite isFinite_zero).max
    (JsNumber.sub_ne_nan measured.batches measured.critical)

theorem Measured.hasPlace_remaining (measured : Measured work) {left : JsNumber}
    (known : remaining work = some left)
    : left.HasPlace := by
  obtain ⟨expected, stated, rfl⟩ := Option.map_eq_some_iff.mp known
  exact (JsNumber.HasPlace.of_isFinite isFinite_zero).max
    (JsNumber.sub_ne_nan (.of_isFinite (measured.expected expected stated)) measured.elapsed)

theorem maxOf_eq_nan_iff
    : maxOf first values = .nan ↔ first = .nan ∨ .nan ∈ values := by
  induction values generalizing first with
  | nil => simp [maxOf]
  | cons value rest ih =>
      rw [maxOf, List.foldl_cons, ← maxOf, ih, JsNumber.max_eq_nan_iff, List.mem_cons, or_assoc,
        @eq_comm _ value]

/-- A pressure is unknown when some capacity is, for all work alike. -/
theorem Measured.pressure_eq_nan_iff (measured : Measured work) (capacity : HardwareResources)
    : pressure capacity work = .nan ↔ ∃ key ∈ dimensions, capacity key = some .nan := by
  have finite (key : Dimension) : ((work.resources key).getD zero).isFinite = true := by
    cases needed : work.resources key with
    | none => exact isFinite_zero
    | some amount => exact measured.resources key amount needed
  have least : JsNumber.ofRat (1 / 10 ^ 9) ≠ .nan := JsNumber.ofRat_ne_nan _
  rw [pressure, maxOf_eq_nan_iff, List.mem_map]
  constructor
  · intro either
    rcases either with start | ⟨key, member, unknown⟩
    · exact absurd start (JsNumber.HasPlace.of_isFinite isFinite_zero).1
    · refine ⟨key, member, ?_⟩
      by_contra known
      refine JsNumber.divPositive_ne_nan (finite key) ?_ unknown
      rw [Ne, JsNumber.max_eq_nan_iff, not_or]
      refine ⟨least, fun missing => known ?_⟩
      cases stated : capacity key with
      | none =>
          rw [stated] at missing
          cases missing
      | some amount =>
          rw [stated] at missing
          exact congrArg some missing
  · intro unknown
    obtain ⟨key, member, stated⟩ := unknown
    refine .inr ⟨key, member, ?_⟩
    rw [stated, Option.getD_some, JsNumber.max_eq_nan_iff.mpr (.inr rfl),
      JsNumber.divPositive_nan]

theorem hasPlace_pressure {capacity : HardwareResources} (known : pressure capacity work ≠ .nan)
    : (pressure capacity work).HasPlace := by
  refine hasPlace_maxOf (.of_isFinite isFinite_zero) fun value member unknown => known ?_
  rw [pressure, maxOf_eq_nan_iff]
  exact .inr (unknown ▸ member)

end Measured

section Rank

variable {capacity : HardwareResources}

/-- The quantities that rank work, before any duration. -/
def rankCompare (capacity : HardwareResources) : ScheduledWork → ScheduledWork → Ordering :=
  compareLex (compareOn fun work => OrderDual.toDual (ofBool work.actorDemand).place) <|
  compareLex (compareOn fun work => (slack work).place) <|
  compareLex (compareOn fun work => OrderDual.toDual (ofBool work.actorHint).place) <|
  compareLex (compareOn fun work => (ofBool work.background).place) <|
  compareLex (compareOn fun work => work.decisionBatchesUntilCall.place) <|
  compareLex (compareOn fun work => OrderDual.toDual work.confidence.place) <|
  compareOn fun work => (pressure capacity work).place

/-- Work that no quantity but the duration tells apart. -/
structure SameRank (capacity : HardwareResources) (left right : ScheduledWork) : Prop where
  actorDemand : left.actorDemand = right.actorDemand
  slack : (slack left).place = (slack right).place
  actorHint : left.actorHint = right.actorHint
  background : left.background = right.background
  batches : left.decisionBatchesUntilCall.place = right.decisionBatchesUntilCall.place
  confidence : left.confidence.place = right.confidence.place
  pressure : (pressure capacity left).place = (pressure capacity right).place

theorem place_ofBool_inj {left right : Bool}
    : (ofBool left).place = (ofBool right).place ↔ left = right := by
  have apart : zero.place ≠ one.place := by
    have nothing : roundBinary64 0 = some 0 := by simp [roundBinary64, roundHalfEven]
    have unit : roundBinary64 1 = some 1 :=
      roundBinary64_natCast (by norm_num : 1 ≤ 2 ^ 53)
    rw [zero, one, JsNumber.ofRat_of_some nothing, JsNumber.ofRat_of_some unit]
    simp [JsNumber.place]
  cases left <;> cases right <;> simp [ofBool, apart, apart.symm]

theorem rankCompare_eq_iff {left right : ScheduledWork}
    : rankCompare capacity left right = .eq ↔ SameRank capacity left right := by
  unfold rankCompare
  simp only [compareLex_eq_eq, compareOn, Std.compare_eq_iff_eq, OrderDual.toDual_inj,
    place_ofBool_inj]
  constructor
  · intro same
    obtain ⟨actorDemand, slack, actorHint, background, batches, confidence, pressure⟩ := same
    exact ⟨actorDemand, slack, actorHint, background, batches, confidence, pressure⟩
  · intro same
    exact ⟨same.actorDemand, same.slack, same.actorHint, same.background, same.batches,
      same.confidence, same.pressure⟩

theorem ordering_sub_compare {left right : JsNumber} (hasLeft : left.HasPlace)
    (hasRight : right.HasPlace)
    : (left.sub right).ordering = Ord.compare left.place right.place :=
  (JsNumber.ordering_sub hasLeft hasRight).trans (cmp_eq_compare _ _)

/-- The comparison ranks first and then looks at the durations. -/
theorem ordering_compare {left right : ScheduledWork} (measured : Measured left)
    (measured' : Measured right)
    : (compare capacity left right).ordering
      = (rankCompare capacity left right).then
          (remainingDifference (remaining left) (remaining right)).ordering := by
  have pressures
      : ((pressure capacity left).sub (pressure capacity right)).ordering
        = Ord.compare (pressure capacity left).place (pressure capacity right).place := by
    by_cases unknown : pressure capacity left = .nan
    · have also : pressure capacity right = .nan :=
        (measured'.pressure_eq_nan_iff capacity).mpr
          ((measured.pressure_eq_nan_iff capacity).mp unknown)
      rw [unknown, also]
      exact Std.ReflCmp.compare_self.symm
    · refine ordering_sub_compare (hasPlace_pressure unknown) (hasPlace_pressure fun also => ?_)
      exact unknown ((measured.pressure_eq_nan_iff capacity).mpr
        ((measured'.pressure_eq_nan_iff capacity).mp also))
  unfold compare rankCompare
  simp only [JsNumber.ordering_orElse, compareLex, compareOn, pressures,
    ordering_sub_compare (hasPlace_ofBool _) (hasPlace_ofBool _),
    ordering_sub_compare measured.hasPlace_slack measured'.hasPlace_slack,
    ordering_sub_compare measured.batches measured'.batches,
    ordering_sub_compare measured'.confidence measured.confidence, Ordering.then_assoc]
  rfl

end Rank

section Durations

/-- How two known durations compare; an unknown one compares as equal to every other. -/
def durationCompare (left right : Option JsNumber) : Ordering :=
  match left, right with
  | some left, some right => Ord.compare left.place right.place
  | _, _ => .eq

theorem ordering_zero : zero.ordering = .eq := by
  rw [zero, JsNumber.ordering_ofRat ⟨0, by simp⟩, cmp_self_eq_eq]

theorem ordering_remainingDifference {left right : ScheduledWork} (measured : Measured left)
    (measured' : Measured right)
    : (remainingDifference (remaining left) (remaining right)).ordering
      = durationCompare (remaining left) (remaining right) := by
  cases known : remaining left with
  | none => exact ordering_zero
  | some first =>
      cases known' : remaining right with
      | none => exact ordering_zero
      | some second =>
          exact ordering_sub_compare (measured.hasPlace_remaining known)
            (measured'.hasPlace_remaining known')

theorem durationCompare_some (left right : JsNumber)
    : durationCompare (some left) (some right) = Ord.compare left.place right.place := rfl

theorem durationCompare_swap (left right : Option JsNumber)
    : durationCompare left right = (durationCompare right left).swap := by
  cases left with
  | none => cases right <;> rfl
  | some first =>
      cases right with
      | none => rfl
      | some second =>
          rw [durationCompare_some, durationCompare_some]
          exact Std.OrientedCmp.eq_swap

end Durations

section Preorder

variable {capacity : HardwareResources}

/-- The comparison behaves on three pieces of work as one of a total preorder does. -/
structure OrderedAt (capacity : HardwareResources) (first second third : ScheduledWork)
    : Prop where
  antisymmetric :
    (compare capacity first second).ordering = (compare capacity second first).ordering.swap
  transitive :
    (compare capacity first second).ordering.isLE = true →
    (compare capacity second third).ordering.isLE = true →
    (compare capacity first third).ordering.isLE = true
  ties :
    (compare capacity first second).ordering = .eq →
    (compare capacity second third).ordering = .eq →
    (compare capacity first third).ordering = .eq

/-- Work of unknown duration ties, rank for rank, with two pieces of work that are known to
take differently long.
-/
structure TiesAcross (capacity : HardwareResources) (first second third : ScheduledWork)
    : Prop where
  before : SameRank capacity first second
  after : SameRank capacity second third
  unknown : second.expectedDurationMs = none
  different : ∃ left right,
    remaining first = some left ∧ remaining third = some right ∧ left.place ≠ right.place

/-- The whole comparison, rank and duration. -/
def workCompare (capacity : HardwareResources) (left right : ScheduledWork) : Ordering :=
  (rankCompare capacity left right).then (durationCompare (remaining left) (remaining right))

theorem ordering_compare_eq {left right : ScheduledWork} (measured : Measured left)
    (measured' : Measured right)
    : (compare capacity left right).ordering = workCompare capacity left right := by
  rw [ordering_compare measured measured', ordering_remainingDifference measured measured']
  rfl

theorem rankCompare_swap (left right : ScheduledWork)
    : rankCompare capacity left right = (rankCompare capacity right left).swap := by
  unfold rankCompare
  exact Std.OrientedCmp.eq_swap

theorem isLE_then_iff {first second : Ordering}
    : (first.then second).isLE = true ↔ first = .lt ∨ first = .eq ∧ second.isLE = true := by
  cases first <;> simp

/-- Ranks that tie twice tie, and a rank passed on the way is passed. -/
theorem rankCompare_eq_of_eq {first second third : ScheduledWork}
    (before : rankCompare capacity first second = .eq)
    : rankCompare capacity first third = rankCompare capacity second third := by
  unfold rankCompare at *
  exact Std.TransCmp.congr_left before

theorem rankCompare_lt_of {first second third : ScheduledWork}
    (before : (rankCompare capacity first second).isLE = true)
    (after : (rankCompare capacity second third).isLE = true)
    (some_ : rankCompare capacity first second = .lt ∨ rankCompare capacity second third = .lt)
    : rankCompare capacity first third = .lt := by
  unfold rankCompare at *
  rcases some_ with less | less
  · exact Std.TransCmp.lt_of_lt_of_isLE less after
  · exact Std.TransCmp.lt_of_isLE_of_lt before less

/-- Where no work of unknown duration stands between, durations compare transitively. -/
theorem durationCompare_trans {first second third : ScheduledWork}
    (before : rankCompare capacity first second = .eq)
    (after : rankCompare capacity second third = .eq)
    (settled : ¬TiesAcross capacity first second third)
    : ((durationCompare (remaining first) (remaining second)).isLE = true →
        (durationCompare (remaining second) (remaining third)).isLE = true →
        (durationCompare (remaining first) (remaining third)).isLE = true)
      ∧ (durationCompare (remaining first) (remaining second) = .eq →
        durationCompare (remaining second) (remaining third) = .eq →
        durationCompare (remaining first) (remaining third) = .eq) := by
  cases known : remaining first with
  | none => exact ⟨fun _ _ => rfl, fun _ _ => rfl⟩
  | some left =>
      cases known' : remaining third with
      | none => exact ⟨fun _ _ => rfl, fun _ _ => rfl⟩
      | some right =>
          cases middle : remaining second with
          | some between =>
              rw [durationCompare_some, durationCompare_some, durationCompare_some]
              exact ⟨fun less less' => Std.TransCmp.isLE_trans less less',
                fun same same' => Std.TransCmp.eq_trans same same'⟩
          | none =>
              have same : left.place = right.place := by
                by_contra different
                exact settled ⟨rankCompare_eq_iff.mp before, rankCompare_eq_iff.mp after,
                  Option.map_eq_none_iff.mp middle, left, right, known, known', different⟩
              have equal : durationCompare (some left) (some right) = .eq := by
                rw [durationCompare_some, same]
                exact Std.ReflCmp.compare_self
              rw [equal]
              exact ⟨fun _ _ => rfl, fun _ _ => rfl⟩

theorem orderedAt_of_settled {first second third : ScheduledWork} (measured : Measured first)
    (measured' : Measured second) (measured'' : Measured third)
    (settled : ¬TiesAcross capacity first second third)
    : OrderedAt capacity first second third where
  antisymmetric := by
    rw [ordering_compare_eq measured measured', ordering_compare_eq measured' measured,
      workCompare, workCompare, Ordering.swap_then, ← rankCompare_swap, ← durationCompare_swap]
  transitive := by
    rw [ordering_compare_eq measured measured', ordering_compare_eq measured' measured'',
      ordering_compare_eq measured measured'']
    unfold workCompare
    rw [isLE_then_iff, isLE_then_iff, isLE_then_iff]
    intro before after
    have rankBefore : (rankCompare capacity first second).isLE = true := by
      rcases before with less | ⟨same, -⟩
      · rw [less]; rfl
      · rw [same]; rfl
    have rankAfter : (rankCompare capacity second third).isLE = true := by
      rcases after with less | ⟨same, -⟩
      · rw [less]; rfl
      · rw [same]; rfl
    rcases before with less | ⟨same, duration⟩
    · exact .inl (rankCompare_lt_of rankBefore rankAfter (.inl less))
    · rcases after with less | ⟨same', duration'⟩
      · exact .inl (rankCompare_lt_of rankBefore rankAfter (.inr less))
      · refine .inr ⟨(rankCompare_eq_of_eq same).trans same', ?_⟩
        exact (durationCompare_trans same same' settled).1 duration duration'
  ties := by
    rw [ordering_compare_eq measured measured', ordering_compare_eq measured' measured'',
      ordering_compare_eq measured measured'']
    unfold workCompare
    rw [Ordering.then_eq_eq, Ordering.then_eq_eq, Ordering.then_eq_eq]
    intro before after
    refine ⟨(rankCompare_eq_of_eq before.1).trans after.1, ?_⟩
    exact (durationCompare_trans before.1 after.1 settled).2 before.2 after.2

/-- A tie across unknown duration is no tie. -/
theorem not_orderedAt_of_tiesAcross {first second third : ScheduledWork} (measured : Measured first)
    (measured' : Measured second) (measured'' : Measured third)
    (across : TiesAcross capacity first second third)
    : ¬OrderedAt capacity first second third := by
  intro ordered
  obtain ⟨left, right, known, known', different⟩ := across.different
  have unknown : remaining second = none := Option.map_eq_none_iff.mpr across.unknown
  have before := rankCompare_eq_iff.mpr across.before
  have after := rankCompare_eq_iff.mpr across.after
  have tie := ordered.ties
  rw [ordering_compare_eq measured measured', ordering_compare_eq measured' measured'',
    ordering_compare_eq measured measured''] at tie
  unfold workCompare at tie
  rw [before, after, rankCompare_eq_of_eq before, after, known, known', unknown] at tie
  exact different (Std.compare_eq_iff_eq.mp (tie rfl rfl))

/-- The comparison of evaluated work is one of a total preorder exactly where no work of unknown
duration ties with two pieces of work of different known durations.
-/
theorem compare_totalPreorder_iff (capacity : HardwareResources)
    (first second third : List PredictionForecast)
    : OrderedAt capacity (evaluate first) (evaluate second) (evaluate third)
      ↔ ¬TiesAcross capacity (evaluate first) (evaluate second) (evaluate third) :=
  ⟨fun ordered across => not_orderedAt_of_tiesAcross (measured_evaluate first)
      (measured_evaluate second) (measured_evaluate third) across ordered,
    orderedAt_of_settled (measured_evaluate first) (measured_evaluate second)
      (measured_evaluate third)⟩

/-- Forecasts that differ in their duration only rank the same. -/
theorem sameRank_of_durations (capacity : HardwareResources) (forecast : PredictionForecast)
    (duration other : Option JsNumber)
    : SameRank capacity (evaluate [{ forecast with expectedDurationMs := duration }])
        (evaluate [{ forecast with expectedDurationMs := other }]) where
  actorDemand := rfl
  slack := rfl
  actorHint := rfl
  background := rfl
  batches := rfl
  confidence := rfl
  pressure := rfl

/-- Three forecasts, of one millisecond, of unknown duration and of two milliseconds: the first
two tie and the last two tie, but the first goes before the last.
-/
theorem compare_not_totalPreorder
    : ¬∀ (capacity : HardwareResources) (first second third : List PredictionForecast),
        OrderedAt capacity (evaluate first) (evaluate second) (evaluate third) := by
  intro ordered
  refine not_orderedAt_of_tiesAcross (measured_evaluate _) (measured_evaluate _)
    (measured_evaluate _) ⟨sameRank_of_durations _ {} _ _, sameRank_of_durations _ {} _ _, rfl, ?_⟩
    (ordered (fun _ => none) [{ expectedDurationMs := some (.ofRat 1) }] [{}]
      [{ expectedDurationMs := some (.ofRat 2) }])
  exact ⟨_, _, rfl, rfl, by decide +kernel⟩

end Preorder

end SpeculativeAction.Scheduler
