import Mathlib.Data.Fin.VecNotation
import SpeculativeAction.TaskTiming.Consumption

/-! The account of a call in closed form, and what holds of every settled call: no more time is
hidden than was calculated, no more is credited than was hidden, asking twice changes nothing,
and the order of the roots decides nothing.
-/

namespace SpeculativeAction.TaskTiming

open SpeculativeAction.Library
open MeasureTheory

variable {n : ℕ} {process : Process} {graph : Timeline n}

section Entries

/-- The group an entry is counted in: a class of identities and a clock. -/
def groupOf (process : Process) (graph : Timeline n) (groups : UnionFind Identity)
    (entry : Selected n)
    : Identity × Clock :=
  (groups.root (graph entry.computation).identity,
    computationClock process graph entry.computation)

/-- The calculation an entry contributes. -/
def calculation (process : Process) (graph : Timeline n) (entry : Selected n) : List Span :=
  ownIntervals process graph entry.computation

/-- An entry whose calculation cannot be placed against the call. -/
def unmeasured (process : Process) (graph : Timeline n) (issuedAt : Number) (entry : Selected n)
    : Bool :=
  decide (0 < (graph entry.computation).priorMs)
    || (!(calculation process graph entry).isEmpty
      && (cutoff process graph entry.computation issuedAt).isNone)

/-- The calculation of an entry on the clock of the call. -/
def observation (process : Process) (graph : Timeline n) (issuedAt : Number) (entry : Selected n)
    : List Span :=
  match finite? issuedAt, cutoff process graph entry.computation issuedAt with
  | some issued, some limit => (calculation process graph entry).map fun span => {
        startedAt := span.startedAt + issued - limit
        completedAt := span.completedAt + issued - limit
      }
  | _, _ => []

/-- The reused calculation of an entry before the call, with the mode that produced it. -/
def hiddenOf (process : Process) (graph : Timeline n) (issuedAt : Number) (entry : Selected n)
    : List (Span × Option ModeProducer) :=
  (match cutoff process graph entry.computation issuedAt with
    | some limit =>
        if entry.reused then beforeCutoff limit (calculation process graph entry) else []
    | none => []).map fun interval =>
      (interval, entry.producer.bind fun producer => producer.bind (·.withMode?))

variable {issuedAt : Number}

@[simp] theorem complete_enter (account : Account) (entry : Selected n)
    : (account.enter process graph issuedAt entry).complete
      = (account.complete && !(graph entry.computation).incomplete) := rfl

@[simp] theorem root_enter (account : Account) (entry : Selected n) (member : Identity)
    : (account.enter process graph issuedAt entry).groups.root member
      = account.groups.root member :=
  UnionFind.root_owner _ _ _

@[simp] theorem groupOf_enter (account : Account) (entry other : Selected n)
    : groupOf process graph (account.enter process graph issuedAt entry).groups other
      = groupOf process graph account.groups other := by
  unfold groupOf
  rw [root_enter]

theorem grouped_enter (account : Account) (entry : Selected n)
    : (account.enter process graph issuedAt entry).grouped
      = pushAll account.grouped (groupOf process graph account.groups entry)
          (calculation process graph entry) := rfl

theorem attributed_enter (account : Account) (entry : Selected n)
    : (account.enter process graph issuedAt entry).attributed
      = if entry.reused then
          pushAll account.attributed (groupOf process graph account.groups entry)
            (hiddenOf process graph issuedAt entry)
        else account.attributed := rfl

theorem priorMs_enter (account : Account) (entry : Selected n)
    : (account.enter process graph issuedAt entry).priorMs
      = account.priorMs + (graph entry.computation).priorMs := rfl

theorem adoptionComplete_enter (account : Account) (entry : Selected n)
    : (account.enter process graph issuedAt entry).adoptionComplete
      = (account.adoptionComplete && !unmeasured process graph issuedAt entry) := rfl

/-- While every entry can be placed, each adds what is observed of it. -/
theorem observed_enter {account : Account} {entry : Selected n}
    (complete : (account.enter process graph issuedAt entry).adoptionComplete = true)
    : (account.enter process graph issuedAt entry).observed
      = account.observed ++ observation process graph issuedAt entry := by
  unfold Account.enter at complete ⊢
  dsimp only at complete ⊢
  rw [complete, observation]
  cases finite? issuedAt with
  | none => rw [List.append_nil]
  | some issued =>
      cases cutoff process graph entry.computation issuedAt with
      | none => rw [List.append_nil]
      | some limit => rfl

variable (entries : List (Selected n)) (account : Account)

theorem complete_foldl_enter
    : (entries.foldl (Account.enter process graph issuedAt) account).complete
      = (account.complete && entries.all fun entry => !(graph entry.computation).incomplete) := by
  induction entries generalizing account with
  | nil => rw [List.foldl_nil, List.all_nil, Bool.and_true]
  | cons entry rest ih => rw [List.foldl_cons, ih, complete_enter, List.all_cons, Bool.and_assoc]

theorem grouped_foldl_enter
    : (entries.foldl (Account.enter process graph issuedAt) account).grouped
      = entries.foldl
          (fun map entry =>
            pushAll map (groupOf process graph account.groups entry)
              (calculation process graph entry))
          account.grouped := by
  induction entries generalizing account with
  | nil => rfl
  | cons entry rest ih =>
      rw [List.foldl_cons, List.foldl_cons, ih, grouped_enter]
      simp only [groupOf_enter]

theorem attributed_foldl_enter
    : (entries.foldl (Account.enter process graph issuedAt) account).attributed
      = (entries.filter (·.reused)).foldl
          (fun map entry =>
            pushAll map (groupOf process graph account.groups entry)
              (hiddenOf process graph issuedAt entry))
          account.attributed := by
  induction entries generalizing account with
  | nil => rfl
  | cons entry rest ih =>
      rw [List.foldl_cons, ih, attributed_enter]
      simp only [groupOf_enter]
      cases reused : entry.reused with
      | false => simp [reused]
      | true => simp [reused]

theorem priorMs_foldl_enter
    : (entries.foldl (Account.enter process graph issuedAt) account).priorMs
      = account.priorMs + (entries.map fun entry => (graph entry.computation).priorMs).sum := by
  induction entries generalizing account with
  | nil => simp
  | cons entry rest ih =>
      rw [List.foldl_cons, ih, priorMs_enter, List.map_cons, List.sum_cons, add_assoc]

theorem adoptionComplete_foldl_enter
    : (entries.foldl (Account.enter process graph issuedAt) account).adoptionComplete
      = (account.adoptionComplete
        && entries.all fun entry => !unmeasured process graph issuedAt entry) := by
  induction entries generalizing account with
  | nil => rw [List.foldl_nil, List.all_nil, Bool.and_true]
  | cons entry rest ih =>
      rw [List.foldl_cons, ih, adoptionComplete_enter, List.all_cons, Bool.and_assoc]

theorem observed_foldl_enter
    (complete
      : (entries.foldl (Account.enter process graph issuedAt) account).adoptionComplete = true)
    : (entries.foldl (Account.enter process graph issuedAt) account).observed
      = account.observed ++ entries.flatMap (observation process graph issuedAt) := by
  induction entries generalizing account with
  | nil => simp
  | cons entry rest ih =>
      rw [List.foldl_cons] at complete ⊢
      have first : (account.enter process graph issuedAt entry).adoptionComplete = true := by
        rw [adoptionComplete_foldl_enter] at complete
        exact (Bool.and_eq_true_iff.mp complete).1
      rw [ih _ complete, observed_enter first, List.append_assoc, List.flatMap_cons]

end Entries

section Lengths

variable {entry : Selected n} {issuedAt : Number} {span : Span × Option ModeProducer}

/-- What is left of an interval lasts as long whatever the order of the excluded parts. -/
theorem unionDuration_exclusiveIntervals_congr (call : Interval) {first second : List Span}
    (lasting : ∀ part ∈ first, part.startedAt ≤ part.completedAt)
    (alsoLasting : ∀ part ∈ second, part.startedAt ≤ part.completedAt)
    (same : ∀ part, part ∈ first ↔ part ∈ second)
    : unionDuration (exclusiveIntervals call.toSpan first)
      = unionDuration (exclusiveIntervals call.toSpan second) := by
  obtain ⟨left, proper⟩ := exclusiveIntervals_spec call.lasting lasting
  obtain ⟨alsoLeft, alsoProper⟩ := exclusiveIntervals_spec call.lasting alsoLasting
  rw [← Rat.cast_inj (α := ℝ),
    unionDuration_eq fun span member => call.nonneg.trans (proper span member).1,
    unionDuration_eq fun span member => call.nonneg.trans (alsoProper span member).1, left,
    alsoLeft, cover_congr same]

theorem sharedParts_lasting {computation : Fin n} {part : Span}
    (member : part ∈ sharedParts process graph computation)
    : part.startedAt ≤ part.completedAt :=
  (of_decide_eq_true (List.mem_filter.mp member).2).le

/-- Every interval of a calculation starts no earlier than zero and is not empty. -/
theorem calculation_proper {span : Span} (member : span ∈ calculation process graph entry)
    : 0 ≤ span.startedAt ∧ span.startedAt < span.completedAt := by
  obtain ⟨whole, -, inside⟩ := List.mem_flatMap.mp member
  obtain ⟨-, proper⟩ := exclusiveIntervals_spec whole.lasting fun part shared =>
    sharedParts_lasting shared
  obtain ⟨starts, ends⟩ := proper span inside
  exact ⟨whole.nonneg.trans starts, ends⟩

/-- What is hidden of an entry is part of its calculation. -/
theorem hiddenOf_within (member : span ∈ hiddenOf process graph issuedAt entry)
    : span.1.startedAt ≤ span.1.completedAt
      ∧ ∃ whole ∈ calculation process graph entry,
          whole.startedAt = span.1.startedAt ∧ span.1.completedAt ≤ whole.completedAt := by
  obtain ⟨interval, listed, rfl⟩ := List.mem_map.mp member
  split at listed
  · rename_i limit placed
    split at listed
    · obtain ⟨whole, before, rfl⟩ := List.mem_map.mp listed
      obtain ⟨inside, early⟩ := List.mem_filter.mp before
      refine ⟨le_min (calculation_proper inside).2.le (of_decide_eq_true early).le, whole, inside,
        rfl, min_le_left _ _⟩
    · cases listed
  · cases listed

theorem hiddenOf_nonneg (member : span ∈ hiddenOf process graph issuedAt entry)
    : 0 ≤ span.1.startedAt := by
  obtain ⟨-, whole, inside, starts, -⟩ := hiddenOf_within member
  exact starts ▸ (calculation_proper inside).1

theorem cover_hiddenOf_within {moment : ℝ}
    (inside : moment ∈ cover ((hiddenOf process graph issuedAt entry).map (·.1)))
    : moment ∈ cover (calculation process graph entry) := by
  obtain ⟨span, listed, covers⟩ := inside
  obtain ⟨pair, member, rfl⟩ := List.mem_map.mp listed
  obtain ⟨-, whole, inside, starts, ends⟩ := hiddenOf_within member
  have reach : (pair.1.completedAt : ℝ) ≤ whole.completedAt := by exact_mod_cast ends
  exact ⟨whole, inside, starts ▸ covers.1, covers.2.trans_le reach⟩

/-- The spans of a group can be swept: they last and start no earlier than zero. -/
def Sweepable (spans : List (Span × Option ModeProducer)) : Prop :=
  ∀ span ∈ spans, span.1.startedAt ≤ span.1.completedAt ∧ 0 ≤ span.1.startedAt

variable {groups : List (List (Span × Option ModeProducer))}

/-- The hidden time is the length of the union in each group, by induction over the groups. -/
theorem hiddenTotal_fst (sweepable : ∀ spans ∈ groups, Sweepable spans)
    : ((hiddenTotal groups).1 : ℝ)
      = (groups.map fun spans => volume.real (cover (spans.map (·.1)))).sum := by
  have from_ (start : ℚ × OrderedMap (String × String) ℚ)
      : ((groups.foldl
            (fun total spans =>
              let counted := attributeUnion producerKey credit spans total.2
              (total.1 + counted.1, counted.2))
            start).1 : ℝ)
        = start.1 + (groups.map fun spans => volume.real (cover (spans.map (·.1)))).sum := by
    induction groups generalizing start with
    | nil => simp
    | cons spans rest ih =>
        have own := sweepable spans List.mem_cons_self
        rw [List.foldl_cons, ih fun other member => sweepable other (List.mem_cons_of_mem _ member)]
        dsimp only
        push_cast
        rw [attributeUnion_total _ (fun span member => (own span member).1)
          fun span member => (own span member).2, List.map_cons, List.sum_cons, add_assoc]
  have total := from_ (0, .empty)
  rw [hiddenTotal, total]
  simp

/-- What a mode is credited. -/
def credited (modes : OrderedMap (String × String) ℚ) (mode : String × String) : ℚ :=
  (modes.get? mode).getD 0

theorem credited_credit (modes : OrderedMap (String × String) ℚ) (producer : ModeProducer)
    {duration : ℚ} (lasts : 0 < duration) (mode : String × String)
    : credited (credit modes producer duration) mode
      = credited modes mode + if producerKey producer = mode then duration else 0 := by
  unfold credited credit
  rw [if_neg (not_le_of_gt lasts), OrderedMap.get?_set]
  by_cases same : producerKey producer = mode
  · rw [if_pos same.symm, if_pos same, Option.getD_some, same]
  · rw [if_neg (Ne.symm same), if_neg same, add_zero]

/-- A mode is credited what it alone covers of each group. -/
theorem credited_hiddenTotal (sweepable : ∀ spans ∈ groups, Sweepable spans)
    (mode : String × String)
    : (credited (hiddenTotal groups).2 mode : ℝ)
      = (groups.map fun spans => volume.real (soleCover producerKey spans mode)).sum := by
  have from_ (start : ℚ × OrderedMap (String × String) ℚ)
      : (credited
            (groups.foldl
              (fun total spans =>
                let counted := attributeUnion producerKey credit spans total.2
                (total.1 + counted.1, counted.2))
              start).2 mode : ℝ)
        = credited start.2 mode
          + (groups.map fun spans => volume.real (soleCover producerKey spans mode)).sum := by
    induction groups generalizing start with
    | nil => simp
    | cons spans rest ih =>
        have own := sweepable spans List.mem_cons_self
        rw [List.foldl_cons, ih fun other member => sweepable other (List.mem_cons_of_mem _ member)]
        dsimp only
        rw [attributeUnion_credit (fun modes => credited modes mode) _
          (fun span member => (own span member).1) (fun span member => (own span member).2)
          fun modes producer _ lasts => credited_credit modes producer lasts mode,
          List.map_cons, List.sum_cons, add_assoc]
  have total := from_ (0, .empty)
  rw [hiddenTotal, total]
  simp [credited]

end Lengths

section Credits

/-- How much more was counted than credited. -/
def slack (state : Sweep ModeProducer (String × String) (OrderedMap (String × String) ℚ)) : ℚ :=
  state.total - state.modes.values.sum

theorem sum_values_credit (modes : OrderedMap (String × String) ℚ) (producer : ModeProducer)
    {duration : ℚ} (lasts : 0 < duration)
    : (credit modes producer duration).values.sum = modes.values.sum + duration := by
  unfold credit
  rw [if_neg (not_le_of_gt lasts), sum_values_add]

/-- Only counted time is credited. -/
theorem slack_advance (state : Sweep ModeProducer (String × String) (OrderedMap _ ℚ)) (moment : ℚ)
    : slack state ≤ slack (state.advance credit moment) := by
  unfold Sweep.advance
  split
  · rename_i later
    have lasts : 0 < moment - state.previous := sub_pos.mpr later
    unfold slack
    dsimp only
    by_cases counts : 0 < state.unknown ∨ state.active.keys ≠ []
    · rw [if_pos counts]
      split
      · split
        · rw [sum_values_credit _ _ lasts]
          linarith
        · linarith
      · linarith
    · -- with no producer open there is no one to credit
      have nobody : state.active.values = [] := by
        have empty : state.active.keys = [] := by
          by_contra some_
          exact counts (.inr some_)
        rw [OrderedMap.keys, List.map_eq_nil_iff] at empty
        rw [OrderedMap.values, empty, List.map_nil]
      rw [if_neg counts, nobody]
  · exact le_rfl

theorem slack_shift (state : Sweep ModeProducer (String × String) (OrderedMap _ ℚ))
    (point : Point ModeProducer)
    : slack (state.shift producerKey point) = slack state := by
  unfold Sweep.shift
  split <;> rfl

/-- A sweep credits no more than it counts. -/
theorem attributeUnion_slack (spans : List (Span × Option ModeProducer))
    (modes : OrderedMap (String × String) ℚ)
    : (attributeUnion producerKey credit spans modes).2.values.sum
      ≤ modes.values.sum + (attributeUnion producerKey credit spans modes).1 := by
  unfold attributeUnion
  dsimp only
  generalize (pointsOf spans).mergeSort _ = points
  have kept
      : slack { modes } ≤ slack (points.foldl (Sweep.step producerKey credit) { modes }) := by
    refine List.foldlRecOn (motive := fun later => slack { modes } ≤ slack later) _ _ le_rfl ?_
    intro state before point _
    rw [Sweep.step, slack_shift]
    exact before.trans (slack_advance state point.moment)
  unfold slack at kept
  linarith

/-- No more is credited than is hidden, by induction over the groups. -/
theorem sum_hiddenTotal_le (groups : List (List (Span × Option ModeProducer)))
    : (hiddenTotal groups).2.values.sum ≤ (hiddenTotal groups).1 := by
  refine List.foldlRecOn (motive := fun total : ℚ × OrderedMap (String × String) ℚ =>
    total.2.values.sum ≤ total.1) _ _ le_rfl ?_
  intro total before spans _
  dsimp only
  linarith [attributeUnion_slack spans total.2]

/-- Every credit is positive. -/
theorem credit_positive {modes : OrderedMap (String × String) ℚ}
    (positive : modes.Forall fun _ value => 0 < value) (producer : ModeProducer) (duration : ℚ)
    : (credit modes producer duration).Forall fun _ value => 0 < value := by
  unfold credit
  split
  · exact positive
  · rename_i lasts
    refine positive.set ?_
    have before : 0 ≤ (modes.get? (producerKey producer)).getD 0 := by
      cases stored : modes.get? (producerKey producer) with
      | none => exact le_rfl
      | some value => exact (positive _ value stored).le
    linarith

theorem advance_positive {state : Sweep ModeProducer (String × String) (OrderedMap _ ℚ)}
    (positive : state.modes.Forall fun _ value => 0 < value) (moment : ℚ)
    : (state.advance credit moment).modes.Forall fun _ value => 0 < value := by
  unfold Sweep.advance
  split
  · dsimp only
    split
    · split
      · exact credit_positive positive _ _
      · exact positive
    · exact positive
  · exact positive

theorem hiddenTotal_positive (groups : List (List (Span × Option ModeProducer)))
    : (hiddenTotal groups).2.Forall fun _ value => 0 < value := by
  refine List.foldlRecOn (motive := fun total : ℚ × OrderedMap (String × String) ℚ =>
    total.2.Forall fun _ value => 0 < value) _ _ .empty ?_
  intro total before spans _
  refine List.foldlRecOn
    (motive := fun state : Sweep ModeProducer (String × String) (OrderedMap _ ℚ) =>
      state.modes.Forall fun _ value => 0 < value) _ _ before ?_
  intro state positive point _
  have same
      : (Sweep.step producerKey credit state point).modes
        = (state.advance credit point.moment).modes := by
    unfold Sweep.step Sweep.shift
    split <;> rfl
  rw [same]
  exact advance_positive positive _

end Credits

section Account

variable {roots : List (TimelineDependency n)} {issuedAt : Number} {completedAt : Option Number}

theorem account_grouped
    : (account process graph roots issuedAt completedAt).grouped
      = collect (groupOf process graph (consumedComputations graph roots).groups)
          (calculation process graph) (consumedComputations graph roots).selected.values :=
  grouped_foldl_enter _ _

theorem account_attributed
    : (account process graph roots issuedAt completedAt).attributed
      = collect (groupOf process graph (consumedComputations graph roots).groups)
          (hiddenOf process graph issuedAt)
          ((consumedComputations graph roots).selected.values.filter (·.reused)) :=
  attributed_foldl_enter _ _

theorem account_priorMs
    : (account process graph roots issuedAt completedAt).priorMs
      = ((consumedComputations graph roots).selected.values.map fun entry =>
          (graph entry.computation).priorMs).sum :=
  (priorMs_foldl_enter _ _).trans (zero_add _)

theorem account_complete
    : (account process graph roots issuedAt completedAt).complete
      = ((consumedComputations graph roots).complete
        && (consumedComputations graph roots).selected.values.all fun entry =>
            !(graph entry.computation).incomplete) :=
  complete_foldl_enter _ _

theorem account_adoptionComplete
    : (account process graph roots issuedAt completedAt).adoptionComplete
      = (adoptable issuedAt completedAt
        && (consumedComputations graph roots).selected.values.all fun entry =>
            !unmeasured process graph issuedAt entry) :=
  adoptionComplete_foldl_enter _ _

theorem account_observed
    (complete : (account process graph roots issuedAt completedAt).adoptionComplete = true)
    : (account process graph roots issuedAt completedAt).observed
      = (consumedComputations graph roots).selected.values.flatMap
          (observation process graph issuedAt) :=
  observed_foldl_enter _ _ complete

theorem observation_lasting {entry : Selected n} {span : Span}
    (member : span ∈ observation process graph issuedAt entry)
    : span.startedAt ≤ span.completedAt := by
  unfold observation at member
  split at member
  · obtain ⟨whole, inside, rfl⟩ := List.mem_map.mp member
    dsimp only
    linarith [(calculation_proper inside).2]
  · cases member

/-- Calculation of an earlier process is never negative. -/
theorem account_priorMs_nonneg
    : 0 ≤ (account process graph roots issuedAt completedAt).priorMs := by
  rw [account_priorMs]
  refine List.sum_nonneg fun prior member => ?_
  obtain ⟨entry, -, rfl⟩ := List.mem_map.mp member
  exact (graph entry.computation).prior_nonneg

theorem attributed_sweepable
    : ∀ spans ∈ (account process graph roots issuedAt completedAt).attributed.values,
        Sweepable spans := by
  rw [account_attributed]
  intro spans member span listed
  obtain ⟨key, rfl⟩ := mem_values_collect member
  obtain ⟨entry, -, -, hidden⟩ := mem_labelled.mp listed
  exact ⟨(hiddenOf_within hidden).1, hiddenOf_nonneg hidden⟩

/-- The calculation counted is the length of the union in each group. -/
theorem sum_unionDuration
    : (((account process graph roots issuedAt completedAt).grouped.values.map
          unionDuration).sum : ℝ)
      = ((account process graph roots issuedAt completedAt).grouped.values.map fun spans =>
          volume.real (cover spans)).sum := by
  rw [Rat.cast_list_sum, List.map_map]
  refine congrArg List.sum (List.map_congr_left fun spans member => ?_)
  refine unionDuration_eq fun span listed => ?_
  rw [account_grouped] at member
  obtain ⟨key, rfl⟩ := mem_values_collect member
  obtain ⟨entry, -, -, inside⟩ := mem_labelled.mp listed
  exact (calculation_proper inside).1

/-- No more is hidden than was calculated. -/
theorem hidden_le_calculated
    : (hiddenTotal (account process graph roots issuedAt completedAt).attributed.values).1
      ≤ (account process graph roots issuedAt completedAt).priorMs
        + ((account process graph roots issuedAt completedAt).grouped.values.map
            unionDuration).sum := by
  have within
      : (hiddenTotal (account process graph roots issuedAt completedAt).attributed.values).1
        ≤ ((account process graph roots issuedAt completedAt).grouped.values.map
            unionDuration).sum := by
    rw [← Rat.cast_le (K := ℝ), hiddenTotal_fst attributed_sweepable, sum_unionDuration,
      account_attributed, account_grouped]
    refine sum_values_collect_le (fun entry member => (List.mem_filter.mp member).1)
      (fun key => volume_cover_mono fun moment inside => ?_) fun spans => measureReal_nonneg
    obtain ⟨span, listed, covers⟩ := inside
    obtain ⟨pair, member, rfl⟩ := List.mem_map.mp listed
    obtain ⟨entry, selected, labelled_, hidden⟩ := mem_labelled.mp member
    obtain ⟨whole, inside, covers⟩ :=
      cover_hiddenOf_within ⟨pair.1, List.mem_map_of_mem hidden, covers⟩
    exact ⟨whole, mem_labelled.mpr ⟨entry, (List.mem_filter.mp selected).1, labelled_, inside⟩,
      covers⟩
  have prior : 0 ≤ (account process graph roots issuedAt completedAt).priorMs :=
    account_priorMs_nonneg
  linarith

end Account

section Order

variable {roots other : List (TimelineDependency n)}

theorem SameConsumption.values_perm {first second : Consumed n}
    (same : SameConsumption first second)
    : first.selected.values.Perm second.selected.values :=
  (OrderedMap.entries_perm_of_get? same.selected).map _

theorem SameConsumption.groupOf_iff {first second : Consumed n}
    (same : SameConsumption first second) (left right : Selected n)
    : groupOf process graph first.groups left = groupOf process graph first.groups right
      ↔ groupOf process graph second.groups left = groupOf process graph second.groups right := by
  unfold groupOf
  rw [Prod.mk.injEq, Prod.mk.injEq, same.groups]

variable {issuedAt : Number} {completedAt : Option Number}
  (same : SameConsumption (consumedComputations graph roots) (consumedComputations graph other))
include same

theorem account_complete_congr
    : (account process graph roots issuedAt completedAt).complete
      = (account process graph other issuedAt completedAt).complete := by
  rw [account_complete, account_complete, same.complete, same.values_perm.all_eq]

theorem calculated_congr
    : (account process graph roots issuedAt completedAt).priorMs
        + ((account process graph roots issuedAt completedAt).grouped.values.map
            unionDuration).sum
      = (account process graph other issuedAt completedAt).priorMs
        + ((account process graph other issuedAt completedAt).grouped.values.map
            unionDuration).sum := by
  have prior
      : (account process graph roots issuedAt completedAt).priorMs
        = (account process graph other issuedAt completedAt).priorMs := by
    rw [account_priorMs, account_priorMs]
    exact (same.values_perm.map _).sum_eq
  have unions
      : ((account process graph roots issuedAt completedAt).grouped.values.map unionDuration).sum
        = ((account process graph other issuedAt completedAt).grouped.values.map
            unionDuration).sum := by
    rw [← Rat.cast_inj (α := ℝ), sum_unionDuration, sum_unionDuration, account_grouped,
      account_grouped]
    refine sum_values_collect_congr (fun first second members => ?_)
      (fun entry => same.values_perm.mem_iff) fun left _ right _ => same.groupOf_iff left right
    rw [cover_congr members]
  rw [prior, unions]

theorem hidden_congr
    : (hiddenTotal (account process graph roots issuedAt completedAt).attributed.values).1
      = (hiddenTotal
          (account process graph other issuedAt completedAt).attributed.values).1 := by
  rw [← Rat.cast_inj (α := ℝ), hiddenTotal_fst attributed_sweepable,
    hiddenTotal_fst attributed_sweepable, account_attributed, account_attributed]
  refine sum_values_collect_congr (fun first second members => ?_)
    (fun entry => (same.values_perm.filter _).mem_iff) fun left _ right _ =>
      same.groupOf_iff left right
  have mapped (span : Span) : span ∈ first.map (·.1) ↔ span ∈ second.map (·.1) := by
    simp only [List.mem_map, members]
  rw [cover_congr mapped]

theorem credited_congr (mode : String × String)
    : credited (hiddenTotal
          (account process graph roots issuedAt completedAt).attributed.values).2 mode
      = credited (hiddenTotal
          (account process graph other issuedAt completedAt).attributed.values).2 mode := by
  rw [← Rat.cast_inj (α := ℝ), credited_hiddenTotal attributed_sweepable,
    credited_hiddenTotal attributed_sweepable, account_attributed, account_attributed]
  refine sum_values_collect_congr (fun first second members => ?_)
    (fun entry => (same.values_perm.filter _).mem_iff) fun left _ right _ =>
      same.groupOf_iff left right
  rw [soleCover_congr members]

theorem adoptionComplete_congr
    : (account process graph roots issuedAt completedAt).adoptionComplete
      = (account process graph other issuedAt completedAt).adoptionComplete := by
  rw [account_adoptionComplete, account_adoptionComplete, same.values_perm.all_eq]

/-- What the call waited outside the calculation it observed. -/
theorem waited_congr
    (complete : (account process graph roots issuedAt completedAt).adoptionComplete = true)
    (call : Interval)
    : unionDuration
          (exclusiveIntervals call.toSpan
            (account process graph roots issuedAt completedAt).observed)
      = unionDuration
          (exclusiveIntervals call.toSpan
            (account process graph other issuedAt completedAt).observed) := by
  rw [account_observed complete, account_observed (adoptionComplete_congr same ▸ complete)]
  refine unionDuration_exclusiveIntervals_congr call ?_ ?_ fun span => ?_
  · intro part member
    obtain ⟨entry, -, inside⟩ := List.mem_flatMap.mp member
    exact observation_lasting inside
  · intro part member
    obtain ⟨entry, -, inside⟩ := List.mem_flatMap.mp member
    exact observation_lasting inside
  · simp only [List.mem_flatMap, same.values_perm.mem_iff]

/-- The modes are credited the same, in some order. -/
theorem modes_perm
    : (hiddenTotal
          (account process graph roots issuedAt completedAt).attributed.values).2.entries.Perm
        (hiddenTotal
          (account process graph other issuedAt completedAt).attributed.values).2.entries := by
  refine OrderedMap.entries_perm_of_get? fun mode => ?_
  have equal
      : credited (hiddenTotal
            (account process graph roots issuedAt completedAt).attributed.values).2 mode
        = credited (hiddenTotal
            (account process graph other issuedAt completedAt).attributed.values).2 mode :=
    credited_congr same mode
  have positive := hiddenTotal_positive
    (account process graph roots issuedAt completedAt).attributed.values
  have alsoPositive := hiddenTotal_positive
    (account process graph other issuedAt completedAt).attributed.values
  unfold credited at equal
  -- a mode is listed exactly when its credit is not zero
  cases first : (hiddenTotal
      (account process graph roots issuedAt completedAt).attributed.values).2.get? mode with
  | none =>
      cases second : (hiddenTotal
          (account process graph other issuedAt completedAt).attributed.values).2.get? mode with
      | none => rfl
      | some value =>
          rw [first, second] at equal
          exact absurd equal (alsoPositive mode value second).ne
  | some value =>
      cases second : (hiddenTotal
          (account process graph other issuedAt completedAt).attributed.values).2.get? mode with
      | none =>
          rw [first, second] at equal
          exact absurd equal (positive mode value first).ne'
      | some again =>
          rw [first, second] at equal
          exact congrArg some equal

end Order

section Call

variable {roots : List (TimelineDependency n)} {timeline : TaskTimeline} {issuedAt : Number}
  {completedAt : Option Number}

theorem recordCall_toolComputeMs
    : (recordCall process graph timeline roots issuedAt completedAt).2.toolComputeMs
      = if (account process graph roots issuedAt completedAt).complete then
          some ((account process graph roots issuedAt completedAt).priorMs
            + ((account process graph roots issuedAt completedAt).grouped.values.map
                unionDuration).sum)
        else none := rfl

theorem recordCall_adoptionWaitMs
    : (recordCall process graph timeline roots issuedAt completedAt).2.adoptionWaitMs
      = if (account process graph roots issuedAt completedAt).complete
            && (account process graph roots issuedAt completedAt).adoptionComplete then
          completedAt.map fun completedAt =>
            unionDuration (exclusiveIntervals (Interval.new issuedAt completedAt).toSpan
              (account process graph roots issuedAt (some completedAt)).observed)
        else none := by
  unfold recordCall
  dsimp only
  split
  · cases completedAt <;> rfl
  · rfl

theorem recordCall_hiddenByMode
    : (recordCall process graph timeline roots issuedAt completedAt).2.hiddenByMode
      = (hiddenTotal
          (account process graph roots issuedAt completedAt).attributed.values).2.entries.map
          fun entry => { source := entry.1.1, mode := entry.1.2, hiddenComputeMs := entry.2 } :=
  rfl

/-- The credits of a call add up to no more than it hid. -/
theorem sum_hiddenByMode_le
    : ((recordCall process graph timeline roots issuedAt completedAt).2.hiddenByMode.map
          (·.hiddenComputeMs)).sum
      ≤ (recordCall process graph timeline roots issuedAt completedAt).2.hiddenComputeMs := by
  rw [recordCall_hiddenByMode, List.map_map]
  exact sum_hiddenTotal_le _

theorem hiddenComputeMs_le {tool : ℚ}
    (measured
      : (recordCall process graph timeline roots issuedAt completedAt).2.toolComputeMs = some tool)
    : (recordCall process graph timeline roots issuedAt completedAt).2.hiddenComputeMs ≤ tool := by
  rw [recordCall_toolComputeMs] at measured
  split at measured
  · rw [← Option.some.inj measured]
    exact hidden_le_calculated
  · cases measured

/-- Asking for a root again changes nothing, neither in the result nor in the timeline. -/
theorem recordCall_again (before : List (TimelineDependency n)) (root : TimelineDependency n)
    (middle after : List (TimelineDependency n))
    : recordCall process graph timeline (before ++ root :: middle ++ root :: after) issuedAt
        completedAt
      = recordCall process graph timeline (before ++ root :: middle ++ after) issuedAt
          completedAt := by
  unfold recordCall account
  rw [consumedComputations_again]

/-- The measured components of two calls that consumed the same. -/
theorem recordCall_congr {other : List (TimelineDependency n)}
    (same : SameConsumption (consumedComputations graph roots) (consumedComputations graph other))
    : let timing := (recordCall process graph timeline roots issuedAt completedAt).2
      let again := (recordCall process graph timeline other issuedAt completedAt).2
      again.toolComputeMs = timing.toolComputeMs
      ∧ again.hiddenComputeMs = timing.hiddenComputeMs
      ∧ again.adoptionWaitMs = timing.adoptionWaitMs
      ∧ again.hiddenByMode.Perm timing.hiddenByMode := by
  dsimp only
  refine ⟨?_, (hidden_congr same).symm, ?_, ((modes_perm same).map _).symm⟩
  · rw [recordCall_toolComputeMs, recordCall_toolComputeMs, account_complete_congr same,
      calculated_congr same]
  · rw [recordCall_adoptionWaitMs, recordCall_adoptionWaitMs, account_complete_congr same,
      adoptionComplete_congr same]
    split
    · rename_i complete
      rw [Bool.and_eq_true] at complete
      cases completedAt with
      | none => rfl
      | some completedAt =>
          have measured := complete.2
          rw [← adoptionComplete_congr same] at measured
          exact congrArg some (waited_congr same measured _).symm
    · rfl

/-- The accounting of every call is sound. Calculation bounds what is hidden of it and the
hidden time bounds the credits; asking for a root again changes nothing; and as long as no two
consumed computations are known by one identity, the order of the roots decides nothing.
-/
theorem recordCall_accounting (process : Process) (graph : Timeline n) (timeline : TaskTimeline)
    (roots : List (TimelineDependency n)) (issuedAt : ℚ) (completedAt : Option Number)
    : let timing := (recordCall process graph timeline roots (.finite issuedAt) completedAt).2
      (∀ tool, timing.toolComputeMs = some tool → timing.hiddenComputeMs ≤ tool)
      ∧ (timing.hiddenByMode.map (·.hiddenComputeMs)).sum ≤ timing.hiddenComputeMs
      ∧ (∀ before root middle after, roots = before ++ root :: middle ++ after →
          recordCall process graph timeline (before ++ root :: middle ++ root :: after)
              (.finite issuedAt) completedAt
            = recordCall process graph timeline roots (.finite issuedAt) completedAt)
      ∧ (Distinct graph (consumedComputations graph roots).visited →
          ∀ permuted, roots.Perm permuted →
            let again :=
              (recordCall process graph timeline permuted (.finite issuedAt) completedAt).2
            again.toolComputeMs = timing.toolComputeMs
            ∧ again.hiddenComputeMs = timing.hiddenComputeMs
            ∧ again.adoptionWaitMs = timing.adoptionWaitMs
            ∧ again.hiddenByMode.Perm timing.hiddenByMode) := by
  dsimp only
  refine ⟨fun tool measured => hiddenComputeMs_le measured, sum_hiddenByMode_le, ?_, ?_⟩
  · intro before root middle after parts
    rw [recordCall_again, parts]
  · intro distinct permuted same
    exact recordCall_congr (consumedComputations_congr (fun root => same.mem_iff) distinct)

def sampleProcess : Process where
  identityNamespace := "process"
  timeOrigin := 0

/-- A calculation that reused another one. -/
def sampleTimeline : Timeline 2 := ![
  {
    startedAt := 0
    completedAt := 4
    nonneg := le_rfl
    lasting := by decide +kernel
    producer := some { source := "plan", mode := some "ahead" }
    identity := "parse"
    prior_nonneg := le_rfl
  },
  {
    startedAt := 4
    completedAt := 6
    nonneg := by decide +kernel
    lasting := by decide +kernel
    inputs := [{ computation := 0, reused := true }]
    identity := "check"
    prior_nonneg := le_rfl
  }
]

def sampleRoots : List (TimelineDependency 2) := [{ computation := 1 }, { computation := 0 }]

theorem sampleTimeline_distinct
    : Distinct sampleTimeline (consumedComputations sampleTimeline sampleRoots).visited := by
  have named
      : ∀ left right : Fin 2,
          (sampleTimeline left).identity = (sampleTimeline right).identity → left = right := by
    decide
  exact fun left right _ _ same => named left.1 right.1 same

theorem sampleTimeline_complete
    : (account sampleProcess sampleTimeline sampleRoots (.finite 5) (some (.finite 6))).complete
      = true := by
  have consumed : (consumedComputations sampleTimeline sampleRoots).complete = true := by
    simp [consumedComputations, consume, Pending.visit, Pending.reused, inputsOf, sampleRoots,
      sampleTimeline, Consumed.examine, Consumed.select]
  have measured : ∀ computation : Fin 2, (!(sampleTimeline computation).incomplete) = true := by
    decide
  rw [account_complete, consumed, Bool.true_and, List.all_eq_true]
  exact fun entry _ => measured entry.computation

/-- The accounting of one call: it is measured, its first root may be asked for again at the
end, and its roots may be exchanged.
-/
theorem recordCall_accounting_sample
    : let call := fun roots =>
        recordCall sampleProcess sampleTimeline {} roots (.finite 5) (some (.finite 6))
      (∃ tool, (call sampleRoots).2.toolComputeMs = some tool
        ∧ (call sampleRoots).2.hiddenComputeMs ≤ tool)
      ∧ call [{ computation := 1 }, { computation := 0 }, { computation := 1 }]
        = call sampleRoots
      ∧ (call sampleRoots.reverse).2.toolComputeMs = (call sampleRoots).2.toolComputeMs := by
  obtain ⟨bounded, -, again, permuted⟩ := recordCall_accounting sampleProcess sampleTimeline {}
    sampleRoots 5 (some (.finite 6))
  dsimp only
  refine ⟨?_, again [] { computation := 1 } [{ computation := 0 }] [] rfl,
    (permuted sampleTimeline_distinct _ sampleRoots.reverse_perm.symm).1⟩
  have measured
      : (recordCall sampleProcess sampleTimeline {} sampleRoots (.finite 5)
            (some (.finite 6))).2.toolComputeMs
        = some _ :=
    recordCall_toolComputeMs.trans (if_pos sampleTimeline_complete)
  exact ⟨_, measured, bounded _ measured⟩

end Call

end SpeculativeAction.TaskTiming
