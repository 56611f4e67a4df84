import Mathlib.Algebra.BigOperators.Group.List.Lemmas
import Mathlib.Algebra.Order.BigOperators.Group.List
import SpeculativeAction.PatternBindings.Model

/-! The expansion of bindings keeps exactly the most probable inputs: cutting off a row beforehand
changes nothing, and what is kept of each unit is all that the whole product needs.
-/

namespace SpeculativeAction.PatternBindings

open SpeculativeAction.Library

-- Numbers, the greatest first

section Numbers

/-- The greater number first. -/
def descending (left right : ℚ) : Bool := decide (right ≤ left)

theorem descending_trans (a b c : ℚ) (first : descending a b = true) (second : descending b c = true)
    : descending a c = true :=
  decide_eq_true ((of_decide_eq_true second).trans (of_decide_eq_true first))

theorem descending_total (a b : ℚ) : (descending a b || descending b a) = true := by
  rw [descending, descending, Bool.or_eq_true, decide_eq_true_iff, decide_eq_true_iff]
  exact le_total b a

theorem descending_antisymm {a b : ℚ} (first : descending a b = true)
    (second : descending b a = true)
    : a = b :=
  le_antisymm (of_decide_eq_true second) (of_decide_eq_true first)

theorem rank_trans (a b c : RankedVariant) (first : rank a b = true) (second : rank b c = true)
    : rank a c = true :=
  descending_trans _ _ _ first second

theorem rank_total (a b : RankedVariant) : (rank a b || rank b a) = true := descending_total _ _

variable {bound : Option ℕ} {left right : List ℚ}

/-- Numbers are sorted the same way in whatever order they come. -/
theorem firstSorted_perm (same : left.Perm right)
    : firstSorted bound descending left = firstSorted bound descending right := by
  rw [firstSorted, firstSorted, mergeSort_eq_of_perm descending_trans descending_total same
    fun a _ b _ => descending_antisymm]

/-- The products of two lists of factors. -/
def products (left right : List ℚ) : List ℚ := left.flatMap fun factor => right.map (factor * ·)

theorem products_perm_comm (left right : List ℚ)
    : (products left right).Perm (right.flatMap fun factor => left.map (· * factor)) := by
  induction left with
  | nil =>
      have nothing : (right.flatMap fun factor => ([] : List ℚ).map (· * factor)) = [] :=
        List.flatMap_eq_nil_iff.mpr fun _ _ => rfl
      rw [nothing]
      exact .refl _
  | cons factor rest ih =>
      have step : products (factor :: rest) right
          = right.map (factor * ·) ++ products rest right := List.flatMap_cons
      rw [step]
      exact (ih.append_left _).trans
        (List.map_append_flatMap_perm right (factor * ·) fun other => rest.map (· * other))

/-- Greatest numbers stay the greatest when all are multiplied alike. -/
theorem firstSorted_map_mul {factor : ℚ} (nonneg : 0 ≤ factor) (list : List ℚ)
    : firstSorted bound descending (list.map (· * factor))
      = (firstSorted bound descending list).map (· * factor) := by
  have sorted : ((list.mergeSort descending).map (· * factor)).Pairwise
      fun a b => descending a b = true := by
    refine List.Pairwise.map _ ?_ (List.pairwise_mergeSort descending_trans descending_total list)
    intro a b order
    exact decide_eq_true (mul_le_mul_of_nonneg_right (of_decide_eq_true order) nonneg)
  have same : (list.map (· * factor)).Perm ((list.mergeSort descending).map (· * factor)) :=
    (List.mergeSort_perm list descending).symm.map _
  rw [firstSorted_perm same, firstSorted_of_pairwise sorted, takeUpTo_map]
  rfl

/-- The greatest products need only the greatest factors. -/
theorem firstSorted_products (nonneg : ∀ factor ∈ right, 0 ≤ factor)
    : firstSorted bound descending (products (firstSorted bound descending left) right)
      = firstSorted bound descending (products left right) := by
  rw [firstSorted_perm (products_perm_comm _ right), firstSorted_perm (products_perm_comm left right)]
  refine firstSorted_flatMap descending_trans descending_total fun factor member => ?_
  rw [firstSorted_map_mul (nonneg factor member), firstSorted_map_mul (nonneg factor member),
    firstSorted_idem descending_trans descending_total]

theorem sum_products (left right : List ℚ) : (products left right).sum = left.sum * right.sum := by
  induction left with
  | nil => rw [products, List.flatMap_nil, List.sum_nil, zero_mul]
  | cons factor rest ih =>
      have step : products (factor :: rest) right
          = right.map (factor * ·) ++ products rest right := List.flatMap_cons
      rw [step, List.sum_append, ih, List.sum_map_mul_left, List.map_id', List.sum_cons, add_mul]

theorem nonneg_products (nonnegLeft : ∀ factor ∈ left, 0 ≤ factor)
    (nonnegRight : ∀ factor ∈ right, 0 ≤ factor)
    : ∀ product ∈ products left right, 0 ≤ product := by
  intro product member
  obtain ⟨first, inLeft, inside⟩ := List.mem_flatMap.mp member
  obtain ⟨second, inRight, rfl⟩ := List.mem_map.mp inside
  exact mul_nonneg (nonnegLeft first inLeft) (nonnegRight second inRight)

/-- The greatest of some shares are no more than all of them. -/
theorem sum_firstSorted_le (nonneg : ∀ share ∈ left, 0 ≤ share)
    : (firstSorted bound descending left).sum ≤ left.sum := by
  have same := List.mergeSort_perm left descending
  calc (firstSorted bound descending left).sum
      ≤ (left.mergeSort descending).sum :=
        (takeUpTo_sublist bound _).sum_le_sum fun share member =>
          nonneg share (same.mem_iff.mp member)
    _ = left.sum := same.sum_eq

end Numbers

-- Units

section Units

variable {unit : BindingUnit} {limit : Number}

theorem length_probabilities (unit : BindingUnit)
    : unit.probabilities.length = unit.values.length := by
  rw [BindingUnit.probabilities]
  split
  · rw [List.length_map, List.length_zipIdx]
  · rw [List.length_map]

/-- Counts are no negative numbers. -/
def BindingUnit.Counted (unit : BindingUnit) : Prop :=
  ∀ counts, unit.counts = some counts → ∀ count ∈ counts, 0 ≤ count

theorem getD_nonneg {counts : List ℚ} (nonneg : ∀ count ∈ counts, 0 ≤ count) (index : ℕ)
    : 0 ≤ counts.getD index 0 := by
  rw [List.getD_eq_getElem?_getD]
  cases found : counts[index]? with
  | none => exact le_rfl
  | some count => exact nonneg count (List.mem_of_getElem? found)

theorem sum_counts_add (unit : BindingUnit) (counts : List ℚ)
    : (unit.values.zipIdx.map fun value => counts.getD value.2 0 + smoothing).sum
      = (unit.values.zipIdx.map fun value => counts.getD value.2 0).sum
        + smoothing * unit.values.length := by
  rw [List.sum_map_add, List.map_const', List.sum_replicate, List.length_zipIdx, nsmul_eq_mul,
    mul_comm (smoothing)]

theorem denominator_pos {counts : List ℚ} (nonneg : ∀ count ∈ counts, 0 ≤ count)
    (some_ : unit.values ≠ [])
    : 0 < (unit.values.zipIdx.map fun value => counts.getD value.2 0).sum
        + smoothing * unit.values.length := by
  refine add_pos_of_nonneg_of_pos (List.sum_nonneg fun count member => ?_) ?_
  · obtain ⟨value, _, rfl⟩ := List.mem_map.mp member
    exact getD_nonneg nonneg value.2
  · exact mul_pos (by norm_num [smoothing])
      (Nat.cast_pos.mpr (List.length_pos_iff.mpr some_))

theorem BindingUnit.Counted.probabilities_nonneg (counted : unit.Counted)
    : ∀ probability ∈ unit.probabilities, 0 ≤ probability := by
  intro probability member
  rw [BindingUnit.probabilities] at member
  split at member
  · next counts found =>
      have nonneg := counted counts found
      obtain ⟨value, inside, rfl⟩ := List.mem_map.mp member
      have some_ : unit.values ≠ [] := by
        intro empty_
        rw [empty_] at inside
        cases inside
      exact div_nonneg (add_nonneg (getD_nonneg nonneg _) (by norm_num [smoothing]))
        (denominator_pos nonneg some_).le
  · obtain ⟨value, _, rfl⟩ := List.mem_map.mp member
    exact div_nonneg zero_le_one (Nat.cast_nonneg _)

/-- The values of a unit share one. -/
theorem BindingUnit.Counted.sum_probabilities (counted : unit.Counted) (some_ : unit.values ≠ [])
    : unit.probabilities.sum = 1 := by
  rw [BindingUnit.probabilities]
  split
  · next counts found =>
      have positive := denominator_pos (counted counts found) some_
      simp only [div_eq_mul_inv]
      rw [List.sum_map_mul_right, sum_counts_add, mul_inv_cancel₀ positive.ne']
  · rw [List.map_const', List.sum_replicate, nsmul_eq_mul, mul_one_div,
      div_self (Nat.cast_ne_zero.mpr (List.length_pos_iff.mpr some_).ne')]

/-- Every variant by every value, ranked and cut off once. -/
def BindingUnit.chooseWhole (bound : Option ℕ) (unit : BindingUnit)
    (variants : List WeightedInput) : List WeightedInput :=
  (takeUpTo bound ((variants.flatMap unit.expand).mergeSort rank)).map unit.complete

/-- A limit of at least one, as the number of variants that it retains. -/
inductive Retains : Number → Option ℕ → Prop where
  | finite {limit : ℚ} (positive : 1 ≤ limit) : Retains (.finite limit) (some ⌊limit⌋.toNat)
  | unlimited : Retains (.infinite false) none

theorem Retains.retainedCount {bound : Option ℕ} (retains : Retains limit bound) (total : ℕ)
    : retainedCount limit total = bound := by
  cases retains with
  | unlimited => rfl
  | finite positive =>
      have whole : (1 : ℤ) ≤ ⌊_⌋ := Int.le_floor.mpr (by exact_mod_cast positive)
      rw [PatternBindings.retainedCount, if_neg (not_lt.mpr (zero_le_one.trans positive)),
        if_neg (by omega)]

/-- What is cut off a row would be cut off afterwards. -/
theorem firstSorted_pruneRow (bound : Option ℕ) (expanded : List RankedVariant)
    : firstSorted bound rank (pruneRow bound expanded) = firstSorted bound rank expanded := by
  cases bound with
  | none => rfl
  | some count =>
      rw [pruneRow]
      split
      · rfl
      · exact firstSorted_idem rank_trans rank_total expanded

theorem choose_eq {bound : Option ℕ} (retains : Retains limit bound) (unit : BindingUnit)
    (variants : List WeightedInput)
    : unit.choose limit variants = unit.chooseWhole bound variants := by
  rw [BindingUnit.choose, BindingUnit.chooseWhole]
  simp only [retains.retainedCount]
  exact congrArg (List.map unit.complete)
    (firstSorted_flatMap rank_trans rank_total fun variant _ =>
      firstSorted_pruneRow bound (unit.expand variant))

theorem probabilities_expand (unit : BindingUnit) (variants : List WeightedInput)
    : (variants.flatMap unit.expand).map RankedVariant.probability
      = products (variants.map WeightedInput.probability) unit.probabilities := by
  rw [products, List.map_flatMap, List.flatMap_map]
  refine List.flatMap_congr fun variant _ => ?_
  rw [BindingUnit.expand, List.map_map]
  have zipped : (unit.values.zip unit.probabilities).map Prod.snd = unit.probabilities :=
    List.map_snd_zip (length_probabilities unit).le
  conv_rhs => rw [← zipped, List.map_map]
  rfl

/-- The chosen probabilities are the greatest products. -/
theorem probabilities_chooseWhole (bound : Option ℕ) (unit : BindingUnit)
    (variants : List WeightedInput)
    : (unit.chooseWhole bound variants).map WeightedInput.probability
      = firstSorted bound descending
        (products (variants.map WeightedInput.probability) unit.probabilities) := by
  have sorted : ((variants.flatMap unit.expand).mergeSort rank).map RankedVariant.probability
      = ((variants.flatMap unit.expand).map RankedVariant.probability).mergeSort descending :=
    List.map_mergeSort fun _ _ _ _ => rfl
  rw [BindingUnit.chooseWhole, List.map_map, firstSorted, ← probabilities_expand, ← sorted,
    takeUpTo_map]
  rfl

end Units

-- All units

section Runs

variable {limit : Number} {bound : Option ℕ} {units : List BindingUnit}
  {variants : List WeightedInput}

/-- The expansion without the cut within a row. -/
def applyWhole (bound : Option ℕ) : List BindingUnit → List WeightedInput → List WeightedInput
  | [], variants => variants
  | unit :: rest, variants =>
      if unit.targetPaths.any fun path => !writable path then []
      else match unit.values with
        | [] => []
        | [value] =>
            applyWhole bound rest
              (variants.map fun variant => { variant with input := unit.assign variant.input value })
        | _ => applyWhole bound rest (unit.chooseWhole bound variants)

theorem applyUnits_eq (retains : Retains limit bound) (units : List BindingUnit)
    (variants : List WeightedInput)
    : applyUnits limit units variants = applyWhole bound units variants := by
  induction units generalizing variants with
  | nil => rfl
  | cons unit rest ih =>
      rw [applyUnits, applyWhole]
      split
      · rfl
      · rcases unit.values with _ | ⟨value, _ | ⟨other, more⟩⟩
        · rfl
        · exact ih _
        · exact (ih _).trans (congrArg (applyWhole bound rest) (choose_eq retains unit variants))

/-- The probabilities of all joint choices of all units. -/
def fullProduct (units : List BindingUnit) : List ℚ :=
  units.foldl (fun choices unit => products choices unit.probabilities) [1]

/-- The target paths of all units can be written. -/
def Writable (units : List BindingUnit) : Prop :=
  ∀ unit ∈ units, ∀ path ∈ unit.targetPaths, writable path = true

theorem products_nil_right (choices : List ℚ) : products choices [] = [] :=
  List.flatMap_eq_nil_iff.mpr fun _ _ => rfl

theorem products_one (choices : List ℚ) : products choices [1] = choices := by
  have each : (fun factor : ℚ => [(1 : ℚ)].map (factor * ·)) = fun factor => [factor] := by
    funext factor
    rw [List.map_singleton, mul_one]
  rw [products, each, List.flatMap_singleton']

theorem foldl_products_nil (units : List BindingUnit)
    : units.foldl (fun choices unit => products choices unit.probabilities) [] = [] := by
  induction units with
  | nil => rfl
  | cons unit rest ih => exact ih

/-- One value alone has the whole probability. -/
theorem BindingUnit.Counted.probabilities_single {unit : BindingUnit} (counted : unit.Counted)
    {value : List Data} (alone : unit.values = [value])
    : unit.probabilities = [1] := by
  have total := counted.sum_probabilities (alone ▸ List.cons_ne_nil _ _)
  have one := length_probabilities unit
  rw [alone] at one
  obtain ⟨probability, single⟩ := List.length_eq_one_iff.mp one
  rw [single, List.sum_singleton] at total
  rw [single, total]

/-- What is kept of each unit is all that the rest of the product needs. -/
theorem probabilities_applyWhole (safe : Writable units)
    (counted : ∀ unit ∈ units, unit.Counted) {choices : List ℚ}
    (kept : variants.map WeightedInput.probability = firstSorted bound descending choices)
    : (applyWhole bound units variants).map WeightedInput.probability
      = firstSorted bound descending
        (units.foldl (fun choices unit => products choices unit.probabilities) choices) := by
  induction units generalizing variants choices with
  | nil => exact kept
  | cons unit rest ih =>
      obtain ⟨safeHere, safeRest⟩ := List.forall_mem_cons.mp safe
      obtain ⟨countedHere, countedRest⟩ := List.forall_mem_cons.mp counted
      have passes : ¬ (unit.targetPaths.any fun path => !writable path) = true := by
        rw [List.any_eq_true]
        rintro ⟨path, member, bad⟩
        rw [safeHere path member] at bad
        cases bad
      rw [applyWhole, if_neg passes, List.foldl_cons]
      split
      · next none_ =>
          have nothing : unit.probabilities = [] := by
            rw [← List.length_eq_zero_iff, length_probabilities, none_, List.length_nil]
          rw [nothing, products_nil_right, foldl_products_nil, List.map_nil, firstSorted,
            List.mergeSort_nil]
          exact (List.sublist_nil.mp (takeUpTo_sublist bound [])).symm
      · next value alone =>
          rw [countedHere.probabilities_single alone, products_one]
          refine ih safeRest countedRest ?_
          rw [List.map_map]
          exact kept
      · refine ih safeRest countedRest ?_
        rw [probabilities_chooseWhole, kept,
          firstSorted_products countedHere.probabilities_nonneg]

/-- The joint choices share at most one. -/
theorem fullProduct_sum (counted : ∀ unit ∈ units, unit.Counted)
    : (∀ choice ∈ fullProduct units, 0 ≤ choice) ∧ (fullProduct units).sum ≤ 1 := by
  have general : ∀ choices : List ℚ, (∀ choice ∈ choices, 0 ≤ choice) → choices.sum ≤ 1 →
      (∀ choice ∈ units.foldl (fun choices unit => products choices unit.probabilities) choices,
        0 ≤ choice)
      ∧ (units.foldl (fun choices unit => products choices unit.probabilities) choices).sum ≤ 1 := by
    induction units with
    | nil => exact fun choices nonneg total => ⟨nonneg, total⟩
    | cons unit rest ih =>
        intro choices nonneg total
        obtain ⟨countedHere, countedRest⟩ := List.forall_mem_cons.mp counted
        refine ih countedRest _ (nonneg_products nonneg countedHere.probabilities_nonneg) ?_
        rw [sum_products]
        by_cases some_ : unit.values = []
        · have nothing : unit.probabilities = [] := by
            rw [← List.length_eq_zero_iff, length_probabilities, some_, List.length_nil]
          rw [nothing, List.sum_nil, mul_zero]
          exact zero_le_one
        · rw [countedHere.sum_probabilities some_, mul_one]
          exact total
  exact general [1] (fun choice member => List.mem_singleton.mp member ▸ zero_le_one)
    (by rw [List.sum_singleton])

end Runs

-- Groups

section Groups

variable {cwd : JsString} {bindings : OrderedMap JsString TargetBinding}
  {context : List PatternAwareEvent}

/-- What a filter finds first ends the run of what it passes over. -/
theorem dropWhile_of_filter {α : Type*} {holds : α → Bool} {list : List α} {first : α}
    {others : List α} (found : list.filter holds = first :: others)
    : ∃ tail, list.dropWhile (fun item => !holds item) = first :: tail
        ∧ tail.filter holds = others := by
  induction list with
  | nil => cases found
  | cons item rest ih =>
      by_cases here : holds item = true
      · rw [List.filter_cons_of_pos here] at found
        obtain ⟨rfl, rfl⟩ := List.cons_eq_cons.mp found
        exact ⟨rest, List.dropWhile_cons_of_neg (by simp [here]), rfl⟩
      · rw [List.filter_cons_of_neg here] at found
        obtain ⟨tail, dropped, kept⟩ := ih found
        exact ⟨tail, (List.dropWhile_cons_of_pos (by simp [here])).trans dropped, kept⟩

/-- A member joins the groups, and none is lost. -/
theorem members_addMember (groups : List Group) (member : Member)
    : ((addMember groups member).flatMap Group.members).Perm
        (groups.flatMap Group.members ++ [member]) := by
  rw [addMember]
  simp only
  split
  · rw [List.flatMap_append, List.flatMap_singleton]
  · next first others found =>
      obtain ⟨tail, dropped, kept⟩ := dropWhile_of_filter found
      have parts : groups.takeWhile (fun group => !group.touches (sourcesOf member.rows))
          ++ (first :: tail) = groups := by
        rw [← dropped]
        exact List.takeWhile_append_dropWhile
      have behind : (others.flatMap Group.members
          ++ (tail.filter fun group => !group.touches (sourcesOf member.rows)).flatMap
            Group.members).Perm (tail.flatMap Group.members) := by
        rw [← List.flatMap_append, ← kept]
        exact (List.filter_append_perm _ tail).flatMap_right _
      rw [dropped, List.tail_cons, List.flatMap_append, List.flatMap_cons]
      conv_rhs => rw [← parts, List.flatMap_append, List.flatMap_cons]
      simp only [List.append_assoc]
      refine List.Perm.append_left _ (List.Perm.append_left _ ?_)
      refine ((List.perm_append_comm.append_left _).trans ?_)
      rw [← List.append_assoc]
      exact behind.append_right _

theorem members_groupsOf (members : List Member)
    : ((groupsOf members).flatMap Group.members).Perm members := by
  have general : ∀ groups : List Group,
      ((members.foldl addMember groups).flatMap Group.members).Perm
        (groups.flatMap Group.members ++ members) := by
    induction members with
    | nil => exact fun groups => (List.append_nil _).symm ▸ .refl _
    | cons member rest ih =>
        intro groups
        refine (ih (addMember groups member)).trans ?_
        have step := (members_addMember groups member).append_right rest
        rwa [List.append_assoc, List.singleton_append] at step
  exact general []

theorem variantCount_nonneg (counts : OrderedMap JsString Number) (index : JsString)
    : 0 ≤ variantCount counts index := by
  rw [variantCount]
  cases counts.get? index with
  | none => exact le_rfl
  | some value => exact value.nonNegativeFinite_nonneg

theorem counted_unit (group : Group) : group.unit.Counted := by
  intro counts found count member
  have evidence : ∀ several values position other observed,
      memberEvidence several values other position = some observed →
        ∀ count ∈ observed, 0 ≤ count := by
    intro several values position other observed made count inside
    rw [memberEvidence] at made
    split at made
    · cases made
    · simp only at made
      split at made
      · cases made
      · split at made
        · obtain rfl := Option.some.inj made
          obtain ⟨key, _, rfl⟩ := List.mem_map.mp inside
          exact variantCount_nonneg _ _
        · cases made
  rw [Group.unit] at found
  simp only at found
  split at found
  · cases found
  · next first rest listed =>
      split at found
      · obtain rfl := Option.some.inj found
        have inside := List.mem_cons_self (a := first) (l := rest)
        rw [← listed] at inside
        obtain ⟨other, _, made⟩ := List.mem_filterMap.mp inside
        exact evidence _ _ _ _ _ made count member
      · cases found

theorem counted_bindingUnits
    : ∀ unit ∈ bindingUnits cwd bindings context, unit.Counted := by
  intro unit member
  obtain ⟨group, _, rfl⟩ := List.mem_map.mp member
  exact counted_unit group

theorem ownEntries_perm {α : Type} (fields : List (JsString × α))
    : (StableJson.ownEntries fields).Perm fields :=
  ((List.perm_insertionSort _ _).append_right _).trans (List.filter_append_perm _ fields)

/-- The target paths of the units are those of the bindings. -/
theorem mem_targetPaths {path : Path}
    : (∃ unit ∈ bindingUnits cwd bindings context, path ∈ unit.targetPaths)
      ↔ ∃ encoded ∈ bindings.keys, decodePath encoded = path := by
  have members : ∀ member, (∃ group ∈ groupsOf (membersOf cwd bindings context),
        member ∈ group.members) ↔ member ∈ membersOf cwd bindings context := by
    intro member
    rw [← List.mem_flatMap]
    exact (members_groupsOf _).mem_iff
  constructor
  · rintro ⟨unit, inside, reached⟩
    obtain ⟨group, listed, rfl⟩ := List.mem_map.mp inside
    obtain ⟨member, own, rfl⟩ := List.mem_map.mp reached
    obtain ⟨entry, stored, rfl⟩ := List.mem_map.mp ((members member).mp ⟨group, listed, own⟩)
    exact ⟨entry.1, List.mem_map_of_mem ((ownEntries_perm _).mem_iff.mp stored), rfl⟩
  · rintro ⟨encoded, inside, rfl⟩
    obtain ⟨entry, stored, rfl⟩ := List.mem_map.mp inside
    obtain ⟨group, listed, own⟩ := (members _).mpr
      (List.mem_map_of_mem ((ownEntries_perm _).mem_iff.mpr stored))
    exact ⟨group.unit, List.mem_map_of_mem listed, List.mem_map_of_mem own⟩

end Groups

-- The expansion

section Exact

variable {cwd : JsString} {bindings : OrderedMap JsString TargetBinding}
  {context : List PatternAwareEvent} {limit : Number} {bound : Option ℕ}

/-- What bindings expand to under a limit that retains a number of variants. -/
structure ExpansionExact (cwd : JsString) (bindings : OrderedMap JsString TargetBinding)
    (context : List PatternAwareEvent) (limit : Number) (bound : Option ℕ) : Prop where
  pruning
    : applyWeightedBindings cwd bindings context limit
      = applyWhole bound (bindingUnits cwd bindings context) [⟨.object [], 1⟩]
  greatest
    : (∀ encoded ∈ bindings.keys, writable (decodePath encoded) = true)
      → (applyWeightedBindings cwd bindings context limit).map WeightedInput.probability
        = takeUpTo bound
          ((fullProduct (bindingUnits cwd bindings context)).mergeSort descending)
  refused
    : (∃ encoded ∈ bindings.keys, writable (decodePath encoded) = false)
      → applyWeightedBindings cwd bindings context limit = []
  total : ((applyWeightedBindings cwd bindings context limit).map WeightedInput.probability).sum ≤ 1

/-- A path that cannot be written leaves nothing. -/
theorem applyWhole_refused {units : List BindingUnit}
    (refused : ∃ unit ∈ units, ∃ path ∈ unit.targetPaths, writable path = false)
    (variants : List WeightedInput)
    : applyWhole bound units variants = [] := by
  induction units generalizing variants with
  | nil =>
      obtain ⟨unit, member, _⟩ := refused
      cases member
  | cons unit rest ih =>
      rw [applyWhole]
      split
      · rfl
      · next passes =>
          have later : ∃ unit ∈ rest, ∃ path ∈ unit.targetPaths, writable path = false := by
            obtain ⟨bad, member, path, inside, unsafe_⟩ := refused
            rcases List.mem_cons.mp member with rfl | later
            · refine absurd (List.any_eq_true.mpr ⟨path, inside, ?_⟩) passes
              rw [unsafe_]
              rfl
            · exact ⟨bad, later, path, inside, unsafe_⟩
          rcases unit.values with _ | ⟨value, _ | ⟨other, more⟩⟩
          · rfl
          · exact ih later _
          · exact ih later _

/-- A binding whose target path cannot be written refuses the expansion. -/
theorem applyWeightedBindings_refused (retains : Retains limit bound)
    (refused : ∃ encoded ∈ bindings.keys, writable (decodePath encoded) = false)
    : applyWeightedBindings cwd bindings context limit = [] := by
  obtain ⟨encoded, own, unsafe_⟩ := refused
  obtain ⟨unit, member, inside⟩ := mem_targetPaths.mpr ⟨encoded, own, rfl⟩
  rw [applyWeightedBindings, applyUnits_eq retains]
  exact applyWhole_refused ⟨unit, member, _, inside, unsafe_⟩ _

theorem expansion_exact (cwd : JsString) (bindings : OrderedMap JsString TargetBinding)
    (context : List PatternAwareEvent) (retains : Retains limit bound)
    : ExpansionExact cwd bindings context limit bound := by
  have counted : ∀ unit ∈ bindingUnits cwd bindings context, unit.Counted := counted_bindingUnits
  have pruning : applyWeightedBindings cwd bindings context limit
      = applyWhole bound (bindingUnits cwd bindings context) [⟨.object [], 1⟩] :=
    applyUnits_eq retains _ _
  have start : [(⟨.object [], 1⟩ : WeightedInput)].map WeightedInput.probability
      = firstSorted bound descending [1] := by
    rw [firstSorted, List.mergeSort_singleton]
    cases retains with
    | unlimited => rfl
    | @finite value positive =>
        have whole : (1 : ℤ) ≤ ⌊value⌋ := Int.le_floor.mpr (by exact_mod_cast positive)
        have some_ : [(1 : ℚ)].length ≤ ⌊value⌋.toNat := by
          rw [List.length_singleton]
          omega
        exact (List.take_of_length_le some_).symm
  have greatest : (∀ encoded ∈ bindings.keys, writable (decodePath encoded) = true)
      → (applyWeightedBindings cwd bindings context limit).map WeightedInput.probability
        = firstSorted bound descending (fullProduct (bindingUnits cwd bindings context)) := by
    intro safe
    rw [pruning]
    refine probabilities_applyWhole (fun unit member path inside => ?_) counted start
    obtain ⟨encoded, own, rfl⟩ := mem_targetPaths.mp ⟨unit, member, inside⟩
    exact safe encoded own
  have refused : (∃ encoded ∈ bindings.keys, writable (decodePath encoded) = false)
      → applyWeightedBindings cwd bindings context limit = [] :=
    applyWeightedBindings_refused retains
  refine ⟨pruning, greatest, refused, ?_⟩
  by_cases safe : ∀ encoded ∈ bindings.keys, writable (decodePath encoded) = true
  · obtain ⟨nonneg, total⟩ := fullProduct_sum counted
    rw [greatest safe]
    exact (sum_firstSorted_le nonneg).trans total
  · have unsafe_ : ∃ encoded ∈ bindings.keys, writable (decodePath encoded) = false := by
      by_contra none_
      refine safe fun encoded own => ?_
      by_contra bad
      exact none_ ⟨encoded, own, Bool.eq_false_iff.mpr bad⟩
    rw [refused unsafe_]
    exact zero_le_one

/-- Two bindings that read one collection, and one that reads another. -/
def sampleBindings : OrderedMap JsString TargetBinding :=
  .ofList [
    (units "[\"path\"]",
      ⟨.each (-1) .output [] [.key (units "p")], some (.ofList [(units "1", .finite 2)])⟩),
    (units "[\"pattern\"]", ⟨.each (-1) .output [] [.key (units "q")], none⟩),
    (units "[\"limit\"]",
      ⟨.each (-1) .outputPaths [] [], some (.ofList [(units "2", .finite 1)])⟩)]

def sampleItem (path pattern : String) : Data :=
  .object [(units "p", .string (units path)), (units "q", .string (units pattern))]

def sampleContext : List PatternAwareEvent :=
  [⟨.object [], .array [sampleItem "a" "x", sampleItem "b" "y", sampleItem "c" "z"],
    .array [.string (units "l"), .string (units "m"), .string (units "n")], .undefined⟩]

/-- Two units of three choices under a limit of two: every row is cut, and so is their union. -/
theorem expansion_exact_sample
    : (bindingUnits (units "/") sampleBindings sampleContext).map (·.values.length) = [3, 3]
      ∧ ExpansionExact (units "/") sampleBindings sampleContext (.finite 2)
          (some ⌊(2 : ℚ)⌋.toNat) :=
  ⟨by decide +kernel,
    expansion_exact (units "/") sampleBindings sampleContext (.finite (by norm_num))⟩

def unsafeBindings : OrderedMap JsString TargetBinding :=
  .ofList [(units "[\"__proto__\"]", ⟨.constant .null, none⟩)]

/-- A path that must not be written leaves nothing of a choice that has the whole probability. -/
theorem expansion_exact_literal
    : (applyWeightedBindings (units "/") unsafeBindings [] (.finite 1)).map
          WeightedInput.probability
        ≠ takeUpTo (some 1)
          ((fullProduct (bindingUnits (units "/") unsafeBindings [])).mergeSort descending) := by
  have refused : applyWeightedBindings (units "/") unsafeBindings [] (.finite 1) = [] :=
    applyWeightedBindings_refused (.finite le_rfl)
      ⟨units "[\"__proto__\"]", List.mem_cons_self, by decide +kernel⟩
  have whole : fullProduct (bindingUnits (units "/") unsafeBindings []) = [1] := by decide +kernel
  rw [refused, whole, List.mergeSort_singleton]
  exact (List.cons_ne_nil _ _).symm

end Exact

end SpeculativeAction.PatternBindings
