import SpeculativeAction.StableTexts
import SpeculativeAction.PatternBindings.Joins
import SpeculativeAction.PatternBindings.Placement

/-! Replay agrees with application: the rows of all bindings have a join that stands for a target
exactly when one of the inputs that the bindings expand to, without a limit, agrees with the target
at every target path.
-/

namespace SpeculativeAction.PatternBindings

open SpeculativeAction.Library

-- Values kept once

section Unique

variable {α κ : Type*} [DecidableEq κ] {keyFor : α → κ} {values : List α} {value : α}

theorem mem_of_mem_uniqueFrom {seen : List κ} (member : value ∈ uniqueFrom keyFor seen values)
    : value ∈ values := by
  induction values generalizing seen with
  | nil => exact member
  | cons first rest ih =>
      rw [uniqueFrom] at member
      split at member
      · exact List.mem_cons_of_mem _ (ih member)
      · rcases List.mem_cons.mp member with rfl | later
        · exact List.mem_cons_self
        · exact List.mem_cons_of_mem _ (ih later)

theorem exists_mem_uniqueFrom {seen : List κ} (member : value ∈ values)
    (fresh : keyFor value ∉ seen)
    : ∃ kept ∈ uniqueFrom keyFor seen values, keyFor kept = keyFor value := by
  induction values generalizing seen with
  | nil => cases member
  | cons first rest ih =>
      rw [uniqueFrom]
      split
      · next known =>
          rcases List.mem_cons.mp member with rfl | later
          · exact absurd known fresh
          · exact ih later fresh
      · by_cases same : keyFor value = keyFor first
        · exact ⟨first, List.mem_cons_self, same.symm⟩
        · rcases List.mem_cons.mp member with rfl | later
          · exact absurd rfl same
          · obtain ⟨kept, inside, equal⟩ := ih later
              (List.mem_cons.not.mpr (not_or.mpr ⟨same, fresh⟩))
            exact ⟨kept, List.mem_cons_of_mem _ inside, equal⟩

theorem mem_of_mem_uniqueBy (member : value ∈ uniqueBy keyFor values) : value ∈ values :=
  mem_of_mem_uniqueFrom member

/-- Every value has one with its key among those that are kept. -/
theorem exists_mem_uniqueBy (keyFor : α → κ) (member : value ∈ values)
    : ∃ kept ∈ uniqueBy keyFor values, keyFor kept = keyFor value :=
  exists_mem_uniqueFrom member List.not_mem_nil

end Unique

-- Inputs of all units

section Inputs

variable {units : List BindingUnit} {variants : List WeightedInput} {input : Data}

/-- The values of one choice, each with its target path. -/
def BindingUnit.places (unit : BindingUnit) (value : List Data) : List (Path × Data) :=
  unit.targetPaths.zipIdx.map fun target => (target.1, StableJson.itemOf value target.2)

theorem BindingUnit.assign_eq (unit : BindingUnit) (input : Data) (value : List Data)
    : unit.assign input value = withPaths input (unit.places value) := by
  rw [BindingUnit.assign, withPaths, BindingUnit.places, List.foldl_map]

theorem BindingUnit.paths_places (unit : BindingUnit) (value : List Data)
    : (unit.places value).map Prod.fst = unit.targetPaths := by
  rw [BindingUnit.places, List.map_map]
  exact List.zipIdx_map_fst 0 unit.targetPaths

/-- Without a limit, every variant takes every value. -/
theorem mem_chooseWhole {unit : BindingUnit} {input : Data}
    : (∃ next ∈ unit.chooseWhole none variants, next.input = input)
      ↔ ∃ variant ∈ variants, ∃ value ∈ unit.values, unit.assign variant.input value = input := by
  rw [BindingUnit.chooseWhole]
  constructor
  · rintro ⟨next, member, rfl⟩
    obtain ⟨ranked, sorted, rfl⟩ := List.mem_map.mp member
    obtain ⟨variant, inside, expanded⟩ :=
      List.mem_flatMap.mp ((List.mergeSort_perm _ _).mem_iff.mp sorted)
    obtain ⟨value, zipped, rfl⟩ := List.mem_map.mp expanded
    exact ⟨variant, inside, value.1, (List.of_mem_zip zipped).1, rfl⟩
  · rintro ⟨variant, inside, value, chosen, rfl⟩
    obtain ⟨index, bound, rfl⟩ := List.getElem_of_mem chosen
    have share : index < unit.probabilities.length := (length_probabilities unit).symm ▸ bound
    have zipped : (unit.values[index], unit.probabilities[index])
        ∈ unit.values.zip unit.probabilities := by
      have both : index < (unit.values.zip unit.probabilities).length := by
        rw [List.length_zip]
        exact lt_min bound share
      rw [← List.getElem_zip (h := both)]
      exact List.getElem_mem both
    have expanded : (⟨variant, unit.values[index], variant.probability * unit.probabilities[index]⟩
        : RankedVariant) ∈ unit.expand variant := List.mem_map.mpr ⟨_, zipped, rfl⟩
    have listed : _ ∈ variants.flatMap unit.expand :=
      List.mem_flatMap.mpr ⟨variant, inside, expanded⟩
    exact ⟨_, List.mem_map_of_mem ((List.mergeSort_perm _ _).mem_iff.mpr listed), rfl⟩

/-- The inputs of all units: one value of each is written into the input of a variant. -/
theorem mem_applyWhole (safe : Writable units)
    : (∃ variant ∈ applyWhole none units variants, variant.input = input)
      ↔ ∃ variant ∈ variants, ∃ chosen : List (BindingUnit × List Data),
          chosen.map Prod.fst = units
          ∧ (∀ choice ∈ chosen, choice.2 ∈ choice.1.values)
          ∧ withPaths variant.input (chosen.flatMap fun choice => choice.1.places choice.2)
              = input := by
  induction units generalizing variants with
  | nil =>
      constructor
      · rintro ⟨variant, member, rfl⟩
        exact ⟨variant, member, [], rfl, fun _ inside => absurd inside List.not_mem_nil, rfl⟩
      · rintro ⟨variant, member, chosen, nothing, _, rfl⟩
        obtain rfl := List.map_eq_nil_iff.mp nothing
        exact ⟨variant, member, rfl⟩
  | cons unit rest ih =>
      obtain ⟨safeHere, safeRest⟩ := List.forall_mem_cons.mp safe
      have passes : ¬ (unit.targetPaths.any fun path => !writable path) = true := by
        rw [List.any_eq_true]
        rintro ⟨path, member, bad⟩
        rw [safeHere path member] at bad
        cases bad
      -- One unit: what the rest starts from.
      have step (next : List WeightedInput)
          (inputs : ∀ input, (∃ variant ∈ next, variant.input = input)
            ↔ ∃ variant ∈ variants, ∃ value ∈ unit.values, unit.assign variant.input value = input)
          : (∃ variant ∈ applyWhole none rest next, variant.input = input)
            ↔ ∃ variant ∈ variants, ∃ chosen : List (BindingUnit × List Data),
                chosen.map Prod.fst = unit :: rest
                ∧ (∀ choice ∈ chosen, choice.2 ∈ choice.1.values)
                ∧ withPaths variant.input (chosen.flatMap fun choice => choice.1.places choice.2)
                    = input := by
        rw [ih safeRest]
        constructor
        · rintro ⟨middle, member, chosen, rfl, each, rfl⟩
          obtain ⟨variant, inside, value, own, assigned⟩ := (inputs _).mp ⟨middle, member, rfl⟩
          refine ⟨variant, inside, (unit, value) :: chosen, rfl,
            List.forall_mem_cons.mpr ⟨own, each⟩, ?_⟩
          rw [List.flatMap_cons, withPaths, List.foldl_append, ← assigned, BindingUnit.assign_eq]
          rfl
        · rintro ⟨variant, inside, chosen, listed, each, rfl⟩
          obtain ⟨⟨_, value⟩, more, rfl, rfl, rfl⟩ := List.map_eq_cons_iff.mp listed
          obtain ⟨own, later⟩ := List.forall_mem_cons.mp each
          obtain ⟨middle, member, same⟩ := (inputs _).mpr ⟨variant, inside, value, own, rfl⟩
          refine ⟨middle, member, more, rfl, later, ?_⟩
          rw [List.flatMap_cons, withPaths, withPaths, List.foldl_append, same,
            BindingUnit.assign_eq]
          rfl
      rw [applyWhole, if_neg passes]
      split
      · next none_ =>
          refine iff_of_false (fun found => ?_) fun found => ?_
          · obtain ⟨_, member, _⟩ := found
            cases member
          · obtain ⟨_, _, chosen, listed, each, _⟩ := found
            obtain ⟨⟨_, value⟩, more, rfl, rfl, _⟩ := List.map_eq_cons_iff.mp listed
            have own := each _ List.mem_cons_self
            rw [none_] at own
            cases own
      · next value alone =>
          refine step _ fun input => ?_
          constructor
          · rintro ⟨next, member, rfl⟩
            obtain ⟨variant, inside, rfl⟩ := List.mem_map.mp member
            exact ⟨variant, inside, value, alone ▸ List.mem_cons_self, rfl⟩
          · rintro ⟨variant, inside, other, own, rfl⟩
            rw [alone] at own
            obtain rfl := List.mem_singleton.mp own
            exact ⟨_, List.mem_map_of_mem inside, rfl⟩
      · exact step _ fun input => mem_chooseWhole

end Inputs

-- One group

section Group

variable {members : List Member} {target : Data}

/-- The value stands for what the target has at the path. -/
def Stands (target : Data) (place : Path × Data) : Prop :=
  sameValue (some place.2) (getPath target place.1) = true

/-- The rows that stand for a target: the joint choices of the members. -/
def Replayed (target : Data) (members : List Member) : Prop :=
  JointChoice (fun member row => row ∈ member.matching target) Compatible members

/-- Rows that are chosen from groups, each with its member. -/
theorem forall₂_map_iff {rows : List BindingRow} {rowsOf : Member → List BindingRow}
    : List.Forall₂ (· ∈ ·) rows (members.map rowsOf)
      ↔ ∃ choices : List (Member × BindingRow),
          choices.map Prod.fst = members ∧ choices.map Prod.snd = rows
          ∧ ∀ choice ∈ choices, choice.2 ∈ rowsOf choice.1 := by
  rw [List.forall₂_map_right_iff]
  constructor
  · intro each
    induction each with
    | nil => exact ⟨[], rfl, rfl, fun _ member => absurd member List.not_mem_nil⟩
    | @cons row member _ _ chosen _ ih =>
        obtain ⟨choices, rfl, rfl, inside⟩ := ih
        exact ⟨(member, row) :: choices, rfl, rfl, List.forall_mem_cons.mpr ⟨chosen, inside⟩⟩
  · rintro ⟨choices, rfl, rfl, inside⟩
    induction choices with
    | nil => exact .nil
    | cons choice rest ih =>
        obtain ⟨here, later⟩ := List.forall_mem_cons.mp inside
        exact .cons here (ih later)

theorem bindingMatches_iff {cwd : JsString} {bindings : OrderedMap JsString TargetBinding}
    {context : List PatternAwareEvent}
    : bindingMatches cwd bindings context target = true
      ↔ Replayed target (membersOf cwd bindings context) := by
  rw [bindingMatches, Bool.not_eq_true', List.isEmpty_eq_false_iff_exists_mem, Replayed, JointChoice]
  constructor
  · rintro ⟨row, member⟩
    obtain ⟨rows, each, pairs, _⟩ := mem_values_joinBindingRows.mp (List.mem_map_of_mem member)
    obtain ⟨choices, first, rfl, inside⟩ := forall₂_map_iff.mp each
    exact ⟨choices, first, inside, List.pairwise_map.mp pairs⟩
  · rintro ⟨choices, first, inside, pairs⟩
    obtain ⟨row, member, _⟩ := List.mem_map.mp (mem_values_joinBindingRows.mpr
      ⟨choices.map Prod.snd, forall₂_map_iff.mpr ⟨choices, first, rfl, inside⟩,
        List.pairwise_map.mpr pairs, rfl⟩)
    exact ⟨row, member⟩

/-- A binding whose rows hold one readable value each, and which asks for that value. -/
structure Member.Exact (member : Member) : Prop where
  plain : member.target.binding.isNear = false
  single : Single member.rows
  readable : ∀ row ∈ member.rows, StableJson.Readable (StableJson.itemOf row.values 0)

theorem Member.Exact.mem_matching {member : Member} (exact_ : member.Exact) {row : BindingRow}
    : row ∈ member.matching target
      ↔ row ∈ member.rows ∧ Stands target (member.path, StableJson.itemOf row.values 0) := by
  have plain := exact_.plain
  rw [Member.matching, List.mem_filter, Stands, bindingValueMatches]
  intro source tolerance near
  rw [near] at plain
  cases plain

variable {choices : List (Member × BindingRow)}

/-- What a choice of rows places: their values at the paths of their members. -/
def placed (choices : List (Member × BindingRow)) : List (Path × Data) :=
  choices.map fun choice => (choice.1.path, StableJson.itemOf choice.2.values 0)

/-- Single rows that are put together list one value each. -/
theorem flatMap_values (single : ∀ choice ∈ choices, choice.2.values.length = 1)
    : (choices.map Prod.snd).flatMap BindingRow.values
      = choices.map fun choice => StableJson.itemOf choice.2.values 0 := by
  induction choices with
  | nil => rfl
  | cons choice rest ih =>
      obtain ⟨here, later⟩ := List.forall_mem_cons.mp single
      obtain ⟨value, alone⟩ := List.length_eq_one_iff.mp here
      rw [List.map_cons, List.flatMap_cons, ih later, List.map_cons, alone]
      rfl

theorem places_unit {group : Group} (first : choices.map Prod.fst = group.members)
    : group.unit.places (choices.map fun choice => StableJson.itemOf choice.2.values 0)
      = placed choices := by
  have paths : group.unit.targetPaths = choices.map fun choice => choice.1.path := by
    change group.members.map Member.path = _
    rw [← first, List.map_map]
    rfl
  rw [BindingUnit.places, paths, placed]
  refine List.ext_getElem (by simp) fun index inside _ => ?_
  have bound : index < choices.length := by simpa using inside
  simp [StableJson.itemOf, bound]

variable {group : Group}

/-- The values of a unit are those of the joint choices of its rows, kept once by their texts. -/
theorem values_unit (exact_ : ∀ member ∈ group.members, member.Exact) {values : List Data}
    : values ∈ (joinBindingRows (group.members.map Member.rows)).map BindingRow.values
      ↔ ∃ choices : List (Member × BindingRow),
          choices.map Prod.fst = group.members
          ∧ (∀ choice ∈ choices, choice.2 ∈ choice.1.rows)
          ∧ (choices.Pairwise fun first second => Compatible first.2 second.2)
          ∧ values = choices.map fun choice => StableJson.itemOf choice.2.values 0 := by
  have single {choices : List (Member × BindingRow)} (first : choices.map Prod.fst = group.members)
      (inside : ∀ choice ∈ choices, choice.2 ∈ choice.1.rows)
      : ∀ choice ∈ choices, choice.2.values.length = 1 := fun choice member =>
    (exact_ choice.1 (first ▸ List.mem_map_of_mem member)).single _ (inside choice member)
  rw [mem_values_joinBindingRows]
  constructor
  · rintro ⟨rows, each, pairs, rfl⟩
    obtain ⟨choices, first, rfl, inside⟩ := forall₂_map_iff.mp each
    exact ⟨choices, first, inside, List.pairwise_map.mp pairs, flatMap_values (single first inside)⟩
  · rintro ⟨choices, first, inside, pairs, rfl⟩
    exact ⟨choices.map Prod.snd, forall₂_map_iff.mpr ⟨choices, first, rfl, inside⟩,
      List.pairwise_map.mpr pairs, (flatMap_values (single first inside)).symm⟩

/-- Readable values with one text stand for the same targets. -/
theorem stands_congr {path : Path} {value other : Data} (first : StableJson.Readable value)
    (second : StableJson.Readable other)
    (text : StableJson.serialize value = StableJson.serialize other)
    (stands : Stands target (path, value))
    : Stands target (path, other) := by
  rw [Stands] at stands ⊢
  cases found : getPath target path with
  | none =>
      rw [found] at stands
      cases stands
  | some expected =>
      rw [found] at stands
      exact (first.stableEqual_congr second text expected).symm.trans stands

/-- Choices with one text stand for the same targets, value by value. -/
theorem stands_of_text {others : List (Member × BindingRow)}
    (first : choices.map Prod.fst = others.map Prod.fst)
    (readable : ∀ choice ∈ choices, StableJson.Readable (StableJson.itemOf choice.2.values 0))
    (readable' : ∀ choice ∈ others, StableJson.Readable (StableJson.itemOf choice.2.values 0))
    (text
      : StableJson.serialize (.array (choices.map fun choice => StableJson.itemOf choice.2.values 0))
        = StableJson.serialize (.array (others.map fun choice => StableJson.itemOf choice.2.values 0)))
    (stands : ∀ place ∈ placed choices, Stands target place)
    : ∀ place ∈ placed others, Stands target place := by
  have settled {list : List (Member × BindingRow)}
      (each : ∀ choice ∈ list, StableJson.Readable (StableJson.itemOf choice.2.values 0))
      : StableJson.keysDistinct
          (.array (list.map fun choice => StableJson.itemOf choice.2.values 0)) = true := by
    refine (StableJson.Settled.array _ fun item member => ?_).keysDistinct
    obtain ⟨choice, inside, rfl⟩ := List.mem_map.mp member
    exact (each choice inside).settled
  obtain ⟨lengths, slots⟩ := (StableJson.serialize_array_iff (settled readable)
    (settled readable')).mp text
  rw [List.length_map, List.length_map] at lengths
  intro place member
  obtain ⟨choice, inside, rfl⟩ := List.mem_map.mp member
  obtain ⟨index, bound, rfl⟩ := List.getElem_of_mem inside
  have here : index < choices.length := lengths ▸ bound
  have same : choices[index].1 = others[index].1 := by
    have mapped := congrArg (·[index]?) first
    simpa [here, bound] using mapped
  have slot := slots index
  have read := readable _ (List.getElem_mem here)
  have read' := readable' _ inside
  have at_ (list : List (Member × BindingRow)) (inside : index < list.length)
      : StableJson.itemOf (list.map fun choice => StableJson.itemOf choice.2.values 0) index
        = StableJson.itemOf list[index].2.values 0 := by
    simp [StableJson.itemOf, inside]
  rw [at_ choices here, at_ others bound, StableJson.filled_of_defined read.defined,
    StableJson.filled_of_defined read'.defined] at slot
  have earlier := stands _ (List.mem_map_of_mem (List.getElem_mem here))
  rw [same] at earlier
  exact stands_congr read read' slot earlier

/-- A group is replayed when one of the choices of its unit stands for the target. -/
theorem replayed_iff_unit (exact_ : ∀ member ∈ group.members, member.Exact)
    : Replayed target group.members
      ↔ ∃ values ∈ group.unit.values, ∀ place ∈ group.unit.places values, Stands target place := by
  have readable {choices : List (Member × BindingRow)}
      (first : choices.map Prod.fst = group.members)
      (inside : ∀ choice ∈ choices, choice.2 ∈ choice.1.rows)
      : ∀ choice ∈ choices, StableJson.Readable (StableJson.itemOf choice.2.values 0) :=
    fun choice member =>
      (exact_ choice.1 (first ▸ List.mem_map_of_mem member)).readable _ (inside choice member)
  constructor
  · rintro ⟨choices, first, each, pairs⟩
    have exactOf (choice : Member × BindingRow) (member : choice ∈ choices) : choice.1.Exact :=
      exact_ _ (first ▸ List.mem_map_of_mem member)
    have both := fun choice member => (exactOf choice member).mem_matching.mp (each choice member)
    have rows : ∀ choice ∈ choices, choice.2 ∈ choice.1.rows := fun choice member =>
      (both choice member).1
    have stands : ∀ place ∈ placed choices, Stands target place := by
      intro place member
      obtain ⟨choice, inside, rfl⟩ := List.mem_map.mp member
      exact (both choice inside).2
    obtain ⟨kept, member, text⟩ := exists_mem_uniqueBy
      (fun value => StableJson.stableStringify (.array value)) ((values_unit exact_).mpr ⟨choices, first, rows, pairs, rfl⟩)
    obtain ⟨others, second, inside, _, rfl⟩ :=
      (values_unit exact_).mp (mem_of_mem_uniqueBy member)
    refine ⟨_, member, ?_⟩
    rw [places_unit second]
    exact stands_of_text (first.trans second.symm) (readable first rows) (readable second inside)
      text.symm stands
  · rintro ⟨values, member, stands⟩
    obtain ⟨choices, first, inside, pairs, rfl⟩ :=
      (values_unit exact_).mp (mem_of_mem_uniqueBy member)
    rw [places_unit first] at stands
    refine ⟨choices, first, fun choice member => ?_, pairs⟩
    exact (exact_ choice.1 (first ▸ List.mem_map_of_mem member)).mem_matching.mpr
      ⟨inside choice member, stands _ (List.mem_map_of_mem member)⟩

end Group

-- Replay and application

section Replay

variable {cwd : JsString} {bindings : OrderedMap JsString TargetBinding}
  {context : List PatternAwareEvent} {target : Data}

/-- Both have a value at the path, and the values are equal. -/
def Agrees (input target : Data) (path : Path) : Prop :=
  ∃ value expected,
    getPath input path = some value
    ∧ getPath target path = some expected
    ∧ StableJson.stableEqual false value expected = true

mutual

/-- All that a binding reads of the context is data: it reads no prototype, which compares by the
fields that it hides, and no function.
-/
def readsData (context : List PatternAwareEvent) : PatternAwareBinding → Bool
  | .constant _ => true
  | .event relativeEvent field path =>
      (eventAt context relativeEvent).all fun event => reachesData (event.read field) path
  | .each relativeEvent field path itemPath =>
      (eventAt context relativeEvent).all fun event =>
        reachesData (event.read field) path
          && match getPath (event.read field) path with
            | some (.array items) => items.all fun item => reachesData item itemPath
            | _ => true
  | .coalesce sources | .splice sources _ => eachReadsData context sources
  | .join left right => readsData context left && readsData context right
  | .transform _ source | .template source _ _ | .rebase source _ _ | .near source _ =>
      readsData context source

def eachReadsData (context : List PatternAwareEvent) : List PatternAwareBinding → Bool
  | [] => true
  | binding :: rest => readsData context binding && eachReadsData context rest

end

/-- Bindings without a tolerance that read data, whose target paths are writable and apart from one
another, and whose values are told apart by their texts.
-/
structure Replayable (cwd : JsString) (bindings : OrderedMap JsString TargetBinding)
    (context : List PatternAwareEvent) : Prop where
  data : ∀ entry ∈ bindings.entries, readsData context entry.2.binding = true
  plain : ∀ entry ∈ bindings.entries, entry.2.binding.isNear = false
  writable : ∀ encoded ∈ bindings.keys, writable (decodePath encoded) = true
  apart : (bindings.keys.map decodePath).Pairwise Apart
  readable
    : ∀ entry ∈ bindings.entries, ∀ row ∈ bindingRows cwd context entry.2.binding,
        StableJson.Readable (StableJson.itemOf row.values 0)

theorem Replayable.exact_ (replayable : Replayable cwd bindings context)
    : ∀ member ∈ membersOf cwd bindings context, member.Exact := by
  intro member listed
  obtain ⟨entry, own, rfl⟩ := List.mem_map.mp listed
  have stored := (ownEntries_perm _).mem_iff.mp own
  exact ⟨replayable.plain entry stored, single_bindingRows _, replayable.readable entry stored⟩

/-- A joint choice of all members is one of every group. -/
theorem replayed_iff_groups
    : Replayed target (membersOf cwd bindings context)
      ↔ ∀ group ∈ groupsOf (membersOf cwd bindings context), Replayed target group.members := by
  have perm := members_groupsOf (membersOf cwd bindings context)
  have apart := (connected_groupsOf (membersOf cwd bindings context)).compatible
  have whole
      : Replayed target ((groupsOf (membersOf cwd bindings context)).flatMap Group.members)
        ↔ ∀ group ∈ groupsOf (membersOf cwd bindings context), Replayed target group.members :=
    JointChoice.flatMap_iff (apart.imp fun separate member own other there row next found later =>
      separate member own other there row (List.mem_of_mem_filter found) next
        (List.mem_of_mem_filter later))
  refine Iff.trans ⟨fun replayed => ?_, fun replayed => ?_⟩ whole
  · exact replayed.perm (fun _ _ => Compatible.symm) perm.symm
  · exact replayed.perm (fun _ _ => Compatible.symm) perm

theorem exists_place {unit : BindingUnit} {path : Path} (target_ : path ∈ unit.targetPaths)
    (value : List Data)
    : ∃ place ∈ unit.places value, place.1 = path := by
  rw [← unit.paths_places value] at target_
  exact List.mem_map.mp target_

/-- The target paths of the units are apart, in whatever order the units come. -/
theorem Replayable.apart_units (replayable : Replayable cwd bindings context)
    : ((bindingUnits cwd bindings context).flatMap BindingUnit.targetPaths).Pairwise Apart := by
  have listed : (bindingUnits cwd bindings context).flatMap BindingUnit.targetPaths
      = ((groupsOf (membersOf cwd bindings context)).flatMap Group.members).map Member.path := by
    rw [bindingUnits, List.flatMap_map, List.map_flatMap]
    rfl
  have members : (membersOf cwd bindings context).map Member.path
      = (StableJson.ownEntries bindings.entries).map (decodePath ∘ Prod.fst) := by
    rw [membersOf, List.map_map]
    rfl
  have keys : bindings.keys.map decodePath = bindings.entries.map (decodePath ∘ Prod.fst) :=
    List.map_map
  have perm : ((bindingUnits cwd bindings context).flatMap BindingUnit.targetPaths).Perm
      (bindings.keys.map decodePath) := by
    rw [listed, keys]
    refine ((members_groupsOf _).map _).trans ?_
    rw [members]
    exact (ownEntries_perm _).map _
  exact (perm.pairwise_iff fun separate => separate.symm).mpr replayable.apart

/-- A place of a choice of all units is read back from the input. -/
theorem Replayable.read_back (replayable : Replayable cwd bindings context)
    (addressable : ∀ encoded ∈ bindings.keys, Addressable (decodePath encoded))
    {chosen : List (BindingUnit × List Data)}
    (listed : chosen.map Prod.fst = bindingUnits cwd bindings context) (start : Data)
    : ∀ place ∈ chosen.flatMap fun choice => choice.1.places choice.2,
        getPath (withPaths start (chosen.flatMap fun choice => choice.1.places choice.2)) place.1
          = some place.2 := by
  have paths : (chosen.flatMap fun choice => choice.1.places choice.2).map Prod.fst
      = (bindingUnits cwd bindings context).flatMap BindingUnit.targetPaths := by
    rw [← listed, List.map_flatMap, List.flatMap_map]
    exact List.flatMap_congr fun choice _ => choice.1.paths_places choice.2
  have encoded : ∀ place ∈ chosen.flatMap fun choice => choice.1.places choice.2,
      ∃ encoded ∈ bindings.keys, decodePath encoded = place.1 := by
    intro place member
    have inside := List.mem_map_of_mem (f := Prod.fst) member
    rw [paths] at inside
    obtain ⟨unit, own, reached⟩ := List.mem_flatMap.mp inside
    exact mem_targetPaths.mp ⟨unit, own, reached⟩
  refine getPath_withPaths (fun place member => ?_) (fun place member => ?_) ?_
  · obtain ⟨key, own, same⟩ := encoded place member
    have safe := replayable.writable key own
    rw [same, PatternBindings.writable, Bool.and_eq_true, decide_eq_true_eq] at safe
    exact safe.1
  · obtain ⟨key, own, same⟩ := encoded place member
    exact same ▸ addressable key own
  · have apart := replayable.apart_units
    rw [← paths] at apart
    exact List.pairwise_map.mp apart

/-- A value that stands for the target agrees with it where it is read back. -/
theorem agrees_iff_stands {input : Data} {place : Path × Data}
    (read : getPath input place.1 = some place.2)
    : Agrees input target place.1 ↔ Stands target place := by
  rw [Stands]
  constructor
  · rintro ⟨value, expected, here, there, equal⟩
    obtain rfl := Option.some.inj (here.symm.trans read)
    rw [there]
    exact equal
  · intro stands
    cases there : getPath target place.1 with
    | none =>
        rw [there] at stands
        cases stands
    | some expected =>
        rw [there] at stands
        exact ⟨_, expected, read, there, stands⟩

/-- The application has an agreeing input when each unit has a choice that stands for the target. -/
theorem application_iff_units (replayable : Replayable cwd bindings context)
    (addressable : ∀ encoded ∈ bindings.keys, Addressable (decodePath encoded))
    : (∃ variant ∈ applyWeightedBindings cwd bindings context (.infinite false),
          ∀ encoded ∈ bindings.keys, Agrees variant.input target (decodePath encoded))
      ↔ ∀ unit ∈ bindingUnits cwd bindings context,
          ∃ value ∈ unit.values, ∀ place ∈ unit.places value, Stands target place := by
  have safe : Writable (bindingUnits cwd bindings context) := by
    intro unit member path inside
    obtain ⟨encoded, own, rfl⟩ := mem_targetPaths.mp ⟨unit, member, inside⟩
    exact replayable.writable encoded own
  have applied : applyWeightedBindings cwd bindings context (.infinite false)
      = applyWhole none (bindingUnits cwd bindings context) [⟨.object [], 1⟩] :=
    applyUnits_eq .unlimited _ _
  rw [applied]
  constructor
  · rintro ⟨variant, member, agrees⟩ unit listed
    obtain ⟨start, _, chosen, same, each, built⟩ := (mem_applyWhole safe).mp ⟨variant, member, rfl⟩
    rw [← same] at listed
    obtain ⟨choice, inside, rfl⟩ := List.mem_map.mp listed
    refine ⟨choice.2, each choice inside, fun place own => ?_⟩
    have read := replayable.read_back addressable same start.input place
      (List.mem_flatMap.mpr ⟨choice, inside, own⟩)
    have reached : place.1 ∈ choice.1.targetPaths := by
      rw [← choice.1.paths_places choice.2]
      exact List.mem_map_of_mem own
    obtain ⟨encoded, key, path⟩ := mem_targetPaths.mp
      ⟨choice.1, same ▸ List.mem_map_of_mem inside, reached⟩
    refine (agrees_iff_stands read).mp ?_
    rw [built, ← path]
    exact agrees encoded key
  · intro units
    have chosen : ∀ unit : BindingUnit, ∃ value, unit ∈ bindingUnits cwd bindings context →
        value ∈ unit.values ∧ ∀ place ∈ unit.places value, Stands target place := by
      intro unit
      by_cases listed : unit ∈ bindingUnits cwd bindings context
      · obtain ⟨value, own, stands⟩ := units unit listed
        exact ⟨value, fun _ => ⟨own, stands⟩⟩
      · exact ⟨[], fun inside => absurd inside listed⟩
    choose value found using chosen
    have same : ((bindingUnits cwd bindings context).map fun unit => (unit, value unit)).map Prod.fst
        = bindingUnits cwd bindings context := by
      rw [List.map_map]
      exact List.map_id _
    obtain ⟨variant, member, built⟩ := (mem_applyWhole safe).mpr
      ⟨⟨.object [], 1⟩, List.mem_singleton_self _, _, same, fun choice inside => by
        obtain ⟨unit, listed, rfl⟩ := List.mem_map.mp inside
        exact (found unit listed).1, rfl⟩
    refine ⟨variant, member, fun encoded own => ?_⟩
    obtain ⟨unit, listed, reached⟩ := mem_targetPaths.mpr ⟨encoded, own, rfl⟩
    obtain ⟨place, inside, path⟩ := exists_place reached (value unit)
    have read := replayable.read_back addressable same (.object []) place
      (List.mem_flatMap.mpr ⟨(unit, value unit), List.mem_map_of_mem listed, inside⟩)
    rw [built, ← path]
    exact (agrees_iff_stands read).mpr ((found unit listed).2 place inside)

/-- What is replayed is at addressable paths. -/
theorem addressable_of_replayed (replayable : Replayable cwd bindings context)
    (storable : Storable target)
    (replayed : Replayed target (membersOf cwd bindings context))
    : ∀ encoded ∈ bindings.keys, Addressable (decodePath encoded) := by
  intro encoded own
  obtain ⟨entry, stored, rfl⟩ := List.mem_map.mp own
  obtain ⟨choices, first, each, _⟩ := replayed
  have member : (⟨decodePath entry.1, entry.2, bindingRows cwd context entry.2.binding⟩ : Member)
      ∈ membersOf cwd bindings context :=
    List.mem_map_of_mem (f := fun entry : JsString × TargetBinding =>
      (⟨decodePath entry.1, entry.2, bindingRows cwd context entry.2.binding⟩ : Member))
      ((ownEntries_perm _).mem_iff.mpr stored)
  have exact_ := replayable.exact_ _ member
  rw [← first] at member
  obtain ⟨choice, inside, same⟩ := List.mem_map.mp member
  have chosen := each choice inside
  rw [same] at chosen
  have stands := (exact_.mem_matching.mp chosen).2
  rw [Stands] at stands
  cases found : getPath target (decodePath entry.1) with
  | none =>
      rw [found] at stands
      cases stands
  | some expected => exact addressable_of_getPath storable found

/-- Joining the rows of all bindings at once agrees with joining them unit by unit, choosing one value
of each unit and writing it at the target paths.
-/
theorem replay_iff_application (replayable : Replayable cwd bindings context)
    (storable : Storable target)
    : bindingMatches cwd bindings context target = true
      ↔ ∃ variant ∈ applyWeightedBindings cwd bindings context (.infinite false),
          ∀ encoded ∈ bindings.keys, Agrees variant.input target (decodePath encoded) := by
  have units : Replayed target (membersOf cwd bindings context)
      ↔ ∀ unit ∈ bindingUnits cwd bindings context,
          ∃ value ∈ unit.values, ∀ place ∈ unit.places value, Stands target place := by
    rw [replayed_iff_groups, bindingUnits, List.forall_mem_map]
    refine forall₂_congr fun group listed => replayed_iff_unit fun member own => ?_
    exact replayable.exact_ member ((members_groupsOf _).mem_iff.mp
      (List.mem_flatMap.mpr ⟨group, listed, own⟩))
  rw [bindingMatches_iff]
  constructor
  · intro replayed
    exact (application_iff_units replayable
      (addressable_of_replayed replayable storable replayed)).mpr (units.mp replayed)
  · rintro ⟨variant, member, agrees⟩
    have addressable : ∀ encoded ∈ bindings.keys, Addressable (decodePath encoded) := by
      intro encoded own
      obtain ⟨_, _, _, there, _⟩ := agrees encoded own
      exact addressable_of_getPath storable there
    exact units.mpr ((application_iff_units replayable addressable).mp ⟨variant, member, agrees⟩)

/-- An item whose field is undefined before one whose field is null. -/
def missingThenNull : List PatternAwareEvent :=
  [⟨.object [], .array [.object [(units "v", .undefined)], .object [(units "v", .null)]],
    .undefined, .undefined⟩]

def fieldBindings : OrderedMap JsString TargetBinding :=
  .ofList [(units "[\"x\"]", ⟨.each (-1) .output [] [.key (units "v")], none⟩)]

/-- Values with one text are kept once in an application, though only one of them is replayed. -/
theorem replay_iff_application_literal
    : bindingMatches (units "/") fieldBindings missingThenNull (.object [(units "x", .null)]) = true
      ∧ ¬ ∃ variant ∈ applyWeightedBindings (units "/") fieldBindings missingThenNull (.infinite false),
          ∀ encoded ∈ fieldBindings.keys,
            Agrees variant.input (.object [(units "x", .null)]) (decodePath encoded) := by
  have inputs : (applyWeightedBindings (units "/") fieldBindings missingThenNull
      (.infinite false)).all (fun variant =>
        (getPath variant.input (decodePath (units "[\"x\"]"))).all fun value =>
          decide (StableJson.serialize value = none)) = true := by decide +kernel
  have expected : (getPath (.object [(units "x", .null)]) (decodePath (units "[\"x\"]"))).all
      StableJson.writesNull = true := by decide +kernel
  refine ⟨by decide +kernel, ?_⟩
  rintro ⟨variant, member, agrees⟩
  obtain ⟨value, target, here, there, equal⟩ :=
    agrees (units "[\"x\"]") (List.mem_singleton_self _)
  have read := List.all_eq_true.mp inputs variant member
  rw [here] at read
  rw [there] at expected
  have null : StableJson.writesNull target = true := expected
  obtain rfl := StableJson.serialize_eq_none.mp (of_decide_eq_true read)
  cases target with
  | undefined => exact Bool.false_ne_true null
  | _ => exact Bool.false_ne_true equal

/-- Texts are told apart. -/
theorem readable_string (text : JsString) : StableJson.Readable (.string text) :=
  ⟨.scalar _ rfl, nofun, nofun⟩

theorem apart_keys {left right : JsString} (different : left ≠ right)
    : Apart [.key left] [.key right] where
  notBefore before := different (by simpa using before)
  notBehind behind := different (Eq.symm (by simpa using behind))
  kinds shared first second inLeft inRight := by
    cases shared with
    | nil =>
        have one : first = .key left := by simpa using inLeft
        have two : second = .key right := by simpa using inRight
        rw [one, two]
        rfl
    | cons other rest =>
        have long := inLeft.length_le
        simp at long

/-- A target with one text at each path. -/
def textTarget (path pattern limit : String) : Data :=
  .object [(units "path", .string (units path)), (units "pattern", .string (units pattern)),
    (units "limit", .string (units limit))]

theorem storable_textTarget (path pattern limit : String)
    : Storable (textTarget path pattern limit) := by
  refine .object _ fun field member => ?_
  simp only [List.mem_cons, List.not_mem_nil, or_false] at member
  rcases member with rfl | rfl | rfl
  all_goals exact .scalar _ rfl

theorem replayable_sample : Replayable (units "/") sampleBindings sampleContext where
  data := by decide +kernel
  plain := by decide +kernel
  writable := by decide +kernel
  apart := by
    have paths : sampleBindings.keys.map decodePath
        = [[.key (units "path")], [.key (units "pattern")], [.key (units "limit")]] := by
      decide +kernel
    rw [paths]
    refine .cons ?_ (.cons ?_ (.cons (fun _ none_ => absurd none_ List.not_mem_nil) .nil))
    · intro other member
      simp only [List.mem_cons, List.not_mem_nil, or_false] at member
      rcases member with rfl | rfl
      · exact apart_keys (by decide)
      · exact apart_keys (by decide)
    · intro other member
      obtain rfl := List.mem_singleton.mp member
      exact apart_keys (by decide)
  readable := by
    have rows : ∀ entry ∈ sampleBindings.entries,
        (bindingRows (units "/") sampleContext entry.2.binding).all (fun row =>
          (textsOf [StableJson.itemOf row.values 0]).isSome) = true := by decide +kernel
    intro entry stored row member
    have text := List.all_eq_true.mp (rows entry stored) row member
    generalize StableJson.itemOf row.values 0 = value at text
    cases value with
    | string value => exact readable_string value
    | _ => cases text

/-- The path and the pattern of one item go together with any limit; those of two items do not. -/
theorem replay_iff_application_sample
    : (∃ variant ∈ applyWeightedBindings (units "/") sampleBindings sampleContext (.infinite false),
        ∀ encoded ∈ sampleBindings.keys,
          Agrees variant.input (textTarget "b" "y" "m") (decodePath encoded))
      ∧ ¬ ∃ variant ∈ applyWeightedBindings (units "/") sampleBindings sampleContext
            (.infinite false),
          ∀ encoded ∈ sampleBindings.keys,
            Agrees variant.input (textTarget "a" "y" "m") (decodePath encoded) := by
  have together : bindingMatches (units "/") sampleBindings sampleContext
      (textTarget "b" "y" "m") = true := by decide +kernel
  have crossed : bindingMatches (units "/") sampleBindings sampleContext
      (textTarget "a" "y" "m") = false := by decide +kernel
  refine ⟨(replay_iff_application replayable_sample (storable_textTarget "b" "y" "m")).mp together,
    fun applied => ?_⟩
  have replayed := (replay_iff_application replayable_sample
    (storable_textTarget "a" "y" "m")).mpr applied
  rw [crossed] at replayed
  cases replayed

end Replay

end SpeculativeAction.PatternBindings
