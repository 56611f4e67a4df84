import Mathlib.Data.List.Pairwise
import Mathlib.Data.List.Perm.Basic

/-! Joint choices: one allowed value for every item, all of them compatible with each other. Where
items of different groups are always compatible, a joint choice is one of each group.
-/

namespace SpeculativeAction.Library

variable {ι α : Type*}

/-- One value for every item, allowed for it and compatible with the values of all the others. -/
def JointChoice (allowed : ι → α → Prop) (compatible : α → α → Prop) (items : List ι) : Prop :=
  ∃ choices : List (ι × α),
    choices.map Prod.fst = items
    ∧ (∀ choice ∈ choices, allowed choice.1 choice.2)
    ∧ choices.Pairwise fun first second => compatible first.2 second.2

/-- A list whose images are listed in another order can be put into that order. -/
theorem exists_perm_map_eq {β : Type*} {f : α → β} {list : List α} {images : List β}
    (perm : (list.map f).Perm images)
    : ∃ other, list.Perm other ∧ other.map f = images := by
  generalize start : list.map f = listed at perm
  induction perm generalizing list with
  | nil => exact ⟨list, .refl _, start⟩
  | cons image _ ih =>
      obtain ⟨first, rest, rfl, rfl, same⟩ := List.map_eq_cons_iff.mp start
      obtain ⟨other, perm, mapped⟩ := ih same
      exact ⟨first :: other, perm.cons first, by rw [List.map_cons, mapped]⟩
  | swap first second rest =>
      obtain ⟨one, more, rfl, rfl, same⟩ := List.map_eq_cons_iff.mp start
      obtain ⟨two, tail, rfl, rfl, rfl⟩ := List.map_eq_cons_iff.mp same
      exact ⟨two :: one :: tail, .swap _ _ _, rfl⟩
  | trans _ _ first second =>
      obtain ⟨middle, perm, mapped⟩ := first start
      obtain ⟨other, perm', mapped'⟩ := second mapped
      exact ⟨other, perm.trans perm', mapped'⟩

namespace JointChoice

variable {allowed : ι → α → Prop} {compatible : α → α → Prop} {items others : List ι}

theorem perm (symm : ∀ first second, compatible first second → compatible second first)
    (choice : JointChoice allowed compatible items) (same : items.Perm others)
    : JointChoice allowed compatible others := by
  obtain ⟨choices, rfl, each, pairs⟩ := choice
  obtain ⟨other, perm, mapped⟩ := exists_perm_map_eq same
  refine ⟨other, mapped, fun choice member => each choice (perm.mem_iff.mpr member), ?_⟩
  exact (perm.pairwise_iff fun together => symm _ _ together).mp pairs

/-- Items that never stand in each other's way are chosen apart. -/
theorem append_iff
    (apart
      : ∀ item ∈ items, ∀ other ∈ others, ∀ first second,
          allowed item first → allowed other second → compatible first second)
    : JointChoice allowed compatible (items ++ others)
      ↔ JointChoice allowed compatible items ∧ JointChoice allowed compatible others := by
  constructor
  · rintro ⟨choices, mapped, each, pairs⟩
    obtain ⟨left, right, rfl, first, second⟩ := List.map_eq_append_iff.mp mapped
    obtain ⟨leftPairs, rightPairs, _⟩ := List.pairwise_append.mp pairs
    exact ⟨⟨left, first, fun choice member => each choice (List.mem_append_left _ member), leftPairs⟩,
      ⟨right, second, fun choice member => each choice (List.mem_append_right _ member), rightPairs⟩⟩
  · rintro ⟨⟨left, rfl, leftEach, leftPairs⟩, ⟨right, rfl, rightEach, rightPairs⟩⟩
    refine ⟨left ++ right, List.map_append, fun choice member => ?_, ?_⟩
    · exact (List.mem_append.mp member).elim (leftEach choice) (rightEach choice)
    · refine List.pairwise_append.mpr ⟨leftPairs, rightPairs, fun first inLeft second inRight => ?_⟩
      exact apart _ (List.mem_map_of_mem inLeft) _ (List.mem_map_of_mem inRight) _ _
        (leftEach first inLeft) (rightEach second inRight)

theorem nil : JointChoice allowed compatible [] :=
  ⟨[], rfl, fun _ member => absurd member List.not_mem_nil, .nil⟩

/-- A joint choice of independent groups is one of every group. -/
theorem flatMap_iff {γ : Type*} {groups : List γ} {members : γ → List ι}
    (apart
      : groups.Pairwise fun group next =>
          ∀ item ∈ members group, ∀ other ∈ members next, ∀ first second,
            allowed item first → allowed other second → compatible first second)
    : JointChoice allowed compatible (groups.flatMap members)
      ↔ ∀ group ∈ groups, JointChoice allowed compatible (members group) := by
  induction groups with
  | nil => exact iff_of_true nil fun _ member => absurd member List.not_mem_nil
  | cons group rest ih =>
      obtain ⟨here, later⟩ := List.pairwise_cons.mp apart
      rw [List.flatMap_cons, append_iff, ih later, List.forall_mem_cons]
      intro item member other inside
      obtain ⟨next, listed, own⟩ := List.mem_flatMap.mp inside
      exact here next listed item member other own

end JointChoice

end SpeculativeAction.Library
