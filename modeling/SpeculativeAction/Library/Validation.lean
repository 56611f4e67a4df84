import Mathlib.Data.List.Forall2

/-! Validating lists: every item is accepted, or none is returned. -/

namespace SpeculativeAction.Library

variable {α β : Type*}
  {parse : α → Option β} {items : List α} {results : List β} {related : α → β → Prop}

/-- The accepted items in order, where every item is accepted. -/
def collectAll (parse : α → Option β) : List α → Option (List β)
  | [] => some []
  | item :: rest => (parse item).bind fun first => (collectAll parse rest).map (first :: ·)

theorem collectAll_eq_some_iff
    : collectAll parse items = some results
      ↔ List.Forall₂ (fun item result => parse item = some result) items results := by
  induction items generalizing results with
  | nil => simp [collectAll, eq_comm]
  | cons item rest ih =>
      constructor
      · intro collected
        rw [collectAll, Option.bind_eq_some_iff] at collected
        obtain ⟨first, accepted, later⟩ := collected
        obtain ⟨more, remaining, same⟩ := Option.map_eq_some_iff.mp later
        rw [← same]
        exact .cons accepted (ih.mp remaining)
      · intro related
        cases related with
        | cons accepted later =>
            rw [collectAll, accepted, Option.bind_some, ih.mpr later, Option.map_some]

/-- Every item on the left of related lists is related to one on the right. -/
theorem exists_of_forall₂ (each : List.Forall₂ related items results) {item : α}
    (listed : item ∈ items)
    : ∃ result ∈ results, related item result := by
  induction each with
  | nil => cases listed
  | cons first _ ih =>
      rcases List.mem_cons.mp listed with same | later
      · exact ⟨_, List.mem_cons_self .., same ▸ first⟩
      · obtain ⟨result, member, found⟩ := ih later
        exact ⟨result, List.mem_cons_of_mem _ member, found⟩

/-- Related lists stay related where each item on the left is replaced by a related one. -/
theorem forall₂_filterMap {γ : Type*} {replaced : γ → β → Prop} {replace : α → Option γ}
    (each : List.Forall₂ related items results)
    (found
      : ∀ item ∈ items, ∀ result, related item result →
          ∃ other, replace item = some other ∧ replaced other result)
    : List.Forall₂ replaced (items.filterMap replace) results := by
  induction each with
  | nil => exact .nil
  | @cons item result _ _ first _ ih =>
      obtain ⟨other, kept, holds⟩ := found item (List.mem_cons_self ..) result first
      rw [List.filterMap_cons_some kept]
      exact .cons holds (ih fun later member => found later (List.mem_cons_of_mem _ member))

/-- Every result comes from an accepted item. -/
theorem exists_of_mem_collectAll (collected : collectAll parse items = some results) {result : β}
    (listed : result ∈ results)
    : ∃ item ∈ items, parse item = some result :=
  exists_of_forall₂ (collectAll_eq_some_iff.mp collected).flip listed

/-- What was written from accepted items is accepted again. -/
theorem collectAll_map {write : β → α}
    (accepted : ∀ result ∈ results, parse (write result) = some result)
    : collectAll parse (results.map write) = some results := by
  rw [collectAll_eq_some_iff, List.forall₂_map_left_iff]
  exact List.forall₂_same.mpr accepted

end SpeculativeAction.Library
