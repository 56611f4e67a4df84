import Mathlib.Data.Fintype.Card
import Mathlib.Data.List.Basic

/-! A depth-first worklist: items are taken from the front, each leads to a key or to
nothing, and a key seen for the first time puts its own items in front of the rest.
-/

namespace SpeculativeAction.Library.Worklist

section Reach

variable {Item Key : Type*} {key : Item → Option Key} {next : Key → List Item}

/-- An item is pending, or below one whose key it belongs to. -/
inductive Reached (key : Item → Option Key) (next : Key → List Item) (pending : List Item)
    : Item → Prop where
  | pending {item : Item} (member : item ∈ pending) : Reached key next pending item
  | opened {item child : Item} {found : Key} (above : Reached key next pending item)
      (opens : key item = some found) (member : child ∈ next found)
      : Reached key next pending child

theorem Reached.mono {pending more : List Item} {item : Item}
    (fewer : ∀ other ∈ pending, Reached key next more other)
    (reached : Reached key next pending item)
    : Reached key next more item := by
  induction reached with
  | pending member => exact fewer _ member
  | opened _ opens member ih => exact .opened ih opens member

end Reach

section Taken

variable {Item Key : Type*} [DecidableEq Key] {pending : List Item}

/-- How many keys have not been seen. -/
def unseen [Fintype Key] (visited : List Key) : ℕ := (Finset.univ.filter (· ∉ visited)).card

theorem unseen_cons_lt [Fintype Key] {visited : List Key} {key : Key} (fresh : key ∉ visited)
    : unseen (key :: visited) < unseen visited := by
  refine Finset.card_lt_card (Finset.ssubset_iff_subset_ne.mpr ⟨?_, ?_⟩)
  · intro other member
    simp only [Finset.mem_filter, List.mem_cons, not_or] at member ⊢
    exact ⟨member.1, member.2.2⟩
  · intro same
    have member : key ∈ Finset.univ.filter (· ∉ visited) := by simp [fresh]
    rw [← same] at member
    simp at member

/-- The items in the order they are taken, where `visited` keys are not opened again. -/
def taken [Fintype Key] (key : Item → Option Key) (next : Key → List Item) (pending : List Item)
    (visited : List Key)
    : List Item :=
  match pending with
  | [] => []
  | item :: rest =>
      match key item with
      | none => item :: taken key next rest visited
      | some found =>
          if found ∈ visited then item :: taken key next rest visited
          else item :: taken key next (next found ++ rest) (found :: visited)
termination_by (unseen visited, pending.length)
decreasing_by
  all_goals first
  | exact .right _ (Nat.lt_succ_self _)
  | exact .left _ _ (unseen_cons_lt ‹_›)

variable [Fintype Key] {key : Item → Option Key} {next : Key → List Item}

/-- Only reached items are taken, by induction over the worklist. -/
theorem reached_of_mem_taken {visited : List Key} {item : Item}
    (member : item ∈ taken key next pending visited)
    : Reached key next pending item := by
  induction pending, visited using taken.induct key next with
  | case1 visited =>
      rw [taken] at member
      cases member
  | case2 visited first rest none_ ih =>
      rw [taken, none_] at member
      rcases List.mem_cons.mp member with same | later
      · exact same ▸ .pending List.mem_cons_self
      · exact (ih later).mono fun other listed => .pending (List.mem_cons_of_mem _ listed)
  | case3 visited first rest found opens seen ih =>
      simp only [taken, opens, if_pos seen] at member
      rcases List.mem_cons.mp member with same | later
      · exact same ▸ .pending List.mem_cons_self
      · exact (ih later).mono fun other listed => .pending (List.mem_cons_of_mem _ listed)
  | case4 visited first rest found opens fresh ih =>
      simp only [taken, opens, if_neg fresh] at member
      rcases List.mem_cons.mp member with same | later
      · exact same ▸ .pending List.mem_cons_self
      · refine (ih later).mono fun other listed => ?_
        rcases List.mem_append.mp listed with below | listed
        · exact .opened (.pending List.mem_cons_self) opens below
        · exact .pending (List.mem_cons_of_mem _ listed)

/-- Everything pending is taken, and so is what its fresh keys open. -/
theorem taken_closed (key : Item → Option Key) (next : Key → List Item) (pending : List Item)
    (visited : List Key)
    : (∀ item ∈ pending, item ∈ taken key next pending visited)
      ∧ ∀ item ∈ taken key next pending visited, ∀ found, key item = some found
        → found ∉ visited → ∀ child ∈ next found, child ∈ taken key next pending visited := by
  induction pending, visited using taken.induct key next with
  | case1 visited =>
      rw [taken]
      exact ⟨fun _ member => member, fun _ member => nomatch member⟩
  | case2 visited first rest none_ ih =>
      rw [taken, none_]
      refine ⟨fun item member => ?_, fun item member found opens fresh child below => ?_⟩
      · rcases List.mem_cons.mp member with same | later
        · exact same ▸ List.mem_cons_self
        · exact List.mem_cons_of_mem _ (ih.1 item later)
      · rcases List.mem_cons.mp member with same | later
        · rw [same, none_] at opens
          cases opens
        · exact List.mem_cons_of_mem _ (ih.2 item later found opens fresh child below)
  | case3 visited first rest found opens seen ih =>
      rw [taken, opens]
      simp only [if_pos seen]
      refine ⟨fun item member => ?_, fun item member other opened fresh child below => ?_⟩
      · rcases List.mem_cons.mp member with same | later
        · exact same ▸ List.mem_cons_self
        · exact List.mem_cons_of_mem _ (ih.1 item later)
      · rcases List.mem_cons.mp member with same | later
        · rw [same, opens] at opened
          exact absurd (Option.some.inj opened ▸ seen) fresh
        · exact List.mem_cons_of_mem _ (ih.2 item later other opened fresh child below)
  | case4 visited first rest found opens fresh ih =>
      rw [taken, opens]
      simp only [if_neg fresh]
      refine ⟨fun item member => ?_, fun item member other opened unseen child below => ?_⟩
      · rcases List.mem_cons.mp member with same | later
        · exact same ▸ List.mem_cons_self
        · exact List.mem_cons_of_mem _ (ih.1 item (List.mem_append_right _ later))
      · refine List.mem_cons_of_mem _ ?_
        by_cases here : other = found
        · exact ih.1 child (List.mem_append_left _ (here ▸ below))
        · rcases List.mem_cons.mp member with same | later
          · rw [same, opens] at opened
            exact absurd (Option.some.inj opened).symm here
          · refine ih.2 item later other opened ?_ child below
            exact fun either => (List.mem_cons.mp either).elim here unseen

/-- From scratch exactly the reached items are taken. -/
theorem mem_taken {item : Item}
    : item ∈ taken key next pending [] ↔ Reached key next pending item := by
  refine ⟨reached_of_mem_taken, fun reached => ?_⟩
  have closed := taken_closed key next pending []
  induction reached with
  | pending member => exact closed.1 _ member
  | opened _ opens member ih => exact closed.2 _ ih _ opens List.not_mem_nil _ member

/-- The items taken do not depend on the order in which they were pending. -/
theorem mem_taken_congr {other : List Item} (same : ∀ item, item ∈ pending ↔ item ∈ other)
    (item : Item)
    : item ∈ taken key next pending [] ↔ item ∈ taken key next other [] := by
  rw [mem_taken, mem_taken]
  exact ⟨.mono fun item member => .pending ((same item).mp member),
    .mono fun item member => .pending ((same item).mpr member)⟩

end Taken

end SpeculativeAction.Library.Worklist
