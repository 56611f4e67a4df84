import Mathlib.Logic.Function.Basic
import Mathlib.Data.List.Nodup

/-! Turning one rooted tree into another by edits of single keys: an order in which children
go before their parents and parents come before their children is valid at every step.
-/

namespace SpeculativeAction.Library

/-- Which key lies directly under which. -/
structure Parentage (K : Type*) where
  root : K
  parent : K → K → Prop
  orphan : ∀ up, ¬ parent up root
  unique : ∀ up other key, parent up key → parent other key → up = other
  irreflexive : ∀ key, ¬ parent key key

/-- The node a key holds afterwards; a removed key holds none. -/
structure TreeEdit (K N : Type*) where
  key : K
  node : Option N

variable {K N : Type*} (parentage : Parentage K) (holds : N → Prop)

/-- Every key but the root lies under a key whose node holds others. -/
def Rooted (tree : K → Option N) : Prop :=
  ∀ key node, tree key = some node → key ≠ parentage.root →
    ∃ up upper, parentage.parent up key ∧ tree up = some upper ∧ holds upper

/-- Nothing lies under the key. -/
def Vacant (tree : K → Option N) (key : K) : Prop :=
  ∀ child, parentage.parent key child → tree child = none

/-- The key lies under a node that holds others. -/
def Sheltered (tree : K → Option N) (key : K) : Prop :=
  ∃ up upper, parentage.parent up key ∧ tree up = some upper ∧ holds upper

/-- What a tree allows: a removal of a present key with nothing under it, a creation of an
absent key under a parent, a replacement of one leaf by another.
-/
inductive Allowed (tree : K → Option N) : TreeEdit K N → Prop
  | remove {key node} (present : tree key = some node) (vacant : Vacant parentage tree key)
    : Allowed tree ⟨key, none⟩
  | create {key node} (absent : tree key = none) (sheltered : Sheltered parentage holds tree key)
    : Allowed tree ⟨key, some node⟩
  | replace {key old node} (present : tree key = some old) (leaf : ¬ holds old)
    (stays : ¬ holds node)
    : Allowed tree ⟨key, some node⟩

namespace Allowed

variable {parentage : Parentage K} {holds : N → Prop} {tree : K → Option N} {edit : TreeEdit K N}

theorem vacant (allowed : Allowed parentage holds tree edit) (removed : edit.node = none)
    : (∃ node, tree edit.key = some node) ∧ Vacant parentage tree edit.key := by
  cases allowed with
  | remove present vacant => exact ⟨⟨_, present⟩, vacant⟩
  | create _ _ => cases removed
  | replace _ _ _ => cases removed

theorem sheltered (allowed : Allowed parentage holds tree edit) (created : edit.node ≠ none)
    (absent : tree edit.key = none)
    : Sheltered parentage holds tree edit.key := by
  cases allowed with
  | remove _ _ => exact absurd rfl created
  | create _ sheltered => exact sheltered
  | replace present _ _ =>
      rw [present] at absent
      cases absent

end Allowed

section Runs

variable [DecidableEq K]

def TreeEdit.apply (edit : TreeEdit K N) (tree : K → Option N) : K → Option N :=
  Function.update tree edit.key edit.node

/-- A run of allowed edits between two trees. -/
inductive EditRun : (K → Option N) → List (TreeEdit K N) → (K → Option N) → Prop
  | done {tree} : EditRun tree [] tree
  | step {tree edit rest final} (allowed : Allowed parentage holds tree edit)
    (run : EditRun (edit.apply tree) rest final)
    : EditRun tree (edit :: rest) final

end Runs

/-- Edits from one tree to another, in an order that keeps every parent in place while it is
needed. Keys without an edit hold alike nodes in both trees.
-/
structure Transition (before after : K → Option N) (edits : List (TreeEdit K N)) : Prop where
  distinct : (edits.map TreeEdit.key).Nodup
  rootKept : ∀ edit ∈ edits, edit.key ≠ parentage.root
  target : ∀ edit ∈ edits, edit.node = after edit.key
  real : ∀ edit ∈ edits, before edit.key = none → after edit.key ≠ none
  leaves
    : ∀ edit ∈ edits, ∀ old node,
        before edit.key = some old → after edit.key = some node → ¬ holds old ∧ ¬ holds node
  untouchedKept
    : ∀ key node, key ∉ edits.map TreeEdit.key → before key = some node → after key ≠ none
  untouchedHolds
    : ∀ key node, key ∉ edits.map TreeEdit.key → after key = some node → holds node →
        ∃ old, before key = some old ∧ holds old
  childrenFirst
    : edits.Pairwise fun first later =>
        first.node = none → later.node = none → ¬ parentage.parent first.key later.key
  parentsFirst
    : edits.Pairwise fun first later =>
        first.node ≠ none → later.node ≠ none → ¬ parentage.parent later.key first.key

section Replay

variable [DecidableEq K] {parentage : Parentage K} {holds : N → Prop}
variable {before after : K → Option N} {edits : List (TreeEdit K N)}

/-- The tree after the edits of some keys. -/
def mixed (keys : List K) (before after : K → Option N) : K → Option N :=
  fun key => if key ∈ keys then after key else before key

theorem mixed_nil : mixed [] before after = before := by
  funext key
  simp [mixed]

theorem apply_mixed {edit : TreeEdit K N} {keys : List K} (target : edit.node = after edit.key)
    : edit.apply (mixed keys before after) = mixed (keys ++ [edit.key]) before after := by
  funext key
  by_cases same : key = edit.key
  · subst same
    simp [TreeEdit.apply, mixed, target]
  · simp [TreeEdit.apply, mixed, same]

namespace Transition

variable {edit : TreeEdit K N}

/-- A removed key has nothing under it once the removals before it are done. -/
theorem vacant (transition : Transition parentage holds before after edits)
    (rooted : Rooted parentage holds after) {done rest : List (TreeEdit K N)}
    (order : edits = done ++ edit :: rest) (removed : edit.node = none)
    : Vacant parentage (mixed (done.map TreeEdit.key) before after) edit.key := by
  intro child below
  have member : edit ∈ edits := by simp [order]
  have gone : after edit.key = none := (transition.target edit member).symm.trans removed
  -- the parent is gone at the end, so the child is
  have childGone : after child = none := by
    by_contra present
    obtain ⟨node, found⟩ := Option.ne_none_iff_exists'.mp present
    have inner : child ≠ parentage.root := fun same => parentage.orphan _ (same ▸ below)
    obtain ⟨up, upper, above, held, -⟩ := rooted child node found inner
    rw [parentage.unique up edit.key child above below, gone] at held
    cases held
  by_cases edited : child ∈ done.map TreeEdit.key
  · rw [mixed, if_pos edited, childGone]
  · rw [mixed, if_neg edited]
    by_contra present
    obtain ⟨node, found⟩ := Option.ne_none_iff_exists'.mp present
    have touched : child ∈ edits.map TreeEdit.key := by
      by_contra untouched
      exact transition.untouchedKept child node untouched found childGone
    rw [order, List.map_append, List.map_cons, List.mem_append, List.mem_cons] at touched
    rcases touched with early | same | later
    · exact edited early
    · exact parentage.irreflexive _ (same ▸ below)
    · obtain ⟨other, inRest, named⟩ := List.mem_map.mp later
      have ordered := transition.childrenFirst
      rw [order, List.pairwise_append] at ordered
      have removedLater : other.node = none := by
        rw [transition.target other (by simp [order, inRest]), named, childGone]
      exact (List.pairwise_cons.mp ordered.2.1).1 other inRest removed removedLater
        (named ▸ below)

/-- A created key has its parent once the creations before it are done. -/
theorem sheltered (transition : Transition parentage holds before after edits)
    (rooted : Rooted parentage holds after) {done rest : List (TreeEdit K N)} {node : N}
    (order : edits = done ++ edit :: rest) (created : edit.node = some node)
    : Sheltered parentage holds (mixed (done.map TreeEdit.key) before after) edit.key := by
  have member : edit ∈ edits := by simp [order]
  have final : after edit.key = some node := (transition.target edit member).symm.trans created
  obtain ⟨up, upper, above, held, holding⟩ :=
    rooted edit.key node final (transition.rootKept edit member)
  by_cases edited : up ∈ done.map TreeEdit.key
  · exact ⟨up, upper, above, by rw [mixed, if_pos edited, held], holding⟩
  · have untouched : up ∉ edits.map TreeEdit.key := by
      intro touched
      rw [order, List.map_append, List.map_cons, List.mem_append, List.mem_cons] at touched
      rcases touched with early | same | later
      · exact edited early
      · exact parentage.irreflexive _ (same ▸ above)
      · obtain ⟨other, inRest, named⟩ := List.mem_map.mp later
        have ordered := transition.parentsFirst
        rw [order, List.pairwise_append] at ordered
        have createdLater : other.node ≠ none := by
          rw [transition.target other (by simp [order, inRest]), named, held]
          exact Option.some_ne_none upper
        have createdNow : edit.node ≠ none := by
          rw [created]
          exact Option.some_ne_none node
        exact (List.pairwise_cons.mp ordered.2.1).1 other inRest createdNow createdLater
          (named ▸ above)
    obtain ⟨old, present, holdsOld⟩ :=
      transition.untouchedHolds up upper untouched held holding
    exact ⟨up, old, above, by rw [mixed, if_neg edited, present], holdsOld⟩

/-- One edit is allowed where all the earlier ones are done. -/
theorem allowed (transition : Transition parentage holds before after edits)
    (rooted : Rooted parentage holds after) {done rest : List (TreeEdit K N)}
    (order : edits = done ++ edit :: rest)
    : Allowed parentage holds (mixed (done.map TreeEdit.key) before after) edit := by
  have member : edit ∈ edits := by simp [order]
  have fresh : edit.key ∉ done.map TreeEdit.key := by
    have distinct := transition.distinct
    rw [order, List.map_append, List.map_cons] at distinct
    exact fun early => List.disjoint_of_nodup_append distinct early (List.mem_cons_self ..)
  have current : mixed (done.map TreeEdit.key) before after edit.key = before edit.key := by
    rw [mixed, if_neg fresh]
  have final := transition.target edit member
  cases removed : edit.node with
  | none =>
      have present : before edit.key ≠ none := by
        intro absent
        exact transition.real edit member absent (final.symm.trans removed)
      obtain ⟨node, found⟩ := Option.ne_none_iff_exists'.mp present
      have step
          : Allowed parentage holds (mixed (done.map TreeEdit.key) before after)
              ⟨edit.key, none⟩ :=
        .remove (current.trans found) (transition.vacant rooted order removed)
      rw [← removed] at step
      exact step
  | some node =>
      cases found : before edit.key with
      | none =>
          have step
              : Allowed parentage holds (mixed (done.map TreeEdit.key) before after)
                  ⟨edit.key, some node⟩ :=
            .create (current.trans found) (transition.sheltered rooted order removed)
          rw [← removed] at step
          exact step
      | some old =>
          obtain ⟨leaf, stays⟩ :=
            transition.leaves edit member old node found (final.symm.trans removed)
          have step
              : Allowed parentage holds (mixed (done.map TreeEdit.key) before after)
                  ⟨edit.key, some node⟩ :=
            .replace (current.trans found) leaf stays
          rw [← removed] at step
          exact step

/-- The edits run to the tree that holds the new node at every edited key, by induction on
what is still to do.
-/
theorem editRun (transition : Transition parentage holds before after edits)
    (rooted : Rooted parentage holds after)
    : EditRun parentage holds before edits (mixed (edits.map TreeEdit.key) before after) := by
  have fromMixed
      : ∀ rest done, edits = done ++ rest →
          EditRun parentage holds (mixed (done.map TreeEdit.key) before after) rest
            (mixed (edits.map TreeEdit.key) before after) := by
    intro rest
    induction rest with
    | nil =>
        intro done order
        rw [List.append_nil] at order
        rw [order]
        exact EditRun.done
    | cons edit rest ih =>
        intro done order
        refine EditRun.step (transition.allowed rooted order) ?_
        rw [apply_mixed (transition.target edit (by simp [order]))]
        have later := ih (done ++ [edit]) (by simp [order])
        rwa [List.map_append] at later
  have whole := fromMixed edits [] rfl
  rwa [List.map_nil, mixed_nil] at whole

end Transition

end Replay

end SpeculativeAction.Library
