import SpeculativeAction.Library.OrderedMap

/-! An inverted index: each key leads to the members filed under it, in the order they were
filed. A key without members has no entry.
-/

namespace SpeculativeAction.Library

/-- The members under each key; no bucket is empty and none lists a member twice. -/
structure InvertedIndex (K R : Type*) [DecidableEq K] [DecidableEq R] where
  buckets : OrderedMap K (List R)
  sound : buckets.Forall fun _ members => members ≠ [] ∧ members.Nodup

namespace InvertedIndex

variable {K R : Type*} [DecidableEq K] [DecidableEq R] {index : InvertedIndex K R}

def empty : InvertedIndex K R := ⟨.empty, .empty⟩

def members (index : InvertedIndex K R) (key : K) : List R := (index.buckets.get? key).getD []

/-- Append a member to a list it is not in. -/
def insertMember (members : List R) (member : R) : List R :=
  if member ∈ members then members else members ++ [member]

theorem mem_insertMember {members : List R} {member other : R}
    : other ∈ insertMember members member ↔ other = member ∨ other ∈ members := by
  unfold insertMember
  split
  · rename_i present
    constructor
    · exact .inr
    · intro either
      rcases either with same | before
      · exact same ▸ present
      · exact before
  · rw [List.mem_append, List.mem_singleton, or_comm]

theorem nodup_insertMember {members : List R} (distinct : members.Nodup) (member : R)
    : (insertMember members member).Nodup := by
  unfold insertMember
  split
  · exact distinct
  · rename_i fresh
    refine List.nodup_append.mpr ⟨distinct, List.nodup_singleton _, ?_⟩
    intro other before last member same
    exact fresh (List.mem_singleton.mp member ▸ same ▸ before)

/-- Append several members, each unless it is already there. -/
def insertMembers (members added : List R) : List R := added.foldl insertMember members

@[simp] theorem mem_insertMembers {members added : List R} {other : R}
    : other ∈ insertMembers members added ↔ other ∈ added ∨ other ∈ members := by
  unfold insertMembers
  induction added generalizing members with
  | nil => simp
  | cons member rest ih =>
      rw [List.foldl_cons, ih, mem_insertMember, List.mem_cons]
      tauto

theorem nodup_insertMembers {members : List R} (distinct : members.Nodup) (added : List R)
    : (insertMembers members added).Nodup := by
  unfold insertMembers
  induction added generalizing members with
  | nil => exact distinct
  | cons member rest ih => exact ih (nodup_insertMember distinct member)

/-- Members that are all new are appended in their order. -/
theorem insertMembers_of_nodup {members added : List R} (distinct : (members ++ added).Nodup)
    : insertMembers members added = members ++ added := by
  unfold insertMembers
  induction added generalizing members with
  | nil => rw [List.foldl_nil, List.append_nil]
  | cons member rest ih =>
      have fresh : member ∉ members := by
        intro before
        exact List.disjoint_of_nodup_append distinct before (List.mem_cons_self ..)
      rw [List.append_cons] at distinct ⊢
      rw [List.foldl_cons, insertMember, if_neg fresh, ih distinct]

/-- Members that are all there add nothing. -/
theorem insertMembers_of_subset {members added : List R}
    (there : ∀ member ∈ added, member ∈ members)
    : insertMembers members added = members := by
  unfold insertMembers
  induction added with
  | nil => rfl
  | cons member rest ih =>
      rw [List.foldl_cons, insertMember, if_pos (there member (List.mem_cons_self ..))]
      exact ih fun other listed => there other (List.mem_cons_of_mem _ listed)

theorem insertMembers_append (members first second : List R)
    : insertMembers members (first ++ second)
      = insertMembers (insertMembers members first) second :=
  List.foldl_append

/-- Lists of members that are all there add nothing. -/
theorem foldl_insertMembers_of_subset {ι : Type*} {members : List R} {added : ι → List R}
    {items : List ι} (there : ∀ item ∈ items, ∀ member ∈ added item, member ∈ members)
    : items.foldl (fun members item => insertMembers members (added item)) members = members := by
  induction items with
  | nil => rfl
  | cons item rest ih =>
      rw [List.foldl_cons, insertMembers_of_subset (there item (List.mem_cons_self ..))]
      exact ih fun other listed => there other (List.mem_cons_of_mem _ listed)

/-- Drop several members. -/
def removeMembers (members removed : List R) : List R :=
  members.filter fun member => !removed.contains member

@[simp] theorem mem_removeMembers {members removed : List R} {other : R}
    : other ∈ removeMembers members removed ↔ other ∈ members ∧ other ∉ removed := by
  simp [removeMembers]

theorem nodup_members (index : InvertedIndex K R) (key : K) : (index.members key).Nodup := by
  unfold members
  cases found : index.buckets.get? key with
  | none => exact List.nodup_nil
  | some members => exact (index.sound key members found).2

/-- File one member under one key. -/
def add (index : InvertedIndex K R) (key : K) (member : R) : InvertedIndex K R where
  buckets := index.buckets.set key (insertMember (index.members key) member)
  sound := by
    refine index.sound.set ⟨?_, nodup_insertMember (index.nodup_members key) member⟩
    exact List.ne_nil_of_mem (mem_insertMember.mpr (.inl rfl))

/-- Remove one member from under one key; an empty key goes. -/
def remove (index : InvertedIndex K R) (key : K) (member : R) : InvertedIndex K R :=
  if rest : (index.members key).erase member = [] then
    { buckets := index.buckets.delete key, sound := index.sound.delete key }
  else
    {
      buckets := index.buckets.set key ((index.members key).erase member)
      sound := index.sound.set ⟨rest, (index.nodup_members key).erase member⟩
    }

@[simp] theorem members_empty (key : K) : (empty : InvertedIndex K R).members key = [] := rfl

theorem mem_members_add {key other : K} {member reader : R}
    : reader ∈ (index.add key member).members other
      ↔ other = key ∧ reader = member ∨ reader ∈ index.members other := by
  by_cases same : other = key
  · subst same
    simp [members, add, OrderedMap.get?_set, mem_insertMember]
  · simp [members, add, OrderedMap.get?_set, same]

theorem mem_members_remove {key other : K} {member reader : R}
    : reader ∈ (index.remove key member).members other
      ↔ reader ∈ index.members other ∧ ¬(other = key ∧ reader = member) := by
  have erased
      : reader ∈ (index.members key).erase member ↔ reader ≠ member ∧ reader ∈ index.members key :=
    (index.nodup_members key).mem_erase_iff
  unfold remove
  by_cases same : other = key
  · subst same
    split
    · rename_i rest
      rw [rest] at erased
      simp [members, OrderedMap.get?_delete] at erased ⊢
      tauto
    · have bucket
          : (OrderedMap.set index.buckets other ((index.members other).erase member)).get? other
            = some ((index.members other).erase member) := by
        simp [OrderedMap.get?_set]
      have after
          : reader ∈ ((OrderedMap.set index.buckets other
                ((index.members other).erase member)).get? other).getD []
            ↔ reader ≠ member ∧ reader ∈ index.members other := by
        rw [bucket, Option.getD_some, erased]
      exact after.trans (by tauto)
  · split
    · simp [members, OrderedMap.get?_delete, same]
    · simp [members, OrderedMap.get?_set, same]

/-- File a member under several keys. -/
def addAll (index : InvertedIndex K R) (keys : List K) (member : R) : InvertedIndex K R :=
  keys.foldl (fun index key => index.add key member) index

def removeAll (index : InvertedIndex K R) (keys : List K) (member : R) : InvertedIndex K R :=
  keys.foldl (fun index key => index.remove key member) index

theorem mem_members_addAll {keys : List K} {other : K} {member reader : R}
    : reader ∈ (index.addAll keys member).members other
      ↔ other ∈ keys ∧ reader = member ∨ reader ∈ index.members other := by
  unfold addAll
  induction keys generalizing index with
  | nil => simp
  | cons key rest ih =>
      rw [List.foldl_cons, ih, mem_members_add, List.mem_cons]
      tauto

theorem mem_members_removeAll {keys : List K} {other : K} {member reader : R}
    : reader ∈ (index.removeAll keys member).members other
      ↔ reader ∈ index.members other ∧ ¬(other ∈ keys ∧ reader = member) := by
  unfold removeAll
  induction keys generalizing index with
  | nil => simp
  | cons key rest ih =>
      rw [List.foldl_cons, ih, mem_members_remove, List.mem_cons]
      tauto

end InvertedIndex

end SpeculativeAction.Library
