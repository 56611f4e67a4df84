import SpeculativeAction.Library.OrderedMap
import Mathlib.Logic.Relation

/-! Disjoint classes kept as a forest of parent links, with path compression. A member
without a parent stands for its class.
-/

namespace SpeculativeAction.Library

variable {K : Type*} [DecidableEq K]

/-- Following the given number of parents leads from a member to its root. -/
inductive Leads (parents : OrderedMap K K) : ℕ → K → K → Prop where
  | root {member : K} (top : parents.get? member = none) : Leads parents 0 member member
  | parent {member next root : K} {depth : ℕ} (link : parents.get? member = some next)
      (rest : Leads parents depth next root)
      : Leads parents (depth + 1) member root

namespace Leads

variable {parents : OrderedMap K K} {depth : ℕ}

theorem unique {other : ℕ} {member root top : K} (leads : Leads parents depth member root)
    (again : Leads parents other member top)
    : root = top := by
  induction leads generalizing other with
  | root none_ =>
      cases again with
      | root _ => rfl
      | parent link _ =>
          rw [none_] at link
          cases link
  | parent link _ ih =>
      cases again with
      | root none_ =>
          rw [none_] at link
          cases link
      | parent other rest =>
          rw [link] at other
          obtain rfl := Option.some.inj other
          exact ih rest

theorem top {member root : K} (leads : Leads parents depth member root)
    : parents.get? root = none := by
  induction leads with
  | root none_ => exact none_
  | parent _ _ ih => exact ih

/-- A member with a parent is below its root. -/
theorem succ_of_link {member next root : K} (leads : Leads parents depth member root)
    (link : parents.get? member = some next)
    : ∃ rest, Leads parents (rest + 1) member root := by
  cases leads with
  | root none_ =>
      rw [none_] at link
      cases link
  | parent first rest => exact ⟨_, .parent first rest⟩

/-- Sending a member straight to its root shortens some paths and redirects none. -/
theorem compress {member root : K} (below : Leads parents (depth + 1) member root) {other top : K}
    {length : ℕ} (leads : Leads parents length other top)
    : ∃ shorter ≤ length, Leads (parents.set member root) shorter other top := by
  obtain ⟨next, link⟩ : ∃ next, parents.get? member = some next := by
    cases below with
    | parent link _ => exact ⟨_, link⟩
  have rootTop : (parents.set member root).get? root = none := by
    rw [OrderedMap.get?_set, if_neg, below.top]
    intro same
    rw [← same, below.top] at link
    cases link
  induction leads with
  | @root other none_ =>
      refine ⟨0, Nat.le_refl 0, .root ?_⟩
      rw [OrderedMap.get?_set, if_neg, none_]
      intro same
      rw [same, link] at none_
      cases none_
  | @parent other next' top length link' rest ih =>
      by_cases same : other = member
      · subst same
        have reached : root = top := below.unique (.parent link' rest)
        have toRoot : (parents.set other root).get? other = some root := by
          rw [OrderedMap.get?_set, if_pos rfl]
        exact ⟨1, Nat.succ_le_succ (Nat.zero_le _), .parent toRoot (reached ▸ .root rootTop)⟩
      · obtain ⟨shorter, bound, path⟩ := ih
        have kept : (parents.set member root).get? other = some next' := by
          rw [OrderedMap.get?_set, if_neg same, link']
        exact ⟨shorter + 1, Nat.succ_le_succ bound, .parent kept path⟩

/-- Hanging one root under another redirects the first root's class. -/
theorem hang {left right : K} (leftTop : parents.get? left = none)
    (rightTop : parents.get? right = none) (apart : left ≠ right) {other top : K} {length : ℕ}
    (leads : Leads parents length other top)
    : ∃ longer ≤ length + 1,
        Leads (parents.set left right) longer other (if top = left then right else top) := by
  have rightRoot : (parents.set left right).get? right = none := by
    rw [OrderedMap.get?_set, if_neg apart.symm, rightTop]
  induction leads with
  | @root other none_ =>
      by_cases same : other = left
      · subst same
        have toRight : (parents.set other right).get? other = some right := by
          rw [OrderedMap.get?_set, if_pos rfl]
        refine ⟨1, Nat.le_refl _, .parent toRight ?_⟩
        rw [if_pos rfl]
        exact .root rightRoot
      · refine ⟨0, Nat.zero_le _, ?_⟩
        rw [if_neg same]
        exact .root (by rw [OrderedMap.get?_set, if_neg same, none_])
  | @parent other next top length link rest ih =>
      obtain ⟨longer, bound, path⟩ := ih
      have kept : (parents.set left right).get? other = some next := by
        rw [OrderedMap.get?_set, if_neg, link]
        intro same
        rw [same, leftTop] at link
        cases link
      exact ⟨longer + 1, Nat.succ_le_succ bound, .parent kept path⟩

end Leads

/-- A forest: every member leads to a root along at most as many links as there are. -/
structure UnionFind (K : Type*) [DecidableEq K] where
  parents : OrderedMap K K
  rooted : ∀ member, ∃ depth ≤ parents.keys.length, ∃ root, Leads parents depth member root

namespace UnionFind

variable {parents : OrderedMap K K} {forest : UnionFind K} {joined : K → K → Prop}

def empty : UnionFind K where
  parents := .empty
  rooted := fun member => ⟨0, Nat.le_refl _, member, .root rfl⟩

/-- Follow the parents to the root. -/
def follow (parents : OrderedMap K K) : ℕ → K → K
  | 0, member => member
  | fuel + 1, member =>
      match parents.get? member with
      | some next => follow parents fuel next
      | none => member

theorem follow_eq {depth fuel : ℕ} {member root : K} (leads : Leads parents depth member root)
    (enough : depth ≤ fuel)
    : follow parents fuel member = root := by
  induction leads generalizing fuel with
  | root none_ =>
      cases fuel with
      | zero => rfl
      | succ fuel => rw [follow, none_]
  | parent link _ ih =>
      cases fuel with
      | zero => cases enough
      | succ fuel =>
          rw [follow, link]
          exact ih (Nat.le_of_succ_le_succ enough)

/-- The member that stands for a class. -/
def root (forest : UnionFind K) (member : K) : K :=
  follow forest.parents forest.parents.keys.length member

theorem leads_root (forest : UnionFind K) (member : K)
    : ∃ depth ≤ forest.parents.keys.length,
        Leads forest.parents depth member (forest.root member) := by
  obtain ⟨depth, bound, root, leads⟩ := forest.rooted member
  have found : forest.root member = root := follow_eq leads bound
  exact ⟨depth, bound, found ▸ leads⟩

theorem root_eq {depth : ℕ} {member root : K} (leads : Leads forest.parents depth member root)
    : forest.root member = root := by
  obtain ⟨_, _, found⟩ := forest.leads_root member
  exact found.unique leads

theorem length_keys_set_of_mem {member next : K} (value : K)
    (link : parents.get? member = some next)
    : (parents.set member value).keys.length = parents.keys.length := by
  have same : ∀ key, key ∈ (parents.set member value).keys ↔ key ∈ parents.keys := by
    intro key
    rw [OrderedMap.mem_keys_set]
    refine ⟨fun either => ?_, .inr⟩
    rcases either with rfl | before
    · exact OrderedMap.mem_keys_iff.mpr ⟨next, link⟩
    · exact before
  exact ((List.perm_ext_iff_of_nodup (OrderedMap.keys_nodup _) (OrderedMap.keys_nodup _)).mpr
    same).length_eq

/-- Send a member that has a parent straight to its root. -/
def shorten (forest : UnionFind K) (member : K) : UnionFind K :=
  match link : forest.parents.get? member with
  | none => forest
  | some next => {
      parents := forest.parents.set member (forest.root member)
      rooted := by
        intro other
        obtain ⟨_, _, fromMember⟩ := forest.leads_root member
        obtain ⟨_, below⟩ := fromMember.succ_of_link link
        obtain ⟨length, bound, leads⟩ := forest.leads_root other
        obtain ⟨shorter, shorterBound, path⟩ := below.compress leads
        refine ⟨shorter, ?_, _, path⟩
        rw [length_keys_set_of_mem _ link]
        exact Nat.le_trans shorterBound bound
    }

theorem root_shorten (forest : UnionFind K) (member other : K)
    : (forest.shorten member).root other = forest.root other := by
  unfold shorten
  split
  · rfl
  · rename_i next link
    obtain ⟨_, _, fromMember⟩ := forest.leads_root member
    obtain ⟨_, below⟩ := fromMember.succ_of_link link
    obtain ⟨_, _, leads⟩ := forest.leads_root other
    obtain ⟨_, _, path⟩ := below.compress leads
    exact root_eq path

/-- Compress the path of a member, one link after another. -/
def compress : ℕ → UnionFind K → K → UnionFind K
  | 0, forest, _ => forest
  | fuel + 1, forest, member =>
      match forest.parents.get? member with
      | none => forest
      | some next => compress fuel (forest.shorten member) next

theorem root_compress (fuel : ℕ) (forest : UnionFind K) (member other : K)
    : (compress fuel forest member).root other = forest.root other := by
  induction fuel generalizing forest member with
  | zero => rfl
  | succ fuel ih =>
      unfold compress
      split
      · rfl
      · rw [ih, root_shorten]

/-- The root of a member, and the forest with the member's path compressed. -/
def owner (forest : UnionFind K) (member : K) : K × UnionFind K :=
  (forest.root member, compress forest.parents.keys.length forest member)

@[simp] theorem owner_fst (forest : UnionFind K) (member : K)
    : (forest.owner member).1 = forest.root member := rfl

@[simp] theorem root_owner (forest : UnionFind K) (member other : K)
    : (forest.owner member).2.root other = forest.root other :=
  root_compress _ forest member other

theorem get?_root (forest : UnionFind K) (member : K)
    : forest.parents.get? (forest.root member) = none := by
  obtain ⟨_, _, leads⟩ := forest.leads_root member
  exact leads.top

theorem length_keys_set_of_free {member : K} (value : K) (free : parents.get? member = none)
    : (parents.set member value).keys.length = parents.keys.length + 1 := by
  have fresh : member ∉ parents.keys := OrderedMap.get?_eq_none_iff.mp free
  have same : (parents.set member value).keys.Perm (member :: parents.keys) := by
    refine (List.perm_ext_iff_of_nodup (OrderedMap.keys_nodup _)
      (List.nodup_cons.mpr ⟨fresh, OrderedMap.keys_nodup _⟩)).mpr fun key => ?_
    rw [OrderedMap.mem_keys_set, List.mem_cons]
  rw [same.length_eq, List.length_cons]

/-- Hang one root under another. -/
def hang (forest : UnionFind K) (left right : K) (apart : forest.root left ≠ forest.root right)
    : UnionFind K where
  parents := forest.parents.set (forest.root left) (forest.root right)
  rooted := by
    intro other
    obtain ⟨length, bound, leads⟩ := forest.leads_root other
    obtain ⟨longer, longerBound, path⟩ :=
      leads.hang (forest.get?_root left) (forest.get?_root right) apart
    refine ⟨longer, ?_, _, path⟩
    rw [length_keys_set_of_free _ (forest.get?_root left)]
    exact Nat.le_trans longerBound (Nat.succ_le_succ bound)

/-- Merge the classes of two members. -/
def join (forest : UnionFind K) (left right : K) : UnionFind K :=
  let compressed := ((forest.owner left).2.owner right).2
  if apart : compressed.root left ≠ compressed.root right then compressed.hang left right apart
  else compressed

theorem root_join (forest : UnionFind K) (left right other : K)
    : (forest.join left right).root other
      = if forest.root other = forest.root left then forest.root right else forest.root other := by
  unfold join
  dsimp only
  split
  · rename_i apart
    obtain ⟨_, _, leads⟩ := ((forest.owner left).2.owner right).2.leads_root other
    obtain ⟨_, _, path⟩ := leads.hang (get?_root _ left) (get?_root _ right) apart
    have found : (hang _ left right apart).root other = _ := root_eq path
    simpa only [root_owner] using found
  · rename_i together
    simp only [root_owner, ne_eq, not_not] at together ⊢
    split
    · rename_i same
      exact same.trans together
    · rfl

/-- The classes are those the joins made: the members of one class are connected by them. -/
def Connects (forest : UnionFind K) (joined : K → K → Prop) : Prop :=
  ∀ left right, forest.root left = forest.root right ↔ Relation.EqvGen joined left right

theorem connects_empty : (empty : UnionFind K).Connects fun _ _ => False := by
  have self (member : K) : (empty : UnionFind K).root member = member := rfl
  intro left right
  rw [self, self]
  refine ⟨fun same => same ▸ .refl _, fun related => ?_⟩
  induction related with
  | rel _ _ impossible => exact impossible.elim
  | refl _ => rfl
  | symm _ _ _ ih => exact ih.symm
  | trans _ _ _ _ _ first second => exact first.trans second

/-- A join connects its two members and changes nothing else. -/
theorem Connects.join (connects : forest.Connects joined) (left right : K)
    : (forest.join left right).Connects fun first second =>
        joined first second ∨ first = left ∧ second = right := by
  have old {first second : K} (related : Relation.EqvGen joined first second)
      : Relation.EqvGen (fun first second => joined first second ∨ first = left ∧ second = right)
          first second :=
    related.mono fun _ _ => .inl
  have added
      : Relation.EqvGen (fun first second => joined first second ∨ first = left ∧ second = right)
          left right :=
    .rel _ _ (.inr ⟨rfl, rfl⟩)
  intro first second
  rw [root_join, root_join]
  constructor
  · intro same
    by_cases firstLeft : forest.root first = forest.root left
    · have toRight := (old ((connects first left).mp firstLeft)).trans _ _ _ added
      rw [if_pos firstLeft] at same
      by_cases secondLeft : forest.root second = forest.root left
      · exact old ((connects first second).mp (firstLeft.trans secondLeft.symm))
      · rw [if_neg secondLeft] at same
        exact toRight.trans _ _ _ (old ((connects right second).mp same))
    · rw [if_neg firstLeft] at same
      by_cases secondLeft : forest.root second = forest.root left
      · rw [if_pos secondLeft] at same
        have fromRight := added.symm.trans _ _ _ (old ((connects left second).mp secondLeft.symm))
        exact (old ((connects first right).mp same)).trans _ _ _ fromRight
      · rw [if_neg secondLeft] at same
        exact old ((connects first second).mp same)
  · intro related
    induction related with
    | rel first second either =>
        rcases either with before | both
        · rw [(connects first second).mpr (.rel _ _ before)]
        · rw [both.1, both.2, if_pos rfl]
          split <;> rfl
    | refl _ => rfl
    | symm _ _ _ ih => exact ih.symm
    | trans _ _ _ _ _ first second => exact first.trans second

theorem Connects.congr {other : K → K → Prop} (connects : forest.Connects joined)
    (same : ∀ left right, joined left right ↔ other left right)
    : forest.Connects other := by
  have equal : joined = other := funext fun left => funext fun right => propext (same left right)
  exact equal ▸ connects

/-- Joining one member with each of a list, by induction over the list. -/
theorem Connects.joinAll (connects : forest.Connects joined) (left : K) (members : List K)
    : (members.foldl (fun forest right => forest.join left right) forest).Connects
        fun first second => joined first second ∨ first = left ∧ second ∈ members := by
  induction members generalizing forest joined with
  | nil => exact connects.congr fun first second => by simp
  | cons right rest ih =>
      refine (ih (connects.join left right)).congr fun first second => ?_
      rw [List.mem_cons, or_assoc, ← and_or_left]

/-- Forests that the same joins made have the same classes. -/
theorem Connects.same_root_iff {other : UnionFind K} (connects : forest.Connects joined)
    (again : other.Connects joined) (left right : K)
    : forest.root left = forest.root right ↔ other.root left = other.root right :=
  (connects left right).trans (again left right).symm

end UnionFind

end SpeculativeAction.Library
