import SpeculativeAction.Library.JointChoice
import SpeculativeAction.PatternBindings.Expansion

/-! The join of rows is a joint choice: one row of each member, no two of which read one collection
at different positions. Members of different groups share no collection, so that joining the groups
one by one joins all members.
-/

namespace SpeculativeAction.PatternBindings

open SpeculativeAction.Library

-- Joined rows

section Joined

/-- The rows read no collection at different positions. -/
def Compatible (first second : BindingRow) : Prop :=
  ∀ source position other,
    first.sources.get? source = some position
    → second.sources.get? source = some other
    → position = other

variable {row next other : BindingRow}

theorem Compatible.symm (together : Compatible row next) : Compatible next row :=
  fun source position other here there => (together source other position there here).symm

theorem conflicts_eq_false_iff : row.conflicts next = false ↔ Compatible row next := by
  rw [BindingRow.conflicts, List.any_eq_false]
  constructor
  · intro apart source position found here there
    have same := apart (source, found) (OrderedMap.get?_eq_some_iff.mp there)
    have stored : row.sources.has source = true :=
      OrderedMap.has_iff.mpr (OrderedMap.mem_keys_iff.mpr ⟨position, here⟩)
    simp only [stored, Bool.true_and, decide_eq_true_eq, not_not] at same
    exact Option.some.inj (here.symm.trans same)
  · intro together entry member conflict
    obtain ⟨stored, different⟩ := Bool.and_eq_true_iff.mp conflict
    obtain ⟨position, here⟩ := OrderedMap.mem_keys_iff.mp (OrderedMap.has_iff.mp stored)
    have there := OrderedMap.get?_eq_some_iff.mpr member
    exact of_decide_eq_true different (here.trans (congrArg some (together _ _ _ here there)))

/-- What follows is compatible with both rows that are put together. -/
theorem compatible_append_iff (together : Compatible row next)
    : Compatible (row.append next) other ↔ Compatible row other ∧ Compatible next other := by
  have built : (row.append next).sources
      = OrderedMap.updateAll (fun _ position => position) next.sources.entries row.sources := rfl
  have later {source : JsString} {position : ℕ} (found : next.sources.get? source = some position)
      : (row.append next).sources.get? source = some position := by
    rw [built]
    exact OrderedMap.get?_updateAll_of_mem _ next.sources.distinct
      (OrderedMap.get?_eq_some_iff.mp found) _
  have earlier {source : JsString} (absent : next.sources.get? source = none)
      : (row.append next).sources.get? source = row.sources.get? source := by
    rw [built]
    exact OrderedMap.get?_updateAll_of_not_mem _ (OrderedMap.get?_eq_none_iff.mp absent) _
  constructor
  · refine fun whole => ⟨fun source position found here there => ?_,
      fun source position found here there => whole source position found (later here) there⟩
    cases second : next.sources.get? source with
    | none => exact whole source position found ((earlier second).trans here) there
    | some value =>
        rw [together source position value here second]
        exact whole source value found (later second) there
  · rintro ⟨first, second⟩ source position found here there
    cases read : next.sources.get? source with
    | none => exact first source position found ((earlier read).symm.trans here) there
    | some value =>
        obtain rfl : value = position := Option.some.inj ((later read).symm.trans here)
        exact second source value found read there

/-- A joined row is a choice of compatible rows, one of each group, put together. -/
theorem mem_joinFrom {groups : List (List BindingRow)} {start : BindingRow}
    : row ∈ joinFrom groups start
      ↔ ∃ rows : List BindingRow,
          List.Forall₂ (· ∈ ·) rows groups
          ∧ (∀ next ∈ rows, Compatible start next)
          ∧ rows.Pairwise Compatible
          ∧ row = rows.foldl BindingRow.append start := by
  induction groups generalizing start with
  | nil =>
      rw [joinFrom, List.mem_singleton]
      constructor
      · rintro rfl
        exact ⟨[], .nil, fun _ member => absurd member List.not_mem_nil, .nil, rfl⟩
      · rintro ⟨rows, each, _, _, rfl⟩
        cases each
        rfl
  | cons choices rest ih =>
      rw [joinFrom, List.mem_flatMap]
      constructor
      · rintro ⟨next, chosen, member⟩
        split at member
        · cases member
        · next passes =>
            have together := conflicts_eq_false_iff.mp (Bool.eq_false_iff.mpr passes)
            obtain ⟨rows, each, compatible, pairs, rfl⟩ := ih.mp member
            have both := fun other inside => (compatible_append_iff together).mp (compatible other inside)
            exact ⟨next :: rows, .cons chosen each,
              List.forall_mem_cons.mpr ⟨together, fun other inside => (both other inside).1⟩,
              List.pairwise_cons.mpr ⟨fun other inside => (both other inside).2, pairs⟩, rfl⟩
      · rintro ⟨rows, each, compatible, pairs, rfl⟩
        cases each with
        | @cons next _ rows _ chosen each =>
            obtain ⟨together, later⟩ := List.forall_mem_cons.mp compatible
            obtain ⟨first, others⟩ := List.pairwise_cons.mp pairs
            refine ⟨next, chosen, ?_⟩
            rw [conflicts_eq_false_iff.mpr together, if_neg Bool.false_ne_true]
            exact ih.mpr ⟨rows, each, fun other inside => (compatible_append_iff together).mpr
              ⟨later other inside, first other inside⟩, others, rfl⟩

/-- The values of rows that are put together stand one behind the other. -/
theorem values_foldl (rows : List BindingRow) (start : BindingRow)
    : (rows.foldl BindingRow.append start).values
      = start.values ++ rows.flatMap BindingRow.values := by
  induction rows generalizing start with
  | nil => exact (List.append_nil _).symm
  | cons next rest ih =>
      rw [List.foldl_cons, ih, List.flatMap_cons, ← List.append_assoc]
      rfl

/-- The values that a join gives: those of compatible rows, one of each group. -/
theorem mem_values_joinBindingRows {groups : List (List BindingRow)} {values : List Data}
    : values ∈ (joinBindingRows groups).map BindingRow.values
      ↔ ∃ rows : List BindingRow,
          List.Forall₂ (· ∈ ·) rows groups
          ∧ rows.Pairwise Compatible
          ∧ values = rows.flatMap BindingRow.values := by
  rw [joinBindingRows, List.mem_map]
  have start (next : BindingRow) : Compatible ⟨[], .empty⟩ next := by
    intro source position other here
    cases here
  constructor
  · rintro ⟨row, member, rfl⟩
    obtain ⟨rows, each, _, pairs, rfl⟩ := mem_joinFrom.mp member
    exact ⟨rows, each, pairs, values_foldl rows _⟩
  · rintro ⟨rows, each, pairs, rfl⟩
    exact ⟨_, mem_joinFrom.mpr ⟨rows, each, fun next _ => start next, pairs, rfl⟩,
      values_foldl rows _⟩

end Joined

-- Rows of a binding

section Single

variable {cwd : JsString} {context : List PatternAwareEvent}

/-- Every row of a binding has one value. -/
def Single (rows : List BindingRow) : Prop := ∀ row ∈ rows, row.values.length = 1

theorem single_composite (derive : List JsString → List JsString)
    (children : List (List BindingRow))
    : Single (composite derive children) := by
  intro row member
  obtain ⟨joined, _, inside⟩ := List.mem_flatMap.mp member
  split at inside
  · cases inside
  · obtain ⟨text, _, rfl⟩ := List.mem_map.mp inside
    rfl

theorem single_firstRows {groups : List (List BindingRow)} (each : ∀ rows ∈ groups, Single rows)
    : Single (firstRows groups) := by
  induction groups with
  | nil => exact fun _ member => absurd member List.not_mem_nil
  | cons rows rest ih =>
      obtain ⟨here, later⟩ := List.forall_mem_cons.mp each
      rw [firstRows]
      split
      · exact ih later
      · exact here

mutual

theorem single_bindingRows (binding : PatternAwareBinding)
    : Single (bindingRows cwd context binding) := by
  cases binding with
  | constant value =>
      rw [bindingRows]
      exact fun row member => by rw [List.mem_singleton.mp member]; rfl
  | event relativeEvent field path =>
      rw [bindingRows]
      split
      · exact fun _ member => absurd member List.not_mem_nil
      · split
        · exact fun _ member => absurd member List.not_mem_nil
        · exact fun row member => by rw [List.mem_singleton.mp member]; rfl
  | each relativeEvent field path itemPath =>
      rw [bindingRows]
      split
      · exact fun _ member => absurd member List.not_mem_nil
      · split
        · intro row member
          obtain ⟨item, _, made⟩ := List.mem_filterMap.mp member
          obtain ⟨value, _, rfl⟩ := Option.map_eq_some_iff.mp made
          rfl
        · exact fun _ member => absurd member List.not_mem_nil
  | transform operation source => rw [bindingRows]; exact single_composite _ _
  | coalesce sources =>
      rw [bindingRows]
      exact single_firstRows (single_bindingsRows sources)
  | template source ahead behind => rw [bindingRows]; exact single_composite _ _
  | splice sources parts => rw [bindingRows]; exact single_composite _ _
  | rebase source start target => rw [bindingRows]; exact single_composite _ _
  | near source tolerance =>
      rw [bindingRows]
      exact single_bindingRows source
  | join left right => rw [bindingRows]; exact single_composite _ _

theorem single_bindingsRows (bindings : List PatternAwareBinding)
    : ∀ rows ∈ bindingsRows cwd context bindings, Single rows := by
  cases bindings with
  | nil =>
      rw [bindingsRows]
      exact fun _ member => absurd member List.not_mem_nil
  | cons binding rest =>
      rw [bindingsRows]
      exact List.forall_mem_cons.mpr ⟨single_bindingRows binding, single_bindingsRows rest⟩

end

end Single

-- Groups

section Groups

/-- Every collection that a member reads belongs to its group, and to no other. -/
structure Connected (groups : List Group) : Prop where
  owned : ∀ group ∈ groups, ∀ member ∈ group.members, ∀ source ∈ sourcesOf member.rows,
    source ∈ group.sources
  apart : groups.Pairwise fun group next => ∀ source ∈ group.sources, source ∉ next.sources

theorem touches_eq_false_iff {group : Group} {sources : List JsString}
    : group.touches sources = false ↔ ∀ source ∈ sources, source ∉ group.sources := by
  rw [Group.touches, List.any_eq_false]
  exact forall₂_congr fun source _ => by rw [decide_eq_true_eq]

theorem Connected.addMember {groups : List Group} (connected : Connected groups) (member : Member)
    : Connected (addMember groups member) := by
  have untouched {list : List Group} {group : Group}
      (inside : group ∈ list.filter fun group => !group.touches (sourcesOf member.rows))
      : ∀ source ∈ sourcesOf member.rows, source ∉ group.sources :=
    touches_eq_false_iff.mp (by simpa using (List.mem_filter.mp inside).2)
  rw [PatternBindings.addMember]
  simp only
  split
  · next nothing =>
      have free : ∀ group ∈ groups, ∀ source ∈ sourcesOf member.rows, source ∉ group.sources := by
        intro group listed
        have passes := List.filter_eq_nil_iff.mp nothing group listed
        exact touches_eq_false_iff.mp (Bool.eq_false_iff.mpr passes)
      refine ⟨fun group listed => ?_, List.pairwise_append.mpr
        ⟨connected.apart, List.pairwise_singleton _ _, fun group listed next last => ?_⟩⟩
      · rcases List.mem_append.mp listed with earlier | last
        · exact connected.owned group earlier
        · rw [List.mem_singleton.mp last]
          intro other own
          rw [List.mem_singleton.mp own]
          exact fun source inside => inside
      · rw [List.mem_singleton.mp last]
        exact fun source own inside => free group listed source inside own
  · next first others found =>
      obtain ⟨tail, dropped, kept⟩ := dropWhile_of_filter found
      have parts : groups.takeWhile (fun group => !group.touches (sourcesOf member.rows))
          ++ (first :: tail) = groups := by
        rw [← dropped]
        exact List.takeWhile_append_dropWhile
      have before : ∀ group ∈ groups.takeWhile fun group =>
          !group.touches (sourcesOf member.rows),
          ∀ source ∈ sourcesOf member.rows, source ∉ group.sources := fun group listed =>
        touches_eq_false_iff.mp (by simpa using List.mem_takeWhile_imp listed)
      have apart := connected.apart
      rw [← parts] at apart
      obtain ⟨ahead, behind, across⟩ := List.pairwise_append.mp apart
      obtain ⟨firstApart, tailApart⟩ := List.pairwise_cons.mp behind
      have inTail {group : Group} (listed : group ∈ others) : group ∈ tail :=
        List.mem_of_mem_filter (kept ▸ listed)
      have inGroups {group : Group} (listed : group ∈ first :: tail) : group ∈ groups := by
        rw [← parts]
        exact List.mem_append_right _ listed
      -- An untouched group shares nothing with any part of the merged one.
      have clear {group : Group}
          (alone : ∀ source ∈ sourcesOf member.rows, source ∉ group.sources)
          (fromFirst : ∀ source ∈ group.sources, source ∉ first.sources)
          (fromOthers : ∀ other ∈ others, ∀ source ∈ group.sources, source ∉ other.sources)
          : ∀ source ∈ group.sources,
              source ∉ first.sources ++ others.flatMap Group.sources ++ sourcesOf member.rows := by
        intro source own inside
        rcases List.mem_append.mp inside with both | new
        · rcases List.mem_append.mp both with start | merged
          · exact fromFirst source own start
          · obtain ⟨other, listed, there⟩ := List.mem_flatMap.mp merged
            exact fromOthers other listed source own there
        · exact alone source new own
      have splits := (List.filter_append_perm
        (fun group : Group => group.touches (sourcesOf member.rows)) tail).symm
      rw [dropped, List.tail_cons]
      refine ⟨fun group listed => ?_, List.pairwise_append.mpr ⟨ahead, List.pairwise_cons.mpr
        ⟨fun next listed => ?_, tailApart.sublist List.filter_sublist⟩, fun group listed next later => ?_⟩⟩
      · rcases List.mem_append.mp listed with earlier | later
        · exact connected.owned group ((List.takeWhile_sublist _).subset earlier)
        · rcases List.mem_cons.mp later with rfl | rest
          · intro other own source inside
            simp only [List.mem_append, List.mem_flatMap, List.mem_singleton] at own ⊢
            rcases own with (start | ⟨group, listed, there⟩) | rfl
            · exact .inl (.inl (connected.owned first (inGroups List.mem_cons_self) other start
                source inside))
            · exact .inl (.inr ⟨group, listed, connected.owned group
                (inGroups (List.mem_cons_of_mem _ (inTail listed))) other there source inside⟩)
            · exact .inr inside
          · exact connected.owned group
              (inGroups (List.mem_cons_of_mem _ (List.mem_of_mem_filter rest)))
      · intro source inside own
        refine clear (untouched listed)
          (fun source own inside => firstApart next (List.mem_of_mem_filter listed) source inside own)
          (fun other merged source own inside => ?_) source own inside
        have order := splits.pairwise_iff (R := fun group next : Group =>
          ∀ source ∈ group.sources, source ∉ next.sources)
          (fun separate source there here => separate source here there)
        obtain ⟨_, _, cross⟩ := List.pairwise_append.mp (order.mp tailApart)
        exact cross other (kept ▸ merged) next listed source inside own
      · rcases List.mem_cons.mp later with rfl | rest
        · exact clear (before group listed) (across group listed first List.mem_cons_self)
            fun other merged => across group listed other (List.mem_cons_of_mem _ (inTail merged))
        · exact across group listed next (List.mem_cons_of_mem _ (List.mem_of_mem_filter rest))

theorem connected_groupsOf (members : List Member) : Connected (groupsOf members) := by
  have general : ∀ groups : List Group, Connected groups →
      Connected (members.foldl PatternBindings.addMember groups) := by
    induction members with
    | nil => exact fun _ connected => connected
    | cons member rest ih => exact fun groups connected => ih _ (connected.addMember member)
  exact general [] ⟨fun _ listed => absurd listed List.not_mem_nil, .nil⟩

/-- Rows of members of different groups are always compatible. -/
theorem Connected.compatible {groups : List Group} (connected : Connected groups)
    : groups.Pairwise fun group next =>
        ∀ member ∈ group.members, ∀ other ∈ next.members, ∀ row ∈ member.rows,
          ∀ found ∈ other.rows, Compatible row found := by
  refine connected.apart.imp_of_mem fun {group next} listed later apart member own other there
    row inRows found inFound source position place here after => ?_
  have source_of {other : Member} {row : BindingRow} (inside : row ∈ other.rows) {position : ℕ}
      (read : row.sources.get? source = some position)
      : source ∈ sourcesOf other.rows :=
    List.mem_flatMap.mpr ⟨row, inside, OrderedMap.mem_keys_iff.mpr ⟨position, read⟩⟩
  exact absurd (connected.owned next later other there source (source_of inFound after))
    (apart source (connected.owned group listed member own source (source_of inRows here)))

end Groups

end SpeculativeAction.PatternBindings
