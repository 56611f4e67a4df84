import SpeculativeAction.WorkspaceDiff.Replay

/-! What the effects of a complete diff are, name by name, and why their order is valid. -/

namespace SpeculativeAction.WorkspaceDiff

open SpeculativeAction.Library
open SpeculativeAction.Library.PosixPath

-- The order of the effects

section Order

variable {Value : Type} {host : Host} {order : Value → ChangeRank}

/-- Ranks compare by phase, by depth and by the host's order of keys. -/
theorem compareRanks_transCmp (host : Host) : Std.TransCmp (compareRanks host) := by
  have keys := host.localeOrder
  have byKey : Std.TransCmp fun left right : ChangeRank =>
      host.localeCompare left.key right.key :=
    { eq_swap := keys.eq_swap, isLE_trans := keys.isLE_trans }
  have byDepth : Std.TransCmp (compareLex (compareOn ChangeRank.depth)
      fun left right : ChangeRank => host.localeCompare left.key right.key) :=
    inferInstance
  have byPhase : Std.TransCmp (compareLex (compareOn ChangeRank.phase)
      (compareLex (compareOn ChangeRank.depth)
        fun left right : ChangeRank => host.localeCompare left.key right.key)) :=
    inferInstance
  exact byPhase

theorem rankLe_iff_isLE {left right : ChangeRank}
    : RankLe host left right ↔ (compareRanks host left right).isLE = true := by
  rw [RankLe]
  cases compareRanks host left right <;> simp

theorem orderWorkspaceChanges_perm (values : List Value)
    : (orderWorkspaceChanges host order values).Perm values := by
  rw [orderWorkspaceChanges]
  split
  · exact List.Perm.refl _
  · exact List.perm_insertionSort _ _

theorem orderWorkspaceChanges_sorted (values : List Value)
    : (orderWorkspaceChanges host order values).Pairwise fun left right =>
        RankLe host (order left) (order right) := by
  have laws := compareRanks_transCmp host
  have total : Std.Total fun left right : Value => RankLe host (order left) (order right) := by
    refine ⟨fun left right => ?_⟩
    rw [rankLe_iff_isLE, rankLe_iff_isLE]
    have swapped := laws.eq_swap (a := order left) (b := order right)
    rw [swapped]
    cases compareRanks host (order right) (order left) <;> simp
  have transitive
      : IsTrans Value fun left right => RankLe host (order left) (order right) := by
    refine ⟨fun left middle right before after => ?_⟩
    rw [rankLe_iff_isLE] at before after ⊢
    exact laws.isLE_trans before after
  rw [orderWorkspaceChanges]
  split
  next short =>
    match values, short with
    | [], _ => exact List.Pairwise.nil
    | [value], _ => exact List.pairwise_singleton _ _
  next => exact List.pairwise_insertionSort _ _

/-- A later value is of no earlier phase, and of no smaller depth within its phase. -/
theorem RankLe.phase_le {left right : ChangeRank} (before : RankLe host left right)
    : left.phase ≤ right.phase ∧ (left.phase = right.phase → left.depth ≤ right.depth) := by
  rw [RankLe, compareRanks] at before
  have phases : compare left.phase right.phase ≠ .gt := by
    intro greater
    simp [greater] at before
  refine ⟨compare_le_iff_le.mp phases, fun same => ?_⟩
  have equal : compare left.phase right.phase = .eq := compare_eq_iff_eq.mpr same
  rw [equal, Ordering.then] at before
  refine compare_le_iff_le.mp fun greater => ?_
  simp [greater] at before

end Order

-- The effect of one name

section Names

variable {context : DiffContext} {name : JsString} {effect : TransactionEffect}

/-- What a change says of the entries at its name. -/
inductive NameChange (context : DiffContext) (name : JsString) : EffectChange → Prop
  | file {delta change} (known : context.byPath.get? name = some delta)
    (sameBefore : change.before = delta.before) (sameAfter : change.after = delta.after)
    (checked
      : regularDeltaFailure name (context.before.entries.get? name)
          (context.after.entries.get? name) delta = none)
    : NameChange context name (.file change)
  | created {directory} (absent : context.before.entries.get? name = none)
    (present : context.after.entries.get? name = some (.directory directory))
    : NameChange context name (.directory none (some directory))
  | removed {directory}
    (present : context.before.entries.get? name = some (.directory directory))
    (absent : context.after.entries.get? name = none)
    : NameChange context name (.directory (some directory) none)

/-- Two results of a map over `Except`. -/
theorem map_eq_ok {α β ε : Type} {f : α → β} {result : Except ε α} {value : β}
    (found : result.map f = .ok value)
    : ∃ inner, result = .ok inner ∧ f inner = value := by
  cases result with
  | error reason => cases found
  | ok inner => exact ⟨inner, rfl, Except.ok.inj found⟩

theorem bind_eq_ok {α β ε : Type} {f : α → Except ε β} {result : Except ε α} {value : β}
    (found : result.bind f = .ok value)
    : ∃ inner, result = .ok inner ∧ f inner = .ok value := by
  cases result with
  | error reason => cases found
  | ok inner => exact ⟨inner, rfl, found⟩

/-- Two changes with the same bytes before and after. -/
def SameContents (left right : RegularDelta) : Prop :=
  left.before = right.before ∧ left.after = right.after

theorem withAfterNames_contents (context : DiffContext) (name : JsString) (delta : RegularDelta)
    : SameContents (context.withAfterNames name delta) delta := by
  rw [DiffContext.withAfterNames]
  split <;> exact ⟨rfl, rfl⟩

theorem withBeforeNames_contents (context : DiffContext) (name : JsString) (change : RegularDelta)
    : SameContents (context.withBeforeNames name change) change := by
  rw [DiffContext.withBeforeNames]
  split <;> exact ⟨rfl, rfl⟩

theorem referTo_contents {anchor : JsString} {original : Bool} {change result : RegularDelta}
    (found : context.referTo name anchor original change = .ok result)
    : SameContents result change := by
  rw [DiffContext.referTo] at found
  split at found
  · split at found
    · rw [← Except.ok.inj found]
      exact ⟨rfl, rfl⟩
    · cases found
  · rw [← Except.ok.inj found]
    exact ⟨rfl, rfl⟩

theorem withObject_contents {object : JsString} {current : FileEntry}
    {delta change result : RegularDelta}
    (found : context.withObject name object current delta change = .ok result)
    : SameContents result change := by
  rw [DiffContext.withObject] at found
  split at found
  · obtain ⟨linked, referred, same⟩ := map_eq_ok found
    have kept := referTo_contents referred
    rw [← same]
    split
    · exact kept
    · exact kept
  · exact referTo_contents found

/-- The bytes of a change are those of its delta. -/
theorem fileChange_contents {delta result : RegularDelta}
    (found : context.fileChange name delta = .ok result)
    : SameContents result delta := by
  have outer := withBeforeNames_contents context name (context.withAfterNames name delta)
  have inner := withAfterNames_contents context name delta
  have named
      : SameContents (context.withBeforeNames name (context.withAfterNames name delta)) delta :=
    ⟨outer.1.trans inner.1, outer.2.trans inner.2⟩
  rw [DiffContext.fileChange] at found
  split at found
  · rw [← Except.ok.inj found]
    exact named
  · split at found
    · rw [← Except.ok.inj found]
      exact named
    · split at found
      · rw [← Except.ok.inj found]
        exact named
      · have linked := withObject_contents found
        exact ⟨linked.1.trans named.1, linked.2.trans named.2⟩

/-- A name's effect is for that name and says what its entries are. -/
theorem nameEffect_some (found : context.nameEffect name = .ok (some effect))
    : effect.relativePath = name ∧ NameChange context name effect.change := by
  rw [DiffContext.nameEffect] at found
  split at found
  next delta known =>
    rw [DiffContext.deltaEffect] at found
    split at found
    · cases found
    · next checked =>
        obtain ⟨change, made, same⟩ := map_eq_ok found
        obtain ⟨sameBefore, sameAfter⟩ := fileChange_contents made
        rw [← Option.some.inj same]
        exact ⟨rfl, NameChange.file known sameBefore sameAfter checked⟩
  next =>
    rw [DiffContext.structureEffect] at found
    split at found
    · cases found
    · split at found
      · split at found <;> cases found
      · next absent present =>
          rw [← Option.some.inj (Except.ok.inj found)]
          exact ⟨rfl, NameChange.created absent present⟩
      · next present absent =>
          rw [← Option.some.inj (Except.ok.inj found)]
          exact ⟨rfl, NameChange.removed present absent⟩
      · cases found
      · cases found
      · cases found

/-- A name without an effect has no delta, and its entries are the same or two directories. -/
theorem nameEffect_none (found : context.nameEffect name = .ok none)
    : context.byPath.get? name = none
      ∧ (sameStructureEntry context.host (context.before.entries.get? name)
            (context.after.entries.get? name) = true
          ∨ (context.before.directoryAt name).isSome
            ∧ (context.after.directoryAt name).isSome) := by
  rw [DiffContext.nameEffect] at found
  split at found
  next delta known =>
    rw [DiffContext.deltaEffect] at found
    split at found
    · cases found
    · obtain ⟨change, -, same⟩ := map_eq_ok found
      cases same
  next missing =>
    refine ⟨missing, ?_⟩
    rw [DiffContext.structureEffect] at found
    split at found
    · next same => exact Or.inl same
    · right
      split at found
      · next previous current =>
          rw [StructureSnapshot.directoryAt, StructureSnapshot.directoryAt, previous, current]
          exact ⟨rfl, rfl⟩
      · cases found
      · cases found
      · cases found
      · cases found
      · cases found

end Names

-- Entries, nodes and deltas

section Entries

variable {host : Host} {before after : StructureSnapshot} {name : JsString}
  {snapshot : StructureSnapshot}

theorem sameStructureEntry_kind {left right : Option StructureEntry}
    (same : sameStructureEntry host left right = true)
    : left.map StructureEntry.kind = right.map StructureEntry.kind := by
  cases left with
  | none =>
      cases right with
      | none => rfl
      | some right => cases same
  | some left =>
      cases right with
      | none => cases same
      | some right =>
          simp only [sameStructureEntry] at same
          cases left <;> cases right <;> first | rfl | cases same

theorem StructureSnapshot.directoryAt_isSome (directory : (snapshot.directoryAt name).isSome = true)
    : ∃ entry, snapshot.entries.get? name = some (.directory entry) := by
  rw [StructureSnapshot.directoryAt] at directory
  cases found : snapshot.entries.get? name with
  | none => simp [found] at directory
  | some entry =>
      cases entry with
      | directory entry => exact ⟨entry, rfl⟩
      | file entry => simp [found, StructureEntry.directory?] at directory
      | symlink entry => simp [found, StructureEntry.directory?] at directory
      | unsupported entry => simp [found, StructureEntry.directory?] at directory

/-- The tree of a snapshot has the node of each entry. -/
theorem StructureSnapshot.get?_tree (snapshot : StructureSnapshot)
    (contents : JsString → ContentVersion) (name : JsString)
    : (snapshot.tree contents).get? name
      = (snapshot.entries.get? name).map (fun entry => entry.node (contents name)) := by
  ext node
  rw [OrderedMap.get?_eq_some_iff, Option.map_eq_some_iff]
  constructor
  · intro member
    obtain ⟨⟨key, entry⟩, stored, same⟩ := List.mem_map.mp member
    obtain ⟨rfl, rfl⟩ := Prod.mk.inj same
    exact ⟨entry, OrderedMap.get?_eq_some_iff.mpr stored, rfl⟩
  · intro found
    obtain ⟨entry, stored, same⟩ := found
    exact List.mem_map.mpr ⟨(name, entry), OrderedMap.get?_eq_some_iff.mp stored,
      Prod.ext rfl same⟩

theorem StructureEntry.node_kind (entry : StructureEntry) (content : ContentVersion)
    : (entry.node content).kind = entry.kind := by
  cases entry <;> rfl

theorem TreeNode.kind_eq_directory {node : TreeNode}
    : node.kind = .directory ↔ HoldsEntries node := by
  cases node <;> simp [TreeNode.kind, HoldsEntries]

/-- A well-formed snapshot is a rooted tree. -/
theorem StructureSnapshot.WellFormed.rooted (wellFormed : snapshot.WellFormed)
    (contents : JsString → ContentVersion)
    : Rooted workspaceParentage HoldsEntries (snapshot.tree contents).get? := by
  intro name node present inner
  rw [StructureSnapshot.get?_tree, Option.map_eq_some_iff] at present
  obtain ⟨entry, stored, -⟩ := present
  obtain ⟨parent, directory, above, held⟩ := wellFormed name entry stored inner
  refine ⟨parent, .directory, above, ?_, rfl⟩
  rw [StructureSnapshot.get?_tree, held]
  rfl

theorem beforeFailure_none {previous : Option StructureEntry} {delta : RegularDelta}
    (checked : beforeFailure name previous delta = none)
    : (delta.before = none ∧ previous = none)
      ∨ ∃ content entry, delta.before = some content ∧ previous = some (.file entry) := by
  cases known : delta.before with
  | none =>
      cases previous with
      | none => exact Or.inl ⟨rfl, rfl⟩
      | some entry => simp [beforeFailure, known] at checked
  | some content =>
      cases previous with
      | none => simp [beforeFailure, known] at checked
      | some entry =>
          cases entry with
          | file entry => exact Or.inr ⟨content, entry, rfl, rfl⟩
          | directory entry => simp [beforeFailure, known] at checked
          | symlink entry => simp [beforeFailure, known] at checked
          | unsupported entry => simp [beforeFailure, known] at checked

theorem afterFailure_none {previous current : Option StructureEntry} {delta : RegularDelta}
    (checked : afterFailure name previous current delta = none)
    : (delta.after = none ∧ delta.before ≠ none ∧ current = none)
      ∨ ∃ content entry, delta.after = some content ∧ current = some (.file entry) := by
  cases known : delta.after with
  | none =>
      simp only [afterFailure, known, ite_eq_right_iff, reduceCtorEq, imp_false,
        Bool.or_eq_true, not_or] at checked
      exact Or.inl ⟨rfl, by simpa using checked.1, by simpa using checked.2⟩
  | some content =>
      cases current with
      | none => simp [afterFailure, known] at checked
      | some entry =>
          cases entry with
          | file entry => exact Or.inr ⟨content, entry, rfl, rfl⟩
          | directory entry => simp [afterFailure, known] at checked
          | symlink entry => simp [afterFailure, known] at checked
          | unsupported entry => simp [afterFailure, known] at checked

/-- The table of deltas holds exactly the given ones, each under its normalized path. -/
theorem deltasByPath_spec {deltas : List RegularDelta}
    {byPath result : OrderedMap JsString RegularDelta}
    (found : deltasByPath host deltas byPath = .ok result)
    : (∀ delta ∈ deltas, normalize delta.relativePath ≠ []
        ∧ result.get? (normalize delta.relativePath) = some delta)
      ∧ (∀ path delta, byPath.get? path = some delta → result.get? path = some delta)
      ∧ ∀ path delta, result.get? path = some delta →
          byPath.get? path = some delta ∨ delta ∈ deltas ∧ normalize delta.relativePath = path
          := by
  induction deltas generalizing byPath with
  | nil =>
      obtain rfl := Except.ok.inj found
      exact ⟨by simp, fun _ _ stored => stored, fun _ _ stored => Or.inl stored⟩
  | cons delta rest ih =>
      simp only [deltasByPath] at found
      split at found
      · cases found
      next valid =>
        split at found
        · cases found
        · next absent =>
            obtain ⟨listed, kept, only⟩ := ih found
            have fresh : normalize delta.relativePath ∉ byPath.keys := by
              simpa using absent
            refine ⟨?_, ?_, ?_⟩
            · intro other member
              rcases List.mem_cons.mp member with same | later
              · rw [same]
                refine ⟨fun nameless => valid (by simp [nameless]), ?_⟩
                exact kept _ _ (by rw [OrderedMap.get?_set, if_pos rfl])
              · exact listed other later
            · intro path stored known
              refine kept path stored ?_
              have different : path ≠ normalize delta.relativePath := by
                intro same
                exact fresh (OrderedMap.mem_keys_iff.mpr ⟨stored, same ▸ known⟩)
              rw [OrderedMap.get?_set, if_neg different, known]
            · intro path stored known
              rcases only path stored known with earlier | later
              · rw [OrderedMap.get?_set] at earlier
                split at earlier
                next same =>
                  obtain rfl := Option.some.inj earlier
                  exact Or.inr ⟨List.mem_cons_self .., same.symm⟩
                next => exact Or.inl earlier
              · exact Or.inr ⟨List.mem_cons_of_mem _ later.1, later.2⟩

end Entries

-- The effects of all names

section Effects

variable {context : DiffContext} {names : List JsString} {effects : List TransactionEffect}

/-- The effects of the names, one at most for each, and none where the entries agree. -/
structure EffectsOf (context : DiffContext) (names : List JsString)
    (effects : List TransactionEffect)
    : Prop where
  named : (effects.map TransactionEffect.relativePath).Sublist names
  inner : ∀ effect ∈ effects, effect.relativePath ≠ []
  made : ∀ effect ∈ effects, context.nameEffect effect.relativePath = .ok (some effect)
  others
    : ∀ name ∈ names, name ≠ [] → name ∉ effects.map TransactionEffect.relativePath →
        context.nameEffect name = .ok none

theorem EffectsOf.cons_none {name : JsString} (spec : EffectsOf context names effects)
    (found : name = [] ∨ context.nameEffect name = .ok none)
    : EffectsOf context (name :: names) effects where
  named := spec.named.cons name
  inner := spec.inner
  made := spec.made
  others other member inner absent := by
    rcases List.mem_cons.mp member with same | later
    · rcases found with root | nothing
      · exact absurd (same.trans root) inner
      · rw [same, nothing]
    · exact spec.others other later inner absent

theorem EffectsOf.cons_some {name : JsString} {effect : TransactionEffect}
    (spec : EffectsOf context names effects) (inner : name ≠ [])
    (found : context.nameEffect name = .ok (some effect))
    : EffectsOf context (name :: names) (effect :: effects) where
  named := by
    rw [List.map_cons, (nameEffect_some found).1]
    exact spec.named.cons_cons name
  inner other member := by
    rcases List.mem_cons.mp member with same | later
    · rw [same, (nameEffect_some found).1]
      exact inner
    · exact spec.inner other later
  made other member := by
    rcases List.mem_cons.mp member with same | later
    · rw [same, (nameEffect_some found).1, found]
    · exact spec.made other later
  others other member innerOther absent := by
    rw [List.map_cons, List.mem_cons, (nameEffect_some found).1, not_or] at absent
    rcases List.mem_cons.mp member with same | later
    · exact absurd same absent.1
    · exact spec.others other later innerOther absent.2

/-- The loop collects the effects of its names, by induction over them. -/
theorem nameEffects_spec (found : context.nameEffects names = .ok effects)
    : EffectsOf context names effects := by
  induction names generalizing effects with
  | nil =>
      obtain rfl := Except.ok.inj found
      exact ⟨List.Sublist.refl _, by simp, by simp, by simp⟩
  | cons name rest ih =>
      rw [DiffContext.nameEffects] at found
      split at found
      next root => exact (ih found).cons_none (Or.inl root)
      next inner =>
        obtain ⟨one, first, later⟩ := bind_eq_ok found
        obtain ⟨more, remaining, same⟩ := map_eq_ok later
        rw [← same]
        cases one with
        | none => exact (ih remaining).cons_none (Or.inr first)
        | some effect => exact (ih remaining).cons_some inner first

end Effects

-- A complete diff

section Complete

variable {host : Host} {before after : StructureSnapshot}
variable {projection : ExecutionPathProjection} {deltas : List RegularDelta}
variable {beforeContents afterContents : JsString → ContentVersion}
variable {effects : List TransactionEffect}

/-- The effects explain every difference of two snapshots, in an order for replay. -/
structure Explained (host : Host) (before after : StructureSnapshot)
    (beforeContents afterContents : JsString → ContentVersion)
    (effects : List TransactionEffect)
    : Prop where
  distinct : (effects.map TransactionEffect.relativePath).Nodup
  inner : ∀ effect ∈ effects, effect.relativePath ≠ []
  source
    : ∀ effect ∈ effects,
        (before.tree beforeContents).get? effect.relativePath = effect.change.source
  target
    : ∀ effect ∈ effects,
        effect.change.target = (after.tree afterContents).get? effect.relativePath
  real : ∀ effect ∈ effects, effect.change.source = none → effect.change.target ≠ none
  nodes
    : ∀ effect ∈ effects, ∀ node,
        effect.change.source = some node ∨ effect.change.target = some node →
          (effect.change.isDirectory = true ↔ HoldsEntries node)
  oneWay
    : ∀ effect ∈ effects, effect.change.isDirectory = true →
        effect.change.source = none ∨ effect.change.target = none
  sorted
    : effects.Pairwise fun first later => RankLe host (effectRank first) (effectRank later)
  roots : (before.directoryAt []).isSome ∧ (after.directoryAt []).isSome
  others
    : ∀ name, name ∉ effects.map TransactionEffect.relativePath → name ≠ [] →
        sameStructureEntry host (before.entries.get? name) (after.entries.get? name) = true
          ∨ (before.directoryAt name).isSome ∧ (after.directoryAt name).isSome

/-- A change starts and ends in the nodes of its name. -/
theorem NameChange.nodes {context : DiffContext} {name : JsString} {change : EffectChange}
    (said : NameChange context name change)
    (real
      : ∀ delta, context.byPath.get? name = some delta →
          normalize delta.relativePath = name
            ∧ delta.Real context.before context.after beforeContents afterContents)
    : (context.before.tree beforeContents).get? name = change.source
      ∧ change.target = (context.after.tree afterContents).get? name
      ∧ (change.source = none → change.target ≠ none)
      ∧ (∀ node, change.source = some node ∨ change.target = some node →
          (change.isDirectory = true ↔ HoldsEntries node))
      ∧ (change.isDirectory = true → change.source = none ∨ change.target = none) := by
  rw [StructureSnapshot.get?_tree, StructureSnapshot.get?_tree]
  cases said with
  | created absent present =>
      rw [absent, present]
      refine ⟨rfl, rfl, fun _ => Option.some_ne_none _, ?_, fun _ => Or.inl rfl⟩
      intro node held
      rcases held with source | target
      · cases source
      · simp [EffectChange.isDirectory, HoldsEntries, ← Option.some.inj target]
  | removed present absent =>
      rw [absent, present]
      refine ⟨rfl, rfl, fun same => absurd same (Option.some_ne_none _), ?_, fun _ => Or.inr rfl⟩
      intro node held
      rcases held with source | target
      · simp [EffectChange.isDirectory, HoldsEntries, ← Option.some.inj source]
      · cases target
  | @file delta change known sameBefore sameAfter checked =>
      obtain ⟨named, realBefore, realAfter⟩ := real delta known
      rw [named] at realBefore realAfter
      obtain ⟨noBefore, noAfter⟩ := Option.or_eq_none_iff.mp checked
      have sourceNode
          : (context.before.entries.get? name).map
              (fun entry => entry.node (beforeContents name))
            = (EffectChange.file change).source := by
        rw [EffectChange.source, sameBefore]
        rcases beforeFailure_none noBefore with missing | found
        · rw [missing.1, missing.2]
          rfl
        · obtain ⟨content, entry, given, held⟩ := found
          have bytes := realBefore content given (by
            rw [StructureSnapshot.fileAt, held]
            rfl)
          rw [given, held, bytes]
          rfl
      have targetNode
          : (EffectChange.file change).target
            = (context.after.entries.get? name).map
                (fun entry => entry.node (afterContents name)) := by
        rw [EffectChange.target, sameAfter]
        rcases afterFailure_none noAfter with missing | found
        · rw [missing.1, missing.2.2]
          rfl
        · obtain ⟨content, entry, given, held⟩ := found
          have bytes := realAfter content given (by
            rw [StructureSnapshot.fileAt, held]
            rfl)
          rw [given, held, bytes]
          rfl
      refine ⟨sourceNode, targetNode, ?_, ?_, fun directory => absurd directory Bool.false_ne_true⟩
      · intro noSource
        rw [EffectChange.source, sameBefore, Option.map_eq_none_iff] at noSource
        rw [EffectChange.target, sameAfter]
        rcases afterFailure_none noAfter with missing | found
        · exact absurd noSource missing.2.1
        · obtain ⟨content, entry, given, -⟩ := found
          rw [given]
          exact Option.some_ne_none _
      · intro node held
        have leaf : ¬ HoldsEntries node := by
          rcases held with source | target
          · obtain ⟨content, -, same⟩ := Option.map_eq_some_iff.mp source
            simp [← same, HoldsEntries]
          · obtain ⟨content, -, same⟩ := Option.map_eq_some_iff.mp target
            simp [← same, HoldsEntries]
        simp [EffectChange.isDirectory, leaf]

theorem sortNames_perm (names : List JsString) : (sortNames names).Perm names :=
  List.perm_insertionSort _ _

theorem changedRootMetadata_none {left right : Option StructureEntry}
    (same : changedRootMetadata left right = none)
    : (left.bind StructureEntry.directory?).isSome
      ∧ (right.bind StructureEntry.directory?).isSome := by
  unfold changedRootMetadata at same
  split at same
  · exact ⟨rfl, rfl⟩
  · cases same

/-- How a complete diff comes about: the root is kept, the deltas are tabled, and the effects of
the names are put in order.
-/
structure Composed (host : Host) (before after : StructureSnapshot)
    (projection : ExecutionPathProjection) (deltas : List RegularDelta)
    (effects : List TransactionEffect) (byPath : OrderedMap JsString RegularDelta)
    : Prop where
  rootKept : changedRootMetadata (before.entries.get? []) (after.entries.get? []) = none
  tabled : deltasByPath host deltas .empty = .ok byPath
  inner : ∀ effect ∈ effects, effect.relativePath ≠ []
  made
    : ∀ effect ∈ effects,
        (diffContext host before after projection byPath).nameEffect effect.relativePath
          = .ok (some effect)
  others
    : ∀ name,
        name ∈ before.entries.keys ∨ name ∈ after.entries.keys ∨ name ∈ byPath.keys →
          name ≠ [] → name ∉ effects.map TransactionEffect.relativePath →
            (diffContext host before after projection byPath).nameEffect name = .ok none
  distinct : (effects.map TransactionEffect.relativePath).Nodup
  sorted
    : effects.Pairwise fun first later => RankLe host (effectRank first) (effectRank later)

theorem diffEffects_composed (found : diffEffects host before after projection deltas = .ok effects)
    : ∃ byPath, Composed host before after projection deltas effects byPath := by
  rw [diffEffects] at found
  split at found
  · cases found
  split at found
  · cases found
  next rootKept =>
  obtain ⟨byPath, tabled, collected⟩ := bind_eq_ok found
  obtain ⟨unordered, looped, ordered⟩ := map_eq_ok collected
  have spec := nameEffects_spec looped
  have perm : effects.Perm unordered := ordered ▸ orderWorkspaceChanges_perm unordered
  have paths := perm.map TransactionEffect.relativePath
  have namesPerm : (diffContext host before after projection byPath).names.Perm
      (before.entries.keys ++ after.entries.keys ++ byPath.keys).dedup :=
    sortNames_perm _
  refine
    ⟨byPath,
      { rootKept := rootKept
        tabled := tabled
        inner := fun effect member => spec.inner effect (perm.mem_iff.mp member)
        made := fun effect member => spec.made effect (perm.mem_iff.mp member)
        others := ?_
        distinct :=
          paths.nodup_iff.mpr
            (spec.named.nodup (namesPerm.nodup_iff.mpr (List.nodup_dedup _)))
        sorted := ordered ▸ orderWorkspaceChanges_sorted unordered }⟩
  intro name known inner absent
  refine spec.others name ?_ inner (fun member => absent (paths.mem_iff.mpr member))
  rw [namesPerm.mem_iff, List.mem_dedup, List.mem_append, List.mem_append, or_assoc]
  exact known

/-- A complete diff is explained by its effects. -/
theorem diffEffects_explained
    (real : ∀ delta ∈ deltas, delta.Real before after beforeContents afterContents)
    (found : diffEffects host before after projection deltas = .ok effects)
    : Explained host before after beforeContents afterContents effects := by
  obtain ⟨byPath, composed⟩ := diffEffects_composed found
  -- every delta of the table is a given one, so its bytes are real
  obtain ⟨-, -, only⟩ := deltasByPath_spec composed.tabled
  have realAt
      : ∀ name delta, byPath.get? name = some delta →
          normalize delta.relativePath = name
            ∧ delta.Real before after beforeContents afterContents := by
    intro name delta stored
    rcases only name delta stored with absent | given
    · cases absent
    · exact ⟨given.2, real delta given.1⟩
  have said
      : ∀ effect ∈ effects,
          NameChange (diffContext host before after projection byPath) effect.relativePath
            effect.change :=
    fun effect member => (nameEffect_some (composed.made effect member)).2
  refine
    { distinct := composed.distinct
      inner := composed.inner
      source := fun effect member => ((said effect member).nodes (realAt _)).1
      target := fun effect member => ((said effect member).nodes (realAt _)).2.1
      real := fun effect member => ((said effect member).nodes (realAt _)).2.2.1
      nodes := fun effect member => ((said effect member).nodes (realAt _)).2.2.2.1
      oneWay := fun effect member => ((said effect member).nodes (realAt _)).2.2.2.2
      sorted := composed.sorted
      roots := changedRootMetadata_none composed.rootKept
      others := ?_ }
  intro name absent inner
  by_cases known : name ∈ before.entries.keys ∨ name ∈ after.entries.keys
  · have silent := composed.others name (or_assoc.mp (Or.inl known)) inner absent
    exact (nameEffect_none silent).2
  · obtain ⟨noBefore, noAfter⟩ := not_or.mp known
    rw [OrderedMap.get?_eq_none_iff.mpr noBefore, OrderedMap.get?_eq_none_iff.mpr noAfter]
    exact Or.inl rfl

/-- Every delta of a complete diff has an effect for its path. -/
theorem delta_mem_effects (found : diffEffects host before after projection deltas = .ok effects)
    {delta : RegularDelta} (given : delta ∈ deltas)
    : normalize delta.relativePath ∈ effects.map TransactionEffect.relativePath := by
  obtain ⟨byPath, composed⟩ := diffEffects_composed found
  obtain ⟨listed, -, -⟩ := deltasByPath_spec composed.tabled
  obtain ⟨inner, stored⟩ := listed delta given
  by_contra absent
  have silent :=
    composed.others _ (Or.inr (Or.inr (OrderedMap.mem_keys_iff.mpr ⟨delta, stored⟩))) inner absent
  have missing := (nameEffect_none silent).1
  rw [diffContext, stored] at missing
  cases missing

namespace Explained

variable {name : JsString}

theorem keys_edits (effects : List TransactionEffect)
    : (effects.map TransactionEffect.edit).map TreeEdit.key
      = effects.map TransactionEffect.relativePath := by
  rw [List.map_map]
  rfl

section

variable (explained : Explained host before after beforeContents afterContents effects)

include explained

/-- A name without an effect has entries of one kind, or none, in both snapshots. -/
theorem kind_eq (absent : name ∉ effects.map TransactionEffect.relativePath)
    : (before.entries.get? name).map StructureEntry.kind
      = (after.entries.get? name).map StructureEntry.kind := by
  have directories
      : (before.directoryAt name).isSome = true → (after.directoryAt name).isSome = true →
          (before.entries.get? name).map StructureEntry.kind
            = (after.entries.get? name).map StructureEntry.kind := by
    intro left right
    obtain ⟨first, foundFirst⟩ := StructureSnapshot.directoryAt_isSome left
    obtain ⟨second, foundSecond⟩ := StructureSnapshot.directoryAt_isSome right
    rw [foundFirst, foundSecond]
    rfl
  by_cases root : name = []
  · subst root
    exact directories explained.roots.1 explained.roots.2
  · rcases explained.others name absent root with same | both
    · exact sameStructureEntry_kind same
    · exact directories both.1 both.2

theorem tree_kind_eq (absent : name ∉ effects.map TransactionEffect.relativePath)
    : ((before.tree beforeContents).get? name).map TreeNode.kind
      = ((after.tree afterContents).get? name).map TreeNode.kind := by
  have same := explained.kind_eq absent
  rw [StructureSnapshot.get?_tree, StructureSnapshot.get?_tree, Option.map_map, Option.map_map]
  simpa [Function.comp_def, StructureEntry.node_kind] using same

/-- A parent is removed after its entries: it is a directory, and lies less deep than they do. -/
theorem childrenFirst
    (rooted : Rooted workspaceParentage HoldsEntries (before.tree beforeContents).get?)
    {first later : TransactionEffect} (firstMember : first ∈ effects)
    (laterMember : later ∈ effects) (order : RankLe host (effectRank first) (effectRank later))
    (firstGone : first.change.target = none) (laterGone : later.change.target = none)
    : ¬ IsChild first.relativePath later.relativePath := by
  intro below
  have started : later.change.source ≠ none :=
    fun missing => explained.real later laterMember missing laterGone
  obtain ⟨node, held⟩ := Option.ne_none_iff_exists'.mp started
  obtain ⟨up, upper, above, present, holding⟩ :=
    rooted later.relativePath node ((explained.source later laterMember).trans held)
      (explained.inner later laterMember)
  obtain rfl := isChild_unique above below
  rw [explained.source first firstMember] at present
  have directory : first.change.isDirectory = true :=
    (explained.nodes first firstMember upper (Or.inl present)).mpr holding
  have removedFirst := first.change.removed_iff.mpr firstGone
  have removedLater := later.change.removed_iff.mpr laterGone
  obtain ⟨phases, depths⟩ := order.phase_le
  have deeper := depth_of_isChild below
  simp only [effectRank, changeRank, directory, removedFirst, removedLater, if_true] at phases
  simp only [effectRank, changeRank, directory, removedFirst, removedLater, if_true] at depths
  by_cases also : later.change.isDirectory = true
  · simp only [also, if_true, forall_const] at depths
    omega
  · simp [also] at phases

/-- A parent is created before its entries: it is a directory, and lies less deep than they
do.
-/
theorem parentsFirst
    (rooted : Rooted workspaceParentage HoldsEntries (after.tree afterContents).get?)
    {first later : TransactionEffect} (firstMember : first ∈ effects)
    (laterMember : later ∈ effects) (order : RankLe host (effectRank first) (effectRank later))
    (firstKept : first.change.target ≠ none) (laterKept : later.change.target ≠ none)
    : ¬ IsChild later.relativePath first.relativePath := by
  intro below
  obtain ⟨node, held⟩ := Option.ne_none_iff_exists'.mp firstKept
  obtain ⟨up, upper, above, present, holding⟩ :=
    rooted first.relativePath node ((explained.target first firstMember).symm.trans held)
      (explained.inner first firstMember)
  obtain rfl := isChild_unique above below
  rw [← explained.target later laterMember] at present
  have directory : later.change.isDirectory = true :=
    (explained.nodes later laterMember upper (Or.inr present)).mpr holding
  have keptFirst : first.change.removed = false := by
    rw [← Bool.not_eq_true, EffectChange.removed_iff]
    exact firstKept
  have keptLater : later.change.removed = false := by
    rw [← Bool.not_eq_true, EffectChange.removed_iff]
    exact laterKept
  obtain ⟨phases, depths⟩ := order.phase_le
  have deeper := depth_of_isChild below
  simp only [effectRank, changeRank, directory, keptFirst, keptLater, if_true] at phases
  simp only [effectRank, changeRank, directory, keptFirst, keptLater, if_true] at depths
  by_cases also : first.change.isDirectory = true
  · simp only [also, if_true, forall_const, Bool.false_eq_true, if_false] at depths
    omega
  · simp [also] at phases

/-- The effects lead from the tree before to the tree after. -/
theorem transition
    (beforeRooted : Rooted workspaceParentage HoldsEntries (before.tree beforeContents).get?)
    (afterRooted : Rooted workspaceParentage HoldsEntries (after.tree afterContents).get?)
    : Transition workspaceParentage HoldsEntries (before.tree beforeContents).get?
        (after.tree afterContents).get? (effects.map TransactionEffect.edit) where
  distinct := by
    rw [keys_edits]
    exact explained.distinct
  rootKept edit member := by
    obtain ⟨effect, listed, rfl⟩ := List.mem_map.mp member
    exact explained.inner effect listed
  target edit member := by
    obtain ⟨effect, listed, rfl⟩ := List.mem_map.mp member
    exact explained.target effect listed
  real edit member absent := by
    obtain ⟨effect, listed, rfl⟩ := List.mem_map.mp member
    have missing := (explained.source effect listed).symm.trans absent
    have ends := explained.target effect listed
    rw [TransactionEffect.edit, ← ends]
    exact explained.real effect listed missing
  leaves edit member old node foundOld foundNode := by
    obtain ⟨effect, listed, rfl⟩ := List.mem_map.mp member
    have source := (explained.source effect listed).symm.trans foundOld
    have target := (explained.target effect listed).trans foundNode
    have leaf : ¬ effect.change.isDirectory = true := by
      intro directory
      rcases explained.oneWay effect listed directory with noSource | noTarget
      · rw [source] at noSource
        cases noSource
      · rw [target] at noTarget
        cases noTarget
    exact ⟨fun holding => leaf ((explained.nodes effect listed old (Or.inl source)).mpr holding),
      fun holding => leaf ((explained.nodes effect listed node (Or.inr target)).mpr holding)⟩
  untouchedKept name node absent present := by
    rw [keys_edits] at absent
    have same := explained.tree_kind_eq absent
    intro missing
    rw [present, missing] at same
    cases same
  untouchedHolds name node absent present holding := by
    rw [keys_edits] at absent
    have same := explained.tree_kind_eq absent
    rw [present, Option.map_some, TreeNode.kind_eq_directory.mpr holding,
      Option.map_eq_some_iff] at same
    obtain ⟨old, found, directory⟩ := same
    exact ⟨old, found, TreeNode.kind_eq_directory.mp directory⟩
  childrenFirst := by
    refine List.pairwise_map.mpr (explained.sorted.imp_of_mem ?_)
    intro first later firstMember laterMember order
    exact explained.childrenFirst beforeRooted firstMember laterMember order
  parentsFirst := by
    refine List.pairwise_map.mpr (explained.sorted.imp_of_mem ?_)
    intro first later firstMember laterMember order
    exact explained.parentsFirst afterRooted firstMember laterMember order

/-- A name whose entries differ, unless both are directories, has exactly one effect. -/
theorem covered
    (differs
      : sameStructureEntry host (before.entries.get? name) (after.entries.get? name) = false)
    (plain : ¬ ((before.directoryAt name).isSome ∧ (after.directoryAt name).isSome))
    : (effects.map TransactionEffect.relativePath).count name = 1 := by
  refine List.count_eq_one_of_mem explained.distinct ?_
  by_contra absent
  by_cases root : name = []
  · exact plain (root ▸ explained.roots)
  · rcases explained.others name absent root with same | both
    · rw [differs] at same
      cases same
    · exact plain both

/-- The tree that holds the new node at every edited name has the kinds of the after tree. -/
theorem mixed_kind (name : JsString)
    : (mixed ((effects.map TransactionEffect.edit).map TreeEdit.key)
          (before.tree beforeContents).get? (after.tree afterContents).get? name).map
            TreeNode.kind
      = (after.entries.get? name).map StructureEntry.kind := by
  have kinds
      : ((after.tree afterContents).get? name).map TreeNode.kind
        = (after.entries.get? name).map StructureEntry.kind := by
    rw [StructureSnapshot.get?_tree, Option.map_map]
    simp [Function.comp_def, StructureEntry.node_kind]
  rw [keys_edits, mixed]
  by_cases edited : name ∈ effects.map TransactionEffect.relativePath
  · rw [if_pos edited, kinds]
  · rw [if_neg edited, explained.tree_kind_eq edited, kinds]

end

end Explained

/-- What a complete diff promises of its effects. -/
structure ReplaySound (host : Host) (before after : StructureSnapshot)
    (beforeContents afterContents : JsString → ContentVersion) (deltas : List RegularDelta)
    (effects : List TransactionEffect)
    : Prop where
  replays
    : ∃ last,
        replayEffects (before.tree beforeContents) effects = some last
          ∧ (∀ name,
              (last.get? name).map TreeNode.kind
                = (after.entries.get? name).map StructureEntry.kind)
          ∧ ∀ delta ∈ deltas,
              last.get? (normalize delta.relativePath)
                = (after.tree afterContents).get? (normalize delta.relativePath)
  covers
    : ∀ name,
        sameStructureEntry host (before.entries.get? name) (after.entries.get? name) = false
        → ¬ ((before.directoryAt name).isSome ∧ (after.directoryAt name).isSome)
        → (effects.map TransactionEffect.relativePath).count name = 1

/-- A complete diff of two well-formed trees replays from the one to the other, and covers
every difference once.
-/
theorem diffWorkspaceStructures_sound (host : Host) (before after : StructureSnapshot)
    (projection : ExecutionPathProjection) (deltas : List RegularDelta)
    (beforeContents afterContents : JsString → ContentVersion) (beforeTree : before.WellFormed)
    (afterTree : after.WellFormed)
    (real : ∀ delta ∈ deltas, delta.Real before after beforeContents afterContents)
    (complete : (diffWorkspaceStructures host before after projection deltas).complete = true)
    : ReplaySound host before after beforeContents afterContents deltas
        (diffWorkspaceStructures host before after projection deltas).effects := by
  cases found : diffEffects host before after projection deltas with
  | error reason => simp [diffWorkspaceStructures, found] at complete
  | ok effects =>
      have effectsEq
          : (diffWorkspaceStructures host before after projection deltas).effects = effects := by
        rw [diffWorkspaceStructures, found]
      rw [effectsEq]
      have explained := diffEffects_explained real found
      have run := (explained.transition (beforeTree.rooted beforeContents)
        (afterTree.rooted afterContents)).editRun (afterTree.rooted afterContents)
      obtain ⟨last, replayed, ends⟩ :=
        replayEffects_of_editRun explained.distinct explained.source run
      refine ⟨⟨last, replayed, ?_, ?_⟩, fun name => explained.covered⟩
      · intro name
        rw [ends]
        exact explained.mixed_kind name
      · intro delta given
        have edited := delta_mem_effects found given
        rw [ends, mixed, Explained.keys_edits, if_pos edited]

end Complete

-- A directory removed with its file, another created with its own

section Sample

theorem StructureSnapshot.wellFormed_of_entries {snapshot : StructureSnapshot}
    (listed
      : ∀ entry ∈ snapshot.entries.entries, entry.1 ≠ [] →
          ∃ upper ∈ snapshot.entries.entries,
            IsChild upper.1 entry.1 ∧ upper.2.directory?.isSome = true)
    : snapshot.WellFormed := by
  intro name entry stored inner
  obtain ⟨⟨parent, upper⟩, member, above, directory⟩ :=
    listed (name, entry) (OrderedMap.get?_eq_some_iff.mp stored) inner
  refine ⟨parent, ?_⟩
  cases upper with
  | directory held => exact ⟨held, above, OrderedMap.get?_eq_some_iff.mpr member⟩
  | file held => cases directory
  | symlink held => cases directory
  | unsupported held => cases directory

/-- A host whose digests spell their input out and whose locale orders plain names by code
units.
-/
def sampleHost : Host where
  cwd := units "/w"
  contentDigest content := content.map fun byte => codeUnit byte.toNat
  digestObject names := names.flatten
  localeCompare := fun left right => compare left right
  localeOrder := inferInstance

def sampleDirectory : StructureEntry :=
  .directory
    { entriesDigest := []
      metadataDigest := []
      changeDigest := []
      mode := 493
      uid := 0
      gid := 0 }

def sampleFile (object : JsString) : StructureEntry :=
  .file
    { metadataDigest := []
      changeDigest := []
      mode := 420
      size := 1
      links := 1
      object := some object
      aliases := none
      modified := none
      ownership := none }

def sampleBefore : StructureSnapshot where
  root := units "/w"
  entries := OrderedMap.ofList
    [([], sampleDirectory),
      (units "a", sampleDirectory),
      (units "a/f", sampleFile (units "1:1"))]
  complete := true

def sampleAfter : StructureSnapshot where
  root := units "/w"
  entries := OrderedMap.ofList
    [([], sampleDirectory),
      (units "b", sampleDirectory),
      (units "b/c", sampleDirectory),
      (units "b/c/g", sampleFile (units "1:2"))]
  complete := true

def sampleProjection : ExecutionPathProjection where
  sourceRoot := units "/src"
  workspaceRoot := units "/w"

def sampleContents (byte : UInt8) (_ : JsString) : ContentVersion := [byte]

def sampleDeltas : List RegularDelta :=
  [{ relativePath := units "b/c/g", before := none, after := some [2] },
    { relativePath := units "a/f", before := some [1], after := none }]

theorem diffWorkspaceStructures_sound_sample
    : ReplaySound sampleHost sampleBefore sampleAfter (sampleContents 1) (sampleContents 2)
        sampleDeltas
        (diffWorkspaceStructures sampleHost sampleBefore sampleAfter sampleProjection
          sampleDeltas).effects := by
  refine diffWorkspaceStructures_sound sampleHost sampleBefore sampleAfter sampleProjection
    sampleDeltas (sampleContents 1) (sampleContents 2)
    (StructureSnapshot.wellFormed_of_entries (by decide +kernel))
    (StructureSnapshot.wellFormed_of_entries (by decide +kernel)) ?_ (by decide +kernel)
  intro delta member
  simp only [sampleDeltas, List.mem_cons, List.not_mem_nil, or_false] at member
  rcases member with rfl | rfl
  · exact ⟨by simp, by simp [sampleContents]⟩
  · exact ⟨by simp [sampleContents], by simp⟩

end Sample

end SpeculativeAction.WorkspaceDiff
