import SpeculativeAction.Library.TreeEdits
import SpeculativeAction.WorkspaceDiff.Model

/-! A complete workspace diff replays: every step is valid on the tree it meets, and the last
tree has the paths, kinds and contents of the after snapshot.
-/

namespace SpeculativeAction.WorkspaceDiff

open SpeculativeAction.Library
open SpeculativeAction.Library.PosixPath

-- Trees and replay

/-- A node of a workspace tree: a regular file with its bytes, or a kind alone. -/
inductive TreeNode where
  | file (content : ContentVersion)
  | directory
  | symlink
  | unsupported
deriving DecidableEq

inductive EntryKind where
  | file
  | directory
  | symlink
  | unsupported
deriving DecidableEq

def TreeNode.kind : TreeNode → EntryKind
  | .file _ => .file
  | .directory => .directory
  | .symlink => .symlink
  | .unsupported => .unsupported

def StructureEntry.kind : StructureEntry → EntryKind
  | .file _ => .file
  | .directory _ => .directory
  | .symlink _ => .symlink
  | .unsupported _ => .unsupported

abbrev WorkspaceTree := OrderedMap JsString TreeNode

/-- The node an entry stands for, given the bytes of its file. -/
def StructureEntry.node (entry : StructureEntry) (content : ContentVersion) : TreeNode :=
  match entry with
  | .file _ => .file content
  | .directory _ => .directory
  | .symlink _ => .symlink
  | .unsupported _ => .unsupported

/-- The tree a snapshot was taken of, given the bytes of every file. -/
def StructureSnapshot.tree (snapshot : StructureSnapshot) (contents : JsString → ContentVersion)
    : WorkspaceTree where
  entries := snapshot.entries.entries.map fun entry =>
    (entry.1, entry.2.node (contents entry.1))
  distinct := by
    rw [List.map_map]
    exact snapshot.entries.distinct

/-- Every entry but the root lies in a directory of the same snapshot. -/
def StructureSnapshot.WellFormed (snapshot : StructureSnapshot) : Prop :=
  ∀ name entry, snapshot.entries.get? name = some entry → name ≠ [] →
    ∃ parent directory,
      IsChild parent name ∧ snapshot.entries.get? parent = some (.directory directory)

/-- The bytes of a delta are those of the files the snapshots were taken of. -/
def RegularDelta.Real (before after : StructureSnapshot)
    (beforeContents afterContents : JsString → ContentVersion) (delta : RegularDelta)
    : Prop :=
  (∀ content, delta.before = some content →
    (before.fileAt (normalize delta.relativePath)).isSome →
      content = beforeContents (normalize delta.relativePath))
  ∧ ∀ content, delta.after = some content →
      (after.fileAt (normalize delta.relativePath)).isSome →
        content = afterContents (normalize delta.relativePath)

section Replay

/-- A directory of the tree has this entry. -/
def hasParent (tree : WorkspaceTree) (name : JsString) : Bool :=
  tree.entries.any fun entry =>
    decide (IsChild entry.1 name ∧ entry.2 = .directory)

def isEmptyDirectory (tree : WorkspaceTree) (name : JsString) : Bool :=
  decide (tree.get? name = some .directory)
    && tree.keys.all fun child => decide (¬ IsChild name child)

def removeFile (tree : WorkspaceTree) (name : JsString) (before : ContentVersion)
    : Option WorkspaceTree :=
  if tree.get? name = some (.file before) then some (tree.delete name) else none

def createNode (tree : WorkspaceTree) (name : JsString) (node : TreeNode)
    : Option WorkspaceTree :=
  if !tree.has name && hasParent tree name then some (tree.set name node) else none

def replaceFile (tree : WorkspaceTree) (name : JsString) (before after : ContentVersion)
    : Option WorkspaceTree :=
  if tree.get? name = some (.file before) then some (tree.set name (.file after)) else none

/-- One effect on the tree, at its own path; none where the step is not valid. -/
def replayEffect (tree : WorkspaceTree) (effect : TransactionEffect) : Option WorkspaceTree :=
  match effect.change with
  | .file delta =>
      match delta.before, delta.after with
      | some before, some after => replaceFile tree effect.relativePath before after
      | some before, none => removeFile tree effect.relativePath before
      | none, some after => createNode tree effect.relativePath (.file after)
      | none, none => none
  | .directory _ (some _) => createNode tree effect.relativePath .directory
  | .directory _ none =>
      if isEmptyDirectory tree effect.relativePath then some (tree.delete effect.relativePath)
      else none

/-- The effects one after another. -/
def replayEffects (tree : WorkspaceTree) : List TransactionEffect → Option WorkspaceTree
  | [] => some tree
  | effect :: rest => (replayEffect tree effect).bind fun next => replayEffects next rest

end Replay

-- Replay as edits of a rooted tree

section Edits

variable {tree : WorkspaceTree} {name : JsString}

/-- The names of a workspace. -/
def workspaceParentage : Parentage JsString where
  root := []
  parent := IsChild
  orphan := not_isChild_root
  unique _ _ _ := isChild_unique
  irreflexive := not_isChild_self

/-- Only directories hold entries. -/
def HoldsEntries (node : TreeNode) : Prop := node = .directory

namespace EffectChange

/-- The node a change starts from. -/
def source : EffectChange → Option TreeNode
  | .file delta => delta.before.map .file
  | .directory before _ => before.map fun _ => .directory

/-- The node a change ends in. -/
def target : EffectChange → Option TreeNode
  | .file delta => delta.after.map .file
  | .directory _ after => after.map fun _ => .directory

theorem removed_iff (change : EffectChange) : change.removed = true ↔ change.target = none := by
  cases change with
  | file delta => simp [removed, target]
  | directory before after => simp [removed, target]

end EffectChange

def TransactionEffect.edit (effect : TransactionEffect) : TreeEdit JsString TreeNode where
  key := effect.relativePath
  node := effect.change.target

theorem has_eq_false_of_get? (absent : tree.get? name = none)
    : tree.has name = false :=
  OrderedMap.has_eq_false_iff.mpr (OrderedMap.get?_eq_none_iff.mp absent)

theorem hasParent_of_sheltered
    (sheltered : Sheltered workspaceParentage HoldsEntries tree.get? name)
    : hasParent tree name = true := by
  obtain ⟨up, upper, above, held, directory⟩ := sheltered
  have member := OrderedMap.get?_eq_some_iff.mp held
  refine List.any_eq_true.mpr ⟨(up, upper), member, ?_⟩
  exact decide_eq_true ⟨above, directory⟩

theorem isEmptyDirectory_of_vacant (present : tree.get? name = some .directory)
    (vacant : Vacant workspaceParentage tree.get? name)
    : isEmptyDirectory tree name = true := by
  rw [isEmptyDirectory, present, Bool.and_eq_true]
  refine ⟨by simp, List.all_eq_true.mpr fun child member => decide_eq_true fun below => ?_⟩
  exact OrderedMap.get?_eq_none_iff.mp (vacant child below) member

theorem get?_set_eq_update (tree : WorkspaceTree) (name : JsString) (node : TreeNode)
    : (tree.set name node).get? = Function.update tree.get? name (some node) := by
  funext other
  rw [OrderedMap.get?_set]
  by_cases same : other = name
  · simp [same]
  · simp [same]

theorem get?_delete_eq_update (tree : WorkspaceTree) (name : JsString)
    : (tree.delete name).get? = Function.update tree.get? name none := by
  funext other
  rw [OrderedMap.get?_delete]
  by_cases same : other = name
  · simp [same]
  · simp [same]

theorem createNode_of_sheltered (node : TreeNode) (absent : tree.get? name = none)
    (sheltered : Sheltered workspaceParentage HoldsEntries tree.get? name)
    : createNode tree name node = some (tree.set name node) := by
  rw [createNode, has_eq_false_of_get? absent, hasParent_of_sheltered sheltered]
  rfl

/-- An allowed edit of the node it starts from is a valid step. -/
theorem replayEffect_of_allowed {effect : TransactionEffect}
    (allowed : Allowed workspaceParentage HoldsEntries tree.get? effect.edit)
    (held : tree.get? effect.relativePath = effect.change.source)
    : ∃ next, replayEffect tree effect = some next
        ∧ next.get? = effect.edit.apply tree.get? := by
  obtain ⟨logicalPath, name, change⟩ := effect
  simp only at held
  cases change with
  | file delta =>
      cases from_ : delta.before with
      | none =>
          have absent : tree.get? name = none := by simpa [EffectChange.source, from_] using held
          cases to_ : delta.after with
          | none =>
              obtain ⟨⟨node, present⟩, -⟩ :=
                allowed.vacant (by simp [TransactionEffect.edit, EffectChange.target, to_])
              simp [TransactionEffect.edit, absent] at present
          | some content =>
              have sheltered :=
                allowed.sheltered (by simp [TransactionEffect.edit, EffectChange.target, to_])
                  absent
              refine ⟨tree.set name (.file content), ?_, ?_⟩
              · simpa [replayEffect, from_, to_]
                  using createNode_of_sheltered (.file content) absent sheltered
              · rw [get?_set_eq_update]
                simp [TreeEdit.apply, TransactionEffect.edit, EffectChange.target, to_]
      | some before =>
          have present : tree.get? name = some (.file before) := by
            simpa [EffectChange.source, from_] using held
          cases to_ : delta.after with
          | none =>
              refine ⟨tree.delete name, ?_, ?_⟩
              · simp [replayEffect, from_, to_, removeFile, present]
              · rw [get?_delete_eq_update]
                simp [TreeEdit.apply, TransactionEffect.edit, EffectChange.target, to_]
          | some content =>
              refine ⟨tree.set name (.file content), ?_, ?_⟩
              · simp [replayEffect, from_, to_, replaceFile, present]
              · rw [get?_set_eq_update]
                simp [TreeEdit.apply, TransactionEffect.edit, EffectChange.target, to_]
  | directory before after =>
      cases after with
      | none =>
          obtain ⟨⟨node, found⟩, vacant⟩ := allowed.vacant rfl
          simp only [TransactionEffect.edit] at found vacant
          have present : tree.get? name = some .directory := by
            cases before with
            | none => simp [EffectChange.source, found] at held
            | some entry => simpa [EffectChange.source] using held
          refine ⟨tree.delete name, ?_, ?_⟩
          · simp [replayEffect, isEmptyDirectory_of_vacant present vacant]
          · exact get?_delete_eq_update tree name
      | some created =>
          cases before with
          | none =>
              have absent : tree.get? name = none := held
              have sheltered := allowed.sheltered (Option.some_ne_none _) absent
              refine ⟨tree.set name .directory, ?_, ?_⟩
              · exact createNode_of_sheltered .directory absent sheltered
              · exact get?_set_eq_update tree name _
          | some entry =>
              -- a directory is no leaf, so it is not replaced
              have present : tree.get? name = some .directory := held
              cases allowed with
              | create absent _ => simp [present] at absent
              | replace found leaf _ =>
                  rw [present] at found
                  exact absurd (Option.some.inj found).symm leaf

/-- A run of allowed edits replays where every effect starts from the node it meets; names are
distinct, so the other effects leave that node alone.
-/
theorem replayEffects_of_editRun {effects : List TransactionEffect}
    {final : JsString → Option TreeNode} (distinct : (effects.map (·.relativePath)).Nodup)
    (held : ∀ effect ∈ effects, tree.get? effect.relativePath = effect.change.source)
    (run
      : EditRun workspaceParentage HoldsEntries tree.get? (effects.map TransactionEffect.edit)
          final)
    : ∃ last, replayEffects tree effects = some last ∧ last.get? = final := by
  induction effects generalizing tree with
  | nil =>
      cases run
      exact ⟨tree, rfl, rfl⟩
  | cons effect rest ih =>
      cases run with
      | step allowed later =>
          obtain ⟨next, stepped, reads⟩ :=
            replayEffect_of_allowed allowed (held effect (List.mem_cons_self ..))
          obtain ⟨fresh, distinctRest⟩ := List.nodup_cons.mp distinct
          have heldNext
              : ∀ other ∈ rest, next.get? other.relativePath = other.change.source := by
            intro other member
            have different : other.relativePath ≠ effect.relativePath := by
              intro same
              exact fresh (List.mem_map.mpr ⟨other, member, same⟩)
            have kept : next.get? other.relativePath = tree.get? other.relativePath := by
              rw [reads]
              exact Function.update_of_ne different _ _
            rw [kept]
            exact held other (List.mem_cons_of_mem _ member)
          rw [← reads] at later
          obtain ⟨last, replayed, ends⟩ := ih distinctRest heldNext later
          refine ⟨last, ?_, ends⟩
          rw [replayEffects, stepped, Option.bind_some, replayed]

end Edits

end SpeculativeAction.WorkspaceDiff
