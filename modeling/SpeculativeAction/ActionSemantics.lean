import SpeculativeAction.StableStringify

/-! Action keys: what identifies an action, and that its key string says exactly that. -/

namespace SpeculativeAction.ActionSemantics

open SpeculativeAction.Library
open SpeculativeAction.StableJson

section Definitions

/-- Observable effects of an action. -/
inductive ActionEffect where
  | observation
  | workspaceMutation
  | unbounded
deriving DecidableEq, Repr

inductive ResourceScope where
  | content
  | entries
  | treeEntries
  | treeContent
  | capturedInputs
deriving DecidableEq, Repr

/-- Atomic guarantees an execution backend may give. -/
inductive EffectCapability where
  | invocationHostFunction
  | invocationProcess
  | invocationWorkspacePath
  | filesystemRead
  | filesystemWrite
  | processSpawn
  | networkMediate
  | ipcMediate
  | timeVirtualize
  | randomVirtualize
  | outputGate
  | validationResourceSnapshot
deriving DecidableEq, Repr

def EffectCapability.name : EffectCapability → String
  | .invocationHostFunction => "invocation.host_function"
  | .invocationProcess => "invocation.process"
  | .invocationWorkspacePath => "invocation.workspace_path"
  | .filesystemRead => "filesystem.read"
  | .filesystemWrite => "filesystem.write"
  | .processSpawn => "process.spawn"
  | .networkMediate => "network.mediate"
  | .ipcMediate => "ipc.mediate"
  | .timeVirtualize => "time.virtualize"
  | .randomVirtualize => "random.virtualize"
  | .outputGate => "output.gate"
  | .validationResourceSnapshot => "validation.resource_snapshot"

/-- A tool's execution contract. -/
structure ActionSemanticsDefinition where
  tool : JsString
  epoch : JsString
  effect : ActionEffect
  requirements : List EffectCapability
  resourceScope : Option ResourceScope := none
deriving DecidableEq

/-- White space and line ends of the source language. -/
def isTrimmed (other : CodeUnit) : Bool :=
  decide (9 ≤ other.val ∧ other.val ≤ 13 ∨ 8192 ≤ other.val ∧ other.val ≤ 8202)
    || [32, 160, 5760, 8232, 8233, 8239, 8287, 12288, 65279].contains other.val

def trim (text : JsString) : JsString :=
  ((text.dropWhile isTrimmed).reverse.dropWhile isTrimmed).reverse

/-- Distinct capabilities in the order of their names. -/
def normalizeEffectRequirements (capabilities : List EffectCapability) : List EffectCapability :=
  capabilities.dedup.insertionSort fun left right => left.name ≤ right.name

def assertDefinitionCoherence (definition : ActionSemanticsDefinition) : Except JsString Unit :=
  let has capability := decide (capability ∈ definition.requirements)
  if definition.effect = .observation then
    if definition.resourceScope = none then
      .error (units "observation action " ++ definition.tool ++ units " requires resource evidence")
    else if !has .validationResourceSnapshot then
      .error (units "observation action " ++ definition.tool
        ++ units " requires snapshot-validation capability")
    else .ok ()
  else if definition.resourceScope ≠ none then
    .error (units "non-observation action " ++ definition.tool
      ++ units " cannot declare resource evidence")
  else if definition.effect = .workspaceMutation
      ∧ (!has .filesystemWrite || !has .invocationWorkspacePath) then
    .error (units "workspace mutation " ++ definition.tool
      ++ units " requires path-mutation capabilities")
  else if definition.effect = .unbounded
      ∧ (!has .invocationProcess || !has .outputGate) then
    .error (units "unbounded action " ++ definition.tool
      ++ units " requires process and external-output capabilities")
  else .ok ()

/-- Own a definition; an issued one is returned as it is. -/
def normalizeDefinition (source : ActionSemanticsDefinition)
    : Except JsString ActionSemanticsDefinition := do
  let tool := trim source.tool
  let epoch := trim source.epoch
  if tool = [] then .error (units "action semantics tool must not be empty")
  else if epoch = [] then
    .error (units "action semantics epoch must not be empty for " ++ tool)
  else
    let definition := {
      source with
      tool
      epoch
      requirements := normalizeEffectRequirements source.requirements
    }
    assertDefinitionCoherence definition
    .ok definition

end Definitions

section Keys

/-- The path functions of the host platform. -/
structure PathModule where
  separator : CodeUnit
  resolve : List JsString → JsString
  dirname : JsString → JsString
  isAbsolute : JsString → Bool

/-- What identifies an action; only `key` is compared. -/
structure ActionKey where
  key : JsString
  hash : JsString
  tool : JsString
  input : Data
  resources : List JsString
  /-- Where logical resource names are resolved during retrieval. -/
  resourceRoot : Option JsString
  semanticsEpoch : JsString
  schemaHash : JsString
  executionFingerprint : JsString
  semantics : Option ActionSemanticsDefinition

/-- The parts an action key is built from. -/
structure ActionKeyParts where
  tool : JsString
  resources : List JsString
  input : Data
  resourceRoot : Option JsString := none
  semanticsEpoch : Option JsString := none
  schemaHash : Option JsString := none
  executionFingerprint : Option JsString := none
  semantics : Option ActionSemanticsDefinition := none

/-- Lower-case hexadecimal digits of a 32-bit word. -/
def hexWord (word : BitVec 32) : JsString :=
  (List.range 8).map fun index => hexUnit ((word.toNat >>> (4 * (7 - index))) % 16)

def fastHash (value : JsString) : JsString :=
  hexWord (value.foldl
    (fun hash other => (hash ^^^ BitVec.ofNat 32 other.val) * 0x01000193#32) 0x811c9dc5#32)

/-- The value whose text is the key. -/
def keyData (tool semanticsEpoch schemaHash executionFingerprint : JsString) (input : Data)
    : Data :=
  .object [
    (units "tool", .string tool),
    (units "semanticsEpoch", .string semanticsEpoch),
    (units "schemaHash", .string schemaHash),
    (units "executionFingerprint", .string executionFingerprint),
    (units "input", input)
  ]

def buildActionKey (path : PathModule) (parts : ActionKeyParts) : Except JsString ActionKey := do
  let schemaHash := parts.schemaHash.getD []
  let semanticsEpoch := parts.semanticsEpoch.getD []
  let executionFingerprint := parts.executionFingerprint.getD []
  let semantics ← parts.semantics.mapM normalizeDefinition
  if semantics.any fun definition =>
      definition.tool ≠ parts.tool ∨ definition.epoch ≠ semanticsEpoch then
    .error (units "action contract identity mismatch")
  else if !isImmutableSnapshot parts.input then
    .error (units "Action input has no immutable data identity")
  else
    -- an object always has a text
    let key := (stableStringify (keyData parts.tool semanticsEpoch schemaHash
      executionFingerprint parts.input)).getD []
    .ok {
      key
      hash := fastHash key
      tool := parts.tool
      input := parts.input
      resources := parts.resources
      resourceRoot := parts.resourceRoot.map fun root => path.resolve [root]
      semanticsEpoch
      schemaHash
      executionFingerprint
      semantics
    }

/-- An issued key has the text of its own parts. -/
structure ActionKey.Issued (action : ActionKey) : Prop where
  immutable : isImmutableSnapshot action.input = true
  key
    : action.key
      = (stableStringify (keyData action.tool action.semanticsEpoch action.schemaHash
          action.executionFingerprint action.input)).getD []

theorem issued_buildActionKey {path : PathModule} {parts : ActionKeyParts} {action : ActionKey}
    (built : buildActionKey path parts = .ok action)
    : action.Issued := by
  unfold buildActionKey at built
  dsimp only at built
  cases normalized : parts.semantics.mapM normalizeDefinition with
  | error message => rw [normalized] at built; cases built
  | ok semantics =>
      rw [normalized] at built
      dsimp only [Except.bind, bind] at built
      split at built
      · cases built
      · split at built
        · cases built
        · rename_i immutable
          cases built
          exact ⟨by simpa using immutable, rfl⟩

/-- Without a contract of its own, every immutable input has a key. -/
theorem buildActionKey_ok (path : PathModule) (parts : ActionKeyParts) (plain : parts.semantics = none)
    (immutable : isImmutableSnapshot parts.input = true)
    : ∃ action,
        buildActionKey path parts = .ok action
        ∧ action.tool = parts.tool
        ∧ action.semanticsEpoch = parts.semanticsEpoch.getD []
        ∧ action.schemaHash = parts.schemaHash.getD []
        ∧ action.executionFingerprint = parts.executionFingerprint.getD []
        ∧ action.input = parts.input := by
  unfold buildActionKey
  rw [plain, immutable]
  exact ⟨_, rfl, rfl, rfl, rfl, rfl, rfl⟩

theorem keyData_lossless (tool semanticsEpoch schemaHash executionFingerprint : JsString)
    {input : Data} (lossless : isLossless input = true)
    : isLossless (keyData tool semanticsEpoch schemaHash executionFingerprint input) = true := by
  have distinct
      : [units "tool", units "semanticsEpoch", units "schemaHash", units "executionFingerprint",
          units "input"].Nodup := by
    decide
  simp only [keyData, isLossless, fieldsLossless, fieldLossless, lossless, List.map_cons,
    List.map_nil, distinct, decide_true, Bool.and_self]

theorem stableStringify_keyData (tool semanticsEpoch schemaHash executionFingerprint : JsString)
    (input : Data)
    : ∃ text,
        stableStringify (keyData tool semanticsEpoch schemaHash executionFingerprint input)
        = some text :=
  ⟨_, rfl⟩

/-- Key data are the same exactly when their parts are. -/
theorem sameData_keyData_iff
    {tool tool' semanticsEpoch semanticsEpoch' schemaHash schemaHash' executionFingerprint
      executionFingerprint' : JsString}
    {input input' : Data}
    : SameData (keyData tool semanticsEpoch schemaHash executionFingerprint input)
          (keyData tool' semanticsEpoch' schemaHash' executionFingerprint' input')
      ↔ tool = tool'
        ∧ semanticsEpoch = semanticsEpoch'
        ∧ schemaHash = schemaHash'
        ∧ executionFingerprint = executionFingerprint'
        ∧ SameData input input' := by
  have text {left right : JsString} (same : SameData (.string left) (.string right))
      : left = right := by
    cases same
    rfl
  constructor
  · intro same
    cases same with
    | object _ _ fields =>
        exact ⟨text (fields (units "tool")), text (fields (units "semanticsEpoch")),
          text (fields (units "schemaHash")), text (fields (units "executionFingerprint")),
          fields (units "input")⟩
  · intro parts
    obtain ⟨rfl, rfl, rfl, rfl, inputs⟩ := parts
    refine .object _ _ ?_
    intro key
    by_cases isInput : key = units "input"
    · rw [isInput]
      exact inputs
    · have same
          : fieldOf [
                (units "tool", .string tool),
                (units "semanticsEpoch", .string semanticsEpoch),
                (units "schemaHash", .string schemaHash),
                (units "executionFingerprint", .string executionFingerprint),
                (units "input", input)
              ] key
            = fieldOf [
                (units "tool", .string tool),
                (units "semanticsEpoch", .string semanticsEpoch),
                (units "schemaHash", .string schemaHash),
                (units "executionFingerprint", .string executionFingerprint),
                (units "input", input')
              ] key := by
        simp [fieldOf, List.find?_cons, Ne.symm isInput]
      rw [same]
      exact .refl _

/-- Immutable data have one stable text exactly when they are equal up to the order of object
keys, and action keys are equal exactly when the parts that identify them are.
-/
theorem stableText_injective
    : (∀ left right : Data,
          isImmutableSnapshot left = true
          → isImmutableSnapshot right = true
          → (stableStringify left = stableStringify right ↔ SameData left right))
      ∧ ∀ (path : PathModule) (left right : ActionKeyParts) (leftKey rightKey : ActionKey),
          buildActionKey path left = .ok leftKey
          → buildActionKey path right = .ok rightKey
          → (leftKey.key = rightKey.key
            ↔ leftKey.tool = rightKey.tool
              ∧ leftKey.semanticsEpoch = rightKey.semanticsEpoch
              ∧ leftKey.schemaHash = rightKey.schemaHash
              ∧ leftKey.executionFingerprint = rightKey.executionFingerprint
              ∧ SameData leftKey.input rightKey.input) := by
  constructor
  · intro left right first second
    exact stableStringify_eq_iff_of_lossless (isLossless_of_immutable left first)
      (isLossless_of_immutable right second)
  · intro path left right leftKey rightKey builtLeft builtRight
    have first := issued_buildActionKey builtLeft
    have second := issued_buildActionKey builtRight
    obtain ⟨text, leftText⟩ := stableStringify_keyData leftKey.tool leftKey.semanticsEpoch
      leftKey.schemaHash leftKey.executionFingerprint leftKey.input
    obtain ⟨text', rightText⟩ := stableStringify_keyData rightKey.tool rightKey.semanticsEpoch
      rightKey.schemaHash rightKey.executionFingerprint rightKey.input
    rw [← sameData_keyData_iff,
      ← stableStringify_eq_iff_of_lossless
        (keyData_lossless _ _ _ _ (isLossless_of_immutable _ first.immutable))
        (keyData_lossless _ _ _ _ (isLossless_of_immutable _ second.immutable)),
      first.key, second.key, leftText, rightText, Option.getD_some, Option.getD_some,
      Option.some.injEq]

/-- One search with its fields in either order. -/
def sampleParts (fields : List (JsString × Data)) : ActionKeyParts where
  tool := units "grep"
  resources := []
  input := .object fields
  semanticsEpoch := some (units "pi.grep")

/-- Path functions for names without a directory. -/
def samplePath : PathModule where
  separator := unit '/'
  resolve := List.flatten
  dirname := id
  isAbsolute _ := false

def sampleFields : List (JsString × Data) :=
  [(units "pattern", .string (units "x")), (units "literal", .bool true)]

/-- Reordering the fields of an input gives the same text and the same key. -/
theorem stableText_injective_sample
    : stableStringify (.object sampleFields) = stableStringify (.object sampleFields.reverse)
      ∧ ∃ leftKey rightKey,
          buildActionKey samplePath (sampleParts sampleFields) = .ok leftKey
          ∧ buildActionKey samplePath (sampleParts sampleFields.reverse) = .ok rightKey
          ∧ leftKey.key = rightKey.key := by
  have same : SameData (.object sampleFields) (.object sampleFields.reverse) :=
    .of_perm (List.reverse_perm _).symm (by decide)
  have immutable : isImmutableSnapshot (.object sampleFields) = true := by decide
  have immutable' : isImmutableSnapshot (.object sampleFields.reverse) = true := by decide
  have built (fields : List (JsString × Data))
      (immutable : isImmutableSnapshot (.object fields) = true)
      : ∃ action,
          buildActionKey samplePath (sampleParts fields) = .ok action
          ∧ action.tool = units "grep"
          ∧ action.semanticsEpoch = units "pi.grep"
          ∧ action.schemaHash = []
          ∧ action.executionFingerprint = []
          ∧ action.input = .object fields :=
    buildActionKey_ok samplePath (sampleParts fields) rfl immutable
  obtain ⟨left, leftBuilt, leftTool, leftEpoch, leftSchema, leftExecution, leftInput⟩ :=
    built _ immutable
  obtain ⟨right, rightBuilt, rightTool, rightEpoch, rightSchema, rightExecution, rightInput⟩ :=
    built _ immutable'
  refine ⟨(stableText_injective.1 _ _ immutable immutable').mpr same, left, right, leftBuilt,
    rightBuilt, (stableText_injective.2 _ _ _ _ _ leftBuilt rightBuilt).mpr ⟨?_, ?_, ?_, ?_, ?_⟩⟩
  · exact leftTool.trans rightTool.symm
  · exact leftEpoch.trans rightEpoch.symm
  · exact leftSchema.trans rightSchema.symm
  · exact leftExecution.trans rightExecution.symm
  · rw [leftInput, rightInput]
    exact same

end Keys

end SpeculativeAction.ActionSemantics
