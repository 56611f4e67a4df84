import SpeculativeAction.DependencyOrder
import SpeculativeAction.PlainRecords
import SpeculativeAction.TaskTiming.Model

/-! Persisted calculation evidence: `normalizeTimelineComputation` validates untrusted
telemetry and orders dependencies before consumers.
-/

namespace SpeculativeAction.TaskTiming

open SpeculativeAction.Library
open Value

-- Validated parts

section Parts

def isIdentity (text : String) : Bool := decide (text ≠ "") && !text.toList.contains (Char.ofNat 0)

/-- A text that can name something: not empty and without NUL. -/
structure Name where
  text : Identity
  valid : isIdentity text = true
deriving DecidableEq

/-- A finite number of milliseconds between zero and the largest safe integer. -/
structure Duration where
  value : ℚ
  nonneg : 0 ≤ value
  safe : value ≤ Number.maxSafeInteger
deriving DecidableEq

theorem zero_nonneg : (0 : ℚ) ≤ 0 := le_refl 0

theorem zero_safe : (0 : ℚ) ≤ Number.maxSafeInteger := Nat.cast_nonneg _

/-- Two ends in order. -/
structure Endpoints where
  startedAt : Duration
  completedAt : Duration
  lasting : startedAt.value ≤ completedAt.value
deriving DecidableEq

def identity? : Value → Option Name
  | .string text => if valid : isIdentity text = true then some ⟨text, valid⟩ else none
  | _ => none

def duration? : Value → Option Duration
  | .number (.finite value) =>
      if bounds : 0 ≤ value ∧ value ≤ Number.maxSafeInteger then
        some ⟨value, bounds.1, bounds.2⟩
      else none
  | .negativeZero => some ⟨0, zero_nonneg, zero_safe⟩
  | _ => none

def endpoints? (fields : List (String × Value)) : Option Endpoints :=
  (duration? (field fields "startedAt")).bind fun startedAt =>
    (duration? (field fields "completedAt")).bind fun completedAt =>
      if lasting : startedAt.value ≤ completedAt.value then
        some ⟨startedAt, completedAt, lasting⟩
      else none

def Endpoints.contains (outer inner : Endpoints) : Bool :=
  decide (outer.startedAt.value ≤ inner.startedAt.value
    ∧ inner.completedAt.value ≤ outer.completedAt.value)

/-- A producer whose texts are valid. -/
structure SerializedProducer where
  source : Name
  mode : Option Name
  id : Option Name
deriving DecidableEq

structure SerializedPart where
  clock : Name
  ends : Endpoints
deriving DecidableEq

structure SerializedInput where
  id : Name
  owned : Bool
  reused : Bool
  overhead : Bool
  computeUncertain : Bool
  shared : Option (List SerializedPart)
deriving DecidableEq

/-- One node; its spans lie between its ends and its aliases are listed once. An empty list
of aliases or inputs is left out of a record.
-/
structure SerializedNode where
  id : Name
  clock : Name
  timeOrigin : Option Duration
  ends : Endpoints
  spans : Option (List Endpoints)
  priorMs : Option Duration
  producer : Option SerializedProducer
  groups : List Name
  incomplete : Bool
  inputs : List SerializedInput
  within : ((spans.getD []).all ends.contains) = true
  aliases : groups.Nodup
deriving DecidableEq

structure SerializedTimelineComputation where
  version : ℕ
  root : Name
  nodes : List SerializedNode
deriving DecidableEq

end Parts

-- Reading

section Reading

def parseProducer (fields : List (String × Value)) : Option SerializedProducer :=
  (identity? (field fields "source")).bind fun source =>
    (optional identity? (field fields "mode")).bind fun mode =>
      (optional identity? (field fields "id")).map fun id => ⟨source, mode, id⟩

def parsePart (fields : List (String × Value)) : Option SerializedPart :=
  (identity? (field fields "clock")).bind fun clock =>
    (endpoints? fields).map fun ends => ⟨clock, ends⟩

/-- A flag may be left out, but is a boolean where it is given. -/
def parseFlag (fields : List (String × Value)) (key : String) : Option Bool :=
  (optional boolean? (field fields key)).map (·.getD false)

def parseInput (fields : List (String × Value)) : Option SerializedInput :=
  (identity? (field fields "id")).bind fun id =>
    (parseFlag fields "owned").bind fun owned =>
      (parseFlag fields "reused").bind fun reused =>
        (parseFlag fields "overhead").bind fun overhead =>
          (parseFlag fields "computeUncertain").bind fun computeUncertain =>
            (records parsePart (field fields "shared")).map fun shared =>
              ⟨id, owned, reused, overhead, computeUncertain, shared⟩

/-- The aliases, each once. -/
def parseGroups : Value → Option (List Name)
  | .array items => (collectAll identity? items).map (InvertedIndex.insertMembers [])
  | _ => none

theorem parseGroups_nodup {value : Value} {groups : List Name}
    (parsed : parseGroups value = some groups)
    : groups.Nodup := by
  cases value with
  | array items =>
      obtain ⟨names, -, same⟩ := Option.map_eq_some_iff.mp parsed
      rw [← same]
      exact InvertedIndex.nodup_insertMembers List.nodup_nil names
  | undefined | null | bool _ | string _ | number _ | negativeZero | object _ | foreign =>
      cases parsed

/-- The aliases of a node, none where they are left out. -/
def parseAliases (value : Value) : Option { groups : List Name // groups.Nodup } :=
  match value with
  | .undefined => some ⟨[], List.nodup_nil⟩
  | value =>
      (parseGroups value).pmap (fun groups distinct => ⟨groups, distinct⟩)
        fun _ parsed => parseGroups_nodup parsed

/-- The parts of a node other than its spans and aliases. -/
def assembleNode (id clock : Name) (ends : Endpoints) (priorMs timeOrigin : Option Duration)
    (incomplete : Bool) (producer : Option SerializedProducer)
    (groups : { groups : List Name // groups.Nodup }) (inputs : List SerializedInput)
    (spans : Option (List Endpoints))
    : Option SerializedNode :=
  if within : ((spans.getD []).all ends.contains) = true then
    some
      { id := id
        clock := clock
        timeOrigin := timeOrigin
        ends := ends
        spans := spans
        priorMs := priorMs
        producer := producer
        groups := groups.1
        incomplete := incomplete
        inputs := inputs
        within := within
        aliases := groups.2 }
  else none

def parseNode (fields : List (String × Value)) : Option SerializedNode :=
  (identity? (field fields "id")).bind fun id =>
    (identity? (field fields "clock")).bind fun clock =>
      (endpoints? fields).bind fun ends =>
        (optional duration? (field fields "priorMs")).bind fun priorMs =>
          (optional duration? (field fields "timeOrigin")).bind fun timeOrigin =>
            (parseFlag fields "incomplete").bind fun incomplete =>
              (records endpoints? (field fields "spans")).bind fun spans =>
                (optional (fun value => (record? value).bind parseProducer)
                    (field fields "producer")).bind fun producer =>
                  (parseAliases (field fields "groups")).bind fun groups =>
                    (records parseInput (field fields "inputs")).bind fun inputs =>
                      assembleNode id clock ends priorMs timeOrigin incomplete producer groups
                        (inputs.getD []) spans

end Reading

-- The graph

section Graph

/-- The nodes by identity and the origin that each clock was given. -/
structure Scan where
  byID : OrderedMap Name SerializedNode := .empty
  origins : OrderedMap Name Duration := .empty

/-- An origin agrees with the one its clock was given before. -/
def Scan.agrees (scan : Scan) (node : SerializedNode) : Bool :=
  match node.timeOrigin, scan.origins.get? node.clock with
  | some origin, some known => decide (known = origin)
  | _, _ => true

def Scan.add (scan : Scan) (node : SerializedNode) : Scan where
  byID := scan.byID.set node.id node
  origins :=
    match node.timeOrigin with
    | some origin => scan.origins.set node.clock origin
    | none => scan.origins

def scanNodes : List SerializedNode → Scan → Option Scan
  | [], scan => some scan
  | node :: rest, scan =>
      if scan.byID.has node.id || !scan.agrees node then none
      else scanNodes rest (scan.add node)

/-- The inputs of a node with the node that lists them, in the order of the nodes. -/
def listedInputs (byID : OrderedMap Name SerializedNode) : List (Name × SerializedInput) :=
  byID.values.flatMap fun node => node.inputs.map fun input => (node.id, input)

/-- Every input is a node and no input has two owners. -/
def ownersValid (byID : OrderedMap Name SerializedNode)
    : List (Name × SerializedInput) → OrderedMap Name Name → Bool
  | [], _ => true
  | (node, input) :: rest, owned =>
      if !byID.has input.id then false
      else if input.owned then
        if (owned.get? input.id).any fun other => decide (other ≠ node) then false
        else ownersValid byID rest (owned.set input.id node)
      else ownersValid byID rest owned

/-- The inputs of a node as the traversal asks for them, the last first. -/
def inputNodes (byID : OrderedMap Name SerializedNode) (id : Name) : List (Option Name) :=
  match byID.get? id with
  | some node =>
      node.inputs.reverse.map fun input => if byID.has input.id then some input.id else none
  | none => []

def orderNodes (byID : OrderedMap Name SerializedNode) (root : Name) : Option (List Name) :=
  match dependencyOrder (searchFuel byID.keys (inputNodes byID)) [root] (inputNodes byID) with
  | .finished order => some order
  | _ => none

/-- The graph of scanned nodes, dependencies first; all of them belong to the root. -/
def orderGraph (version : ℕ) (root : Name) (byID : OrderedMap Name SerializedNode)
    : Option SerializedTimelineComputation :=
  if !byID.has root || !ownersValid byID (listedInputs byID) .empty then none
  else
    (orderNodes byID root).bind fun order =>
      if order.length = byID.keys.length then
        some ⟨version, root, order.filterMap byID.get?⟩
      else none

def version? : Value → Option ℕ
  | .number (.finite value) =>
      if value = 1 then some 1 else if value = 2 then some 2 else if value = 3 then some 3 else none
  | _ => none

def parseNodes : Value → Option (List SerializedNode)
  | .array items => collectAll (fun item => (record? item).bind parseNode) items
  | _ => none

def normalizeTimelineComputation (value : Value) : Option SerializedTimelineComputation :=
  (record? value).bind fun fields =>
    (version? (field fields "version")).bind fun version =>
      (identity? (field fields "root")).bind fun root =>
        (parseNodes (field fields "nodes")).bind fun nodes =>
          (scanNodes nodes {}).bind fun scan => orderGraph version root scan.byID

end Graph

-- Writing

section Writing

def Name.toValue (name : Name) : Value := .string name.text

def Duration.toValue (duration : Duration) : Value := .number (.finite duration.value)

def Endpoints.entries (ends : Endpoints) : List (String × Option Value) :=
  [("startedAt", some ends.startedAt.toValue), ("completedAt", some ends.completedAt.toValue)]

def Endpoints.toValue (ends : Endpoints) : Value := .object (present ends.entries)

def SerializedProducer.entries (producer : SerializedProducer) : List (String × Option Value) :=
  [("source", some producer.source.toValue),
    ("mode", producer.mode.map Name.toValue),
    ("id", producer.id.map Name.toValue)]

def SerializedProducer.toValue (producer : SerializedProducer) : Value :=
  .object (present producer.entries)

def SerializedPart.entries (part : SerializedPart) : List (String × Option Value) :=
  ("clock", some part.clock.toValue) :: part.ends.entries

def SerializedPart.toValue (part : SerializedPart) : Value := .object (present part.entries)

def partsValue (parts : List SerializedPart) : Value := .array (parts.map SerializedPart.toValue)

def SerializedInput.entries (input : SerializedInput) : List (String × Option Value) :=
  [("id", some input.id.toValue),
    ("owned", flag input.owned),
    ("reused", flag input.reused),
    ("overhead", flag input.overhead),
    ("computeUncertain", flag input.computeUncertain),
    ("shared", input.shared.map partsValue)]

def SerializedInput.toValue (input : SerializedInput) : Value := .object (present input.entries)

/-- A list that is left out when it is empty. -/
def listed (items : List Value) : Option Value := if items = [] then none else some (.array items)

def spansValue (spans : List Endpoints) : Value := .array (spans.map Endpoints.toValue)

def SerializedNode.entries (node : SerializedNode) : List (String × Option Value) :=
  [("id", some node.id.toValue),
    ("clock", some node.clock.toValue),
    ("startedAt", some node.ends.startedAt.toValue),
    ("completedAt", some node.ends.completedAt.toValue),
    ("timeOrigin", node.timeOrigin.map Duration.toValue),
    ("spans", node.spans.map spansValue),
    ("priorMs", node.priorMs.map Duration.toValue),
    ("producer", node.producer.map SerializedProducer.toValue),
    ("groups", listed (node.groups.map Name.toValue)),
    ("incomplete", flag node.incomplete),
    ("inputs", listed (node.inputs.map SerializedInput.toValue))]

def SerializedNode.toValue (node : SerializedNode) : Value := .object (present node.entries)

def SerializedTimelineComputation.toValue (graph : SerializedTimelineComputation) : Value :=
  .object
    [("version", .number (.finite graph.version)),
      ("root", graph.root.toValue),
      ("nodes", .array (graph.nodes.map SerializedNode.toValue))]

end Writing

-- What is written is read back

section RoundTrip

variable {fields : List (String × Value)}

@[simp] theorem identity?_toValue (name : Name) : identity? name.toValue = some name := by
  rw [Name.toValue, identity?, dif_pos name.valid]

@[simp] theorem duration?_toValue (duration : Duration)
    : duration? duration.toValue = some duration := by
  rw [Duration.toValue, duration?, dif_pos ⟨duration.nonneg, duration.safe⟩]

theorem endpoints?_of_fields {ends : Endpoints}
    (startedAt : field fields "startedAt" = ends.startedAt.toValue)
    (completedAt : field fields "completedAt" = ends.completedAt.toValue)
    : endpoints? fields = some ends := by
  rw [endpoints?, startedAt, completedAt, duration?_toValue, Option.bind_some, duration?_toValue,
    Option.bind_some, dif_pos ends.lasting]

theorem optional_name (name : Option Name)
    : optional identity? ((name.map Name.toValue).getD .undefined) = some name :=
  optional_getD (fun one _ => identity?_toValue one) fun _ => Value.noConfusion

theorem optional_duration (duration : Option Duration)
    : optional duration? ((duration.map Duration.toValue).getD .undefined) = some duration :=
  optional_getD (fun one _ => duration?_toValue one) fun _ => Value.noConfusion

/-- Written records are read back where each of them is. -/
theorem records_map {α : Type} {parse : List (String × Value) → Option α}
    {entries : α → List (String × Option Value)} {items : Option (List α)}
    (accepted : ∀ item, parse (present (entries item)) = some item)
    : records parse
        ((items.map fun items =>
          Value.array (items.map fun item => .object (present (entries item)))).getD .undefined)
      = some items := by
  refine optional_getD (fun one _ => ?_) fun _ => Value.noConfusion
  have collected
      : collectAll (fun item => (record? item).bind parse)
          (one.map fun item => Value.object (present (entries item)))
        = some one :=
    collectAll_map fun item _ => accepted item
  exact collected

theorem endpoints?_entries (ends : Endpoints) : endpoints? (present ends.entries) = some ends := by
  have distinct : (ends.entries.map Prod.fst).Nodup := by simp [Endpoints.entries]
  refine endpoints?_of_fields ?_ ?_
  · rw [field_present distinct]
    rfl
  · rw [field_present distinct]
    rfl

theorem parseProducer_entries (producer : SerializedProducer)
    : parseProducer (present producer.entries) = some producer := by
  have distinct : (producer.entries.map Prod.fst).Nodup := by
    simp [SerializedProducer.entries]
  rw [parseProducer, field_present distinct, field_present distinct, field_present distinct]
  simp [SerializedProducer.entries, optional_name]

theorem parsePart_entries (part : SerializedPart)
    : parsePart (present part.entries) = some part := by
  have distinct : (part.entries.map Prod.fst).Nodup := by
    simp [SerializedPart.entries, Endpoints.entries]
  have ends : endpoints? (present part.entries) = some part.ends := by
    refine endpoints?_of_fields ?_ ?_
    · rw [field_present distinct]
      rfl
    · rw [field_present distinct]
      rfl
  rw [parsePart, ends, field_present distinct]
  simp [SerializedPart.entries]

theorem parseFlag_of_field {key : String} {value : Bool}
    (held : field fields key = (flag value).getD .undefined)
    : parseFlag fields key = some value := by
  rw [parseFlag, held, optional_flag]

theorem parseInput_entries (input : SerializedInput)
    : parseInput (present input.entries) = some input := by
  have distinct : (input.entries.map Prod.fst).Nodup := by
    simp [SerializedInput.entries]
  have read (key : String) := field_present distinct key
  have owned : parseFlag (present input.entries) "owned" = some input.owned :=
    parseFlag_of_field (read "owned")
  have reused : parseFlag (present input.entries) "reused" = some input.reused :=
    parseFlag_of_field (read "reused")
  have overhead : parseFlag (present input.entries) "overhead" = some input.overhead :=
    parseFlag_of_field (read "overhead")
  have uncertain
      : parseFlag (present input.entries) "computeUncertain" = some input.computeUncertain :=
    parseFlag_of_field (read "computeUncertain")
  have shared : records parsePart (field (present input.entries) "shared") = some input.shared := by
    rw [read]
    exact records_map parsePart_entries
  rw [parseInput, owned, reused, overhead, uncertain, shared, read "id"]
  simp [SerializedInput.entries]

theorem parseAliases_listed {groups : List Name} (aliases : groups.Nodup)
    : parseAliases ((listed (groups.map Name.toValue)).getD .undefined) = some ⟨groups, aliases⟩ := by
  cases groups with
  | nil => rfl
  | cons first rest =>
      have read : parseGroups (.array ((first :: rest).map Name.toValue)) = some (first :: rest) := by
        rw [parseGroups, collectAll_map fun name _ => identity?_toValue name, Option.map_some,
          InvertedIndex.insertMembers_of_nodup aliases, List.nil_append]
      have shape
          : (listed ((first :: rest).map Name.toValue)).getD .undefined
            = .array ((first :: rest).map Name.toValue) := rfl
      rw [shape]
      exact Option.pmap_eq_some_iff.mpr ⟨first :: rest, aliases, read, rfl⟩

theorem records_listed (inputs : List SerializedInput)
    : (records parseInput ((listed (inputs.map SerializedInput.toValue)).getD .undefined)).map
        (·.getD [])
      = some inputs := by
  cases inputs with
  | nil => rfl
  | cons first rest =>
      have read
          : records parseInput (((some (first :: rest)).map fun items =>
              Value.array (items.map SerializedInput.toValue)).getD .undefined)
            = some (some (first :: rest)) :=
        records_map parseInput_entries
      have shape
          : (listed ((first :: rest).map SerializedInput.toValue)).getD .undefined
            = .array ((first :: rest).map SerializedInput.toValue) := rfl
      rw [shape]
      exact congrArg (Option.map (·.getD [])) read

theorem parseNode_entries (node : SerializedNode)
    : parseNode (present node.entries) = some node := by
  have distinct : (node.entries.map Prod.fst).Nodup := by simp [SerializedNode.entries]
  have read (key : String) := field_present distinct key
  have ends : endpoints? (present node.entries) = some node.ends :=
    endpoints?_of_fields (read "startedAt") (read "completedAt")
  have spans
      : records endpoints? (field (present node.entries) "spans") = some node.spans := by
    rw [read]
    exact records_map endpoints?_entries
  have producer
      : optional (fun value => (record? value).bind parseProducer)
          (field (present node.entries) "producer")
        = some node.producer := by
    rw [read]
    exact optional_getD (fun one _ => parseProducer_entries one) fun _ => Value.noConfusion
  have groups
      : parseAliases (field (present node.entries) "groups") = some ⟨node.groups, node.aliases⟩ := by
    rw [read]
    exact parseAliases_listed node.aliases
  have inputs
      : (records parseInput (field (present node.entries) "inputs")).map (·.getD [])
        = some node.inputs := by
    rw [read]
    exact records_listed node.inputs
  have incomplete : parseFlag (present node.entries) "incomplete" = some node.incomplete :=
    parseFlag_of_field (read "incomplete")
  obtain ⟨listed_, found, same⟩ := Option.map_eq_some_iff.mp inputs
  rw [parseNode, ends, spans, producer, groups, found, incomplete, read "id", read "clock",
    read "priorMs", read "timeOrigin"]
  simp only [SerializedNode.entries, List.find?_cons, String.reduceEq, decide_false,
    decide_true, Option.bind_some, Option.getD_some, identity?_toValue, optional_duration, same]
  rw [assembleNode, dif_pos node.within]

theorem version?_of_version? {value : Value} {version : ℕ} (read : version? value = some version)
    : version? (.number (.finite version)) = some version := by
  unfold version? at read
  split at read
  next number =>
    split at read
    · obtain rfl := Option.some.inj read
      rfl
    · split at read
      · obtain rfl := Option.some.inj read
        rfl
      · split at read
        · obtain rfl := Option.some.inj read
          rfl
        · cases read
  next => cases read

/-- A written graph is read back up to the validation of its nodes together. -/
theorem normalizeTimelineComputation_toValue {value : Value} (graph : SerializedTimelineComputation)
    (versioned : version? value = some graph.version)
    : normalizeTimelineComputation graph.toValue
      = (scanNodes graph.nodes {}).bind fun scan =>
          orderGraph graph.version graph.root scan.byID := by
  have nodes
      : parseNodes (.array (graph.nodes.map SerializedNode.toValue)) = some graph.nodes :=
    collectAll_map fun node _ => parseNode_entries node
  have read
      : record? graph.toValue
        = some
          [("version", .number (.finite graph.version)),
            ("root", graph.root.toValue),
            ("nodes", .array (graph.nodes.map SerializedNode.toValue))] := rfl
  rw [normalizeTimelineComputation, read, Option.bind_some]
  simp [field, version?_of_version? versioned, nodes]

end RoundTrip

section Lossless

variable {value : Value}

theorem Endpoints.lossless (ends : Endpoints) : Lossless ends.toValue := by
  refine lossless_present fun entry member value held => ?_
  simp only [Endpoints.entries, List.mem_cons, List.not_mem_nil, or_false] at member
  rcases member with rfl | rfl
  all_goals
    obtain rfl := Option.some.inj held
    exact lossless_number _

theorem Name.lossless_map {name : Option Name} (held : name.map Name.toValue = some value)
    : Lossless value := by
  obtain ⟨one, -, rfl⟩ := Option.map_eq_some_iff.mp held
  exact lossless_string _

theorem Duration.lossless_map {duration : Option Duration}
    (held : duration.map Duration.toValue = some value)
    : Lossless value := by
  obtain ⟨one, -, rfl⟩ := Option.map_eq_some_iff.mp held
  exact lossless_number _

theorem lossless_flag {given : Bool} (held : flag given = some value)
    : Lossless value := by
  cases given with
  | true => exact Option.some.inj held ▸ rfl
  | false => cases held

theorem lossless_listed {α : Type} {write : α → Value} {items : List α}
    (each : ∀ item, Lossless (write item)) (held : listed (items.map write) = some value)
    : Lossless value := by
  unfold listed at held
  split at held
  · cases held
  · exact Option.some.inj held ▸ Value.lossless_map each

theorem SerializedProducer.lossless (producer : SerializedProducer) : Lossless producer.toValue := by
  refine lossless_present fun entry member value held => ?_
  simp only [SerializedProducer.entries, List.mem_cons, List.not_mem_nil, or_false] at member
  rcases member with rfl | rfl | rfl
  · exact Option.some.inj held ▸ lossless_string _
  · exact Name.lossless_map held
  · exact Name.lossless_map held

theorem SerializedPart.lossless (part : SerializedPart) : Lossless part.toValue := by
  refine lossless_present fun entry member value held => ?_
  simp only [SerializedPart.entries, Endpoints.entries, List.mem_cons, List.not_mem_nil,
    or_false] at member
  rcases member with rfl | rfl | rfl
  · exact Option.some.inj held ▸ lossless_string _
  · exact Option.some.inj held ▸ lossless_number _
  · exact Option.some.inj held ▸ lossless_number _

theorem SerializedInput.lossless (input : SerializedInput) : Lossless input.toValue := by
  refine lossless_present fun entry member value held => ?_
  simp only [SerializedInput.entries, List.mem_cons, List.not_mem_nil, or_false] at member
  rcases member with rfl | rfl | rfl | rfl | rfl | rfl
  · exact Option.some.inj held ▸ lossless_string _
  · exact lossless_flag held
  · exact lossless_flag held
  · exact lossless_flag held
  · exact lossless_flag held
  · obtain ⟨parts, -, rfl⟩ := Option.map_eq_some_iff.mp held
    exact Value.lossless_map SerializedPart.lossless

theorem SerializedNode.lossless (node : SerializedNode) : Lossless node.toValue := by
  refine lossless_present fun entry member value held => ?_
  simp only [SerializedNode.entries, List.mem_cons, List.not_mem_nil, or_false] at member
  rcases member with rfl | rfl | rfl | rfl | rfl | rfl | rfl | rfl | rfl | rfl | rfl
  · exact Option.some.inj held ▸ lossless_string _
  · exact Option.some.inj held ▸ lossless_string _
  · exact Option.some.inj held ▸ lossless_number _
  · exact Option.some.inj held ▸ lossless_number _
  · exact Duration.lossless_map held
  · obtain ⟨spans, -, rfl⟩ := Option.map_eq_some_iff.mp held
    exact Value.lossless_map Endpoints.lossless
  · exact Duration.lossless_map held
  · obtain ⟨producer, -, rfl⟩ := Option.map_eq_some_iff.mp held
    exact producer.lossless
  · exact lossless_listed (fun name => lossless_string _) held
  · exact lossless_flag held
  · exact lossless_listed SerializedInput.lossless held

/-- A JSON round trip returns a written graph as it is. -/
theorem SerializedTimelineComputation.lossless (graph : SerializedTimelineComputation)
    : jsonRoundTrip graph.toValue = some graph.toValue := by
  refine lossless_object fun entry member => ?_
  simp only [List.mem_cons, List.not_mem_nil, or_false] at member
  rcases member with rfl | rfl | rfl
  · exact lossless_number _
  · exact lossless_string _
  · exact Value.lossless_map SerializedNode.lossless

end Lossless

end SpeculativeAction.TaskTiming
