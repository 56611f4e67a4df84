import SpeculativeAction.StreamPreview.Premature

/-! A tool call that arrives in deltas, among the events of others, is previewed at most once,
with the arguments of its whole text, and not before that text has arrived.
-/

namespace SpeculativeAction.StreamPreview

open SpeculativeAction.Library SpeculativeAction.Library.Data

-- Streams

section Streams

variable {index : ℕ} {text : JsString} {fields : List (JsString × Data)}

/-- How far the call of an index has come. -/
inductive Phase where
  | idle
  | streaming (received : JsString)
  | ended

/-- Events in which the call of an index arrives: the text of its arguments in deltas of any
sizes, its id and name at any time, and at the end the whole call. What happens at other indices
is arbitrary.
-/
inductive Streams (index : ℕ) (text : JsString) (fields : List (JsString × Data))
    : List AssistantMessageEvent → Phase → Prop
  | nil : Streams index text fields [] .idle
  | elsewhere (events : List AssistantMessageEvent) (phase : Phase)
    (update : AssistantMessageEvent) (other : update.contentIndex? ≠ some index)
    (before : Streams index text fields events phase)
    : Streams index text fields (events ++ [update]) phase
  | start (events : List AssistantMessageEvent) (content : List ContentPart) (id name : JsString)
    (isCall : content[index]? = some (.toolCall id name))
    (before : Streams index text fields events .idle)
    : Streams index text fields (events ++ [.toolcallStart index content]) (.streaming [])
  | delta (events : List AssistantMessageEvent) (content : List ContentPart) (id name : JsString)
    (received delta : JsString) (isCall : content[index]? = some (.toolCall id name))
    (ofText : received ++ delta <+: text)
    (before : Streams index text fields events (.streaming received))
    : Streams index text fields (events ++ [.toolcallDelta index delta content])
        (.streaming (received ++ delta))
  | stop (events : List AssistantMessageEvent) (toolCall : ToolCall)
    (whole : toolCall.arguments = fields)
    (before : Streams index text fields events (.streaming text))
    : Streams index text fields (events ++ [.toolcallEnd index toolCall]) .ended

end Streams

-- What the tracker holds

section Tracking

variable {index : ℕ} {text received : JsString} {fields : List (JsString × Data)}
  {tracker : ActorStreamPreviewTracker} {calls : List ToolCall} {content : List ContentPart}

/-- The state of a call that waits for the rest of its text. -/
def waiting (received : JsString) (toolPreviewed : Bool) : StreamedCall :=
  { StreamedCall.scanUnits {} received with arguments := received, toolPreviewed }

/-- What the scan does not look at, it leaves alone. -/
theorem scanUnits_frame (state : StreamedCall) (arguments delta : JsString) (toolPreviewed : Bool)
    : StreamedCall.scanUnits { state with arguments, toolPreviewed } delta
        = { state.scanUnits delta with arguments, toolPreviewed }
      ∧ (state.scanUnits delta).callPreviewed = state.callPreviewed := by
  induction delta generalizing state with
  | nil => exact ⟨rfl, rfl⟩
  | cons first rest ih =>
      have step : StreamedCall.scanUnit { state with arguments, toolPreviewed } first
          = { state.scanUnit first with arguments, toolPreviewed } := by
        simp only [StreamedCall.scanUnit, StreamedCall.scanCharacter]
        split_ifs <;> rfl
      have kept : (state.scanUnit first).callPreviewed = state.callPreviewed := by
        rw [StreamedCall.scanUnit, StreamedCall.scanCharacter]
        split_ifs <;> rfl
      obtain ⟨frame, same⟩ := ih (state.scanUnit first)
      constructor
      · rw [StreamedCall.scanUnits, List.foldl_cons, step]
        exact frame
      · exact same.trans kept

theorem callPreviewed_waiting (received : JsString) (toolPreviewed : Bool)
    : (waiting received toolPreviewed).callPreviewed = false :=
  (scanUnits_frame {} [] received false).2

/-- A delta is scanned onto what was scanned before. -/
theorem waiting_scan (received delta : JsString) (toolPreviewed : Bool)
    : StreamedCall.scan { waiting received toolPreviewed with arguments := received ++ delta } delta
      = waiting (received ++ delta) toolPreviewed := by
  have frame := (scanUnits_frame (StreamedCall.scanUnits {} received) (received ++ delta) delta
    toolPreviewed).1
  have joined : waiting (received ++ delta) toolPreviewed
      = { (StreamedCall.scanUnits {} received).scanUnits delta with
          arguments := received ++ delta, toolPreviewed } := by
    rw [waiting, scanUnits_append]
  rw [scan_eq_scanUnits]
  exact frame.trans joined.symm

/-- What the tracker holds for the index, and which calls it previewed there. -/
inductive Tracked (index : ℕ) (text : JsString) (fields : List (JsString × Data))
    : Phase → Option StreamedCall → List ToolCall → Prop
  | idle : Tracked index text fields .idle none []
  | waiting (received : JsString) (toolPreviewed : Bool) (ofText : received <+: text)
    : Tracked index text fields (.streaming received)
        (some (waiting received toolPreviewed)) []
  | previewed (received : JsString) (state : StreamedCall) (call : ToolCall)
    (isPreviewed : state.callPreviewed = true) (whole : call.arguments = fields)
    (complete : Complete text received)
    : Tracked index text fields (.streaming received) (some state) [call]
  | ended (call : ToolCall) (whole : call.arguments = fields)
    : Tracked index text fields .ended none [call]

/-- An event of another index leaves the state of this one. -/
theorem get?_observe_other {update : AssistantMessageEvent}
    (other : update.contentIndex? ≠ some index)
    : (tracker.observe update).1.get? index = tracker.get? index := by
  have set_ (at_ : ℕ) (different : some at_ ≠ some index) (state : StreamedCall)
      : (tracker.set at_ state).get? index = tracker.get? index := by
    rw [OrderedMap.get?_set, if_neg fun same => different (congrArg some same).symm]
  cases update with
  | other => rfl
  | toolcallEnd at_ toolCall =>
      change (tracker.delete at_).get? index = tracker.get? index
      rw [OrderedMap.get?_delete, if_neg fun same => other (congrArg some same).symm]
  | toolcallStart at_ content =>
      rw [ActorStreamPreviewTracker.observe]
      split
      next =>
        dsimp only
        split
        next => exact set_ at_ other _
        next => exact set_ at_ other _
      next => rfl
  | toolcallDelta at_ delta content =>
      rw [ActorStreamPreviewTracker.observe]
      split
      next =>
        dsimp only
        split
        next => exact set_ at_ other _
        next => exact set_ at_ other _
      next => rfl

theorem filterMap_callAt_other {at_ : Option ℕ} (other : at_ ≠ some index)
    (previews : List ActorStreamPreview)
    : (previews.map fun preview => (at_, preview)).filterMap (callAt index) = [] := by
  refine List.filterMap_eq_nil_iff.mpr fun pair member => ?_
  obtain ⟨preview, -, rfl⟩ := List.mem_map.mp member
  cases preview with
  | tool tool => rfl
  | call call => exact if_neg other

/-- Previews of tools are no previews of calls. -/
theorem filterMap_callAt_tools {previews : List ActorStreamPreview}
    (tools : ∀ preview ∈ previews, ∃ tool, preview = .tool tool) (at_ : Option ℕ)
    : (previews.map fun preview => (at_, preview)).filterMap (callAt index) = [] := by
  refine List.filterMap_eq_nil_iff.mpr fun pair member => ?_
  obtain ⟨preview, inside, rfl⟩ := List.mem_map.mp member
  obtain ⟨tool, rfl⟩ := tools preview inside
  rfl

theorem filterMap_callAt_call (call : ToolCall)
    : ([ActorStreamPreview.call call].map fun preview => (some index, preview)).filterMap
        (callAt index) = [call] := by
  simp [callAt]

/-- The tool is previewed beside the scan. -/
theorem previewTool_waiting (received name : JsString) (toolPreviewed : Bool)
    : ∃ nowPreviewed tools,
        (waiting received toolPreviewed).previewTool name = (waiting received nowPreviewed, tools)
        ∧ ∀ preview ∈ tools, ∃ tool, preview = ActorStreamPreview.tool tool := by
  rw [StreamedCall.previewTool]
  split
  next => exact ⟨true, _, rfl, fun preview member => ⟨name, List.mem_singleton.mp member⟩⟩
  next => exact ⟨toolPreviewed, _, rfl, fun preview none_ => absurd none_ List.not_mem_nil⟩

theorem Complete.more {delta : JsString} (complete : Complete text received)
    (ofText : received ++ delta <+: text)
    : Complete text (received ++ delta) := by
  obtain ⟨space, spelled, isBlank⟩ := complete
  obtain ⟨missing, same⟩ := ofText
  rw [spelled, List.append_assoc, List.append_cancel_left_eq] at same
  refine ⟨missing, ?_, (List.forall_mem_append.mp (same ▸ isBlank)).2⟩
  rw [spelled, List.append_assoc, same]

/-- The start of a call. -/
theorem tracked_start {id name : JsString} (isCall : content[index]? = some (.toolCall id name))
    (fresh : tracker.get? index = none)
    : ∃ previews,
        (tracker.observe (.toolcallStart index content)).2 = previews
        ∧ (previews.map fun preview => (some index, preview)).filterMap (callAt index) = []
        ∧ Tracked index text fields (.streaming [])
            ((tracker.observe (.toolcallStart index content)).1.get? index) [] := by
  obtain ⟨nowPreviewed, tools, shown, onlyTools⟩ := previewTool_waiting [] name false
  have state : tracker.stateAt index = waiting [] false := by
    rw [ActorStreamPreviewTracker.stateAt, fresh]
    rfl
  have observed : tracker.observe (.toolcallStart index content)
      = (tracker.set index (waiting [] nowPreviewed), tools) := by
    rw [ActorStreamPreviewTracker.observe, isCall]
    dsimp only
    rw [state, callPreviewed_waiting, if_neg Bool.false_ne_true, shown]
  refine ⟨tools, by rw [observed], filterMap_callAt_tools onlyTools _, ?_⟩
  rw [observed]
  dsimp only
  rw [OrderedMap.get?_set, if_pos rfl]
  exact .waiting [] nowPreviewed List.nil_prefix

/-- A delta of a call that was not previewed yet. -/
theorem observe_delta {id name delta : JsString} {state scanned shown : StreamedCall}
    {tools : List ActorStreamPreview} (isCall : content[index]? = some (.toolCall id name))
    (found : tracker.stateAt index = state) (notPreviewed : state.callPreviewed = false)
    (scan : { state with arguments := state.arguments ++ delta }.scan delta = scanned)
    (tool : scanned.previewTool name = (shown, tools))
    : tracker.observe (.toolcallDelta index delta content)
      = (tracker.set index (shown.previewCall id name).1,
        tools ++ (shown.previewCall id name).2) := by
  have open_ : ¬ state.callPreviewed = true := by
    rw [notPreviewed]
    exact Bool.false_ne_true
  rw [ActorStreamPreviewTracker.observe, isCall]
  dsimp only
  rw [found, if_neg open_, scan, tool]

/-- One delta: the call waits on, or its whole text is there and it is previewed. -/
theorem tracked_delta (json : jsonParse text = some (.object fields)) {id name delta : JsString}
    (isCall : content[index]? = some (.toolCall id name)) (ofText : received ++ delta <+: text)
    (tracked : Tracked index text fields (.streaming received) (tracker.get? index) calls)
    : ∃ more,
        ((tracker.observe (.toolcallDelta index delta content)).2.map
            fun preview => (some index, preview)).filterMap (callAt index) = more
        ∧ Tracked index text fields (.streaming (received ++ delta))
            ((tracker.observe (.toolcallDelta index delta content)).1.get? index)
            (calls ++ more) := by
  generalize found : tracker.get? index = held at tracked
  cases tracked with
  | waiting received toolPreviewed _ =>
      have state : tracker.stateAt index = waiting received toolPreviewed := by
        rw [ActorStreamPreviewTracker.stateAt, found, Option.getD_some]
      obtain ⟨nowPreviewed, tools, shown, onlyTools⟩ :=
        previewTool_waiting (received ++ delta) name toolPreviewed
      have observed := observe_delta isCall state (callPreviewed_waiting _ _)
        (waiting_scan received delta toolPreviewed) shown
      rw [observed]
      dsimp only
      rw [OrderedMap.get?_set, if_pos rfl, List.map_append, List.filterMap_append,
        filterMap_callAt_tools onlyTools, List.nil_append, StreamedCall.previewCall]
      split
      next now =>
        obtain ⟨complete, parsed⟩ := complete_of_ready json ofText now.1
        have arguments
            : (waiting (received ++ delta) nowPreviewed).arguments = received ++ delta := rfl
        rw [arguments, parsed]
        refine ⟨_, rfl, ?_⟩
        rw [filterMap_callAt_call]
        exact .previewed _ _ _ rfl rfl complete
      next =>
        refine ⟨_, rfl, ?_⟩
        exact .waiting _ nowPreviewed ofText
  | previewed received state call isPreviewed whole complete =>
      have same : tracker.stateAt index = state := by
        rw [ActorStreamPreviewTracker.stateAt, found, Option.getD_some]
      have observed : tracker.observe (.toolcallDelta index delta content)
          = (tracker.set index state, []) := by
        rw [ActorStreamPreviewTracker.observe, isCall]
        dsimp only
        rw [same, if_pos isPreviewed]
      rw [observed]
      dsimp only
      rw [OrderedMap.get?_set, if_pos rfl]
      refine ⟨[], rfl, ?_⟩
      exact .previewed _ state call isPreviewed whole (complete.more ofText)

/-- The end of a call: it is previewed unless it was before. -/
theorem tracked_stop {toolCall : ToolCall} (whole : toolCall.arguments = fields)
    (tracked : Tracked index text fields (.streaming text) (tracker.get? index) calls)
    : Tracked index text fields .ended
        ((tracker.observe (.toolcallEnd index toolCall)).1.get? index)
        (calls ++ ((tracker.observe (.toolcallEnd index toolCall)).2.map
          fun preview => (some index, preview)).filterMap (callAt index)) := by
  have gone : (tracker.delete index).get? index = none := by
    rw [OrderedMap.get?_delete, if_pos rfl]
  rw [ActorStreamPreviewTracker.observe]
  dsimp only
  rw [gone]
  generalize tracker.get? index = held at tracked
  cases tracked with
  | waiting received toolPreviewed _ =>
      rw [Option.any_some, callPreviewed_waiting, if_neg Bool.false_ne_true, filterMap_callAt_call]
      exact .ended toolCall whole
  | previewed received state call isPreviewed before complete =>
      rw [Option.any_some, isPreviewed, if_pos rfl]
      exact .ended call before

end Tracking

-- Whole streams

section Runs

variable {index : ℕ} {text : JsString} {fields : List (JsString × Data)}
  {events : List AssistantMessageEvent} {phase : Phase}

theorem observeAll_append (events : List AssistantMessageEvent) (update : AssistantMessageEvent)
    : ActorStreamPreviewTracker.observeAll (events ++ [update])
      = ActorStreamPreviewTracker.observeNext (ActorStreamPreviewTracker.observeAll events) update
    := by
  rw [ActorStreamPreviewTracker.observeAll, List.foldl_append]
  rfl

theorem callPreviews_append (events : List AssistantMessageEvent) (update : AssistantMessageEvent)
    : callPreviews index (events ++ [update])
      = callPreviews index events
        ++ (((ActorStreamPreviewTracker.observeAll events).1.observe update).2.map
            fun preview => (update.contentIndex?, preview)).filterMap (callAt index) := by
  rw [callPreviews, observeAll_append, ActorStreamPreviewTracker.observeNext]
  exact List.filterMap_append

/-- By induction over the events. -/
theorem Streams.tracked (json : jsonParse text = some (.object fields))
    (stream : Streams index text fields events phase)
    : Tracked index text fields phase
        ((ActorStreamPreviewTracker.observeAll events).1.get? index) (callPreviews index events) := by
  have state (events : List AssistantMessageEvent) (update : AssistantMessageEvent)
      : (ActorStreamPreviewTracker.observeAll (events ++ [update])).1
        = ((ActorStreamPreviewTracker.observeAll events).1.observe update).1 := by
    rw [observeAll_append]
    rfl
  induction stream with
  | nil => exact .idle
  | elsewhere events phase update other before ih =>
      rw [state, callPreviews_append, get?_observe_other other, filterMap_callAt_other other,
        List.append_nil]
      exact ih
  | start events content id name isCall before ih =>
      have fresh : (ActorStreamPreviewTracker.observeAll events).1.get? index = none
          ∧ callPreviews index events = [] := by
        generalize (ActorStreamPreviewTracker.observeAll events).1.get? index = held at ih
        generalize callPreviews index events = calls at ih
        cases ih
        exact ⟨rfl, rfl⟩
      obtain ⟨previews, shown, none_, tracked⟩ := tracked_start isCall fresh.1
      rw [state, callPreviews_append, fresh.2, shown, List.nil_append]
      rw [AssistantMessageEvent.contentIndex?, none_]
      exact tracked
  | delta events content id name received delta isCall ofText before ih =>
      obtain ⟨more, shown, tracked⟩ := tracked_delta json isCall ofText ih
      rw [state, callPreviews_append]
      rw [AssistantMessageEvent.contentIndex?, shown]
      exact tracked
  | stop events toolCall whole before ih =>
      rw [state, callPreviews_append]
      exact tracked_stop whole ih

/-- However the text of an object is split into deltas, its call is previewed at most once, with
the arguments the text parses to, and not before all of the text but white space has arrived. At
the end of the call it has been previewed.
-/
theorem preview_not_premature (json : jsonParse text = some (.object fields))
    (stream : Streams index text fields events phase)
    : (callPreviews index events).length ≤ 1
      ∧ (∀ call ∈ callPreviews index events, call.arguments = fields)
      ∧ (∀ received, phase = .streaming received → callPreviews index events ≠ [] →
          Complete text received)
      ∧ (phase = .ended → (callPreviews index events).length = 1) := by
  have tracked := stream.tracked json
  generalize (ActorStreamPreviewTracker.observeAll events).1.get? index = held at tracked
  generalize callPreviews index events = calls at tracked ⊢
  cases tracked with
  | idle =>
      exact ⟨Nat.zero_le _, fun _ none_ => absurd none_ List.not_mem_nil,
        fun _ _ some_ => absurd rfl some_, fun other => by cases other⟩
  | waiting received toolPreviewed ofText =>
      exact ⟨Nat.zero_le _, fun _ none_ => absurd none_ List.not_mem_nil,
        fun _ _ some_ => absurd rfl some_, fun other => by cases other⟩
  | previewed received state call isPreviewed whole complete =>
      refine ⟨Nat.le_refl _, fun other member => ?_, fun other same _ => ?_, fun _ => rfl⟩
      · rw [List.mem_singleton.mp member, whole]
      · cases same
        exact complete
  | ended call whole =>
      refine ⟨Nat.le_refl _, fun other member => ?_, fun other same _ => ?_, fun _ => rfl⟩
      · rw [List.mem_singleton.mp member, whole]
      · cases same

/-- A message with one call. -/
def oneCall : List ContentPart := [.toolCall (units "1") (units "read")]

/-- An empty object and what is left of a text that starts with it. -/
theorem streams_emptyObject {text : JsString} (starts : units "\x7b\x7d" <+: text)
    : Streams 0 text [] [.toolcallStart 0 oneCall, .toolcallDelta 0 (units "\x7b\x7d") oneCall]
        (.streaming (units "\x7b\x7d")) :=
  .delta [.toolcallStart 0 oneCall] oneCall (units "1") (units "read") [] (units "\x7b\x7d") rfl
    starts (.start [] oneCall (units "1") (units "read") rfl .nil)

/-- Deltas of a nested object that are cut inside the escape of a quote, behind a brace that
stands in the same string.
-/
def beforeEscaped : JsString := units "\x7b\"a\":\x7b\"b\":\"\x7d\\"

def fromEscaped : JsString := units "\"\"\x7d\x7d"

def nestedText : JsString := beforeEscaped ++ fromEscaped ++ units " "

def nestedFields : List (JsString × Data) :=
  [(units "a", .object [(units "b", .string (units "\x7d\""))])]

def cutEvents : List AssistantMessageEvent :=
  [.toolcallStart 0 oneCall, .toolcallDelta 0 beforeEscaped oneCall]

def nestedEvents : List AssistantMessageEvent :=
  cutEvents ++ [.toolcallDelta 0 fromEscaped oneCall]

theorem streams_cut : Streams 0 nestedText nestedFields cutEvents (.streaming beforeEscaped) :=
  .delta [.toolcallStart 0 oneCall] oneCall (units "1") (units "read") [] beforeEscaped rfl
    (by decide +kernel) (.start [] oneCall (units "1") (units "read") rfl .nil)

theorem streams_nested
    : Streams 0 nestedText nestedFields nestedEvents
        (.streaming (beforeEscaped ++ fromEscaped)) :=
  .delta cutEvents oneCall (units "1") (units "read") beforeEscaped fromEscaped rfl
    (by decide +kernel) streams_cut

theorem jsonParse_nestedText : jsonParse nestedText = some (.object nestedFields) := by
  have written : writeData (.object nestedFields) = beforeEscaped ++ fromEscaped := by
    decide +kernel
  have read : jsonParse (writeData (.object nestedFields)) = some (.object nestedFields) :=
    jsonParse_writeData (by decide +kernel)
  obtain ⟨core, space, split, derived, isBlank⟩ := jsonParse_iff.mp read
  refine jsonParse_iff.mpr ⟨core, space ++ units " ", ?_, derived, ?_⟩
  · rw [nestedText, ← written, split, List.append_assoc]
  · intro other member
    cases List.mem_append.mp member with
    | inl inner => exact isBlank other inner
    | inr last =>
        rw [List.mem_singleton.mp last]
        rfl

theorem preview_not_premature_nested
    : callPreviews 0 cutEvents = []
      ∧ (callPreviews 0 nestedEvents).length = 1
      ∧ (∀ call ∈ callPreviews 0 nestedEvents, call.arguments = nestedFields)
      ∧ Complete nestedText (beforeEscaped ++ fromEscaped) := by
  have nested := preview_not_premature jsonParse_nestedText streams_nested
  have none_ : (callPreviews 0 cutEvents).length = 0 := by decide +kernel
  have previewed : (callPreviews 0 nestedEvents).length = 1 := by decide +kernel
  have some_ : callPreviews 0 nestedEvents ≠ [] := by
    intro empty
    simp [empty] at previewed
  exact ⟨List.length_eq_zero_iff.mp none_, previewed, nested.2.1, nested.2.2.1 _ rfl some_⟩

/-- White space behind the object is not waited for. -/
theorem preview_before_whiteSpace
    : ¬ ∀ (index : ℕ) (text received : JsString) (fields : List (JsString × Data))
          (events : List AssistantMessageEvent),
          jsonParse text = some (.object fields) →
          Streams index text fields events (.streaming received) →
          callPreviews index events ≠ [] → received = text := by
  intro always
  have json : jsonParse (units "\x7b\x7d ") = some (.object []) := by rfl
  have same := always 0 (units "\x7b\x7d ") (units "\x7b\x7d") [] _ json
    (streams_emptyObject (by decide)) (List.cons_ne_nil _ _)
  exact absurd same (by decide)

end Runs

end SpeculativeAction.StreamPreview
