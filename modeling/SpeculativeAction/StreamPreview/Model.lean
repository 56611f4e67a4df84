import SpeculativeAction.Library.JsonGrammar

/-! The tracker of an Actor's stream: it previews a tool call from the deltas of its arguments,
once a scan of the new characters found an end and the whole input parses to an object.
-/

namespace SpeculativeAction.StreamPreview

open SpeculativeAction.Library

section Events

structure ToolCall where
  id : JsString
  name : JsString
  arguments : List (JsString × Data)

/-- A part of the message so far; only tool calls are looked at. -/
inductive ContentPart where
  | toolCall (id name : JsString)
  | other

inductive AssistantMessageEvent where
  | toolcallStart (contentIndex : ℕ) (content : List ContentPart)
  | toolcallDelta (contentIndex : ℕ) (delta : JsString) (content : List ContentPart)
  | toolcallEnd (contentIndex : ℕ) (toolCall : ToolCall)
  | other

inductive ActorStreamPreview where
  | tool (tool : JsString)
  | call (call : ToolCall)

def AssistantMessageEvent.contentIndex? : AssistantMessageEvent → Option ℕ
  | .toolcallStart index _ | .toolcallDelta index _ _ | .toolcallEnd index _ => some index
  | .other => none

end Events

section Scanning

structure StreamedCall where
  arguments : JsString := []
  depth : ℤ := 0
  quoted : Bool := false
  escaped : Bool := false
  ready : Bool := false
  toolPreviewed : Bool := false
  callPreviewed : Bool := false

/-- The characters of a string: its code points, where a surrogate pair is one. -/
def characters : JsString → List JsString
  | [] => []
  | [last] => [[last]]
  | lead :: trail :: rest =>
      if isLeadSurrogate lead && isTrailSurrogate trail then [lead, trail] :: characters rest
      else [lead] :: characters (trail :: rest)

def StreamedCall.scanCharacter (state : StreamedCall) (character : JsString) : StreamedCall :=
  if state.escaped then { state with escaped := false }
  else if character = units "\\" ∧ state.quoted = true then { state with escaped := true }
  else if character = units "\"" then { state with quoted := !state.quoted }
  else if state.quoted then state
  else if character = units "\x7b" ∨ character = units "[" then
    { state with depth := state.depth + 1 }
  else if character = units "\x7d" ∨ character = units "]" then
    { state with
      depth := state.depth - 1
      ready := decide (state.depth - 1 = 0) || state.ready }
  else state

def StreamedCall.scan (state : StreamedCall) (delta : JsString) : StreamedCall :=
  (characters delta).foldl scanCharacter state

end Scanning

section Tracking

abbrev ActorStreamPreviewTracker := OrderedMap ℕ StreamedCall

def jsonObject (value : JsString) : Option (List (JsString × Data)) :=
  match jsonParse value with
  | some (.object fields) => some fields
  | _ => none

/-- The tool of a call is previewed once it has a name. -/
def StreamedCall.previewTool (state : StreamedCall) (name : JsString)
    : StreamedCall × List ActorStreamPreview :=
  if state.toolPreviewed = false ∧ name ≠ [] then
    ({ state with toolPreviewed := true }, [.tool name])
  else (state, [])

/-- A delta: the call is previewed when the input is ready and parses. -/
def StreamedCall.previewCall (state : StreamedCall) (id name : JsString)
    : StreamedCall × List ActorStreamPreview :=
  if state.ready = true ∧ name ≠ [] ∧ id ≠ [] then
    match jsonObject state.arguments with
    | some parsed =>
        ({ state with ready := false, callPreviewed := true, arguments := [] },
          [.call { id, name, arguments := parsed }])
    | none => ({ state with ready := false }, [])
  else (state, [])

namespace ActorStreamPreviewTracker

/-- The call of an index, which is there from its first event on. -/
def stateAt (tracker : ActorStreamPreviewTracker) (contentIndex : ℕ) : StreamedCall :=
  (tracker.get? contentIndex).getD {}

def observe (tracker : ActorStreamPreviewTracker) (update : AssistantMessageEvent)
    : ActorStreamPreviewTracker × List ActorStreamPreview :=
  match update with
  | .toolcallEnd contentIndex toolCall =>
      let previewed := (tracker.get? contentIndex).any (·.callPreviewed)
      (tracker.delete contentIndex, if previewed then [] else [.call toolCall])
  | .toolcallStart contentIndex content =>
      match content[contentIndex]? with
      | some (.toolCall _ name) =>
          let state := tracker.stateAt contentIndex
          if state.callPreviewed then (tracker.set contentIndex state, [])
          else
            let (state, result) := state.previewTool name
            (tracker.set contentIndex state, result)
      | _ => (tracker, [])
  | .toolcallDelta contentIndex delta content =>
      match content[contentIndex]? with
      | some (.toolCall id name) =>
          let state := tracker.stateAt contentIndex
          if state.callPreviewed then (tracker.set contentIndex state, [])
          else
            let state := { state with arguments := state.arguments ++ delta }.scan delta
            let (state, tools) := state.previewTool name
            let (state, calls) := state.previewCall id name
            (tracker.set contentIndex state, tools ++ calls)
      | _ => (tracker, [])
  | .other => (tracker, [])

/-- One more event, and the previews of all events so far, each with the index of its event. -/
def observeNext (run : ActorStreamPreviewTracker × List (Option ℕ × ActorStreamPreview))
    (update : AssistantMessageEvent)
    : ActorStreamPreviewTracker × List (Option ℕ × ActorStreamPreview) :=
  let (tracker, previews) := run.1.observe update
  (tracker, run.2 ++ previews.map fun preview => (update.contentIndex?, preview))

def observeAll (events : List AssistantMessageEvent)
    : ActorStreamPreviewTracker × List (Option ℕ × ActorStreamPreview) :=
  events.foldl observeNext (.empty, [])

end ActorStreamPreviewTracker

/-- The call that a preview of an event with this index is of. -/
def callAt (contentIndex : ℕ) (preview : Option ℕ × ActorStreamPreview) : Option ToolCall :=
  match preview.2 with
  | .tool _ => none
  | .call call => if preview.1 = some contentIndex then some call else none

/-- The calls that are previewed for an index. -/
def callPreviews (contentIndex : ℕ) (events : List AssistantMessageEvent) : List ToolCall :=
  (ActorStreamPreviewTracker.observeAll events).2.filterMap (callAt contentIndex)

end Tracking

end SpeculativeAction.StreamPreview
