import ATape.Analytics.Results

/-! The loop over the events of a session. It counts them, folds the updates of each tool call and notes
the events that are evidence themselves. -/
namespace ATape.SessionAnalytics
open Foundation Go
open Canonical (ThreadRecord EventRecord ToolIdentity ToolUpdate parseToolUpdate)

def evidenceItem (event : EventRecord) (label : String) : EvidenceItem where
  eventID := event.id
  threadID := event.threadID
  kind := event.kind
  label
  occurredAt := if event.occurredAt.isZero = true then none else some event.occurredAt.utc
  clockQuality := none

structure CallKey where
  thread : String
  id : String
deriving DecidableEq

structure ToolCall where
  name : String
  kind : String
  status : String
  identity : Option ToolIdentity
  fileActivity : List (String × String)
  event : EventRecord

/-- Operation and path of the entries of a file activity. -/
def fileActivityEntries (raw : String) : Option (List (String × String)) :=
  if Canonical.isNull raw then some []
  else (Json.elements raw).bind fun entries => entries.mapM fun entry => do
    let fields ← Json.fields entry
    let operation ← Canonical.stringMember ((Canonical.field fields "operation").map (·.value))
    let path ← Canonical.stringMember ((Canonical.field fields "path").map (·.value))
    pure (operation,path)

def analyticsEventMetadataBytes (event : EventRecord) : ℕ :=
  len event.id+len event.sessionID+len event.threadID+len event.sourceKey+len event.orderFidelity+len event.fidelity+
    len event.kind+len event.author+len event.toolLabel+len event.toolUpdateJSON+len event.schemaVersion+256+
    (event.childThreadID.map len).getD 0

/-- What the loop over the events has found. -/
structure EventScan where
  summary : Summary
  threads : Table String Thread
  calls : Table CallKey ToolCall := ∅
  inputs : List (String × ℤ) := []
  candidates : Table String EvidenceItem := ∅
  firstThreadEvent : Table String EventRecord := ∅
  metadataBytes : ℕ := 0

def newInput (equalFold : String → String → Bool) (s : AnalyticsSnapshot) (scan : EventScan) (thread : Thread)
    (event : EventRecord) : Bool :=
  decide (event.kind = "message") && thread.parentThreadID.isNone && decide (trimSpace s.session.actor.name ≠ "") &&
    equalFold (trimSpace event.author) (trimSpace s.session.actor.name) &&
    decide ((event.threadID,event.sourceOrder) ∉ scan.inputs)

def countEvent (summary : Summary) (event : EventRecord) (input : Bool) : Summary :=
  {summary with
    unknownTimeEvents := if event.occurredAt.isZero = true then summary.unknownTimeEvents+1 else summary.unknownTimeEvents
    knownTimeEvents := if event.occurredAt.isZero = true then summary.knownTimeEvents else summary.knownTimeEvents+1
    messageFragments := if event.kind = "message" then summary.messageFragments+1 else summary.messageFragments
    rootUserInputs := if input = true then summary.rootUserInputs+1 else summary.rootUserInputs
    thoughtFragments := if event.kind = "thought" then summary.thoughtFragments+1 else summary.thoughtFragments
    unlinkedToolEvents :=
      if event.toolUpdateJSON = "" ∧ event.kind ∈ ["tool_call","tool_result"] then summary.unlinkedToolEvents+1
      else summary.unlinkedToolEvents}

/-- The label under which an event is itself a candidate of the metric. -/
def eventCandidate (q : Query) (event : EventRecord) (input : Bool) : Option String :=
  if q.metric ∈ ["records","token_records"] then some "Record"
  else if q.metric = "user_inputs" ∧ input = true then some "User input"
  else if q.metric = "thoughts" ∧ event.kind = "thought" then some "Thought fragment"
  else none

/-- Explicit nullable updates clear a fact; absent fields preserve it. -/
def ToolCall.update (call : ToolCall) (update : ToolUpdate) (fields : List Json.Field) (event : EventRecord) : ToolCall where
  name :=
    if (Canonical.field fields "title").isSome = true then
      match update.title with
      | some title => if title = "" then "unknown" else title
      | none => "unknown"
    else call.name
  kind := if (Canonical.field fields "kind").isSome = true then update.kind.getD "unknown" else call.kind
  status := if (Canonical.field fields "status").isSome = true then update.status.getD "" else call.status
  identity := match update.meta_ with
    | some m => m.identity
    | none => call.identity
  fileActivity := match update.meta_.bind (·.fileActivity) with
    | some raw => (fileActivityEntries raw).getD []
    | none => call.fileActivity
  event

/-- Counts an event and notes what it is evidence of, whatever it says of a tool. -/
def EventScan.note (equalFold : String → String → Bool) (s : AnalyticsSnapshot) (q : Query) (scan : EventScan)
    (thread : Thread) (event : EventRecord) : EventScan :=
  let input := newInput equalFold s scan thread event
  { summary := countEvent scan.summary event input
    threads := scan.threads.insert event.threadID {thread with eventCount := thread.eventCount+1}
    calls := scan.calls
    inputs := if input = true then (event.threadID,event.sourceOrder)::scan.inputs else scan.inputs
    candidates := match eventCandidate q event input with
      | some label => scan.candidates.insert event.id (evidenceItem event label)
      | none => scan.candidates
    firstThreadEvent :=
      if (scan.firstThreadEvent.lookup event.threadID).isSome = true then scan.firstThreadEvent
      else scan.firstThreadEvent.insert event.threadID event
    metadataBytes := scan.metadataBytes+analyticsEventMetadataBytes event }

/-- The call before its first update. -/
def ToolCall.start (event : EventRecord) : ToolCall := ⟨"unknown","unknown","",none,[],event⟩

def scanEvent (equalFold : String → String → Bool) (s : AnalyticsSnapshot) (q : Query) (scan : EventScan)
    (event : EventRecord) : Except Failure EventScan := do
  let thread ← present (scan.threads.lookup event.threadID) (.outside "analysis event is outside snapshot")
  failWhen (event.sessionID ≠ s.session.id) (.outside "analysis event is outside snapshot")
  failWhen (scan.metadataBytes+analyticsEventMetadataBytes event > analyticsMetadataBytes ∨
    len event.toolUpdateJSON > 8192) .capacity
  let noted := scan.note equalFold s q thread event
  if event.toolUpdateJSON = "" then pure noted
  else do
    let update ← present (parseToolUpdate event.toolUpdateJSON) (.outside "read analysis tool metadata")
    let fields ← present (Json.fields event.toolUpdateJSON) (.outside "read analysis tool metadata")
    let key : CallKey := ⟨event.threadID,update.toolCallID⟩
    let call := (noted.calls.lookup key).getD (.start event)
    pure {noted with calls := noted.calls.insert key (call.update update fields event)}

def EventScan.run (equalFold : String → String → Bool) (s : AnalyticsSnapshot) (q : Query) :
    EventScan → List EventRecord → Except Failure EventScan
  | scan,[] => pure scan
  | scan,event::events => do
    let scan ← scanEvent equalFold s q scan event
    EventScan.run equalFold s q scan events

/-- The order of the events of a session. -/
def eventLe (a b : EventRecord) : Bool :=
  if a.sourceOrder ≠ b.sourceOrder then a.sourceOrder < b.sourceOrder
  else if a.eventIndex ≠ b.eventIndex then a.eventIndex < b.eventIndex
  else if a.threadID ≠ b.threadID then a.threadID < b.threadID
  else a.id ≤ b.id

def openThreads (s : AnalyticsSnapshot) : Table String Thread → List ThreadRecord → Except Failure (Table String Thread)
  | threads,[] => pure threads
  | threads,source::sources => do
    failWhen (source.sessionID ≠ s.session.id) (.outside "analysis thread is outside snapshot")
    failWhen ((threads.lookup source.id).isSome = true) (.outside "duplicate analysis thread")
    openThreads s (threads.insert source.id
      {id := source.id,label := source.label,parentThreadID := source.parentThreadID,captureStatus := source.captureStatus}) sources

end ATape.SessionAnalytics
