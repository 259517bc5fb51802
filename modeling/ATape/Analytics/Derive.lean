import ATape.Analytics.Cursors
import ATape.Analytics.ToolCalls
import ATape.Foundation.Pages

/-! The analysis of one session: its events, its tool calls, its files and its usage, and a page of the
evidence that a metric selects. -/
namespace ATape.SessionAnalytics
open Foundation Go SourceIdentity
open Canonical (EventRecord UsageRecord)

/-! Token usage. -/

structure TokenColumn where
  value : ℤ := 0
  complete : Bool := false
deriving DecidableEq

/-- The sample has no value for the column, or one that the column cannot take in. -/
def TokenColumn.misses (c : TokenColumn) (value : Option ℤ) : Bool :=
  value.all fun n => n < 0 || n > maxSafeInteger || c.value > maxSafeInteger-n

def TokenColumn.add (c : TokenColumn) (first : Bool) (value : Option ℤ) : TokenColumn :=
  if c.misses value = true then {c with complete := false}
  else {value := c.value+value.getD 0,complete := first || c.complete}

structure TokenSum where
  count : ℕ := 0
  recorded : ℕ := 0
  incomplete : ℕ := 0
  input : TokenColumn := {}
  output : TokenColumn := {}
  cacheRead : TokenColumn := {}
  cacheWrite : TokenColumn := {}
deriving DecidableEq

def TokenSum.add (t : TokenSum) (u : UsageRecord) : TokenSum where
  count := t.count+1
  recorded :=
    if (u.inputTokens.isSome || u.outputTokens.isSome || u.cacheReadTokens.isSome || u.cacheWriteTokens.isSome) = true
    then t.recorded+1 else t.recorded
  incomplete :=
    if (t.input.misses u.inputTokens || t.output.misses u.outputTokens || t.cacheRead.misses u.cacheReadTokens ||
      t.cacheWrite.misses u.cacheWriteTokens) = true then t.incomplete+1 else t.incomplete
  input := t.input.add (t.count = 0) u.inputTokens
  output := t.output.add (t.count = 0) u.outputTokens
  cacheRead := t.cacheRead.add (t.count = 0) u.cacheReadTokens
  cacheWrite := t.cacheWrite.add (t.count = 0) u.cacheWriteTokens

def TokenSum.get (t : TokenSum) : Tokens :=
  let column (c : TokenColumn) := if t.count > 0 ∧ c.complete = true then some c.value else none
  { total := match column t.input,column t.output with
      | some input,some output => if input ≤ maxSafeInteger-output then some (input+output) else none
      | _,_ => none
    input := column t.input
    output := column t.output
    cacheRead := column t.cacheRead
    cacheWrite := column t.cacheWrite
    recordedSamples := t.recorded
    incompleteSamples := t.incomplete }

/-- What the loop over the usage has found. -/
structure UsageScan where
  all : TokenSum := {}
  threads : Table String TokenSum := ∅
  models : Table String TokenSum := ∅
  modelSamples : Table String ℕ := ∅

def UsageScan.take (scan : UsageScan) (u : UsageRecord) : UsageScan where
  all := scan.all.add u
  threads := intoGroup (fun u => u.threadID) {} TokenSum.add scan.threads u
  models := intoGroup (fun u => u.model) {} TokenSum.add scan.models u
  modelSamples := intoGroup (fun u => u.model) 0 (fun n _ => n+1) scan.modelSamples u

def UsageScan.run (s : AnalyticsSnapshot) (threads : Table String Thread) :
    UsageScan → List UsageRecord → Except Failure UsageScan
  | scan,[] => pure scan
  | scan,u::usage => do
    failWhen (u.sessionID ≠ s.session.id ∨ (threads.lookup u.threadID).isNone = true)
      (.outside "analysis usage is outside snapshot")
    failWhen ((scan.models.lookup u.model).isNone = true ∧ scan.models.size ≥ maxModels) .capacity
    UsageScan.run s threads (scan.take u) usage

def UsageScan.report (order : MapOrder) (scan : UsageScan) (samples : ℕ) : UsageReport where
  samples
  tokens := scan.all.get
  models := ((order.visit 5 scan.models.rows).map fun row =>
    (⟨row.1,(scan.modelSamples.lookup row.1).getD 0,row.2.get⟩ : ModelUsage)).mergeSort fun a b => a.model ≤ b.model

/-! Rows. -/

def Tool.less (a b : Tool) : Bool :=
  if a.outcomes.calls ≠ b.outcomes.calls then a.outcomes.calls > b.outcomes.calls
  else if a.name ≠ b.name then a.name < b.name
  else if a.kind ≠ b.kind then a.kind < b.kind
  else a.key < b.key

def MCPTool.less (a b : MCPTool) : Bool :=
  if a.outcomes.calls ≠ b.outcomes.calls then a.outcomes.calls > b.outcomes.calls
  else if a.server ≠ b.server then a.server < b.server
  else a.name < b.name

def Skill.less (a b : Skill) : Bool :=
  if a.outcomes.calls ≠ b.outcomes.calls then a.outcomes.calls > b.outcomes.calls else a.name < b.name

def CallScan.capabilities (order : MapOrder) (scan : CallScan) : Capabilities where
  mcpCalls := scan.mcpCalls
  skillCalls := scan.skillCalls
  unclassifiedCalls := scan.unclassified
  mcp := ((order.visit 6 scan.mcpGroups.rows).map Prod.snd).mergeSort fun a b => !b.less a
  skills := ((order.visit 7 scan.skillGroups.rows).map Prod.snd).mergeSort fun a b => !b.less a

def CallScan.tools (order : MapOrder) (scan : CallScan) : List Tool :=
  ((order.visit 8 scan.groups.rows).map Prod.snd).mergeSort fun a b => !b.less a

def threadRows (order : MapOrder) (scan : CallScan) (usage : UsageScan) : List Thread :=
  ((order.visit 9 scan.threads.rows).map fun row =>
    {row.2 with tokens := ((usage.threads.lookup row.1).getD {}).get}).mergeSort fun a b => a.id ≤ b.id

/-! Evidence. -/

/-- For the metric of the threads, the first event of each child thread is evidence. -/
def threadCandidates (order : MapOrder) (q : Query) (scan : EventScan) (candidates : Table String EvidenceItem) :
    Table String EvidenceItem :=
  if q.metric = "threads" then
    (order.visit 10 scan.firstThreadEvent.rows).foldl (fun candidates row =>
      match scan.threads.lookup row.1 with
      | some thread =>
        if thread.parentThreadID.isSome = true then
          candidates.insert row.2.id (evidenceItem row.2 thread.label)
        else candidates
      | none => candidates) candidates
  else candidates

/-- The evidence that an event is, if it is any. -/
def selectEvidence (q : Query) (candidates : Table String EvidenceItem) (activity : Option ActivitySelection)
    (tokens : Option TokenActivitySelection) (event : EventRecord) : Option EvidenceItem :=
  match candidates.lookup event.id with
  | none => none
  | some item =>
    if q.thread ≠ "" ∧ q.thread ≠ event.threadID then none
    else if activity.any (fun a => !a.matchesEvent event) = true then none
    else if q.metric = "token_records" ∧ tokens.all (fun t => t.matchesEvent event) = false then none
    else if q.analyticsVersion ≥ activityVersion then some {item with clockQuality := some (clockQuality event)}
    else some item

structure Analysis where
  result : Result
  events : List EventRecord
  select : EventRecord → Option EvidenceItem

def Analysis.evidence (a : Analysis) : List EvidenceItem := a.events.filterMap a.select

def assemble (order : MapOrder) (s : AnalyticsSnapshot) (q : Query) (events : List EventRecord) (scan : EventScan)
    (calls : CallScan) (files : Option FileActivity × Table String EvidenceItem) (usage : UsageScan)
    (activity : Option ActivitySelection) (tokens : Option TokenActivitySelection) : Analysis where
  result :=
    { snapshot := s.snapshotToken
      head := s.head
      analyticsVersion := q.analyticsVersion
      sessionID := s.session.id
      captureStatus := s.session.captureStatus
      summary := {scan.summary with
        toolCalls := calls.toolCalls
        identifiedToolCalls := if q.analyticsVersion ≥ stableToolVersion then some calls.identified else none
        unidentifiedToolCalls := if q.analyticsVersion ≥ stableToolVersion then some calls.unidentified else none}
      tools := calls.tools order
      capabilities := calls.capabilities order
      threads := threadRows order calls usage
      usage := usage.report order s.usage.length
      evidence := []
      nextCursor := ""
      activity := activity.map (·.report)
      fileActivity := files.1
      tokenActivity := tokens.map (·.report) }
  events
  select := selectEvidence q files.2 activity tokens

/-- A filter must select something of the session. -/
def checkFilters (q : Query) (calls : CallScan) : Except Failure Unit := do
  failWhen (q.tool ≠ "" ∧ q.tool ∉ calls.toolNames) (.invalidQuery "tool" "is outside this snapshot")
  failWhen (q.capability ≠ "" ∧ q.capability ∉ calls.capabilityNames) (.invalidQuery "capability" "is outside this snapshot")
  failWhen (q.server ≠ "" ∧ q.server ∉ calls.serverNames) (.invalidQuery "server" "is outside this snapshot")

def filesOf (h : Hash) (order : MapOrder) (q : Query) (calls : Table CallKey ToolCall)
    (candidates : Table String EvidenceItem) : Except Failure (Option FileActivity × Table String EvidenceItem) :=
  if q.analyticsVersion ≥ stableToolVersion then
    (deriveFileActivity h order q calls candidates).map fun found => (some found.1,found.2)
  else pure (none,candidates)

def activityOf (h : Hash) (order : MapOrder) (s : AnalyticsSnapshot) (events : List EventRecord)
    (calls : Table CallKey ToolCall) (q : Query) : Except Failure (Option ActivitySelection) :=
  if q.analyticsVersion ≥ activityVersion then
    (deriveActivity h s events ((order.visit 11 calls.rows).map fun row => row.2.event) q).map some
  else pure none

def tokenActivityOf (h : Hash) (s : AnalyticsSnapshot) (events : List EventRecord) (q : Query) :
    Except Failure (Option TokenActivitySelection) :=
  if q.analyticsVersion ≥ tokenActivityVersion then (deriveTokenActivity h s events q).map some else pure none

def analyseEvents (h : Hash) (equalFold : String → String → Bool) (order : MapOrder) (s : AnalyticsSnapshot) (q : Query)
    (events : List EventRecord) : Except Failure Analysis := do
  failWhen (s.events.length > maxFacts ∨ s.usage.length > maxFacts ∨ s.threads.length > maxThreads) .capacity
  let threads ← openThreads s ∅ s.threads
  failWhen (q.thread ≠ "" ∧ (threads.lookup q.thread).isNone = true) (.invalidQuery "thread" "is outside this snapshot")
  let scan ← EventScan.run equalFold s q
    {summary := {childThreads := s.threads.countP fun thread => thread.parentThreadID.isSome},threads} events
  let calls ← CallScan.run h q {threads := scan.threads,candidates := scan.candidates} (order.visit 1 scan.calls.rows)
  checkFilters q calls
  let files ← filesOf h order q scan.calls (threadCandidates order q scan calls.candidates)
  let usage ← UsageScan.run s threads {} s.usage
  let activity ← activityOf h order s events scan.calls q
  let tokens ← tokenActivityOf h s events q
  pure (assemble order s q events scan calls files usage activity tokens)

def analyse (h : Hash) (equalFold : String → String → Bool) (order : MapOrder) (s : AnalyticsSnapshot) (q : Query) :
    Except Failure Analysis :=
  analyseEvents h equalFold order s q (s.events.mergeSort eventLe)

/-- The analysis with the page of its evidence that starts at the offset. -/
def derive (h : Hash) (equalFold : String → String → Bool) (order : MapOrder) (s : AnalyticsSnapshot) (q : Query)
    (offset : ℕ) : Except Failure Result := do
  let analysis ← analyse h equalFold order s q
  let page := pageFrom analysis.select offset q.limit.toNat 0 [] analysis.events
  failWhen (offset > page.matched) (.invalidQuery "cursor" "is beyond the matching evidence")
  pure {analysis.result with
    evidence := page.items
    nextCursor :=
      if page.more = true then
        cursorText (binding h s.session.id {q with snapshot := s.snapshotToken}) (offset+q.limit.toNat)
      else ""}

/-- The page of a session that a query asks for. -/
def openPage (h : Hash) (equalFold : String → String → Bool) (order : MapOrder) (s : AnalyticsSnapshot) (q : Query) :
    Except Failure Result := do
  let (q,offset) ← validateQuery h order s.session.id q
  derive h equalFold order s q offset

end ATape.SessionAnalytics
