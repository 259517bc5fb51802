import ATape.Foundation.Outcome
import ATape.Authorization
import ATape.Canonical.Model
import ATape.Canonical.Tool
import ATape.Ingestion.Protocol

/-! Validation of a wire batch and its projection onto canonical records. The
checks stand in the order of the source, so that the first one to fail names
the field. -/
namespace ATape.Ingestion
open Foundation Go SourceIdentity Authorization
open Canonical (SessionRecord ThreadRecord EventRecord UsageRecord WriteBatch)

def maxBatchEvents : Nat := 500

def maxThreads : Nat := 100

def maxTextBytes : Nat := 1048576

def maxSafeInteger : Int := 9007199254740991

inductive Rejection
  | validation (field message : String)
  | panic (message : String)
deriving DecidableEq

def sourceKey (parts : List String) : String := key parts

def required (field value : String) (maxBytes : Nat) : Except Rejection Unit := do
  failWhen (trimSpace value = "") (.validation field "is required")
  failWhen (len value > maxBytes)
    (.validation field ("must be valid UTF-8 up to "++toString maxBytes++" bytes"))

def optional (field value : String) (maxBytes : Nat) : Except Rejection Unit :=
  failWhen (len value > maxBytes)
    (.validation field ("must be valid UTF-8 up to "++toString maxBytes++" bytes"))

def timestamp (field value : String) : Except Rejection Time := do
  let failure := Rejection.validation field
    "must be an RFC3339 timestamp distinguishable from unknown at microsecond precision"
  let parsed ← present (parseRFC3339 value) failure
  failWhen (parsed.truncateMicrosecond.isZero = true) failure
  pure parsed

def knowsUnknownTime (profile : String) : Bool :=
  profile = unknownTimeCanonicalProfileVersion || profile = toolIdentityCanonicalProfileVersion ||
    profile = stableToolCanonicalProfileVersion

def sourceTimestamp (field value : String) (unknown : Bool) (profile : String) : Except Rejection Time :=
  if unknown then do
    failWhen (knowsUnknownTime profile = false ∨ value ≠ "")
      (.validation field "null requires the v3, v4 or v5 profile")
    pure .zero
  else timestamp field value

def modernCanonicalProfiles : List String :=
  [canonicalProfileVersion,unknownTimeCanonicalProfileVersion,toolIdentityCanonicalProfileVersion,
    stableToolCanonicalProfileVersion]

def supportedCanonicalProfile (profile : String) : Bool :=
  profile = legacyCanonicalProfileVersion || profile ∈ modernCanonicalProfiles

def captureStatuses : List String := ["healthy","partial","complete","degraded"]

def canonicalKinds : List String :=
  ["message","thought","tool_call","tool_result","artifact","spawn","lifecycle"]

def digest (h : Hash) (body : Option Json) : Except Rejection String := do
  let body ← present body (.panic "marshal validated canonical value")
  pure (h.hex (marshal body))

def indexed (name : String) (index : Nat) : String := name++"["++toString index++"]"

/-! Threads -/

def threadID (h : Hash) (scope : String) (thread : Thread) : String :=
  match thread.parentSourceThreadID with
  | none => "root"
  | some _ => stableID h "t_" (sourceKey [scope,"thread",thread.sourceThreadID])

def collectThreadIDs (h : Hash) (scope : String) :
    Nat → Table String String → List Thread → Except Rejection (Table String String)
  | _,ids,[] => pure ids
  | index,ids,thread::others => do
    let field := indexed "threads" index++".sourceThreadId"
    required field thread.sourceThreadID 500
    failWhen ((ids.lookup thread.sourceThreadID).isSome = true)
      (.validation field "is duplicated in this batch")
    collectThreadIDs h scope (index+1) (ids.insert thread.sourceThreadID (threadID h scope thread)) others

def checkParents (ids : Table String String) : Nat → List Thread → Except Rejection Unit
  | _,[] => pure ()
  | index,thread::others => do
    let field := indexed "threads" index++".parentSourceThreadId"
    failWhen (thread.parentSourceThreadID = some thread.sourceThreadID)
      (.validation field "cannot reference itself")
    failWhen (thread.parentSourceThreadID.any (fun parent => (ids.lookup parent).isNone) = true)
      (.validation field "does not reference a thread in this batch")
    checkParents ids (index+1) others

/-- The parent that a batch gives a thread; of several threads of one name the last counts, as in a map. -/
def parentOf (threads : List Thread) (id : String) : Option String :=
  (threads.reverse.find? fun t => t.sourceThreadID = id).bind (·.parentSourceThreadID)

def cycleFrom (threads : List Thread) : Nat → List String → String → Option String
  | 0,_,_ => none
  | fuel+1,seen,current =>
    if current ∈ seen then some current
    else
      match parentOf threads current with
      | none => none
      | some parent => cycleFrom threads fuel (current::seen) parent

/-- Where a walk over the parents repeats, empty where none does. The source starts the walks in the order of a map,
which is no fixed one. A walk without repetition is no longer than the batch, so the fuel suffices. -/
def threadCycle (order : List String) (threads : List Thread) : String :=
  (order.findSome? fun id => cycleFrom threads (threads.length+1) [] id).getD ""

def normalizeThreadIDs (h : Hash) (scope : String) (threads : List Thread) :
    Except Rejection (Table String String) := do
  let ids ← collectThreadIDs h scope 0 ∅ threads
  failWhen (threads.countP (fun t => t.parentSourceThreadID.isNone) ≠ 1)
    (.validation "threads" "must contain exactly one root thread")
  checkParents ids 0 threads
  let cycle := threadCycle (threads.map (·.sourceThreadID)) threads
  failWhen (cycle ≠ "") (.validation "threads" ("contains a parent cycle at "++cycle))
  pure ids

def normalizeThread (h : Hash) (scope sessionID : String) (ids : Table String String) (index : Nat)
    (input : Thread) : Except Rejection ThreadRecord := do
  let field := indexed "threads" index
  failWhen (input.revision < 1) (.validation (field++".revision") "must be at least 1")
  failWhen (input.captureStatus ∉ captureStatuses)
    (.validation (field++".captureStatus") "is not supported")
  let label := if trimSpace input.label = "" then input.sourceThreadID else trimSpace input.label
  failWhen (len label > 200) (.validation (field++".label") "must be valid UTF-8 up to 200 bytes")
  optional (field++".summary") input.summary 2000
  let record : ThreadRecord :=
    { id := (ids.lookup input.sourceThreadID).getD ""
      sessionID
      sourceKey := sourceKey [scope,"thread",input.sourceThreadID]
      revision := input.revision
      digest := ""
      label
      summary := trimSpace input.summary
      parentThreadID := input.parentSourceThreadID.map fun parent => (ids.lookup parent).getD ""
      captureStatus := input.captureStatus }
  let digest ← digest h record.json
  pure {record with digest}

def normalizeThreads (h : Hash) (scope sessionID : String) (ids : Table String String) :
    Nat → List Thread → Except Rejection (List ThreadRecord)
  | _,[] => pure []
  | index,input::others => do
    let record ← normalizeThread h scope sessionID ids index input
    let records ← normalizeThreads h scope sessionID ids (index+1) others
    pure (record::records)

/-! Events -/

def normalizeRawReference (h : Hash) (principal : Principal) (batch : Batch) (sessionID field : String)
    (reference : RawReference) : Except Rejection String :=
  if reference.type = "object" then do
    required (field++".sourceObjectId") reference.sourceObjectID 512
    optional (field++".fragment") reference.fragment 1024
    failWhen (reference.unavailableReason ≠ "")
      (.validation (field++".reason") "must be omitted for an object reference")
    pure (rawObjectID h principal.userID sessionID batch.source.installationID batch.source.adapterID
      reference.sourceObjectID++reference.fragment)
  else if reference.type = "unavailable" then do
    required (field++".reason") reference.unavailableReason 1024
    failWhen (reference.sourceObjectID ≠ "" ∨ reference.fragment ≠ "")
      (.validation field "unavailable references cannot identify an object")
    pure ("unavailable:"++reference.unavailableReason)
  else .error (.validation (field++".type") "must be object or unavailable")

/-- Text and label of an event; those of a tool event come from its update. -/
def toolProjection (profile field : String) (input : Event) : Except Rejection (String × String) :=
  if input.toolUpdateJSON = "" then pure (input.text,input.toolLabel)
  else do
    let field' := field++".toolUpdateJson"
    failWhen (profile = legacyCanonicalProfileVersion)
      (.validation field' "requires the v2, v3, v4 or v5 profile")
    let tool ← present (Canonical.parseToolUpdate input.toolUpdateJSON)
      (.validation field' "is not a bounded ACP tool update")
    let identity := tool.meta_.bind (·.identity)
    failWhen (tool.meta_.isSome = true ∧ profile ≠ toolIdentityCanonicalProfileVersion ∧
        profile ≠ stableToolCanonicalProfileVersion)
      (.validation field' "tool identity requires the v4 or v5 profile")
    failWhen (identity.any (fun i => i.type = "tool") = true ∧ profile ≠ stableToolCanonicalProfileVersion)
      (.validation field' "ordinary tool identity requires the v5 profile")
    failWhen ((tool.meta_.bind (·.fileActivity)).isSome = true ∧ profile ≠ stableToolCanonicalProfileVersion)
      (.validation field' "file activity requires the v5 profile")
    let (kind,text,label) := tool.summary
    failWhen (input.kind ≠ kind ∧ ¬(input.kind = "spawn" ∧ input.childSourceThreadID.isSome = true))
      (.validation (field++".kind") "does not match the tool update")
    pure (text,label)

/-- The mapped child thread of an event. -/
def childThread (ids : Table String String) (field : String) (child : Option String) :
    Except Rejection (Option String) :=
  match child with
  | none => pure none
  | some source => do
    let mapped ← present (ids.lookup source)
      (.validation (field++".childSourceThreadId") "does not reference a thread in this batch")
    pure (some mapped)

def normalizeEvent (h : Hash) (principal : Principal) (batch : Batch) (scope sessionID : String)
    (ids : Table String String) (index : Nat) (seen : List String) (input : Event) :
    Except Rejection EventRecord := do
  let field := indexed "events" index
  required (field++".sourceEventId") input.sourceEventID 500
  failWhen (sourceKey [input.sourceThreadID,input.sourceEventID] ∈ seen)
    (.validation (field++".sourceEventId") "is duplicated in this batch")
  let threadID ← present (ids.lookup input.sourceThreadID)
    (.validation (field++".sourceThreadId") "does not reference a thread in this batch")
  failWhen (input.revision < 1) (.validation (field++".revision") "must be at least 1")
  failWhen (input.projectionRevision < 1) (.validation (field++".projectionRevision") "must be at least 1")
  failWhen (input.sourceOrder < 0) (.validation (field++".sourceOrder") "cannot be negative")
  failWhen (input.eventIndex < 0) (.validation (field++".eventIndex") "cannot be negative")
  failWhen (input.orderFidelity ∉ ["native","derived"])
    (.validation (field++".orderFidelity") "must be native or derived")
  failWhen (input.fidelity ∉ ["native","derived","partial","redacted"])
    (.validation (field++".fidelity") "is not supported")
  let rawRef ← normalizeRawReference h principal batch sessionID (field++".rawRef") input.rawRef
  failWhen (input.kind ∉ canonicalKinds) (.validation (field++".kind") "is not supported")
  required (field++".author") input.author 200
  required (field++".text") input.text maxTextBytes
  let occurredAt ← sourceTimestamp (field++".occurredAt") input.occurredAt input.occurredAtUnknown
    batch.canonicalProfileVersion
  failWhen (len input.toolLabel > 500)
    (.validation (field++".toolLabel") "must be valid UTF-8 up to 500 bytes")
  let (text,toolLabel) ← toolProjection batch.canonicalProfileVersion field input
  let childThreadID ← childThread ids field input.childSourceThreadID
  let eventSourceKey := sourceKey [scope,"event",input.sourceThreadID,input.sourceEventID]
  let record : EventRecord :=
    { id := stableID h "e_" eventSourceKey
      sessionID
      threadID
      sourceKey := eventSourceKey
      revision := input.revision
      projectionRevision := input.projectionRevision
      digest := ""
      sourceOrder := input.sourceOrder
      eventIndex := input.eventIndex
      orderFidelity := input.orderFidelity
      fidelity := input.fidelity
      rawRef
      adapterVersion := batch.source.adapterVersion
      schemaVersion := batch.canonicalProfileVersion
      observedAt := .zero
      receivedAt := .zero
      ingestSeq := 0
      kind := input.kind
      author := trimSpace input.author
      occurredAt
      text
      toolLabel
      toolUpdateJSON := input.toolUpdateJSON
      childThreadID }
  let digest ← digest h record.json
  pure {record with digest}

def normalizeEvents (h : Hash) (principal : Principal) (batch : Batch) (scope sessionID : String)
    (ids : Table String String) : Nat → List String → List Event → Except Rejection (List EventRecord)
  | _,_,[] => pure []
  | index,seen,input::others => do
    let record ← normalizeEvent h principal batch scope sessionID ids index seen input
    let records ← normalizeEvents h principal batch scope sessionID ids (index+1)
      (sourceKey [input.sourceThreadID,input.sourceEventID]::seen) others
    pure (record::records)

/-! Usage -/

def Usage.counters (u : Usage) : List Int :=
  [u.inputTokens,u.outputTokens,u.cacheReadTokens,u.cacheWriteTokens].filterMap id

def normalizeUsageRecord (h : Hash) (scope sessionID : String) (ids : Table String String) (index : Nat)
    (seen : List String) (input : Usage) : Except Rejection UsageRecord := do
  let field := indexed "usage" index
  required (field++".sourceUsageId") input.sourceUsageID 500
  let threadID ← present (ids.lookup input.sourceThreadID)
    (.validation (field++".sourceThreadId") "does not reference a thread in this batch")
  let usageKey := sourceKey [scope,"usage",input.sourceThreadID,input.sourceUsageID]
  failWhen (usageKey ∈ seen) (.validation field "duplicates a usage identity")
  failWhen (input.revision < 1 ∨ maxSafeInteger < input.revision)
    (.validation (field++".revision") "must be a positive safe integer")
  failWhen (len input.model > 200) (.validation (field++".model") "must be bounded UTF-8")
  let occurredAt ← timestamp (field++".occurredAt") input.occurredAt
  failWhen (input.counters.any (fun n => n < 0 || maxSafeInteger < n) = true)
    (.validation field "counters must be nonnegative safe integers")
  failWhen (input.counters = []) (.validation field "must contain a usage counter")
  failWhen (input.inputTokens.any
      (fun n => input.cacheReadTokens.getD 0+input.cacheWriteTokens.getD 0 > n) = true)
    (.validation field "cache subdivisions exceed inclusive input")
  let record : UsageRecord :=
    { sourceKey := usageKey
      sessionID
      threadID
      revision := input.revision
      digest := ""
      occurredAt
      model := input.model
      inputTokens := input.inputTokens
      outputTokens := input.outputTokens
      cacheReadTokens := input.cacheReadTokens
      cacheWriteTokens := input.cacheWriteTokens }
  let digest ← digest h record.json
  pure {record with digest}

def normalizeUsageRecords (h : Hash) (scope sessionID : String) (ids : Table String String) :
    Nat → List String → List Usage → Except Rejection (List UsageRecord)
  | _,_,[] => pure []
  | index,seen,input::others => do
    let record ← normalizeUsageRecord h scope sessionID ids index seen input
    let records ← normalizeUsageRecords h scope sessionID ids (index+1) (record.sourceKey::seen) others
    pure (record::records)

def normalizeUsage (h : Hash) (scope sessionID : String) (ids : Table String String) (usage : List Usage) :
    Except Rejection (List UsageRecord) := do
  failWhen (usage.length > 500) (.validation "usage" "exceeds 500 records")
  normalizeUsageRecords h scope sessionID ids 0 [] usage

/-! The batch -/

def checkBatch (principal : Principal) (batch : Batch) : Except Rejection (Time × Time) := do
  failWhen (batch.protocolVersion ≠ protocolVersion)
    (.validation "protocolVersion" ("must be "++protocolVersion))
  failWhen (supportedCanonicalProfile batch.canonicalProfileVersion = false)
    (.validation "canonicalProfileVersion" "must be a supported Canonical profile")
  required "batchId" batch.batchID 200
  let observedAt ← timestamp "observedAt" batch.observedAt
  required "source.adapterId" batch.source.adapterID 200
  required "source.adapterVersion" batch.source.adapterVersion 100
  required "source.installationId" batch.source.installationID 200
  required "projectId" batch.projectID 200
  required "principal.userId" principal.userID 200
  required "session.sourceSessionId" batch.session.sourceSessionID 500
  failWhen (batch.session.revision < 1) (.validation "session.revision" "must be at least 1")
  required "session.actor.name" batch.session.actor.name 200
  required "session.actor.harness" batch.session.actor.harness 200
  failWhen (batch.session.status ∉ ["active","idle","ended"])
    (.validation "session.status" "must be active, idle, or ended")
  failWhen (batch.session.captureStatus ∉ captureStatuses)
    (.validation "session.captureStatus" "is not supported")
  let updatedAt ← sourceTimestamp "session.updatedAt" batch.session.updatedAt
    batch.session.updatedAtUnknown batch.canonicalProfileVersion
  failWhen (batch.session.reportedEventCount < 0)
    (.validation "session.reportedEventCount" "cannot be negative")
  optional "session.title" batch.session.title 2000
  optional "session.summary" batch.session.summary 2000
  optional "session.insight" batch.session.insight 2000
  optional "session.branch" batch.session.branch 2000
  failWhen (batch.threads.length = 0 ∨ batch.threads.length > maxThreads)
    (.validation "threads" ("must contain between 1 and "++toString maxThreads++" records"))
  failWhen (batch.events.length > maxBatchEvents)
    (.validation "events" ("cannot contain more than "++toString maxBatchEvents++" records"))
  pure (observedAt,updatedAt)

def sessionTitle (session : Session) : String :=
  if trimSpace session.title = "" then "Untitled conversation" else trimSpace session.title

def normalizeSession (h : Hash) (principal : Principal) (batch : Batch) (updatedAt : Time) :
    Except Rejection SessionRecord := do
  let record : SessionRecord :=
    { id := sessionID h batch.projectID principal.userID batch.source.installationID
        batch.source.adapterID batch.session.sourceSessionID
      projectID := batch.projectID
      capturedByUserID := principal.userID
      sourceKey := sessionSourceKey batch.projectID principal.userID batch.source.installationID
        batch.source.adapterID batch.session.sourceSessionID
      revision := batch.session.revision
      digest := ""
      title := sessionTitle batch.session
      summary := trimSpace batch.session.summary
      insight := trimSpace batch.session.insight
      actor := ⟨trimSpace batch.session.actor.name,trimSpace batch.session.actor.harness⟩
      branch := trimSpace batch.session.branch
      status := batch.session.status
      captureStatus := batch.session.captureStatus
      updatedAt
      reportedEventCount := batch.session.reportedEventCount }
  let digest ← digest h record.json
  pure {record with digest}

def batchScope (principal : Principal) (batch : Batch) : String :=
  sourceKey [batch.projectID,principal.userID,batch.source.installationID,batch.source.adapterID,
    batch.session.sourceSessionID]

def batchKey (principal : Principal) (batch : Batch) : String :=
  sourceKey [batch.projectID,principal.userID,batch.source.installationID,batch.source.adapterID,
    "batch",batch.batchID]

def normalizeBatch (h : Hash) (principal : Principal) (batch : Batch) : Except Rejection WriteBatch := do
  let (observedAt,updatedAt) ← checkBatch principal batch
  let scope := batchScope principal batch
  let sessionID := sessionID h batch.projectID principal.userID batch.source.installationID
    batch.source.adapterID batch.session.sourceSessionID
  let ids ← normalizeThreadIDs h scope batch.threads
  let threads ← normalizeThreads h scope sessionID ids 0 batch.threads
  let events ← normalizeEvents h principal batch scope sessionID ids 0 [] batch.events
  let usage ← normalizeUsage h scope sessionID ids batch.usage
  let session ← normalizeSession h principal batch updatedAt
  let digest ← digest h (some batch.json)
  pure
    { key := batchKey principal batch
      digest
      observedAt
      projectID := batch.projectID
      session
      threads
      events
      usage }

def prepareBatch (h : Hash) (principal : Principal) (batch : Batch) : Except Rejection WriteBatch :=
  normalizeBatch h principal batch

end ATape.Ingestion
