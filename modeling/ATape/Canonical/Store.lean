import ATape.Authorization
import ATape.Canonical.Model
import ATape.Foundation.Outcome

/-! The in-memory canonical store: the application of a batch, the deletion of a
session, and the feed of projection changes. Each operation gives the new store
or the failure that left the store as it was. -/
namespace ATape.Canonical
open Foundation Go Authorization

inductive Failure
  | access (outcome : Outcome)
  | projectState (state : String)
  | conflict (identity reason : String)
deriving DecidableEq

structure BatchReceipt where
  digest : String
  result : ApplyResult
deriving DecidableEq

structure ProjectionChangeState where
  id : Nat
  eventID : String
  leaseOwner : String
  leaseUntil : Time
  processed : Bool
deriving DecidableEq

structure MemoryStore where
  projects : Table String ProjectRecord
  projectCapture : Table String Time
  memberships : Table String MembershipFacts
  sessions : Table String SessionRecord
  deletedSessions : Table String SessionRecord
  sessionIDsByProject : Table String (List String)
  threads : Table String ThreadRecord
  threadIDsBySession : Table String (List String)
  events : Table String EventRecord
  usage : Table String UsageRecord
  eventBySource : Table String String
  eventVersions : Table String (List EventRecord)
  eventIDsByThread : Table String (List String)
  sessionEventCounts : Table String Nat
  sessionChildThreadCounts : Table String Nat
  batchReceipts : Table String BatchReceipt
  nextIngestSeq : Nat
  projectionChanges : List ProjectionChangeState
  nextProjectionChangeID : Nat

structure Order where
  visit : List String → List String
  perm : ∀ keys, (visit keys).Perm keys

def membershipKey (teamID userID : String) : String := teamID++"\x00"++userID

def recordKey (sessionID recordID : String) : String := sessionID++"\x00"++recordID

def addToIndex (index : Table String (List String)) (key value : String) : Table String (List String) :=
  index.insert key (((index.lookup key).getD []).insert value)

def increment (counts : Table String Nat) (key : String) : Table String Nat :=
  counts.insert key ((counts.lookup key).getD 0+1)

def EventRecord.absent : EventRecord :=
  ⟨"","","","",0,0,"",0,0,"","","","","",.zero,.zero,0,"","",.zero,"","","",none⟩

namespace MemoryStore

/-- A store that knows projects and memberships only; a project without a state
is active. -/
def newWithControlPlane (projects : List ProjectRecord) (memberships : List MembershipFacts) :
    MemoryStore where
  projects := projects.foldl (fun table project =>
    table.insert project.id {project with state := if project.state = "" then "active" else project.state}) ∅
  projectCapture := ∅
  memberships := memberships.foldl (fun table membership =>
    table.insert (membershipKey membership.teamID membership.userID) membership) ∅
  sessions := ∅
  deletedSessions := ∅
  sessionIDsByProject := ∅
  threads := ∅
  threadIDsBySession := ∅
  events := ∅
  usage := ∅
  eventBySource := ∅
  eventVersions := ∅
  eventIDsByThread := ∅
  sessionEventCounts := ∅
  sessionChildThreadCounts := ∅
  batchReceipts := ∅
  nextIngestSeq := 0
  projectionChanges := []
  nextProjectionChangeID := 0

def membership (s : MemoryStore) (teamID userID : String) : MembershipFacts :=
  (s.memberships.lookup (membershipKey teamID userID)).getD .missing

def authorize (input : Input) : Except Failure Unit :=
  match enforce (evaluate input) with
  | .ok _ => .ok ()
  | .error outcome => .error (.access outcome)

def authorizeProject (s : MemoryStore) (principal : Principal) (projectID : String) (action : Action) :
    Except Failure ProjectRecord :=
  match (s.projects.lookup projectID).filter (·.state ≠ "deleted") with
  | none => do
    authorize ⟨principal,action,.of .project,.missing⟩
    pure ⟨"","","","",""⟩
  | some project => do
    authorize ⟨principal,action,{ResourceFacts.of .project with teamID := project.teamID},
      s.membership project.teamID principal.userID⟩
    pure project

/-! Applying a batch: everything is checked against the old store first. -/

def checkSession (s : MemoryStore) (principal : Principal) (session : SessionRecord) :
    Except Failure Unit :=
  match s.sessions.lookup session.id with
  | none => pure ()
  | some existing => do
    failWhen (existing.sourceKey ≠ session.sourceKey)
      (.conflict session.id "session id resolved from a different source")
    failWhen (existing.projectID ≠ session.projectID)
      (.conflict session.sourceKey "session project is immutable")
    failWhen (existing.capturedByUserID ≠ principal.userID)
      (.conflict session.sourceKey "capturing User is immutable")
    failWhen (existing.revision = session.revision ∧ existing.digest ≠ session.digest)
      (.conflict session.sourceKey "session revision has different content")

def checkThread (s : MemoryStore) (thread : ThreadRecord) : Except Failure Unit :=
  match s.threads.lookup (recordKey thread.sessionID thread.id) with
  | none => pure ()
  | some existing => do
    failWhen (existing.sourceKey ≠ thread.sourceKey)
      (.conflict thread.id "thread id resolved from a different source")
    failWhen (existing.parentThreadID ≠ thread.parentThreadID)
      (.conflict thread.sourceKey "thread parent is immutable")
    failWhen (existing.revision = thread.revision ∧ existing.digest ≠ thread.digest)
      (.conflict thread.sourceKey "thread revision has different content")

inductive Verdict
  | inserted | stale | unchanged | updated
deriving DecidableEq

def Verdict.apply : Verdict → Bool
  | .inserted => true
  | .updated => true
  | _ => false

/-- What a batch does to an event: versions are ordered by projection revision,
then by revision, and one version has one content. -/
def classify (s : MemoryStore) (event : EventRecord) : Except Failure Verdict :=
  match s.eventBySource.lookup event.sourceKey with
  | none => do
    failWhen (((s.events.lookup event.id).any fun existing => existing.sourceKey ≠ event.sourceKey) = true)
      (.conflict event.id "event id resolved from a different source")
    pure .inserted
  | some existingID => do
    let existing := (s.events.lookup existingID).getD .absent
    failWhen (existing.sessionID ≠ event.sessionID ∨ existing.threadID ≠ event.threadID)
      (.conflict event.sourceKey "event session and thread are immutable")
    if event.projectionRevision < existing.projectionRevision then pure .stale
    else if event.projectionRevision = existing.projectionRevision ∧ event.revision < existing.revision then
      pure .stale
    else if event.projectionRevision = existing.projectionRevision ∧ event.revision = existing.revision ∧
        (event.digest = existing.digest ∨ sameEventContent event existing = true) then pure .unchanged
    else if event.projectionRevision = existing.projectionRevision ∧ event.revision = existing.revision then
      .error (.conflict event.sourceKey "event revision has different content")
    else pure .updated

def checkUsage (s : MemoryStore) (value : UsageRecord) : Except Failure Unit :=
  failWhen (((s.usage.lookup value.sourceKey).any fun old =>
      old.revision = value.revision && old.digest ≠ value.digest) = true)
    (.conflict value.sourceKey "usage revision has different content")

def putUsage (s : MemoryStore) (value : UsageRecord) : MemoryStore :=
  if (s.usage.lookup value.sourceKey).all fun old => old.revision < value.revision then
    {s with usage := s.usage.insert value.sourceKey value}
  else s

def putSession (s : MemoryStore) (batch : WriteBatch) : MemoryStore :=
  match s.sessions.lookup batch.session.id with
  | none =>
    {s with
      sessions := s.sessions.insert batch.session.id batch.session
      sessionIDsByProject := addToIndex s.sessionIDsByProject batch.projectID batch.session.id}
  | some existing =>
    if existing.revision < batch.session.revision then
      {s with sessions := s.sessions.insert batch.session.id batch.session}
    else s

def putThread (s : MemoryStore) (thread : ThreadRecord) : MemoryStore :=
  match s.threads.lookup (recordKey thread.sessionID thread.id) with
  | none =>
    {s with
      threads := s.threads.insert (recordKey thread.sessionID thread.id) thread
      threadIDsBySession := addToIndex s.threadIDsBySession thread.sessionID thread.id
      sessionChildThreadCounts :=
        if thread.parentThreadID.isSome then increment s.sessionChildThreadCounts thread.sessionID
        else s.sessionChildThreadCounts}
  | some existing =>
    if existing.revision < thread.revision then
      {s with threads := s.threads.insert (recordKey thread.sessionID thread.id) thread}
    else s

def appendProjectionChange (s : MemoryStore) (eventID : String) : MemoryStore :=
  {s with
    nextProjectionChangeID := s.nextProjectionChangeID+1
    projectionChanges := s.projectionChanges++[⟨s.nextProjectionChangeID+1,eventID,"",.zero,false⟩]}

/-- The record that is stored for an event of a batch. -/
def stored (s : MemoryStore) (observedAt receivedAt : Time) (record : EventRecord) : EventRecord :=
  {record with ingestSeq := s.nextIngestSeq+1, observedAt, receivedAt}

def putEvent (s : MemoryStore) (observedAt receivedAt : Time) (record : EventRecord) : MemoryStore :=
  let row := s.stored observedAt receivedAt record
  let existed := (s.events.lookup record.id).isSome
  appendProjectionChange
    {s with
      nextIngestSeq := s.nextIngestSeq+1
      events := s.events.insert record.id row
      eventBySource := s.eventBySource.insert record.sourceKey record.id
      eventVersions := s.eventVersions.insert record.sourceKey
        ((s.eventVersions.lookup record.sourceKey).getD []++[row])
      eventIDsByThread :=
        if existed then s.eventIDsByThread
        else addToIndex s.eventIDsByThread (recordKey record.sessionID record.threadID) record.id
      sessionEventCounts :=
        if existed then s.sessionEventCounts else increment s.sessionEventCounts record.sessionID}
    record.id

def receiveEvent (observedAt : Time) (received : Nat → Time) (s : MemoryStore) (record : EventRecord) :
    MemoryStore :=
  s.putEvent observedAt (received (s.nextIngestSeq+1)) record

def sessionEventIDs (s : MemoryStore) (sessionID : String) : List String :=
  ((s.threadIDsBySession.lookup sessionID).getD []).flatMap fun threadID =>
    (s.eventIDsByThread.lookup (recordKey sessionID threadID)).getD []

/-- A new title is projected again for each event of the session that the batch
has not projected itself. -/
def retitle (s : MemoryStore) (order : Order) (sessionID : String) (projected : List String) :
    MemoryStore :=
  ((order.visit (s.sessionEventIDs sessionID)).filter (· ∉ projected)).foldl appendProjectionChange s

def capture (s : MemoryStore) (batch : WriteBatch) : MemoryStore :=
  if (s.projectCapture.lookup batch.projectID).all fun current => batch.observedAt.after current then
    {s with projectCapture := s.projectCapture.insert batch.projectID batch.observedAt}
  else s

def admission (s : MemoryStore) (principal : Principal) (batch : WriteBatch) : Except Failure Unit := do
  let project ← s.authorizeProject principal batch.projectID .canonicalIngest
  failWhen (project.state ≠ "active") (.projectState project.state)
  failWhen (batch.session.projectID ≠ batch.projectID ∨ batch.session.capturedByUserID ≠ principal.userID)
    (.conflict batch.session.id "server capture scope is inconsistent")
  failWhen ((s.deletedSessions.lookup batch.session.id).isSome = true) (.projectState "session_deleted")

def check (s : MemoryStore) (principal : Principal) (batch : WriteBatch) :
    Except Failure (List Verdict) := do
  s.checkSession principal batch.session
  batch.threads.forM s.checkThread
  let verdicts ← batch.events.mapM s.classify
  batch.usage.forM s.checkUsage
  pure verdicts

def summarize (s : MemoryStore) (batch : WriteBatch) (verdicts : List Verdict) : ApplyResult where
  sessionID := batch.session.id
  sessionCreated := (s.sessions.lookup batch.session.id).isNone
  insertedEvents := verdicts.count .inserted
  updatedEvents := verdicts.count .updated
  unchangedEvents := verdicts.count .unchanged
  staleEvents := verdicts.count .stale
  replayed := false

def applied (batch : WriteBatch) (verdicts : List Verdict) : List EventRecord :=
  ((batch.events.zip verdicts).filter fun e => e.2.apply).map Prod.fst

def titleChanged (s : MemoryStore) (session : SessionRecord) : Bool :=
  (s.sessions.lookup session.id).any fun existing =>
    existing.revision < session.revision && session.title ≠ existing.title

/-- Writes a checked batch. The clock is read once for each written event. -/
def write (s : MemoryStore) (received : Nat → Time) (order : Order) (batch : WriteBatch)
    (events : List EventRecord) (result : ApplyResult) : MemoryStore :=
  let records := batch.threads.foldl putThread ((batch.usage.foldl putUsage s).putSession batch)
  let written := events.foldl (receiveEvent batch.observedAt received) records
  let titled :=
    if s.titleChanged batch.session then written.retitle order batch.session.id (events.map (·.id))
    else written
  let captured := titled.capture batch
  {captured with batchReceipts := captured.batchReceipts.insert batch.key ⟨batch.digest,result⟩}

def applyBatch (s : MemoryStore) (received : Nat → Time) (order : Order) (principal : Principal)
    (batch : WriteBatch) : Except Failure (ApplyResult × MemoryStore) := do
  s.admission principal batch
  match s.batchReceipts.lookup batch.key with
  | some receipt =>
    failWhen (receipt.digest ≠ batch.digest)
      (.conflict batch.key "batchId was reused with different content")
    pure ({receipt.result with replayed := true},s)
  | none =>
    let verdicts ← s.check principal batch
    let result := s.summarize batch verdicts
    pure (result,s.write received order batch (applied batch verdicts) result)

/-! The feed -/

/-- The thread and its ancestors, the root first. -/
def threadPath (s : MemoryStore) (sessionID : String) : Nat → ThreadRecord → List ProjectionThread
  | 0,thread => [⟨thread.id,thread.label⟩]
  | fuel+1,thread =>
    match thread.parentThreadID.bind fun parent => s.threads.lookup (recordKey sessionID parent) with
    | none => [⟨thread.id,thread.label⟩]
    | some parent => s.threadPath sessionID fuel parent++[⟨thread.id,thread.label⟩]

/-- The document of an event. A walk to the root meets no thread twice, so the
number of threads is fuel enough. -/
def eventProjection (s : MemoryStore) (eventID : String) : Option EventProjection := do
  let event ← s.events.lookup eventID
  let session ← s.sessions.lookup event.sessionID
  let thread ← s.threads.lookup (recordKey event.sessionID event.threadID)
  pure
    { kind := event.kind
      publicationHead := ""
      publicationDescriptor := ""
      projectID := session.projectID
      sessionID := session.id
      sessionTitle := session.title
      threadID := event.threadID
      threadPath := s.threadPath event.sessionID s.threads.entries.length thread
      eventID := event.id
      author := event.author
      harness := session.actor.harness
      occurredAt := event.occurredAt
      text := event.text
      toolLabel := event.toolLabel
      ingestSeq := event.ingestSeq
      observedAt := event.observedAt }

/-- Leases up to a number of changes in feed order. A change whose event is gone
is processed without a document. -/
def leaseChanges (s : MemoryStore) (owner : String) (leaseUntil now : Time) :
    Nat → List ProjectionChangeState → List ProjectionChangeState × List ProjectionChange
  | 0,states => (states,[])
  | _+1,[] => ([],[])
  | limit+1,state::others =>
    if state.processed || (state.leaseOwner ≠ "" && state.leaseUntil.after now) then
      let (states,changes) := s.leaseChanges owner leaseUntil now (limit+1) others
      (state::states,changes)
    else
      match s.eventProjection state.eventID with
      | none =>
        let (states,changes) := s.leaseChanges owner leaseUntil now (limit+1) others
        ({state with processed := true}::states,changes)
      | some document =>
        let (states,changes) := s.leaseChanges owner leaseUntil now limit others
        ({state with leaseOwner := owner, leaseUntil}::states,⟨state.id,document⟩::changes)

def leaseProjectionChanges (s : MemoryStore) (owner : String) (limit : Int) (leaseUntil now : Time) :
    List ProjectionChange × MemoryStore :=
  if limit ≤ 0 then ([],s)
  else
    let (states,changes) := s.leaseChanges owner leaseUntil now limit.toNat s.projectionChanges
    (changes,{s with projectionChanges := states})

def ackChange (owner : String) (ids : List Nat) (state : ProjectionChangeState) : ProjectionChangeState :=
  if state.id ∈ ids ∧ state.leaseOwner = owner then
    {state with processed := true, leaseOwner := "", leaseUntil := .zero}
  else state

def ackProjectionChanges (s : MemoryStore) (owner : String) (ids : List Nat) : MemoryStore :=
  {s with projectionChanges := s.projectionChanges.map (ackChange owner ids)}

/-! Deleting a session -/

def concealedSession (s : MemoryStore) (principal : Principal) : Except Failure MemoryStore := do
  authorize ⟨principal,.capturedSessionDeleteAny,.of .capturedSession,.missing⟩
  pure s

/-- Drops a session with everything derived from it. -/
def dropSession (s : MemoryStore) (session : SessionRecord) (sessionID : String) : MemoryStore :=
  let threadIDs := (s.threadIDsBySession.lookup sessionID).getD []
  let threadKeys := threadIDs.map (recordKey sessionID)
  let eventIDs := s.sessionEventIDs sessionID
  let sources := (eventIDs.filterMap s.events.lookup).map (·.sourceKey)
  {s with
    sessions := s.sessions.erase sessionID
    usage := s.usage.keep fun _ value => value.sessionID ≠ sessionID
    deletedSessions := s.deletedSessions.insert sessionID session
    sessionIDsByProject := s.sessionIDsByProject.modify session.projectID fun ids => ids.erase sessionID
    sessionEventCounts := s.sessionEventCounts.erase sessionID
    sessionChildThreadCounts := s.sessionChildThreadCounts.erase sessionID
    batchReceipts := s.batchReceipts.keep fun _ receipt => receipt.result.sessionID ≠ sessionID
    eventBySource := s.eventBySource.keep fun source _ => source ∉ sources
    eventVersions := s.eventVersions.keep fun source _ => source ∉ sources
    events := s.events.keep fun id _ => id ∉ eventIDs
    eventIDsByThread := s.eventIDsByThread.keep fun key _ => key ∉ threadKeys
    threads := s.threads.keep fun key _ => key ∉ threadKeys
    threadIDsBySession := s.threadIDsBySession.erase sessionID
    projectionChanges := s.projectionChanges.filter fun change => change.eventID ∉ eventIDs}

/-- The deletion of a session that is stored, or was before it was deleted. -/
def deleteKnown (s : MemoryStore) (principal : Principal) (sessionID : String) (session : SessionRecord)
    (deleted : Bool) : Except Failure MemoryStore :=
  match (s.projects.lookup session.projectID).filter (·.state ≠ "deleted") with
  | none => s.concealedSession principal
  | some project => do
    authorize
      ⟨principal,
        if session.capturedByUserID = principal.userID then .capturedSessionDeleteOwn
        else .capturedSessionDeleteAny,
        {ResourceFacts.of .capturedSession with
          teamID := project.teamID, capturedByUserID := session.capturedByUserID},
        s.membership project.teamID principal.userID⟩
    pure (if deleted then s else s.dropSession session sessionID)

def deleteSession (s : MemoryStore) (principal : Principal) (sessionID : String) :
    Except Failure MemoryStore :=
  match s.sessions.lookup sessionID, s.deletedSessions.lookup sessionID with
  | some session,_ => s.deleteKnown principal sessionID session false
  | none,some session => s.deleteKnown principal sessionID session true
  | none,none => s.concealedSession principal

end MemoryStore
end ATape.Canonical
