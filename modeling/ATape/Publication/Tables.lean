import ATape.Foundation.Table
import ATape.Publication.Protocol

/-! The tables of the store and the queries on them. The rows of a part, of a member and
of a prepared change go when the row they refer to goes. -/
namespace ATape.Publication
open Authorization Canonical Foundation Go SourceIdentity

structure SourceRow where
  sourceKey : String
  projectID : String
  capturedByUserID : String
  installationID : String
  adapterID : String
  sourceSessionID : String
  originKey : String
  writerFence : Nat
  currentHead : Option String
  legacyAdopted : Bool
  revisionFloor : Int
  baselineThreads : Option (List Ingestion.Thread)

structure ReservationRow where
  sessionID : String
  expiresAt : Int

/-- How far the inherited records of a target have been read. -/
structure RetentionCursor where
  thread : Nat
  usage : Bool
  after : String
deriving DecidableEq

structure AttemptRow where
  sessionID : String
  captureID : String
  baseHead : Option String
  transformVersion : String
  fence : Nat
  leaseUntil : Int
  state : AttemptState
  partCount : Nat
  retainedBytes : Nat
  sealJson : Option Manifest
  validatedParts : Nat
  candidateEvents : Nat
  candidateUsage : Nat
  headerDigest : Option String
  targetJson : Option Target
  activationJson : Option Activation
  publishedObservedAt : Option Time
  derivedParts : Nat
  retentionCursor : Option RetentionCursor

/-- The bytes that were put, or the fixed unit that took their place with the size of
its text. -/
inductive Payload
  | body (bytes : Bytes)
  | fixed (unit : WriteBatch) (size : Nat)

def Payload.storedBytes : Payload → Nat
  | .body bytes => bytes.length
  | .fixed _ size => size

structure PartRow where
  digest : String
  byteCount : Nat
  payload : Payload
  derived : Bool

inductive MemberKind
  | session | thread | event | usage
deriving DecidableEq

def MemberKind.text : MemberKind → String
  | .session => "session"
  | .thread => "thread"
  | .event => "event"
  | .usage => "usage"

structure MemberKey where
  attemptID : String
  kind : MemberKind
  recordID : String
deriving DecidableEq

structure MemberRow where
  sourceKey : String
  partOrdinal : Nat
  entryIndex : Nat
  threadID : String
  sourceOrder : Int
  eventIndex : Int
  searchDescriptor : String

structure VersionKey where
  kind : MemberKind
  sourceKey : String
  projectionRevision : Int
  revision : Int
deriving DecidableEq

structure VersionRow where
  sessionID : String
  recordID : String
  threadID : String
  fingerprint : String

/-- Search work for an event of an attempt, which no reader sees before the attempt is
the head. -/
structure ChangeRow where
  attemptID : String
  eventID : String
  leaseOwner : Option String
  leaseUntil : Int
  processed : Bool

structure SessionRow where
  record : SessionRecord
  recordState : String

structure Tables where
  sources : Table String SourceRow
  reservations : Table String ReservationRow
  attempts : Table String AttemptRow
  parts : Table (String × Nat) PartRow
  members : Table MemberKey MemberRow
  versions : Table VersionKey VersionRow
  changes : Table Nat ChangeRow
  nextChange : Nat
  sessions : Table String SessionRow
  threads : Table (String × String) ThreadRecord
  events : Table String EventRecord
  usage : Table String UsageRecord
  capturedThrough : Table String Time

structure ProjectAccess where
  teamID : String
  projectState : String
  membership : MembershipFacts

/-- What one transaction reads of the clocks, of the tables that others keep and of the
generators: the database's clock at each of its statements in microseconds, the clock of
the process, the access to each project, a new identifier, and for each event the
sequence number with the time of its reception. -/
structure Context where
  clock : Nat → Int
  now : Time
  access : String → Option ProjectAccess
  token : String
  ingest : Nat → Nat × Time

namespace Tables

def new : Tables := ⟨∅,∅,∅,∅,∅,∅,∅,0,∅,∅,∅,∅,∅⟩

/-- The state of an attempt at a moment. -/
def effectiveState (a : AttemptRow) (r : ReservationRow) (s : SourceRow) (now : Int) : AttemptState :=
  if a.state = .activated then .activated
  else if a.state = .rejected then .rejected
  else if a.fence ≠ s.writerFence || a.baseHead ≠ s.currentHead then .superseded
  else if a.leaseUntil ≤ now || r.expiresAt ≤ now then .expired
  else a.state

/-- An attempt with its reservation and its source. -/
def attemptRows (t : Tables) (id : String) : Option (AttemptRow × ReservationRow × SourceRow) := do
  let a ← t.attempts.lookup id
  let r ← t.reservations.lookup id
  let s ← t.sources.lookup a.sessionID
  some (a,r,s)

def attemptValue (id : String) (a : AttemptRow) (r : ReservationRow) (s : SourceRow) (now : Int) : Attempt where
  id := id
  sessionID := a.sessionID
  captureID := a.captureID
  baseHead := a.baseHead.getD ""
  transformVersion := a.transformVersion
  fence := a.fence
  leaseUntil := a.leaseUntil
  expiresAt := r.expiresAt
  state := effectiveState a r s now
  parts := a.partCount
  retainedBytes := a.retainedBytes
  seal_ := a.sealJson
  validatedParts := a.validatedParts
  retainedParts := a.derivedParts
  candidateEvents := a.candidateEvents
  candidateUsage := a.candidateUsage
  activation := a.activationJson

def getPublicationAttempt (t : Tables) (id : String) (now : Int) : Option (AttemptRow × Attempt) :=
  (t.attemptRows id).map fun (a,r,s) => (a,attemptValue id a r s now)

/-- The user whose source an attempt is for. -/
def attemptOwner (t : Tables) (a : AttemptRow) : Option String :=
  (t.sources.lookup a.sessionID).map (·.capturedByUserID)

/-- The bytes that the attempts of a user hold, those of activated ones apart. -/
def pendingBytes (t : Tables) (userID : String) : Nat :=
  t.attempts.total fun _ a => if t.attemptOwner a = some userID ∧ a.state ≠ .activated then a.retainedBytes else 0

def validReservations (t : Tables) (userID : String) (now : Int) : Nat :=
  t.reservations.total fun _ r =>
    if (t.sources.lookup r.sessionID).map (·.capturedByUserID) = some userID ∧ now < r.expiresAt then 1 else 0

/-! Writes to an attempt and its parts. -/

def modifyAttempt (t : Tables) (id : String) (f : AttemptRow → AttemptRow) : Tables :=
  {t with attempts := t.attempts.modify id f}

def insertPart (t : Tables) (id : String) (ordinal : Nat) (part : PartRow) (operation : String) :
    Except Failure Tables := do
  failWhen ((t.parts.lookup (id,ordinal)).isSome || (t.attempts.lookup id).isNone ||
    part.digest.toList.length ≠ 64 || part.byteCount = 0 || part.payload.storedBytes = 0) (.persist operation)
  .ok {t with parts := t.parts.insert (id,ordinal) part}

def addPublicationBytes (t : Tables) (id : String) (bytes : Nat) : Tables :=
  t.modifyAttempt id fun a => {a with retainedBytes := a.retainedBytes+bytes, partCount := a.partCount+1}

/-- The members in the parts that are gone, and the work prepared for them, go too. -/
def dropMembers (t : Tables) (gone : String → Nat → Bool) : Tables :=
  let lost := fun (k : MemberKey) (m : MemberRow) => gone k.attemptID m.partOrdinal
  let lostEvent := fun (c : ChangeRow) =>
    ((t.members.lookup ⟨c.attemptID,.event,c.eventID⟩).map fun m => gone c.attemptID m.partOrdinal).getD false
  {t with
    members := t.members.keep fun k m => !lost k m
    changes := t.changes.keep fun _ c => !lostEvent c}

def deletePublicationPart (t : Tables) (id : String) (ordinal : Nat) : Tables :=
  {t.dropMembers fun id' ordinal' => id' = id && ordinal' = ordinal with parts := t.parts.erase (id,ordinal)}

/-- No counter of an attempt goes below zero. -/
def subtractPublicationBytes (t : Tables) (id : String) (bytes : Nat) (derived : Bool) : Except Failure Tables := do
  failWhen ((t.attempts.lookup id).any fun a => a.retainedBytes < bytes ||
    (if derived then a.derivedParts = 0 else a.partCount = 0)) (.persist "account reclaimed publication part")
  .ok (t.modifyAttempt id fun a => {a with
    retainedBytes := a.retainedBytes-bytes
    partCount := a.partCount-(if derived then 0 else 1)
    derivedParts := a.derivedParts-(if derived then 1 else 0)})

/-- The parts that were put, in the order of their ordinals, after one of them. -/
def listPublicationParts (t : Tables) (id : String) (after : Int) (limit : Nat) : List (Nat × PartRow) :=
  let chosen := t.parts.rows.filter fun row => row.1.1 = id && !row.2.derived && after < (row.1.2 : Int)
  ((chosen.map fun row => (row.1.2,row.2)).insertionSort fun a b => a.1 ≤ b.1).take limit

def wirePart (row : Nat × PartRow) : Part := ⟨row.1,row.2.digest,row.2.byteCount⟩

/-! What a reader of a session sees: the parts of its head, or the tables of the
sessions that are not published. -/

def currentHead (t : Tables) (sessionID : String) : Option String :=
  (t.sources.lookup sessionID).bind (·.currentHead)

def fixedUnit : Payload → Option WriteBatch
  | .body _ => none
  | .fixed unit _ => some unit

def headUnits (t : Tables) (head : String) : List WriteBatch :=
  let chosen := t.parts.rows.filter fun row => row.1.1 = head
  (chosen.insertionSort fun a b => a.1.2 ≤ b.1.2).filterMap fun row => fixedUnit row.2.payload

def visibleThreads (t : Tables) (sessionID : String) : List ThreadRecord :=
  match t.currentHead sessionID with
  | none => (t.threads.rows.filter fun row => row.1.1 = sessionID).map Prod.snd
  | some head => (((t.parts.lookup (head,0)).bind fun part => fixedUnit part.payload).map (·.threads)).getD []

def visibleEvents (t : Tables) (sessionID : String) : List EventRecord :=
  match t.currentHead sessionID with
  | none => (t.events.rows.map Prod.snd).filter fun event => event.sessionID = sessionID
  | some head => (t.headUnits head).flatMap (·.events)

def getThreadForRead (t : Tables) (sessionID id : String) : Option ThreadRecord :=
  (t.visibleThreads sessionID).find? fun thread => thread.id = id

end Tables

/-! The access of a caller to its sources. -/

/-- What a caller is told of a resource that it may not see. -/
def concealedAccess (p : Principal) (action : Action) (kind : ResourceKind) : Failure :=
  .access (evaluate ⟨p,action,.of kind,.missing⟩)

def resolveProjectAccess (c : Context) (p : Principal) (projectID : String) (action : Action) :
    Except Failure ProjectAccess := do
  let access ← present (c.access projectID) (concealedAccess p action .project)
  (enforce (evaluate ⟨p,action,{ResourceFacts.of .project with teamID := access.teamID},access.membership⟩)).mapError
    Failure.access
  .ok access

def publicationID (pk : Packages) (value : String) : Except Failure String :=
  present (pk.uuid value) (invalid "invalid reservation identity")

/-- The caller of a transaction, which has a credential of a command line. -/
def publicationUser (pk : Packages) (p : Principal) : Except Failure String := do
  failWhen (p.method ≠ .cliAuthentication) (concealedAccess p .canonicalIngest .project)
  present (pk.uuid p.userID) (concealedAccess p .canonicalIngest .project)

namespace Tables

/-- A session that was deleted stays so, whatever is reserved for it. -/
def sourceAccess (t : Tables) (c : Context) (p : Principal) (sessionID : String) (source : SourceRow) :
    Except Failure Unit := do
  failWhen (source.capturedByUserID ≠ p.userID) (concealedAccess p .canonicalIngest .project)
  let access ← resolveProjectAccess c p source.projectID .canonicalIngest
  failWhen (access.projectState ≠ "active") (.projectState access.projectState)
  failWhen ((t.sessions.lookup sessionID).any fun session => session.recordState ≠ "active")
    (.projectState "session_deleted")

def reservation (t : Tables) (c : Context) (p : Principal) (id : String) :
    Except Failure (ReservationRow × SourceRow) := do
  let r ← present (t.reservations.lookup id)
    (.publication "unknown" "reservation is unavailable; this does not prove non-activation")
  let source ← present (t.sources.lookup r.sessionID) (.persist "read publication binding")
  t.sourceAccess c p r.sessionID source
  .ok (r,source)

def publicationAttempt (t : Tables) (id : String) (now : Int) : Except Failure (AttemptRow × Attempt) :=
  present (t.getPublicationAttempt id now) (.publication "unknown" "reservation has not begun")

end Tables

def liveAttempt (a : Attempt) : Except Failure Unit :=
  failWhen (!a.state.live) (.publication a.state.code "candidate no longer has write authority")

end ATape.Publication
