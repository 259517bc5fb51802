import ATape.Publication.Store

/-! The validation of a candidate, one part at a time. A part that is accepted becomes a
fixed unit; its members, the versions they bind and the account of its bytes are
committed with it. -/
namespace ATape.Publication
open Authorization Canonical Foundation Go SourceIdentity

def targetProfiles : List String := targetProfile::retentionProfiles

/-! The declaration of a part -/

/-- Each profile of the source's own that is extended has its target. -/
def profilesAgree (target : Target) (profile : String) : Bool :=
  decide (target.profile = unknownTimeTargetProfile) = decide (profile = Ingestion.unknownTimeCanonicalProfileVersion) &&
    decide (target.profile = toolIdentityTargetProfile) =
      decide (profile = Ingestion.toolIdentityCanonicalProfileVersion) &&
    decide (target.profile = stableToolTargetProfile) = decide (profile = Ingestion.stableToolCanonicalProfileVersion)

def checkTarget (target : Target) (profile : String) (maxParts : Nat) : Except Failure Unit := do
  failWhen (target.profile ∉ targetProfiles || target.threads < 1 || 100 < target.threads || target.events < 0 ||
    (maxParts*500 : Nat) < target.events || target.usage < 0 || (maxParts*500 : Nat) < target.usage)
    (invalid "invalid target profile or member counts")
  failWhen ((target.profile = targetProfile && target.retainedThreadIDs.isSome) ||
    (target.profile ≠ targetProfile && target.retainedThreadIDs.isNone) || 100 < target.retained.length)
    (invalid "retention requires an explicit v2, v3, v4 or v5 target")
  failWhen (!profilesAgree target profile) (invalid "extended canonical profile requires its matching target")
  failWhen (!(target.retained.all fun value => publicationText value 500) || ¬target.retained.Nodup)
    (invalid "invalid retained Thread identity")

def retainedHeaders : List String → List Ingestion.Thread → Except Failure (List String)
  | retained,[] => .ok retained
  | retained,thread::threads => do
    failWhen (thread.sourceThreadID ∈ retained ∧ thread.parentSourceThreadID = none)
      (invalid "root Thread cannot be retained")
    retainedHeaders (retained.erase thread.sourceThreadID) threads

def checkRetained (target : Target) (batch : Ingestion.Batch) : Except Failure Unit := do
  let absent ← retainedHeaders target.retained batch.threads
  failWhen (absent ≠ []) (invalid "retained Thread header is absent")
  failWhen (batch.events.any fun event => event.sourceThreadID ∈ target.retained)
    (invalid "retained Thread contains explicit Events")
  failWhen (batch.usage.any fun usage => usage.sourceThreadID ∈ target.retained)
    (invalid "retained Thread contains explicit usage")
  failWhen (target.profile ≠ targetProfile && batch.session.reportedEventCount ≠ target.events)
    (invalid "Session count differs from explicit target projection")

/-- What the preparation of a batch refused. -/
def prepared : Except Ingestion.Rejection WriteBatch → Except Failure WriteBatch
  | .ok unit => .ok unit
  | .error (.validation field message) => .error (invalid (field++": "++message))
  | .error (.panic message) => .error (.panic message)

/-- Every version of a session that was adopted is above its legacy floor. -/
def checkFloor (source : SourceRow) (unit : WriteBatch) : Except Failure Unit := do
  failWhen (source.legacyAdopted && unit.session.revision ≤ source.revisionFloor)
    (conflict "Session revision does not exceed legacy floor")
  failWhen (source.legacyAdopted && unit.threads.any fun thread => thread.revision ≤ source.revisionFloor)
    (conflict "Thread revision does not exceed legacy floor")
  failWhen (source.legacyAdopted && unit.events.any fun event =>
      event.revision ≤ source.revisionFloor || event.projectionRevision ≤ source.revisionFloor)
    (conflict "Event version does not exceed legacy floor")
  failWhen (source.legacyAdopted && unit.usage.any fun usage => usage.revision ≤ source.revisionFloor)
    (conflict "usage revision does not exceed legacy floor")

def preparePublicationPart (pk : Packages) (p : Principal) (sessionID : String) (source : SourceRow) (body : Bytes)
    (maxParts : Nat) : Except Failure (CanonicalPart × WriteBatch) := do
  let input ← (pk.decode body).mapError invalid
  checkTarget input.target input.batch.canonicalProfileVersion maxParts
  checkRetained input.target input.batch
  failWhen (input.batch.projectID ≠ source.projectID || input.batch.source.installationID ≠ source.installationID ||
    input.batch.source.adapterID ≠ source.adapterID || input.batch.session.sourceSessionID ≠ source.sourceSessionID)
    (invalid "candidate part left its reserved source scope")
  let unit ← prepared (Ingestion.prepareBatch pk.hash p input.batch)
  failWhen (unit.session.id ≠ sessionID || unit.session.sourceKey ≠ source.sourceKey ||
    (unit.threads.length : Int) ≠ input.target.threads)
    (invalid "candidate identity or Thread count differs from its reservation")
  checkFloor source unit
  .ok (input,{unit with threads := unit.threads.insertionSort fun a b => a.id ≤ b.id})

/-! Digests and encodings -/

def publicationFingerprint (pk : Packages) (body : Option Json) : Except Failure String := do
  let body ← present body (.persist "fingerprint normalized candidate")
  .ok (pk.hash.hex (marshal body))

/-- What every part of a target repeats. -/
def headerJson (input : CanonicalPart) (unit : WriteBatch) : Option Json := do
  let session ← unit.session.json
  let threads ← unit.threads.mapM ThreadRecord.json
  some (.obj [("Target",input.target.json),("Session",session),("Threads",.arr threads),
    ("ObservedAt",.str (String.ofList unit.observedAt.formatRFC3339)),("Source",input.batch.source.json),
    ("Profile",.str input.batch.canonicalProfileVersion)])

def unitJson (unit : WriteBatch) : Option Json := do
  let observedAt ← timeJson unit.observedAt
  let session ← unit.session.json
  let threads ← unit.threads.mapM ThreadRecord.json
  let events ← unit.events.mapM EventRecord.json
  let usage ← unit.usage.mapM UsageRecord.json
  some (.obj [("Key",.str unit.key),("Digest",.str unit.digest),("ObservedAt",observedAt),
    ("ProjectID",.str unit.projectID),("Session",session),("Threads",.arr threads),("Events",.arr events),
    ("Usage",.arr usage)])

/-- The text that is stored for a fixed unit. -/
def encodeUnit (unit : WriteBatch) (operation : String) : Except Failure String := do
  let body ← present (unitJson unit) (.persist operation)
  .ok (marshal body)

/-- A thread with its ancestors, the root first. -/
def threadPath (threads : List ThreadRecord) : Nat → ThreadRecord → List ProjectionThread
  | 0,_ => []
  | fuel+1,thread =>
    let above := match thread.parentThreadID with
      | none => []
      | some id => match threads.find? fun parent => parent.id = id with
        | none => [⟨"",""⟩]
        | some parent => threadPath threads fuel parent
    above++[⟨thread.id,thread.label⟩]

def publicationThreadPath (threads : List ThreadRecord) (id : String) : List ProjectionThread :=
  ((threads.find? fun thread => thread.id = id).map (threadPath threads threads.length)).getD []

def ProjectionThread.json (thread : ProjectionThread) : Json := .obj [("ID",.str thread.id),("Label",.str thread.label)]

def descriptorJson (fingerprint : String) (unit : WriteBatch) (threadID : String) : Json :=
  .obj [("Content",.str fingerprint),("Title",.str unit.session.title),("Harness",.str unit.session.actor.harness),
    ("Path",.arr ((publicationThreadPath unit.threads threadID).map ProjectionThread.json))]

/-! Members -/

structure PreparedMember where
  kind : MemberKind
  id : String
  sourceKey : String
  threadID : String
  fingerprint : String
  descriptor : String
  projection : Int
  revision : Int
  sourceOrder : Int
  index : Nat
  eventIndex : Int

def sessionMember (session : SessionRecord) : PreparedMember where
  kind := .session
  id := session.id
  sourceKey := session.sourceKey
  threadID := ""
  fingerprint := session.digest
  descriptor := ""
  projection := 0
  revision := session.revision
  sourceOrder := 0
  index := 0
  eventIndex := 0

def threadMember (index : Nat) (thread : ThreadRecord) : PreparedMember where
  kind := .thread
  id := thread.id
  sourceKey := thread.sourceKey
  threadID := thread.id
  fingerprint := thread.digest
  descriptor := ""
  projection := 0
  revision := thread.revision
  sourceOrder := 0
  index := index
  eventIndex := 0

def eventMember (index : Nat) (event : EventRecord) (fingerprint descriptor : String) : PreparedMember where
  kind := .event
  id := event.id
  sourceKey := event.sourceKey
  threadID := event.threadID
  fingerprint := fingerprint
  descriptor := descriptor
  projection := event.projectionRevision
  revision := event.revision
  sourceOrder := event.sourceOrder
  index := index
  eventIndex := event.eventIndex

def usageMember (pk : Packages) (index : Nat) (usage : UsageRecord) : PreparedMember where
  kind := .usage
  id := stableID pk.hash "u_" usage.sourceKey
  sourceKey := usage.sourceKey
  threadID := usage.threadID
  fingerprint := usage.digest
  descriptor := ""
  projection := 0
  revision := usage.revision
  sourceOrder := 0
  index := index
  eventIndex := 0

def PreparedMember.versionKey (member : PreparedMember) : VersionKey :=
  ⟨member.kind,member.sourceKey,member.projection,member.revision⟩

def PreparedMember.versionRow (sessionID : String) (member : PreparedMember) : VersionRow :=
  ⟨sessionID,member.id,member.threadID,member.fingerprint⟩

def PreparedMember.row (ordinal : Nat) (member : PreparedMember) : MemberRow where
  sourceKey := member.sourceKey
  partOrdinal := ordinal
  entryIndex := member.index
  threadID := member.threadID
  sourceOrder := member.sourceOrder
  eventIndex := member.eventIndex
  searchDescriptor := member.descriptor

namespace Tables

/-- An adopted identity never moves across threads, even under a fresh version. -/
def legacyPublicationIdentity (t : Tables) (sessionID : String) (member : PreparedMember) : Except Failure Unit :=
  match member.kind with
  | .session => .ok ()
  | .thread => failWhen ((t.threads.lookup (sessionID,member.id)).any fun old => old.sourceKey ≠ member.sourceKey)
      (conflict "stable Thread source identity changed")
  | .event => failWhen ((t.events.lookup member.id).any fun old =>
        old.sessionID ≠ sessionID || old.sourceKey ≠ member.sourceKey || old.threadID ≠ member.threadID)
      (conflict "stable Event source identity or ownership changed")
  | .usage => failWhen ((t.usage.lookup member.sourceKey).any fun old =>
        old.sessionID ≠ sessionID || old.threadID ≠ member.threadID)
      (conflict "stable usage ownership changed")

/-- The source key and the thread of some version of a record. -/
def publicationRecordIdentity (t : Tables) (sessionID : String) (kind : MemberKind) (recordID : String) :
    Option (String × String) :=
  let rows := t.versions.rows
  (rows.find? fun row => row.2.sessionID = sessionID && row.1.kind = kind && row.2.recordID = recordID).map
    fun row => (row.1.sourceKey,row.2.threadID)

def bindVersion (t : Tables) (sessionID : String) (member : PreparedMember) : Except Failure Tables :=
  match t.versions.lookup member.versionKey with
  | some previous => do
    failWhen (previous.fingerprint ≠ member.fingerprint)
      (conflict ("source "++member.kind.text++" version has different content"))
    .ok t
  | none => do
    failWhen (member.projection < 0 || member.revision < 1 || member.fingerprint.toList.length ≠ 64)
      (.persist "bind source version")
    .ok {t with versions := t.versions.insert member.versionKey (member.versionRow sessionID)}

def insertPublicationMember (t : Tables) (id : String) (ordinal : Nat) (member : PreparedMember) :
    Except Failure Tables := do
  failWhen ((t.parts.lookup (id,ordinal)).isNone || member.sourceOrder < 0 || member.eventIndex < 0 ||
    t.members.any fun k old => k.attemptID = id && k.kind = member.kind && old.sourceKey = member.sourceKey)
    (.persist "materialize target membership")
  .ok {t with members := t.members.insert ⟨id,member.kind,member.id⟩ (member.row ordinal)}

def recordPublicationMember (t : Tables) (id sessionID : String) (ordinal : Nat) (member : PreparedMember) :
    Except Failure Tables := do
  failWhen (t.members.lookup ⟨id,member.kind,member.id⟩).isSome
    (invalid ("target contains duplicate "++member.kind.text++" membership"))
  t.legacyPublicationIdentity sessionID member
  failWhen ((t.publicationRecordIdentity sessionID member.kind member.id).any (· ≠ (member.sourceKey,member.threadID)))
    (conflict ("stable "++member.kind.text++" identity or ownership changed"))
  let t ← t.bindVersion sessionID member
  t.insertPublicationMember id ordinal member

/-- The search work of an event, which waits for the activation of its attempt. -/
def insertPublicationProjectionChange (t : Tables) (id eventID : String) : Except Failure Tables := do
  failWhen (t.changes.any fun _ change => change.attemptID = id && change.eventID = eventID)
    (.persist "prepare invisible Search work")
  .ok {t with
    changes := t.changes.insert t.nextChange ⟨id,eventID,none,0,false⟩
    nextChange := t.nextChange+1}

/-- A new event is given its provenance, which an inherited one keeps. -/
def provenance (c : Context) (unit : WriteBatch) (retained : Bool) (index : Nat) (event : EventRecord) : EventRecord :=
  if retained then event
  else {event with observedAt := unit.observedAt, receivedAt := (c.ingest index).2, ingestSeq := (c.ingest index).1}

def materializeEvents (pk : Packages) (c : Context) (id sessionID : String) (ordinal : Nat) (unit : WriteBatch)
    (retained : Bool) : Nat → Tables → List EventRecord → Except Failure (Tables × List EventRecord)
  | _,t,[] => .ok (t,[])
  | index,t,event::events => do
    let fingerprint ← present (eventVersionFingerprint pk.hash event) (.persist "fingerprint normalized Event")
    let descriptor ← publicationFingerprint pk (some (descriptorJson fingerprint unit event.threadID))
    let t ← t.recordPublicationMember id sessionID ordinal (eventMember index event fingerprint descriptor)
    let t ← t.insertPublicationProjectionChange id event.id
    let (t,rest) ← materializeEvents pk c id sessionID ordinal unit retained (index+1) t events
    .ok (t,provenance c unit retained index event::rest)

def materializeUsage (pk : Packages) (id sessionID : String) (ordinal : Nat) :
    Nat → Tables → List UsageRecord → Except Failure Tables
  | _,t,[] => .ok t
  | index,t,usage::rest => do
    let t ← t.recordPublicationMember id sessionID ordinal (usageMember pk index usage)
    materializeUsage pk id sessionID ordinal (index+1) t rest

def materializePublicationContent (pk : Packages) (t : Tables) (c : Context) (id sessionID : String) (ordinal : Nat)
    (unit : WriteBatch) (retained : Bool) : Except Failure (Tables × WriteBatch) := do
  let (t,events) ← materializeEvents pk c id sessionID ordinal unit retained 0 t unit.events
  let t ← materializeUsage pk id sessionID ordinal 0 t unit.usage
  .ok (t,{unit with events := events})

def recordThreads (id sessionID : String) (ordinal : Nat) : Nat → Tables → List ThreadRecord → Except Failure Tables
  | _,t,[] => .ok t
  | index,t,thread::threads => do
    failWhen ((t.threads.lookup (sessionID,thread.id)).any fun legacy => legacy.parentThreadID ≠ thread.parentThreadID)
      (conflict "legacy Thread parent is immutable")
    let t ← t.recordPublicationMember id sessionID ordinal (threadMember index thread)
    recordThreads id sessionID ordinal (index+1) t threads

/-- The session and its threads are members once, with the first part. -/
def recordHeader (t : Tables) (id sessionID : String) (ordinal : Nat) (unit : WriteBatch) : Except Failure Tables :=
  if ordinal = 0 then do
    let t ← t.recordPublicationMember id sessionID ordinal (sessionMember unit.session)
    recordThreads id sessionID ordinal 0 t unit.threads
  else .ok t

/-! One part -/

def publicationPartBody (limits : Limits) (pk : Packages) (t : Tables) (id : String) (ordinal : Nat) :
    Except Failure Bytes := do
  let part ← present (t.parts.lookup (id,ordinal)) (.persist "read validation unit bounds")
  match part.payload with
  | .fixed _ _ => .error (.persist "validate materialization progress")
  | .body bytes => do
    failWhen (bytes.length < 1 || limits.partBytes < bytes.length)
      (capacity "validation unit exceeds the current read budget")
    failWhen (bytes.length ≠ part.byteCount || pk.digest bytes ≠ part.digest) (.persist "verify stored publication unit")
    .ok bytes

def checkCounts (target : Target) (a : Attempt) (unit : WriteBatch) (done : Bool) : Except Failure Unit := do
  let events : Int := a.candidateEvents+unit.events.length
  let usage : Int := a.candidateUsage+unit.usage.length
  failWhen (target.events < events || target.usage < usage) (invalid "target contains more members than declared")
  failWhen (done && (events ≠ target.events || usage ≠ target.usage)) (invalid "target membership is incomplete")

def grow (bytes : Nat) (delta : Int) : Nat := ((bytes : Int)+delta).toNat

def storeValidatedPublicationPart (t : Tables) (id : String) (ordinal : Nat) (unit : WriteBatch) (size : Nat) : Tables :=
  {t with parts := t.parts.modify (id,ordinal) fun part => {part with payload := .fixed unit size}}

def advanced (unit : WriteBatch) (delta : Int) (header : String) (target : Target) (state : AttemptState)
    (row : AttemptRow) : AttemptRow :=
  {row with
    validatedParts := row.validatedParts+1
    candidateEvents := row.candidateEvents+unit.events.length
    candidateUsage := row.candidateUsage+unit.usage.length
    retainedBytes := grow row.retainedBytes delta
    headerDigest := some header
    targetJson := some target
    state := state}

def advancePublicationValidation (t : Tables) (id : String) (unit : WriteBatch) (delta : Int) (header : String)
    (target : Target) (state : AttemptState) : Tables :=
  t.modifyAttempt id (advanced unit delta header target state)

def validatePart (limits : Limits) (pk : Packages) (t : Tables) (c : Context) (p : Principal)
    (userID id : String) (source : SourceRow) (row : AttemptRow) (a : Attempt) (manifest : Manifest) :
    Except Failure (Tables × Attempt) := do
  let ordinal := a.validatedParts
  let body ← publicationPartBody limits pk t id ordinal
  let (input,unit) ← preparePublicationPart pk p a.sessionID source body limits.parts
  let header ← publicationFingerprint pk (headerJson input unit)
  failWhen (row.headerDigest.any (· ≠ header))
    (invalid "Session, topology, target counts or capture provenance changed between parts")
  let done := decide ((a.validatedParts : Int)+1 = manifest.parts)
  checkCounts input.target a unit done
  let written ← t.recordHeader id a.sessionID ordinal unit
  let (written,unit) ← written.materializePublicationContent pk c id a.sessionID ordinal unit false
  let encoded ← encodeUnit unit "encode normalized publication unit"
  failWhen (limits.partBytes < len encoded) (capacity "normalized unit exceeds the configured part budget")
  let delta : Int := len encoded-body.length
  failWhen ((limits.targetBytes : Int)-a.retainedBytes < delta ||
    (limits.userPendingBytes : Int)-written.pendingBytes userID < delta)
    (capacity "normalization exceeds pending payload budget")
  let written := written.storeValidatedPublicationPart id ordinal unit (len encoded)
  let state := if done && input.target.retained = [] then AttemptState.validated else .validating
  let written := written.advancePublicationValidation id unit delta header input.target state
  let (_,current) ← written.publicationAttempt id (c.clock 2)
  liveAttempt current
  .ok (written,current)

end Tables
end ATape.Publication
