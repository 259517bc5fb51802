import ATape.Publication.Tables

/-! The transactions of a candidate: its reservation, its parts, its manifest, its lease
and its end. A transaction that fails leaves the tables as they were. -/
namespace ATape.Publication
open Authorization Canonical Foundation Go SourceIdentity

namespace Tables

/-! Reservations -/

def legacyRevisionFloor (t : Tables) (sessionID : String) (session : SessionRow) : Int :=
  let threads := t.threads.rows.filterMap fun row => if row.1.1 = sessionID then some row.2.revision else none
  let events := t.events.rows.filterMap fun row => if row.2.sessionID = sessionID then some row.2 else none
  let usage := t.usage.rows.filterMap fun row => if row.2.sessionID = sessionID then some row.2.revision else none
  (threads++events.map (·.revision)++events.map (·.projectionRevision)++usage).foldl max (max session.record.revision 0)

def adoptionThreads (t : Tables) (sessionID sourceKey : String) : Except Failure (List Ingestion.Thread) := do
  let rows := (t.visibleThreads sessionID).insertionSort fun a b => a.id ≤ b.id
  failWhen (100 < rows.length) (capacity "legacy topology exceeds supported Thread bound")
  let names ← rows.mapM fun row => do
    let name ← present (sourceThreadID sourceKey row.sourceKey)
      (conflict "legacy Thread left the authenticated capture scope")
    .ok (row.id,name)
  rows.mapM fun row => do
    let name ← present (names.lookup row.id) (conflict "legacy Thread left the authenticated capture scope")
    let parent ← match row.parentThreadID with
      | none => .ok none
      | some id => (present (names.lookup id) (conflict "legacy Thread parent is absent")).map some
    .ok
      { sourceThreadID := name
        parentSourceThreadID := parent
        revision := row.revision
        label := row.label
        summary := row.summary
        captureStatus := row.captureStatus }

def insertPublicationSource (t : Tables) (sessionID : String) (source : SourceRow) : Except Failure Tables := do
  failWhen ((t.sources.lookup sessionID).isSome || t.sources.any fun _ row => row.sourceKey = source.sourceKey)
    (.persist "bind publication mode")
  .ok {t with sources := t.sources.insert sessionID source}

def legacyBaseline (t : Tables) (sessionID : String) (source : SourceRow) :
    Except Failure (Int × List Ingestion.Thread) := do
  let legacy ← present (t.sessions.lookup sessionID) (conflict "legacy Session does not exist")
  failWhen (legacy.record.sourceKey ≠ source.sourceKey || legacy.record.projectID ≠ source.projectID ||
    legacy.record.capturedByUserID ≠ source.capturedByUserID) (conflict "legacy capture scope differs")
  let floor := t.legacyRevisionFloor sessionID legacy
  failWhen (9007199254740991 ≤ floor) (capacity "legacy revision floor cannot be incremented safely")
  let threads ← t.adoptionThreads sessionID source.sourceKey
  .ok (floor,threads)

def bindSource (t : Tables) (sessionID : String) (source : SourceRow) (adopt : Bool) :
    Except Failure (Tables × Int × List Ingestion.Thread) :=
  match t.sources.lookup sessionID with
  | some old => do
    failWhen (old.sourceKey ≠ source.sourceKey || old.originKey ≠ source.originKey)
      (conflict "source binding is immutable")
    failWhen (adopt && !old.legacyAdopted) (conflict "source has no legacy adoption")
    .ok (t,old.revisionFloor,old.baselineThreads.getD [])
  | none =>
    if adopt then do
      let (floor,threads) ← t.legacyBaseline sessionID source
      let t ← t.insertPublicationSource sessionID
        {source with legacyAdopted := true, revisionFloor := floor, baselineThreads := some threads}
      .ok (t,floor,threads)
    else do
      failWhen (t.sessions.lookup sessionID).isSome (conflict "legacy Session cannot enter publication mode")
      let t ← t.insertPublicationSource sessionID source
      .ok (t,0,[])

def createPublicationReservation (t : Tables) (id sessionID : String) (expiresAt : Int) : Except Failure Tables := do
  failWhen (t.reservations.lookup id).isSome (.persist "reserve publication")
  .ok {t with reservations := t.reservations.insert id ⟨sessionID,expiresAt⟩}

def newSource (pk : Packages) (p : Principal) (userID : String) (scope : Scope) : String × SourceRow :=
  (sessionID pk.hash scope.projectID p.userID scope.installationID scope.adapterID scope.sourceSessionID,
    { sourceKey := sessionSourceKey scope.projectID p.userID scope.installationID scope.adapterID
        scope.sourceSessionID
      projectID := scope.projectID
      capturedByUserID := userID
      installationID := scope.installationID
      adapterID := scope.adapterID
      sourceSessionID := scope.sourceSessionID
      originKey := scope.originKey
      writerFence := 0
      currentHead := none
      legacyAdopted := false
      revisionFloor := 0
      baselineThreads := none })

/-- `Reserve`, or `AdoptLegacy`. A reservation never creates visible data. -/
def reserveSource (limits : Limits) (pk : Packages) (t : Tables) (c : Context) (p : Principal) (scope : Scope)
    (adopt : Bool) : Except Failure (Tables × Adoption) := do
  failWhen (!publicationText scope.projectID 200 || !publicationText scope.installationID 200 ||
    !publicationText scope.adapterID 200 || !publicationText scope.sourceSessionID 500 ||
    !publicationText scope.originKey 500) (invalid "invalid publication scope")
  let userID ← publicationUser pk p
  let (sessionID,source) := newSource pk p userID scope
  t.sourceAccess c p sessionID source
  let (t,floor,threads) ← t.bindSource sessionID source adopt
  failWhen (limits.reservations ≤ t.validReservations userID (c.clock 0))
    (capacity "reservation quota exhausted")
  let expiresAt := c.clock 1+limits.reservationLifetime*1000
  let t ← t.createPublicationReservation c.token sessionID expiresAt
  .ok (t,⟨⟨c.token,sessionID,expiresAt⟩,floor,threads⟩)

/-! The attempt of a reservation -/

def newAttempt (input : Begin) (sessionID : String) (baseHead : Option String) (fence : Nat) (leaseUntil : Int) :
    AttemptRow where
  sessionID := sessionID
  captureID := input.captureID
  baseHead := baseHead
  transformVersion := input.transformVersion
  fence := fence
  leaseUntil := leaseUntil
  state := .open_
  partCount := 0
  retainedBytes := 0
  sealJson := none
  validatedParts := 0
  candidateEvents := 0
  candidateUsage := 0
  headerDigest := none
  targetJson := none
  activationJson := none
  publishedObservedAt := none
  derivedParts := 0
  retentionCursor := none

/-- A new attempt, whose fence supersedes every other attempt of its source. -/
def createAttempt (limits : Limits) (t : Tables) (c : Context) (id : String) (r : ReservationRow)
    (source : SourceRow) (input : Begin) : Except Failure (Tables × Attempt) := do
  failWhen (r.expiresAt ≤ c.clock 0) (.publication "expired" "reservation cannot create a new attempt")
  let base := if input.baseHead = "" then none else some input.baseHead
  failWhen (base ≠ source.currentHead) (conflict "base head changed before Begin")
  failWhen (r.expiresAt ≤ c.clock 2) (.publication "expired" "reservation expired before Begin")
  let leaseUntil := min r.expiresAt (c.clock 2+limits.leaseLifetime*1000)
  let fence := source.writerFence+1
  let t := {t with
    sources := t.sources.modify r.sessionID fun s => {s with writerFence := s.writerFence+1}
    attempts := t.attempts.insert id (newAttempt input r.sessionID base fence leaseUntil)}
  let (_,value) ← t.publicationAttempt id (c.clock 3)
  .ok (t,value)

/-- A replayed `Begin` neither renews the lease nor takes a newer fence. -/
def begin_ (limits : Limits) (pk : Packages) (t : Tables) (c : Context) (p : Principal) (input : Begin) :
    Except Failure (Tables × Attempt) := do
  let id ← publicationID pk input.reservationID
  failWhen (!publicationText input.captureID 200 || !publicationText input.transformVersion 200 ||
    (input.baseHead ≠ "" && !publicationText input.baseHead 200)) (invalid "invalid Begin identity")
  let _ ← publicationUser pk p
  let (r,source) ← t.reservation c p id
  match t.getPublicationAttempt id (c.clock 1) with
  | some (_,a) => do
    failWhen (a.captureID ≠ input.captureID || a.baseHead ≠ input.baseHead ||
      a.transformVersion ≠ input.transformVersion) (conflict "Begin identity has different content")
    .ok (t,a)
  | none => t.createAttempt limits c id r source input

/-! Parts -/

/-- The bytes of a new part, and their place in the account of its attempt. -/
def storePart (limits : Limits) (t : Tables) (c : Context) (userID id : String) (ordinal : Nat) (a : Attempt)
    (digest : String) (body : Bytes) : Except Failure Tables := do
  failWhen (a.state ≠ .open_) (conflict "sealed candidate cannot acquire new parts")
  failWhen (limits.parts ≤ a.parts || (limits.targetBytes : Int)-a.retainedBytes < body.length ||
    (limits.userPendingBytes : Int)-t.pendingBytes userID < body.length)
    (capacity "pending payload quota exhausted; live content was retained")
  let t ← t.insertPart id ordinal ⟨digest,body.length,.body body,false⟩ "store publication part"
  let t := t.addPublicationBytes id body.length
  -- An operation that crosses its lease while it writes leaves neither bytes nor account.
  let (_,current) ← t.publicationAttempt id (c.clock 2)
  liveAttempt current
  .ok t

def put (limits : Limits) (pk : Packages) (t : Tables) (c : Context) (p : Principal) (attemptID : String)
    (ordinal : Int) (wantedDigest : String) (body : Bytes) : Except Failure (Tables × Part) := do
  let id ← publicationID pk attemptID
  failWhen (ordinal < 0 || limits.parts ≤ ordinal || body = [] || limits.partBytes < body.length)
    (invalid "part exceeds declared bounds")
  let digest := pk.digest body
  failWhen (wantedDigest ≠ digest) (invalid "part digest does not match bytes")
  let part : Part := ⟨ordinal,digest,body.length⟩
  let userID ← publicationUser pk p
  let _ ← t.reservation c p id
  let (_,a) ← t.publicationAttempt id (c.clock 1)
  liveAttempt a
  match t.parts.lookup (id,ordinal.toNat) with
  | some old => do
    failWhen (old.digest ≠ digest || old.byteCount ≠ body.length) (conflict "part identity has different bytes")
    .ok (t,part)
  | none => do
    let t ← t.storePart limits c userID id ordinal.toNat a digest body
    .ok (t,part)

/-! The manifest -/

/-- The parts of a page, which follow the last one without a gap. -/
def hashParts : Int → ManifestHasher → List (Nat × PartRow) → Except Failure (Int × ManifestHasher)
  | after,h,[] => .ok (after,h)
  | after,h,row::rows => do
    failWhen ((row.1 : Int) ≠ after+1) (conflict "candidate part sequence has a gap")
    hashParts row.1 (h.add (wirePart row)) rows

/-- Every page of parts. The last is not full, so a page is read for each hundred rows
of the table and one more. -/
def hashPages (t : Tables) (id : String) : Nat → Int → ManifestHasher → Except Failure ManifestHasher
  | 0,_,h => .ok h
  | fuel+1,after,h => do
    let rows := t.listPublicationParts id after 100
    let (after,h) ← hashParts after h rows
    if rows.length < 100 then .ok h else hashPages t id fuel after h

def sealParts (pk : Packages) (t : Tables) (c : Context) (id : String) (a : Attempt) (manifest : Manifest) :
    Except Failure (Tables × Attempt) := do
  failWhen ((a.parts : Int) ≠ manifest.parts || (a.retainedBytes : Int) ≠ manifest.bytes)
    (conflict "candidate has missing or extra parts")
  let h ← t.hashPages id (t.parts.size/100+1) (-1) .new
  failWhen (h.manifest pk.hash ≠ manifest) (conflict "candidate manifest digest changed")
  let t := t.modifyAttempt id fun row => {row with state := .sealed, sealJson := some manifest}
  let (_,current) ← t.publicationAttempt id (c.clock 2)
  liveAttempt current
  .ok (t,current)

def seal_ (limits : Limits) (pk : Packages) (t : Tables) (c : Context) (p : Principal) (attemptID : String)
    (manifest : Manifest) : Except Failure (Tables × Attempt) := do
  let id ← publicationID pk attemptID
  failWhen (manifest.parts < 1 || limits.parts < manifest.parts || manifest.bytes < 1 ||
    limits.targetBytes < manifest.bytes || len manifest.sha256 ≠ 64) (invalid "invalid candidate manifest")
  let _ ← publicationUser pk p
  let _ ← t.reservation c p id
  let (_,a) ← t.publicationAttempt id (c.clock 1)
  liveAttempt a
  match a.seal_ with
  | some fixed => do
    failWhen (fixed ≠ manifest) (conflict "sealed manifest changed")
    .ok (t,a)
  | none => t.sealParts pk c id a manifest

def status (pk : Packages) (t : Tables) (c : Context) (p : Principal) (attemptID : String) (after : Int)
    (limit : Nat) : Except Failure (Tables × Page) := do
  let id ← publicationID pk attemptID
  failWhen (after < -1 || 4096 ≤ after || limit < 1 || 100 < limit) (invalid "invalid metadata page bounds")
  let _ ← publicationUser pk p
  let _ ← t.reservation c p id
  let (_,a) ← t.publicationAttempt id (c.clock 1)
  .ok (t,⟨a,(t.listPublicationParts id after limit).map wirePart⟩)

/-! The lease and the end of an attempt -/

def renew (limits : Limits) (pk : Packages) (t : Tables) (c : Context) (p : Principal) (attemptID : String) :
    Except Failure (Tables × Attempt) := do
  let id ← publicationID pk attemptID
  let _ ← publicationUser pk p
  let (r,_) ← t.reservation c p id
  let (row,a) ← t.publicationAttempt id (c.clock 1)
  liveAttempt a
  failWhen (row.leaseUntil ≤ c.clock 2 || r.expiresAt ≤ c.clock 2)
    (.publication "expired" "lease expired before renewal")
  let t := t.modifyAttempt id fun row =>
    {row with leaseUntil := max row.leaseUntil (min r.expiresAt (c.clock 2+limits.leaseLifetime*1000))}
  let (_,current) ← t.publicationAttempt id (c.clock 3)
  .ok (t,current)

/-- An attempt that was activated is never rejected. -/
def reject (pk : Packages) (t : Tables) (c : Context) (p : Principal) (attemptID : String) :
    Except Failure (Tables × Attempt) := do
  let id ← publicationID pk attemptID
  let _ ← publicationUser pk p
  let _ ← t.reservation c p id
  let (_,a) ← t.publicationAttempt id (c.clock 1)
  failWhen a.activation.isSome (conflict "activated history cannot be rejected")
  let t := t.modifyAttempt id fun row => {row with state := .rejected}
  let (_,current) ← t.publicationAttempt id (c.clock 2)
  .ok (t,current)

/-! Reclamation -/

def reclaimable (t : Tables) (userID : String) (now : Int) (id : String) : Bool :=
  match t.attemptRows id with
  | none => false
  | some (a,r,s) => s.capturedByUserID = userID &&
      ((a.state = .activated && s.currentHead ≠ some id) ||
        (a.state ≠ .activated && (a.state = .rejected || a.fence ≠ s.writerFence || a.baseHead ≠ s.currentHead ||
          a.leaseUntil ≤ now || r.expiresAt ≤ now)))

def publicationReclaimParts (t : Tables) (userID : String) (now : Int) (limit : Nat) :
    List ((String × Nat) × PartRow) :=
  let chosen := t.parts.rows.filter fun row => t.reclaimable userID now row.1.1
  (chosen.insertionSort fun a b => a.1.1 < b.1.1 ∨ a.1.1 = b.1.1 ∧ a.1.2 ≤ b.1.2).take limit

def reclaimParts (t : Tables) : List ((String × Nat) × PartRow) → Except Failure Tables
  | [] => .ok t
  | ((id,ordinal),part)::rows => do
    let t ← (t.deletePublicationPart id ordinal).subtractPublicationBytes id part.payload.storedBytes part.derived
    reclaimParts t rows

/-- Whether a reservation that expired has nothing left that was stored for it. -/
def spentReservation (t : Tables) (userID : String) (now : Int) (id : String) (r : ReservationRow) : Bool :=
  (t.sources.lookup r.sessionID).any (fun s => s.capturedByUserID = userID) && r.expiresAt ≤ now &&
    (t.attempts.lookup id).all fun a => a.partCount = 0 && a.derivedParts = 0 && a.state ≠ .activated

def expiredReservations (t : Tables) (userID : String) (now : Int) (limit : Nat) : List String :=
  let chosen := t.reservations.rows.filter fun row => t.spentReservation userID now row.1 row.2
  ((chosen.map Prod.fst).insertionSort fun a b => a ≤ b).take limit

def deleteReservations (t : Tables) (ids : List String) : Tables :=
  {t.dropMembers fun id _ => id ∈ ids with
    reservations := t.reservations.keep fun id _ => id ∉ ids
    attempts := t.attempts.keep fun id _ => id ∉ ids
    parts := t.parts.keep fun k _ => k.1 ∉ ids}

/-- `Reclaim` never takes a part of a current head. -/
def reclaim (pk : Packages) (t : Tables) (c : Context) (p : Principal) (limit : Nat) :
    Except Failure (Tables × Reclaimed) := do
  failWhen (limit < 1 || 32 < limit) (invalid "invalid reclamation limit")
  let userID ← publicationUser pk p
  let rows := t.publicationReclaimParts userID (c.clock 0) limit
  let t ← t.reclaimParts rows
  let deleted := t.expiredReservations userID (c.clock 1) limit
  .ok (t.deleteReservations deleted,
    ⟨rows.length,deleted.length,(rows.map fun row => row.2.payload.storedBytes).sum⟩)

end Tables
end ATape.Publication
