import ATape.Publication.Retention

/-! The activation of a validated candidate. Its head, its receipt, the session and the
progress of the capture are selected in one transaction. -/
namespace ATape.Publication
open Authorization Canonical Foundation Go SourceIdentity

def SessionRow.select (row : SessionRow) (session : SessionRecord) : SessionRow :=
  {row with record := {row.record with
    revision := session.revision
    digest := session.digest
    title := session.title
    summary := session.summary
    insight := session.insight
    actor := session.actor
    branch := session.branch
    status := session.status
    captureStatus := session.captureStatus
    updatedAt := session.updatedAt
    reportedEventCount := session.reportedEventCount}}

namespace Tables

/-- A session is inserted by its first head, and selected by the later ones. -/
def publishSession (t : Tables) (sessionID : String) (session : SessionRecord) : Except Failure Tables :=
  match t.sessions.lookup sessionID with
  | none => do
    failWhen ((t.sessions.lookup session.id).isSome || t.sessions.any fun _ row => row.record.sourceKey = session.sourceKey)
      (.persist "publish Session")
    .ok {t with sessions := t.sessions.insert session.id ⟨session,"active"⟩}
  | some _ => .ok {t with sessions := t.sessions.modify session.id fun row =>
      if row.recordState = "active" then row.select session else row}

def advanceProjectCapture (t : Tables) (projectID : String) (observedAt : Time) : Tables :=
  {t with capturedThrough := t.capturedThrough.modify projectID fun known =>
    if observedAt.truncateMicrosecond.after known then observedAt.truncateMicrosecond else known}

def activationReceipt (a : Attempt) (manifest : Manifest) (now : Time) : Activation where
  head := a.id
  sessionID := a.sessionID
  captureID := a.captureID
  baseHead := a.baseHead
  fence := a.fence
  transformVersion := a.transformVersion
  manifest := manifest
  activatedAt := now.utc

def activated (receipt : Activation) (observedAt : Time) (row : AttemptRow) : AttemptRow :=
  {row with
    state := .activated
    activationJson := some receipt
    publishedObservedAt := some observedAt.truncateMicrosecond}

def recordPublicationActivation (t : Tables) (id : String) (receipt : Activation) (observedAt : Time) : Tables :=
  t.modifyAttempt id (activated receipt observedAt)

def selectable (t : Tables) (id : String) (now : Int) : Bool :=
  (t.attemptRows id).any fun (a,r,s) => a.state = .activated && a.validatedParts = a.partCount &&
    a.fence = s.writerFence && a.baseHead = s.currentHead && now < a.leaseUntil && now < r.expiresAt

/-- The pointer of the source, moved under its time, its fence and its base. -/
def activatePublicationSource (t : Tables) (id sessionID : String) (now : Int) : Except Failure Tables := do
  failWhen (!t.selectable id now) (.publication "expired" "activation authority changed before commit")
  .ok {t with sources := t.sources.modify sessionID fun s => {s with currentHead := some id}}

def confirmedAuthority (t : Tables) (id : String) (now : Int) : Bool :=
  (t.attemptRows id).any fun (a,r,s) => now < a.leaseUntil && now < r.expiresAt && a.fence = s.writerFence &&
    s.currentHead = some id

def selectHead (t : Tables) (c : Context) (id : String) (a : Attempt) (manifest : Manifest) :
    Except Failure (Tables × Activation) := do
  let first ← t.fixedPublicationPart id 0
  let t ← t.publishSession a.sessionID first.session
  let t := t.advanceProjectCapture first.projectID first.observedAt
  let receipt := activationReceipt a manifest c.now
  let t := t.recordPublicationActivation id receipt first.observedAt
  let t ← t.activatePublicationSource id a.sessionID (c.clock 2)
  failWhen (!t.confirmedAuthority id (c.clock 3)) (.publication "expired" "activation lease expired during storage work")
  .ok (t,receipt)

/-- A repeated `Activate` gives the receipt of the first. -/
def activate (pk : Packages) (t : Tables) (c : Context) (p : Principal) (attemptID : String) :
    Except Failure (Tables × Activation) := do
  let id ← publicationID pk attemptID
  let _ ← publicationUser pk p
  let _ ← t.reservation c p id
  let (_,a) ← t.publicationAttempt id (c.clock 1)
  match a.activation with
  | some receipt => .ok (t,receipt)
  | none => do
    liveAttempt a
    let manifest ← present a.seal_ (invalid "only a completely validated target can activate")
    failWhen (a.state ≠ .validated || (a.validatedParts : Int) ≠ manifest.parts)
      (invalid "only a completely validated target can activate")
    t.selectHead c id a manifest

end Tables
end ATape.Publication
