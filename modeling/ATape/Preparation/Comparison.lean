import ATape.Preparation.Projection

/-! Whether a freshly read view is what was published last. Each record of the view is looked up among those of the
capture that covers the source. -/
namespace ATape.Preparation
open Capture Foundation Node

inductive Disposition
  | abandoned
  | unavailable
  | unbound
  | published
  | pending
  | acknowledged
  | canceled
deriving DecidableEq

def unitDisposition : UnitDisposition → Disposition
  | .pending => .pending
  | .acknowledged => .acknowledged
  | .canceled => .canceled

structure RecordStatus where
  fingerprint : String
  projectionVersion : String
  revision : ℕ
  disposition : Disposition
  unavailableReason : Option Unavailable
  unit : Option (String × ℕ)

def liftJournal {β : Type} (result : Except CaptureJournalError β) : Except Failure β := result.mapError .journal

def recordDisposition (s : Journal) (c : CaptureKey) (row : CaptureRow) (kind : CaptureRecordKind) (record : RecordRow) :
    Except CaptureJournalError Disposition :=
  if row.state = .abandoned then .ok .abandoned
  else if record.unavailableReason.isSome then .ok .unavailable
  else
    match record.unitCapture,record.unitKind,record.unitOrdinal with
    | some owning,some unitKind,some ordinal =>
      if kind ≠ .raw then .ok (if row.activationReceipt = none then .pending else .published)
      else do
        let unit ← present (s.units.lookup ⟨⟨c.scope,owning⟩,unitKind,ordinal⟩) (failure .corrupt "Stored metadata is invalid.")
        .ok (unitDisposition unit.disposition)
    | _,_,_ => .ok .unbound

def recordStatus (s : Journal) (owner : CaptureOwner) (id : String) (identity : CaptureRecordKey) :
    Except CaptureJournalError (Option RecordStatus) := do
  let (key,_) ← s.ownerScope owner
  let row ← s.capture ⟨key,id⟩
  Journal.retainedMembership row
  text identity.key 500
  match s.captureRecords.lookup ⟨⟨key,id⟩,identity⟩ with
  | none => .ok none
  | some record => do
    let disposition ← recordDisposition s ⟨key,id⟩ row identity.kind record
    let version ← Journal.recordVersion identity record.fingerprint record.projectionVersion record.revision
      record.rawReference
    .ok (some ⟨version.fingerprint,version.projectionVersion,version.revision,disposition,record.unavailableReason,
      record.unitCapture.bind fun owning => record.unitOrdinal.map fun ordinal => (owning,ordinal)⟩)

def inspect (s : Journal) (owner : CaptureOwner) (id : String) : Except CaptureJournalError CaptureRow := do
  let (key,_) ← s.ownerScope owner
  s.capture ⟨key,id⟩

structure SourceMetadata where
  canonicalProfileVersion : Option CanonicalProfile
  sourceCheckpoint : Option String
  retainedThreadIds : List String
  sourceFailures : List String
  sourceFailuresTruncated : Bool

/-- What deliveries know of the captures they made: whether a stored capture has its intent, its seal and its receipt,
the Raw authority it was made with, and what its source metadata say. -/
structure Delivery where
  bound : CaptureRow → Bool
  rawAuthority : CaptureRow → Option String
  decodeMetadata : Option String → Option SourceMetadata

structure RawComparison where
  authority : String
  valid : Bool
  admission : String → CaptureRow → String

structure ComparisonInput where
  transformVersion : String
  admitted : Bool
  records : ℤ
  durationMs : ℤ
  raw : Option RawComparison

inductive CanonicalAnswer
  | changed
  | unchanged
deriving DecidableEq

inductive RawAnswer
  | required
  | unchanged
  | disabled
deriving DecidableEq

structure SourceComparisonResult where
  canonical : CanonicalAnswer
  raw : RawAnswer
  sourceFailures : Option (List String)
  sourceFailuresTruncated : Option Bool

structure Baseline where
  coverage : Journal.CaptureCoverage
  id : String
  row : CaptureRow
  counts : RecordCounts
  raw : Option (String × CaptureRow)

def sourceComparisonContext (d : Delivery) (s : Journal) (owner : CaptureOwner) : Except Failure (Option Baseline) := do
  let coverage ← liftJournal (s.coverage owner)
  match coverage.canonicalCaptureId with
  | none => .ok none
  | some id => do
    let row ← liftJournal (inspect s owner id)
    failWhen (d.bound row = false) (fail .binding "Capture intent is invalid.")
    let counts ← present ((row.sealJson.bind CaptureSeal.records).bind CaptureRecordManifest.canonical)
      (fail .invalid "Source comparison requires tracked actual Canonical coverage.")
    failWhen (row.trackRecords = false ∨ row.activationReceipt = none)
      (fail .invalid "Source comparison requires tracked actual Canonical coverage.")
    match coverage.observedRawCaptureId with
    | none => .ok (some ⟨coverage,id,row,counts,none⟩)
    | some rawId => do
      let raw ← liftJournal (inspect s owner rawId)
      .ok (some ⟨coverage,id,row,counts,some (rawId,raw)⟩)

/-- A comparison ends early with a failure, or because the source has changed. -/
inductive Stop
  | failed (problem : Failure)
  | changed

def go {β : Type} (result : Except Failure β) : Except Stop β := result.mapError .failed

structure Progress where
  seen : List String
  rawChanged : Bool
  rawCount : ℕ
  frameCount : ℕ

def rawSourceRecord {α : Type} (h : Host α) (recordKey : String) (raw : Option α) :
    Except Failure (String × Except Unavailable Json × String) := do
  failWhen (recordKey = "" ∨ '\x00' ∈ recordKey.toList ∨ recordKey.utf8ByteSize > 500)
    (fail .invalid "Raw-enabled source omitted a bounded record identity or archive row.")
  let raw ← present raw (fail .invalid "Raw-enabled source omitted a bounded record identity or archive row.")
  let masked := h.redactRaw raw
  let value : Json := match masked with
    | .error .limit => .obj [("gap",.str "limit")]
    | .error .redaction => .obj [("gap",.str "redaction")]
    | .ok row => .obj [("row",row)]
  .ok (h.sourceFingerprint (.str recordKey),masked,h.sourceFingerprint value)

def rawProjectionProfile (profile : String) : String := "atape.host-raw.v1:"++profile

section Comparison
variable {α : Type} (h : Host α) (d : Delivery) (s : Journal) (owner : CaptureOwner) (view : View α)
  (input : ComparisonInput) (baseline : Baseline) (projection : Projection α)

def unique (record : CaptureRecordKey) (p : Progress) : Except Stop Progress := do
  failWhen ((p.seen.length : ℤ) ≥ input.records)
    (.failed (fail .capacity "Source comparison exceeds its exact membership admission."))
  let identity := h.sourceFingerprint (.arr [.str (Journal.kindText record.kind),.str record.key])
  failWhen (p.seen.contains identity = true) (.failed (fail .invalid "Source comparison repeated a record identity."))
  .ok {p with seen := p.seen++[identity]}

def matched (identity : Identity) (p : Progress) : Except Stop Progress := do
  let p ← unique h input identity.record p
  let prior ← go (liftJournal (recordStatus s owner baseline.id identity.record))
  failWhen (prior.any (fun prior => decide (prior.disposition = .published) && decide (prior.fingerprint = identity.fingerprint) &&
    decide (prior.projectionVersion = projection.profile)) = false) .changed
  .ok p

def rawDiffers (raw : RawComparison) (masked : Except Unavailable Json) (fingerprint : String)
    (prior : Option RecordStatus) : Except Failure Bool :=
  match prior with
  | none => .ok true
  | some prior =>
    if prior.fingerprint ≠ fingerprint ∨ prior.projectionVersion ≠ rawProjectionProfile projection.profile then .ok true
    else if prior.disposition = .unavailable then
      match masked with
      | .error gap => .ok (decide (prior.unavailableReason ≠ some gap))
      | .ok _ => .ok (decide (prior.unavailableReason ≠ some .limit))
    else if prior.disposition = .pending then
      match prior.unit with
      | none => .ok true
      | some (owning,_) => do
        let row ← liftJournal (inspect s owner owning)
        .ok (row.rawCancelReason.isSome || decide (d.rawAuthority row ≠ some raw.authority))
    else .ok (decide (prior.disposition ≠ .acknowledged))

def compareRaw (raw : RawComparison) (frame : Frame α) (p : Progress) : Except Stop Progress := do
  let (key,masked,fingerprint) ← go (rawSourceRecord h frame.recordKey frame.raw)
  let p ← unique h input ⟨.raw,key⟩ p
  let p := {p with rawCount := p.rawCount+1}
  if p.rawChanged = true then .ok p
  else
    match baseline.raw with
    | none => .error (.failed .source)
    | some (id,_) => do
      let prior ← go (liftJournal (recordStatus s owner id ⟨.raw,key⟩))
      let differs ← go (rawDiffers d s owner projection raw masked fingerprint prior)
      .ok {p with rawChanged := differs}

def compareFrame (frame : Frame α) (state : Counters × Progress) : Except Stop (Counters × Progress) := do
  let (c,p) := state
  failWhen ((p.frameCount : ℤ)+1 > input.records) (.failed (fail .capacity "Source comparison exceeds its frame admission."))
  let p := {p with frameCount := p.frameCount+1}
  failWhen (input.raw.isNone = true ∧ frame.raw.isSome = true)
    (.failed (fail .invalid "Raw-off comparison returned archive content."))
  let (c,ready) ← go (projectFrame h view projection frame c)
  let p ← (ready.identities projection.profile).foldlM
    (fun p identity => matched h s owner input baseline projection identity p) p
  match input.raw with
  | none => .ok (c,p)
  | some raw => do
    let p ← compareRaw h d s owner input baseline projection raw frame p
    .ok (c,p)

def comparePages : List (Page α) → Counters × Progress → Except Stop (Counters × Progress)
  | [],_ => .error (.failed .source)
  | page::pages,(c,p) => do
    let c ← go (projectPage page c)
    let (c,p) ← page.frames.foldlM
      (fun state frame => compareFrame h d s owner view input baseline projection frame state) (c,p)
    if page.done then .ok (c,p) else comparePages pages (c,p)

/-- Whether Raw has to be archived again before any of its records is looked at. -/
def rawRequired (raw : RawComparison) : Bool :=
  match baseline.raw with
  | none => true
  | some (_,row) =>
    let manifest := (row.sealJson.bind CaptureSeal.records).bind CaptureRecordManifest.raw
    row.activationReceipt.isNone || !manifest.any RawManifest.scopeComplete ||
      decide (manifest.bind RawManifest.admission ≠ some (raw.admission projection.profile baseline.row))

def compareSource (prior : SourceMetadata) (diagnostics : Option (List String × Bool)) :
    Except Stop SourceComparisonResult := do
  failWhen (view.canonicalProfile ≠ prior.canonicalProfileVersion.getD .v2) .changed
  failWhen (view.sourceCheckpoint.isSome = true ∧ prior.sourceCheckpoint ≠ view.sourceCheckpoint) .changed
  failWhen (view.sourceCheckpoint.isSome = true ∧ (some prior.sourceFailures ≠ diagnostics.map Prod.fst ∨
      prior.sourceFailuresTruncated ≠ view.sourceFailuresTruncated)) .changed
  let projection ← go (canonicalSourceProjection h owner view input.transformVersion)
  failWhen (baseline.counts.session ≠ 1 ∨ baseline.counts.thread ≠ view.target.threads ∨
      baseline.counts.event ≠ view.target.events ∨ baseline.counts.usage ≠ view.target.usage) .changed
  failWhen (stringify (.arr ((sortTexts prior.retainedThreadIds).map .str)) ≠
      stringify (.arr ((sortTexts view.target.retainedThreadIds).map .str))) .changed
  let p ← (headerIdentities h projection).foldlM
    (fun p identity => matched h s owner input baseline projection identity p) ⟨[],false,0,0⟩
  let p := {p with rawChanged := input.raw.any (rawRequired baseline projection)}
  let (c,p) ← comparePages h d s owner view input baseline projection view.pages (.start,p)
  let _ ← go (finishProjection view projection c)
  let manifest := (baseline.raw.bind fun raw => (raw.2.sealJson.bind CaptureSeal.records).bind CaptureRecordManifest.raw)
  let raw := match input.raw with
    | none => RawAnswer.disabled
    | some _ =>
      if p.rawChanged = true ∨ manifest.map RawManifest.records ≠ some (p.rawCount : ℤ) then .required else .unchanged
  .ok ⟨.unchanged,raw,diagnostics.map Prod.fst,diagnostics.map Prod.snd⟩

end Comparison

/-- `comparePublicationSource`, on a journal that its owner leaves alone meanwhile. -/
def comparePublicationSource {α : Type} (env : Settings) (h : Host α) (d : Delivery) (s : Journal) (owner : CaptureOwner)
    (input : ComparisonInput) (source : Except Failure (View α)) : Except Failure SourceComparisonResult := do
  failWhen (input.admitted = false) (fail .invalid "Canonical source metadata exceeds its wire bounds.")
  failWhen (input.records < 1 ∨ input.records > 1000000 ∨ input.durationMs < 1 ∨ input.durationMs > 300000)
    (fail .invalid "Source comparison requires explicit record and duration admission.")
  failWhen (input.transformVersion = "" ∨ (units input.transformVersion).length > 200)
    (fail .invalid "Source comparison requires a bounded transform version.")
  failWhen (input.raw.any (fun raw => !raw.valid) = true) (fail .invalid "Source comparison requires current Raw authority.")
  let raw := if input.raw.isSome then RawAnswer.required else .disabled
  match ← sourceComparisonContext d s owner with
  | none => .ok ⟨.changed,raw,none,none⟩
  | some baseline => do
    let view ← source
    let stored ← liftJournal (Journal.storedMetadata env baseline.row.sourceMetadata baseline.row.sourceMetadataSha
      baseline.row.sourceMetadataBytes)
    let prior ← present (d.decodeMetadata stored) (fail .invalid "Frozen source metadata is invalid or exceeds its bound.")
    let diagnostics := if view.sourceCheckpoint.isNone then none
      else some (view.sourceFailures.map h.maskFailure,view.sourceFailuresTruncated)
    match compareSource h d s owner view input baseline prior diagnostics with
    | .error .changed => .ok ⟨.changed,raw,diagnostics.map Prod.fst,diagnostics.map Prod.snd⟩
    | .error (.failed problem) => .error problem
    | .ok result => do
      let current ← liftJournal (s.coverage owner)
      failWhen (current.canonicalCaptureId ≠ baseline.coverage.canonicalCaptureId ∨
          current.observedRawCaptureId ≠ baseline.coverage.observedRawCaptureId)
        (fail .conflict "Published source coverage changed during comparison.")
      .ok result

end ATape.Preparation
