import ATape.Capture.Model
import Mathlib.Data.List.Sort

/-! The mutating operations of `implementation` in captureJournal.ts. Each is
one SQLite transaction: it gives the journal after COMMIT, or the failure that
rolled it back. The triggers that count metadata rows and bytes, and the CHECK
constraints of the binding row, are part of the operation that fires them. -/
namespace ATape.Capture
open Foundation

def storageFailure : CaptureJournalError := failure .io "Capture journal storage operation failed."

def metadataFailure : CaptureJournalError :=
  failure .corrupt "Capture journal metadata failed validation."

namespace Journal

def setScope (s : Journal) (key : ScopeKey) (f : ScopeRow → ScopeRow) : Journal :=
  {s with scopes := s.scopes.modify key f}

def setCapture (s : Journal) (c : CaptureKey) (f : CaptureRow → CaptureRow) : Journal :=
  {s with captures := s.captures.modify c f}

def setUnit (s : Journal) (u : UnitKey) (f : UnitRow → UnitRow) : Journal :=
  {s with units := s.units.modify u f}

/-- The byte triggers on metadata columns, under `CHECK(metadata_bytes>=0)`. -/
def countBytes (s : Journal) (added dropped : Nat) : Except CaptureJournalError Journal := do
  failWhen (s.metadataBytes+added < dropped) storageFailure
  pure {s with metadataBytes := s.metadataBytes+added-dropped}

def admitMetadata (env : Settings) (s : Journal) (entries : Nat) : Except CaptureJournalError Unit := do
  let used := s.metadataEntries
  let limit := env.limits.metadataEntries
  failWhen (used > maxSafeInteger)
    (failure .corrupt "Capture journal metadata accounting is invalid.")
  failWhen (used+entries > limit)
    (failure .capacity s!"Capture journal metadata admission exhausted: used {used}, limit {limit}, required {entries} new entries. Existing deliveries remain recoverable; increase metadataEntries to admit more history.")

def metadataCapacity (env : Settings) (s : Journal) (additional : Nat) :
    Except CaptureJournalError Unit := do
  failWhen (s.retainedBytes > maxSafeInteger ∨ s.metadataBytes > maxSafeInteger)
    (failure .corrupt "Journal byte accounting is invalid.")
  failWhen (s.retainedBytes+s.metadataBytes+additional > env.limits.pendingBytes)
    (failure .capacity "Source metadata admission is exhausted; existing delivery remains recoverable.")

def storedMetadata (env : Settings) (value sha : Option String) (byteCount : Nat) :
    Except CaptureJournalError (Option String) :=
  match value with
  | none => do
    failWhen (byteCount ≠ 0) (failure .corrupt "Missing source metadata has a nonzero length.")
    pure none
  | some value => do
    failWhen (value.utf8ByteSize ≠ byteCount ∨ byteCount > sourceMetadataLimit ∨
        sha ≠ some (env.digest value.toUTF8))
      (failure .corrupt "Source metadata failed its length or digest check.")
    failWhen (Json.valid value = false)
      (failure .corrupt "Stored source metadata is invalid JSON.")
    pure (some value)

def ownerScope (s : Journal) (owner : CaptureOwner) :
    Except CaptureJournalError (ScopeKey × ScopeRow) := do
  let key ← scopeKey owner.scope
  let row ← present (s.scopes.lookup key) (failure .missing "Capture scope does not exist.")
  failWhen (row.originKey ≠ owner.scope.originKey)
    (failure .binding "Capture Origin binding changed.")
  failWhen (row.epoch ≠ owner.epoch) (failure .conflict "Capture owner was superseded.")
  pure (key,row)

def capture (s : Journal) (c : CaptureKey) : Except CaptureJournalError CaptureRow := do
  text c.id 500
  present (s.captures.lookup c) (failure .missing "Capture does not exist.")

def rawPending (s : Journal) (c : CaptureKey) : Bool :=
  s.units.any fun k unit => k.capture = c && k.kind = .raw && unit.disposition = .pending

def complete (s : Journal) (c : CaptureKey) : Journal :=
  if s.rawPending c then s
  else s.setCapture c fun row =>
    if row.activationReceipt.isSome then {row with state := .completed} else row

def unresolved (state : CaptureState) : Bool := state = .preparing || state = .sealed

def hasUnactivated (s : Journal) (key : ScopeKey) : Bool :=
  s.captures.any fun c row => c.scope = key && unresolved row.state

def recordVersion (record : CaptureRecordKey) (fingerprint projectionVersion : String) (revision : Nat)
    (rawReference : Option AdapterRawReference) : Except CaptureJournalError CaptureRecordVersion :=
  match reference rawReference with
  | .ok () => pure ⟨⟨record,fingerprint,projectionVersion,rawReference⟩,revision⟩
  | .error _ => .error (failure .corrupt "Stored record provenance is invalid.")

def retainedMembership (row : CaptureRow) : Except CaptureJournalError Unit :=
  failWhen (row.recordsRetired = true)
    (failure .state "Historical capture membership was retired; its identity and receipts remain available.")

def getRecord (s : Journal) (m : MemberKey) : Except CaptureJournalError RecordRow := do
  let row ← s.capture m.capture
  retainedMembership row
  text m.record.key 500
  present (s.captureRecords.lookup m) (failure .missing "Captured source record does not exist.")

def claim (env : Settings) (s : Journal) (scope : CaptureScope) :
    Except CaptureJournalError (CaptureClaim × Journal) := do
  let key ← scopeKey scope
  text scope.originKey 500
  match s.scopes.lookup key with
  | some old => do
    failWhen (old.originKey ≠ scope.originKey)
      (failure .binding "A source cannot change its immutable Origin binding.")
    integer (old.epoch+1) 1 maxSafeInteger
    pure (⟨⟨scope,old.epoch+1⟩,old.checkpoint⟩,
      s.setScope key fun row => {row with epoch := row.epoch+1})
  | none => do
    s.admitMetadata env 1
    pure (⟨⟨scope,1⟩,none⟩,
      {s with
        metadataEntries := s.metadataEntries+1
        scopes := s.scopes.insert key ⟨scope.originKey,1,none,false,none,none,none,0,none,none,0⟩})

def freezeLegacyMigration (env : Settings) (s : Journal) (projectId adapterId : String)
    (input : CaptureLegacyMigration) : Except CaptureJournalError (CaptureLegacyMigration × Journal) := do
  text projectId 500
  text adapterId 500
  sourceJson input.checkpointJson
  failWhen (env.digest input.checkpointJson.toUTF8 ≠ input.checkpointDigest)
    (failure .invalid "Legacy checkpoint digest does not match its frozen bytes.")
  let key : MigrationKey := ⟨projectId,adapterId,input.checkpointDigest⟩
  match s.legacyMigrations.lookup key with
  | some previous => do
    let _ ← storedMetadata env (some previous.checkpointJson) (some previous.checkpointSha) previous.byteCount
    failWhen (previous.checkpointSha ≠ input.checkpointDigest ∨ previous.checkpointJson ≠ input.checkpointJson)
      (failure .conflict "An established legacy migration cannot change its checkpoint.")
    pure (input,s)
  | none => do
    s.admitMetadata env 1
    s.metadataCapacity env input.checkpointJson.utf8ByteSize
    pure (input,
      {s with
        metadataEntries := s.metadataEntries+1
        metadataBytes := s.metadataBytes+input.checkpointJson.utf8ByteSize
        legacyMigrations := s.legacyMigrations.insert key
          ⟨input.checkpointJson,input.checkpointDigest,input.checkpointJson.utf8ByteSize⟩})

def adoptBaseline (env : Settings) (s : Journal) (owner : CaptureOwner) (revisionFloor : Int)
    (metadataJson : String) : Except CaptureJournalError Journal := do
  let (key,scope) ← s.ownerScope owner
  sourceJson metadataJson
  let sha := env.digest metadataJson.toUTF8
  integer revisionFloor 0 (maxSafeInteger-1)
  match scope.adoptionMetadataSha with
  | some adopted => do
    failWhen ((scope.revisionFloor : Int) ≠ revisionFloor ∨ adopted ≠ sha)
      (failure .conflict "An adopted source cannot change its version floor or baseline.")
    let _ ← storedMetadata env scope.adoptionMetadata scope.adoptionMetadataSha scope.adoptionMetadataBytes
    pure s
  | none => do
    failWhen (scope.recordsInitialized = true ∨ s.captures.any (fun c _ => c.scope = key) = true)
      (failure .state "Adoption must precede publication preparation and version allocation.")
    s.metadataCapacity env metadataJson.utf8ByteSize
    let s ← s.countBytes metadataJson.utf8ByteSize scope.adoptionMetadataBytes
    pure (s.setScope key fun row => {row with
      revisionFloor := revisionFloor.toNat
      adoptionMetadata := some metadataJson
      adoptionMetadataSha := some sha
      adoptionMetadataBytes := metadataJson.utf8ByteSize})

def setSourceMetadata (env : Settings) (s : Journal) (owner : CaptureOwner) (id value : String) :
    Except CaptureJournalError Journal := do
  let (key,_) ← s.ownerScope owner
  let row ← s.capture ⟨key,id⟩
  sourceJson value
  match row.sourceMetadata with
  | some frozen => do
    let _ ← storedMetadata env row.sourceMetadata row.sourceMetadataSha row.sourceMetadataBytes
    failWhen (frozen ≠ value) (failure .conflict "A frozen source header cannot change.")
    pure s
  | none => do
    failWhen (row.state ≠ .preparing ∨ row.recordCount > 0 ∨
        s.units.any (fun k _ => k.capture = ⟨key,id⟩) = true)
      (failure .state "Freeze source metadata before preparing any source records or units.")
    failWhen (row.retainedBytes+value.utf8ByteSize > env.limits.targetBytes)
      (failure .capacity "Source metadata exceeds target admission.")
    s.metadataCapacity env value.utf8ByteSize
    let s ← s.countBytes value.utf8ByteSize row.sourceMetadataBytes
    pure (s.setCapture ⟨key,id⟩ fun row => {row with
      sourceMetadata := some value
      sourceMetadataSha := some (env.digest value.toUTF8)
      sourceMetadataBytes := value.utf8ByteSize})

def reserved (input : CaptureReservation) (purpose : CapturePurpose) (track : Bool) : CaptureRow where
  expectedCheckpoint := input.expectedCheckpoint
  beginJson := input.beginJson
  rawEnabled := input.rawEnabled
  state := .preparing
  sealJson := none
  activationReceipt := none
  rawCancelReason := none
  rejectionReceipt := none
  retainedBytes := 0
  purpose := purpose
  trackRecords := track
  recordCount := 0
  recordsRetired := false
  retainedRecords := 0
  sourceMetadata := none
  sourceMetadataSha := none
  sourceMetadataBytes := 0

def reserve (env : Settings) (s : Journal) (owner : CaptureOwner) (input : CaptureReservation) :
    Except CaptureJournalError Journal := do
  let (key,scope) ← s.ownerScope owner
  text input.id 500
  json input.beginJson
  optionalText input.expectedCheckpoint metadataLimit
  let purpose := input.purpose.getD .publication
  failWhen (purpose = .rawObservation ∧ (input.rawEnabled = false ∨ input.expectedCheckpoint = none))
    (failure .state "A Raw observation requires Raw permission and existing Canonical coverage.")
  let track := input.trackRecords.getD false
  failWhen (track = true ∧ env.limits.recordsPerTarget = none)
    (failure .capacity "Source record admission is not configured.")
  match s.captures.lookup ⟨key,input.id⟩ with
  | some previous => do
    failWhen (previous.trackRecords ≠ track ∨ previous.purpose ≠ purpose ∨
        previous.expectedCheckpoint ≠ input.expectedCheckpoint ∨ previous.beginJson ≠ input.beginJson ∨
        previous.rawEnabled ≠ input.rawEnabled)
      (failure .conflict "Capture reservation identity was reused with different content.")
    pure s
  | none => do
    failWhen (scope.checkpoint ≠ input.expectedCheckpoint)
      (failure .conflict "Source checkpoint advanced before reservation.")
    failWhen (track = true ∧ scope.recordsInitialized = false ∧ scope.checkpoint ≠ none)
      (failure .state "Existing untracked coverage cannot silently initialize source versions.")
    failWhen (track = false ∧ purpose = .publication ∧ scope.recordsInitialized = true)
      (failure .state "A tracked source cannot publish without its record manifest.")
    failWhen (s.hasUnactivated key = true)
      (failure .conflict "Resolve the existing unactivated capture before reserving another.")
    s.admitMetadata env 1
    pure {s with
      metadataEntries := s.metadataEntries+1
      scopes := s.scopes.modify key fun row =>
        {row with recordsInitialized := row.recordsInitialized || track}
      captures := s.captures.insert ⟨key,input.id⟩ (reserved input purpose track)}

def nextOrdinal (s : Journal) (c : CaptureKey) (kind : CaptureUnitKind) : Nat :=
  s.units.rows.foldl (fun last (k,_) =>
    if k.capture = c ∧ k.kind = kind then max last (k.ordinal+1) else last) 0

def append (env : Settings) (s : Journal) (owner : CaptureOwner) (id : String) (unit : PreparedUnit) :
    Except CaptureJournalError Journal := do
  let (key,_) ← s.ownerScope owner
  let row ← s.capture ⟨key,id⟩
  integer unit.ordinal 0 (env.limits.unitsPerTarget-1)
  failWhen (row.purpose = .rawObservation ∧ unit.kind ≠ .raw)
    (failure .state "Raw observations cannot contain Canonical units.")
  integer unit.bytes.size 1 env.limits.unitBytes
  failWhen (unit.kind = .raw ∧ row.rawEnabled = false)
    (failure .state "Raw was disabled for this capture.")
  let fingerprint := env.digest unit.bytes
  match s.units.lookup ⟨⟨key,id⟩,unit.kind,unit.ordinal.toNat⟩ with
  | some previous => do
    failWhen (previous.digest ≠ fingerprint ∨ previous.byteCount ≠ unit.bytes.size)
      (failure .conflict "Prepared unit identity cannot be replaced with different bytes.")
    pure s
  | none => do
    failWhen (row.state ≠ .preparing)
      (failure .state "A sealed capture cannot acquire new content.")
    failWhen (unit.kind = .raw ∧ row.rawCancelReason ≠ none)
      (failure .state "Raw was canceled for this capture.")
    let canonicalCount := s.nextOrdinal ⟨key,id⟩ .canonical
    let rawCount := s.nextOrdinal ⟨key,id⟩ .raw
    failWhen ((if unit.kind = .canonical then canonicalCount else rawCount) ≠ unit.ordinal.toNat)
      (failure .state "Prepared units must be appended contiguously.")
    failWhen (s.retainedBytes+s.metadataBytes > maxSafeInteger)
      (failure .corrupt "Journal byte accounting is invalid.")
    failWhen (canonicalCount+rawCount ≥ env.limits.unitsPerTarget ∨
        row.retainedBytes+row.sourceMetadataBytes+unit.bytes.size > env.limits.targetBytes ∨
        s.retainedBytes+s.metadataBytes+unit.bytes.size > env.limits.pendingBytes)
      (failure .capacity "Pending capture capacity is exhausted; unacknowledged content was retained.")
    s.admitMetadata env 1
    pure {s with
      retainedBytes := s.retainedBytes+unit.bytes.size
      metadataEntries := s.metadataEntries+1
      captures := s.captures.modify ⟨key,id⟩ fun row =>
        {row with retainedBytes := row.retainedBytes+unit.bytes.size}
      units := s.units.insert ⟨⟨key,id⟩,unit.kind,unit.ordinal.toNat⟩
        ⟨unit.bytes.size,fingerprint,some unit.bytes,.pending,none⟩}

/-- Whether the record was missing from the last complete observation that the
known version was not itself compared against. -/
def wasAbsent (s : Journal) (key : ScopeKey) (record : CaptureRecordKey)
    (lastComplete comparison : Option String) : Bool :=
  match lastComplete with
  | none => false
  | some last => lastComplete ≠ comparison && (s.captureRecords.lookup ⟨⟨key,last⟩,record⟩).isNone

/-- Whether the known version refers to a Raw object of a capture that was
never activated. -/
def orphanedReference (s : Journal) (key : ScopeKey) (record : CaptureRecordKey) (previous : VersionRow) :
    Except CaptureJournalError Bool :=
  match previous.rawReference with
  | none => pure false
  | some _ => do
    let version ← recordVersion record previous.fingerprint previous.projectionVersion
      previous.revision previous.rawReference
    if version.rawReference.any AdapterRawReference.isObject then do
      let row ← s.capture ⟨key,previous.versionCapture⟩
      pure row.activationReceipt.isNone
    else pure false

/-- The version a record takes in the capture `id`: the known one when nothing
changed, else the next revision with the proposed reference. -/
def nextVersion (env : Settings) (s : Journal) (key : ScopeKey) (scope : ScopeRow) (row : CaptureRow)
    (id : String) (input : CaptureRecordInput) :
    Except CaptureJournalError (Bool × VersionRow) := do
  let old := s.sourceRecordVersions.lookup ⟨key,input.toCaptureRecordKey⟩
  s.admitMetadata env (if old.isNone then 2 else 1)
  let lastComplete := if input.kind = .raw then scope.observedRaw else scope.observedCanonical
  let fresh (revision : Nat) : Except CaptureJournalError (Bool × VersionRow) := do
    integer (revision+1) 1 maxSafeInteger
    failWhen (row.rawEnabled = false ∧ input.rawReference.any AdapterRawReference.isObject = true)
      (failure .state "A new Raw-off Event version cannot acquire a Raw object reference.")
    pure (true,⟨input.fingerprint,input.projectionVersion,revision+1,input.rawReference,id,lastComplete⟩)
  match old with
  | none => fresh scope.revisionFloor
  | some previous => do
    let absent := s.wasAbsent key input.toCaptureRecordKey lastComplete previous.comparisonCapture
    let orphaned ← s.orphanedReference key input.toCaptureRecordKey previous
    if previous.fingerprint ≠ input.fingerprint ∨ previous.projectionVersion ≠ input.projectionVersion ∨
        absent = true ∨ orphaned = true then fresh previous.revision
    else pure (false,previous)

def trackingLimit (env : Settings) (row : CaptureRow) : Except CaptureJournalError Nat :=
  match row.trackRecords,env.limits.recordsPerTarget with
  | true,some n => pure n
  | _,_ => .error (failure .state "Capture is not tracking source records.")

def record (env : Settings) (s : Journal) (owner : CaptureOwner) (id : String)
    (input : CaptureRecordInput) : Except CaptureJournalError (CaptureRecordVersion × Journal) := do
  let (key,scope) ← s.ownerScope owner
  let row ← s.capture ⟨key,id⟩
  retainedMembership row
  text input.key 500
  text input.projectionVersion 500
  failWhen (isSha256 input.fingerprint = false)
    (failure .invalid "A source fingerprint must be SHA-256 metadata.")
  reference input.rawReference
  failWhen (¬(input.kind = .event ↔ input.rawReference ≠ none))
    (failure .invalid "Only Events carry required Raw reference provenance.")
  let recordsPerTarget ← trackingLimit env row
  failWhen ((row.purpose = .rawObservation ∧ input.kind ≠ .raw) ∨
      (input.kind = .raw ∧ row.rawEnabled = false))
    (failure .state "Record observation is outside this capture purpose or Raw policy.")
  match s.captureRecords.lookup ⟨⟨key,id⟩,input.toCaptureRecordKey⟩ with
  | some previous => do
    failWhen (previous.fingerprint ≠ input.fingerprint ∨ previous.projectionVersion ≠ input.projectionVersion)
      (failure .conflict "A capture cannot stitch different source observations under one record identity.")
    let version ← recordVersion input.toCaptureRecordKey previous.fingerprint previous.projectionVersion
      previous.revision previous.rawReference
    pure (version,s)
  | none => do
    failWhen (row.state ≠ .preparing)
      (failure .state "Source observations require an unsealed capture.")
    failWhen (row.recordCount ≥ recordsPerTarget)
      (failure .capacity "Source record capacity is exhausted.")
    let (changed,actual) ← s.nextVersion env key scope row id input
    let known := s.sourceRecordVersions.lookup ⟨key,input.toCaptureRecordKey⟩
    let after : Journal := {s with
      metadataEntries := s.metadataEntries+(if known.isNone then 2 else 1)
      captures := s.captures.modify ⟨key,id⟩ fun row =>
        {row with recordCount := row.recordCount+1, retainedRecords := row.retainedRecords+1}
      sourceRecordVersions := if changed then
        s.sourceRecordVersions.insert ⟨key,input.toCaptureRecordKey⟩ actual else s.sourceRecordVersions
      captureRecords := s.captureRecords.insert ⟨⟨key,id⟩,input.toCaptureRecordKey⟩
        ⟨input.fingerprint,input.projectionVersion,actual.revision,actual.rawReference,
          actual.versionCapture,none,none,none,none⟩}
    let version ← recordVersion input.toCaptureRecordKey input.fingerprint input.projectionVersion
      actual.revision actual.rawReference
    pure (version,after)

/-- A unit of another capture can stand for a record only while its content
can still be had. -/
def reusable (s : Journal) (c : CaptureKey) (owning : String) (unit : UnitRow) :
    Except CaptureJournalError Unit :=
  if owning = c.id then pure () else do
    let owner ← s.capture ⟨c.scope,owning⟩
    failWhen (owner.activationReceipt = none ∨ unit.disposition = .canceled ∨
        (unit.disposition = .pending ∧ unit.body = none))
      (failure .state "Raw reuse cannot reconstruct canceled or missing content.")

def boundContent (s : Journal) (c : CaptureKey) (record : RecordRow) (identity : CaptureRecordKey)
    (binding : CaptureRecordBinding) : Except CaptureJournalError Content :=
  match binding with
  | .unavailable reason => do
    failWhen (identity.kind ≠ .raw)
      (failure .invalid "Only Raw can declare an explicit record gap.")
    pure ⟨none,none,none,some reason⟩
  | .unit ordinal captureId => do
    integer ordinal 0 1000000
    let unitKind := if identity.kind = .raw then CaptureUnitKind.raw else .canonical
    let named := captureId.getD c.id
    let owning ← if named = c.id then pure named else do
      failWhen (identity.kind ≠ .raw)
        (failure .state "Canonical replacement requires its own frozen units.")
      let previous ← s.getRecord ⟨⟨c.scope,named⟩,⟨.raw,identity.key⟩⟩
      let observed ← s.capture ⟨c.scope,named⟩
      match previous.unitCapture with
      | none => .error (failure .conflict "Raw reuse requires the same observed version and an activated owning capture.")
      | some owning => do
        failWhen (previous.revision ≠ record.revision ∨ previous.fingerprint ≠ record.fingerprint ∨
            previous.projectionVersion ≠ record.projectionVersion ∨
            previous.unitOrdinal ≠ some ordinal.toNat ∨ observed.activationReceipt = none)
          (failure .conflict "Raw reuse requires the same observed version and an activated owning capture.")
        pure owning
    let unit ← present (s.units.lookup ⟨⟨c.scope,owning⟩,unitKind,ordinal.toNat⟩)
      (failure .missing "The record's prepared unit does not exist.")
    s.reusable c owning unit
    pure ⟨some owning,some unitKind,some ordinal.toNat,none⟩

def bindRecord (s : Journal) (owner : CaptureOwner) (id : String) (identity : CaptureRecordKey)
    (binding : CaptureRecordBinding) : Except CaptureJournalError Journal := do
  let (key,_) ← s.ownerScope owner
  let row ← s.capture ⟨key,id⟩
  let record ← s.getRecord ⟨⟨key,id⟩,identity⟩
  let content ← s.boundContent ⟨key,id⟩ record identity binding
  if record.unitCapture ≠ none ∨ record.unavailableReason ≠ none then do
    failWhen (record.content ≠ content) (failure .conflict "Source record binding is immutable.")
    pure s
  else do
    failWhen (row.state ≠ .preparing)
      (failure .state "Only an unsealed record can acquire content.")
    pure {s with captureRecords := s.captureRecords.modify ⟨⟨key,id⟩,identity⟩ fun record => {record with
      unitCapture := content.unitCapture
      unitKind := content.unitKind
      unitOrdinal := content.unitOrdinal
      unavailableReason := content.unavailableReason}}

def recordTotal (s : Journal) (c : CaptureKey) (kind : CaptureRecordKind) : Nat :=
  (s.captureRecords.rows.filter fun (m,_) => m.capture = c ∧ m.record.kind = kind).length

def expectedRecords (manifest : CaptureRecordManifest) : CaptureRecordKind → Int
  | .session => (manifest.canonical.map RecordCounts.session).getD 0
  | .thread => (manifest.canonical.map RecordCounts.thread).getD 0
  | .event => (manifest.canonical.map RecordCounts.event).getD 0
  | .usage => (manifest.canonical.map RecordCounts.usage).getD 0
  | .raw => (manifest.raw.map RawManifest.records).getD 0

/-- `decode(RecordManifest, …)`: an admission must be a SHA-256 text. -/
def decodeManifest (value : CaptureRecordManifest) : Except CaptureJournalError Unit :=
  failWhen ((value.raw.bind RawManifest.admission).any (fun a => !isSha256 a) = true) metadataFailure

def checkTotal (s : Journal) (c : CaptureKey) (manifest : CaptureRecordManifest) (recordsPerTarget : Nat)
    (incomplete : String) (kind : CaptureRecordKind) : Except CaptureJournalError Unit := do
  integer (expectedRecords manifest kind) 0 recordsPerTarget
  failWhen (expectedRecords manifest kind ≠ s.recordTotal c kind) (failure .state incomplete)

def recordManifest (env : Settings) (s : Journal) (c : CaptureKey) (row : CaptureRow)
    (value : Option CaptureRecordManifest) : Except CaptureJournalError Unit :=
  if row.trackRecords = false then
    failWhen (value ≠ none)
      (failure .state "An untracked capture cannot assert record coverage.")
  else match value,env.limits.recordsPerTarget with
  | some result,some recordsPerTarget => do
    decodeManifest result
    failWhen ((row.purpose = .publication ∧ result.canonical = none) ∨
        (row.purpose = .rawObservation ∧ result.canonical ≠ none))
      (failure .state "Record manifest does not match capture purpose.")
    failWhen ((result.raw ≠ none ∧ row.rawEnabled = false) ∨
        (row.purpose = .rawObservation ∧ result.raw = none))
      (failure .state "Raw record manifest does not match capture policy.")
    [CaptureRecordKind.session,.thread,.event,.usage].forM
      (s.checkTotal c result recordsPerTarget "Source record manifest is incomplete.")
    failWhen (result.canonical.any (fun counts => counts.session ≠ 1 || counts.thread < 1) = true)
      (failure .state "A Canonical source manifest requires one Session and its Thread topology.")
    integer (expectedRecords result .raw) 0 recordsPerTarget
    failWhen (row.purpose = .rawObservation ∧ expectedRecords result .raw = 0 ∧
        (result.raw.map RawManifest.scopeComplete).getD false = false)
      (failure .state "An empty Raw observation must prove a complete source comparison.")
    s.checkTotal c result recordsPerTarget "Raw record manifest is incomplete." .raw
    failWhen (s.captureRecords.any (fun m record =>
        m.capture = c && record.unitCapture.isNone && record.unavailableReason.isNone) = true)
      (failure .state "Every observed record needs frozen content or an explicit Raw gap.")
  | _,_ => .error (failure .state "Tracked capture requires an explicit complete record manifest.")

/-- A retired membership cannot be validated again; its seal still accepts an
exact replay. -/
def sealRecords (env : Settings) (s : Journal) (c : CaptureKey) (row : CaptureRow)
    (value : Option CaptureRecordManifest) : Except CaptureJournalError Unit :=
  if row.recordsRetired = false then s.recordManifest env c row value
  else match value with
  | some records => decodeManifest records
  | none => pure ()

def unitTotal (s : Journal) (c : CaptureKey) (kind : CaptureUnitKind) : Nat :=
  (s.units.rows.filter fun (k,_) => k.capture = c ∧ k.kind = kind).length

def sealCapture (env : Settings) (s : Journal) (owner : CaptureOwner) (id : String)
    (manifest : CaptureSeal) : Except CaptureJournalError Journal := do
  let (key,_) ← s.ownerScope owner
  let row ← s.capture ⟨key,id⟩
  integer manifest.canonicalUnits (if row.purpose = .publication then 1 else 0)
    (if row.purpose = .publication then env.limits.unitsPerTarget else 0)
  integer manifest.rawUnits (if row.purpose = .rawObservation ∧ row.trackRecords = false then 1 else 0)
    env.limits.unitsPerTarget
  failWhen (row.purpose = .rawObservation ∧ some manifest.nextCheckpoint ≠ row.expectedCheckpoint)
    (failure .state "A Raw observation cannot change Canonical coverage.")
  text manifest.nextCheckpoint metadataLimit
  json manifest.manifestJson
  s.sealRecords env ⟨key,id⟩ row manifest.records
  match row.sealJson with
  | some encoded => do
    failWhen (encoded ≠ manifest) (failure .conflict "Sealed manifest identity cannot change.")
    pure s
  | none => do
    failWhen (row.state ≠ .preparing) (failure .state "Capture is not preparing.")
    failWhen ((s.unitTotal ⟨key,id⟩ .canonical : Int) ≠ manifest.canonicalUnits ∨
        (s.unitTotal ⟨key,id⟩ .raw : Int) ≠ manifest.rawUnits)
      (failure .state "A capture cannot seal with missing or extra prepared units.")
    let canonical := manifest.records.bind CaptureRecordManifest.canonical
    let raw := manifest.records.bind CaptureRecordManifest.raw
    pure {s with
      captures := s.captures.modify ⟨key,id⟩ fun row =>
        {row with state := .sealed, sealJson := some manifest}
      scopes := s.scopes.modify key fun scope => {scope with
        observedCanonical := if canonical.isSome then some id else scope.observedCanonical
        observedRaw := if raw.any RawManifest.scopeComplete then some id else scope.observedRaw}}

def dropSourceMetadata (row : CaptureRow) : CaptureRow :=
  {row with sourceMetadata := none, sourceMetadataSha := none, sourceMetadataBytes := 0}

def settleCanonical (s : Journal) (c : CaptureKey) (row : CaptureRow) (ordinal : Int)
    (receiptJson : String) : Except CaptureJournalError Journal := do
  json receiptJson
  integer ordinal 0 1000000
  let unit ← present (s.units.lookup ⟨c,.canonical,ordinal.toNat⟩)
    (failure .missing "Canonical unit does not exist.")
  match unit.receiptJson with
  | some known => do
    failWhen (known ≠ receiptJson) (failure .conflict "Canonical receipt identity changed.")
    pure s
  | none => do
    failWhen (row.state ≠ .sealed)
      (failure .state "Canonical receipts require a sealed pending capture.")
    pure (s.setUnit ⟨c,.canonical,ordinal.toNat⟩ fun unit =>
      {unit with disposition := .acknowledged, receiptJson := some receiptJson})

def superseded (c other : CaptureKey) (row : CaptureRow) : Bool :=
  other.scope = c.scope && other.id ≠ c.id && row.sourceMetadata.isSome && row.activationReceipt.isSome

def settleActivated (s : Journal) (c : CaptureKey) (scope : ScopeRow) (row : CaptureRow)
    (receiptJson : String) : Except CaptureJournalError Journal := do
  json receiptJson
  match row.activationReceipt with
  | some known => do
    failWhen (known ≠ receiptJson) (failure .conflict "Activation receipt identity changed.")
    -- Never restores an old checkpoint when a known activation is replayed.
    pure s
  | none => do
    failWhen (row.state ≠ .sealed) (failure .state "Only a sealed capture can activate.")
    let manifest ← present row.sealJson (failure .state "Only a sealed capture can activate.")
    failWhen (scope.checkpoint ≠ row.expectedCheckpoint)
      (failure .conflict "Source checkpoint changed before activation.")
    let activated := s.setCapture c fun row =>
      {row with state := .activated, activationReceipt := some receiptJson}
    if row.purpose = .publication then do
      let dropped := scope.adoptionMetadataBytes+
        activated.captures.total fun k row => if superseded c k row then row.sourceMetadataBytes else 0
      let counted ← activated.countBytes 0 dropped
      let after : Journal := {counted with
        scopes := counted.scopes.modify c.scope fun scope => {scope with
          checkpoint := some manifest.nextCheckpoint
          canonicalCoverage := if row.trackRecords then some c.id else scope.canonicalCoverage
          adoptionMetadata := none
          adoptionMetadataBytes := 0}
        captures := counted.captures.updateAll fun k row =>
          if superseded c k row then dropSourceMetadata row else row}
      pure (after.complete c)
    else pure (activated.complete c)

def settleRaw (s : Journal) (c : CaptureKey) (row : CaptureRow) (ordinal : Int)
    (receiptJson : String) : Except CaptureJournalError Journal := do
  json receiptJson
  integer ordinal 0 1000000
  failWhen (row.activationReceipt = none)
    (failure .state "Raw receipts require an activated capture.")
  let unit ← present (s.units.lookup ⟨c,.raw,ordinal.toNat⟩)
    (failure .missing "Raw unit does not exist.")
  failWhen (unit.receiptJson.any (· ≠ receiptJson) = true)
    (failure .conflict "Raw receipt identity changed.")
  pure ((s.setUnit ⟨c,.raw,ordinal.toNat⟩ fun unit =>
    {unit with disposition := .acknowledged, receiptJson := some receiptJson}).complete c)

def cancelPending (unit : UnitRow) : UnitRow :=
  if unit.disposition = .pending then {unit with disposition := .canceled} else unit

def settleUnitCanceled (s : Journal) (c : CaptureKey) (row : CaptureRow) (ordinal : Int) :
    Except CaptureJournalError Journal := do
  integer ordinal 0 1000000
  failWhen (row.activationReceipt = none ∨ row.rawCancelReason = none)
    (failure .state "Per-unit cancellation requires activation and a durable cancellation intent.")
  failWhen ((s.units.lookup ⟨c,.raw,ordinal.toNat⟩).isNone = true)
    (failure .missing "Raw unit does not exist.")
  pure ((s.setUnit ⟨c,.raw,ordinal.toNat⟩ cancelPending).complete c)

/-- Records the first cancellation reason, and with `all` ends every raw unit
that is still pending. -/
def settleCancellation (s : Journal) (c : CaptureKey) (all : Bool) (reason : String) :
    Except CaptureJournalError Journal := do
  text reason metadataLimit
  let marked := s.setCapture c fun row =>
    {row with rawCancelReason := row.rawCancelReason.or (some reason)}
  let after : Journal := {marked with
    units := marked.units.updateAll fun k unit =>
      if all && k.capture = c && k.kind = .raw then cancelPending unit else unit}
  pure (after.complete c)

def abandon (s : Journal) (c : CaptureKey) (row : CaptureRow) (rejectionReceipt : Option String) :
    Except CaptureJournalError Journal := do
  let counted ← s.countBytes 0 row.sourceMetadataBytes
  pure (counted.setCapture c fun row =>
    {dropSourceMetadata row with
      state := .abandoned, rejectionReceipt := rejectionReceipt.or row.rejectionReceipt})

def settleRejected (s : Journal) (c : CaptureKey) (row : CaptureRow) (receiptJson : String) :
    Except CaptureJournalError Journal := do
  json receiptJson
  match row.rejectionReceipt with
  | some known => do
    failWhen (known ≠ receiptJson) (failure .conflict "Rejection receipt identity changed.")
    pure s
  | none => do
    failWhen (row.state ≠ .sealed)
      (failure .state "Only a sealed, unactivated capture can be rejected.")
    s.abandon c row (some receiptJson)

def settleAbandoned (s : Journal) (c : CaptureKey) (row : CaptureRow) :
    Except CaptureJournalError Journal :=
  if row.state = .abandoned then pure s
  else do
    failWhen (row.state ≠ .preparing)
      (failure .state "Only an unsealed source view can be abandoned locally.")
    s.abandon c row none

def settle (s : Journal) (owner : CaptureOwner) (id : String) (settlement : CaptureSettlement) :
    Except CaptureJournalError Journal := do
  let (key,scope) ← s.ownerScope owner
  let row ← s.capture ⟨key,id⟩
  match settlement with
  | .canonicalAcknowledged ordinal receiptJson => s.settleCanonical ⟨key,id⟩ row ordinal receiptJson
  | .activated receiptJson => s.settleActivated ⟨key,id⟩ scope row receiptJson
  | .rawAcknowledged ordinal receiptJson => s.settleRaw ⟨key,id⟩ row ordinal receiptJson
  | .rawUnitCanceled ordinal => s.settleUnitCanceled ⟨key,id⟩ row ordinal
  | .rawCancellationStarted reason => s.settleCancellation ⟨key,id⟩ false reason
  | .rawCanceled reason => s.settleCancellation ⟨key,id⟩ true reason
  | .rejected receiptJson => s.settleRejected ⟨key,id⟩ row receiptJson
  | .abandonUnsealed => s.settleAbandoned ⟨key,id⟩ row

structure CaptureCoverage where
  canonicalCaptureId : Option String
  observedCanonicalCaptureId : Option String
  observedRawCaptureId : Option String
  deriving DecidableEq

def coverage (s : Journal) (owner : CaptureOwner) : Except CaptureJournalError CaptureCoverage := do
  let (_,scope) ← s.ownerScope owner
  pure ⟨scope.canonicalCoverage,scope.observedCanonical,scope.observedRaw⟩

def terminal (state : CaptureState) : Bool := state = .completed || state = .abandoned

/-- The first terminal capture that still holds membership rows and is not one
of the three protected roots. -/
def prunable (s : Journal) (key : ScopeKey) (scope : ScopeRow) : Option String :=
  ((s.captures.rows.filterMap fun (c,row) =>
    if c.scope = key ∧ terminal row.state = true ∧ row.retainedRecords > 0 ∧
        some c.id ≠ scope.canonicalCoverage ∧ some c.id ≠ scope.observedCanonical ∧
        some c.id ≠ scope.observedRaw then some c.id else none).insertionSort (· ≤ ·)).head?

def kindText : CaptureRecordKind → String
  | .session => "session"
  | .thread => "thread"
  | .event => "event"
  | .usage => "usage"
  | .raw => "raw"

/-- The order of `ORDER BY kind,record_key`. -/
def memberBefore (a b : MemberKey) : Prop :=
  kindText a.record.kind < kindText b.record.kind ∨
    (kindText a.record.kind = kindText b.record.kind ∧ a.record.key ≤ b.record.key)

instance : DecidableRel memberBefore := fun a b => by
  unfold memberBefore
  infer_instance

def membersOf (s : Journal) (c : CaptureKey) : List MemberKey :=
  ((s.captureRecords.rows.map Prod.fst).filter fun m => m.capture = c).insertionSort memberBefore

def pruneRecords (s : Journal) (owner : CaptureOwner) (limit : Int) :
    Except CaptureJournalError (Nat × Journal) := do
  let (key,scope) ← s.ownerScope owner
  integer limit 1 100
  match s.prunable key scope with
  | none => pure (0,s)
  | some id => do
    let retained := ((s.captures.lookup ⟨key,id⟩).map CaptureRow.retainedRecords).getD 0
    let removed := (s.membersOf ⟨key,id⟩).take limit.toNat
    failWhen (s.metadataEntries < removed.length) storageFailure
    failWhen (removed.length < 1 ∨ removed.length > retained)
      (failure .corrupt "Retained source membership accounting is invalid.")
    pure (removed.length,
      {s with
        metadataEntries := s.metadataEntries-removed.length
        captureRecords := s.captureRecords.keep fun m _ => m ∉ removed
        captures := s.captures.modify ⟨key,id⟩ fun row =>
          {row with recordsRetired := true, retainedRecords := row.retainedRecords-removed.length}})

/-- Whether the body of a unit may be dropped. -/
def resolved (state : CaptureState) (activationReceipt : Option String) (kind : CaptureUnitKind)
    (disposition : UnitDisposition) : Bool :=
  state = .abandoned || (kind = .canonical && activationReceipt.isSome) ||
    (kind = .raw && disposition ≠ .pending)

def kindRank : CaptureUnitKind → Nat
  | .canonical => 0
  | .raw => 1

/-- The order of `ORDER BY kind,ordinal`. -/
def unitBefore (a b : UnitKey × UnitRow) : Prop :=
  kindRank a.1.kind < kindRank b.1.kind ∨
    (kindRank a.1.kind = kindRank b.1.kind ∧ a.1.ordinal ≤ b.1.ordinal)

instance : DecidableRel unitBefore := fun a b => by
  unfold unitBefore
  infer_instance

def eligible (s : Journal) (c : CaptureKey) (row : CaptureRow) (limit : Nat) :
    List (UnitKey × UnitRow) :=
  ((s.units.rows.filter fun (k,unit) => k.capture = c ∧ unit.body.isSome ∧
    resolved row.state row.activationReceipt k.kind unit.disposition).insertionSort unitBefore).take limit

def reclaim (s : Journal) (owner : CaptureOwner) (id : String) (limit : Int) :
    Except CaptureJournalError (Nat × Journal) := do
  let (key,_) ← s.ownerScope owner
  let row ← s.capture ⟨key,id⟩
  integer limit 1 32
  let units := s.eligible ⟨key,id⟩ row limit.toNat
  failWhen (units.any (fun (_,unit) => unit.byteCount < 1 || unit.byteCount > maxSafeInteger) = true)
    (failure .corrupt "Reclamation byte accounting is invalid.")
  let removed := (units.map fun (_,unit) => unit.byteCount).sum
  failWhen (removed > row.retainedBytes)
    (failure .corrupt "Reclamation exceeds retained capture bytes.")
  failWhen (removed > s.retainedBytes) storageFailure
  pure (units.length,
    {s with
      retainedBytes := s.retainedBytes-removed
      captures := s.captures.modify ⟨key,id⟩ fun row =>
        {row with retainedBytes := row.retainedBytes-removed}
      units := s.units.updateAll fun k unit =>
        if k ∈ units.map Prod.fst then {unit with body := none} else unit})

end Journal
end ATape.Capture
