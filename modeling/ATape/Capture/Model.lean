import ATape.Foundation.Json
import ATape.Foundation.Outcome
import ATape.Foundation.Table

/-! Rows and inputs of the capture journal. A SQL table is a keyed table under
its primary key; the scope key, which the source stores as the JSON text of
three strings, is the triple of these strings, and a stored seal or Raw
reference is the value whose JSON text the source stores. The account-wide
counters of the binding row, kept by triggers, are fields of the journal. -/
namespace ATape.Capture
open Foundation

instance (priority := 1100) byteArrayEq : DecidableEq ByteArray := ByteArray.instDecidableEq

inductive Reason
  | invalid | binding | missing | conflict | state | capacity | corrupt | io
  deriving DecidableEq

structure CaptureJournalError where
  reason : Reason
  message : String
  deriving DecidableEq

def failure (reason : Reason) (message : String) : CaptureJournalError := ⟨reason,message⟩

def maxSafeInteger : Nat := 9007199254740991

/-- Limits that `openCaptureJournal` accepts. -/
structure CaptureJournalLimits where
  unitBytes : Nat
  targetBytes : Nat
  pendingBytes : Nat
  unitsPerTarget : Nat
  recordsPerTarget : Option Nat
  metadataEntries : Nat
  unitBounds : 1 ≤ unitBytes ∧ unitBytes ≤ 16*1024*1024
  targetBounds : unitBytes ≤ targetBytes ∧ targetBytes ≤ maxSafeInteger
  pendingBounds : targetBytes ≤ pendingBytes ∧ pendingBytes ≤ maxSafeInteger
  unitsBounds : 1 ≤ unitsPerTarget ∧ unitsPerTarget ≤ 1000000
  entriesBounds : 1 ≤ metadataEntries ∧ metadataEntries ≤ 1000000
  recordsBounds : ∀ n, recordsPerTarget = some n → 1 ≤ n ∧ n ≤ 1000000

/-- What an open journal is configured with: its limits and SHA-256 as
lower-case hexadecimal text. -/
structure Settings where
  limits : CaptureJournalLimits
  digest : ByteArray → String

structure CaptureScope where
  projectId : String
  adapterId : String
  sourceSessionId : String
  originKey : String
  deriving DecidableEq

structure CaptureOwner where
  scope : CaptureScope
  epoch : Nat
  deriving DecidableEq

structure CaptureClaim where
  owner : CaptureOwner
  checkpoint : Option String
  deriving DecidableEq

structure CaptureLegacyMigration where
  checkpointJson : String
  checkpointDigest : String
  deriving DecidableEq

inductive CaptureUnitKind
  | canonical | raw
  deriving DecidableEq

inductive CapturePurpose
  | publication | rawObservation
  deriving DecidableEq

inductive CaptureRecordKind
  | session | thread | event | usage | raw
  deriving DecidableEq

inductive CaptureState
  | preparing | sealed | activated | completed | abandoned
  deriving DecidableEq

inductive UnitDisposition
  | pending | acknowledged | canceled
  deriving DecidableEq

inductive Unavailable
  | limit | redaction
  deriving DecidableEq

inductive AdapterRawReference
  | unavailable (reason : String)
  | object (sourceObjectId : String) (fragment : Option String)
  deriving DecidableEq

def AdapterRawReference.isObject : AdapterRawReference → Bool
  | .object _ _ => true
  | .unavailable _ => false

structure CaptureRecordKey where
  kind : CaptureRecordKind
  key : String
  deriving DecidableEq

structure CaptureRecordInput extends CaptureRecordKey where
  fingerprint : String
  projectionVersion : String
  rawReference : Option AdapterRawReference
  deriving DecidableEq

structure CaptureRecordVersion extends CaptureRecordInput where
  revision : Nat
  deriving DecidableEq

inductive CaptureRecordBinding
  | unit (ordinal : Int) (captureId : Option String)
  | unavailable (reason : Unavailable)
  deriving DecidableEq

structure RecordCounts where
  session : Int
  thread : Int
  event : Int
  usage : Int
  deriving DecidableEq

structure RawManifest where
  records : Int
  scopeComplete : Bool
  admission : Option String
  deriving DecidableEq

structure CaptureRecordManifest where
  canonical : Option RecordCounts
  raw : Option RawManifest
  deriving DecidableEq

structure CaptureSeal where
  records : Option CaptureRecordManifest
  canonicalUnits : Int
  rawUnits : Int
  nextCheckpoint : String
  manifestJson : String
  deriving DecidableEq

structure CaptureReservation where
  trackRecords : Option Bool
  purpose : Option CapturePurpose
  id : String
  expectedCheckpoint : Option String
  beginJson : String
  rawEnabled : Bool
  deriving DecidableEq

structure PreparedUnit where
  kind : CaptureUnitKind
  ordinal : Int
  bytes : ByteArray
  deriving DecidableEq

inductive CaptureSettlement
  | activated (receiptJson : String)
  | canonicalAcknowledged (ordinal : Int) (receiptJson : String)
  | rawAcknowledged (ordinal : Int) (receiptJson : String)
  | rawCancellationStarted (reason : String)
  | rawUnitCanceled (ordinal : Int)
  | rawCanceled (reason : String)
  | abandonUnsealed
  | rejected (receiptJson : String)
  deriving DecidableEq

structure ScopeKey where
  projectId : String
  adapterId : String
  sourceSessionId : String
  deriving DecidableEq

structure CaptureKey where
  scope : ScopeKey
  id : String
  deriving DecidableEq

structure UnitKey where
  capture : CaptureKey
  kind : CaptureUnitKind
  ordinal : Nat
  deriving DecidableEq

/-- Primary key of `source_record_versions`. -/
structure VersionKey where
  scope : ScopeKey
  record : CaptureRecordKey
  deriving DecidableEq

/-- Primary key of `capture_records`. -/
structure MemberKey where
  capture : CaptureKey
  record : CaptureRecordKey
  deriving DecidableEq

structure MigrationKey where
  projectId : String
  adapterId : String
  checkpointDigest : String
  deriving DecidableEq

structure ScopeRow where
  originKey : String
  epoch : Nat
  checkpoint : Option String
  recordsInitialized : Bool
  canonicalCoverage : Option String
  observedCanonical : Option String
  observedRaw : Option String
  revisionFloor : Nat
  adoptionMetadata : Option String
  adoptionMetadataSha : Option String
  adoptionMetadataBytes : Nat
  deriving DecidableEq

structure CaptureRow where
  expectedCheckpoint : Option String
  beginJson : String
  rawEnabled : Bool
  state : CaptureState
  sealJson : Option CaptureSeal
  activationReceipt : Option String
  rawCancelReason : Option String
  rejectionReceipt : Option String
  retainedBytes : Nat
  purpose : CapturePurpose
  trackRecords : Bool
  recordCount : Nat
  recordsRetired : Bool
  retainedRecords : Nat
  sourceMetadata : Option String
  sourceMetadataSha : Option String
  sourceMetadataBytes : Nat
  deriving DecidableEq

structure UnitRow where
  byteCount : Nat
  digest : String
  body : Option ByteArray
  disposition : UnitDisposition
  receiptJson : Option String
  deriving DecidableEq

structure VersionRow where
  fingerprint : String
  projectionVersion : String
  revision : Nat
  rawReference : Option AdapterRawReference
  versionCapture : String
  comparisonCapture : Option String
  deriving DecidableEq

structure RecordRow where
  fingerprint : String
  projectionVersion : String
  revision : Nat
  rawReference : Option AdapterRawReference
  versionCapture : String
  unitCapture : Option String
  unitKind : Option CaptureUnitKind
  unitOrdinal : Option Nat
  unavailableReason : Option Unavailable
  deriving DecidableEq

/-- The content a binding names: its capture, channel and ordinal, or the gap
that stands for it. -/
structure Content where
  unitCapture : Option String
  unitKind : Option CaptureUnitKind
  unitOrdinal : Option Nat
  unavailableReason : Option Unavailable
  deriving DecidableEq

def RecordRow.content (row : RecordRow) : Content :=
  ⟨row.unitCapture,row.unitKind,row.unitOrdinal,row.unavailableReason⟩

structure MigrationRow where
  checkpointJson : String
  checkpointSha : String
  byteCount : Nat
  deriving DecidableEq

structure Journal where
  retainedBytes : Nat
  metadataEntries : Nat
  metadataBytes : Nat
  scopes : Table ScopeKey ScopeRow
  captures : Table CaptureKey CaptureRow
  units : Table UnitKey UnitRow
  sourceRecordVersions : Table VersionKey VersionRow
  captureRecords : Table MemberKey RecordRow
  legacyMigrations : Table MigrationKey MigrationRow

/-- The journal that mode `create` makes. -/
def Journal.created : Journal := ⟨0,0,0,∅,∅,∅,∅,∅,∅⟩

def metadataLimit : Nat := 32*1024

def sourceMetadataLimit : Nat := 2*1024*1024

def text (value : String) (maximum : Nat) : Except CaptureJournalError Unit :=
  failWhen (value = "" ∨ value.utf8ByteSize > maximum ∨ '\x00' ∈ value.toList)
    (failure .invalid "Journal text exceeds its declared bounds.")

def optionalText (value : Option String) (maximum : Nat) : Except CaptureJournalError Unit :=
  match value with
  | some value => text value maximum
  | none => pure ()

def integer (value min max : Int) : Except CaptureJournalError Unit :=
  failWhen (value.natAbs > maxSafeInteger ∨ value < min ∨ value > max)
    (failure .invalid "Journal count is outside its declared bounds.")

def json (value : String) : Except CaptureJournalError Unit := do
  text value metadataLimit
  failWhen (Json.valid value = false) (failure .invalid "Journal metadata must be JSON.")

def sourceJson (value : String) : Except CaptureJournalError Unit := do
  text value sourceMetadataLimit
  failWhen (Json.valid value = false) (failure .invalid "Source metadata must be JSON.")

def hexadecimal (c : Char) : Bool := ('0' ≤ c && c ≤ '9') || ('a' ≤ c && c ≤ 'f')

/-- The pattern `^[a-f0-9]{64}$`. -/
def isSha256 (value : String) : Bool := value.toList.length = 64 && value.toList.all hexadecimal

def scopeKey (scope : CaptureScope) : Except CaptureJournalError ScopeKey := do
  text scope.projectId 500
  text scope.adapterId 500
  text scope.sourceSessionId 500
  pure ⟨scope.projectId,scope.adapterId,scope.sourceSessionId⟩

def reference : Option AdapterRawReference → Except CaptureJournalError Unit
  | none => pure ()
  | some (.unavailable reason) => text reason 500
  | some (.object sourceObjectId fragment) => do
    text sourceObjectId 500
    optionalText fragment 500

end ATape.Capture
