import ATape.Authorization
import ATape.Foundation.Outcome
import ATape.Go.Encoding
import ATape.Go.Time
import ATape.SourceIdentity

/-! What the raw archive accepts: a chunk of redacted source material, the record made
of it and the receipt for it. -/
namespace ATape.RawArchive
open Authorization Foundation Go SourceIdentity

def protocolVersion : String := "atape.raw.v1"

def publicationProtocol : String := "atape.raw-publication.v1"

def maxChunkBytes : Nat := 3145728

/-- Fences raw uploads independently of the head of the publication. -/
structure Authority where
  protocol : String
  teamRevision : Int
  userRevision : Int
deriving DecidableEq

structure PublicationProof where
  head : String
  authority : Authority
deriving DecidableEq

/-- A forced policy of the team ignores personal changes, and their revision. -/
def captureAuthority (teamPolicy : String) (teamRevision userRevision : Int) : Authority :=
  ⟨publicationProtocol,teamRevision,if teamPolicy = "force" then 0 else userRevision⟩

def captureEnabled (teamPolicy userPreference : String) : Bool :=
  teamPolicy = "force" || (teamPolicy = "personal" && userPreference = "enable")

structure UploadChunk where
  protocolVersion : String
  sourceChunkID : String
  sourceObjectID : String
  sessionID : String
  installationID : String
  generation : Int
  offset : Int
  sourceName : String
  mediaType : String
  adapterID : String
  adapterVersion : String
  capturedAt : String
  clientRedacted : Bool
  final : Bool
  contentBase64 : String
  sha256 : String
  publication : Option PublicationProof
deriving DecidableEq

structure ChunkRecord where
  chunkID : String
  objectID : String
  sourceChunkID : String
  sourceObjectID : String
  projectID : String
  sessionID : String
  capturedByUserID : String
  installationID : String
  generation : Int
  ordinal : Nat
  offset : Int
  sizeBytes : Nat
  sourceName : String
  mediaType : String
  adapterID : String
  adapterVersion : String
  capturedAt : Time
  clientRedacted : Bool
  final : Bool
  sha256 : String
  storageKey : String
  publication : Option PublicationProof
deriving DecidableEq

structure GenerationRecord where
  generation : Int
  sizeBytes : Nat
  chunkCount : Nat
  finalized : Bool
deriving DecidableEq

structure ObjectRecord where
  objectID : String
  projectID : String
  sessionID : String
  sourceName : String
  mediaType : String
  adapterID : String
  adapterVersion : String
  capturedAt : Time
  createdAt : Time
  clientRedacted : Bool
  currentGeneration : Int
  generationCount : Int
  currentSizeBytes : Nat
  currentFinalized : Bool
deriving DecidableEq

structure CommitResult where
  object : ObjectRecord
  generation : GenerationRecord
  replayed : Bool
deriving DecidableEq

structure ContentPlan where
  object : ObjectRecord
  generation : GenerationRecord
  chunks : List ChunkRecord
  hasMore : Bool
deriving DecidableEq

/-- The errors of the archive and of its stores. `persist` is a failure of the
database, and `nilPointer` the use of a missing entry of a map. -/
inductive Failure
  | validation (field reason : String)
  | conflict (identity reason : String)
  | projectState (state : String)
  | notFound (resource id : String)
  | unavailable (operation : String)
  | captureDisabled
  | authorityChanged
  | access (outcome : Outcome)
  | persist (operation : String)
  | nilPointer
deriving DecidableEq

structure AppendResult where
  objectID : String
  generation : Int
  sizeBytes : Nat
  finalized : Bool
  replayed : Bool
deriving DecidableEq

structure ChunkIdentity where
  sessionID : String
  installationID : String
  adapterID : String
  sourceObjectID : String
  sourceChunkID : String
deriving DecidableEq

/-- One accepted write, and never the current size of a generation that other
chunks may have advanced since. -/
structure ChunkReceipt where
  identity : ChunkIdentity
  protocolVersion : String
  sourceName : String
  mediaType : String
  adapterVersion : String
  capturedAt : String
  clientRedacted : Bool
  objectID : String
  generation : Int
  offset : Int
  sizeBytes : Nat
  sha256 : String
  final : Bool
  publication : Option PublicationProof
deriving DecidableEq

def receiptForChunk (record : ChunkRecord) : ChunkReceipt where
  identity := ⟨record.sessionID,record.installationID,record.adapterID,record.sourceObjectID,record.sourceChunkID⟩
  protocolVersion := protocolVersion
  sourceName := record.sourceName
  mediaType := record.mediaType
  adapterVersion := record.adapterVersion
  capturedAt := String.ofList record.capturedAt.utc.formatRFC3339
  clientRedacted := record.clientRedacted
  objectID := record.objectID
  generation := record.generation
  offset := record.offset
  sizeBytes := record.sizeBytes
  sha256 := record.sha256
  final := record.final
  publication := record.publication

/-- A credential that is not allowed to see a resource is told that there is none. -/
def concealedAsNotFound (failure : Failure) (resource id : String) : Failure :=
  match failure with
  | .access ⟨.conceal,_⟩ => .notFound resource id
  | _ => failure

def publicationField (upload : UploadChunk) : Except Failure Unit :=
  match upload.publication with
  | some proof =>
    failWhen (!isCanonicalUUID proof.head || proof.authority.protocol ≠ publicationProtocol ||
        proof.authority.teamRevision < 1 || proof.authority.userRevision < 0 || upload.generation ≠ 1)
      (.validation "publication"
        "requires a canonical activation identity, Raw authority and one immutable generation")
  | none => .ok ()

def required (field value : String) : Except Failure Unit := do
  failWhen (trimSpace value = "") (.validation field "must not be empty")
  failWhen (512 < len value) (.validation field "is too long")

def requiredFields (upload : UploadChunk) : List (String × String) :=
  [("sourceChunkId",upload.sourceChunkID),("sourceObjectId",upload.sourceObjectID),
    ("sessionId",upload.sessionID),("installationId",upload.installationID),
    ("sourceName",upload.sourceName),("mediaType",upload.mediaType),("adapterId",upload.adapterID),
    ("adapterVersion",upload.adapterVersion),("capturedAt",upload.capturedAt)]

/-- A digest is in lower case, as its lower-case text has to be the digest itself. -/
def lowerDigest (value : String) : Bool := value.toList.length = 64 && value.toList.all isLowerHex

/-- The bytes of an upload, whose SHA-256 is `digest`. -/
def uploadContent (digest : Bytes → String) (upload : UploadChunk) : Except Failure Bytes := do
  failWhen (encodedLen maxChunkBytes < len upload.contentBase64)
    (.validation "contentBase64" "decoded chunk exceeds 3 MiB")
  let content ← present (decodeBase64 upload.contentBase64) (.validation "contentBase64" "must be canonical Base64")
  failWhen (maxChunkBytes < content.length) (.validation "contentBase64" "decoded chunk exceeds 3 MiB")
  failWhen (content.length = 0 && !upload.final)
    (.validation "contentBase64" "must not be empty unless finalizing a generation")
  failWhen (!lowerDigest upload.sha256) (.validation "sha256" "must be a lowercase SHA-256 digest")
  failWhen (digest content ≠ upload.sha256) (.validation "sha256" "does not match decoded content")
  pure content

def uploadTime (upload : UploadChunk) : Except Failure Time := do
  let capturedAt ← present (parseRFC3339 upload.capturedAt) (.validation "capturedAt" "must be RFC3339")
  failWhen (upload.publication.isSome && capturedAt.nanos%1000 ≠ 0)
    (.validation "capturedAt" "publication receipt timestamps require microsecond precision or coarser")
  pure capturedAt

/-- The record of an upload; its project is not known yet, and its ordinal is given
by the store. -/
def recordOf (h : Hash) (principal : Principal) (upload : UploadChunk) (size : Nat) (capturedAt : Time) :
    ChunkRecord :=
  let objectID := rawObjectID h principal.userID upload.sessionID upload.installationID upload.adapterID
    upload.sourceObjectID
  { chunkID := rawChunkID h objectID upload.sourceChunkID
    objectID := objectID
    sourceChunkID := upload.sourceChunkID
    sourceObjectID := upload.sourceObjectID
    projectID := ""
    sessionID := upload.sessionID
    capturedByUserID := principal.userID
    installationID := upload.installationID
    generation := upload.generation
    ordinal := 0
    offset := upload.offset
    sizeBytes := size
    sourceName := upload.sourceName
    mediaType := upload.mediaType
    adapterID := upload.adapterID
    adapterVersion := upload.adapterVersion
    capturedAt := capturedAt.utc
    clientRedacted := upload.clientRedacted
    final := upload.final
    sha256 := upload.sha256
    storageKey := "sha256/"++String.ofList (upload.sha256.toList.take 2)++"/"++upload.sha256
    publication := upload.publication }

/-- The checks of an upload, in their order, with its bytes and its time. -/
def checkUpload (digest : Bytes → String) (upload : UploadChunk) : Except Failure (Bytes × Time) := do
  publicationField upload
  failWhen (upload.protocolVersion ≠ protocolVersion)
    (.validation "protocolVersion" ("must be "++protocolVersion))
  (requiredFields upload).forM fun item => required item.1 item.2
  failWhen (upload.generation < 1) (.validation "generation" "must be one or greater")
  failWhen (upload.offset < 0) (.validation "offset" "must be zero or greater")
  failWhen (!upload.clientRedacted)
    (.validation "clientRedacted" "must acknowledge client-side secret redaction")
  let content ← uploadContent digest upload
  let capturedAt ← uploadTime upload
  pure (content,capturedAt)

def validateUpload (h : Hash) (digest : Bytes → String) (principal : Principal) (upload : UploadChunk) :
    Except Failure (ChunkRecord × Bytes) := do
  let (content,capturedAt) ← checkUpload digest upload
  pure (recordOf h principal upload content.length capturedAt,content)

theorem checkUpload_ok {digest : Bytes → String} {upload : UploadChunk} {content : Bytes} {capturedAt : Time}
    (ok : checkUpload digest upload = .ok (content,capturedAt)) :
    parseRFC3339 upload.capturedAt = some capturedAt ∧
      (upload.publication.isSome → capturedAt.nanos%1000 = 0) ∧
      decodeBase64 upload.contentBase64 = some content ∧ content.length ≤ maxChunkBytes ∧
      digest content = upload.sha256 ∧ upload.sha256.toList.length = 64 ∧ upload.clientRedacted = true ∧
      1 ≤ upload.generation ∧ 0 ≤ upload.offset ∧ (content = [] → upload.final = true) := by
  unfold checkUpload uploadContent uploadTime lowerDigest at ok
  simp only [bind_ok,failWhen_ok,present_ok,pure_ok,exists_const,Prod.mk.injEq,Bool.and_eq_true,
    decide_eq_true_eq,Bool.not_eq_true',Bool.not_eq_false] at ok
  obtain ⟨_,_,_,_,_,generation,offset,redacted,bytes,⟨_,_,decoded,short,filled,lower,digested,same⟩,moment,
    ⟨_,parsed,precise,same'⟩,rfl,rfl⟩ := ok
  subst same same'
  refine ⟨parsed,fun some_ => not_not.mp fun coarse => precise ⟨some_,coarse⟩,decoded,by omega,
    not_not.mp digested,lower.1,redacted,by omega,by omega,?_⟩
  intro empty
  subst empty
  by_contra open_
  exact filled ⟨rfl,by simpa using open_⟩

theorem validateUpload_ok {h : Hash} {digest : Bytes → String} {principal : Principal} {upload : UploadChunk}
    {record : ChunkRecord} {content : Bytes} (ok : validateUpload h digest principal upload = .ok (record,content)) :
    ∃ capturedAt, checkUpload digest upload = .ok (content,capturedAt) ∧
      record = recordOf h principal upload content.length capturedAt := by
  unfold validateUpload at ok
  simp only [bind_ok,pure_ok,Prod.mk.injEq] at ok
  obtain ⟨⟨_,capturedAt⟩,checked,rfl,rfl⟩ := ok
  exact ⟨capturedAt,checked,rfl⟩

end ATape.RawArchive
