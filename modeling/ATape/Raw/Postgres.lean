import ATape.Raw.Memory

/-! The raw manifest in the database: the rows of its three tables, the queries on them
and the transaction of a commit. A transaction that fails is rolled back. -/
namespace ATape.RawArchive
open Authorization Foundation Go SourceIdentity

structure RawObjectRow where
  projectID : String
  sessionID : String
  sourceName : String
  mediaType : String
  adapterID : String
  adapterVersion : String
  capturedAt : Time
  clientRedacted : Bool
  currentGeneration : Int
  generationCount : Int
  publicationHead : Option String
  rawTeamRevision : Option Int
  rawUserRevision : Option Int
deriving DecidableEq

structure RawChunkRow where
  objectID : String
  generation : Int
  ordinal : Nat
  byteOffset : Int
  sizeBytes : Nat
  adapterVersion : String
  capturedAt : Time
  final : Bool
  sha256 : String
  storageKey : String
deriving DecidableEq

structure RawTables where
  objects : Table String RawObjectRow
  generations : Table (String × Int) GenerationRecord
  chunks : Table String RawChunkRow

structure CapturePolicy where
  rawCapturePolicy : String
  rawCapturePreference : String
  teamRevision : Int
  userRevision : Int
deriving DecidableEq

structure PublicationOwner where
  sessionID : String
  installationID : String
  adapterID : String
  capturedByUserID : String
deriving DecidableEq

/-- What a transaction reads, under its locks, of the tables that others keep: the
session with its access, the policy, the session's publication source, and the owner
of each activated capture. -/
structure CommitFacts where
  session : Option SessionAccessFacts
  policy : Option CapturePolicy
  source : Option PublicationOwner
  activated : String → Option PublicationOwner

/-- A time as a `timestamptz` column keeps it. -/
def timestamptz (t : Time) : Time := t.utc.truncateMicrosecond

/-- Whether a `text` column takes a string, which may not have a zero byte. -/
def storable (text : String) : Bool := !text.toList.contains '\x00'

namespace RawTables

def new : RawTables := ⟨∅,∅,∅⟩

/-- `ResolveSessionAccessForShare` finds no session of a deleted project. -/
def resolveSessionAccess (session : Option SessionAccessFacts) (principal : Principal) (action : Action) :
    Except Failure SessionAccessFacts :=
  match session.filter fun access => access.projectState ≠ "deleted" with
  | none => do
    (enforce (evaluate ⟨principal,action,.of .conversation,.missing⟩)).mapError Failure.access
    .ok ⟨"","",.of .conversation,.missing⟩
  | some access => do
    (enforce (evaluate ⟨principal,action,{access.resource with kind := .conversation},access.membership⟩)).mapError
      Failure.access
    .ok access

/-- A session that is published takes raw material only with a proof that its capture
was activated, under the authority that holds now. -/
def publicationChunkAuthority (facts : CommitFacts) (principal : Principal) (chunk : ChunkRecord)
    (authority : Authority) : Except Failure Unit :=
  match facts.source with
  | none => failWhen chunk.publication.isSome (.validation "publication" "requires a publication-mode Session")
  | some source => do
    failWhen (source.capturedByUserID ≠ principal.userID || source.installationID ≠ chunk.installationID ||
      source.adapterID ≠ chunk.adapterID) (.notFound "session" chunk.sessionID)
    let proof ← present chunk.publication (.validation "publication"
      "publication-mode Raw requires activation proof and independent Raw authority")
    failWhen (chunk.generation ≠ 1)
      (.validation "generation" "publication Raw objects have one immutable generation")
    failWhen (proof.authority ≠ authority) .authorityChanged
    let activated ← present (facts.activated proof.head) (.validation "publication" "capture has not activated")
    failWhen (activated.sessionID ≠ chunk.sessionID || activated.installationID ≠ chunk.installationID ||
      activated.adapterID ≠ chunk.adapterID || activated.capturedByUserID ≠ principal.userID)
      (.notFound "session" chunk.sessionID)

def authorizeCommit (facts : CommitFacts) (principal : Principal) (chunk : ChunkRecord) :
    Except Failure SessionAccessFacts := do
  let access ← resolveSessionAccess facts.session principal .rawIngest
  failWhen (access.projectState ≠ "active") (.projectState access.projectState)
  let policy ← present facts.policy (.persist "lock Raw capture policy")
  failWhen (!captureEnabled policy.rawCapturePolicy policy.rawCapturePreference) .captureDisabled
  publicationChunkAuthority facts principal chunk
    (captureAuthority policy.rawCapturePolicy policy.teamRevision policy.userRevision)
  .ok access

/-- The row of a chunk with that of its object. -/
def getRawChunkForReplay (t : RawTables) (chunkID : String) : Option (RawChunkRow × RawObjectRow) := do
  let chunk ← t.chunks.lookup chunkID
  let object ← t.objects.lookup chunk.objectID
  some (chunk,object)

def getRawObjectForRead (t : RawTables) (id : String) : Option (RawObjectRow × GenerationRecord) := do
  let object ← t.objects.lookup id
  let generation ← t.generations.lookup (id,object.currentGeneration)
  some (object,generation)

def newObjectRow (chunk : ChunkRecord) : RawObjectRow where
  projectID := chunk.projectID
  sessionID := chunk.sessionID
  sourceName := chunk.sourceName
  mediaType := chunk.mediaType
  adapterID := chunk.adapterID
  adapterVersion := chunk.adapterVersion
  capturedAt := timestamptz chunk.capturedAt
  clientRedacted := chunk.clientRedacted
  currentGeneration := 1
  generationCount := 1
  publicationHead := none
  rawTeamRevision := none
  rawUserRevision := none

def newChunkRow (chunk : ChunkRecord) (ordinal : Nat) : RawChunkRow where
  objectID := chunk.objectID
  generation := chunk.generation
  ordinal := ordinal
  byteOffset := chunk.offset
  sizeBytes := chunk.sizeBytes
  adapterVersion := chunk.adapterVersion
  capturedAt := timestamptz chunk.capturedAt
  final := chunk.final
  sha256 := chunk.sha256
  storageKey := chunk.storageKey

def insertRawObject (t : RawTables) (chunk : ChunkRecord) : Except Failure RawTables := do
  failWhen (!storable chunk.sourceName || !storable chunk.mediaType || !storable chunk.adapterID ||
    !storable chunk.adapterVersion || !chunk.clientRedacted) (.persist "insert object")
  .ok {t with objects := t.objects.insert chunk.objectID (newObjectRow chunk)}

def insertRawGeneration (t : RawTables) (objectID : String) (generation : Int) (operation : String) :
    Except Failure RawTables := do
  failWhen ((t.generations.lookup (objectID,generation)).isSome || generation < 1) (.persist operation)
  .ok {t with generations := t.generations.insert (objectID,generation) ⟨generation,0,0,false⟩}

def bindRawPublicationObject (t : RawTables) (objectID : String) (proof : PublicationProof) : RawTables :=
  {t with
    objects := t.objects.modify objectID fun row =>
      { row with
        publicationHead := some proof.head
        rawTeamRevision := some proof.authority.teamRevision
        rawUserRevision := some proof.authority.userRevision }}

def insertRawChunk (t : RawTables) (chunk : ChunkRecord) (ordinal : Nat) : Except Failure RawTables := do
  failWhen ((t.chunks.lookup chunk.chunkID).isSome || chunk.offset < 0 || maxChunkBytes < chunk.sizeBytes ||
    !storable chunk.adapterVersion || chunk.sha256.toList.length ≠ 64) (.persist "insert chunk")
  .ok {t with chunks := t.chunks.insert chunk.chunkID (newChunkRow chunk ordinal)}

def commitRawGeneration (t : RawTables) (objectID : String) (generation : GenerationRecord) : RawTables :=
  {t with generations := t.generations.modify (objectID,generation.generation) fun _ => generation}

/-- The time of an object never goes back. -/
def commitRawObject (t : RawTables) (object : ObjectRecord) : RawTables :=
  {t with
    objects := t.objects.modify object.objectID fun row =>
      { row with
        adapterVersion := object.adapterVersion
        capturedAt := if (timestamptz object.capturedAt).after row.capturedAt then timestamptz object.capturedAt
          else row.capturedAt
        currentGeneration := object.currentGeneration
        generationCount := object.generationCount }}

def rawObjectForUpdate (id : String) (row : RawObjectRow) : ObjectRecord where
  objectID := id
  projectID := row.projectID
  sessionID := row.sessionID
  sourceName := row.sourceName
  mediaType := row.mediaType
  adapterID := row.adapterID
  adapterVersion := row.adapterVersion
  capturedAt := row.capturedAt
  createdAt := .zero
  clientRedacted := row.clientRedacted
  currentGeneration := row.currentGeneration
  generationCount := row.generationCount
  currentSizeBytes := 0
  currentFinalized := false

def rawObjectForRead (id : String) (row : RawObjectRow) (current : GenerationRecord) : ObjectRecord :=
  { rawObjectForUpdate id row with currentSizeBytes := current.sizeBytes, currentFinalized := current.finalized }

def sameRawChunk (chunkID : String) (row : RawChunkRow) (object : RawObjectRow) (chunk : ChunkRecord) : Bool :=
  chunkID = chunk.chunkID && row.objectID = chunk.objectID && object.projectID = chunk.projectID &&
    object.sessionID = chunk.sessionID && row.generation = chunk.generation && row.byteOffset = chunk.offset &&
    row.sizeBytes = chunk.sizeBytes && object.sourceName = chunk.sourceName &&
    object.mediaType = chunk.mediaType && object.adapterID = chunk.adapterID &&
    row.adapterVersion = chunk.adapterVersion && row.capturedAt.equal chunk.capturedAt &&
    object.clientRedacted = chunk.clientRedacted && row.final = chunk.final && row.sha256 = chunk.sha256 &&
    row.storageKey = chunk.storageKey

def sameRawPublication (object : RawObjectRow) (proof : Option PublicationProof) : Bool :=
  match proof with
  | none => object.publicationHead.isNone && object.rawTeamRevision.isNone && object.rawUserRevision.isNone
  | some proof => object.publicationHead = some proof.head &&
      object.rawTeamRevision = some proof.authority.teamRevision &&
      object.rawUserRevision = some proof.authority.userRevision

def readRawCommit (t : RawTables) (objectID : String) (generation : Int) :
    Except Failure (ObjectRecord × GenerationRecord) := do
  let (object,current) ← present (getRawObjectForRead t objectID) (.persist "read replay object")
  let stored ← present (t.generations.lookup (objectID,generation)) (.persist "read replay generation")
  .ok (rawObjectForRead objectID object current,stored)

/-- A new object in its first generation, bound to the proof if there is one. -/
def createObject (t : RawTables) (chunk : ChunkRecord) : Except Failure (RawTables × ObjectRecord) := do
  failWhen (chunk.generation ≠ 1 || chunk.offset ≠ 0)
    (.conflict chunk.objectID "a new Raw object must start at generation 1 offset 0")
  let t ← t.insertRawObject chunk
  let t ← t.insertRawGeneration chunk.objectID 1 "insert first generation"
  let bound := match chunk.publication with
    | some proof => t.bindRawPublicationObject chunk.objectID proof
    | none => t
  .ok (bound,
    { objectID := chunk.objectID
      projectID := chunk.projectID
      sessionID := chunk.sessionID
      sourceName := chunk.sourceName
      mediaType := chunk.mediaType
      adapterID := chunk.adapterID
      adapterVersion := chunk.adapterVersion
      capturedAt := chunk.capturedAt
      createdAt := .zero
      clientRedacted := chunk.clientRedacted
      currentGeneration := 1
      generationCount := 1
      currentSizeBytes := 0
      currentFinalized := false })

def continueObject (t : RawTables) (row : RawObjectRow) (chunk : ChunkRecord) :
    Except Failure (RawTables × ObjectRecord) := do
  let object := rawObjectForUpdate chunk.objectID row
  failWhen (!MemoryStore.sameObjectIdentity object chunk || !sameRawPublication row chunk.publication)
    (.conflict chunk.objectID "Raw object project, session, source, media type, and Adapter are immutable")
  failWhen (chunk.generation < object.currentGeneration)
    (.conflict chunk.objectID "cannot append to an older generation")
  failWhen (object.currentGeneration+1 < chunk.generation)
    (.conflict chunk.objectID "cannot skip a generation")
  failWhen (chunk.generation = object.currentGeneration+1 && chunk.offset ≠ 0)
    (.conflict chunk.objectID "a new generation must start at offset 0")
  if chunk.generation = object.currentGeneration+1 then
    let t ← t.insertRawGeneration chunk.objectID chunk.generation "insert generation"
    .ok (t,{object with currentGeneration := chunk.generation, generationCount := object.generationCount+1})
  else .ok (t,object)

def openObject (t : RawTables) (chunk : ChunkRecord) : Except Failure (RawTables × ObjectRecord) :=
  match t.objects.lookup chunk.objectID with
  | none => t.createObject chunk
  | some row => t.continueObject row chunk

/-- The chunk at the end of its generation, and the object as the caller gets it. -/
def appendRow (t : RawTables) (object : ObjectRecord) (chunk : ChunkRecord) :
    Except Failure (RawTables × CommitResult) := do
  let generation ← present (t.generations.lookup (chunk.objectID,chunk.generation)) (.persist "read generation")
  failWhen generation.finalized (.conflict chunk.objectID "generation is finalized")
  failWhen (chunk.offset ≠ generation.sizeBytes)
    (.conflict chunk.objectID "append offset does not match the generation size")
  let t ← t.insertRawChunk chunk (generation.chunkCount+1)
  let generation : GenerationRecord := {generation with
    sizeBytes := generation.sizeBytes+chunk.sizeBytes
    chunkCount := generation.chunkCount+1
    finalized := chunk.final}
  let object := {object with
    adapterVersion := chunk.adapterVersion
    capturedAt := if chunk.capturedAt.after object.capturedAt then chunk.capturedAt else object.capturedAt
    currentSizeBytes := generation.sizeBytes
    currentFinalized := generation.finalized}
  .ok ((t.commitRawGeneration chunk.objectID generation).commitRawObject object,⟨object,generation,false⟩)

/-- The part of a commit that is under the locks of the chunk and its object. -/
def commitLocked (t : RawTables) (chunk : ChunkRecord) : Except Failure (RawTables × CommitResult) :=
  match t.getRawChunkForReplay chunk.chunkID with
  | some (row,object) => do
    failWhen (!sameRawChunk chunk.chunkID row object chunk || !sameRawPublication object chunk.publication)
      (.conflict chunk.chunkID "chunkId was reused with different content or metadata")
    let (object,generation) ← t.readRawCommit row.objectID row.generation
    .ok (t,⟨object,generation,true⟩)
  | none => do
    let (t,object) ← t.openObject chunk
    t.appendRow object chunk

/-- `CommitChunk`. -/
def commitChunk (t : RawTables) (facts : CommitFacts) (principal : Principal) (chunk : ChunkRecord) :
    RawTables × Except Failure CommitResult :=
  match authorizeCommit facts principal chunk with
  | .error failure => (t,.error failure)
  | .ok access =>
    match t.commitLocked {chunk with projectID := access.projectID} with
    | .error failure => (t,.error failure)
    | .ok (t',result) => (t',.ok result)

end RawTables
end ATape.RawArchive
