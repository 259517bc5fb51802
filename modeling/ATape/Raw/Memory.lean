import ATape.Foundation.Table
import ATape.Raw.Archive

/-! The raw manifest in memory: the objects with their generations and the chunks of
each, and every chunk by its identifier. -/
namespace ATape.RawArchive
open Authorization Foundation Go SourceIdentity

structure GenerationState where
  record : GenerationRecord
  chunks : List ChunkRecord
deriving DecidableEq

structure ObjectState where
  record : ObjectRecord
  generations : Table Int GenerationState

/-- The object in its next generation, which has no chunk yet. -/
def ObjectState.advance (state : ObjectState) (generation : Int) : ObjectState where
  record :=
    { state.record with
      currentGeneration := generation
      generationCount := state.record.generationCount+1
      currentSizeBytes := 0
      currentFinalized := false }
  generations := state.generations.insert generation ⟨⟨generation,0,0,false⟩,[]⟩

/-- The chunk at the end of a generation. -/
def GenerationState.extend (generation : GenerationState) (chunk : ChunkRecord) : GenerationState where
  record :=
    { generation.record with
      chunkCount := generation.record.chunkCount+1
      sizeBytes := generation.record.sizeBytes+chunk.sizeBytes
      finalized := chunk.final }
  chunks := generation.chunks++[{chunk with ordinal := generation.record.chunkCount+1}]

def ObjectState.extend (state : ObjectState) (generation : GenerationState) (chunk : ChunkRecord) :
    ObjectState where
  record :=
    { state.record with
      adapterVersion := chunk.adapterVersion
      capturedAt := if chunk.capturedAt.after state.record.capturedAt then chunk.capturedAt
        else state.record.capturedAt
      currentSizeBytes := (generation.extend chunk).record.sizeBytes
      currentFinalized := (generation.extend chunk).record.finalized }
  generations := state.generations.insert chunk.generation (generation.extend chunk)

structure SessionAccessFacts where
  projectID : String
  projectState : String
  resource : ResourceFacts
  membership : MembershipFacts
deriving DecidableEq

structure MemoryStore where
  objects : Table String ObjectState
  chunks : Table String Bytes
  chunkIDs : Table String ChunkRecord

namespace MemoryStore

def new : MemoryStore := ⟨∅,∅,∅⟩

def put (s : MemoryStore) (key : String) (content : Bytes) : Except Failure MemoryStore :=
  match s.chunks.lookup key with
  | some existing =>
    if existing ≠ content then .error (.conflict key "immutable storage key has different bytes") else .ok s
  | none => .ok {s with chunks := s.chunks.insert key content}

def read (s : MemoryStore) (key : String) : Except Failure Bytes :=
  present (s.chunks.lookup key) (.notFound "chunk" key)

/-- What the caller may do with a session, whose facts are those that the canonical
store has now: none when there is no such session, or no canonical store. -/
def authorizeSession (found : Option SessionAccessFacts) (principal : Principal) (action : Action) :
    Except Failure SessionAccessFacts :=
  let kind := if action = .rawObjectRead then ResourceKind.rawObject else .conversation
  let enforced (input : Input) : Except Failure Unit := (enforce (evaluate input)).mapError Failure.access
  match found.filter fun access => access.projectState ≠ "deleted" with
  | none => do
    enforced ⟨principal,action,.of kind,.missing⟩
    .ok ⟨"","",.of kind,.missing⟩
  | some access => do
    enforced ⟨principal,action,{access.resource with kind := kind},access.membership⟩
    .ok access

def authorizeChunk (found : Option SessionAccessFacts) (principal : Principal) (chunk : ChunkRecord) :
    Except Failure SessionAccessFacts := do
  failWhen chunk.publication.isSome (.unavailable "publication Raw in demo mode")
  let access ← authorizeSession found principal .rawIngest
  failWhen (access.projectState ≠ "active") (.projectState access.projectState)
  .ok access

def sameObjectIdentity (object : ObjectRecord) (chunk : ChunkRecord) : Bool :=
  object.projectID = chunk.projectID && object.sessionID = chunk.sessionID &&
    object.sourceName = chunk.sourceName && object.mediaType = chunk.mediaType &&
    object.adapterID = chunk.adapterID && object.clientRedacted = chunk.clientRedacted

def sameChunk (left right : ChunkRecord) : Bool :=
  left.chunkID = right.chunkID && left.objectID = right.objectID && left.projectID = right.projectID &&
    left.sourceChunkID = right.sourceChunkID && left.sourceObjectID = right.sourceObjectID &&
    left.capturedByUserID = right.capturedByUserID && left.installationID = right.installationID &&
    left.sessionID = right.sessionID && left.generation = right.generation && left.offset = right.offset &&
    left.sizeBytes = right.sizeBytes && left.sourceName = right.sourceName &&
    left.mediaType = right.mediaType && left.adapterID = right.adapterID &&
    left.adapterVersion = right.adapterVersion && left.capturedAt.equal right.capturedAt &&
    left.clientRedacted = right.clientRedacted && left.final = right.final && left.sha256 = right.sha256 &&
    left.storageKey = right.storageKey

def newObject (now : Time) (chunk : ChunkRecord) : ObjectState where
  record :=
    { objectID := chunk.objectID
      projectID := chunk.projectID
      sessionID := chunk.sessionID
      sourceName := chunk.sourceName
      mediaType := chunk.mediaType
      adapterID := chunk.adapterID
      adapterVersion := chunk.adapterVersion
      capturedAt := chunk.capturedAt
      createdAt := now.utc
      clientRedacted := chunk.clientRedacted
      currentGeneration := 1
      generationCount := 1
      currentSizeBytes := 0
      currentFinalized := false }
  generations := (∅ : Table Int GenerationState).insert 1 ⟨⟨1,0,0,false⟩,[]⟩

/-- The object that a chunk goes to, new or in a new generation where the chunk
starts one. The store keeps what is made here whatever comes of the chunk. -/
def openGeneration (s : MemoryStore) (now : Time) (chunk : ChunkRecord) :
    Except Failure (MemoryStore × ObjectState) :=
  match s.objects.lookup chunk.objectID with
  | none => do
    failWhen (chunk.generation ≠ 1 || chunk.offset ≠ 0)
      (.conflict chunk.objectID "a new Raw object must start at generation 1 offset 0")
    .ok ({s with objects := s.objects.insert chunk.objectID (newObject now chunk)},newObject now chunk)
  | some state => do
    failWhen (!sameObjectIdentity state.record chunk)
      (.conflict chunk.objectID "Raw object project, session, source, media type, and Adapter are immutable")
    failWhen (chunk.generation < state.record.currentGeneration)
      (.conflict chunk.objectID "cannot append to an older generation")
    failWhen (state.record.currentGeneration+1 < chunk.generation)
      (.conflict chunk.objectID "cannot skip a generation")
    failWhen (chunk.generation = state.record.currentGeneration+1 && chunk.offset ≠ 0)
      (.conflict chunk.objectID "a new generation must start at offset 0")
    if chunk.generation = state.record.currentGeneration+1 then
      let advanced := state.advance chunk.generation
      .ok ({s with objects := s.objects.insert chunk.objectID advanced},advanced)
    else .ok (s,state)

/-- The rest of a commit, with the chunk's object as it is now in the store. -/
def appendChunk (s : MemoryStore) (state : ObjectState) (chunk : ChunkRecord) :
    MemoryStore × Except Failure CommitResult :=
  match state.generations.lookup chunk.generation with
  | none => (s,.error .nilPointer)
  | some generation =>
    if generation.record.finalized then (s,.error (.conflict chunk.objectID "generation is finalized"))
    else if chunk.offset ≠ generation.record.sizeBytes then
      (s,.error (.conflict chunk.objectID "append offset does not match the generation size"))
    else
      let extended := state.extend generation chunk
      ({s with
          objects := s.objects.insert chunk.objectID extended
          chunkIDs := s.chunkIDs.insert chunk.chunkID {chunk with ordinal := generation.record.chunkCount+1}},
        .ok ⟨extended.record,(generation.extend chunk).record,false⟩)

/-- A commit under the lock of the store. -/
def commitLocked (s : MemoryStore) (now : Time) (chunk : ChunkRecord) :
    MemoryStore × Except Failure CommitResult :=
  match s.chunkIDs.lookup chunk.chunkID with
  | some existing =>
    if !sameChunk existing chunk then
      (s,.error (.conflict chunk.chunkID "chunkId was reused with different content or metadata"))
    else
      match s.objects.lookup existing.objectID with
      | none => (s,.error .nilPointer)
      | some state =>
        match state.generations.lookup existing.generation with
        | none => (s,.error .nilPointer)
        | some generation => (s,.ok ⟨state.record,generation.record,true⟩)
  | none =>
    match s.openGeneration now chunk with
    | .error failure => (s,.error failure)
    | .ok (s',state) => appendChunk s' state chunk

/-- `CommitChunk`, with the facts of the session as they are when it is called. -/
def commitChunk (s : MemoryStore) (found : Option SessionAccessFacts) (now : Time) (principal : Principal)
    (chunk : ChunkRecord) : MemoryStore × Except Failure CommitResult :=
  match authorizeChunk found principal chunk with
  | .error failure => (s,.error failure)
  | .ok access => s.commitLocked now {chunk with projectID := access.projectID}

/-- `Append`, with the facts of the session as they are found twice. The bytes are put
first, so that a failed commit leaves them behind. -/
def append (h : Hash) (digest : Bytes → String) (s : MemoryStore) (found found' : Option SessionAccessFacts)
    (now : Time) (principal : Principal) (upload : UploadChunk) : MemoryStore × Except Failure AppendResult :=
  match validateUpload h digest principal upload with
  | .error failure => (s,.error failure)
  | .ok (record,content) =>
    match authorizeChunk found principal record with
    | .error failure => (s,.error (concealedAsNotFound failure "session" upload.sessionID))
    | .ok _ =>
      match s.put record.storageKey content with
      | .error failure => (s,.error failure)
      | .ok s' =>
        match s'.commitChunk found' now principal record with
        | (s'',.error failure) => (s'',.error (concealedAsNotFound failure "session" upload.sessionID))
        | (s'',.ok committed) =>
          (s'',.ok ⟨committed.object.objectID,committed.generation.generation,committed.generation.sizeBytes,
            committed.generation.finalized,committed.replayed⟩)

def lookupChunk (h : Hash) (s : MemoryStore) (found : Option SessionAccessFacts) (principal : Principal)
    (identity : ChunkIdentity) : Except Failure (Option ChunkReceipt) := do
  let _ ← authorizeSession found principal .rawIngest
  let objectID := rawObjectID h principal.userID identity.sessionID identity.installationID identity.adapterID
    identity.sourceObjectID
  .ok ((s.chunkIDs.lookup (rawChunkID h objectID identity.sourceChunkID)).map receiptForChunk)

def isAfter (chunks : List ChunkRecord) (afterOrdinal : Int) (index : Nat) : Bool :=
  match chunks[index]? with
  | some chunk => afterOrdinal < chunk.ordinal
  | none => false

/-- `PlanContent`: the chunks of a page. The store is read twice, first for the
session of the object, whose `facts` the canonical store then gives. -/
def planContent (before s : MemoryStore) (facts : String → Option SessionAccessFacts) (principal : Principal)
    (objectID : String) (generationNumber afterOrdinal : Int) (limit : Nat) : Except Failure ContentPlan := do
  let seen ← present (before.objects.lookup objectID) (.notFound "object" objectID)
  let _ ← authorizeSession (facts seen.record.sessionID) principal .rawObjectRead
  let state ← present (s.objects.lookup objectID) (.notFound "object" objectID)
  let number := if generationNumber = 0 then state.record.currentGeneration else generationNumber
  let generation ← present (state.generations.lookup number) (.notFound "generation" objectID)
  let start := search generation.chunks.length (isAfter generation.chunks afterOrdinal)
  let finish := min (start+limit) generation.chunks.length
  .ok ⟨state.record,generation.record,(generation.chunks.take finish).drop start,
    finish < generation.chunks.length⟩

end MemoryStore
end ATape.RawArchive
