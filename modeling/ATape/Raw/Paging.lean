import ATape.Foundation.Keyset
import ATape.Raw.Appends
import ATape.Raw.Cursors

/-! The pages of the manifest of a session and of the content of an object, and what of the archive they rest on
while it grows. -/
namespace ATape.RawArchive
open Authorization Foundation Go SourceIdentity

def defaultManifestPageSize : ℤ := 50

def maxManifestPageSize : ℤ := 100

def defaultPageSize : ℤ := 4

def maxPageSize : ℤ := 8

/-- `capturedAt` is the instant whose RFC 3339 text the answer holds. -/
structure ObjectSummary where
  objectID : String
  projectID : String
  sessionID : String
  sourceName : String
  mediaType : String
  adapterID : String
  adapterVersion : String
  capturedAt : Time
  clientRedacted : Bool
  currentGeneration : Int
  generationCount : Int
  currentSizeBytes : Nat
  currentFinalized : Bool
deriving DecidableEq

def summarize (object : ObjectRecord) : ObjectSummary where
  objectID := object.objectID
  projectID := object.projectID
  sessionID := object.sessionID
  sourceName := object.sourceName
  mediaType := object.mediaType
  adapterID := object.adapterID
  adapterVersion := object.adapterVersion
  capturedAt := object.capturedAt
  clientRedacted := object.clientRedacted
  currentGeneration := object.currentGeneration
  generationCount := object.generationCount
  currentSizeBytes := object.currentSizeBytes
  currentFinalized := object.currentFinalized

structure SessionArchive where
  sessionID : String
  objects : List ObjectSummary
  nextCursor : String
deriving DecidableEq

/-- `content` are the bytes that the answer holds in base64. -/
structure ContentChunk where
  offset : Int
  sizeBytes : Nat
  sha256 : String
  content : Bytes
deriving DecidableEq

structure ContentPage where
  objectID : String
  generation : Int
  sizeBytes : Nat
  finalized : Bool
  chunks : List ContentChunk
  nextCursor : String
deriving DecidableEq

/-- An error of the archive, a chunk whose bytes are not those that were accepted, or a cursor that cannot be
marshalled. -/
inductive ReadFailure
  | failed (failure : Failure)
  | integrity (objectID chunkID : String)
  | marshal
deriving DecidableEq

/-- Objects that were received later come first, and at one time those with the greater identity. -/
def ObjectRecord.less (left right : ObjectRecord) : Bool :=
  if left.createdAt.equal right.createdAt = false then left.createdAt.after right.createdAt
  else decide (left.objectID > right.objectID)

namespace MemoryStore

/-- Whether an object is not one of the page. -/
def skipped (sessionID : String) (after : ObjectPosition) (record : ObjectRecord) : Bool :=
  decide (record.sessionID ≠ sessionID) || decide (after.objectID ≠ "") && (record.createdAt.after after.createdAt ||
    record.createdAt.equal after.createdAt && decide (record.objectID ≥ after.objectID))

/-- The first objects of a page are kept while the objects are gone through. -/
def keepFirst (limit : ℕ) (objects : List ObjectRecord) (record : ObjectRecord) : List ObjectRecord :=
  let objects := (objects++[record]).insertionSort fun left right => ¬right.less left = true
  if objects.length > limit then objects.take limit else objects

def listSessionObjects (s : MemoryStore) (found : Option SessionAccessFacts) (principal : Principal) (sessionID : String)
    (after : ObjectPosition) (limit : ℕ) : Except Failure (List ObjectRecord) := do
  let _ ← authorizeSession found principal .rawSessionList
  .ok (((s.objects.rows.map fun row => row.2.record).filter fun record => !skipped sessionID after record).foldl
    (keepFirst limit) [])

def openSessionPage (s : MemoryStore) (found : Option SessionAccessFacts) (principal : Principal) (sessionID cursor : String)
    (limit : ℤ) : Except ReadFailure SessionArchive := do
  failWhen (trimSpace sessionID = "" ∨ len sessionID > 512 ∨ '\x00' ∈ sessionID.toList)
    (.failed (.validation "sessionId" "must be a bounded nonempty identity"))
  let limit := if limit = 0 then defaultManifestPageSize else limit
  failWhen (limit < 1 ∨ limit > maxManifestPageSize) (.failed (.validation "limit" "must be between 1 and 100"))
  let after ← (decodeManifestCursor cursor sessionID).mapError .failed
  let objects ← (listSessionObjects s found principal sessionID after (limit.toNat+1)).mapError fun failure =>
    .failed (concealedAsNotFound failure "session" sessionID)
  if objects.length > limit.toNat then
    let objects := objects.take limit.toNat
    match objects.getLast? with
    | none => .error (.failed .nilPointer)
    | some last =>
      let encoded ← present (encodeManifestCursor sessionID last.createdAt last.objectID) .marshal
      .ok ⟨sessionID,objects.map summarize,encoded⟩
  else .ok ⟨sessionID,objects.map summarize,""⟩

/-- The bytes of a chunk, which have to be the accepted ones. -/
def readChunk (digest : Bytes → String) (s : MemoryStore) (objectID : String) (chunk : ChunkRecord) :
    Except ReadFailure ContentChunk := do
  let content ← (s.read chunk.storageKey).mapError .failed
  failWhen (content.length ≠ chunk.sizeBytes ∨ digest content ≠ chunk.sha256) (.integrity objectID chunk.chunkID)
  .ok ⟨chunk.offset,chunk.sizeBytes,chunk.sha256,content⟩

/-- `Archive.Read`. Nothing else happens while a page is read. -/
def readContent (digest : Bytes → String) (s : MemoryStore) (facts : String → Option SessionAccessFacts)
    (principal : Principal) (objectID : String) (generation : ℤ) (cursor : String) (limit : ℤ) :
    Except ReadFailure ContentPage := do
  failWhen (trimSpace objectID = "") (.failed (.validation "objectId" "must not be empty"))
  failWhen (generation < 0) (.failed (.validation "generation" "must be zero or greater"))
  let limit := if limit = 0 then defaultPageSize else limit
  failWhen (limit < 1 ∨ limit > maxPageSize) (.failed (.validation "limit" "must be between 1 and 8"))
  let (afterOrdinal,cursorGeneration) ← (decodeCursor cursor objectID generation).mapError .failed
  let generation := if generation = 0 ∧ cursorGeneration ≠ 0 then cursorGeneration else generation
  let plan ← (planContent s s facts principal objectID generation afterOrdinal limit.toNat).mapError fun failure =>
    .failed (concealedAsNotFound failure "object" objectID)
  let chunks ← plan.chunks.mapM (readChunk digest s objectID)
  .ok
    {objectID := plan.object.objectID
     generation := plan.generation.generation
     sizeBytes := plan.generation.sizeBytes
     finalized := plan.generation.finalized
     chunks
     nextCursor := if plan.hasMore = true then
       plan.chunks.getLast?.elim "" fun last => encodeCursor objectID plan.generation.generation last.ordinal
       else ""}

/-! Reading page after page, while the archive may grow between them. -/

/-- What was read, and the cursor of the next page, unless there is none. -/
abbrev Progress (α : Type) := List α × Option String

def nextCursor (cursor : String) : Option String := if cursor = "" then none else some cursor

/-- The first pages of a session, each of the store as it is when it is asked for. -/
def followObjects (stores : ℕ → MemoryStore) (found : Option SessionAccessFacts) (principal : Principal)
    (sessionID : String) (limits : ℕ → ℤ) : ℕ → Except ReadFailure (Progress ObjectSummary)
  | 0 => .ok ([],some "")
  | page+1 => do
    match ← followObjects stores found principal sessionID limits page with
    | (objects,none) => .ok (objects,none)
    | (objects,some cursor) =>
      let answer ← openSessionPage (stores page) found principal sessionID cursor (limits page)
      .ok (objects++answer.objects,nextCursor answer.nextCursor)

def followContent (digest : Bytes → String) (stores : ℕ → MemoryStore) (facts : String → Option SessionAccessFacts)
    (principal : Principal) (objectID : String) (generation : ℤ) (limits : ℕ → ℤ) :
    ℕ → Except ReadFailure (Progress ContentChunk)
  | 0 => .ok ([],some "")
  | page+1 => do
    match ← followContent digest stores facts principal objectID generation limits page with
    | (chunks,none) => .ok (chunks,none)
    | (chunks,some cursor) =>
      let answer ← readContent digest (stores page) facts principal objectID generation cursor (limits page)
      .ok (chunks++answer.chunks,nextCursor answer.nextCursor)

end MemoryStore
end ATape.RawArchive
