import ATape.Raw.Appends
import ATape.Raw.Postgres

/-! The manifest in the database against the one in memory: the same rows, but for the
times, of which the database keeps the microseconds. -/
namespace ATape.RawArchive
open Authorization Foundation Go SourceIdentity

def objectRow (r : ObjectRecord) : RawObjectRow where
  projectID := r.projectID
  sessionID := r.sessionID
  sourceName := r.sourceName
  mediaType := r.mediaType
  adapterID := r.adapterID
  adapterVersion := r.adapterVersion
  capturedAt := timestamptz r.capturedAt
  clientRedacted := r.clientRedacted
  currentGeneration := r.currentGeneration
  generationCount := r.generationCount
  publicationHead := none
  rawTeamRevision := none
  rawUserRevision := none

def generationAt (m : MemoryStore) (id : String) (n : Int) : Option GenerationRecord := do
  let o ← m.objects.lookup id
  let g ← o.generations.lookup n
  some g.record

theorem generationAt_held {m : MemoryStore} {id : String} {o : ObjectState} (held : m.objects.lookup id = some o)
    (n : Int) : generationAt m id n = (o.generations.lookup n).map GenerationState.record := by
  simp only [generationAt,held]
  cases found : o.generations.lookup n with
  | none => simp [found]
  | some g => simp [found]

/-- The same objects, generations and chunks, each chunk with its ordinal and offset. -/
structure Refines (t : RawTables) (m : MemoryStore) : Prop where
  objects : ∀ id, t.objects.lookup id = (m.objects.lookup id).map fun o => objectRow o.record
  generations : ∀ id n, t.generations.lookup (id,n) = generationAt m id n
  chunks : ∀ id, t.chunks.lookup id = (m.chunkIDs.lookup id).map fun c => RawTables.newChunkRow c c.ordinal

/-- What the database requires of a chunk that is not part of a publication. -/
structure Storable (r : ChunkRecord) : Prop where
  unpublished : r.publication = none
  sourceName : storable r.sourceName = true
  mediaType : storable r.mediaType = true
  adapterID : storable r.adapterID = true
  adapterVersion : storable r.adapterVersion = true
  redacted : r.clientRedacted = true
  size : r.sizeBytes ≤ maxChunkBytes
  offset : 0 ≤ r.offset
  generation : 1 ≤ r.generation
  digest : r.sha256.toList.length = 64

@[simp] theorem timestamptz_twice (t : Time) : timestamptz (timestamptz t) = timestamptz t := by
  simp [timestamptz,Time.utc,Time.truncateMicrosecond]

theorem timestamptz_mono {t u : Time} (before : t.nanos ≤ u.nanos) :
    (timestamptz t).nanos ≤ (timestamptz u).nanos := by
  simp only [timestamptz,Time.utc,Time.truncateMicrosecond]
  omega

theorem timestamptz_later (t u : Time) : timestamptz (if t.after (timestamptz u) then t else timestamptz u) =
    timestamptz (if t.after u then t else u) := by
  simp only [Time.after,decide_eq_true_eq]
  by_cases late : u.nanos < t.nanos
  · have cut : (timestamptz u).nanos < t.nanos := by
      simp only [timestamptz,Time.utc,Time.truncateMicrosecond]
      omega
    rw [if_pos cut,if_pos late]
  · rw [if_neg late]
    split
    next between =>
      simp only [timestamptz,Time.utc,Time.truncateMicrosecond] at *
      congr 1
      omega
    next => exact timestamptz_twice u

theorem timestamptz_greatest {t u : Time} (before : u.nanos ≤ t.nanos) :
    (if (timestamptz t).after (timestamptz u) then timestamptz t else timestamptz u) = timestamptz t := by
  split
  next => rfl
  next same =>
    have above := timestamptz_mono before
    simp only [Time.after,decide_eq_true_eq] at same
    simp only [timestamptz,Time.utc,Time.truncateMicrosecond] at *
    congr 1
    omega

theorem after_later (t u : Time) : u.nanos ≤ (if t.after u then t else u).nanos := by
  simp only [Time.after,decide_eq_true_eq]
  split <;> omega

/-- The tables while a chunk's object is open in them. -/
structure Opening (t : RawTables) (m : MemoryStore) (r : ChunkRecord) (object : ObjectRecord) (o : ObjectState) :
    Prop where
  row : ∃ current count, t.objects.lookup r.objectID =
    some {objectRow o.record with currentGeneration := current, generationCount := count}
  others : ∀ id, id ≠ r.objectID → t.objects.lookup id = (m.objects.lookup id).map fun o => objectRow o.record
  generations : ∀ id n, t.generations.lookup (id,n) =
    if id = r.objectID then (o.generations.lookup n).map GenerationState.record else generationAt m id n
  chunks : ∀ id, t.chunks.lookup id = (m.chunkIDs.lookup id).map fun c => RawTables.newChunkRow c c.ordinal
  named : object.objectID = r.objectID
  current : object.currentGeneration = o.record.currentGeneration
  count : object.generationCount = o.record.generationCount
  time : timestamptz (if r.capturedAt.after object.capturedAt then r.capturedAt else object.capturedAt) =
    timestamptz (if r.capturedAt.after o.record.capturedAt then r.capturedAt else o.record.capturedAt)

inductive Verdict
  | committed (objectID : String) (generation : GenerationRecord)
  | replayed (objectID : String) (generation : GenerationRecord)
  | failed (failure : Failure)
deriving DecidableEq

def verdict : Except Failure CommitResult → Verdict
  | .ok result => if result.replayed then .replayed result.object.objectID result.generation
    else .committed result.object.objectID result.generation
  | .error failure => .failed failure

/-- The tables after a transaction, with its outcome. -/
def RawTables.settled (t : RawTables) : Except Failure (RawTables × CommitResult) → RawTables × Except Failure CommitResult
  | .ok (t',result) => (t',.ok result)
  | .error failure => (t,.error failure)

theorem createObject_opening {t : RawTables} {m : MemoryStore} {r : ChunkRecord} (refines : Refines t m)
    (storable : Storable r) (now : Time) (absent : m.objects.lookup r.objectID = none) (first : r.generation = 1)
    (start : r.offset = 0) :
    ∃ t' object, t.createObject r = .ok (t',object) ∧ Opening t' m r object (MemoryStore.newObject now r) := by
  have free : t.generations.lookup (r.objectID,1) = none := by
    rw [refines.generations,generationAt,absent]
    rfl
  have inserted : t.insertRawObject r =
      .ok {t with objects := t.objects.insert r.objectID (RawTables.newObjectRow r)} := by
    unfold RawTables.insertRawObject
    rw [failWhen_neg _ _,ok_bind]
    simp [storable.sourceName,storable.mediaType,storable.adapterID,storable.adapterVersion,storable.redacted]
  unfold RawTables.createObject
  rw [failWhen_neg _ (by simp [first,start]),ok_bind,inserted,ok_bind,RawTables.insertRawGeneration,
    failWhen_neg _ (by simp [free]),ok_bind,ok_bind,storable.unpublished]
  refine ⟨_,_,rfl,⟨1,1,?_⟩,?_,?_,refines.chunks,rfl,rfl,rfl,rfl⟩
  · simp only [Table.lookup_insert,if_true]
    rfl
  · intro id apart
    simp only [Table.lookup_insert,if_neg apart,refines.objects]
  · intro id n
    simp only [Table.lookup_insert,Prod.mk.injEq,MemoryStore.newObject,refines.generations]
    by_cases same : id = r.objectID
    · subst same
      by_cases one : n = 1
      · simp only [one,and_self,if_true,Option.map_some]
      · simp only [one,and_false,if_false,if_true,generationAt,absent,AList.lookup_empty]
        rfl
    · simp only [same,false_and,if_false]

theorem continueObject_opening {t : RawTables} {m : MemoryStore} {r : ChunkRecord} (refines : Refines t m)
    (sound : m.Sound) {old : ObjectState} (held : m.objects.lookup r.objectID = some old) :
    (r.generation = old.record.currentGeneration+1 → ∃ t',
      t.insertRawGeneration r.objectID r.generation "insert generation" = .ok t' ∧
        Opening t' m r {RawTables.rawObjectForUpdate r.objectID (objectRow old.record) with
          currentGeneration := r.generation, generationCount := old.record.generationCount+1}
          (old.advance r.generation)) ∧
      (r.generation ≠ old.record.currentGeneration+1 →
        Opening t m r (RawTables.rawObjectForUpdate r.objectID (objectRow old.record)) old) := by
  have known := sound.objects _ _ held
  have row : t.objects.lookup r.objectID = some (objectRow old.record) := by
    rw [refines.objects,held]
    rfl
  have others : ∀ id, id ≠ r.objectID → t.objects.lookup id = (m.objects.lookup id).map fun o => objectRow o.record :=
    fun id _ => refines.objects id
  have started := known.started
  refine ⟨?_,?_⟩
  · intro next
    have free : t.generations.lookup (r.objectID,r.generation) = none := by
      have absent : ¬ (old.generations.lookup r.generation).isSome := by
        rw [known.generations]
        omega
      rw [refines.generations,generationAt,held]
      simp [Option.not_isSome_iff_eq_none.mp absent]
    unfold RawTables.insertRawGeneration
    rw [failWhen_neg _ (by simp [free]; omega),ok_bind]
    refine ⟨_,rfl,⟨old.record.currentGeneration,old.record.generationCount,row⟩,others,?_,refines.chunks,rfl,rfl,rfl,
      timestamptz_later _ _⟩
    intro id n
    simp only [Table.lookup_insert,Prod.mk.injEq,ObjectState.advance,refines.generations]
    by_cases same : id = r.objectID
    · subst same
      by_cases here : n = r.generation
      · simp [here]
      · simp only [here,and_false,if_false,if_true,generationAt_held held]
    · simp only [same,false_and,if_false]
  · intro _
    refine ⟨⟨old.record.currentGeneration,old.record.generationCount,row⟩,others,?_,refines.chunks,rfl,rfl,rfl,
      timestamptz_later _ _⟩
    intro id n
    rw [refines.generations]
    by_cases same : id = r.objectID
    · subst same
      simp only [if_true,generationAt_held held]
    · rw [if_neg same]

theorem openObject_opening {t : RawTables} {m : MemoryStore} {r : ChunkRecord} (refines : Refines t m) (sound : m.Sound)
    (storable : Storable r) (now : Time) :
    (∃ failure, m.openGeneration now r = .error failure ∧ t.openObject r = .error failure) ∨
      ∃ m' o t' object, m.openGeneration now r = .ok (m',o) ∧ t.openObject r = .ok (t',object) ∧
        Opening t' m r object o := by
  unfold MemoryStore.openGeneration RawTables.openObject
  cases held : m.objects.lookup r.objectID with
  | none =>
    rw [refines.objects,held]
    simp only [Option.map_none]
    by_cases begins : r.generation = 1 ∧ r.offset = 0
    · obtain ⟨t',object,created,opening⟩ := createObject_opening refines storable now held begins.1 begins.2
      exact .inr ⟨_,_,t',object,by rw [failWhen_neg _ (by simp [begins])]; rfl,created,opening⟩
    · have bad : (decide (r.generation ≠ 1) || decide (r.offset ≠ 0)) = true := by
        simp only [Bool.or_eq_true,decide_eq_true_eq]
        tauto
      refine .inl ⟨_,by rw [failWhen_pos _ bad,error_bind],?_⟩
      rw [RawTables.createObject,failWhen_pos _ bad,error_bind]
  | some old =>
    rw [refines.objects,held]
    simp only [Option.map_some,RawTables.continueObject]
    have identity : (!MemoryStore.sameObjectIdentity (RawTables.rawObjectForUpdate r.objectID (objectRow old.record)) r ||
        !RawTables.sameRawPublication (objectRow old.record) r.publication) =
        !MemoryStore.sameObjectIdentity old.record r := by
      rw [storable.unpublished]
      exact Bool.or_false _
    have number : (RawTables.rawObjectForUpdate r.objectID (objectRow old.record)).currentGeneration =
      old.record.currentGeneration := rfl
    rw [identity,number]
    by_cases alike : (!MemoryStore.sameObjectIdentity old.record r) = true
    · exact .inl ⟨_,by rw [failWhen_pos _ alike,error_bind],by rw [failWhen_pos _ alike,error_bind]⟩
    simp only [failWhen_neg _ alike,ok_bind]
    by_cases older : r.generation < old.record.currentGeneration
    · exact .inl ⟨_,by rw [failWhen_pos _ older,error_bind],by rw [failWhen_pos _ older,error_bind]⟩
    simp only [failWhen_neg _ older,ok_bind]
    by_cases skips : old.record.currentGeneration+1 < r.generation
    · exact .inl ⟨_,by rw [failWhen_pos _ skips,error_bind],by rw [failWhen_pos _ skips,error_bind]⟩
    simp only [failWhen_neg _ skips,ok_bind]
    by_cases late : (decide (r.generation = old.record.currentGeneration+1) && decide (r.offset ≠ 0)) = true
    · exact .inl ⟨_,by rw [failWhen_pos _ late,error_bind],by rw [failWhen_pos _ late,error_bind]⟩
    simp only [failWhen_neg _ late,ok_bind]
    obtain ⟨advanced,same⟩ := continueObject_opening refines sound held
    by_cases next : r.generation = old.record.currentGeneration+1
    · obtain ⟨t',inserted,opening⟩ := advanced next
      exact .inr ⟨_,_,t',_,by rw [if_pos next],by rw [if_pos next,inserted]; rfl,opening⟩
    · exact .inr ⟨_,_,t,_,by rw [if_neg next],by rw [if_neg next],same next⟩

theorem Opening.append {t : RawTables} {m : MemoryStore} {r : ChunkRecord} {object : ObjectRecord} {o : ObjectState}
    {g : GenerationState} (opening : Opening t m r object o) (storable : Storable r)
    (fits : m.Opened r o g) (fresh : m.chunkIDs.lookup r.chunkID = none) :
    (g.record.finalized = true →
      t.appendRow object r = .error (.conflict r.objectID "generation is finalized")) ∧
      (g.record.finalized = false → r.offset ≠ g.record.sizeBytes →
        t.appendRow object r = .error (.conflict r.objectID "append offset does not match the generation size")) ∧
      (g.record.finalized = false → r.offset = g.record.sizeBytes → ∃ t' result,
        t.appendRow object r = .ok (t',result) ∧ Refines t' (m.appended r o g) ∧ result.replayed = false ∧
          result.object.objectID = r.objectID ∧ result.generation = (g.extend r).record) := by
  have here : t.generations.lookup (r.objectID,r.generation) = some g.record := by
    rw [opening.generations,if_pos rfl,fits.ready.here]
    rfl
  have absent : t.chunks.lookup r.chunkID = none := by
    rw [opening.chunks,fresh]
    rfl
  unfold RawTables.appendRow
  simp only [here,present_some,ok_bind]
  refine ⟨?_,?_,?_⟩
  · intro finalized
    rw [failWhen_pos _ finalized,error_bind]
  · intro unfinished apart
    rw [failWhen_neg _ (by simp [unfinished]),ok_bind,failWhen_pos _ apart,error_bind]
  · intro unfinished place
    have inserted : t.insertRawChunk r (g.record.chunkCount+1) =
        .ok {t with chunks := t.chunks.insert r.chunkID (RawTables.newChunkRow r (g.record.chunkCount+1))} := by
      unfold RawTables.insertRawChunk
      rw [failWhen_neg _ _,ok_bind]
      have offset := storable.offset
      have size := storable.size
      simp only [absent,storable.adapterVersion,storable.digest,Option.isSome_none,Bool.false_or,Bool.not_true,
        Bool.or_false,ne_eq,not_true_eq_false,decide_false,Bool.or_eq_true,decide_eq_true_eq]
      omega
    rw [failWhen_neg _ (by simp [unfinished]),ok_bind,failWhen_neg _ (not_not.mpr place),ok_bind,inserted,ok_bind]
    refine ⟨_,_,rfl,⟨?_,?_,?_⟩,rfl,opening.named,rfl⟩
    · intro id
      obtain ⟨current,count,row⟩ := opening.row
      simp only [RawTables.commitRawObject,RawTables.commitRawGeneration,Table.lookup_modify,opening.named,
        MemoryStore.appended,Table.lookup_insert]
      by_cases same : id = r.objectID
      · subst same
        simp only [if_true,row,Option.map_some,Option.some.injEq]
        simp only [objectRow,ObjectState.extend,opening.time,opening.current,opening.count]
        rw [timestamptz_greatest (after_later _ _)]
      · simp only [if_neg same,opening.others id same]
    · intro id n
      simp only [RawTables.commitRawObject,RawTables.commitRawGeneration,Table.lookup_modify,opening.generations,
        Prod.mk.injEq,generationAt,MemoryStore.appended,Table.lookup_insert]
      have number := fits.unfinished unfinished
      by_cases same : id = r.objectID
      · subst same
        by_cases same' : n = r.generation
        · subst same'
          simp [ObjectState.extend,GenerationState.extend,fits.ready.here,number.number]
        · simp [ObjectState.extend,number.number,same']
          cases o.generations.lookup n <;> rfl
      · simp [same]
    · intro id
      simp only [RawTables.commitRawObject,RawTables.commitRawGeneration,MemoryStore.appended,Table.lookup_insert,
        opening.chunks]
      by_cases same : id = r.chunkID
      · simp only [if_pos same,Option.map_some]
        rfl
      · simp only [if_neg same]

/-- A chunk whose identifiers are made of its source, of texts that are known. -/
structure Named (h : Hash) (texts : Set String) (c : ChunkRecord) : Prop where
  object : c.objectID =
    rawObjectID h c.capturedByUserID c.sessionID c.installationID c.adapterID c.sourceObjectID
  chunk : c.chunkID = rawChunkID h c.objectID c.sourceChunkID
  scope : key [c.capturedByUserID,c.sessionID,c.installationID,c.adapterID,c.sourceObjectID] ∈ texts
  source : key [c.objectID,c.sourceChunkID] ∈ texts

theorem Named.same {h : Hash} {texts : Set String} (free : h.CollisionFree texts) {c c' : ChunkRecord}
    (left : Named h texts c) (right : Named h texts c') (same : c.chunkID = c'.chunkID) :
    c.objectID = c'.objectID ∧ c.sourceChunkID = c'.sourceChunkID ∧ c.capturedByUserID = c'.capturedByUserID ∧
      c.sessionID = c'.sessionID ∧ c.installationID = c'.installationID ∧ c.adapterID = c'.adapterID ∧
      c.sourceObjectID = c'.sourceObjectID := by
  rw [left.chunk,right.chunk] at same
  have sources := key_injective (stableID_inj free left.source right.source same)
  simp only [List.cons.injEq,and_true] at sources
  obtain ⟨object,source⟩ := sources
  have named := object
  rw [left.object,right.object] at named
  have scopes := key_injective (stableID_inj free left.scope right.scope named)
  simp only [List.cons.injEq,and_true] at scopes
  obtain ⟨user,session,installation,adapter,sourceObject⟩ := scopes
  exact ⟨object,source,user,session,installation,adapter,sourceObject⟩

def sameContent (existing r : ChunkRecord) : Bool :=
  MemoryStore.sameChunk {existing with capturedAt := r.capturedAt} r

theorem sameChunk_content (existing r : ChunkRecord) : MemoryStore.sameChunk existing r =
    (sameContent existing r && existing.capturedAt.equal r.capturedAt) := by
  rw [Bool.eq_iff_iff]
  simp only [MemoryStore.sameChunk,sameContent,Time.equal,Bool.and_eq_true,decide_eq_true_eq]
  tauto

theorem sameRawChunk_content {h : Hash} {texts : Set String} (free : h.CollisionFree texts)
    {existing r : ChunkRecord} (left : Named h texts existing) (right : Named h texts r)
    (same : existing.chunkID = r.chunkID) {o : ObjectRecord}
    (alike : MemoryStore.sameObjectIdentity o existing = true) :
    RawTables.sameRawChunk r.chunkID (RawTables.newChunkRow existing existing.ordinal) (objectRow o) r =
      (sameContent existing r && (timestamptz existing.capturedAt).equal r.capturedAt) := by
  obtain ⟨object,source,user,session,installation,adapter,sourceObject⟩ := left.same free right same
  simp only [MemoryStore.sameObjectIdentity,Bool.and_eq_true,decide_eq_true_eq] at alike
  obtain ⟨⟨⟨⟨⟨project,session'⟩,sourceName⟩,mediaType⟩,adapter'⟩,redacted⟩ := alike
  rw [Bool.eq_iff_iff]
  simp only [RawTables.sameRawChunk,sameContent,MemoryStore.sameChunk,RawTables.newChunkRow,objectRow,Time.equal,
    Bool.and_eq_true,decide_eq_true_eq,project,session',sourceName,mediaType,adapter',redacted,same,object,source,
    user,session,installation,adapter,sourceObject]
  tauto

/-- Whether the microseconds of the stored time tell the chunk apart as the time does. -/
def TimeKept (m : MemoryStore) (r : ChunkRecord) : Prop :=
  ∀ existing, m.chunkIDs.lookup r.chunkID = some existing → sameContent existing r = true →
    (timestamptz existing.capturedAt).equal r.capturedAt = existing.capturedAt.equal r.capturedAt

theorem TimeKept.whole {m : MemoryStore} {r : ChunkRecord}
    (whole : ∀ existing, m.chunkIDs.lookup r.chunkID = some existing → existing.capturedAt.nanos%1000 = 0) :
    TimeKept m r := by
  intro existing known _
  have exact_ := whole existing known
  have same : (timestamptz existing.capturedAt).nanos = existing.capturedAt.nanos := by
    simp only [timestamptz,Time.utc,Time.truncateMicrosecond]
    omega
  rw [Time.equal,Time.equal,same]

/-- The answer to a chunk that is stored already. -/
def replayAnswer (chunkID : String) (same : Bool) (result : CommitResult) : Except Failure CommitResult :=
  if same then .ok result else .error (.conflict chunkID "chunkId was reused with different content or metadata")

theorem verdict_replay (chunkID : String) (same : Bool) (object : ObjectRecord) (g : GenerationRecord) :
    verdict (replayAnswer chunkID same ⟨object,g,true⟩) = if same then .replayed object.objectID g
      else .failed (.conflict chunkID "chunkId was reused with different content or metadata") := by
  cases same <;> rfl

theorem replay_lockstep {t : RawTables} {m : MemoryStore} (refines : Refines t m) (sound : m.Sound) {h : Hash}
    {texts : Set String} (free : h.CollisionFree texts) {r existing : ChunkRecord} (unpublished : r.publication = none)
    (known : m.chunkIDs.lookup r.chunkID = some existing) (left : Named h texts existing) (right : Named h texts r)
    (now : Time) : ∃ object object' g, generationAt m existing.objectID existing.generation = some g ∧
      object.objectID = existing.objectID ∧ object'.objectID = existing.objectID ∧
      m.commitLocked now r = (m,replayAnswer r.chunkID
        (sameContent existing r && existing.capturedAt.equal r.capturedAt) ⟨object,g,true⟩) ∧
      t.settled (t.commitLocked r) = (t,replayAnswer r.chunkID
        (sameContent existing r && (timestamptz existing.capturedAt).equal r.capturedAt) ⟨object',g,true⟩) := by
  obtain ⟨same,member⟩ := (sound.chunks _ _).mp known
  obtain ⟨o,g,object,generation,inside⟩ := MemoryStore.mem_chunksAt member
  have alike := sound.alike _ o object existing.generation existing
    (by simp only [ObjectState.chunksAt,generation]; exact inside)
  have row : t.objects.lookup existing.objectID = some (objectRow o.record) := by
    rw [refines.objects,object]
    rfl
  have stored : t.getRawChunkForReplay r.chunkID =
      some (RawTables.newChunkRow existing existing.ordinal,objectRow o.record) := by
    unfold RawTables.getRawChunkForReplay
    rw [refines.chunks,known]
    simp only [Option.map_some]
    change (do let object ← t.objects.lookup existing.objectID; some _) = _
    rw [row]
    rfl
  have bound : RawTables.sameRawPublication (objectRow o.record) r.publication = true := by
    rw [unpublished]
    rfl
  have started := (sound.objects _ _ object).started
  obtain ⟨current,currentGeneration⟩ : ∃ g', o.generations.lookup o.record.currentGeneration = some g' := by
    apply Option.isSome_iff_exists.mp
    rw [(sound.objects _ _ object).generations]
    exact ⟨started,Int.le_refl _⟩
  have read : t.readRawCommit existing.objectID existing.generation =
      .ok (RawTables.rawObjectForRead existing.objectID (objectRow o.record) current.record,g.record) := by
    have now_ : t.generations.lookup (existing.objectID,o.record.currentGeneration) = some current.record := by
      rw [refines.generations,generationAt_held object,currentGeneration]
      rfl
    have then_ : t.generations.lookup (existing.objectID,existing.generation) = some g.record := by
      rw [refines.generations,generationAt_held object,generation]
      rfl
    have joined : t.getRawObjectForRead existing.objectID = some (objectRow o.record,current.record) := by
      unfold RawTables.getRawObjectForRead
      rw [row]
      change (do let generation ← t.generations.lookup (existing.objectID,o.record.currentGeneration); some _) = _
      rw [now_]
      rfl
    unfold RawTables.readRawCommit
    rw [joined,then_]
    rfl
  refine ⟨o.record,RawTables.rawObjectForRead existing.objectID (objectRow o.record) current.record,g.record,
    by rw [generationAt_held object,generation]; rfl,(sound.objects _ _ object).named,rfl,?_,?_⟩
  · unfold MemoryStore.commitLocked replayAnswer
    rw [← sameChunk_content]
    by_cases agree : MemoryStore.sameChunk existing r = true
    · simp [known,agree,object,generation]
    · simp [known,agree]
  · unfold RawTables.commitLocked replayAnswer
    simp only [stored,bound,sameRawChunk_content free left right same alike,Bool.not_true,Bool.or_false]
    by_cases agree : (sameContent existing r && (timestamptz existing.capturedAt).equal r.capturedAt) = true
    · rw [failWhen_neg _ (by simp [agree]),ok_bind,if_pos agree]
      change t.settled ((t.readRawCommit existing.objectID existing.generation) >>= _) = _
      rw [read]
      rfl
    · have apart : (!(sameContent existing r && (timestamptz existing.capturedAt).equal r.capturedAt)) = true := by
        rw [Bool.eq_false_iff.mpr agree]
        rfl
      rw [failWhen_pos _ apart,error_bind,if_neg agree]
      rfl

theorem replay_agree {m : MemoryStore} {r existing : ChunkRecord} (known : m.chunkIDs.lookup r.chunkID = some existing)
    {object object' : ObjectRecord} (same : object'.objectID = object.objectID) (g : GenerationRecord) :
    verdict (replayAnswer r.chunkID
        (sameContent existing r && (timestamptz existing.capturedAt).equal r.capturedAt) ⟨object',g,true⟩) =
      verdict (replayAnswer r.chunkID (sameContent existing r && existing.capturedAt.equal r.capturedAt)
        ⟨object,g,true⟩) ↔ TimeKept m r := by
  have kept : TimeKept m r ↔ (sameContent existing r = true →
      (timestamptz existing.capturedAt).equal r.capturedAt = existing.capturedAt.equal r.capturedAt) := by
    constructor
    · intro every
      exact every existing known
    · intro this other listed
      rw [known] at listed
      cases listed
      exact this
  rw [kept]
  cases content : sameContent existing r with
  | false => simp [verdict_replay]
  | true =>
    simp only [verdict_replay,same]
    cases existing.capturedAt.equal r.capturedAt <;> cases (timestamptz existing.capturedAt).equal r.capturedAt <;>
      simp

theorem append_lockstep {t : RawTables} {m : MemoryStore} (refines : Refines t m) (sound : m.Sound) {r : ChunkRecord}
    (storable : Storable r) (fresh : m.chunkIDs.lookup r.chunkID = none) (now : Time) :
    ∃ t' m' v w, m.commitLocked now r = (m',v) ∧ t.settled (t.commitLocked r) = (t',w) ∧ Refines t' m' ∧
      verdict w = verdict v := by
  have absent : t.getRawChunkForReplay r.chunkID = none := by
    unfold RawTables.getRawChunkForReplay
    rw [refines.chunks,fresh]
    rfl
  unfold MemoryStore.commitLocked RawTables.commitLocked
  simp only [fresh,absent]
  rcases openObject_opening refines sound storable now with ⟨failure,inMemory,inTables⟩ | ⟨m',o,t',object,inMemory,inTables,opening⟩
  · rw [inTables,error_bind]
    exact ⟨t,m,_,_,by rw [inMemory],rfl,refines,rfl⟩
  · obtain ⟨g,fits,left⟩ := MemoryStore.openGeneration_ok sound inMemory
    obtain ⟨closed,misplaced,appends⟩ := opening.append storable fits fresh
    rw [inTables,ok_bind]
    simp only [inMemory,MemoryStore.appendChunk,fits.ready.here]
    by_cases finalized : g.record.finalized = true
    · rcases left with rfl | ⟨_,open_,_⟩
      · exact ⟨t,m',_,_,by rw [if_pos finalized],by rw [closed finalized]; rfl,refines,rfl⟩
      · rw [finalized] at open_
        cases open_
    · have unfinished : g.record.finalized = false := by simpa using finalized
      by_cases place : r.offset = g.record.sizeBytes
      · obtain ⟨t'',result,appended,refines',first,object',generation⟩ := appends unfinished place
        refine ⟨t'',m.appended r o g,.ok ⟨(o.extend g r).record,(g.extend r).record,false⟩,.ok result,?_,
          by rw [appended]; rfl,refines',?_⟩
        · rcases left with rfl | ⟨rfl,_,_⟩
          · simp [finalized,place,MemoryStore.appended]
          · simp [finalized,place,MemoryStore.appended,AList.insert_insert]
        · have named : (o.extend g r).record.objectID = r.objectID := fits.ready.named
          simp [verdict,first,object',generation,named]
      · rcases left with rfl | ⟨_,_,start⟩
        · exact ⟨t,m',_,_,by rw [if_neg finalized,if_pos place],by rw [misplaced unfinished place]; rfl,refines,rfl⟩
        · exact absurd start place

end ATape.RawArchive
