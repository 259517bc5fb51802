import ATape.Raw.Appends
import ATape.Raw.Cursors

/-! What uploads keep of an archive: its objects with their places in the manifest, the chunks of every generation
in front of the new ones, and the bytes of each. -/
namespace ATape.RawArchive
open Authorization Foundation Go SourceIdentity

/-- What a call of `Append` finds: the session twice, and the time. -/
structure AppendCall where
  found : Option SessionAccessFacts
  found' : Option SessionAccessFacts
  now : Time
  principal : Principal
  upload : UploadChunk

namespace MemoryStore

def appends (h : Hash) (digest : Bytes → String) (s : MemoryStore) (calls : List AppendCall) : MemoryStore :=
  calls.foldl (fun s c => (append h digest s c.found c.found' c.now c.principal c.upload).1) s

structure Grows (s s' : MemoryStore) : Prop where
  objects : ∀ id o, s.objects.lookup id = some o → ∃ o', s'.objects.lookup id = some o' ∧
    o'.record.createdAt = o.record.createdAt ∧ o'.record.sessionID = o.record.sessionID
  chunks : ∀ id n, s.chunksAt id n <+: s'.chunksAt id n
  bytes : ∀ key content, s.chunks.lookup key = some content → s'.chunks.lookup key = some content

theorem Grows.refl (s : MemoryStore) : s.Grows s where
  objects _ o found := ⟨o,found,rfl,rfl⟩
  chunks _ _ := List.prefix_refl _
  bytes _ _ found := found

theorem Grows.trans {a b c : MemoryStore} (first : a.Grows b) (second : b.Grows c) : a.Grows c where
  objects id o found := by
    obtain ⟨o',found',created,session⟩ := first.objects id o found
    obtain ⟨o'',found'',created',session'⟩ := second.objects id o' found'
    exact ⟨o'',found'',created'.trans created,session'.trans session⟩
  chunks id n := (first.chunks id n).trans (second.chunks id n)
  bytes key content found := second.bytes key content (first.bytes key content found)

/-- What holds of every archive: the bytes of each chunk are stored, and each object can be named by a cursor. -/
structure Held (digest : Bytes → String) (s : MemoryStore) : Prop where
  sound : s.Sound
  bytes : ∀ id n, ∀ c ∈ s.chunksAt id n, ∃ content, s.chunks.lookup c.storageKey = some content ∧
    content.length = c.sizeBytes ∧ digest content = c.sha256
  named : ∀ id o, s.objects.lookup id = some o → Identified id
  clocked : ∀ id o, s.objects.lookup id = some o → Clocked o.record.createdAt ∧ o.record.createdAt.offset = 0

variable {h : Hash} {digest : Bytes → String} {s s' : MemoryStore}

theorem new_held : new.Held digest where
  sound := new_sound
  bytes := by simp [new,chunksAt]
  named := by simp [new]
  clocked := by simp [new]

/-! Bytes are put before their chunk is committed. -/

theorem put_grows {key : String} {content : Bytes} (ok : s.put key content = .ok s') :
    s.Grows s' ∧ s'.objects = s.objects ∧ s'.chunkIDs = s.chunkIDs ∧ s'.chunks.lookup key = some content := by
  unfold put at ok
  cases found : s.chunks.lookup key with
  | some existing =>
    simp only [found] at ok
    split at ok
    next => cases ok
    next same =>
      cases ok
      exact ⟨.refl s,rfl,rfl,by rw [found,not_not.mp same]⟩
  | none =>
    simp only [found] at ok
    cases ok
    refine ⟨⟨fun id o found => ⟨o,found,rfl,rfl⟩,fun _ _ => List.prefix_refl _,?_⟩,rfl,rfl,by simp⟩
    intro key' content' found'
    have apart : key' ≠ key := by
      rintro rfl
      rw [found] at found'
      cases found'
    simpa [apart] using found'

theorem Held.same (held : s.Held digest) (objects : s'.objects = s.objects) (chunkIDs : s'.chunkIDs = s.chunkIDs)
    (bytes : ∀ key content, s.chunks.lookup key = some content → s'.chunks.lookup key = some content) :
    s'.Held digest := by
  have chunksAt_ : ∀ id n, s'.chunksAt id n = s.chunksAt id n := by
    intro id n
    unfold chunksAt
    rw [objects]
  refine ⟨⟨?_,?_,?_⟩,?_,?_,?_⟩
  · rw [objects]
    exact held.sound.objects
  · intro id c
    rw [chunkIDs,chunksAt_]
    exact held.sound.chunks id c
  · rw [objects]
    exact held.sound.alike
  · intro id n c member
    rw [chunksAt_] at member
    obtain ⟨content,found,size,same⟩ := held.bytes id n c member
    exact ⟨content,bytes _ _ found,size,same⟩
  · rw [objects]
    exact held.named
  · rw [objects]
    exact held.clocked

/-! Commits. -/

/-- An object that is there from before, or new. -/
def Origin (s : MemoryStore) (now : Time) (id : String) (record : ObjectRecord) : Prop :=
  (∃ old, s.objects.lookup id = some old ∧ record.createdAt = old.record.createdAt ∧
    record.sessionID = old.record.sessionID) ∨ s.objects.lookup id = none ∧ record.createdAt = now.utc

theorem openGeneration_origin {now : Time} {chunk : ChunkRecord} {o : ObjectState}
    (ok : s.openGeneration now chunk = .ok (s',o)) : s.Origin now chunk.objectID o.record ∧
      (s' = s ∨ s' = {s with objects := s.objects.insert chunk.objectID o}) := by
  unfold openGeneration at ok
  cases held : s.objects.lookup chunk.objectID with
  | none =>
    simp only [held,bind_ok,Except.ok.injEq,Prod.mk.injEq] at ok
    obtain ⟨_,-,rfl,rfl⟩ := ok
    exact ⟨.inr ⟨held,rfl⟩,.inr rfl⟩
  | some old =>
    simp only [held,bind_ok] at ok
    obtain ⟨_,-,_,-,_,-,_,-,ok⟩ := ok
    split at ok
    next =>
      cases ok
      exact ⟨.inl ⟨old,held,rfl,rfl⟩,.inr rfl⟩
    next =>
      obtain ⟨rfl,rfl⟩ := Prod.mk.inj (Except.ok.inj ok)
      exact ⟨.inl ⟨_,held,rfl,rfl⟩,.inl rfl⟩

theorem commitLocked_objects (now : Time) (chunk : ChunkRecord) :
    (s.commitLocked now chunk).1.objects = s.objects ∨ ∃ o, s.Origin now chunk.objectID o.record ∧
      (s.commitLocked now chunk).1.objects = s.objects.insert chunk.objectID o := by
  unfold commitLocked
  cases s.chunkIDs.lookup chunk.chunkID with
  | some existing =>
    dsimp only
    split
    next => exact .inl rfl
    next =>
      cases s.objects.lookup existing.objectID with
      | none => exact .inl rfl
      | some state =>
        dsimp only
        cases state.generations.lookup existing.generation <;> exact .inl rfl
  | none =>
    cases opened : s.openGeneration now chunk with
    | error failure => exact .inl rfl
    | ok found =>
      obtain ⟨s',o⟩ := found
      obtain ⟨origin,left⟩ := openGeneration_origin opened
      have still : s'.objects = s.objects ∨ ∃ o, s.Origin now chunk.objectID o.record ∧
          s'.objects = s.objects.insert chunk.objectID o := by
        rcases left with rfl|rfl
        · exact .inl rfl
        · exact .inr ⟨o,origin,rfl⟩
      dsimp only [appendChunk]
      cases o.generations.lookup chunk.generation with
      | none => exact still
      | some g =>
        dsimp only
        split
        next => exact still
        next =>
          split
          next => exact still
          next =>
            refine .inr ⟨o.extend g chunk,origin,?_⟩
            rcases left with rfl|rfl
            · rfl
            · exact AList.insert_insert _

theorem commitLocked_chunks (now : Time) (chunk : ChunkRecord) : (s.commitLocked now chunk).1.chunks = s.chunks := by
  unfold commitLocked
  cases s.chunkIDs.lookup chunk.chunkID with
  | some existing =>
    dsimp only
    split
    next => rfl
    next =>
      cases s.objects.lookup existing.objectID with
      | none => rfl
      | some state =>
        dsimp only
        cases state.generations.lookup existing.generation <;> rfl
  | none =>
    cases opened : s.openGeneration now chunk with
    | error failure => rfl
    | ok found =>
      obtain ⟨s',o⟩ := found
      obtain ⟨-,left⟩ := openGeneration_origin opened
      have still : s'.chunks = s.chunks := by
        rcases left with rfl|rfl <;> rfl
      dsimp only [appendChunk]
      cases o.generations.lookup chunk.generation with
      | none => exact still
      | some g =>
        dsimp only
        split
        next => exact still
        next => split <;> exact still

theorem commitLocked_grows (sound : s.Sound) (now : Time) (chunk : ChunkRecord) : s.Grows (s.commitLocked now chunk).1 where
  objects id o found := by
    rcases commitLocked_objects (s := s) now chunk with same|⟨o',origin,same⟩
    · exact ⟨o,by rw [same,found],rfl,rfl⟩
    · by_cases own : id = chunk.objectID
      · subst own
        rcases origin with ⟨old,there,created,session⟩|⟨absent,-⟩
        · rw [found] at there
          cases there
          exact ⟨o',by rw [same,Table.lookup_insert,if_pos rfl],created,session⟩
        · rw [found] at absent
          cases absent
      · exact ⟨o,by rw [same,Table.lookup_insert,if_neg own,found],rfl,rfl⟩
  chunks id n := by
    rcases commitLocked_cases sound now chunk with ⟨_,same⟩|⟨_,_,_,_,_,same⟩|⟨o,g,_,fits,_,_,same⟩
    · rw [same]
    · rw [same]
    · rw [same]
      have at_ := fits.appended_chunksAt id n
      unfold appended at at_
      rw [at_]
      split
      next => exact List.prefix_append _ _
      next => exact List.prefix_refl _
  bytes key content found := by
    rwa [commitLocked_chunks]

theorem commitLocked_held (held : s.Held digest) {now : Time} (clock : Clocked now.utc) {chunk : ChunkRecord}
    (bytes : ∃ content, s.chunks.lookup chunk.storageKey = some content ∧ content.length = chunk.sizeBytes ∧
      digest content = chunk.sha256) (named : Identified chunk.objectID) :
    (s.commitLocked now chunk).1.Held digest where
  sound := commitLocked_sound held.sound now chunk
  bytes id n c member := by
    rw [commitLocked_chunks]
    rcases commitLocked_cases held.sound now chunk with ⟨_,same⟩|⟨_,_,_,_,_,same⟩|⟨o,g,_,fits,_,_,same⟩
    · rw [same] at member
      exact held.bytes id n c member
    · rw [same] at member
      exact held.bytes id n c member
    · rw [same] at member
      have at_ := fits.appended_chunksAt id n
      unfold appended at at_
      rw [at_] at member
      split at member
      next =>
        rcases List.mem_append.mp member with old|new
        · exact held.bytes id n c old
        · rw [List.mem_singleton.mp new]
          exact bytes
      next => exact held.bytes id n c member
  named id o found := by
    rcases commitLocked_objects (s := s) now chunk with same|⟨o',-,same⟩
    · rw [same] at found
      exact held.named id o found
    · rw [same,Table.lookup_insert] at found
      split at found
      next own => rwa [own]
      next => exact held.named id o found
  clocked id o found := by
    rcases commitLocked_objects (s := s) now chunk with same|⟨o',origin,same⟩
    · rw [same] at found
      exact held.clocked id o found
    · rw [same,Table.lookup_insert] at found
      split at found
      next =>
        cases found
        rcases origin with ⟨old,there,created,-⟩|⟨-,created⟩
        · rw [created]
          exact held.clocked _ old there
        · rw [created]
          exact ⟨clock,rfl⟩
      next => exact held.clocked id o found

theorem append_held (held : s.Held digest) (c : AppendCall) (clock : Clocked c.now.utc) :
    (append h digest s c.found c.found' c.now c.principal c.upload).1.Held digest ∧
      s.Grows (append h digest s c.found c.found' c.now c.principal c.upload).1 := by
  have still : s.Held digest ∧ s.Grows s := ⟨held,.refl s⟩
  unfold append
  cases valid : validateUpload h digest c.principal c.upload with
  | error failure => exact still
  | ok checked =>
    obtain ⟨record,content⟩ := checked
    dsimp only
    cases authorizeChunk c.found c.principal record with
    | error failure => exact still
    | ok access =>
      dsimp only
      cases stored : s.put record.storageKey content with
      | error failure => exact still
      | ok s' =>
        obtain ⟨grows,objects,chunkIDs,bytes⟩ := put_grows stored
        have held' : s'.Held digest := held.same objects chunkIDs grows.bytes
        have result : (s'.commitChunk c.found' c.now c.principal record).1.Held digest ∧
            s.Grows (s'.commitChunk c.found' c.now c.principal record).1 := by
          unfold commitChunk
          cases authorizeChunk c.found' c.principal record with
          | error failure => exact ⟨held',grows⟩
          | ok access =>
            obtain ⟨capturedAt,checked,rfl⟩ := validateUpload_ok valid
            obtain ⟨-,-,-,-,digested,-⟩ := checkUpload_ok checked
            exact ⟨commitLocked_held held' clock ⟨content,bytes,rfl,digested⟩
              (stableID_identified h (by decide) _),
              grows.trans (commitLocked_grows held'.sound _ _)⟩
        dsimp only
        split
        next failed =>
          rw [failed] at result
          exact result
        next done =>
          rw [done] at result
          exact result

theorem appends_held (calls : List AppendCall) (clocks : ∀ c ∈ calls, Clocked c.now.utc) (held : s.Held digest) :
    (appends h digest s calls).Held digest ∧ s.Grows (appends h digest s calls) := by
  induction calls generalizing s with
  | nil => exact ⟨held,.refl s⟩
  | cons c calls ih =>
    obtain ⟨first,rest⟩ := List.forall_mem_cons.mp clocks
    obtain ⟨held',grows⟩ := append_held held c first
    obtain ⟨last,later⟩ := ih rest held'
    exact ⟨last,grows.trans later⟩

end MemoryStore
end ATape.RawArchive
