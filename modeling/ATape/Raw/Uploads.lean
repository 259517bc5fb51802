import ATape.Raw.Refinement

/-! Sequences of uploads to both manifests. They answer alike as long as the times that
tell uploads apart differ by a microsecond. -/
namespace ATape.RawArchive
open Authorization Foundation Go SourceIdentity

structure Upload where
  principal : Principal
  chunk : UploadChunk
  now : Time
  facts : CommitFacts

namespace Upload
variable (h : Hash) (digest : Bytes → String)

def inMemory (m : MemoryStore) (u : Upload) : MemoryStore × Except Failure CommitResult :=
  match validateUpload h digest u.principal u.chunk with
  | .error failure => (m,.error failure)
  | .ok (record,_) => m.commitChunk u.facts.session u.now u.principal record

def inTables (t : RawTables) (u : Upload) : RawTables × Except Failure CommitResult :=
  match validateUpload h digest u.principal u.chunk with
  | .error failure => (t,.error failure)
  | .ok (record,_) => t.commitChunk u.facts u.principal record

def offer (u : Upload) : Except Failure ChunkRecord := do
  let (record,_) ← validateUpload h digest u.principal u.chunk
  let access ← RawTables.authorizeCommit u.facts u.principal record
  .ok {record with projectID := access.projectID}

def memoryAfter (m : MemoryStore) (uploads : List Upload) : MemoryStore :=
  uploads.foldl (fun m u => (inMemory h digest m u).1) m

def tablesAfter (t : RawTables) (uploads : List Upload) : RawTables :=
  uploads.foldl (fun t u => (inTables h digest t u).1) t

def memoryAnswers : MemoryStore → List Upload → List Verdict
  | _,[] => []
  | m,u::uploads => verdict (inMemory h digest m u).2::memoryAnswers (inMemory h digest m u).1 uploads

def tablesAnswers : RawTables → List Upload → List Verdict
  | _,[] => []
  | t,u::uploads => verdict (inTables h digest t u).2::tablesAnswers (inTables h digest t u).1 uploads

/-- An upload that both stores take as far as their manifests: it is valid and no part
of a publication, its texts can be kept, and the caller may capture the session. -/
structure Admitted (u : Upload) : Prop where
  unpublished : u.chunk.publication = none
  sourceName : storable u.chunk.sourceName = true
  mediaType : storable u.chunk.mediaType = true
  adapterID : storable u.chunk.adapterID = true
  adapterVersion : storable u.chunk.adapterVersion = true
  offered : ∃ r, u.offer h digest = .ok r

def texts (u : Upload) : List String :=
  [key [u.principal.userID,u.chunk.sessionID,u.chunk.installationID,u.chunk.adapterID,u.chunk.sourceObjectID],
    key [rawObjectID h u.principal.userID u.chunk.sessionID u.chunk.installationID u.chunk.adapterID
      u.chunk.sourceObjectID,u.chunk.sourceChunkID]]

variable {h digest}

theorem resolve_authorized {found : Option SessionAccessFacts} {principal : Principal} {access : SessionAccessFacts}
    (resolved : RawTables.resolveSessionAccess found principal .rawIngest = .ok access) :
    MemoryStore.authorizeSession found principal .rawIngest = .ok access := resolved

theorem authorized {u : Upload} {record : ChunkRecord} {access : SessionAccessFacts}
    (unpublished : record.publication = none)
    (permitted : RawTables.authorizeCommit u.facts u.principal record = .ok access) :
    MemoryStore.authorizeChunk u.facts.session u.principal record = .ok access := by
  unfold RawTables.authorizeCommit at permitted
  simp only [bind_ok,failWhen_ok,present_ok,exists_const,Except.ok.injEq] at permitted
  obtain ⟨access',resolved,active,_,_,_,_,_,same⟩ := permitted
  subst same
  unfold MemoryStore.authorizeChunk
  rw [failWhen_neg _ (by simp [unpublished]),ok_bind,resolve_authorized resolved,ok_bind,failWhen_neg _ active]
  rfl

theorem offer_ok {u : Upload} (admitted : u.Admitted h digest) {r : ChunkRecord} (offered : u.offer h digest = .ok r) :
    Storable r ∧ Named h {s | s ∈ u.texts h} r ∧
      (∀ m, inMemory h digest m u = m.commitLocked u.now r) ∧
      ∀ t, inTables h digest t u = t.settled (t.commitLocked r) := by
  unfold offer at offered
  simp only [bind_ok,Except.ok.injEq] at offered
  obtain ⟨⟨record,content⟩,valid,access,permitted,rfl⟩ := offered
  obtain ⟨capturedAt,checked,made⟩ := validateUpload_ok valid
  obtain ⟨_,_,_,size,_,lower,redacted,generation,offset,_⟩ := checkUpload_ok checked
  subst made
  refine ⟨⟨admitted.unpublished,admitted.sourceName,admitted.mediaType,admitted.adapterID,admitted.adapterVersion,
    redacted,size,offset,generation,lower⟩,⟨rfl,rfl,List.mem_cons_self,List.mem_cons_of_mem _ List.mem_cons_self⟩,?_,?_⟩
  · intro m
    unfold inMemory
    simp only [valid,MemoryStore.commitChunk,authorized admitted.unpublished permitted]
  · intro t
    unfold inTables
    simp only [valid,RawTables.commitChunk,permitted,RawTables.settled]
    split <;> simp_all

theorem lockstep {texts : Set String} (free : h.CollisionFree texts) {t : RawTables} {m : MemoryStore}
    (refines : Refines t m) (sound : m.Sound)
    (named : ∀ id c, m.chunkIDs.lookup id = some c → Named h texts c) {u : Upload} (admitted : u.Admitted h digest)
    (hashed : ∀ s ∈ u.texts h, s ∈ texts) :
    Refines (inTables h digest t u).1 (inMemory h digest m u).1 ∧ (inMemory h digest m u).1.Sound ∧
      (∀ id c, (inMemory h digest m u).1.chunkIDs.lookup id = some c → Named h texts c) ∧
      (verdict (inTables h digest t u).2 = verdict (inMemory h digest m u).2 ↔
        ∀ r, u.offer h digest = .ok r → TimeKept m r) := by
  obtain ⟨r,offered⟩ := admitted.offered
  obtain ⟨storable,own,inM,inT⟩ := offer_ok admitted offered
  have known : Named h texts r := ⟨own.object,own.chunk,hashed _ own.scope,hashed _ own.source⟩
  have only : (∀ r', u.offer h digest = .ok r' → TimeKept m r') ↔ TimeKept m r := by
    constructor
    · intro every
      exact every r offered
    · intro kept r' offered'
      rw [offered] at offered'
      cases offered'
      exact kept
  have sound' := MemoryStore.commitLocked_sound sound u.now r
  rw [inM,inT,only]
  cases stored : m.chunkIDs.lookup r.chunkID with
  | some existing =>
    obtain ⟨object,object',g,_,here,here',inMemory,inTables⟩ :=
      replay_lockstep refines sound free storable.unpublished stored (named _ _ stored) known u.now
    rw [inMemory,inTables]
    exact ⟨refines,sound,named,replay_agree stored (here'.trans here.symm) g⟩
  | none =>
    obtain ⟨t',m',v,w,inMemory,inTables,refines',agree⟩ := append_lockstep refines sound storable stored u.now
    have kept : TimeKept m r := by
      intro existing listed
      rw [stored] at listed
      cases listed
    have cases_ := MemoryStore.commitLocked_cases sound u.now r
    rw [inMemory] at sound' cases_ ⊢
    rw [inTables]
    refine ⟨refines',sound',?_,iff_of_true agree kept⟩
    intro id c listed
    rcases cases_ with ⟨_,same⟩ | ⟨_,_,_,_,_,same⟩ | ⟨o,g,_,_,_,_,same⟩
    · cases same
      exact named id c listed
    · cases same
      exact named id c listed
    · cases same
      simp only [Table.lookup_insert] at listed
      split at listed
      · cases listed
        exact ⟨known.object,known.chunk,known.scope,known.source⟩
      · exact named id c listed

theorem run_lockstep {texts : Set String} (free : h.CollisionFree texts) {uploads : List Upload}
    (admitted : ∀ u ∈ uploads, u.Admitted h digest) (hashed : ∀ u ∈ uploads, ∀ s ∈ u.texts h, s ∈ texts)
    {t : RawTables} {m : MemoryStore} (refines : Refines t m) (sound : m.Sound)
    (named : ∀ id c, m.chunkIDs.lookup id = some c → Named h texts c) :
    Refines (tablesAfter h digest t uploads) (memoryAfter h digest m uploads) ∧
      (tablesAnswers h digest t uploads = memoryAnswers h digest m uploads ↔
        ∀ before u after r, uploads = before++u::after → u.offer h digest = .ok r →
          TimeKept (memoryAfter h digest m before) r) := by
  induction uploads generalizing t m with
  | nil =>
    refine ⟨refines,iff_of_true rfl ?_⟩
    intro before u after r split
    simp at split
  | cons u uploads ih =>
    obtain ⟨refines',sound',named',agree⟩ := lockstep free refines sound named
      (admitted u List.mem_cons_self) (hashed u List.mem_cons_self)
    obtain ⟨final,agrees⟩ := ih (fun u' member => admitted u' (List.mem_cons_of_mem _ member))
      (fun u' member => hashed u' (List.mem_cons_of_mem _ member)) refines' sound' named'
    refine ⟨final,?_⟩
    rw [tablesAnswers,memoryAnswers,List.cons.injEq,agree,agrees]
    constructor
    · rintro ⟨first,rest⟩ before u' after r split offered
      cases before with
      | nil =>
        cases split
        exact first r offered
      | cons _ before =>
        cases split
        exact rest before u' after r rfl offered
    · intro every
      refine ⟨fun r offered => every [] u uploads r rfl offered,?_⟩
      intro before u' after r split offered
      subst split
      exact every (u::before) u' after r rfl offered

theorem new_refines : Refines .new .new where
  objects := by simp [RawTables.new,MemoryStore.new]
  generations := by simp [RawTables.new,MemoryStore.new,generationAt]
  chunks := by simp [RawTables.new,MemoryStore.new]

end Upload

/-! An upload whose answer was lost, sent again as it was. -/

namespace Upload
variable {h : Hash} {digest : Bytes → String}

theorem first_chunk (now : Time) {r : ChunkRecord} (first : r.generation = 1) (start : r.offset = 0) :
    ∃ m object, MemoryStore.new.commitLocked now r = (m,.ok ⟨object,⟨1,r.sizeBytes,1,r.final⟩,false⟩) ∧
      object.objectID = r.objectID ∧ m.chunkIDs.lookup r.chunkID = some {r with ordinal := 1} ∧
      generationAt m r.objectID r.generation = some ⟨1,r.sizeBytes,1,r.final⟩ := by
  have counted : (GenerationState.extend ⟨⟨1,0,0,false⟩,[]⟩ r).record = ⟨1,r.sizeBytes,1,r.final⟩ := by
    simp [GenerationState.extend]
  have made : MemoryStore.new.commitLocked now r =
      (MemoryStore.new.appended r (MemoryStore.newObject now r) ⟨⟨1,0,0,false⟩,[]⟩,
        .ok ⟨((MemoryStore.newObject now r).extend ⟨⟨1,0,0,false⟩,[]⟩ r).record,
          (GenerationState.extend ⟨⟨1,0,0,false⟩,[]⟩ r).record,false⟩) := by
    have opened : MemoryStore.new.openGeneration now r =
        .ok ({MemoryStore.new with objects := MemoryStore.new.objects.insert r.objectID (MemoryStore.newObject now r)},
          MemoryStore.newObject now r) := by
      simp only [MemoryStore.openGeneration,MemoryStore.new,AList.lookup_empty]
      rw [failWhen_neg _ (by simp [first,start])]
      rfl
    have fresh : MemoryStore.new.chunkIDs.lookup r.chunkID = none := by simp [MemoryStore.new]
    have here : (MemoryStore.newObject now r).generations.lookup r.generation = some ⟨⟨1,0,0,false⟩,[]⟩ := by
      simp only [MemoryStore.newObject,Table.lookup_insert,first,if_true]
    unfold MemoryStore.commitLocked
    simp only [fresh,opened,MemoryStore.appendChunk,here]
    rw [if_neg (by decide),if_neg (by simp [start])]
    simp only [MemoryStore.appended,AList.insert_insert]
  rw [counted] at made
  refine ⟨_,_,made,?_,?_,?_⟩
  · rfl
  · simp only [MemoryStore.appended,Table.lookup_insert,if_true]
  · rw [← counted,generationAt_held (o := (MemoryStore.newObject now r).extend ⟨⟨1,0,0,false⟩,[]⟩ r) _]
    · simp only [ObjectState.extend,Table.lookup_insert,if_true]
      rfl
    · simp only [MemoryStore.appended,Table.lookup_insert,if_true]

/-- The memory takes an upload that is sent again for a replay. The database, which has
cut its time, takes it for another one unless the time is a whole microsecond. -/
theorem resent {u : Upload} (free : h.CollisionFree {s | s ∈ u.texts h}) (admitted : u.Admitted h digest)
    {r : ChunkRecord} (offered : u.offer h digest = .ok r) (first : r.generation = 1) (start : r.offset = 0) :
    memoryAnswers h digest .new [u,u] =
        [.committed r.objectID ⟨1,r.sizeBytes,1,r.final⟩,.replayed r.objectID ⟨1,r.sizeBytes,1,r.final⟩] ∧
      tablesAnswers h digest .new [u,u] =
        [.committed r.objectID ⟨1,r.sizeBytes,1,r.final⟩,
          if r.capturedAt.nanos%1000 = 0 then .replayed r.objectID ⟨1,r.sizeBytes,1,r.final⟩
          else .failed (.conflict r.chunkID "chunkId was reused with different content or metadata")] := by
  obtain ⟨storable,known,inM,inT⟩ := offer_ok admitted offered
  obtain ⟨m,object,made,named,listed,counted⟩ := first_chunk u.now first start
  obtain ⟨t,_,v,w,inMemory,inTables,refines,agree⟩ := append_lockstep new_refines MemoryStore.new_sound storable
    (show MemoryStore.new.chunkIDs.lookup r.chunkID = none by simp [MemoryStore.new]) u.now
  rw [made] at inMemory
  cases inMemory
  have sound : m.Sound := by
    have sound' := MemoryStore.commitLocked_sound MemoryStore.new_sound u.now r
    rwa [made] at sound'
  have stored : Named h {s | s ∈ u.texts h} {r with ordinal := 1} :=
    ⟨known.object,known.chunk,known.scope,known.source⟩
  obtain ⟨object',object'',g,number,here,here',again,again'⟩ :=
    replay_lockstep refines sound free storable.unpublished listed stored known u.now
  cases counted.symm.trans number
  have content : sameContent {r with ordinal := 1} r = true := by simp [sameContent,MemoryStore.sameChunk,Time.equal]
  have whole : (timestamptz r.capturedAt).equal r.capturedAt = true ↔ r.capturedAt.nanos%1000 = 0 := by
    unfold Time.equal
    rw [decide_eq_true_iff]
    simp only [timestamptz,Time.utc,Time.truncateMicrosecond]
    omega
  have itself : r.capturedAt.equal r.capturedAt = true := by simp [Time.equal]
  simp only [memoryAnswers,tablesAnswers,inM,inT,made,inTables,again,again',agree,content,whole,itself,Bool.true_and,
    verdict_replay,if_true,here,here']
  simp [verdict,named]

end Upload
/-! A chunk of two bytes, uploaded twice. -/

def notes (capturedAt : String) : UploadChunk where
  protocolVersion := "atape.raw.v1"
  sourceChunkID := "1:0"
  sourceObjectID := "notes"
  sessionID := "session"
  installationID := "laptop"
  generation := 1
  offset := 0
  sourceName := "notes.jsonl"
  mediaType := "application/x-ndjson"
  adapterID := "codex"
  adapterVersion := "1"
  capturedAt := capturedAt
  clientRedacted := true
  final := false
  contentBase64 := "aGk="
  sha256 := "8f434346648f6b96df89dda901c5176b10a6d83961dd3c1ac88b59b2dc327aa4"
  publication := none

def notesDigest (_ : Bytes) : String := "8f434346648f6b96df89dda901c5176b10a6d83961dd3c1ac88b59b2dc327aa4"

def writer : Principal := ⟨"writer",.cliAuthentication,false⟩

def writerSession : SessionAccessFacts :=
  ⟨"project","active",⟨.conversation,"","team","writer"⟩,⟨"team","writer",.member,true⟩⟩

def sent (capturedAt : String) : Upload :=
  ⟨writer,notes capturedAt,.zero,⟨some writerSession,some ⟨"force","",1,1⟩,none,fun _ => none⟩⟩

def notesHash : Hash := .table [key ["writer","session","laptop","codex","notes"],
  key ["r_"++String.ofList (List.replicate 24 '0'),"1:0"]]

theorem sent_texts (capturedAt : String) : notesHash.CollisionFree {s | s ∈ (sent capturedAt).texts notesHash} := by
  have object : rawObjectID notesHash "writer" "session" "laptop" "codex" "notes" =
      "r_"++String.ofList (List.replicate 24 '0') := by
    rw [rawObjectID,stableID,notesHash,Hash.table_short,List.idxOf_cons_self]
    rfl
  have texts : (sent capturedAt).texts notesHash = [key ["writer","session","laptop","codex","notes"],
      key ["r_"++String.ofList (List.replicate 24 '0'),"1:0"]] := by
    rw [← object]
    rfl
  rw [texts]
  exact Hash.table_collisionFree (by decide)

theorem sent_permitted (capturedAt : String) {record : ChunkRecord} (unpublished : record.publication = none) :
    RawTables.authorizeCommit (sent capturedAt).facts writer record = .ok writerSession := by
  have resolved : RawTables.resolveSessionAccess (some writerSession) writer .rawIngest = .ok writerSession := rfl
  unfold RawTables.authorizeCommit
  simp only [bind_ok,failWhen_ok,present_ok,exists_const,Except.ok.injEq]
  refine ⟨writerSession,resolved,by decide,⟨"force","",1,1⟩,rfl,by decide,(),?_,rfl⟩
  simp [RawTables.publicationChunkAuthority,sent,unpublished]

theorem sent_offer {capturedAt : String} (valid : (checkUpload notesDigest (notes capturedAt)).isOk = true) :
    (sent capturedAt).Admitted notesHash notesDigest ∧
      ∃ r, (sent capturedAt).offer notesHash notesDigest = .ok r ∧ r.generation = 1 ∧ r.offset = 0 ∧
        ∃ t, parseRFC3339 capturedAt = some t ∧ r.capturedAt = t.utc := by
  obtain ⟨⟨content,t⟩,checked⟩ : ∃ parts, checkUpload notesDigest (notes capturedAt) = .ok parts :=
    ⟨_,ok_after ([],Time.zero) _ valid⟩
  obtain ⟨parsed,_⟩ := checkUpload_ok checked
  have accepted : validateUpload notesHash notesDigest writer (notes capturedAt) =
      .ok (recordOf notesHash writer (notes capturedAt) content.length t,content) := by
    unfold validateUpload
    rw [checked]
    rfl
  have offered : (sent capturedAt).offer notesHash notesDigest =
      .ok {recordOf notesHash writer (notes capturedAt) content.length t with projectID := "project"} := by
    unfold Upload.offer
    simp only [bind_ok,Except.ok.injEq]
    exact ⟨_,accepted,writerSession,sent_permitted capturedAt rfl,rfl⟩
  refine ⟨⟨rfl,?_,?_,?_,?_,_,offered⟩,_,offered,rfl,rfl,t,parsed,rfl⟩
  · exact (by decide : storable "notes.jsonl" = true)
  · exact (by decide : storable "application/x-ndjson" = true)
  · exact (by decide : storable "codex" = true)
  · exact (by decide : storable "1" = true)

/-- A chunk whose time is finer than a microsecond: sent again, it is a replay to the
memory and a conflict to the database. -/
theorem resent_conflicts : ∃ objectID chunkID g,
    Upload.memoryAnswers notesHash notesDigest .new
        [sent "2026-09-04T10:52:18.123456789Z",sent "2026-09-04T10:52:18.123456789Z"] =
      [.committed objectID g,.replayed objectID g] ∧
    Upload.tablesAnswers notesHash notesDigest .new
        [sent "2026-09-04T10:52:18.123456789Z",sent "2026-09-04T10:52:18.123456789Z"] =
      [.committed objectID g,
        .failed (.conflict chunkID "chunkId was reused with different content or metadata")] := by
  obtain ⟨admitted,r,offered,first,start,t,parsed,time⟩ :=
    @sent_offer "2026-09-04T10:52:18.123456789Z" (by decide)
  obtain ⟨inMemory,inTables⟩ := Upload.resent (sent_texts _) admitted offered first start
  have fine : ¬ r.capturedAt.nanos%1000 = 0 := by
    have digits : (parseRFC3339 "2026-09-04T10:52:18.123456789Z").map (fun t => t.nanos%1000) = some 789 := by
      decide
    rw [parsed,Option.map_some,Option.some.injEq] at digits
    rw [time]
    change ¬ t.nanos%1000 = 0
    omega
  rw [if_neg fine] at inTables
  exact ⟨_,_,_,inMemory,inTables⟩

/-- The database holds what the memory would hold after any uploads, and answers as it
would exactly when no stored chunk is offered again at a time that its microseconds
tell apart otherwise than the time itself does. -/
theorem uploads_refine {h : Hash} {digest : Bytes → String} {uploads : List Upload}
    (free : h.CollisionFree {s | ∃ u ∈ uploads, s ∈ u.texts h}) (admitted : ∀ u ∈ uploads, u.Admitted h digest) :
    Refines (Upload.tablesAfter h digest .new uploads) (Upload.memoryAfter h digest .new uploads) ∧
      (Upload.tablesAnswers h digest .new uploads = Upload.memoryAnswers h digest .new uploads ↔
        ∀ before u after r, uploads = before++u::after → u.offer h digest = .ok r →
          TimeKept (Upload.memoryAfter h digest .new before) r) := by
  apply Upload.run_lockstep free admitted
  · intro u member s known
    exact ⟨u,member,known⟩
  · exact Upload.new_refines
  · exact MemoryStore.new_sound
  · intro id c listed
    simp [MemoryStore.new] at listed

/-- At a whole second, both answer with a replay. -/
theorem uploads_refine_notes :
    Upload.tablesAnswers notesHash notesDigest .new [sent "2026-09-04T10:52:18+08:00",sent "2026-09-04T10:52:18+08:00"] =
      Upload.memoryAnswers notesHash notesDigest .new
        [sent "2026-09-04T10:52:18+08:00",sent "2026-09-04T10:52:18+08:00"] := by
  obtain ⟨admitted,r,offered,first,start,t,parsed,time⟩ :=
    @sent_offer "2026-09-04T10:52:18+08:00" (by decide)
  have whole : r.capturedAt.nanos%1000 = 0 := by
    have digits : (parseRFC3339 "2026-09-04T10:52:18+08:00").map (fun t => t.nanos%1000) = some 0 := by
      decide
    rw [parsed,Option.map_some,Option.some.injEq] at digits
    rw [time]
    exact digits
  have admitted' : ∀ u ∈ [sent "2026-09-04T10:52:18+08:00",sent "2026-09-04T10:52:18+08:00"],
      u.Admitted notesHash notesDigest := by
    intro u member
    rcases List.mem_pair.mp member with rfl | rfl <;> exact admitted
  have free : notesHash.CollisionFree {s | ∃ u ∈ [sent "2026-09-04T10:52:18+08:00",sent "2026-09-04T10:52:18+08:00"],
      s ∈ u.texts notesHash} := by
    apply (sent_texts "2026-09-04T10:52:18+08:00").mono
    rintro s ⟨u,member,known⟩
    rcases List.mem_pair.mp member with rfl | rfl <;> exact known
  apply (uploads_refine free admitted').2.mpr
  intro before u after r' split offered'
  apply TimeKept.whole
  intro existing known
  obtain ⟨_,_,inMemory,_⟩ := Upload.offer_ok admitted offered
  obtain ⟨m,_,made,_,listed,_⟩ := Upload.first_chunk (sent "2026-09-04T10:52:18+08:00").now first start
  have lengths := congrArg List.length split
  cases before with
  | nil => simp [Upload.memoryAfter,MemoryStore.new] at known
  | cons u' before =>
    cases before with
    | nil =>
      obtain ⟨rfl,same⟩ := List.cons.inj split
      obtain ⟨rfl,_⟩ := List.cons.inj same
      cases offered.symm.trans offered'
      simp only [Upload.memoryAfter,List.foldl_cons,List.foldl_nil,inMemory,made] at known
      cases listed.symm.trans known
      exact whole
    | cons _ _ =>
      simp only [List.length_cons,List.length_append,List.length_nil] at lengths
      omega

end ATape.RawArchive
