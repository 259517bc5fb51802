import ATape.Canonical.Rows
import ATape.Ingestion.Submission

/-! A conversation of one message, in any number of revisions, and what the
ingestor makes of it under any digest. -/
namespace ATape.Ingestion
open Foundation Go Authorization SourceIdentity Canonical

structure Message where
  batchID : String
  title : String
  harness : String
  label : String
  text : String
  revision : Int
  eventRevision : Int

def writer : Principal := ⟨"ada",.cliAuthentication,false⟩

def moment : String := "2026-01-02T03:04:05Z"

def momentTime : Time := ⟨63902919845000000000,0⟩

/-- A text that may stand in a required field. -/
def Filled (value : String) : Prop := trimSpace value ≠ "" ∧ len value ≤ 100

instance (value : String) : Decidable (Filled value) := inferInstanceAs (Decidable (_ ∧ _))

theorem Filled.required {value : String} (filled : Filled value) (field : String) {n : Nat} (room : 100 ≤ n) :
    required field value n = .ok () := by
  have short : ¬len value > n := by
    have := filled.2
    omega
  simp [Ingestion.required,failWhen,filled.1,short,bind,Except.bind]

theorem moment_read (field : String) : timestamp field moment = .ok momentTime := by
  have read : parseRFC3339 moment = some momentTime := by decide
  have known : momentTime.truncateMicrosecond.isZero = false := by decide
  simp [timestamp,read,known,present,failWhen,bind,Except.bind,pure,Except.pure]

theorem moment_written : timeJson momentTime = some (.str moment) ∧
    sourceTimeJson momentTime = some (some (.str moment)) ∧ (timeJson .zero).isSome = true := by
  have written : momentTime.marshalText = some moment := by decide
  have zero : Time.zero.marshalText.isSome = true := by decide
  have known : momentTime.isZero = false := by decide
  simp [timeJson,sourceTimeJson,written,zero,known]

def bodyDigest (h : Hash) (body : Option Json) : String := h.hex (marshal (body.getD .null))

theorem digest_body (h : Hash) {body : Option Json} (written : body.isSome = true) :
    digest h body = .ok (bodyDigest h body) := by
  obtain ⟨j,rfl⟩ := Option.isSome_iff_exists.mp written
  rfl

namespace Message

structure Valid (m : Message) : Prop where
  batchID : Filled m.batchID
  title : Filled m.title
  harness : Filled m.harness
  label : Filled m.label
  labelRoom : len (trimSpace m.label) ≤ 200
  text : Filled m.text
  revision : 1 ≤ m.revision
  eventRevision : 1 ≤ m.eventRevision

def batch (m : Message) : Batch where
  protocolVersion := protocolVersion
  canonicalProfileVersion := canonicalProfileVersion
  batchID := m.batchID
  observedAt := moment
  source := ⟨"codex","1.0","laptop"⟩
  projectID := "p_1"
  session :=
    { sourceSessionID := "s1"
      revision := m.revision
      title := m.title
      summary := ""
      insight := ""
      actor := ⟨"Ada",m.harness⟩
      branch := "main"
      status := "active"
      captureStatus := "healthy"
      updatedAt := moment
      updatedAtUnknown := false
      reportedEventCount := 1 }
  threads := [⟨"main",none,m.revision,m.label,"","healthy"⟩]
  events :=
    [{ sourceEventID := "e1"
       sourceThreadID := "main"
       revision := m.eventRevision
       projectionRevision := 1
       sourceOrder := 0
       eventIndex := 0
       orderFidelity := "native"
       fidelity := "native"
       rawRef := ⟨"unavailable","","","not stored"⟩
       kind := "message"
       author := "Ada"
       occurredAt := moment
       occurredAtUnknown := false
       text := m.text
       toolLabel := ""
       toolUpdateJSON := ""
       childSourceThreadID := none }]
  usage := []

def scope : String := key ["p_1","ada","laptop","codex","s1"]

def threadKey : String := key [scope,"thread","main"]

def eventKey : String := key [scope,"event","main","e1"]

def session (m : Message) (id : String) : SessionRecord where
  id
  projectID := "p_1"
  capturedByUserID := "ada"
  sourceKey := key [scope,"session"]
  revision := m.revision
  digest := ""
  title := trimSpace m.title
  summary := ""
  insight := ""
  actor := ⟨"Ada",trimSpace m.harness⟩
  branch := "main"
  status := "active"
  captureStatus := "healthy"
  updatedAt := momentTime
  reportedEventCount := 1

def thread (m : Message) (sessionID : String) : ThreadRecord where
  id := "root"
  sessionID
  sourceKey := threadKey
  revision := m.revision
  digest := ""
  label := trimSpace m.label
  summary := ""
  parentThreadID := none
  captureStatus := "healthy"

def event (m : Message) (id sessionID : String) : EventRecord where
  id
  sessionID
  threadID := "root"
  sourceKey := eventKey
  revision := m.eventRevision
  projectionRevision := 1
  digest := ""
  sourceOrder := 0
  eventIndex := 0
  orderFidelity := "native"
  fidelity := "native"
  rawRef := "unavailable:not stored"
  adapterVersion := "1.0"
  schemaVersion := canonicalProfileVersion
  observedAt := .zero
  receivedAt := .zero
  ingestSeq := 0
  kind := "message"
  author := "Ada"
  occurredAt := momentTime
  text := m.text
  toolLabel := ""
  toolUpdateJSON := ""
  childThreadID := none

def sessionID (h : Hash) : String := stableID h "s_" scope

def eventID (h : Hash) : String := stableID h "e_" eventKey

def sessionRow (h : Hash) (m : Message) : SessionRecord :=
  {m.session (sessionID h) with digest := bodyDigest h (m.session (sessionID h)).json}

def threadRow (h : Hash) (m : Message) : ThreadRecord :=
  {m.thread (sessionID h) with digest := bodyDigest h (m.thread (sessionID h)).json}

def eventRow (h : Hash) (m : Message) : EventRecord :=
  {m.event (eventID h) (sessionID h) with digest := bodyDigest h (m.event (eventID h) (sessionID h)).json}

/-- What the ingestor makes of the batch. -/
def written (h : Hash) (m : Message) : WriteBatch where
  key := key ["p_1","ada","laptop","codex","batch",m.batchID]
  digest := bodyDigest h (some m.batch.json)
  observedAt := momentTime
  projectID := "p_1"
  session := m.sessionRow h
  threads := [m.threadRow h]
  events := [m.eventRow h]
  usage := []

theorem filled : ∀ value ∈ ["codex","1.0","laptop","p_1","ada","s1","Ada","main","e1","not stored"],
    Filled value := by decide

theorem required_filled {value : String}
    (member : value ∈ ["codex","1.0","laptop","p_1","ada","s1","Ada","main","e1","not stored"]) (field : String)
    {n : Nat} (room : 100 ≤ n) : required field value n = .ok () :=
  (filled value member).required field room

theorem trimmed : trimSpace "Ada" = "Ada" ∧ trimSpace "main" = "main" ∧ trimSpace "" = "" ∧ len "" = 0 ∧
    len "main" = 4 := by decide

section Prepared
variable {m : Message} (valid : m.Valid) (h : Hash)
include valid

theorem checked : checkBatch writer m.batch = .ok (momentTime,momentTime) := by
  have later : ¬m.revision < 1 := by
    have := valid.revision
    omega
  have room : ¬len m.title > 2000 := by
    have := valid.title.2
    omega
  simp [checkBatch,batch,writer,failWhen,valid.batchID.required,valid.harness.required,room,
    required_filled,moment_read,sourceTimestamp,later,bind,Except.bind,pure,Except.pure,trimmed,
    supportedCanonicalProfile,modernCanonicalProfiles,captureStatuses,optional,maxThreads,maxBatchEvents]

theorem threads_normalized (id : String) {ids : Table String String} (known : ids.lookup "main" = some "root") :
    normalizeThreads h scope id ids 0 m.batch.threads =
      .ok [{m.thread id with digest := bodyDigest h (m.thread id).json}] := by
  have later : ¬m.revision < 1 := by
    have := valid.revision
    omega
  have room : ¬len (trimSpace m.label) > 200 := by
    have := valid.labelRoom
    omega
  have body : ∀ r : ThreadRecord, digest h r.json = .ok (bodyDigest h r.json) := fun r => digest_body h rfl
  simp [batch,normalizeThreads,normalizeThread,failWhen,later,bind,Except.bind,pure,Except.pure,valid.label.1,
    captureStatuses,known,optional,body,thread,threadKey,sourceKey,room,trimmed,-key_cons]

theorem events_normalized (id : String) {ids : Table String String} (known : ids.lookup "main" = some "root") :
    normalizeEvents h writer m.batch scope id ids 0 [] m.batch.events =
      .ok [{m.event (eventID h) id with digest := bodyDigest h (m.event (eventID h) id).json}] := by
  have later : ¬m.eventRevision < 1 := by
    have := valid.eventRevision
    omega
  have body : (m.event (eventID h) id).json.isSome = true := by
    obtain ⟨_,occurred,zero⟩ := moment_written
    obtain ⟨j,zero⟩ := Option.isSome_iff_exists.mp zero
    simp [EventRecord.json,event,zero,occurred]
  have digested := digest_body h body
  simp only [event,eventID,eventKey] at digested
  simp [batch,normalizeEvents,normalizeEvent,failWhen,later,bind,Except.bind,pure,Except.pure,required_filled,
    valid.text.required,maxTextBytes,present,normalizeRawReference,canonicalKinds,sourceTimestamp,moment_read,
    trimmed,toolProjection,childThread,event,eventID,eventKey,sourceKey,digested,known,-key_cons]

theorem session_normalized : normalizeSession h writer m.batch momentTime =
    .ok {m.session (sessionID h) with digest := bodyDigest h (m.session (sessionID h)).json} := by
  have body : (m.session (sessionID h)).json.isSome = true := by
    simp [SessionRecord.json,session,moment_written.2.1]
  have digested := digest_body h body
  simp only [session,sessionID,scope] at digested
  simp [normalizeSession,batch,writer,sessionTitle,valid.title.1,SourceIdentity.sessionID,sessionSourceKey,session,
    sessionID,scope,trimmed,digested,bind,Except.bind,pure,Except.pure,-key_cons]

theorem prepared : prepareBatch h writer m.batch = .ok (m.written h) := by
  have ids : normalizeThreadIDs h scope m.batch.threads = .ok (AList.insert "main" "root" ∅) := by
    simp [normalizeThreadIDs,batch,collectThreadIDs,checkParents,threadCycle,cycleFrom,parentOf,failWhen,
      threadID,required_filled,bind,Except.bind,pure,Except.pure]
  have known : (AList.insert "main" "root" ∅ : Table String String).lookup "main" = some "root" :=
    AList.lookup_insert ∅
  have inScope : batchScope writer m.batch = scope := rfl
  have own : SourceIdentity.sessionID h m.batch.projectID writer.userID m.batch.source.installationID
      m.batch.source.adapterID m.batch.session.sourceSessionID = sessionID h := rfl
  have unused : m.batch.usage = [] := rfl
  simp only [prepareBatch,normalizeBatch,checked valid,inScope,ids,own,
    threads_normalized valid h (sessionID h) known,events_normalized valid h (sessionID h) known,
    session_normalized valid h,unused,normalizeUsage,normalizeUsageRecords,bind,Except.bind,pure,Except.pure,
    digest,present]
  rfl

end Prepared

/-! The store that takes the conversation -/

/-- A store with the writer's project. -/
def store : MemoryStore :=
  .newWithControlPlane [⟨"p_1","t_1","atape","git","active"⟩] [⟨"t_1","ada",.member,true⟩]

def order : Order := ⟨id,fun _ => .refl _⟩

/-- The call that applies the batch. -/
def apply (h : Hash) (m : Message) (s : MemoryStore) : Except Failure (ApplyResult × MemoryStore) :=
  s.applyBatch (fun _ => momentTime) order writer (m.written h)

/-- The writer may ingest into the store. -/
structure Open (h : Hash) (s : MemoryStore) : Prop where
  project : s.authorizeProject writer "p_1" .canonicalIngest = .ok ⟨"p_1","t_1","atape","git","active"⟩
  alive : s.deletedSessions.lookup (sessionID h) = none

theorem Open.write {h : Hash} {s : MemoryStore} (opened : Open h s) (received : Nat → Time) (order : Order)
    (w : WriteBatch) (events : List EventRecord) (result : ApplyResult) :
    Open h (s.write received order w events result) := by
  obtain ⟨deleted,projects,memberships,_⟩ := MemoryStore.write_kept s received order w events result
  refine ⟨?_,deleted.symm ▸ opened.alive⟩
  rw [← opened.project]
  simp only [MemoryStore.authorizeProject,MemoryStore.membership,projects,memberships]

theorem store_open (h : Hash) : Open h store := ⟨by decide,rfl⟩

variable {h : Hash} {m : Message} {s : MemoryStore}

theorem apply_ok (opened : Open h s) (unknown : s.batchReceipts.lookup (m.written h).key = none)
    (session : ∀ old, s.sessions.lookup (sessionID h) = some old → old.sourceKey = key [scope,"session"] ∧
      old.projectID = "p_1" ∧ old.capturedByUserID = "ada" ∧ old.revision ≠ m.revision)
    (thread : ∀ old, s.threads.lookup (recordKey (sessionID h) "root") = some old →
      old.sourceKey = threadKey ∧ old.parentThreadID = none ∧ old.revision ≠ m.revision)
    {verdict : MemoryStore.Verdict} (event : s.classify (m.eventRow h) = .ok verdict) :
    m.apply h s = .ok (s.summarize (m.written h) [verdict],
      s.write (fun _ => momentTime) order (m.written h) (MemoryStore.applied (m.written h) [verdict])
        (s.summarize (m.written h) [verdict])) := by
  have admitted : s.admission writer (m.written h) = .ok () := by
    have alive : s.deletedSessions.lookup (m.written h).session.id = none := opened.alive
    have project : s.authorizeProject writer (m.written h).projectID .canonicalIngest =
        .ok ⟨"p_1","t_1","atape","git","active"⟩ := opened.project
    have inside : (m.written h).session.projectID = (m.written h).projectID ∧
        (m.written h).session.capturedByUserID = writer.userID := ⟨rfl,rfl⟩
    simp [MemoryStore.admission,project,alive,inside,failWhen,bind,Except.bind]
  have sessions : s.checkSession writer (m.sessionRow h) = .ok () := by
    unfold MemoryStore.checkSession
    split
    next => rfl
    next old held =>
      obtain ⟨source,project,user,later⟩ := session old held
      have given : (m.sessionRow h).sourceKey = key [scope,"session"] ∧ (m.sessionRow h).projectID = "p_1" ∧
          (m.sessionRow h).revision = m.revision ∧ writer.userID = "ada" := ⟨rfl,rfl,rfl,rfl⟩
      simp [source,project,user,later,given,failWhen,bind,Except.bind]
  have threads : s.checkThread (m.threadRow h) = .ok () := by
    unfold MemoryStore.checkThread
    split
    next => rfl
    next old held =>
      obtain ⟨source,parent,later⟩ := thread old held
      have given : (m.threadRow h).sourceKey = threadKey ∧ (m.threadRow h).parentThreadID = none ∧
          (m.threadRow h).revision = m.revision := ⟨rfl,rfl,rfl⟩
      simp [source,parent,later,given,failWhen,bind,Except.bind]
  have checked : s.check writer (m.written h) = .ok [verdict] := by
    simp [MemoryStore.check,written,sessions,threads,event,bind,Except.bind,pure,Except.pure]
  simp [apply,MemoryStore.applyBatch,admitted,unknown,checked,bind,Except.bind,pure,Except.pure]

structure Held (h : Hash) (m : Message) (s : MemoryStore) : Prop where
  opened : Open h s
  receipts : ∀ k, k ≠ (m.written h).key → s.batchReceipts.lookup k = none
  session : s.sessions.lookup (sessionID h) = some (m.sessionRow h)
  thread : s.threads.lookup (recordKey (sessionID h) "root") = some (m.threadRow h)
  source : s.eventBySource.lookup eventKey = some (eventID h)
  event : ∃ seq, s.events.lookup (eventID h) = some (MemoryStore.arrived seq momentTime momentTime (m.eventRow h))

theorem first_ok (h : Hash) (m : Message) : ∃ result s', m.apply h store = .ok (result,s') ∧ Held h m s' := by
  have fresh : store.classify (m.eventRow h) = .ok .inserted := by
    have unknown : store.eventBySource.lookup (m.eventRow h).sourceKey = none := rfl
    have nothing : store.events.lookup (m.eventRow h).id = none := rfl
    simp [MemoryStore.classify,unknown,nothing,failWhen,bind,Except.bind,pure,Except.pure]
  have applied := apply_ok (store_open h) rfl (fun _ held => nomatch held) (fun _ held => nomatch held) fresh
  refine ⟨_,_,applied,?_⟩
  have rows := MemoryStore.write_received store (fun _ => momentTime) order (m.written h) [m.eventRow h]
    (store.summarize (m.written h) [.inserted]) (List.nodup_singleton _) (List.nodup_singleton _)
  have kept := MemoryStore.write_kept store (fun _ => momentTime) order (m.written h) [m.eventRow h]
    (store.summarize (m.written h) [.inserted])
  refine ⟨(store_open h).write _ _ _ _ _,?_,?_,?_,?_,?_⟩
  · intro k other
    have receipts := kept.2.2.2
    change (MemoryStore.write _ _ _ _ [m.eventRow h] _).batchReceipts.lookup k = none
    rw [receipts,Table.lookup_insert,if_neg other]
    rfl
  · have own := MemoryStore.session_own store (fun _ => momentTime) order (m.written h) [m.eventRow h]
      (store.summarize (m.written h) [.inserted])
    exact own
  · have own := MemoryStore.thread_own store (fun _ => momentTime) order (m.written h) [m.eventRow h]
      (store.summarize (m.written h) [.inserted]) (List.nodup_singleton _) (List.mem_singleton_self (m.threadRow h))
    exact own
  · exact rows.source (m.eventRow h) (List.mem_singleton_self _)
  · obtain ⟨seq,_,_,row⟩ := rows.own (m.eventRow h) (List.mem_singleton_self _)
    exact ⟨seq,row⟩

theorem Held.next_ok (held : Held h m s) {m' : Message} (batch : m'.batchID ≠ m.batchID)
    (revision : m.revision ≠ m'.revision) (event : m.eventRevision ≠ m'.eventRevision) :
    ∃ result s', m'.apply h s = .ok (result,s') := by
  have unknown : s.batchReceipts.lookup (m'.written h).key = none := by
    apply held.receipts
    intro same
    exact batch (by simpa using key_injective same)
  have classified : ∃ verdict, s.classify (m'.eventRow h) = .ok verdict := by
    obtain ⟨seq,row⟩ := held.event
    have source : s.eventBySource.lookup (m'.eventRow h).sourceKey = some (eventID h) := held.source
    have inside : (MemoryStore.arrived seq momentTime momentTime (m.eventRow h)).sessionID =
        (m'.eventRow h).sessionID ∧
        (MemoryStore.arrived seq momentTime momentTime (m.eventRow h)).threadID = (m'.eventRow h).threadID ∧
        (m'.eventRow h).projectionRevision =
          (MemoryStore.arrived seq momentTime momentTime (m.eventRow h)).projectionRevision := ⟨rfl,rfl,rfl⟩
    have apart : (m'.eventRow h).revision ≠
        (MemoryStore.arrived seq momentTime momentTime (m.eventRow h)).revision := Ne.symm event
    by_cases older : (m'.eventRow h).revision <
        (MemoryStore.arrived seq momentTime momentTime (m.eventRow h)).revision
    · exact ⟨.stale,by simp [MemoryStore.classify,source,row,inside,older,failWhen,bind,Except.bind,pure,Except.pure]⟩
    · exact ⟨.updated,by
        simp [MemoryStore.classify,source,row,inside,older,apart,failWhen,bind,Except.bind,pure,Except.pure]⟩
  obtain ⟨verdict,classified⟩ := classified
  refine ⟨_,_,apply_ok held.opened unknown ?_ ?_ classified⟩
  · intro old found
    rw [held.session] at found
    cases found
    exact ⟨rfl,rfl,rfl,revision⟩
  · intro old found
    rw [held.thread] at found
    cases found
    exact ⟨rfl,rfl,revision⟩

/-! The texts hashed for two messages. -/

def marked (mark : String) (place : Nat) : String :=
  mark++String.ofList (List.replicate 24 (hexDigits.getD place '0'))

/-- The texts that one message has hashed. -/
def texts (m : Message) (sessionID eventID : String) : List String :=
  marshal m.batch.json::
    (WriteBatch.bodyText (m.session sessionID).json++threadKey::WriteBatch.bodyText (m.thread sessionID).json++
      eventKey::WriteBatch.bodyText (m.event eventID sessionID).json)

theorem hashed_texts (h : Hash) (m : Message) :
    hashedTexts m.batch (m.written h) = m.texts (sessionID h) (eventID h) := by
  change marshal m.batch.json::(WriteBatch.bodyText (m.session (sessionID h)).json++
    (threadKey::WriteBatch.bodyText (m.thread (sessionID h)).json++[])++
    (eventKey::WriteBatch.bodyText (m.event (eventID h) (sessionID h)).json++[])++[]) = _
  simp only [texts,List.append_nil,List.append_assoc,List.cons_append]

def pairTexts (m m' : Message) : List String :=
  [scope,eventKey]++m.texts (marked "s_" 0) (marked "e_" 1)++m'.texts (marked "s_" 0) (marked "e_" 1)

def pairHash (m m' : Message) : Hash := .table (pairTexts m m')

theorem pair_sessionID (m m' : Message) : sessionID (pairHash m m') = marked "s_" 0 := by
  have place : (pairTexts m m').idxOf scope = 0 := List.idxOf_cons_self
  rw [sessionID,stableID,pairHash,Hash.table_short,place]
  rfl

theorem scope_ne_eventKey : scope ≠ eventKey := by
  intro same
  have parts := congrArg List.length (key_injective same)
  simp at parts

theorem pair_eventID (m m' : Message) : eventID (pairHash m m') = marked "e_" 1 := by
  have place : (pairTexts m m').idxOf eventKey = 1 := by
    simp [pairTexts,List.idxOf_cons_ne _ scope_ne_eventKey]
  rw [eventID,stableID,pairHash,Hash.table_short,place]
  rfl

theorem texts_length (m : Message) (sessionID eventID : String) : (m.texts sessionID eventID).length ≤ 6 := by
  have one : ∀ body : Option Json, (WriteBatch.bodyText body).length ≤ 1 := by
    intro body
    cases body <;> simp [WriteBatch.bodyText]
  have session := one (m.session sessionID).json
  have thread := one (m.thread sessionID).json
  have event := one (m.event eventID sessionID).json
  simp only [texts,List.length_cons,List.length_append]
  omega

theorem pair_collisionFree (m m' : Message) : (pairHash m m').CollisionFree {t | t ∈ pairTexts m m'} := by
  apply Hash.table_collisionFree
  have first := m.texts_length (marked "s_" 0) (marked "e_" 1)
  have second := m'.texts_length (marked "s_" 0) (marked "e_" 1)
  simp only [pairTexts,List.length_append,List.length_cons,List.length_nil]
  omega

theorem pair_submitted (m m' : Message) {n : Message} (valid : n.Valid) (one : n = m ∨ n = m') :
    Submitted (pairHash m m') {t | t ∈ pairTexts m m'} writer (n.written (pairHash m m')) := by
  refine ⟨n.batch,prepared valid _,?_⟩
  rw [hashed_texts,pair_sessionID,pair_eventID]
  intro t member
  rcases one with rfl | rfl
  · exact List.mem_append_left _ (List.mem_append_right _ member)
  · exact List.mem_append_right _ member

end Message
end ATape.Ingestion
