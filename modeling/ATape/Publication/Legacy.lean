import ATape.Canonical.Store
import ATape.Publication.Runs

/-! The legacy ingestion, which writes the tables of the sessions that are not published,
and the histories of a store that both kinds of writers use. -/
namespace ATape.Publication
open Authorization Canonical Foundation Go SourceIdentity
variable {result : ApplyResult}

inductive LegacyFailure
  | rejected (rejection : Ingestion.Rejection)
  | refused (failure : Failure)
  | conflict (identity reason : String)

namespace Tables

def receiveSession (pk : Packages) (t : Tables) (p : Principal) (session : SessionRecord) : Except LegacyFailure Tables :=
  match t.sessions.lookup session.id with
  | none => do
    let user ← present (pk.uuid session.capturedByUserID) (.conflict session.id "capturing User is invalid")
    failWhen (t.sessions.any fun _ row => row.record.sourceKey = session.sourceKey)
      (.refused (.persist "insert session"))
    .ok {t with sessions := t.sessions.insert session.id ⟨{session with capturedByUserID := user},"active"⟩}
  | some existing => do
    failWhen (existing.recordState ≠ "active") (.refused (.projectState "session_deleted"))
    failWhen (existing.record.sourceKey ≠ session.sourceKey)
      (.conflict session.id "session id resolved from a different source")
    failWhen (existing.record.projectID ≠ session.projectID)
      (.conflict session.sourceKey "session project is immutable")
    failWhen (existing.record.capturedByUserID ≠ p.userID)
      (.conflict session.sourceKey "capturing User is immutable")
    failWhen (existing.record.revision = session.revision && existing.record.digest ≠ session.digest)
      (.conflict session.sourceKey "session revision has different content")
    .ok {t with sessions := t.sessions.modify session.id fun row =>
      if row.record.revision < session.revision then row.select session else row}

def selectThread (thread existing : ThreadRecord) : ThreadRecord :=
  if existing.revision < thread.revision then
    {existing with
      revision := thread.revision
      digest := thread.digest
      label := thread.label
      summary := thread.summary
      captureStatus := thread.captureStatus}
  else existing

def receiveThread (t : Tables) (thread : ThreadRecord) : Except LegacyFailure Tables :=
  match t.threads.lookup (thread.sessionID,thread.id) with
  | none => do
    failWhen (t.threads.any fun _ row => row.sourceKey = thread.sourceKey) (.refused (.persist "insert thread"))
    .ok {t with threads := t.threads.insert (thread.sessionID,thread.id) thread}
  | some existing => do
    failWhen (existing.sourceKey ≠ thread.sourceKey)
      (.conflict thread.id "thread id resolved from a different source")
    failWhen (existing.parentThreadID ≠ thread.parentThreadID)
      (.conflict thread.sourceKey "thread parent is immutable")
    failWhen (existing.revision = thread.revision && existing.digest ≠ thread.digest)
      (.conflict thread.sourceKey "thread revision has different content")
    .ok {t with threads := t.threads.modify (thread.sessionID,thread.id) (selectThread thread)}

def receiveThreads : Tables → List ThreadRecord → Except LegacyFailure Tables
  | t,[] => .ok t
  | t,thread::threads => do
    let t ← t.receiveThread thread
    receiveThreads t threads

def eventBySource (t : Tables) (sourceKey : String) : Option EventRecord :=
  (t.events.rows.find? fun row => row.2.sourceKey = sourceKey).map Prod.snd

/-- What a batch does to an event, decided on the tables before the batch. -/
def classifyEvent (t : Tables) (event : EventRecord) : Except LegacyFailure MemoryStore.Verdict :=
  match t.eventBySource event.sourceKey with
  | none => do
    failWhen ((t.events.lookup event.id).any fun other => other.sourceKey ≠ event.sourceKey)
      (.conflict event.id "event id resolved from a different source")
    .ok .inserted
  | some existing => do
    failWhen (existing.sessionID ≠ event.sessionID || existing.threadID ≠ event.threadID)
      (.conflict event.sourceKey "event session and thread are immutable")
    if event.projectionRevision < existing.projectionRevision then .ok .stale
    else if event.projectionRevision = existing.projectionRevision && event.revision < existing.revision then .ok .stale
    else if event.projectionRevision = existing.projectionRevision && event.revision = existing.revision then do
      failWhen (event.digest ≠ existing.digest && !sameEventContent event existing)
        (.conflict event.sourceKey "event revision has different content")
      .ok .unchanged
    else .ok .updated

/-- The content of an event takes the place of another's, whose identity stays. -/
def replaceEvent (event existing : EventRecord) : EventRecord :=
  {event with
    id := existing.id
    sessionID := existing.sessionID
    threadID := existing.threadID
    sourceKey := existing.sourceKey}

def datedEvent (c : Context) (observedAt : Time) (index : Nat) (event : EventRecord) : EventRecord :=
  {event with observedAt := observedAt, receivedAt := (c.ingest index).2, ingestSeq := (c.ingest index).1}

/-- Only the events that are inserted or updated take a place in the ingestion. -/
def writeEvent (t : Tables) (c : Context) (observedAt : Time) (index : Nat) (event : EventRecord) :
    MemoryStore.Verdict → Except LegacyFailure (Nat × Tables)
  | .inserted => do
    failWhen ((t.events.lookup event.id).isSome || (t.eventBySource event.sourceKey).isSome)
      (.refused (.persist "insert event"))
    .ok (index+1,{t with events := t.events.insert event.id (datedEvent c observedAt index event)})
  | .updated =>
    .ok (index+1,{t with events := t.events.modify event.id (replaceEvent (datedEvent c observedAt index event))})
  | .stale => .ok (index,t)
  | .unchanged => .ok (index,t)

def writeEvents (c : Context) (observedAt : Time) :
    Nat → Tables → List (EventRecord × MemoryStore.Verdict) → Except LegacyFailure Tables
  | _,t,[] => .ok t
  | index,t,(event,verdict)::events => do
    let (index,t) ← t.writeEvent c observedAt index event verdict
    writeEvents c observedAt index t events

def selectUsage (value existing : UsageRecord) : UsageRecord :=
  if existing.revision < value.revision then
    {value with sourceKey := existing.sourceKey, sessionID := existing.sessionID, threadID := existing.threadID}
  else existing

def receiveUsage : Tables → List UsageRecord → Except LegacyFailure Tables
  | t,[] => .ok t
  | t,value::usage =>
    match t.usage.lookup value.sourceKey with
    | none => receiveUsage {t with usage := t.usage.insert value.sourceKey value} usage
    | some existing => do
      failWhen (existing.revision = value.revision && existing.digest ≠ value.digest)
        (.conflict value.sourceKey "usage revision has different content")
      receiveUsage {t with usage := t.usage.modify value.sourceKey (selectUsage value)} usage

/-- The writes of a batch that is new to a session that is not published. -/
def receiveBatch (pk : Packages) (t : Tables) (c : Context) (p : Principal) (batch : WriteBatch) :
    Except LegacyFailure (Tables × ApplyResult) := do
  let created := (t.sessions.lookup batch.session.id).isNone
  let t ← t.receiveSession pk p batch.session
  let t ← t.receiveThreads batch.threads
  let verdicts ← batch.events.mapM t.classifyEvent
  let t ← writeEvents c batch.observedAt 0 t (batch.events.zip verdicts)
  let t ← t.receiveUsage batch.usage
  .ok (t.advanceProjectCapture batch.projectID batch.observedAt,
    { sessionID := batch.session.id
      sessionCreated := created
      insertedEvents := verdicts.count .inserted
      updatedEvents := verdicts.count .updated
      unchangedEvents := verdicts.count .unchanged
      staleEvents := verdicts.count .stale
      replayed := false })

/-- Exact receipts remain replayable, but nothing new crosses the fence of a session
that is published. -/
def applyBatch (pk : Packages) (t : Tables) (c : Context) (p : Principal) (receipt : Option BatchReceipt)
    (batch : WriteBatch) : Except LegacyFailure (Tables × ApplyResult) := do
  let access ← (resolveProjectAccess c p batch.projectID .canonicalIngest).mapError .refused
  failWhen (access.projectState ≠ "active") (.refused (.projectState access.projectState))
  failWhen (batch.session.projectID ≠ batch.projectID || batch.session.capturedByUserID ≠ p.userID)
    (.conflict batch.session.id "server capture scope is inconsistent")
  let published := (t.sources.lookup batch.session.id).isSome
  failWhen (published && (t.sessions.lookup batch.session.id).any fun session => session.recordState ≠ "active")
    (.refused (.projectState "session_deleted"))
  match receipt with
  | some receipt => do
    failWhen (receipt.digest ≠ batch.digest) (.conflict batch.key "batchId was reused with different content")
    .ok (t,{receipt.result with replayed := true})
  | none => do
    failWhen published (.conflict batch.session.id "Session uses publication mode")
    t.receiveBatch pk c p batch

def ingest (pk : Packages) (t : Tables) (c : Context) (p : Principal) (receipt : Option BatchReceipt)
    (input : Ingestion.Batch) : Except LegacyFailure (Tables × ApplyResult) := do
  let batch ← (Ingestion.prepareBatch pk.hash p input).mapError .rejected
  t.applyBatch pk c p receipt batch

/-- The tombstone of a session. Its rows stay. -/
def tombstone (t : Tables) (sessionID : String) : Tables :=
  {t with sessions := t.sessions.modify sessionID fun row =>
    if row.recordState = "active" then {row with recordState := "deleted"} else row}

/-! What the legacy writers leave alone -/

section
variable {limits : Limits} {pk : Packages} {c : Context} {p : Principal} {t t' t'' : Tables}

/-- The tables of the candidates and the versions. -/
structure Apart (t t' : Tables) : Prop where
  alike : t.Alike t'
  versions : t'.versions = t.versions

theorem Apart.refl (t : Tables) : t.Apart t := ⟨.refl t,rfl⟩

theorem Apart.trans (first : t.Apart t') (second : t'.Apart t'') : t.Apart t'' :=
  ⟨first.alike.trans second.alike,second.versions.trans first.versions⟩

theorem receiveSession_apart {session : SessionRecord} (ran : t.receiveSession pk p session = .ok t') : t.Apart t' := by
  unfold receiveSession at ran
  split at ran
  next =>
    simp only [bind_ok,failWhen_ok,Except.ok.injEq] at ran
    obtain ⟨_,_,_,_,rfl⟩ := ran
    exact ⟨⟨rfl,rfl,rfl,rfl⟩,rfl⟩
  next =>
    simp only [bind_ok,failWhen_ok,Except.ok.injEq] at ran
    obtain ⟨_,_,_,_,_,_,_,_,_,_,rfl⟩ := ran
    exact ⟨⟨rfl,rfl,rfl,rfl⟩,rfl⟩

theorem receiveThread_apart {thread : ThreadRecord} (ran : t.receiveThread thread = .ok t') : t.Apart t' := by
  unfold receiveThread at ran
  split at ran
  next =>
    simp only [bind_ok,failWhen_ok,Except.ok.injEq] at ran
    obtain ⟨_,_,rfl⟩ := ran
    exact ⟨⟨rfl,rfl,rfl,rfl⟩,rfl⟩
  next =>
    simp only [bind_ok,failWhen_ok,Except.ok.injEq] at ran
    obtain ⟨_,_,_,_,_,_,rfl⟩ := ran
    exact ⟨⟨rfl,rfl,rfl,rfl⟩,rfl⟩

theorem receiveThreads_apart {threads : List ThreadRecord} (ran : t.receiveThreads threads = .ok t') : t.Apart t' := by
  induction threads generalizing t with
  | nil =>
    cases ran
    exact .refl _
  | cons thread threads ih =>
    simp only [receiveThreads,bind_ok] at ran
    obtain ⟨t₁,first,rest⟩ := ran
    exact (receiveThread_apart first).trans (ih rest)

theorem writeEvent_apart {observedAt : Time} {index index' : Nat} {event : EventRecord} {verdict : MemoryStore.Verdict}
    (ran : t.writeEvent c observedAt index event verdict = .ok (index',t')) : t.Apart t' := by
  cases verdict with
  | inserted =>
    simp only [writeEvent,bind_ok,failWhen_ok,Except.ok.injEq,Prod.mk.injEq] at ran
    obtain ⟨_,_,_,rfl⟩ := ran
    exact ⟨⟨rfl,rfl,rfl,rfl⟩,rfl⟩
  | updated =>
    simp only [writeEvent,Except.ok.injEq,Prod.mk.injEq] at ran
    obtain ⟨_,rfl⟩ := ran
    exact ⟨⟨rfl,rfl,rfl,rfl⟩,rfl⟩
  | stale | unchanged =>
    simp only [writeEvent,Except.ok.injEq,Prod.mk.injEq] at ran
    obtain ⟨_,rfl⟩ := ran
    exact .refl _

theorem writeEvents_apart {observedAt : Time} {index : Nat} {events : List (EventRecord × MemoryStore.Verdict)}
    (ran : writeEvents c observedAt index t events = .ok t') : t.Apart t' := by
  induction events generalizing index t with
  | nil =>
    cases ran
    exact .refl _
  | cons event events ih =>
    simp only [writeEvents,bind_ok,Prod.exists] at ran
    obtain ⟨_,t₁,first,rest⟩ := ran
    exact (writeEvent_apart first).trans (ih rest)

theorem receiveUsage_apart {usage : List UsageRecord} (ran : t.receiveUsage usage = .ok t') : t.Apart t' := by
  induction usage generalizing t with
  | nil =>
    cases ran
    exact .refl _
  | cons value usage ih =>
    have first (rows : Table String UsageRecord) : t.Apart {t with usage := rows} := ⟨⟨rfl,rfl,rfl,rfl⟩,rfl⟩
    unfold receiveUsage at ran
    split at ran
    next => exact (first _).trans (ih ran)
    next =>
      simp only [bind_ok] at ran
      obtain ⟨_,_,ran⟩ := ran
      exact (first _).trans (ih ran)

theorem receiveBatch_ok {batch : WriteBatch} (ran : t.receiveBatch pk c p batch = .ok (t',result)) :
    ∃ t₁ t₂ verdicts t₃ t₄, t.receiveSession pk p batch.session = .ok t₁ ∧ t₁.receiveThreads batch.threads = .ok t₂ ∧
      batch.events.mapM t₂.classifyEvent = .ok verdicts ∧
      writeEvents c batch.observedAt 0 t₂ (batch.events.zip verdicts) = .ok t₃ ∧ t₃.receiveUsage batch.usage = .ok t₄ ∧
      t' = t₄.advanceProjectCapture batch.projectID batch.observedAt := by
  unfold receiveBatch at ran
  simp only [bind_ok,Except.ok.injEq,Prod.mk.injEq] at ran
  obtain ⟨t₁,session,t₂,threads,verdicts,classified,t₃,events,t₄,usage,rfl,_⟩ := ran
  exact ⟨t₁,t₂,verdicts,t₃,t₄,session,threads,classified,events,usage,rfl⟩

theorem ingest_ok {receipt : Option BatchReceipt} {input : Ingestion.Batch}
    (ran : t.ingest pk c p receipt input = .ok (t',result)) :
    t' = t ∨ ∃ batch, Ingestion.prepareBatch pk.hash p input = .ok batch ∧ t.sources.lookup batch.session.id = none ∧
      t.receiveBatch pk c p batch = .ok (t',result) := by
  unfold ingest at ran
  simp only [bind_ok] at ran
  obtain ⟨batch,made,ran⟩ := ran
  unfold applyBatch at ran
  simp only [bind_ok,failWhen_ok] at ran
  obtain ⟨_,_,_,_,_,_,_,_,ran⟩ := ran
  split at ran
  next =>
    simp only [bind_ok,failWhen_ok,Except.ok.injEq,Prod.mk.injEq] at ran
    obtain ⟨_,_,rfl,_⟩ := ran
    exact .inl rfl
  next =>
    simp only [bind_ok,failWhen_ok,Bool.not_eq_true,Option.isSome_eq_false_iff,Option.isNone_iff_eq_none] at ran
    obtain ⟨_,unpublished,ran⟩ := ran
    refine .inr ⟨batch,?_,unpublished,ran⟩
    cases prepared : Ingestion.prepareBatch pk.hash p input with
    | ok unit =>
      rw [prepared] at made
      cases made
      rfl
    | error rejection =>
      rw [prepared] at made
      cases made

theorem ingest_apart {receipt : Option BatchReceipt} {input : Ingestion.Batch}
    (ran : t.ingest pk c p receipt input = .ok (t',result)) : t.Apart t' := by
  rcases ingest_ok ran with rfl | ⟨batch,_,_,received⟩
  · exact .refl _
  · obtain ⟨t₁,t₂,verdicts,t₃,t₄,session,threads,_,events,usage,rfl⟩ := receiveBatch_ok received
    have written := (receiveSession_apart session).trans (receiveThreads_apart threads)
    have counted := (written.trans (writeEvents_apart events)).trans (receiveUsage_apart usage)
    exact counted.trans ⟨⟨rfl,rfl,rfl,rfl⟩,rfl⟩

end

end Tables

/-! Histories -/

/-- One transaction: of the publication store, whose new identifiers are canonical, of the
legacy ingestion, of a deletion, or of those who keep the search work and the projects. -/
inductive Act (limits : Limits) (pk : Packages) (m : Moment) : Moment → Prop
  | call {m' : Moment} {c : Context} {p : Principal} {call : Call} (clock : Forward c.clock) (start : m.now ≤ c.clock 0)
      (finish : ∀ n, c.clock n ≤ m'.now) (fresh : c.token ∉ m.issued)
      (named : pk.uuid c.token = some c.token) (issued : m'.issued = c.token::m.issued)
      (tables : m'.tables = after m.tables (call.run limits pk m.tables c p)) : Act limits pk m m'
  | ingest {m' : Moment} {c : Context} {p : Principal} {receipt : Option BatchReceipt} {input : Ingestion.Batch}
      (start : m.now ≤ m'.now) (issued : m'.issued = m.issued)
      (tables : m'.tables = after m.tables ((m.tables.ingest pk c p receipt input).map Prod.fst)) : Act limits pk m m'
  | delete {m' : Moment} {sessionID : String} (start : m.now ≤ m'.now) (issued : m'.issued = m.issued)
      (tables : m'.tables = m.tables.tombstone sessionID) : Act limits pk m m'
  | aside {m' : Moment} {changes : Table Nat ChangeRow} {capturedThrough : Table String Time} (start : m.now ≤ m'.now)
      (issued : m.issued ⊆ m'.issued)
      (tables : m'.tables = {m.tables with changes := changes, capturedThrough := capturedThrough}) : Act limits pk m m'

abbrev History (limits : Limits) (pk : Packages) : Moment → Moment → Prop := Relation.ReflTransGen (Act limits pk)

theorem Act.turn {limits : Limits} {pk : Packages} {m m' : Moment} (act : Act limits pk m m') :
    Turn limits pk m m' := by
  cases act with
  | call clock start finish fresh named issued tables => exact .call clock start finish fresh issued tables
  | @ingest c p receipt input start issued tables =>
    refine .other start (by simp [issued]) ?_
    rw [tables]
    cases ran : m.tables.ingest pk c p receipt input with
    | ok result =>
      obtain ⟨t,result⟩ := result
      exact (Tables.ingest_apart ran).alike
    | error failure => exact .refl _
  | delete start issued tables =>
    refine .other start (by simp [issued]) ?_
    rw [tables]
    exact ⟨rfl,rfl,rfl,rfl⟩
  | aside start issued tables =>
    refine .other start issued ?_
    rw [tables]
    exact ⟨rfl,rfl,rfl,rfl⟩

theorem History.run {limits : Limits} {pk : Packages} {m m' : Moment} (history : History limits pk m m') :
    Run limits pk m m' := by
  induction history with
  | refl => exact .refl
  | tail _ act ih => exact ih.tail act.turn

end ATape.Publication
