import ATape.Canonical.Store
import ATape.Foundation.Fold

/-! What each phase of a write leaves in the tables of the store. A phase is seen
through the fields it does not touch and the rows it does. -/
namespace ATape.Canonical
open Foundation Go Authorization
namespace MemoryStore

/-! Each phase blanked to the fields that it leaves alone. -/

def besideUsage (s : MemoryStore) : MemoryStore := {s with usage := ∅}

def besideSessions (s : MemoryStore) : MemoryStore := {s with sessions := ∅, sessionIDsByProject := ∅}

def besideThreads (s : MemoryStore) : MemoryStore :=
  {s with threads := ∅, threadIDsBySession := ∅, sessionChildThreadCounts := ∅}

def besideEvents (s : MemoryStore) : MemoryStore :=
  {s with
    events := ∅
    eventBySource := ∅
    eventVersions := ∅
    eventIDsByThread := ∅
    sessionEventCounts := ∅
    nextIngestSeq := 0
    projectionChanges := []
    nextProjectionChangeID := 0}

def besideChanges (s : MemoryStore) : MemoryStore :=
  {s with projectionChanges := [], nextProjectionChangeID := 0}

def besideCapture (s : MemoryStore) : MemoryStore := {s with projectCapture := ∅}

theorem putUsage_beside (s : MemoryStore) (u : UsageRecord) : (s.putUsage u).besideUsage = s.besideUsage := by
  unfold putUsage
  split <;> rfl

theorem putSession_beside (s : MemoryStore) (w : WriteBatch) :
    (s.putSession w).besideSessions = s.besideSessions := by
  unfold putSession
  split
  · rfl
  · split <;> rfl

theorem putThread_beside (s : MemoryStore) (t : ThreadRecord) :
    (s.putThread t).besideThreads = s.besideThreads := by
  unfold putThread
  split
  · rfl
  · split <;> rfl

theorem receiveEvent_beside (observedAt : Time) (received : Nat → Time) (s : MemoryStore) (e : EventRecord) :
    (receiveEvent observedAt received s e).besideEvents = s.besideEvents := rfl

theorem retitle_beside (s : MemoryStore) (order : Order) (sessionID : String) (projected : List String) :
    (s.retitle order sessionID projected).besideChanges = s.besideChanges :=
  foldl_keep besideChanges (fun (s : MemoryStore) (_ : String) => (rfl : besideChanges (s.appendProjectionChange _) = _)) _ s

theorem capture_beside (s : MemoryStore) (w : WriteBatch) : (s.capture w).besideCapture = s.besideCapture := by
  unfold capture
  split <;> rfl

/-! The stages of a write. -/

variable (s : MemoryStore) (received : Nat → Time) (order : Order) (w : WriteBatch)
  (events : List EventRecord) (result : ApplyResult)

def afterUsage : MemoryStore := w.usage.foldl putUsage s

def afterThreads : MemoryStore := w.threads.foldl putThread ((s.afterUsage w).putSession w)

def afterEvents : MemoryStore := events.foldl (receiveEvent w.observedAt received) (s.afterThreads w)

def afterTitle : MemoryStore :=
  if s.titleChanged w.session then
    (s.afterEvents received w events).retitle order w.session.id (events.map (·.id))
  else s.afterEvents received w events

theorem afterUsage_beside : (s.afterUsage w).besideUsage = s.besideUsage :=
  foldl_keep besideUsage putUsage_beside _ s

theorem afterThreads_beside : (s.afterThreads w).besideThreads = ((s.afterUsage w).putSession w).besideThreads :=
  foldl_keep besideThreads putThread_beside _ _

theorem afterEvents_beside :
    (s.afterEvents received w events).besideEvents = (s.afterThreads w).besideEvents :=
  foldl_keep besideEvents (receiveEvent_beside w.observedAt received) _ _

theorem afterTitle_beside :
    (s.afterTitle received order w events).besideChanges =
      (s.afterEvents received w events).besideChanges := by
  unfold afterTitle
  split
  · exact retitle_beside _ _ _ _
  · rfl

theorem write_eq : ∃ captured, s.write received order w events result =
    {s.afterTitle received order w events with
      projectCapture := captured
      batchReceipts := (s.afterTitle received order w events).batchReceipts.insert w.key
        ⟨w.digest,result⟩} := by
  change ∃ captured, ({(s.afterTitle received order w events).capture w with
      batchReceipts := ((s.afterTitle received order w events).capture w).batchReceipts.insert w.key
        ⟨w.digest,result⟩} : MemoryStore) = _
  unfold capture
  split
  · exact ⟨_,rfl⟩
  · exact ⟨_,rfl⟩

/-! The tables after the write. -/

theorem write_usage : (s.write received order w events result).usage = (s.afterUsage w).usage := by
  obtain ⟨captured,written⟩ := write_eq s received order w events result
  have titled := congrArg MemoryStore.usage (afterTitle_beside s received order w events)
  have evented := congrArg MemoryStore.usage (afterEvents_beside s received w events)
  have threaded := congrArg MemoryStore.usage (afterThreads_beside s w)
  have sessioned := congrArg MemoryStore.usage (putSession_beside (s.afterUsage w) w)
  rw [written]
  exact titled.trans (evented.trans (threaded.trans sessioned))

theorem write_sessions :
    (s.write received order w events result).sessions = ((s.afterUsage w).putSession w).sessions := by
  obtain ⟨captured,written⟩ := write_eq s received order w events result
  have titled := congrArg MemoryStore.sessions (afterTitle_beside s received order w events)
  have evented := congrArg MemoryStore.sessions (afterEvents_beside s received w events)
  have threaded := congrArg MemoryStore.sessions (afterThreads_beside s w)
  rw [written]
  exact titled.trans (evented.trans threaded)

theorem write_threads :
    (s.write received order w events result).threads = (s.afterThreads w).threads ∧
      (s.write received order w events result).threadIDsBySession =
        (s.afterThreads w).threadIDsBySession := by
  obtain ⟨captured,written⟩ := write_eq s received order w events result
  have titled := afterTitle_beside s received order w events
  have evented := afterEvents_beside s received w events
  have rows := congrArg MemoryStore.threads titled
  have rows' := congrArg MemoryStore.threads evented
  have ids := congrArg MemoryStore.threadIDsBySession titled
  have ids' := congrArg MemoryStore.threadIDsBySession evented
  rw [written]
  exact ⟨rows.trans rows',ids.trans ids'⟩

theorem write_events :
    (s.write received order w events result).events = (s.afterEvents received w events).events ∧
      (s.write received order w events result).eventBySource =
        (s.afterEvents received w events).eventBySource ∧
      (s.write received order w events result).eventIDsByThread =
        (s.afterEvents received w events).eventIDsByThread ∧
      (s.write received order w events result).nextIngestSeq =
        (s.afterEvents received w events).nextIngestSeq := by
  obtain ⟨captured,written⟩ := write_eq s received order w events result
  have titled := afterTitle_beside s received order w events
  have rows := congrArg MemoryStore.events titled
  have sources := congrArg MemoryStore.eventBySource titled
  have ids := congrArg MemoryStore.eventIDsByThread titled
  have next := congrArg MemoryStore.nextIngestSeq titled
  rw [written]
  exact ⟨rows,sources,ids,next⟩

theorem write_kept :
    (s.write received order w events result).deletedSessions = s.deletedSessions ∧
      (s.write received order w events result).projects = s.projects ∧
      (s.write received order w events result).memberships = s.memberships ∧
      (s.write received order w events result).batchReceipts =
        s.batchReceipts.insert w.key ⟨w.digest,result⟩ := by
  obtain ⟨captured,written⟩ := write_eq s received order w events result
  have untouched : ∀ {α : Type} (field : MemoryStore → α),
      (∀ t : MemoryStore, field t.besideUsage = field t) → (∀ t, field (besideSessions t) = field t) →
      (∀ t, field (besideThreads t) = field t) → (∀ t, field (besideEvents t) = field t) →
      (∀ t, field (besideChanges t) = field t) →
      field (s.afterTitle received order w events) = field s := by
    intro α field usage sessions threads events' changes
    rw [← changes,afterTitle_beside,changes,← events',afterEvents_beside,events',← threads,
      afterThreads_beside,threads,← sessions,putSession_beside,sessions,← usage,afterUsage_beside,usage]
  rw [written]
  refine ⟨untouched deletedSessions ?_ ?_ ?_ ?_ ?_,untouched projects ?_ ?_ ?_ ?_ ?_,
    untouched memberships ?_ ?_ ?_ ?_ ?_,?_⟩
  case refine_16 =>
    change (s.afterTitle received order w events).batchReceipts.insert w.key ⟨w.digest,result⟩ = _
    rw [untouched batchReceipts]
    all_goals exact fun _ => rfl
  all_goals exact fun _ => rfl

theorem afterSession_threads : ((s.afterUsage w).putSession w).threads = s.threads ∧
    ((s.afterUsage w).putSession w).threadIDsBySession = s.threadIDsBySession := by
  have rows := congrArg MemoryStore.threads (putSession_beside (s.afterUsage w) w)
  have rows' := congrArg MemoryStore.threads (afterUsage_beside s w)
  have ids := congrArg MemoryStore.threadIDsBySession (putSession_beside (s.afterUsage w) w)
  have ids' := congrArg MemoryStore.threadIDsBySession (afterUsage_beside s w)
  exact ⟨rows.trans rows',ids.trans ids'⟩

theorem afterThreads_events : (s.afterThreads w).events = s.events ∧
    (s.afterThreads w).eventBySource = s.eventBySource ∧
    (s.afterThreads w).eventIDsByThread = s.eventIDsByThread ∧
    (s.afterThreads w).nextIngestSeq = s.nextIngestSeq ∧
    (s.afterThreads w).projectionChanges = s.projectionChanges ∧
    (s.afterThreads w).nextProjectionChangeID = s.nextProjectionChangeID := by
  have same : ∀ {α : Type} (field : MemoryStore → α), (∀ t : MemoryStore, field t.besideUsage = field t) →
      (∀ t, field (besideSessions t) = field t) → (∀ t, field (besideThreads t) = field t) →
      field (s.afterThreads w) = field s := by
    intro α field usage sessions threads
    rw [← threads,afterThreads_beside,threads,← sessions,putSession_beside,sessions,← usage,
      afterUsage_beside,usage]
  refine ⟨same events ?_ ?_ ?_,same eventBySource ?_ ?_ ?_,same eventIDsByThread ?_ ?_ ?_,
    same nextIngestSeq ?_ ?_ ?_,same projectionChanges ?_ ?_ ?_,same nextProjectionChangeID ?_ ?_ ?_⟩
  all_goals exact fun _ => rfl

end MemoryStore
end ATape.Canonical
