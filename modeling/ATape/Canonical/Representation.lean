import ATape.Canonical.Calls
import ATape.Canonical.Feed

/-! The redundant parts of the store: the counters, the index of the sessions, the
versions, the receipts and the feed. All of them speak of the stored rows only. -/
namespace ATape.Canonical
open Foundation Go Authorization SourceIdentity Ingestion
namespace MemoryStore

def storedEvents (s : MemoryStore) (sessionID : String) : Nat :=
  Table.total (fun _ e => if e.sessionID = sessionID then 1 else 0) s.events

def storedChildren (s : MemoryStore) (sessionID : String) : Nat :=
  Table.total (fun _ t => if t.sessionID = sessionID ∧ t.parentThreadID.isSome = true then 1 else 0) s.threads

def EventsCounted (s : MemoryStore) : Prop :=
  ∀ sessionID, (s.sessionEventCounts.lookup sessionID).getD 0 = s.storedEvents sessionID

def ChildrenCounted (s : MemoryStore) : Prop :=
  ∀ sessionID, (s.sessionChildThreadCounts.lookup sessionID).getD 0 = s.storedChildren sessionID

structure Represented (h : Hash) (s : MemoryStore) : Prop where
  sessionIndex : ∀ projectID id, id ∈ (s.sessionIDsByProject.lookup projectID).getD [] ↔
    ∃ r, s.sessions.lookup id = some r ∧ r.projectID = projectID
  distinct : ∀ projectID, ((s.sessionIDsByProject.lookup projectID).getD []).Nodup
  events : s.EventsCounted
  children : s.ChildrenCounted
  root : ∀ id, (s.sessions.lookup id).isSome = true →
    ∃ t, s.threads.lookup (recordKey id rootThreadID) = some t ∧ t.parentThreadID = none
  rootOnly : ∀ k t, s.threads.lookup k = some t → t.parentThreadID = none → t.id = rootThreadID
  versions : ∀ k, (s.eventVersions.lookup k).isSome = (s.eventBySource.lookup k).isSome
  versionScope : ∀ k rows, s.eventVersions.lookup k = some rows → ∀ e ∈ rows, Scoped h e.sessionID k
  deleted : ∀ id r, s.deletedSessions.lookup id = some r → id.toList.length = sessionIDLength
  receipts : ∀ k receipt, s.batchReceipts.lookup k = some receipt →
    (s.sessions.lookup receipt.result.sessionID).isSome = true
  changes : ∀ c ∈ s.projectionChanges, (s.events.lookup c.eventID).isSome = true

theorem newWithControlPlane_represented (h : Hash) (projects : List ProjectRecord)
    (memberships : List MembershipFacts) : Represented h (newWithControlPlane projects memberships) := by
  constructor <;> simp [newWithControlPlane,EventsCounted,ChildrenCounted,storedEvents,storedChildren,Table.total]

theorem increment_getD (counts : Table String Nat) (key key' : String) :
    ((increment counts key).lookup key').getD 0 =
      (counts.lookup key').getD 0+if key = key' then 1 else 0 := by
  unfold increment
  rw [Table.lookup_insert]
  by_cases own : key' = key
  · subst own
    simp
  · simp [own,Ne.symm own]

def ThreadReady (s : MemoryStore) (t : ThreadRecord) : Prop :=
  ∀ old, s.threads.lookup (threadKey t) = some old →
    old.sessionID = t.sessionID ∧ old.parentThreadID = t.parentThreadID

theorem putThread_counted {s : MemoryStore} {t : ThreadRecord} (counted : s.ChildrenCounted)
    (ready : s.ThreadReady t) : (s.putThread t).ChildrenCounted := by
  intro sessionID
  have before := counted sessionID
  unfold storedChildren at before
  unfold putThread
  cases held : s.threads.lookup (recordKey t.sessionID t.id) with
  | none =>
    unfold storedChildren
    simp only
    rw [Table.total_insert_new _ held,← before]
    by_cases child : t.parentThreadID.isSome = true
    · simp [child,increment_getD]
    · simp [child]
  | some old =>
    obtain ⟨session,parent⟩ := ready old held
    simp only
    split
    · unfold storedChildren
      have moved := Table.total_insert_old
        (fun _ t => if t.sessionID = sessionID ∧ t.parentThreadID.isSome = true then 1 else 0) held t
      simp only [session,parent] at moved ⊢
      omega
    · exact counted sessionID

/-- An event that replaces a row keeps its session. -/
def EventReady (s : MemoryStore) (e : EventRecord) : Prop :=
  ∀ old, s.events.lookup e.id = some old → old.sessionID = e.sessionID

theorem receiveEvent_counted {s : MemoryStore} {e : EventRecord} (observedAt : Time) (received : Nat → Time)
    (counted : s.EventsCounted) (ready : s.EventReady e) :
    (receiveEvent observedAt received s e).EventsCounted := by
  intro sessionID
  have before := counted sessionID
  unfold storedEvents at before ⊢
  simp only [receiveEvent,putEvent,appendProjectionChange]
  cases held : s.events.lookup e.id with
  | none =>
    rw [Table.total_insert_new _ held,← before]
    simp only [Option.isSome_none,Bool.false_eq_true,if_false,increment_getD]
    rfl
  | some old =>
    have session := ready old held
    have moved := Table.total_insert_old (fun _ e => if e.sessionID = sessionID then 1 else 0) held
      (s.stored observedAt (received (s.nextIngestSeq+1)) e)
    rw [session] at moved
    have total := Nat.add_right_cancel moved
    rw [total,← before]
    rfl

section Write
variable {h : Hash} {s : MemoryStore} (received : Nat → Time) (order : Order) (result : ApplyResult)
  {principal : Principal} {w : WriteBatch} {verdicts : List Verdict}

theorem write_children (events : List EventRecord) :
    (s.write received order w events result).sessionChildThreadCounts =
      (s.afterThreads w).sessionChildThreadCounts := by
  obtain ⟨captured,written⟩ := write_eq s received order w events result
  have titled := congrArg MemoryStore.sessionChildThreadCounts (afterTitle_beside s received order w events)
  have evented := congrArg MemoryStore.sessionChildThreadCounts (afterEvents_beside s received w events)
  rw [written]
  exact titled.trans evented

theorem write_sessionIndex (events : List EventRecord) :
    (s.write received order w events result).sessionIDsByProject =
      ((s.afterUsage w).putSession w).sessionIDsByProject := by
  obtain ⟨captured,written⟩ := write_eq s received order w events result
  have titled := congrArg MemoryStore.sessionIDsByProject (afterTitle_beside s received order w events)
  have evented := congrArg MemoryStore.sessionIDsByProject (afterEvents_beside s received w events)
  have threaded := congrArg MemoryStore.sessionIDsByProject (afterThreads_beside s w)
  rw [written]
  exact titled.trans (evented.trans threaded)

theorem write_counts (events : List EventRecord) :
    (s.write received order w events result).sessionEventCounts =
        (s.afterEvents received w events).sessionEventCounts ∧
      (s.write received order w events result).eventVersions = (s.afterEvents received w events).eventVersions := by
  obtain ⟨captured,written⟩ := write_eq s received order w events result
  have titled := afterTitle_beside s received order w events
  have counts := congrArg MemoryStore.sessionEventCounts titled
  have versions := congrArg MemoryStore.eventVersions titled
  rw [written]
  exact ⟨counts,versions⟩

theorem afterThreads_counts (s : MemoryStore) (w : WriteBatch) : (s.afterThreads w).sessionEventCounts = s.sessionEventCounts ∧
    (s.afterThreads w).eventVersions = s.eventVersions := by
  have usage := afterUsage_beside s w
  have session := putSession_beside (s.afterUsage w) w
  have threads := afterThreads_beside s w
  have counts := congrArg MemoryStore.sessionEventCounts threads
  have counts' := congrArg MemoryStore.sessionEventCounts session
  have counts'' := congrArg MemoryStore.sessionEventCounts usage
  have versions := congrArg MemoryStore.eventVersions threads
  have versions' := congrArg MemoryStore.eventVersions session
  have versions'' := congrArg MemoryStore.eventVersions usage
  exact ⟨counts.trans (counts'.trans counts''),versions.trans (versions'.trans versions'')⟩

theorem write_childrenCounted (formed : w.Formed h) (coherent : Coherent h s)
    (accepted : s.Accepted principal w verdicts) (counted : s.ChildrenCounted) (events : List EventRecord) :
    (s.write received order w events result).ChildrenCounted := by
  have started : ((s.afterUsage w).putSession w).ChildrenCounted := by
    intro sessionID
    have counts := congrArg MemoryStore.sessionChildThreadCounts (putSession_beside (s.afterUsage w) w)
    have counts' := congrArg MemoryStore.sessionChildThreadCounts (afterUsage_beside s w)
    have same : ((s.afterUsage w).putSession w).sessionChildThreadCounts = s.sessionChildThreadCounts :=
      counts.trans counts'
    rw [same,storedChildren,(afterSession_threads s w).1]
    exact counted sessionID
  have ready : ∀ t ∈ w.threads, ((s.afterUsage w).putSession w).ThreadReady t := by
    intro t member old held
    rw [(afterSession_threads s w).1] at held
    have size : t.sessionID.toList.length = sessionIDLength := formed.threadSession t member ▸ formed.sessionID
    exact ⟨(coherent.thread_at size held).1,(accepted.threads t member old held).2.1⟩
  have folded : (s.afterThreads w).ChildrenCounted := by
    apply foldl_invariant (fun _ _ counted ready => putThread_counted counted ready) w.threads _
      (List.Nodup.of_map _ formed.threadIDs) _ started ready
    intro s t member t' member' _ _ ready apart old held
    rw [putThread_other] at held
    · exact ready old held
    · intro same
      exact apart (List.inj_on_of_nodup_map (formed_threadKeys formed) member member' same.symm)
  intro sessionID
  rw [write_children,storedChildren,(write_threads s received order w events result).1]
  exact folded sessionID

theorem write_eventsCounted (formed : w.Formed h) (coherent : Coherent h s)
    (accepted : s.Accepted principal w verdicts) (counted : s.EventsCounted) :
    (s.write received order w (applied w verdicts) result).EventsCounted := by
  have started : (s.afterThreads w).EventsCounted := by
    intro sessionID
    rw [(afterThreads_counts s w).1,storedEvents,(afterThreads_events s w).1]
    exact counted sessionID
  have ready : ∀ e ∈ applied w verdicts, (s.afterThreads w).EventReady e := by
    intro e member old held
    rw [(afterThreads_events s w).1] at held
    rcases applied_place formed coherent accepted member with ⟨fresh,_⟩ | ⟨old',row,_,_,session,_,_⟩
    · rw [fresh] at held
      cases held
    · rw [row] at held
      cases held
      exact session
  have ids : ((applied w verdicts).map (·.id)).Nodup := formed.eventIDs.sublist (applied_sublist.map _)
  have folded : (s.afterEvents received w (applied w verdicts)).EventsCounted := by
    apply foldl_invariant (fun _ _ counted ready => receiveEvent_counted w.observedAt received counted ready)
      (applied w verdicts) _ (List.Nodup.of_map _ ids) _ started ready
    intro s e member e' member' _ _ ready apart old held
    rw [receive_other_event] at held
    · exact ready old held
    · intro same
      exact apart (List.inj_on_of_nodup_map ids member member' same.symm)
  intro sessionID
  rw [(write_counts received order result _).1,storedEvents,(write_events s received order w _ result).1]
  exact folded sessionID

theorem foldl_versions (observedAt : Time) (events : List EventRecord) (s : MemoryStore) (k : String)
    (same : (s.eventVersions.lookup k).isSome = (s.eventBySource.lookup k).isSome) :
    ((events.foldl (receiveEvent observedAt received) s).eventVersions.lookup k).isSome =
      ((events.foldl (receiveEvent observedAt received) s).eventBySource.lookup k).isSome := by
  induction events generalizing s with
  | nil => exact same
  | cons e events ih =>
    apply ih
    simp only [receiveEvent,putEvent,appendProjectionChange,Table.lookup_insert]
    split <;> simp [same]

theorem write_versions (represented : Represented h s) (events : List EventRecord) (k : String) :
    ((s.write received order w events result).eventVersions.lookup k).isSome =
      ((s.write received order w events result).eventBySource.lookup k).isSome := by
  rw [(write_counts received order result events).2,(write_events s received order w events result).2.1]
  apply foldl_versions
  rw [(afterThreads_counts s w).2,(afterThreads_events s w).2.1]
  exact represented.versions k

theorem foldl_versionScope (observedAt : Time) (events : List EventRecord) (s : MemoryStore)
    (own : ∀ e ∈ events, Scoped h e.sessionID e.sourceKey)
    (before : ∀ k rows, s.eventVersions.lookup k = some rows → ∀ e ∈ rows, Scoped h e.sessionID k) :
    ∀ k rows, (events.foldl (receiveEvent observedAt received) s).eventVersions.lookup k = some rows →
      ∀ e ∈ rows, Scoped h e.sessionID k := by
  induction events generalizing s with
  | nil => exact before
  | cons e events ih =>
    apply ih _ fun e' member => own e' (List.mem_cons_of_mem _ member)
    intro k rows held e' member
    simp only [receiveEvent,putEvent,appendProjectionChange,Table.lookup_insert] at held
    split at held
    next same =>
      cases held
      subst same
      rcases List.mem_append.mp member with old | new
      · cases versions : s.eventVersions.lookup e.sourceKey with
        | none => simp [versions] at old
        | some rows => exact before _ rows versions e' (by simpa [versions] using old)
      · rw [List.mem_singleton.mp new]
        exact own e List.mem_cons_self
    next => exact before k rows held e' member

theorem write_versionScope (formed : w.Formed h) (represented : Represented h s) {events : List EventRecord}
    (part : events ⊆ w.events) {k : String} {rows : List EventRecord}
    (held : (s.write received order w events result).eventVersions.lookup k = some rows) :
    ∀ e ∈ rows, Scoped h e.sessionID k := by
  rw [(write_counts received order result events).2] at held
  refine foldl_versionScope received w.observedAt events (s.afterThreads w) ?_ ?_ k rows held
  · intro e member
    have inside := part member
    have scope := formed.eventScope e inside
    rwa [← formed.eventSession e inside] at scope
  · rw [(afterThreads_counts s w).2]
    exact represented.versionScope

theorem write_sessionIndexed (formed : w.Formed h) (accepted : s.Accepted principal w verdicts)
    (represented : Represented h s) (events : List EventRecord) (projectID id : String) :
    id ∈ ((s.write received order w events result).sessionIDsByProject.lookup projectID).getD [] ↔
      ∃ r, (s.write received order w events result).sessions.lookup id = some r ∧ r.projectID = projectID := by
  have before := represented.sessionIndex projectID id
  have index := congrArg MemoryStore.sessionIDsByProject (afterUsage_beside s w)
  have rows := afterUsage_sessions s w
  change (s.afterUsage w).sessionIDsByProject = s.sessionIDsByProject at index
  rw [write_sessionIndex,write_sessions]
  unfold putSession
  cases held : (s.afterUsage w).sessions.lookup w.session.id with
  | none =>
    rw [rows] at held
    simp only [mem_addToIndex,index,before,Table.lookup_insert,rows]
    by_cases own : id = w.session.id
    · subst own
      simp [held,formed.project]
      exact eq_comm
    · simp [own]
  | some old =>
    rw [rows] at held
    simp only
    split
    · simp only [index,before,Table.lookup_insert,rows]
      by_cases own : id = w.session.id
      · subst own
        simp [held,(accepted.session old held).2.1]
      · simp [own]
    · rw [index,rows]
      exact before

theorem write_distinct (represented : Represented h s) (events : List EventRecord) (projectID : String) :
    (((s.write received order w events result).sessionIDsByProject.lookup projectID).getD []).Nodup := by
  have index := congrArg MemoryStore.sessionIDsByProject (afterUsage_beside s w)
  change (s.afterUsage w).sessionIDsByProject = s.sessionIDsByProject at index
  rw [write_sessionIndex]
  unfold putSession
  split
  · simp only [addToIndex,index,Table.lookup_insert]
    split
    · exact (represented.distinct _).insert
    · exact represented.distinct projectID
  · split
    · simpa only [index] using represented.distinct projectID
    · simpa only [index] using represented.distinct projectID

theorem write_represented (formed : w.Formed h) (coherent : Coherent h s) (admitted : s.Admitted principal w)
    (accepted : s.Accepted principal w verdicts) (represented : Represented h s) :
    Represented h (s.write received order w (applied w verdicts) (s.summarize w verdicts)) := by
  have rows := applied_received received order (s.summarize w verdicts) s verdicts formed
  have after := write_coherent received order (s.summarize w verdicts) formed coherent admitted accepted
  refine ⟨?_,?_,?_,?_,?_,?_,?_,?_,?_,?_,?_⟩
  · exact write_sessionIndexed received order _ formed accepted represented _
  · exact write_distinct received order _ represented _
  · exact write_eventsCounted received order _ formed coherent accepted represented.events
  · exact write_childrenCounted received order _ formed coherent accepted represented.children _
  · intro id held
    by_cases own : id = w.session.id
    · subst own
      obtain ⟨t,member,named,top⟩ := formed.root
      obtain ⟨r,row,_,_,parent⟩ := written_thread received order (applied w verdicts) (s.summarize w verdicts)
        formed coherent accepted member
      unfold threadKey at row
      rw [formed.threadSession t member,named] at row
      exact ⟨r,row,parent.trans top⟩
    · rw [session_other s received order w _ _ own] at held
      obtain ⟨t,row,top⟩ := represented.root id held
      obtain ⟨r,row',_,_,parent⟩ := kept_thread received order (applied w verdicts) (s.summarize w verdicts)
        formed coherent accepted row
      exact ⟨r,row',parent.trans top⟩
  · intro k t held top
    rcases thread_origin _ _ _ _ formed held with ⟨t',member,_,rfl⟩ | old
    · exact formed.rootOnly t member top
    · exact represented.rootOnly k t old top
  · exact write_versions received order _ represented _
  · intro k rows held
    exact write_versionScope received order _ formed represented applied_sublist.subset held
  · rw [(write_kept s received order w _ _).1]
    exact represented.deleted
  · intro k receipt held
    rw [(write_kept s received order w _ _).2.2.2,Table.lookup_insert] at held
    split at held
    next =>
      cases held
      exact written_session _ _ _ _
    next => exact kept_session _ _ _ _ (represented.receipts k receipt held)
  · have kept : ∀ id, (s.events.lookup id).isSome = true →
        ((s.write received order w (applied w verdicts) (s.summarize w verdicts)).events.lookup id).isSome =
          true := by
      intro id held
      by_cases touched : ∃ e ∈ applied w verdicts, e.id = id
      · obtain ⟨e,member,rfl⟩ := touched
        obtain ⟨_,_,_,row⟩ := rows.own e member
        rw [row]
        rfl
      · push Not at touched
        rwa [rows.other id touched]
    intro c member
    rw [(write_feed s received order w _ _).1,List.mem_append] at member
    rcases member with old | new
    · exact kept _ (represented.changes c old)
    · have projected := (mem_numbered new).1
      unfold MemoryStore.projected at projected
      rcases List.mem_append.mp projected with written | titled
      · obtain ⟨e,inside,named⟩ := List.mem_map.mp written
        obtain ⟨_,_,_,row⟩ := rows.own e inside
        rw [← named,row]
        rfl
      · split at titled
        next =>
          have listed := (order.perm _).mem_iff.mp (List.mem_filter.mp titled).1
          obtain ⟨e,row,_⟩ := (after.mem_sessionEventIDs formed.sessionID).mp listed
          rw [row]
          rfl
        next => cases titled

end Write

/-! Deletion -/

private theorem drop_getD (ids : Option (List String)) (id : String) :
    (ids.map fun ids => ids.erase id).getD [] = (ids.getD []).erase id := by
  cases ids <;> rfl

section Drop
variable {h : Hash} {s : MemoryStore} (coherent : Coherent h s) {session : SessionRecord} {sessionID : String}
  (stored : s.sessions.lookup sessionID = some session)
include coherent stored

theorem drop_eventsCounted (counted : s.EventsCounted) :
    (s.dropSession session sessionID).EventsCounted := by
  have size := (coherent.session sessionID session stored).2.1
  intro id
  unfold storedEvents
  simp only [dropSession,Table.total_keep,Table.lookup_erase]
  by_cases own : id = sessionID
  · subst own
    rw [if_pos rfl,Option.getD_none]
    symm
    apply Table.total_eq_zero
    intro k e held
    by_cases inside : e.sessionID = id
    · have listed := (coherent.mem_sessionEventIDs size).mpr ⟨e,held,inside⟩
      simp [listed]
    · simp [inside]
  · rw [if_neg own,counted id]
    apply Table.total_congr
    intro k e held
    by_cases inside : e.sessionID = id
    · have apart : k ∉ s.sessionEventIDs sessionID := by
        intro listed
        obtain ⟨e',held',session'⟩ := (coherent.mem_sessionEventIDs size).mp listed
        rw [held] at held'
        cases held'
        exact own (inside.symm.trans session')
      simp [inside,apart]
    · simp [inside]

theorem drop_childrenCounted (counted : s.ChildrenCounted) :
    (s.dropSession session sessionID).ChildrenCounted := by
  have size := (coherent.session sessionID session stored).2.1
  intro id
  unfold storedChildren
  simp only [dropSession,Table.total_keep,Table.lookup_erase]
  by_cases own : id = sessionID
  · subst own
    rw [if_pos rfl,Option.getD_none]
    symm
    apply Table.total_eq_zero
    intro k t held
    by_cases inside : t.sessionID = id
    · have listed := (coherent.mem_threadKeys size held).mpr inside
      simp only [listed,not_true,decide_false,Bool.false_eq_true,if_false]
    · simp [inside]
  · rw [if_neg own,counted id]
    apply Table.total_congr
    intro k t held
    by_cases inside : t.sessionID = id
    · have apart := mt (coherent.mem_threadKeys size held).mp (fun same => own (inside.symm.trans same))
      simp only [apart,not_false_iff,decide_true,if_true]
    · simp [inside]

theorem dropSession_represented (represented : Represented h s) :
    Represented h (s.dropSession session sessionID) := by
  have size := (coherent.session sessionID session stored).2.1
  refine ⟨?_,?_,drop_eventsCounted coherent stored represented.events,
    drop_childrenCounted coherent stored represented.children,?_,?_,?_,?_,?_,?_,?_⟩
  · intro projectID id
    have before := represented.sessionIndex projectID id
    have distinct := represented.distinct projectID
    simp only [dropSession,Table.lookup_modify,Table.lookup_erase]
    by_cases project : projectID = session.projectID
    · rw [if_pos project,drop_getD,distinct.mem_erase_iff,before]
      by_cases own : id = sessionID <;> simp [own]
    · rw [if_neg project,before]
      by_cases own : id = sessionID
      · subst own
        simp [stored,Ne.symm project]
      · simp [own]
  · intro projectID
    have distinct := represented.distinct projectID
    simp only [dropSession,Table.lookup_modify]
    split
    · rw [drop_getD]
      exact distinct.erase _
    · exact distinct
  · intro id held
    have apart : id ≠ sessionID := by
      rintro rfl
      simp [dropSession] at held
    have held' : (s.sessions.lookup id).isSome = true := by simpa [dropSession,apart] using held
    obtain ⟨t,row,top⟩ := represented.root id held'
    obtain ⟨r,known⟩ := Option.isSome_iff_exists.mp held'
    have inside := (coherent.thread_at (coherent.session id r known).2.1 row).1
    exact ⟨t,(drop_thread coherent stored).mpr ⟨row,inside ▸ apart⟩,top⟩
  · intro k t held top
    exact represented.rootOnly k t ((drop_thread coherent stored).mp held).1 top
  · intro k
    have before := represented.versions k
    simp only [dropSession,Table.lookup_keep]
    cases versions : s.eventVersions.lookup k <;> cases known : s.eventBySource.lookup k <;>
      simp [versions,known,Option.filter] at before ⊢
    split <;> simp_all
  · intro k rows held
    simp only [dropSession,Table.lookup_keep,Option.filter_eq_some_iff] at held
    exact represented.versionScope k rows held.1
  · intro id r held
    simp only [dropSession,Table.lookup_insert] at held
    split at held
    next own => exact own ▸ size
    next => exact represented.deleted id r held
  · intro k receipt held
    simp only [dropSession,Table.lookup_keep,Option.filter_eq_some_iff,decide_eq_true_eq] at held
    simpa [dropSession,held.2] using represented.receipts k receipt held.1
  · intro c member
    simp only [dropSession,List.mem_filter,decide_eq_true_eq] at member
    obtain ⟨e,row⟩ := Option.isSome_iff_exists.mp (represented.changes c member.1)
    have apart : e.sessionID ≠ sessionID := by
      intro same
      exact member.2 ((coherent.mem_sessionEventIDs size).mpr ⟨e,row,same⟩)
    rw [(drop_event coherent stored).mpr ⟨row,apart⟩]
    rfl

end Drop

theorem Represented.rewrite {h : Hash} {s : MemoryStore} (represented : Represented h s)
    {changes : List ProjectionChangeState}
    (names : changes.map (fun c => (c.id,c.eventID)) = s.projectionChanges.map fun c => (c.id,c.eventID)) :
    Represented h {s with projectionChanges := changes} := by
  have kept : ∀ c ∈ changes, (s.events.lookup c.eventID).isSome = true := by
    intro c member
    have named : (c.id,c.eventID) ∈ s.projectionChanges.map fun c => (c.id,c.eventID) := by
      rw [← names]
      exact List.mem_map.mpr ⟨c,member,rfl⟩
    obtain ⟨c',member',same⟩ := List.mem_map.mp named
    rw [← (Prod.mk.inj same).2]
    exact represented.changes c' member'
  exact ⟨represented.sessionIndex,represented.distinct,represented.events,represented.children,
    represented.root,represented.rootOnly,represented.versions,represented.versionScope,
    represented.deleted,represented.receipts,kept⟩

end MemoryStore
end ATape.Canonical
