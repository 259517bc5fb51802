import ATape.Canonical.Ancestry
import ATape.Canonical.Representation
import ATape.Ingestion.Message

/-! What holds of every store that calls can reach: each redundant part agrees with
the rows, the threads of each session form one tree, and of a deleted session
nothing is left. -/
namespace ATape.Canonical
open Foundation Go Authorization SourceIdentity Ingestion
namespace MemoryStore

structure Indexed (s : MemoryStore) : Prop where
  source : ∀ source id, s.eventBySource.lookup source = some id ↔
    ∃ e, s.events.lookup id = some e ∧ e.sourceKey = source
  events : ∀ k id, id ∈ (s.eventIDsByThread.lookup k).getD [] ↔
    ∃ e, s.events.lookup id = some e ∧ k = recordKey e.sessionID e.threadID
  threads : ∀ sessionID id, id ∈ (s.threadIDsBySession.lookup sessionID).getD [] ↔ s.hasThread sessionID id
  sessions : ∀ projectID id, id ∈ (s.sessionIDsByProject.lookup projectID).getD [] ↔
    ∃ r, s.sessions.lookup id = some r ∧ r.projectID = projectID
  eventCounts : ∀ sessionID, (s.sessionEventCounts.lookup sessionID).getD 0 = s.storedEvents sessionID
  childCounts : ∀ sessionID, (s.sessionChildThreadCounts.lookup sessionID).getD 0 = s.storedChildren sessionID

/-- Each row is found under its own name, and refers to rows that are there. -/
structure Referenced (s : MemoryStore) : Prop where
  session : ∀ id r, s.sessions.lookup id = some r → r.id = id
  event : ∀ id e, s.events.lookup id = some e →
    e.id = id ∧ (s.sessions.lookup e.sessionID).isSome = true ∧ s.hasThread e.sessionID e.threadID
  thread : ∀ k t, s.threads.lookup k = some t →
    k = threadKey t ∧ (s.sessions.lookup t.sessionID).isSome = true ∧
      ∀ p, t.parentThreadID = some p → s.hasThread t.sessionID p

/-- The threads of each session form a finite tree, and both walks climb all of it. -/
structure Trees (s : MemoryStore) : Prop where
  root : ∀ sessionID, (s.sessions.lookup sessionID).isSome = true → ∃! k, ∃ t, s.threads.lookup k = some t ∧
    t.sessionID = sessionID ∧ t.parentThreadID = none
  rooted : ∀ k t, s.threads.lookup k = some t →
    ∃ n < s.threads.entries.length, Forest.Rooted (s.parentIn t.sessionID) t.id n
  feed : ∀ id e, s.events.lookup id = some e → ∃ t document,
    s.threads.lookup (recordKey e.sessionID e.threadID) = some t ∧ s.eventProjection id = some document ∧
      Ancestry s e.sessionID t document.threadPath ∧ ∀ fuel, s.threads.entries.length ≤ fuel →
        s.threadPath e.sessionID fuel t = document.threadPath
  conversation : ∀ k t order fuel, s.threads.lookup k = some t → s.threads.entries.length ≤ fuel →
    Ancestry s t.sessionID t
      (Canonical.threadPath (threadByID (s.conversationThreads order t.sessionID)) fuel [] t)

structure Gone (s : MemoryStore) (sessionID : String) : Prop where
  session : s.sessions.lookup sessionID = none
  threads : ∀ k t, s.threads.lookup k = some t → t.sessionID ≠ sessionID
  events : ∀ id e, s.events.lookup id = some e → e.sessionID ≠ sessionID
  versions : ∀ k rows, s.eventVersions.lookup k = some rows → ∀ e ∈ rows, e.sessionID ≠ sessionID
  usage : ∀ k u, s.usage.lookup k = some u → u.sessionID ≠ sessionID
  receipts : ∀ k receipt, s.batchReceipts.lookup k = some receipt → receipt.result.sessionID ≠ sessionID
  projects : ∀ projectID, sessionID ∉ (s.sessionIDsByProject.lookup projectID).getD []
  threadIDs : (s.threadIDsBySession.lookup sessionID).getD [] = []
  eventIDs : ∀ threadID, (s.eventIDsByThread.lookup (recordKey sessionID threadID)).getD [] = []
  eventCount : (s.sessionEventCounts.lookup sessionID).getD 0 = 0
  childCount : (s.sessionChildThreadCounts.lookup sessionID).getD 0 = 0
  changes : ∀ c ∈ s.projectionChanges,
    ∃ e, s.events.lookup c.eventID = some e ∧ e.sessionID ≠ sessionID

variable {h : Hash} {texts : Set String} {s : MemoryStore}

theorem Coherent.indexed (coherent : Coherent h s) (represented : Represented h s) : s.Indexed where
  source source id := by
    constructor
    · exact coherent.source source id
    · rintro ⟨e,row,rfl⟩
      exact (coherent.event id e row).2.2.1
  events := coherent.eventIndex
  threads := coherent.threadIndex
  sessions := represented.sessionIndex
  eventCounts := represented.events
  childCounts := represented.children

theorem Coherent.event_stored (coherent : Coherent h s) {id : String} {e : EventRecord}
    (held : s.events.lookup id = some e) : (s.sessions.lookup e.sessionID).isSome = true := by
  obtain ⟨_,_,_,t,row,session,_⟩ := coherent.event id e held
  exact session ▸ (coherent.thread _ t row).2

theorem Coherent.referenced (coherent : Coherent h s) : s.Referenced where
  session id r held := (coherent.session id r held).1
  event id e held := by
    obtain ⟨named,_,_,has⟩ := coherent.event id e held
    exact ⟨named,coherent.event_stored held,has⟩
  thread k t held := by
    obtain ⟨keyed,session⟩ := coherent.thread k t held
    exact ⟨keyed,session,fun p parent => coherent.parent k t p held parent⟩

theorem Coherent.trees (coherent : Coherent h s) (represented : Represented h s) : s.Trees where
  root sessionID stored := by
    obtain ⟨t,held,top⟩ := represented.root sessionID stored
    obtain ⟨r,row⟩ := Option.isSome_iff_exists.mp stored
    obtain ⟨session,_⟩ := coherent.thread_at (coherent.session _ r row).2.1 held
    refine ⟨_,⟨t,held,session,top⟩,?_⟩
    rintro k ⟨t',held',session',top'⟩
    have named := represented.rootOnly k t' held' top'
    rw [(coherent.thread k t' held').1,threadKey,session',named]
  rooted k t held := by
    have keyed := (coherent.thread k t held).1
    subst keyed
    obtain ⟨n,below,rooted⟩ := coherent.depth_exists (coherent.thread_session held) held
    exact ⟨n,below,rooted⟩
  feed id e held := by
    obtain ⟨_,_,_,t,row,session,named⟩ := coherent.event id e held
    obtain ⟨r,stored⟩ := Option.isSome_iff_exists.mp (coherent.event_stored held)
    have size := coherent.event_session held
    rw [← named] at row
    obtain ⟨n,below,rooted⟩ := coherent.depth_exists size row
    have path : ∀ fuel, s.threads.entries.length ≤ fuel →
        Ancestry s e.sessionID t (s.threadPath e.sessionID fuel t) := by
      intro fuel enough
      exact coherent.threadPath_ancestry size row rooted (by omega)
    rw [named] at row
    refine ⟨t,_,row,by simp [eventProjection,held,stored,row]; rfl,path _ (Nat.le_refl _),?_⟩
    intro fuel enough
    exact (path fuel enough).unique (path _ (Nat.le_refl _))
  conversation k t order fuel held enough := by
    have keyed := (coherent.thread k t held).1
    have size := coherent.thread_session held
    subst keyed
    obtain ⟨n,below,rooted⟩ := coherent.depth_exists size held
    apply coherent.conversation_ancestry size (coherent.threadByID order size) held rooted (by omega)
    intro id member
    cases member

theorem Coherent.gone (coherent : Coherent h s) (represented : Represented h s) {sessionID : String}
    (size : sessionID.toList.length = sessionIDLength) (absent : s.sessions.lookup sessionID = none) :
    s.Gone sessionID := by
  have stored : ∀ {id}, (s.sessions.lookup id).isSome = true → id ≠ sessionID := by
    intro id held same
    rw [same,absent] at held
    cases held
  have threads : ∀ k t, s.threads.lookup k = some t → t.sessionID ≠ sessionID :=
    fun k t held => stored (coherent.thread k t held).2
  have events : ∀ id e, s.events.lookup id = some e → e.sessionID ≠ sessionID :=
    fun id e held => stored (coherent.event_stored held)
  refine ⟨absent,threads,events,?_,?_,?_,?_,?_,?_,?_,?_,?_⟩
  · intro k rows held e member
    have known := represented.versions k
    rw [held] at known
    obtain ⟨id,source⟩ := Option.isSome_iff_exists.mp known.symm
    obtain ⟨current,row,keyed⟩ := coherent.source k id source
    have place := coherent.eventScope id current row
    rw [keyed] at place
    rw [(represented.versionScope k rows held e member).unique place]
    exact events id current row
  · exact fun k u held => stored (coherent.usage k u held).2
  · exact fun k receipt held => stored (represented.receipts k receipt held)
  · intro projectID member
    obtain ⟨r,row,_⟩ := (represented.sessionIndex projectID sessionID).mp member
    rw [absent] at row
    cases row
  · apply List.eq_nil_iff_forall_not_mem.mpr
    intro id member
    obtain ⟨t,held,session,_⟩ := (coherent.threadIndex sessionID id).mp member
    exact threads _ t held session
  · intro threadID
    apply List.eq_nil_iff_forall_not_mem.mpr
    intro id member
    obtain ⟨e,row,keyed⟩ := (coherent.eventIndex _ id).mp member
    exact events id e row (recordKey_inj size (coherent.event_session row) keyed).1.symm
  · rw [represented.events]
    apply Table.total_eq_zero
    intro id e held
    rw [if_neg (events id e held)]
  · rw [represented.children]
    apply Table.total_eq_zero
    intro k t held
    rw [if_neg fun both => threads k t held both.1]
  · intro c member
    obtain ⟨e,row⟩ := Option.isSome_iff_exists.mp (represented.changes c member)
    exact ⟨e,row,events _ e row⟩

theorem step_represented (free : h.CollisionFree texts) {s s' : MemoryStore} {call : Call}
    (coherent : Coherent h s) (represented : Represented h s) (step : Step h texts s call s') :
    Represented h s' := by
  have next : s' = s.perform call := by cases step <;> rfl
  rcases s.perform_cases call with same | ⟨received,order,principal,w,verdicts,result,rfl,admitted,_,accepted,
    summary,written⟩ | ⟨principal,sessionID,session,rfl,held,dropped⟩ | ⟨changes,rewritten,feed⟩
  · exact (next.trans same) ▸ represented
  · cases step with
    | applyBatch _ _ _ _ submitted =>
      rw [written,summary]
      exact write_represented _ _ (submitted.formed free) coherent admitted accepted represented
  · rw [next,dropped]
    exact dropSession_represented coherent held represented
  · rw [next,rewritten]
    apply represented.rewrite
    rcases feed with ⟨owner,limit,leaseUntil,now,_,_,rfl⟩ | ⟨owner,ids,_,rfl⟩
    · exact leaseChanges_names s owner leaseUntil now _ _
    · rw [List.map_map]
      exact List.map_congr_left fun c _ => ackChange_names owner ids c

theorem Fresh.represented {s : MemoryStore} (fresh : Fresh s) : Represented h s := by
  obtain ⟨projects,memberships,rfl⟩ := fresh
  exact newWithControlPlane_represented h projects memberships

theorem reachable_represented (free : h.CollisionFree texts) {s : MemoryStore}
    (reached : Reachable Fresh (Step h texts) s) : Coherent h s ∧ Represented h s := by
  apply reached.invariant
  · exact fun s fresh => ⟨fresh.coherent,fresh.represented⟩
  · exact fun s call s' both step =>
      ⟨step_coherent free both.1 step,step_represented free both.1 both.2 step⟩

/-! Deletion -/

def Deleted (s : MemoryStore) (sessionID : String) : Prop := (s.deletedSessions.lookup sessionID).isSome = true

theorem step_deleted {s s' : MemoryStore} {call : Call} {sessionID : String} (deleted : s.Deleted sessionID)
    (step : Step h texts s call s') : s'.Deleted sessionID := by
  have next : s' = s.perform call := by cases step <;> rfl
  rw [next]
  rcases s.perform_cases call with same | ⟨received,order,principal,w,verdicts,result,rfl,_,_,_,_,written⟩ |
    ⟨principal,id,session,rfl,_,dropped⟩ | ⟨changes,rewritten,_⟩
  · rw [same]
    exact deleted
  · rw [written,Deleted,(write_kept s received order w _ result).1]
    exact deleted
  · rw [dropped,Deleted,dropSession,Table.lookup_insert]
    split
    · rfl
    · exact deleted
  · rw [rewritten]
    exact deleted

theorem Coherent.deleted_absent (coherent : Coherent h s) {sessionID : String} (deleted : s.Deleted sessionID) :
    s.sessions.lookup sessionID = none := by
  by_contra held
  obtain ⟨r,row⟩ := Option.ne_none_iff_exists'.mp held
  have alive := (coherent.session sessionID r row).2.2
  rw [Deleted,alive] at deleted
  cases deleted

theorem concealedSession_fails (s : MemoryStore) (principal : Principal) :
    s.concealedSession principal = .error (.access ⟨.conceal,.resourceConcealed⟩) := by
  have hidden : visible ⟨principal,.capturedSessionDeleteAny,.of .capturedSession,.missing⟩ = false := by
    unfold visible
    split
    · rfl
    · simp [ResourceFacts.of]
  unfold concealedSession authorize
  rw [evaluate_hidden rfl hidden]
  rfl

theorem deleteSession_deleted {s s' : MemoryStore} {principal : Principal} {sessionID : String}
    (ok : s.deleteSession principal sessionID = .ok s') : s'.Deleted sessionID := by
  have concealed := s.concealedSession_fails principal
  have known : ∀ session deleted, s.deleteKnown principal sessionID session deleted = .ok s' →
      s' = if deleted then s else s.dropSession session sessionID := by
    intro session deleted ok
    unfold deleteKnown at ok
    split at ok
    next =>
      rw [concealed] at ok
      cases ok
    next =>
      simp only [bind_ok,pure_ok] at ok
      obtain ⟨_,_,rfl⟩ := ok
      rfl
  unfold deleteSession at ok
  split at ok
  next session held =>
    rw [known session false ok]
    simp [Deleted,dropSession]
  next session _ held =>
    rw [known session true ok]
    simp [Deleted,held]
  next =>
    rw [concealed] at ok
    cases ok

def Fails (s : MemoryStore) : Call → Prop
  | .applyBatch received order principal batch => ∃ failure, s.applyBatch received order principal batch = .error failure
  | .deleteSession principal sessionID => ∃ failure, s.deleteSession principal sessionID = .error failure
  | _ => False

theorem Fails.unchanged {call : Call} (fails : s.Fails call) : s.perform call = s := by
  cases call with
  | applyBatch received order principal batch =>
    obtain ⟨failure,failed⟩ := fails
    simp [perform,failed,after,Except.map]
  | deleteSession principal sessionID =>
    obtain ⟨failure,failed⟩ := fails
    simp [perform,failed,after]
  | leaseProjectionChanges owner limit leaseUntil now => exact fails.elim
  | ackProjectionChanges owner ids => exact fails.elim

/-- In every store that calls can reach the redundant parts agree with the rows and
the threads form trees; a deleted session leaves nothing, then and for ever; and a
call that fails changes nothing. -/
theorem store_integrity (free : h.CollisionFree texts) (reached : Reachable Fresh (Step h texts) s) :
    s.Indexed ∧ s.Referenced ∧ s.Trees ∧
      (∀ principal sessionID s', s.deleteSession principal sessionID = .ok s' → s'.Deleted sessionID) ∧
      (∀ sessionID calls s', s.Deleted sessionID → Run (Step h texts) s calls s' →
        s'.Deleted sessionID ∧ s'.Gone sessionID) ∧
      ∀ call, s.Fails call → s.perform call = s := by
  obtain ⟨coherent,represented⟩ := reachable_represented free reached
  refine ⟨coherent.indexed represented,coherent.referenced,coherent.trees represented,?_,?_,?_⟩
  · exact fun principal sessionID s' => deleteSession_deleted
  · intro sessionID calls s' deleted run
    obtain ⟨start,earlier,fresh,before⟩ := reached
    obtain ⟨coherent',represented'⟩ := reachable_represented free ⟨start,_,fresh,before.append run⟩
    have kept : s'.Deleted sessionID := run.invariant (fun _ _ _ kept step => step_deleted kept step) deleted
    obtain ⟨r,known⟩ := Option.isSome_iff_exists.mp kept
    exact ⟨kept,coherent'.gone represented' (represented'.deleted sessionID r known) (coherent'.deleted_absent kept)⟩
  · exact fun call => Fails.unchanged

/-! A session with one message, deleted by the one who captured it. -/

def hello : Message := ⟨"b1","Plan","codex","main","Hello",1,1⟩

theorem hello_valid : hello.Valid := by
  constructor <;> decide

def reader : Principal := ⟨"ada",.webAuthentication,false⟩

theorem kept_scope {received : Nat → Time} {order : Order} {principal : Principal} {w : WriteBatch}
    {result : ApplyResult} {s' : MemoryStore} (ok : s.applyBatch received order principal w = .ok (result,s')) :
    s'.projects = s.projects ∧ s'.memberships = s.memberships := by
  obtain ⟨_,⟨_,_,_,rfl⟩ | ⟨_,verdicts,_,_,rfl⟩⟩ := applyBatch_ok ok
  · exact ⟨rfl,rfl⟩
  · obtain ⟨_,projects,memberships,_⟩ := write_kept s received order w (applied w verdicts) result
    exact ⟨projects,memberships⟩

theorem store_integrity_message : ∃ (s s' : MemoryStore) (id : String), (s.sessions.lookup id).isSome = true ∧
    s.deleteSession reader id = .ok s' ∧ s.Trees ∧ s'.Deleted id ∧ s'.Gone id := by
  let h := Message.pairHash hello hello
  obtain ⟨_,s,ok,held⟩ := Message.first_ok h hello
  obtain ⟨projects,memberships⟩ := kept_scope ok
  have fresh : Fresh Message.store := ⟨_,_,rfl⟩
  have sent := Message.pair_submitted hello hello hello_valid (.inl rfl)
  have reached := (Reachable.start fresh).extend
    (Step.applyBatch Message.store (fun _ => momentTime) Message.order _ _ sent)
  rw [perform_apply ok] at reached
  have deleted : s.deleteSession reader (Message.sessionID h) =
      .ok (s.dropSession (hello.sessionRow h) (Message.sessionID h)) := by
    have project : (s.projects.lookup (hello.sessionRow h).projectID).filter (·.state ≠ "deleted") =
        some ⟨"p_1","t_1","atape","git","active"⟩ := by
      rw [projects]
      decide
    have member : s.membership "t_1" reader.userID = ⟨"t_1","ada",.member,true⟩ := by
      unfold membership
      rw [memberships]
      decide
    simp only [deleteSession,held.session,deleteKnown]
    rw [project]
    simp only [member]
    rfl
  obtain ⟨_,_,trees,delete,kept,_⟩ := store_integrity (Message.pair_collisionFree hello hello) reached
  have gone := delete _ _ _ deleted
  have after := store_integrity (Message.pair_collisionFree hello hello)
    (reached.extend (Step.deleteSession s reader (Message.sessionID h)))
  rw [perform_delete deleted] at after
  obtain ⟨_,_,_,_,left,_⟩ := after
  exact ⟨s,_,Message.sessionID h,by rw [held.session]; rfl,deleted,trees,left _ _ _ gone (.nil _)⟩

end MemoryStore
end ATape.Canonical
