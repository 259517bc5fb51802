import ATape.Canonical.Admission

/-! The store as a database: its indexes list exactly its rows, each row refers to
rows that are there, and the threads of a session form a forest. Every accepted
call keeps this. -/
namespace ATape.Canonical
open Foundation Go Authorization SourceIdentity
namespace MemoryStore

def parentIn (s : MemoryStore) (sessionID id : String) : Option String :=
  (s.threads.lookup (recordKey sessionID id)).bind (·.parentThreadID)

def hasThread (s : MemoryStore) (sessionID id : String) : Prop :=
  ∃ t, s.threads.lookup (recordKey sessionID id) = some t ∧ t.sessionID = sessionID ∧ t.id = id

structure Coherent (h : Hash) (s : MemoryStore) : Prop where
  session : ∀ id r, s.sessions.lookup id = some r → r.id = id ∧ id.toList.length = sessionIDLength ∧
    s.deletedSessions.lookup id = none
  thread : ∀ k t, s.threads.lookup k = some t →
    k = threadKey t ∧ (s.sessions.lookup t.sessionID).isSome = true
  threadIndex : ∀ sessionID id, id ∈ (s.threadIDsBySession.lookup sessionID).getD [] ↔ s.hasThread sessionID id
  parent : ∀ k t p, s.threads.lookup k = some t → t.parentThreadID = some p → s.hasThread t.sessionID p
  rooted : ∀ k t, s.threads.lookup k = some t → ∃ n, Forest.Rooted (s.parentIn t.sessionID) t.id n
  event : ∀ id e, s.events.lookup id = some e → e.id = id ∧ id = stableID h "e_" e.sourceKey ∧
    s.eventBySource.lookup e.sourceKey = some id ∧ s.hasThread e.sessionID e.threadID
  source : ∀ k id, s.eventBySource.lookup k = some id → ∃ e, s.events.lookup id = some e ∧ e.sourceKey = k
  eventIndex : ∀ k id, id ∈ (s.eventIDsByThread.lookup k).getD [] ↔
    ∃ e, s.events.lookup id = some e ∧ k = recordKey e.sessionID e.threadID
  ingested : ∀ id e, s.events.lookup id = some e → e.ingestSeq ≤ s.nextIngestSeq
  usage : ∀ k u, s.usage.lookup k = some u → u.sourceKey = k ∧ (s.sessions.lookup u.sessionID).isSome = true
  eventScope : ∀ id e, s.events.lookup id = some e → Scoped h e.sessionID e.sourceKey
  usageScope : ∀ k u, s.usage.lookup k = some u → Scoped h u.sessionID k

theorem recordKey_inj {a b x y : String} (size : a.toList.length = sessionIDLength)
    (size' : b.toList.length = sessionIDLength) (same : recordKey a x = recordKey b y) : a = b ∧ x = y := by
  have lists := congrArg String.toList same
  simp only [recordKey,String.toList_append,List.append_assoc] at lists
  obtain ⟨left,right⟩ := List.append_inj lists (size.trans size'.symm)
  exact ⟨String.toList_inj.mp left,String.toList_inj.mp (List.append_cancel_left right)⟩

theorem resolve_source {ρ ν : Type} [LinearOrder ν] {version : ρ → ν} {before : Option ρ} {r x : ρ}
    (held : Register.resolve version before r = some x) : x = r ∨ before = some x := by
  unfold Register.resolve at held
  split at held
  · exact .inl (Option.some.inj held).symm
  · exact .inr held

theorem resolve_isSome {ρ ν : Type} [LinearOrder ν] (version : ρ → ν) (before : Option ρ) (r : ρ) :
    ∃ x, Register.resolve version before r = some x := by
  unfold Register.resolve
  split
  · exact ⟨r,rfl⟩
  · cases before with
    | none => simp_all
    | some held => exact ⟨held,rfl⟩

theorem newWithControlPlane_coherent (h : Hash) (projects : List ProjectRecord)
    (memberships : List MembershipFacts) : Coherent h (newWithControlPlane projects memberships) := by
  constructor <;> simp [newWithControlPlane,hasThread]

variable {h : Hash} {s : MemoryStore}

theorem Coherent.thread_session (coherent : Coherent h s) {k : String} {t : ThreadRecord}
    (held : s.threads.lookup k = some t) : t.sessionID.toList.length = sessionIDLength := by
  obtain ⟨r,row⟩ := Option.isSome_iff_exists.mp (coherent.thread k t held).2
  exact (coherent.session _ r row).2.1

theorem Coherent.thread_at (coherent : Coherent h s) {sessionID id : String} {t : ThreadRecord}
    (size : sessionID.toList.length = sessionIDLength)
    (held : s.threads.lookup (recordKey sessionID id) = some t) : t.sessionID = sessionID ∧ t.id = id := by
  have keyed := (coherent.thread _ t held).1
  obtain ⟨session,named⟩ := recordKey_inj size (coherent.thread_session held) keyed
  exact ⟨session.symm,named.symm⟩

theorem Coherent.event_session (coherent : Coherent h s) {id : String} {e : EventRecord}
    (held : s.events.lookup id = some e) : e.sessionID.toList.length = sessionIDLength := by
  obtain ⟨_,_,_,t,row,session,_⟩ := coherent.event id e held
  exact session ▸ coherent.thread_session row

theorem Coherent.stored_named (coherent : Coherent h s) {source id : String}
    (known : s.eventBySource.lookup source = some id) : id = stableID h "e_" source := by
  obtain ⟨e,row,rfl⟩ := coherent.source source id known
  exact (coherent.event id e row).2.1

section Write
variable (received : Nat → Time) (order : Order) (events : List EventRecord) (result : ApplyResult)
  {principal : Principal} {w : WriteBatch} {verdicts : List Verdict}

theorem formed_threadKeys (formed : w.Formed h) : (w.threads.map threadKey).Nodup := by
  apply List.Nodup.map_on _ (List.Nodup.of_map _ formed.threadIDs)
  intro t member t' member' same
  apply List.inj_on_of_nodup_map formed.threadIDs member member'
  unfold threadKey at same
  rw [formed.threadSession t member,formed.threadSession t' member'] at same
  exact (recordKey_inj formed.sessionID formed.sessionID same).2

theorem applied_received (s : MemoryStore) (verdicts : List Verdict) (formed : w.Formed h) :
    Received s (s.write received order w (applied w verdicts) result) w.observedAt received
      (applied w verdicts) :=
  write_received s received order w _ result (formed.eventIDs.sublist (applied_sublist.map _))
    (formed.eventKeys.sublist (applied_sublist.map _))

theorem written_thread (formed : w.Formed h) (coherent : Coherent h s)
    (accepted : s.Accepted principal w verdicts) {t : ThreadRecord}
    (member : t ∈ w.threads) :
    ∃ r, (s.write received order w events result).threads.lookup (threadKey t) = some r ∧
      r.sessionID = t.sessionID ∧ r.id = t.id ∧ r.parentThreadID = t.parentThreadID := by
  have own := thread_own s received order w events result (formed_threadKeys formed) member
  obtain ⟨r,row⟩ := resolve_isSome (·.revision) (s.threads.lookup (threadKey t)) t
  refine ⟨r,own.trans row,?_⟩
  rcases resolve_source row with rfl | old
  · exact ⟨rfl,rfl,rfl⟩
  · have size : t.sessionID.toList.length = sessionIDLength := formed.threadSession t member ▸ formed.sessionID
    obtain ⟨session,named⟩ := coherent.thread_at size old
    exact ⟨session,named,(accepted.threads t member r old).2.1⟩

theorem kept_thread (formed : w.Formed h) (coherent : Coherent h s)
    (accepted : s.Accepted principal w verdicts) {k : String} {t : ThreadRecord}
    (held : s.threads.lookup k = some t) :
    ∃ r, (s.write received order w events result).threads.lookup k = some r ∧
      r.sessionID = t.sessionID ∧ r.id = t.id ∧ r.parentThreadID = t.parentThreadID := by
  by_cases touched : ∃ t' ∈ w.threads, threadKey t' = k
  · obtain ⟨t',member,rfl⟩ := touched
    obtain ⟨r,row,session,named,parent⟩ := written_thread received order events result formed coherent accepted member
    have size : t'.sessionID.toList.length = sessionIDLength :=
      formed.threadSession t' member ▸ formed.sessionID
    obtain ⟨session',named'⟩ := coherent.thread_at size held
    have parent' := (accepted.threads t' member t held).2.1
    exact ⟨r,row,session.trans session'.symm,named.trans named'.symm,parent.trans parent'.symm⟩
  · push Not at touched
    exact ⟨t,(thread_other s received order w events result touched).trans held,rfl,rfl,rfl⟩

theorem thread_origin (formed : w.Formed h) {k : String} {r : ThreadRecord}
    (held : (s.write received order w events result).threads.lookup k = some r) :
    (∃ t ∈ w.threads, k = threadKey t ∧ r = t) ∨ s.threads.lookup k = some r := by
  by_cases touched : ∃ t ∈ w.threads, threadKey t = k
  · obtain ⟨t,member,rfl⟩ := touched
    rw [thread_own s received order w events result (formed_threadKeys formed) member] at held
    exact (resolve_source held).imp (fun same => ⟨t,member,rfl,same⟩) id
  · push Not at touched
    exact .inr ((thread_other s received order w events result touched).symm.trans held)

theorem kept_session {id : String} :
    (s.sessions.lookup id).isSome = true →
      ((s.write received order w events result).sessions.lookup id).isSome = true := by
  intro held
  by_cases own : id = w.session.id
  · subst own
    rw [session_own]
    obtain ⟨r,row⟩ := resolve_isSome (·.revision) (s.sessions.lookup w.session.id) w.session
    rw [row]
    rfl
  · rwa [session_other s received order w events result own]

theorem written_session :
    ((s.write received order w events result).sessions.lookup w.session.id).isSome = true := by
  rw [session_own]
  obtain ⟨r,row⟩ := resolve_isSome (·.revision) (s.sessions.lookup w.session.id) w.session
  rw [row]
  rfl

theorem hasThread_kept (formed : w.Formed h) (coherent : Coherent h s)
    (accepted : s.Accepted principal w verdicts) {sessionID id : String}
    (has : s.hasThread sessionID id) : (s.write received order w events result).hasThread sessionID id := by
  obtain ⟨t,held,session,named⟩ := has
  obtain ⟨r,row,session',named',_⟩ := kept_thread received order events result formed coherent accepted held
  exact ⟨r,row,session'.trans session,named'.trans named⟩

theorem hasThread_written (formed : w.Formed h) (coherent : Coherent h s)
    (accepted : s.Accepted principal w verdicts) {t : ThreadRecord}
    (member : t ∈ w.threads) :
    (s.write received order w events result).hasThread w.session.id t.id := by
  obtain ⟨r,row,session,named,_⟩ := written_thread received order events result formed coherent accepted member
  unfold threadKey at row
  rw [formed.threadSession t member] at row session
  exact ⟨r,row,session,named⟩

theorem write_rooted (formed : w.Formed h) (coherent : Coherent h s)
    (accepted : s.Accepted principal w verdicts) {k : String} {r : ThreadRecord}
    (held : (s.write received order w events result).threads.lookup k = some r) :
    ∃ n, Forest.Rooted ((s.write received order w events result).parentIn r.sessionID) r.id n := by
  rcases thread_origin _ _ _ _ formed held with ⟨t,member,_,rfl⟩ | old
  · -- above a thread of the batch, the store has the parents of the batch
    obtain ⟨n,rooted⟩ := formed.rooted r member
    refine ⟨n,rooted.congr (fun b => ∃ t ∈ w.threads, t.id = b) ⟨r,member,rfl⟩ ?_ ?_⟩
    · rintro b ⟨t,known,rfl⟩
      obtain ⟨row,found,_,_,parent⟩ := written_thread received order events result formed coherent accepted known
      unfold threadKey at found
      rw [formed.threadSession t known,← formed.threadSession r member] at found
      rw [recordParent_mem formed.threadIDs known,parentIn,found,Option.bind_some,parent]
    · rintro b c ⟨t,known,rfl⟩ above
      rw [recordParent_mem formed.threadIDs known] at above
      exact formed.parents t known c above
  · -- above an older thread, it has the parents it had
    obtain ⟨n,rooted⟩ := coherent.rooted k r old
    have size := coherent.thread_session old
    refine ⟨n,rooted.congr (s.hasThread r.sessionID) ?_ ?_ ?_⟩
    · obtain ⟨rfl,_⟩ := coherent.thread k r old
      exact ⟨r,old,rfl,rfl⟩
    · rintro b ⟨t,known,_,_⟩
      obtain ⟨row,found,_,_,parent⟩ := kept_thread received order events result formed coherent accepted known
      rw [parentIn,parentIn,found,known,Option.bind_some,Option.bind_some,parent]
    · rintro b c ⟨t,known,session,_⟩ above
      rw [parentIn,known,Option.bind_some] at above
      exact session ▸ coherent.parent _ t c known above

theorem event_origin (formed : w.Formed h) {id : String} {row : EventRecord}
    (held : (s.write received order w (applied w verdicts) result).events.lookup id = some row) :
    (∃ e ∈ applied w verdicts, ∃ seq, s.nextIngestSeq < seq ∧
      seq ≤ (s.write received order w (applied w verdicts) result).nextIngestSeq ∧ id = e.id ∧
      row = arrived seq w.observedAt (received seq) e) ∨
    (∀ e ∈ applied w verdicts, e.id ≠ id) ∧ s.events.lookup id = some row := by
  have rows := applied_received received order result s verdicts formed
  by_cases touched : ∃ e ∈ applied w verdicts, e.id = id
  · obtain ⟨e,member,rfl⟩ := touched
    obtain ⟨seq,after,bounded,own⟩ := rows.own e member
    rw [own] at held
    exact .inl ⟨e,member,seq,after,bounded,rfl,(Option.some.inj held).symm⟩
  · push Not at touched
    exact .inr ⟨touched,(rows.other id touched).symm.trans held⟩

theorem applied_place (formed : w.Formed h) (coherent : Coherent h s)
    (accepted : s.Accepted principal w verdicts) {e : EventRecord} (member : e ∈ applied w verdicts) :
    (s.events.lookup e.id = none ∧ s.eventBySource.lookup e.sourceKey = none) ∨
      ∃ old, s.events.lookup e.id = some old ∧ s.eventBySource.lookup e.sourceKey = some e.id ∧
        old.sourceKey = e.sourceKey ∧ old.sessionID = e.sessionID ∧ old.threadID = e.threadID ∧
        old.version < e.version := by
  have named := formed.eventNamed e (applied_sublist.subset member)
  rcases mem_applied accepted.events member with fresh | updated
  · obtain ⟨fresh,apart⟩ := fresh
    refine .inl ⟨?_,fresh⟩
    by_contra held
    obtain ⟨old,row⟩ := Option.ne_none_iff_exists'.mp held
    have known := (coherent.event _ old row).2.2.1
    rw [apart old row,fresh] at known
    cases known
  · obtain _ | _ | _ | ⟨id,known,newer,session,thread⟩ := updated
    obtain ⟨old,row,keyed⟩ := coherent.source _ id known
    have place : id = e.id := (coherent.stored_named known).trans named.symm
    subst place
    rw [row] at newer session thread
    exact .inr ⟨old,row,known,keyed,session,thread,newer⟩

theorem write_events_coherent (formed : w.Formed h) (coherent : Coherent h s)
    (accepted : s.Accepted principal w verdicts) {id : String} {row : EventRecord}
    (held : (s.write received order w (applied w verdicts) result).events.lookup id = some row) :
    row.id = id ∧ id = stableID h "e_" row.sourceKey ∧
      (s.write received order w (applied w verdicts) result).eventBySource.lookup row.sourceKey = some id ∧
      (s.write received order w (applied w verdicts) result).hasThread row.sessionID row.threadID := by
  have rows := applied_received received order result s verdicts formed
  rcases event_origin _ _ _ formed held with ⟨e,member,seq,_,_,rfl,rfl⟩ | ⟨apart,old⟩
  · have inside := applied_sublist.subset member
    obtain ⟨t,known,thread⟩ := formed.eventThread e inside
    have has := hasThread_written received order (applied w verdicts) result formed coherent accepted known
    rw [thread,← formed.eventSession e inside] at has
    exact ⟨rfl,formed.eventNamed e inside,rows.source e member,has⟩
  · obtain ⟨same,named,known,has⟩ := coherent.event id row old
    refine ⟨same,named,?_,hasThread_kept _ _ _ _ formed coherent accepted has⟩
    rw [rows.otherSource row.sourceKey]
    · exact known
    · intro e member keyed
      apply apart e member
      rw [formed.eventNamed e (applied_sublist.subset member),keyed,named]

theorem write_coherent (formed : w.Formed h) (coherent : Coherent h s) (admitted : s.Admitted principal w)
    (accepted : s.Accepted principal w verdicts) :
    Coherent h (s.write received order w (applied w verdicts) result) := by
  have rows := applied_received received order result s verdicts formed
  have kept := write_kept s received order w (applied w verdicts) result
  refine ⟨?_,?_,?_,?_,?_,?_,?_,?_,?_,?_,?_,?_⟩
  · intro id r held
    rw [kept.1]
    by_cases own : id = w.session.id
    · subst own
      rw [session_own] at held
      rcases resolve_source held with rfl | old
      · exact ⟨rfl,formed.sessionID,admitted.alive⟩
      · exact coherent.session _ r old
    · rw [session_other s received order w _ result own] at held
      exact coherent.session id r held
  · intro k t held
    rcases thread_origin _ _ _ _ formed held with ⟨t',member,rfl,rfl⟩ | old
    · rw [formed.threadSession t member]
      exact ⟨rfl,written_session _ _ _ _⟩
    · exact ⟨(coherent.thread k t old).1,kept_session _ _ _ _ (coherent.thread k t old).2⟩
  · intro sessionID id
    rw [thread_index s received order w _ result (formed_threadKeys formed),coherent.threadIndex]
    constructor
    · rintro (⟨t,member,_,rfl,rfl⟩ | has)
      · rw [formed.threadSession t member]
        exact hasThread_written _ _ _ _ formed coherent accepted member
      · exact hasThread_kept _ _ _ _ formed coherent accepted has
    · rintro ⟨r,row,rfl,rfl⟩
      rcases thread_origin _ _ _ _ formed row with ⟨t,member,_,rfl⟩ | old
      · by_cases fresh : s.threads.lookup (threadKey r) = none
        · exact .inl ⟨r,member,fresh,rfl,rfl⟩
        · obtain ⟨old,held⟩ := Option.ne_none_iff_exists'.mp fresh
          have size : r.sessionID.toList.length = sessionIDLength :=
            formed.threadSession r member ▸ formed.sessionID
          exact .inr ⟨old,held,coherent.thread_at size held⟩
      · exact .inr ⟨r,old,rfl,rfl⟩
  · intro k t p held parent
    rcases thread_origin _ _ _ _ formed held with ⟨t',member,_,rfl⟩ | old
    · obtain ⟨above,known,rfl⟩ := formed.parents t member p parent
      rw [formed.threadSession t member]
      exact hasThread_written _ _ _ _ formed coherent accepted known
    · exact hasThread_kept _ _ _ _ formed coherent accepted (coherent.parent k t p old parent)
  · intro k t held
    exact write_rooted _ _ _ _ formed coherent accepted held
  · intro id e held
    exact write_events_coherent _ _ _ formed coherent accepted held
  · intro k id held
    by_cases touched : ∃ e ∈ applied w verdicts, e.sourceKey = k
    · obtain ⟨e,member,rfl⟩ := touched
      rw [rows.source e member] at held
      cases held
      obtain ⟨seq,_,_,row⟩ := rows.own e member
      exact ⟨_,row,rfl⟩
    · push Not at touched
      rw [rows.otherSource k touched] at held
      obtain ⟨e,row,rfl⟩ := coherent.source k id held
      refine ⟨e,?_,rfl⟩
      rw [rows.other id]
      · exact row
      · intro e' member same
        rcases applied_place formed coherent accepted member with ⟨fresh,_⟩ | ⟨old,row',_,keyed,_⟩
        · rw [same,row] at fresh
          cases fresh
        · rw [same,row] at row'
          cases row'
          exact touched e' member keyed.symm
  · intro k id
    rw [rows.index,coherent.eventIndex]
    constructor
    · rintro (⟨e,member,_,rfl,rfl⟩ | ⟨e,row,rfl⟩)
      · obtain ⟨seq,_,_,row⟩ := rows.own e member
        exact ⟨_,row,rfl⟩
      · by_cases touched : ∃ e' ∈ applied w verdicts, e'.id = id
        · obtain ⟨e',member,rfl⟩ := touched
          obtain ⟨seq,_,_,row'⟩ := rows.own e' member
          refine ⟨_,row',?_⟩
          rcases applied_place formed coherent accepted member with ⟨fresh,_⟩ | ⟨old,held,_,_,session,thread,_⟩
          · rw [fresh] at row
            cases row
          · rw [held] at row
            cases row
            rw [session,thread]
            rfl
        · push Not at touched
          exact ⟨e,(rows.other id touched).trans row,rfl⟩
    · rintro ⟨row,held,rfl⟩
      rcases event_origin _ _ _ formed held with ⟨e,member,seq,_,_,rfl,rfl⟩ | ⟨_,old⟩
      · rcases applied_place formed coherent accepted member with ⟨fresh,_⟩ | ⟨old,row,_,_,session,thread,_⟩
        · exact .inl ⟨e,member,fresh,rfl,rfl⟩
        · refine .inr ⟨old,row,?_⟩
          rw [session,thread]
          rfl
      · exact .inr ⟨row,old,rfl⟩
  · intro id e held
    rcases event_origin _ _ _ formed held with ⟨e',member,seq,_,bounded,_,rfl⟩ | ⟨_,old⟩
    · exact bounded
    · have before := coherent.ingested id e old
      rw [rows.seq]
      omega
  · intro k u held
    by_cases touched : ∃ u' ∈ w.usage, u'.sourceKey = k
    · obtain ⟨u',member,rfl⟩ := touched
      rw [usage_own s received order w _ result formed.usageKeys member] at held
      rcases resolve_source held with rfl | old
      · rw [formed.usageSession u member]
        exact ⟨rfl,written_session _ _ _ _⟩
      · exact ⟨(coherent.usage _ u old).1,kept_session _ _ _ _ (coherent.usage _ u old).2⟩
    · push Not at touched
      rw [usage_other s received order w _ result touched] at held
      exact ⟨(coherent.usage k u held).1,kept_session _ _ _ _ (coherent.usage k u held).2⟩
  · intro id e held
    rcases event_origin _ _ _ formed held with ⟨e',member,_,_,_,_,rfl⟩ | ⟨_,old⟩
    · have inside := applied_sublist.subset member
      have scope := formed.eventScope e' inside
      rwa [← formed.eventSession e' inside] at scope
    · exact coherent.eventScope id e old
  · intro k u held
    by_cases touched : ∃ u' ∈ w.usage, u'.sourceKey = k
    · obtain ⟨u',member,rfl⟩ := touched
      rw [usage_own s received order w _ result formed.usageKeys member] at held
      rcases resolve_source held with rfl | old
      · have scope := formed.usageScope u member
        rwa [← formed.usageSession u member] at scope
      · exact coherent.usageScope _ u old
    · push Not at touched
      rw [usage_other s received order w _ result touched] at held
      exact coherent.usageScope k u held

end Write

/-! Deletion -/

theorem Coherent.mem_sessionEventIDs (coherent : Coherent h s) {sessionID id : String}
    (size : sessionID.toList.length = sessionIDLength) :
    id ∈ s.sessionEventIDs sessionID ↔ ∃ e, s.events.lookup id = some e ∧ e.sessionID = sessionID := by
  unfold sessionEventIDs
  rw [List.mem_flatMap]
  constructor
  · rintro ⟨threadID,_,member⟩
    obtain ⟨e,row,keyed⟩ := (coherent.eventIndex _ id).mp member
    exact ⟨e,row,(recordKey_inj size (coherent.event_session row) keyed).1.symm⟩
  · rintro ⟨e,row,rfl⟩
    obtain ⟨_,_,_,has⟩ := coherent.event id e row
    exact ⟨e.threadID,(coherent.threadIndex _ _).mpr has,(coherent.eventIndex _ id).mpr ⟨e,row,rfl⟩⟩

theorem Coherent.mem_threadKeys (coherent : Coherent h s) {sessionID k : String} {t : ThreadRecord}
    (size : sessionID.toList.length = sessionIDLength) (held : s.threads.lookup k = some t) :
    k ∈ ((s.threadIDsBySession.lookup sessionID).getD []).map (recordKey sessionID) ↔
      t.sessionID = sessionID := by
  obtain ⟨keyed,_⟩ := coherent.thread k t held
  rw [List.mem_map]
  constructor
  · rintro ⟨id,_,rfl⟩
    exact (coherent.thread_at size held).1
  · rintro rfl
    subst keyed
    exact ⟨t.id,(coherent.threadIndex _ _).mpr ⟨t,held,rfl,rfl⟩,rfl⟩

section Drop
variable (coherent : Coherent h s) {session : SessionRecord} {sessionID : String}
  (stored : s.sessions.lookup sessionID = some session)
include coherent stored

theorem drop_thread {k : String} {t : ThreadRecord} :
    (s.dropSession session sessionID).threads.lookup k = some t ↔
      s.threads.lookup k = some t ∧ t.sessionID ≠ sessionID := by
  have size := (coherent.session sessionID session stored).2.1
  simp only [dropSession,Table.lookup_keep,Option.filter_eq_some_iff,decide_eq_true_eq]
  constructor
  · rintro ⟨held,apart⟩
    exact ⟨held,fun same => apart ((coherent.mem_threadKeys size held).mpr same)⟩
  · rintro ⟨held,apart⟩
    exact ⟨held,fun member => apart ((coherent.mem_threadKeys size held).mp member)⟩

theorem drop_event {id : String} {e : EventRecord} :
    (s.dropSession session sessionID).events.lookup id = some e ↔
      s.events.lookup id = some e ∧ e.sessionID ≠ sessionID := by
  have size := (coherent.session sessionID session stored).2.1
  simp only [dropSession,Table.lookup_keep,Option.filter_eq_some_iff,decide_eq_true_eq,
    coherent.mem_sessionEventIDs size]
  constructor
  · rintro ⟨held,apart⟩
    exact ⟨held,fun same => apart ⟨e,held,same⟩⟩
  · rintro ⟨held,apart⟩
    refine ⟨held,?_⟩
    rintro ⟨e',held',same⟩
    rw [held] at held'
    cases held'
    exact apart same

theorem drop_source {k id : String} :
    (s.dropSession session sessionID).eventBySource.lookup k = some id ↔
      s.eventBySource.lookup k = some id ∧
        ∃ e, s.events.lookup id = some e ∧ e.sourceKey = k ∧ e.sessionID ≠ sessionID := by
  have size := (coherent.session sessionID session stored).2.1
  simp only [dropSession,Table.lookup_keep,Option.filter_eq_some_iff,decide_eq_true_eq,List.mem_map,
    List.mem_filterMap,coherent.mem_sessionEventIDs size]
  constructor
  · rintro ⟨known,apart⟩
    obtain ⟨e,row,keyed⟩ := coherent.source k id known
    exact ⟨known,e,row,keyed,fun same => apart ⟨e,⟨id,⟨e,row,same⟩,row⟩,keyed⟩⟩
  · rintro ⟨known,e,row,keyed,apart⟩
    refine ⟨known,?_⟩
    rintro ⟨e',⟨id',⟨e'',row'',same⟩,row'⟩,keyed'⟩
    rw [row'] at row''
    cases row''
    have known' := (coherent.event id' e' row').2.2.1
    rw [keyed',known] at known'
    cases known'
    rw [row] at row'
    cases row'
    exact apart same

theorem drop_hasThread {id threadID : String} :
    (s.dropSession session sessionID).hasThread id threadID ↔ s.hasThread id threadID ∧ id ≠ sessionID := by
  unfold hasThread
  simp only [drop_thread coherent stored]
  constructor
  · rintro ⟨t,⟨held,apart⟩,rfl,rfl⟩
    exact ⟨⟨t,held,rfl,rfl⟩,apart⟩
  · rintro ⟨⟨t,held,rfl,rfl⟩,apart⟩
    exact ⟨t,⟨held,apart⟩,rfl,rfl⟩

theorem drop_parentIn {id : String} (size : id.toList.length = sessionIDLength) (apart : id ≠ sessionID) :
    (s.dropSession session sessionID).parentIn id = s.parentIn id := by
  funext threadID
  unfold parentIn
  congr 1
  ext t
  rw [drop_thread coherent stored,and_iff_left_iff_imp]
  intro held
  exact (coherent.thread_at size held).1.symm ▸ apart

theorem dropSession_coherent : Coherent h (s.dropSession session sessionID) := by
  have size := (coherent.session sessionID session stored).2.1
  refine ⟨?_,?_,?_,?_,?_,?_,?_,?_,?_,?_,?_,?_⟩
  · intro id r held
    simp only [dropSession,Table.lookup_erase] at held
    split at held
    next => cases held
    next apart =>
      simpa [dropSession,apart] using coherent.session id r held
  · intro k t held
    obtain ⟨held,apart⟩ := (drop_thread coherent stored).mp held
    simpa [dropSession,apart] using coherent.thread k t held
  · intro id threadID
    rw [drop_hasThread coherent stored,← coherent.threadIndex]
    by_cases own : id = sessionID <;> simp [dropSession,own]
  · intro k t p held above
    obtain ⟨held,apart⟩ := (drop_thread coherent stored).mp held
    exact (drop_hasThread coherent stored).mpr ⟨coherent.parent k t p held above,apart⟩
  · intro k t held
    obtain ⟨held,apart⟩ := (drop_thread coherent stored).mp held
    rw [drop_parentIn coherent stored (coherent.thread_session held) apart]
    exact coherent.rooted k t held
  · intro id e held
    obtain ⟨held,apart⟩ := (drop_event coherent stored).mp held
    obtain ⟨same,named,known,has⟩ := coherent.event id e held
    exact ⟨same,named,(drop_source coherent stored).mpr ⟨known,e,held,rfl,apart⟩,
      (drop_hasThread coherent stored).mpr ⟨has,apart⟩⟩
  · intro k id known
    obtain ⟨_,e,row,keyed,apart⟩ := (drop_source coherent stored).mp known
    exact ⟨e,(drop_event coherent stored).mpr ⟨row,apart⟩,keyed⟩
  · intro k id
    simp only [drop_event coherent stored]
    simp only [dropSession,Table.lookup_keep]
    constructor
    · intro member
      obtain ⟨ids,listed,inside⟩ : ∃ ids, s.eventIDsByThread.lookup k = some ids ∧ id ∈ ids ∧
          k ∉ ((s.threadIDsBySession.lookup sessionID).getD []).map (recordKey sessionID) := by
        cases listed : s.eventIDsByThread.lookup k with
        | none => simp [listed] at member
        | some ids =>
          by_cases dropped : k ∈ ((s.threadIDsBySession.lookup sessionID).getD []).map (recordKey sessionID)
          · simp [listed,Option.filter,dropped] at member
          · refine ⟨ids,rfl,?_,dropped⟩
            simpa [listed,Option.filter,dropped] using member
      obtain ⟨e,row,rfl⟩ := (coherent.eventIndex k id).mp (by simpa [listed] using inside.1)
      refine ⟨e,⟨row,?_⟩,rfl⟩
      rintro rfl
      obtain ⟨_,_,_,t,held,session',_⟩ := coherent.event id e row
      exact inside.2 ((coherent.mem_threadKeys size held).mpr session')
    · rintro ⟨e,⟨row,apart⟩,rfl⟩
      obtain ⟨_,_,_,t,held,session',_⟩ := coherent.event id e row
      have listed := (coherent.eventIndex _ id).mpr ⟨e,row,rfl⟩
      have kept : recordKey e.sessionID e.threadID ∉
          ((s.threadIDsBySession.lookup sessionID).getD []).map (recordKey sessionID) :=
        fun member => apart (session' ▸ (coherent.mem_threadKeys size held).mp member)
      cases ids : s.eventIDsByThread.lookup (recordKey e.sessionID e.threadID) with
      | none => simp [ids] at listed
      | some found => simpa [ids,Option.filter,kept] using listed
  · intro id e held
    exact coherent.ingested id e ((drop_event coherent stored).mp held).1
  · intro k u held
    simp only [dropSession,Table.lookup_keep,Option.filter_eq_some_iff,decide_eq_true_eq] at held
    simpa [dropSession,held.2] using coherent.usage k u held.1
  · intro id e held
    exact coherent.eventScope id e ((drop_event coherent stored).mp held).1
  · intro k u held
    simp only [dropSession,Table.lookup_keep,Option.filter_eq_some_iff,decide_eq_true_eq] at held
    exact coherent.usageScope k u held.1

end Drop

theorem Coherent.changes (coherent : Coherent h s) (changes : List ProjectionChangeState) :
    Coherent h {s with projectionChanges := changes} :=
  ⟨coherent.session,coherent.thread,coherent.threadIndex,coherent.parent,coherent.rooted,coherent.event,
    coherent.source,coherent.eventIndex,coherent.ingested,coherent.usage,coherent.eventScope,
    coherent.usageScope⟩

end MemoryStore
end ATape.Canonical
