import ATape.Canonical.Ancestry
import ATape.Canonical.Feed

/-! From which rows the projection of an event is made: the event, its session and
its ancestor threads. A write that keeps what is read of them keeps the projection. -/
namespace ATape.Canonical
open Foundation Go Authorization SourceIdentity

def EventRecord.projection (e : EventRecord) (r : SessionRecord) (path : List ProjectionThread) : EventProjection where
  kind := e.kind
  publicationHead := ""
  publicationDescriptor := ""
  projectID := r.projectID
  sessionID := r.id
  sessionTitle := r.title
  threadID := e.threadID
  threadPath := path
  eventID := e.id
  author := e.author
  harness := r.actor.harness
  occurredAt := e.occurredAt
  text := e.text
  toolLabel := e.toolLabel
  ingestSeq := e.ingestSeq
  observedAt := e.observedAt

namespace MemoryStore
variable {h : Hash} {s s' : MemoryStore} {sessionID : String}

structure Projects (s : MemoryStore) (e : EventRecord) (r : SessionRecord) (path : List ProjectionThread) : Prop where
  row : s.events.lookup e.id = some e
  session : s.sessions.lookup e.sessionID = some r
  path : ∃ t, s.threads.lookup (recordKey e.sessionID e.threadID) = some t ∧ Ancestry s e.sessionID t path

theorem Ancestry.mem_item {t : ThreadRecord} {path : List ProjectionThread} (ancestry : Ancestry s sessionID t path) :
    t.item ∈ path := by
  cases ancestry with
  | root => exact List.mem_singleton_self _
  | child => simp

theorem Ancestry.item_held {t : ThreadRecord} {path : List ProjectionThread} (ancestry : Ancestry s sessionID t path) :
    ∀ {q : String}, s.threads.lookup (recordKey sessionID q) = some t → ∀ item ∈ path,
      ∃ p row, s.threads.lookup (recordKey sessionID p) = some row ∧ row.item = item := by
  induction ancestry with
  | root t _ =>
    intro q held item member
    exact ⟨q,t,held,(List.mem_singleton.mp member).symm⟩
  | child t p above path _ found _ ih =>
    intro q held item member
    rcases List.mem_append.mp member with before | last
    · exact ih found item before
    · exact ⟨q,t,held,(List.mem_singleton.mp last).symm⟩

theorem Ancestry.carry {t : ThreadRecord} {path : List ProjectionThread} (ancestry : Ancestry s sessionID t path)
    (kept : ∀ p row, s.threads.lookup (recordKey sessionID p) = some row → row.item ∈ path →
      ∃ row', s'.threads.lookup (recordKey sessionID p) = some row' ∧ row'.item = row.item ∧
        row'.parentThreadID = row.parentThreadID) :
    ∀ {t' : ThreadRecord}, t'.item = t.item → t'.parentThreadID = t.parentThreadID → Ancestry s' sessionID t' path := by
  induction ancestry with
  | root t top =>
    intro t' item parent
    rw [← item]
    exact .root t' (parent.trans top)
  | child t p above path upper held rest ih =>
    intro t' item parent
    obtain ⟨above',held',item',parent'⟩ := kept p above held (List.mem_append_left _ rest.mem_item)
    have carried := ih (fun q row found member => kept q row found (List.mem_append_left _ member)) item' parent'
    rw [← item]
    exact .child t' p above' path (parent.trans upper) held' carried

theorem Projects.unique {e : EventRecord} {r r' : SessionRecord} {path path' : List ProjectionThread}
    (left : s.Projects e r path) (right : s.Projects e r' path') : r = r' ∧ path = path' := by
  obtain ⟨t,found,ancestry⟩ := left.path
  obtain ⟨t',found',ancestry'⟩ := right.path
  have session := right.session
  rw [left.session] at session
  rw [found] at found'
  cases found'
  exact ⟨Option.some.inj session,ancestry.unique ancestry'⟩

theorem Coherent.projects (coherent : Coherent h s) {id : String} {e : EventRecord} (row : s.events.lookup id = some e) :
    ∃ r path, s.Projects e r path ∧ s.eventProjection id = some (e.projection r path) := by
  obtain ⟨named,_,_,t,held,session,_⟩ := coherent.event id e row
  obtain ⟨r,stored⟩ := Option.isSome_iff_exists.mp (coherent.thread _ t held).2
  rw [session] at stored
  have size := (coherent.session _ r stored).2.1
  have own : s.threads.lookup (recordKey e.sessionID t.id) = some t := by
    rw [(coherent.thread_at size held).2]
    exact held
  obtain ⟨n,bounded,rooted⟩ := coherent.depth_exists size own
  have path := coherent.threadPath_ancestry size own rooted bounded.le
  refine ⟨r,_,⟨named.symm ▸ row,stored,t,held,path⟩,?_⟩
  simp only [eventProjection,row,stored,held,Option.bind_eq_bind,Option.bind_some,Option.pure_def]
  rfl

theorem Coherent.projection_of (coherent : Coherent h s) {e : EventRecord} {r : SessionRecord}
    {path : List ProjectionThread} (projects : s.Projects e r path) :
    s.eventProjection e.id = some (e.projection r path) := by
  obtain ⟨r',path',known,projected⟩ := coherent.projects projects.row
  obtain ⟨rfl,rfl⟩ := known.unique projects
  exact projected

theorem Projects.carry {e : EventRecord} {r r' : SessionRecord} {path : List ProjectionThread} (coherent' : Coherent h s')
    (coherent : Coherent h s) (projects : s.Projects e r path) (row : s'.events.lookup e.id = some e)
    (session : s'.sessions.lookup e.sessionID = some r')
    (alike : r'.projectID = r.projectID ∧ r'.title = r.title ∧ r'.actor.harness = r.actor.harness)
    (kept : ∀ p row, s.threads.lookup (recordKey e.sessionID p) = some row → row.item ∈ path →
      ∃ row', s'.threads.lookup (recordKey e.sessionID p) = some row' ∧ row'.item = row.item ∧
        row'.parentThreadID = row.parentThreadID) :
    s'.eventProjection e.id = s.eventProjection e.id := by
  obtain ⟨t,found,ancestry⟩ := projects.path
  obtain ⟨t',found',item,parent⟩ := kept e.threadID t found ancestry.mem_item
  have carried : s'.Projects e r' path := ⟨row,session,t',found',ancestry.carry kept item parent⟩
  rw [coherent'.projection_of carried,coherent.projection_of projects]
  have names : r'.id = r.id := (coherent'.session _ r' session).1.trans (coherent.session _ r projects.session).1.symm
  simp only [EventRecord.projection,names,alike.1,alike.2.1,alike.2.2]

/-- What a batch says of a session and its threads, where it is newer, agrees with a projection. -/
structure Agrees (s : MemoryStore) (w : WriteBatch) (document : EventProjection) : Prop where
  harness : ∀ r, s.sessions.lookup w.session.id = some r → r.revision < w.session.revision →
    w.session.actor.harness = document.harness
  labels : ∀ t ∈ w.threads, ∀ old, s.threads.lookup (threadKey t) = some old → old.revision < t.revision →
    old.item ∈ document.threadPath → t.label = old.label

theorem resolve_cases {ρ ν : Type} [LinearOrder ν] (version : ρ → ν) (old r : ρ) :
    Register.resolve version (some old) r = some old ∨
      version old < version r ∧ Register.resolve version (some old) r = some r := by
  by_cases newer : version old < version r
  · exact .inr ⟨newer,by simp [Register.resolve,newer]⟩
  · exact .inl (by simp [Register.resolve,newer])

section Write
variable (received : Nat → Time) (order : Order) (result : ApplyResult) {principal : Principal} {w : WriteBatch}
  {verdicts : List Verdict}

theorem titled_projected (formed : w.Formed h) (coherent : Coherent h s) (admitted : s.Admitted principal w)
    (accepted : s.Accepted principal w verdicts) (changed : s.titleChanged w.session = true) {id : String}
    {e : EventRecord} (row : s.events.lookup id = some e) (own : e.sessionID = w.session.id) :
    id ∈ s.projected received order w (applied w verdicts) result := by
  have after := write_coherent received order result formed coherent admitted accepted
  unfold projected
  rw [if_pos changed,List.mem_append,List.mem_filter,decide_eq_true_eq]
  by_cases written : id ∈ (applied w verdicts).map (·.id)
  · exact .inl written
  · refine .inr ⟨?_,written⟩
    rw [(order.perm _).mem_iff,after.mem_sessionEventIDs formed.sessionID]
    have kept := (applied_received received order result s verdicts formed).other id fun e member same =>
      written (List.mem_map.mpr ⟨e,member,same⟩)
    exact ⟨e,kept.trans row,own⟩

theorem written_projected {id : String} (member : id ∈ (applied w verdicts).map (·.id)) :
    id ∈ s.projected received order w (applied w verdicts) result := List.mem_append_left _ member

theorem write_projection (formed : w.Formed h) (coherent : Coherent h s) (admitted : s.Admitted principal w)
    (accepted : s.Accepted principal w verdicts) {id : String} {e : EventRecord} (row : s.events.lookup id = some e)
    (skipped : id ∉ s.projected received order w (applied w verdicts) result)
    (agrees : e.sessionID = w.session.id → ∀ document, s.eventProjection id = some document → s.Agrees w document) :
    (s.write received order w (applied w verdicts) result).eventProjection id = s.eventProjection id := by
  have after := write_coherent received order result formed coherent admitted accepted
  obtain ⟨r,path,projects,projected⟩ := coherent.projects row
  have named := (coherent.event id e row).1
  subst named
  have row' : (s.write received order w (applied w verdicts) result).events.lookup e.id = some e :=
    ((applied_received received order result s verdicts formed).other e.id fun e' member same =>
      skipped (written_projected received order result (List.mem_map.mpr ⟨e',member,same⟩))).trans row
  by_cases own : e.sessionID = w.session.id
  · have agree := agrees own _ projected
    have held := projects.session
    rw [own] at held
    have session := session_own s received order w (applied w verdicts) result
    rw [held] at session
    have threads : ∀ p row, s.threads.lookup (recordKey e.sessionID p) = some row → row.item ∈ path →
        ∃ row', (s.write received order w (applied w verdicts) result).threads.lookup (recordKey e.sessionID p) = some row' ∧
          row'.item = row.item ∧ row'.parentThreadID = row.parentThreadID := by
      intro p t found member
      by_cases touched : ∃ t' ∈ w.threads, threadKey t' = recordKey e.sessionID p
      · obtain ⟨t',given,keyed⟩ := touched
        have thread := thread_own s received order w (applied w verdicts) result (formed_threadKeys formed) given
        rw [← keyed] at found ⊢
        rw [found] at thread
        rcases resolve_cases (ThreadRecord.revision) t t' with older | ⟨newer,taken⟩
        · exact ⟨t,thread.trans older,rfl,rfl⟩
        · have size : t'.sessionID.toList.length = sessionIDLength := formed.threadSession t' given ▸ formed.sessionID
          have label := agree.labels t' given t found newer member
          refine ⟨t',thread.trans taken,?_,(accepted.threads t' given t found).2.1.symm⟩
          rw [ThreadRecord.item,ThreadRecord.item,label,(coherent.thread_at size found).2]
      · push Not at touched
        exact ⟨t,(thread_other s received order w (applied w verdicts) result touched).trans found,rfl,rfl⟩
    rcases resolve_cases (SessionRecord.revision) r w.session with older | ⟨newer,taken⟩
    · exact projects.carry after coherent row' (own ▸ session.trans older) ⟨rfl,rfl,rfl⟩ threads
    · have title : w.session.title = r.title := by
        by_contra different
        apply skipped
        apply titled_projected received order result formed coherent admitted accepted _ row own
        simp [titleChanged,held,newer,different]
      exact projects.carry after coherent row' (own ▸ session.trans taken)
        ⟨(accepted.session r held).2.1.symm,title,agree.harness r held newer⟩ threads
  · have session := session_other s received order w (applied w verdicts) result own
    refine projects.carry after coherent row' (session.trans projects.session) ⟨rfl,rfl,rfl⟩ ?_
    intro p t found _
    refine ⟨t,(thread_other s received order w (applied w verdicts) result ?_).trans found,rfl,rfl⟩
    intro t' given keyed
    have size : t'.sessionID.toList.length = sessionIDLength := formed.threadSession t' given ▸ formed.sessionID
    obtain ⟨same,_⟩ := recordKey_inj size (coherent.event_session row) keyed
    exact own (same.symm.trans (formed.threadSession t' given))

end Write

theorem drop_projection (coherent : Coherent h s) {session : SessionRecord} (stored : s.sessions.lookup sessionID = some session)
    {id : String} {e : EventRecord} (row : (s.dropSession session sessionID).events.lookup id = some e) :
    s.events.lookup id = some e ∧ (s.dropSession session sessionID).eventProjection id = s.eventProjection id := by
  have after := dropSession_coherent coherent stored
  obtain ⟨held,apart⟩ := (drop_event coherent stored).mp row
  obtain ⟨r,path,projects,_⟩ := coherent.projects held
  have named := (coherent.event id e held).1
  subst named
  have kept : (s.dropSession session sessionID).sessions.lookup e.sessionID = some r := by
    simp [dropSession,apart,projects.session]
  refine ⟨held,projects.carry after coherent row kept ⟨rfl,rfl,rfl⟩ ?_⟩
  intro p t found _
  have own := (coherent.thread_at (coherent.event_session held) found).1
  exact ⟨t,(drop_thread coherent stored).mpr ⟨found,own.symm ▸ apart⟩,rfl,rfl⟩

end MemoryStore
end ATape.Canonical
