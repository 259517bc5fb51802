import ATape.Canonical.Integrity
import ATape.Canonical.Projections

/-! The delivery of projections to the search index. While no batch changes the
projection of an event that it does not project, every event whose current document
was not handed out yet has a change waiting in the feed. -/
namespace ATape.Canonical
open Foundation Go Authorization SourceIdentity Ingestion
namespace MemoryStore
variable {h : Hash} {texts : Set String} {s s' : MemoryStore}

/-- The changes that a call hands out. -/
def handed (s : MemoryStore) : Call → List ProjectionChange
  | .leaseProjectionChanges owner limit leaseUntil now => (s.leaseProjectionChanges owner limit leaseUntil now).1
  | _ => []

def Writes (s : MemoryStore) (principal : Principal) (w : WriteBatch) (verdicts : List Verdict) : Prop :=
  s.admission principal w = .ok () ∧ s.batchReceipts.lookup w.key = none ∧ s.check principal w = .ok verdicts

/-- A written batch changes the title, or it gives nothing new to the projection of an
event of its session that it does not write. -/
def Agreed (s : MemoryStore) : Call → Prop
  | .applyBatch _ _ principal w => ∀ verdicts, s.Writes principal w verdicts → s.titleChanged w.session = true ∨
      ∀ id e document, s.events.lookup id = some e → e.sessionID = w.session.id →
        id ∉ (applied w verdicts).map (·.id) → s.eventProjection id = some document → s.Agrees w document
  | _ => True

/-- The changes of the feed have numbers of their own. -/
structure Numbered (s : MemoryStore) : Prop where
  distinct : (s.projectionChanges.map (·.id)).Nodup
  bounded : ∀ c ∈ s.projectionChanges, c.id ≤ s.nextProjectionChangeID

def Announced (s s' : MemoryStore) : Prop :=
  ∀ id e, s'.events.lookup id = some e → s'.eventProjection id ≠ s.eventProjection id →
    ∃ c ∈ s'.projectionChanges, c.eventID = id ∧ c.processed = false ∧ s.nextProjectionChangeID < c.id

/-- A store with all the changes that were handed out. -/
structure Fed where
  store : MemoryStore
  delivered : List ProjectionChange

namespace Fed

def Fresh (f : Fed) : Prop := f.store.Fresh ∧ f.delivered = []

/-- A call on the store, by anybody. -/
inductive Step (h : Hash) (texts : Set String) (f : Fed) (call : Call) : Fed → Prop
  | call (next : MemoryStore) (step : MemoryStore.Step h texts f.store call next) :
      Step h texts f call ⟨next,f.delivered++f.store.handed call⟩

def ids (f : Fed) : List Nat := f.delivered.map (·.id)

/-- When nothing is left to process, the current document of each event was handed out. -/
def Complete (f : Fed) : Prop :=
  (∀ c ∈ f.store.projectionChanges, c.processed = true) → ∀ id e, f.store.events.lookup id = some e →
    ∃ d ∈ f.delivered, f.store.eventProjection id = some d.document

/-- Who acknowledges under no name names only changes that were handed out. -/
def Named (f : Fed) : Call → Prop
  | .ackProjectionChanges owner ids => owner = "" → ∀ id ∈ ids, id ∈ f.ids
  | _ => True

def Waiting (f : Fed) (id : String) : Prop :=
  ∃ c ∈ f.store.projectionChanges, c.eventID = id ∧ c.processed = false ∧ c.id ∉ f.ids

structure Followed (f : Fed) : Prop where
  numbered : f.store.Numbered
  handed : ∀ id ∈ f.ids, id ≤ f.store.nextProjectionChangeID
  leased : ∀ c ∈ f.store.projectionChanges, c.leaseOwner ≠ "" → c.id ∈ f.ids
  current : ∀ id e, f.store.events.lookup id = some e →
    (∃ d ∈ f.delivered, f.store.eventProjection id = some d.document) ∨ f.Waiting id

theorem Followed.complete {f : Fed} (followed : f.Followed) : f.Complete := by
  intro finished id e row
  rcases followed.current id e row with current | ⟨c,member,_,waiting,_⟩
  · exact current
  · simp [finished c member] at waiting

theorem Fresh.followed {f : Fed} (fresh : f.Fresh) : f.Followed := by
  obtain ⟨⟨projects,memberships,same⟩,nothing⟩ := fresh
  have ids : f.ids = [] := by rw [Fed.ids,nothing,List.map_nil]
  have empty : f.store.Numbered := by constructor <;> simp [same,newWithControlPlane]
  refine ⟨empty,?_,?_,?_⟩ <;> simp [same,ids,newWithControlPlane]

end Fed

/-! A write -/

theorem numbered_ids (last : Nat) (ids : List String) :
    ((numbered last ids).map (·.id)).Nodup := by
  induction ids generalizing last with
  | nil => exact List.nodup_nil
  | cons id ids ih =>
    rw [numbered,List.map_cons,List.nodup_cons]
    refine ⟨?_,ih (last+1)⟩
    intro member
    obtain ⟨c,known,same⟩ := List.mem_map.mp member
    have after := (mem_numbered known).2.1
    dsimp only at same
    omega

theorem Numbered.appended (numbered : s.Numbered) {ids : List String} (appended : Appended s s' ids) : s'.Numbered := by
  obtain ⟨changes,next⟩ := appended
  constructor
  · rw [changes,List.map_append,List.nodup_append]
    refine ⟨numbered.distinct,numbered_ids _ _,?_⟩
    intro a old b new same
    obtain ⟨c,member,rfl⟩ := List.mem_map.mp old
    obtain ⟨c',member',rfl⟩ := List.mem_map.mp new
    have early := numbered.bounded c member
    have after := (mem_numbered member').2.1
    omega
  · intro c member
    rw [changes,List.mem_append] at member
    rw [next]
    rcases member with old | new
    · have early := numbered.bounded c old
      omega
    · exact (mem_numbered new).2.2.1

theorem Numbered.rewrite (numbered : s.Numbered) {changes : List ProjectionChangeState}
    (names : changes.map (fun c => (c.id,c.eventID)) = s.projectionChanges.map fun c => (c.id,c.eventID)) :
    Numbered {s with projectionChanges := changes} := by
  constructor
  · have firsts := congrArg (List.map Prod.fst) names
    rw [List.map_map,List.map_map] at firsts
    have ids : changes.map (·.id) = s.projectionChanges.map (·.id) := firsts
    exact ids ▸ numbered.distinct
  · intro c member
    have named : (c.id,c.eventID) ∈ s.projectionChanges.map fun c => (c.id,c.eventID) :=
      names ▸ List.mem_map.mpr ⟨c,member,rfl⟩
    obtain ⟨c',known,same⟩ := List.mem_map.mp named
    have early := numbered.bounded c' known
    rwa [(Prod.mk.inj same).1] at early

theorem Numbered.drop (numbered : s.Numbered) (session : SessionRecord) (sessionID : String) :
    (s.dropSession session sessionID).Numbered :=
  ⟨numbered.distinct.sublist (List.filter_sublist.map _),
    fun c member => numbered.bounded c (List.mem_of_mem_filter member)⟩

namespace Fed

theorem Followed.appended {f : Fed} (followed : f.Followed) {s' : MemoryStore} {ids : List String}
    (appended : Appended f.store s' ids)
    (current : ∀ id e, s'.events.lookup id = some e → id ∈ ids ∨
      f.store.events.lookup id = some e ∧ s'.eventProjection id = f.store.eventProjection id) : Followed ⟨s',f.delivered⟩ := by
  obtain ⟨changes,next⟩ := appended
  have later : ∀ c ∈ MemoryStore.numbered f.store.nextProjectionChangeID ids, c.id ∉ f.ids := by
    intro c member known
    have bounded := followed.handed c.id known
    have after := (mem_numbered member).2.1
    omega
  refine ⟨followed.numbered.appended ⟨changes,next⟩,?_,?_,?_⟩
  · intro id member
    have bounded := followed.handed id member
    rw [next]
    omega
  · intro c member owned
    rw [changes,List.mem_append] at member
    rcases member with old | new
    · exact followed.leased c old owned
    · exact absurd (mem_numbered new).2.2.2.2 owned
  · intro id e row
    rcases current id e row with added | ⟨old,same⟩
    · obtain ⟨c,member,named⟩ := @numbered_mem f.store.nextProjectionChangeID _ _ added
      exact .inr ⟨c,changes ▸ List.mem_append_right _ member,named,(mem_numbered member).2.2.2.1,later c member⟩
    · rcases followed.current id e old with ⟨d,member,document⟩ | ⟨c,member,waiting⟩
      · exact .inl ⟨d,member,same.trans document⟩
      · exact .inr ⟨c,changes ▸ List.mem_append_left _ member,waiting⟩

end Fed

section Write
variable {received : Nat → Time} {order : Order} {principal : Principal} {w : WriteBatch} {verdicts : List Verdict}

theorem Writes.admitted (writes : s.Writes principal w verdicts) : s.Admitted principal w := admission_ok writes.1

theorem Writes.accepted (writes : s.Writes principal w verdicts) : s.Accepted principal w verdicts := check_ok writes.2.2

theorem Writes.unique {verdicts' : List Verdict} (writes : s.Writes principal w verdicts)
    (writes' : s.Writes principal w verdicts') : verdicts = verdicts' :=
  Except.ok.inj (writes.2.2.symm.trans writes'.2.2)

theorem applyBatch_cases (s : MemoryStore) (received : Nat → Time) (order : Order) (principal : Principal) (w : WriteBatch) :
    s.perform (.applyBatch received order principal w) = s ∧ (∀ verdicts, ¬s.Writes principal w verdicts) ∨
    ∃ verdicts, s.Writes principal w verdicts ∧ s.perform (.applyBatch received order principal w) =
      s.write received order w (applied w verdicts) (s.summarize w verdicts) := by
  cases admitted : s.admission principal w with
  | error failure =>
    refine .inl ⟨by simp [perform,applyBatch,admitted,after,Except.map,bind,Except.bind],?_⟩
    rintro verdicts ⟨ok,_⟩
    rw [admitted] at ok
    cases ok
  | ok done =>
    cases known : s.batchReceipts.lookup w.key with
    | some receipt =>
      refine .inl ⟨?_,fun verdicts writes => by simp [Writes,known] at writes⟩
      by_cases other : receipt.digest ≠ w.digest
      · simp [perform,applyBatch,admitted,known,failWhen,other,after,Except.map,bind,Except.bind]
      · simp [perform,applyBatch,admitted,known,failWhen,other,after,Except.map,bind,Except.bind,pure,Except.pure]
    | none =>
      cases checked : s.check principal w with
      | error failure =>
        refine .inl ⟨by simp [perform,applyBatch,admitted,known,checked,after,Except.map,bind,Except.bind],?_⟩
        rintro verdicts ⟨_,_,ok⟩
        rw [checked] at ok
        cases ok
      | ok verdicts =>
        refine .inr ⟨verdicts,⟨admitted,known,checked⟩,?_⟩
        simp [perform,applyBatch,admitted,known,checked,after,Except.map,bind,Except.bind,pure,Except.pure]

theorem projection_agrees (received : Nat → Time) (order : Order) (result : ApplyResult) {events : List EventRecord}
    (formed : w.Formed h) (coherent : Coherent h s) (after : Coherent h (s.write received order w events result))
    {id : String} {e : EventRecord} {document : EventProjection}
    (own : e.sessionID = w.session.id) (row' : (s.write received order w events result).events.lookup id = some e)
    (same : (s.write received order w events result).eventProjection id = some document) : s.Agrees w document := by
  obtain ⟨r',path',projects',projected'⟩ := after.projects row'
  have session := projects'.session
  obtain ⟨t',found',ancestry'⟩ := projects'.path
  rw [same] at projected'
  cases projected'
  constructor
  · intro r held newer
    have taken := session_own s received order w events result
    rw [held,Register.resolve,Option.all_some,if_pos (decide_eq_true newer),← own,session] at taken
    rw [Option.some.inj taken]
    rfl
  · intro t given old held newer member
    have taken := thread_own s received order w events result (formed_threadKeys formed) given
    rw [held,Register.resolve,Option.all_some,if_pos (decide_eq_true newer)] at taken
    obtain ⟨p,row,found,item⟩ := ancestry'.item_held found' old.item member
    have inside := formed.threadSession t given
    have size : t.sessionID.toList.length = sessionIDLength := inside ▸ formed.sessionID
    have place : p = t.id := by
      have named := congrArg ProjectionThread.id item
      have mine := (after.thread_at (own ▸ formed.sessionID) found).2
      have theirs := (coherent.thread_at size held).2
      exact mine.symm.trans (named.trans theirs)
    rw [place,own,← inside] at found
    cases taken.symm.trans found
    exact congrArg ProjectionThread.label item

theorem deleteSession_cases (s : MemoryStore) (principal : Principal) (sessionID : String) :
    s.perform (.deleteSession principal sessionID) = s ∨
    ∃ session, s.sessions.lookup sessionID = some session ∧
      s.perform (.deleteSession principal sessionID) = s.dropSession session sessionID := by
  cases outcome : s.deleteSession principal sessionID with
  | error failure => exact .inl (by simp [perform,outcome,after])
  | ok s' =>
    rw [perform_delete outcome]
    exact deleteSession_ok outcome

section Agreed
variable (formed : w.Formed h) (coherent : Coherent h s) (writes : s.Writes principal w verdicts)
include formed coherent writes

theorem agreed_write (agreed : s.Agreed (.applyBatch received order principal w)) {id : String} {e : EventRecord}
    (row : (s.write received order w (applied w verdicts) (s.summarize w verdicts)).events.lookup id = some e) :
    id ∈ s.projected received order w (applied w verdicts) (s.summarize w verdicts) ∨ s.events.lookup id = some e ∧
      (s.write received order w (applied w verdicts) (s.summarize w verdicts)).eventProjection id = s.eventProjection id := by
  by_cases projected : id ∈ s.projected received order w (applied w verdicts) (s.summarize w verdicts)
  · exact .inl projected
  · have unwritten : id ∉ (applied w verdicts).map (·.id) := fun member =>
      projected (written_projected received order _ member)
    rcases event_origin received order _ formed row with ⟨e',member,_,_,_,named,_⟩ | ⟨_,old⟩
    · exact absurd (List.mem_map.mpr ⟨e',member,named.symm⟩) unwritten
    · refine .inr ⟨old,write_projection received order _ formed coherent writes.admitted writes.accepted old projected ?_⟩
      intro own document shown
      rcases agreed verdicts writes with changed | agrees
      · exact absurd (titled_projected received order _ formed coherent writes.admitted writes.accepted changed old own)
          projected
      · exact agrees id e document old own unwritten shown

theorem write_announced (numbered : s.Numbered) : Announced s (s.write received order w (applied w verdicts) (s.summarize w verdicts)) ↔
    s.Agreed (.applyBatch received order principal w) := by
  have after := write_coherent received order (s.summarize w verdicts) formed coherent writes.admitted writes.accepted
  obtain ⟨changes,_⟩ := write_feed s received order w (applied w verdicts) (s.summarize w verdicts)
  constructor
  · intro announced verdicts' writes'
    cases writes.unique writes'
    by_cases changed : s.titleChanged w.session = true
    · exact .inl changed
    refine .inr fun id e document row own unwritten shown => ?_
    have unprojected : id ∉ s.projected received order w (applied w verdicts) (s.summarize w verdicts) := by
      rw [projected,if_neg changed,List.append_nil]
      exact unwritten
    have row' : (s.write received order w (applied w verdicts) (s.summarize w verdicts)).events.lookup id = some e :=
      ((applied_received received order _ s verdicts formed).other id fun e' member same =>
        unwritten (List.mem_map.mpr ⟨e',member,same⟩)).trans row
    have same : (s.write received order w (applied w verdicts) (s.summarize w verdicts)).eventProjection id = some document := by
      by_contra different
      obtain ⟨c,member,named,_,later⟩ := announced id e row' (by rwa [shown])
      rw [changes,List.mem_append] at member
      rcases member with old | new
      · have early := numbered.bounded c old
        omega
      · exact unprojected (named ▸ (mem_numbered new).1)
    exact projection_agrees received order _ formed coherent after own row' same
  · intro agreed id e row different
    rcases agreed_write formed coherent writes agreed row with projected | ⟨_,same⟩
    · obtain ⟨c,member,named⟩ := @numbered_mem s.nextProjectionChangeID _ _ projected
      have fresh := mem_numbered member
      exact ⟨c,changes ▸ List.mem_append_right _ member,named,fresh.2.2.2.1,fresh.2.1⟩
    · exact absurd same different

end Agreed
end Write

/-! Leases and acknowledgements -/

theorem threadPath_changes (s : MemoryStore) (changes : List ProjectionChangeState) (sessionID : String) :
    ∀ fuel t, threadPath {s with projectionChanges := changes} sessionID fuel t = s.threadPath sessionID fuel t := by
  intro fuel
  induction fuel with
  | zero => exact fun _ => rfl
  | succ fuel ih =>
    intro t
    simp only [MemoryStore.threadPath,ih]

theorem eventProjection_changes (s : MemoryStore) (changes : List ProjectionChangeState) (id : String) :
    eventProjection {s with projectionChanges := changes} id = s.eventProjection id := by
  simp only [eventProjection,threadPath_changes]

/-- What a lease does to a change: it leaves it, hands out its document, or finds no event. -/
inductive LeasedAs (s : MemoryStore) (owner : String) (docs : List ProjectionChange) (c : ProjectionChangeState) :
    ProjectionChangeState → Prop
  | kept : LeasedAs s owner docs c c
  | gone (none : s.eventProjection c.eventID = none) : LeasedAs s owner docs c {c with processed := true}
  | leased (leaseUntil document) (shown : s.eventProjection c.eventID = some document)
      (handed : ⟨c.id,document⟩ ∈ docs) : LeasedAs s owner docs c {c with leaseOwner := owner, leaseUntil}

theorem LeasedAs.mono {owner : String} {docs docs' : List ProjectionChange} (inside : ∀ d ∈ docs, d ∈ docs')
    {c c' : ProjectionChangeState} (leased : LeasedAs s owner docs c c') : LeasedAs s owner docs' c c' := by
  cases leased with
  | kept => exact .kept
  | gone none => exact .gone none
  | leased leaseUntil document shown handed => exact .leased leaseUntil document shown (inside _ handed)

theorem leaseChanges_each (owner : String) (leaseUntil now : Time) (states : List ProjectionChangeState) :
    ∀ limit, List.Forall₂ (LeasedAs s owner (s.leaseChanges owner leaseUntil now limit states).2) states
        (s.leaseChanges owner leaseUntil now limit states).1 ∧
      ∀ d ∈ (s.leaseChanges owner leaseUntil now limit states).2, ∃ c ∈ states, c.id = d.id ∧
        s.eventProjection c.eventID = some d.document := by
  induction states with
  | nil =>
    intro limit
    cases limit <;> exact ⟨.nil,by simp [leaseChanges]⟩
  | cons state others ih =>
    intro limit
    cases limit with
    | zero =>
      refine ⟨?_,by simp [leaseChanges]⟩
      have same : ∀ states : List ProjectionChangeState, List.Forall₂ (LeasedAs s owner []) states states :=
        fun states => List.forall₂_same.mpr fun _ _ => .kept
      simpa [leaseChanges] using same (state::others)
    | succ limit =>
      unfold leaseChanges
      split
      next =>
        obtain ⟨each,named⟩ := ih (limit+1)
        refine ⟨.cons .kept each,?_⟩
        intro d member
        obtain ⟨c,known,rest⟩ := named d member
        exact ⟨c,List.mem_cons_of_mem _ known,rest⟩
      next =>
        split
        next none =>
          obtain ⟨each,named⟩ := ih (limit+1)
          refine ⟨.cons (.gone none) each,?_⟩
          intro d member
          obtain ⟨c,known,rest⟩ := named d member
          exact ⟨c,List.mem_cons_of_mem _ known,rest⟩
        next document shown =>
          obtain ⟨each,named⟩ := ih limit
          refine ⟨.cons (.leased leaseUntil document shown List.mem_cons_self)
            (each.imp fun _ _ leased => leased.mono fun _ member => List.mem_cons_of_mem _ member),?_⟩
          intro d member
          rcases List.mem_cons.mp member with rfl | later
          · exact ⟨state,List.mem_cons_self,rfl,shown⟩
          · obtain ⟨c,known,rest⟩ := named d later
            exact ⟨c,List.mem_cons_of_mem _ known,rest⟩

namespace Fed

theorem Followed.rewrite {f : Fed} (followed : f.Followed) {changes : List ProjectionChangeState}
    {more : List ProjectionChange}
    (names : changes.map (fun c => (c.id,c.eventID)) = f.store.projectionChanges.map fun c => (c.id,c.eventID))
    (listed : ∀ d ∈ more, ∃ c ∈ f.store.projectionChanges, c.id = d.id)
    (leased : ∀ c ∈ changes, c.leaseOwner ≠ "" → c.id ∈ f.ids++more.map (·.id))
    (current : ∀ id e, f.store.events.lookup id = some e → f.Waiting id →
      (∃ d ∈ more, f.store.eventProjection id = some d.document) ∨
        ∃ c ∈ changes, c.eventID = id ∧ c.processed = false ∧ c.id ∉ f.ids++more.map (·.id)) :
    Followed ⟨{f.store with projectionChanges := changes},f.delivered++more⟩ := by
  have all : (Fed.mk {f.store with projectionChanges := changes} (f.delivered++more)).ids = f.ids++more.map (·.id) :=
    List.map_append
  have shown := f.store.eventProjection_changes changes
  refine ⟨followed.numbered.rewrite names,?_,?_,?_⟩
  · intro id member
    rw [all,List.mem_append] at member
    rcases member with known | new
    · exact followed.handed id known
    · obtain ⟨d,given,rfl⟩ := List.mem_map.mp new
      obtain ⟨c,known,same⟩ := listed d given
      exact same ▸ followed.numbered.bounded c known
  · rw [all]
    exact leased
  · intro id e row
    rcases followed.current id e row with ⟨d,member,document⟩ | waiting
    · exact .inl ⟨d,List.mem_append_left _ member,(shown id).trans document⟩
    · rcases current id e row waiting with ⟨d,member,document⟩ | waits
      · exact .inl ⟨d,List.mem_append_right _ member,(shown id).trans document⟩
      · exact .inr (by rwa [Waiting,all])

theorem Followed.lease {f : Fed} (followed : f.Followed) (coherent : Coherent h f.store) (owner : String)
    (leaseUntil now : Time) (limit : Nat) :
    Followed ⟨{f.store with projectionChanges :=
      (f.store.leaseChanges owner leaseUntil now limit f.store.projectionChanges).1},
      f.delivered++(f.store.leaseChanges owner leaseUntil now limit f.store.projectionChanges).2⟩ := by
  obtain ⟨each,named⟩ := leaseChanges_each (s := f.store) owner leaseUntil now f.store.projectionChanges limit
  apply followed.rewrite (f.store.leaseChanges_names owner leaseUntil now _ limit)
  · intro d member
    obtain ⟨c,known,same,_⟩ := named d member
    exact ⟨c,known,same⟩
  · intro c' member owned
    obtain ⟨c,known,leased⟩ := forall₂_mem_left each.flip member
    cases leased with
    | kept => exact List.mem_append_left _ (followed.leased _ known owned)
    | gone => exact List.mem_append_left _ (followed.leased c known owned)
    | leased leaseUntil document shown handed =>
      exact List.mem_append_right _ (List.mem_map.mpr ⟨_,handed,rfl⟩)
  · rintro id e row ⟨c,member,rfl,unprocessed,unhanded⟩
    by_cases given : c.id ∈ (f.store.leaseChanges owner leaseUntil now limit f.store.projectionChanges).2.map (·.id)
    · -- the numbers are distinct, so it is this change whose document is handed out
      obtain ⟨d,handed,same⟩ := List.mem_map.mp given
      obtain ⟨c',known,same',shown⟩ := named d handed
      have one := List.inj_on_of_nodup_map followed.numbered.distinct known member (same'.trans same)
      exact .inl ⟨d,handed,one ▸ shown⟩
    · obtain ⟨c',left,leased⟩ := forall₂_mem_left each member
      have still : c.id ∉ f.ids++(f.store.leaseChanges owner leaseUntil now limit f.store.projectionChanges).2.map (·.id) := by
        rw [List.mem_append]
        exact not_or.mpr ⟨unhanded,given⟩
      cases leased with
      | kept => exact .inr ⟨_,left,rfl,unprocessed,still⟩
      | gone none =>
        obtain ⟨_,_,_,shown⟩ := coherent.projects row
        rw [none] at shown
        cases shown
      | leased leaseUntil document shown handed =>
        exact absurd (List.mem_map.mpr ⟨_,handed,rfl⟩) given

theorem Followed.ack {f : Fed} (followed : f.Followed) {owner : String} {ids : List Nat}
    (named : owner = "" → ∀ id ∈ ids, id ∈ f.ids) :
    Followed ⟨{f.store with projectionChanges := f.store.projectionChanges.map (ackChange owner ids)},f.delivered++[]⟩ := by
  apply followed.rewrite
  · rw [List.map_map]
    exact List.map_congr_left fun c _ => ackChange_names owner ids c
  · simp
  · intro c' member owned
    obtain ⟨c,known,rfl⟩ := List.mem_map.mp member
    rw [List.map_nil,List.append_nil]
    unfold ackChange at owned ⊢
    split at owned
    next => exact absurd rfl owned
    next skipped =>
      rw [if_neg skipped]
      exact followed.leased c known owned
  · rintro id e row ⟨c,member,rfl,unprocessed,unhanded⟩
    have unleased : c.leaseOwner = "" := by
      by_contra owned
      exact unhanded (followed.leased c member owned)
    -- a change that was not handed out bears no name, and so is not acknowledged
    have same : ackChange owner ids c = c := by
      unfold ackChange
      rw [if_neg]
      rintro ⟨listed,owned⟩
      exact unhanded (named (owned.symm.trans unleased) c.id listed)
    refine .inr ⟨c,List.mem_map.mpr ⟨c,member,same⟩,rfl,unprocessed,?_⟩
    rwa [List.map_nil,List.append_nil]

theorem Followed.drop {f : Fed} (followed : f.Followed) (coherent : Coherent h f.store) {session : SessionRecord}
    {sessionID : String} (stored : f.store.sessions.lookup sessionID = some session) :
    Followed ⟨f.store.dropSession session sessionID,f.delivered⟩ := by
  have kept : (f.store.dropSession session sessionID).projectionChanges =
      f.store.projectionChanges.filter fun c => c.eventID ∉ f.store.sessionEventIDs sessionID := rfl
  have inside : ∀ c ∈ (f.store.dropSession session sessionID).projectionChanges, c ∈ f.store.projectionChanges :=
    fun c member => List.mem_of_mem_filter (kept ▸ member)
  refine ⟨followed.numbered.drop session sessionID,followed.handed,
    fun c member => followed.leased c (inside c member),?_⟩
  · intro id e row
    obtain ⟨held,same⟩ := drop_projection coherent stored row
    obtain ⟨_,apart⟩ := (drop_event coherent stored).mp row
    rcases followed.current id e held with ⟨d,member,document⟩ | ⟨c,member,rfl,waiting⟩
    · exact .inl ⟨d,member,same.trans document⟩
    · refine .inr ⟨c,?_,rfl,waiting⟩
      rw [kept,List.mem_filter,decide_eq_true_eq,
        coherent.mem_sessionEventIDs (coherent.session sessionID session stored).2.1]
      refine ⟨member,?_⟩
      rintro ⟨e',held',own⟩
      rw [held] at held'
      cases held'
      exact apart own

theorem Followed.step (free : h.CollisionFree texts) {f f' : Fed} {call : Call} (coherent : Coherent h f.store)
    (followed : f.Followed) (agreed : f.store.Agreed call) (named : f.Named call) (step : Step h texts f call f') :
    f'.Followed := by
  obtain ⟨next,step⟩ := step
  cases step with
  | applyBatch received order principal w submitted =>
    change Followed ⟨_,f.delivered++[]⟩
    rw [List.append_nil]
    rcases f.store.applyBatch_cases received order principal w with ⟨same,_⟩ | ⟨verdicts,writes,written⟩
    · rw [same]
      exact followed
    · rw [written]
      exact followed.appended (write_feed f.store received order w (applied w verdicts) _)
        fun id e row => agreed_write (submitted.formed free) coherent writes agreed row
  | deleteSession principal sessionID =>
    change Followed ⟨_,f.delivered++[]⟩
    rw [List.append_nil]
    rcases f.store.deleteSession_cases principal sessionID with same | ⟨session,held,dropped⟩
    · rw [same]
      exact followed
    · rw [dropped]
      exact followed.drop coherent held
  | leaseProjectionChanges owner limit leaseUntil now =>
    by_cases none : limit ≤ 0
    · simpa [perform,MemoryStore.handed,leaseProjectionChanges,none] using followed
    · have kept := followed.lease coherent owner leaseUntil now limit.toNat
      simpa only [perform,MemoryStore.handed,leaseProjectionChanges,none,if_false] using kept
  | ackProjectionChanges owner ids => exact followed.ack named

end Fed

/-! Any calls -/

theorem step_announced (free : h.CollisionFree texts) {call : Call} (coherent : Coherent h s) (numbered : s.Numbered)
    (step : Step h texts s call s') : s'.Numbered ∧ (Announced s s' ↔ s.Agreed call) := by
  have still : ∀ changes, Announced s {s with projectionChanges := changes} := by
    intro changes id e _ different
    exact absurd (s.eventProjection_changes changes id) different
  have unchanged : Announced s s := fun id e _ different => absurd rfl different
  cases step with
  | applyBatch received order principal w submitted =>
    rcases s.applyBatch_cases received order principal w with ⟨same,none⟩ | ⟨verdicts,writes,written⟩
    · rw [same]
      exact ⟨numbered,iff_of_true unchanged fun verdicts writes => absurd writes (none verdicts)⟩
    · rw [written]
      exact ⟨numbered.appended (write_feed s received order w (applied w verdicts) _),
        write_announced (submitted.formed free) coherent writes numbered⟩
  | deleteSession principal sessionID =>
    rcases s.deleteSession_cases principal sessionID with same | ⟨session,held,dropped⟩
    · rw [same]
      exact ⟨numbered,iff_of_true unchanged trivial⟩
    · rw [dropped]
      refine ⟨numbered.drop session sessionID,iff_of_true ?_ trivial⟩
      intro id e row different
      exact absurd (drop_projection coherent held row).2 different
  | leaseProjectionChanges owner limit leaseUntil now =>
    by_cases none : limit ≤ 0
    · have same : s.perform (.leaseProjectionChanges owner limit leaseUntil now) = s := by
        simp [perform,leaseProjectionChanges,none]
      rw [same]
      exact ⟨numbered,iff_of_true unchanged trivial⟩
    · have leased : s.perform (.leaseProjectionChanges owner limit leaseUntil now) =
          {s with projectionChanges := (s.leaseChanges owner leaseUntil now limit.toNat s.projectionChanges).1} := by
        simp only [perform,leaseProjectionChanges,none,if_false]
      rw [leased]
      exact ⟨numbered.rewrite (s.leaseChanges_names owner leaseUntil now _ _),iff_of_true (still _) trivial⟩
  | ackProjectionChanges owner ids =>
    refine ⟨numbered.rewrite ?_,iff_of_true (still _) trivial⟩
    rw [List.map_map]
    exact List.map_congr_left fun c _ => ackChange_names owner ids c

namespace Fed

theorem reachable_numbered (free : h.CollisionFree texts) {f : Fed} (reached : Reachable Fresh (Step h texts) f) :
    Coherent h f.store ∧ f.store.Numbered := by
  have first : ∀ f : Fed, f.Fresh → Coherent h f.store ∧ f.store.Numbered := fun f fresh =>
    ⟨fresh.1.coherent,fresh.followed.numbered⟩
  refine reached.invariant first ?_
  rintro f call f' ⟨coherent,numbered⟩ ⟨next,step⟩
  exact ⟨step_coherent free coherent step,(step_announced free coherent numbered step).1⟩

/-- A run of calls that are agreed. -/
def AgreedStep (h : Hash) (texts : Set String) (f : Fed) (call : Call) (f' : Fed) : Prop :=
  f.store.Agreed call ∧ f.Named call ∧ Step h texts f call f'

theorem reachable_followed (free : h.CollisionFree texts) {f : Fed}
    (reached : Reachable Fresh (AgreedStep h texts) f) : f.Followed := by
  have first : ∀ f : Fed, f.Fresh → Coherent h f.store ∧ f.Followed := fun f fresh => ⟨fresh.1.coherent,fresh.followed⟩
  refine (reached.invariant first ?_).2
  rintro f call f' ⟨coherent,followed⟩ ⟨agreed,named,step⟩
  refine ⟨?_,followed.step free coherent agreed named step⟩
  obtain ⟨next,step⟩ := step
  exact step_coherent free coherent step

theorem leased {f : Fed} (reached : Reachable Fresh (AgreedStep h texts) f) (owner : String) (limit : Int)
    (leaseUntil now : Time) : Reachable Fresh (AgreedStep h texts)
      ⟨f.store.perform (.leaseProjectionChanges owner limit leaseUntil now),
        f.delivered++f.store.handed (.leaseProjectionChanges owner limit leaseUntil now)⟩ := by
  have step : AgreedStep h texts f (.leaseProjectionChanges owner limit leaseUntil now) _ :=
    ⟨trivial,trivial,.call _ (.leaseProjectionChanges f.store owner limit leaseUntil now)⟩
  exact reached.extend step

theorem acked {f : Fed} (reached : Reachable Fresh (AgreedStep h texts) f) {owner : String} (ids : List Nat)
    (named : owner ≠ "") : Reachable Fresh (AgreedStep h texts)
      ⟨f.store.perform (.ackProjectionChanges owner ids),f.delivered++[]⟩ := by
  have step : AgreedStep h texts f (.ackProjectionChanges owner ids) _ :=
    ⟨trivial,fun none => absurd none named,.call _ (.ackProjectionChanges f.store owner ids)⟩
  exact reached.extend step

end Fed

/-- While every call is agreed the feed is complete; and a call announces the
projections that it changes exactly when it is agreed. -/
theorem feed_complete (free : h.CollisionFree texts) :
    (∀ f, Reachable Fed.Fresh (Fed.AgreedStep h texts) f → f.Complete) ∧
      ∀ f call f', Reachable Fed.Fresh (Fed.Step h texts) f → Fed.Step h texts f call f' →
        (Announced f.store f'.store ↔ f.store.Agreed call) := by
  constructor
  · exact fun f reached => (Fed.reachable_followed free reached).complete
  · rintro f call f' reached ⟨next,step⟩
    obtain ⟨coherent,numbered⟩ := Fed.reachable_numbered free reached
    exact (step_announced free coherent numbered step).2

/-! A message whose thread gets another label after its document was handed out. -/

def renamed : Message := ⟨"b2","Plan","codex","renamed","Hello",2,1⟩

theorem renamed_valid : renamed.Valid := by
  constructor <;> decide

theorem first_feed {m : Message} {result : ApplyResult} (ok : m.apply h Message.store = .ok (result,s')) :
    s'.projectionChanges = [⟨1,Message.eventID h,"",.zero,false⟩] ∧ s'.nextProjectionChangeID = 1 ∧
      s'.sessionEventIDs (Message.sessionID h) = [Message.eventID h] := by
  obtain ⟨_,⟨_,known,_⟩ | ⟨_,verdicts,accepted,_,rfl⟩⟩ := applyBatch_ok ok
  · cases known
  · have classified : List.Forall₂ Message.store.Classified [m.eventRow h] verdicts := accepted.events
    obtain ⟨verdict,_,first,nothing,rfl⟩ := List.forall₂_cons_left_iff.mp classified
    cases List.forall₂_nil_left_iff.mp nothing
    cases first with
    | inserted =>
      obtain ⟨changes,next⟩ := write_feed Message.store (fun _ => momentTime) Message.order (m.written h) [m.eventRow h] result
      refine ⟨changes,next,?_⟩
      change sessionEventIDs (Message.store.write _ _ (m.written h) [m.eventRow h] _) _ = _
      have threads : (Message.store.write (fun _ => momentTime) Message.order (m.written h) [m.eventRow h]
          result).threadIDsBySession = AList.insert (Message.sessionID h) ["root"] ∅ := rfl
      have events : (Message.store.write (fun _ => momentTime) Message.order (m.written h) [m.eventRow h]
          result).eventIDsByThread = AList.insert (recordKey (Message.sessionID h) "root") [Message.eventID h] ∅ := rfl
      rw [sessionEventIDs,threads,Table.lookup_insert,if_pos rfl,Option.getD_some,List.flatMap_singleton,events,
        Table.lookup_insert,if_pos rfl,Option.getD_some]
    | stale _ known => cases known
    | unchanged _ known => cases known
    | updated _ known => cases known

theorem message_shown {m : Message} {r : SessionRecord} {e : EventRecord}
    (session : s.sessions.lookup (Message.sessionID h) = some r)
    (thread : s.threads.lookup (recordKey (Message.sessionID h) "root") = some (m.threadRow h))
    (event : s.events.lookup (Message.eventID h) = some e) (own : e.sessionID = Message.sessionID h)
    (root : e.threadID = "root") :
    s.eventProjection (Message.eventID h) = some (e.projection r [⟨"root",Go.trimSpace m.label⟩]) := by
  have path : ∀ fuel, s.threadPath (Message.sessionID h) fuel (m.threadRow h) = [⟨"root",Go.trimSpace m.label⟩] := by
    intro fuel
    cases fuel <;> rfl
  have row : s.sessions.lookup e.sessionID = some r := by rwa [own]
  have top : s.threads.lookup (recordKey e.sessionID e.threadID) = some (m.threadRow h) := by rwa [own,root]
  simp only [eventProjection,event,row,top,Option.bind_eq_bind,Option.bind_some,Option.pure_def]
  rw [own,path]
  rfl

theorem again_ok {m : Message} (held : Message.Held h m s) (m' : Message) (batch : m'.batchID ≠ m.batchID)
    (revision : m.revision < m'.revision) (event : m'.eventRow h = m.eventRow h) :
    ∃ result s', m'.apply h s = .ok (result,s') ∧
      s'.projectionChanges = s.projectionChanges++MemoryStore.numbered s.nextProjectionChangeID
        (if trimSpace m'.title ≠ trimSpace m.title then s.sessionEventIDs (Message.sessionID h) else []) ∧
      s'.sessions.lookup (Message.sessionID h) = some (m'.sessionRow h) ∧
      s'.threads.lookup (recordKey (Message.sessionID h) "root") = some (m'.threadRow h) ∧
      s'.events.lookup (Message.eventID h) = s.events.lookup (Message.eventID h) := by
  have unknown : s.batchReceipts.lookup (m'.written h).key = none := by
    apply held.receipts
    intro same
    exact batch (by simpa using key_injective same)
  obtain ⟨seq,row⟩ := held.event
  have classified : s.classify (m'.eventRow h) = .ok .unchanged := by
    have source : s.eventBySource.lookup (m'.eventRow h).sourceKey = some (Message.eventID h) := held.source
    rw [event] at source ⊢
    simp [classify,source,row,arrived,failWhen,bind,Except.bind,pure,Except.pure]
  have applied := Message.apply_ok held.opened unknown
    (fun old found => by rw [held.session] at found; cases found; exact ⟨rfl,rfl,rfl,revision.ne⟩)
    (fun old found => by rw [held.thread] at found; cases found; exact ⟨rfl,rfl,revision.ne⟩) classified
  let result := s.summarize (m'.written h) [.unchanged]
  have session : s.sessions.lookup (m'.sessionRow h).id = some (m.sessionRow h) := held.session
  have thread : s.threads.lookup (threadKey (m'.threadRow h)) = some (m.threadRow h) := held.thread
  refine ⟨_,_,applied,?_,?_,?_,?_⟩
  · obtain ⟨changes,_⟩ := write_feed s (fun _ => momentTime) Message.order (m'.written h) [] result
    have titled : s.titleChanged (m'.written h).session = decide (trimSpace m'.title ≠ trimSpace m.title) := by
      have later : (m.sessionRow h).revision < (m'.sessionRow h).revision := revision
      change s.titleChanged (m'.sessionRow h) = _
      simp only [titleChanged,session,Option.any_some,later,decide_true,Bool.true_and]
      rfl
    have kept : (s.write (fun _ => momentTime) Message.order (m'.written h) [] result).sessionEventIDs
        (Message.sessionID h) = s.sessionEventIDs (Message.sessionID h) := by
      have threads := (write_threads s (fun _ => momentTime) Message.order (m'.written h) [] result).2
      have events := (write_events s (fun _ => momentTime) Message.order (m'.written h) [] result).2.2.1
      have same : (s.afterThreads (m'.written h)).threadIDsBySession = s.threadIDsBySession := by
        have old : ((s.afterUsage (m'.written h)).putSession (m'.written h)).threads.lookup (threadKey (m'.threadRow h)) =
            some (m.threadRow h) := by
          rw [(afterSession_threads s (m'.written h)).1,thread]
        change (MemoryStore.putThread _ (m'.threadRow h)).threadIDsBySession = _
        rw [← (afterSession_threads s (m'.written h)).2]
        unfold putThread
        unfold threadKey at old
        rw [old]
        dsimp only
        split <;> rfl
      have index : (s.afterEvents (fun _ => momentTime) (m'.written h) []).eventIDsByThread = s.eventIDsByThread :=
        (afterThreads_events s (m'.written h)).2.2.1
      rw [sessionEventIDs,sessionEventIDs,threads,events,same,index]
    have projected : s.projected (fun _ => momentTime) Message.order (m'.written h) [] result =
        if trimSpace m'.title ≠ trimSpace m.title then s.sessionEventIDs (Message.sessionID h) else [] := by
      unfold MemoryStore.projected
      rw [titled]
      change (if _ then (List.filter _ (sessionEventIDs _ (Message.sessionID h))) else []) = _
      rw [kept]
      simp
    rw [projected] at changes
    exact changes
  · have own := session_own s (fun _ => momentTime) Message.order (m'.written h) [] result
    have newer : decide ((m.sessionRow h).revision < (m'.sessionRow h).revision) = true := decide_eq_true revision
    change _ = Register.resolve _ (s.sessions.lookup (m'.sessionRow h).id) (m'.sessionRow h) at own
    rw [session,Register.resolve,Option.all_some,newer,if_pos rfl] at own
    exact own
  · have own := thread_own s (fun _ => momentTime) Message.order (m'.written h) [] result (List.nodup_singleton _)
      (List.mem_singleton_self (m'.threadRow h))
    have newer : decide ((m.threadRow h).revision < (m'.threadRow h).revision) = true := decide_eq_true revision
    rw [thread,Register.resolve,Option.all_some,newer,if_pos rfl] at own
    exact own
  · have rows := write_received s (fun _ => momentTime) Message.order (m'.written h) [] result List.nodup_nil List.nodup_nil
    exact rows.other _ fun _ none => absurd none List.not_mem_nil

theorem hello_delivered (sent : Submitted h texts writer (hello.written h)) :
    ∃ s document, Message.Held h hello s ∧ (∀ c ∈ s.projectionChanges, c.processed = true) ∧
      Reachable Fed.Fresh (Fed.AgreedStep h texts) ⟨s,[⟨1,document⟩]⟩ ∧
      s.eventProjection (Message.eventID h) = some document ∧ document.threadPath = [⟨"root","main"⟩] := by
  obtain ⟨_,s,ok,held⟩ := Message.first_ok h hello
  obtain ⟨changes,_,listed⟩ := first_feed ok
  obtain ⟨_,row⟩ := held.event
  have shown := message_shown held.session held.thread row rfl rfl
  set document := EventRecord.projection _ (hello.sessionRow h) _
  have first : Reachable Fed.Fresh (Fed.AgreedStep h texts) ⟨s,[]⟩ := by
    have fresh : Fed.Fresh ⟨Message.store,[]⟩ := ⟨⟨_,_,rfl⟩,rfl⟩
    have step := Fed.Step.call (f := ⟨Message.store,[]⟩) _
      (Step.applyBatch Message.store (fun _ => momentTime) Message.order _ _ sent)
    rw [perform_apply ok] at step
    have agreed : Message.store.Agreed (.applyBatch (fun _ => momentTime) Message.order writer (hello.written h)) :=
      fun _ _ => .inr fun _ _ _ row => by cases row
    have agreedStep : Fed.AgreedStep h texts ⟨Message.store,[]⟩ _ ⟨s,[]⟩ := ⟨agreed,trivial,step⟩
    exact (Reachable.start fresh).extend agreedStep
  have leased := Fed.leased first "worker" 100 momentTime momentTime
  have acked := Fed.acked leased [1] (show "worker" ≠ "" by decide)
  let acknowledged := (s.perform (.leaseProjectionChanges "worker" 100 momentTime momentTime)).perform
    (.ackProjectionChanges "worker" [1])
  have kept : acknowledged = {s with projectionChanges := [⟨1,Message.eventID h,"",.zero,true⟩]} := by
    simp [acknowledged,perform,leaseProjectionChanges,leaseChanges,ackProjectionChanges,ackChange,changes,shown]
  have handed : s.handed (.leaseProjectionChanges "worker" 100 momentTime momentTime) = [⟨1,document⟩] := by
    simp [MemoryStore.handed,leaseProjectionChanges,leaseChanges,changes,shown]
  rw [handed] at acked
  change Reachable Fed.Fresh (Fed.AgreedStep h texts) ⟨acknowledged,[⟨1,document⟩]⟩ at acked
  rw [kept] at acked
  refine ⟨{s with projectionChanges := [⟨1,Message.eventID h,"",.zero,true⟩]},document,
    ⟨⟨held.opened.project,held.opened.alive⟩,held.receipts,held.session,held.thread,held.source,
      held.event⟩,?_,acked,(s.eventProjection_changes _ _).trans shown,rfl⟩
  intro c member
  rw [List.mem_singleton.mp member]

theorem feed_complete_hello : ∃ f : Fed, Reachable Fed.Fresh (Fed.AgreedStep (Message.pairHash hello renamed)
    {t | t ∈ Message.pairTexts hello renamed}) f ∧ f.delivered ≠ [] ∧ f.Complete := by
  have sent := Message.pair_submitted hello renamed hello_valid (.inl rfl)
  obtain ⟨s,document,_,_,reached,_⟩ := hello_delivered sent
  exact ⟨_,reached,List.cons_ne_nil _ _,(feed_complete (Message.pair_collisionFree hello renamed)).1 _ reached⟩

/-- Nothing is left to process, and no document was handed out that has the new label. -/
theorem renamed_undelivered : ∃ f : Fed, Reachable Fed.Fresh (Fed.Step (Message.pairHash hello renamed)
    {t | t ∈ Message.pairTexts hello renamed}) f ∧ ¬f.Complete := by
  have sent := Message.pair_submitted hello renamed hello_valid (.inl rfl)
  have again := Message.pair_submitted hello renamed renamed_valid (.inr rfl)
  obtain ⟨s,document,held,processed,reached,shown,path⟩ := hello_delivered sent
  obtain ⟨_,s',ok,changes,session,thread,event⟩ := again_ok held renamed (by decide) (by decide) rfl
  rw [if_neg (by decide),MemoryStore.numbered,List.append_nil] at changes
  obtain ⟨_,row⟩ := held.event
  have step := Fed.Step.call (f := ⟨s,[⟨1,document⟩]⟩) _ (Step.applyBatch s (fun _ => momentTime) Message.order _ _ again)
  rw [perform_apply ok] at step
  have any : Reachable Fed.Fresh (Fed.Step (Message.pairHash hello renamed) {t | t ∈ Message.pairTexts hello renamed})
      ⟨s,[⟨1,document⟩]⟩ := by
    obtain ⟨start,calls,fresh,run⟩ := reached
    exact ⟨start,calls,fresh,run.weaken fun _ _ _ agreed => agreed.2.2⟩
  refine ⟨_,any.extend step,?_⟩
  intro complete
  obtain ⟨d,member,current⟩ := complete (changes.symm ▸ processed) _ _ (event.trans row)
  have shown' := message_shown session thread (event.trans row) rfl rfl
  rw [List.mem_append] at member
  rcases member with old | new
  · cases List.mem_singleton.mp old
    rw [shown'] at current
    have paths := congrArg (Option.map EventProjection.threadPath) current
    rw [Option.map_some,Option.map_some,path] at paths
    have labels : ([⟨"root",Go.trimSpace renamed.label⟩] : List ProjectionThread) ≠ [⟨"root","main"⟩] := by decide
    exact labels (Option.some.inj paths)
  · cases new

end MemoryStore
end ATape.Canonical
