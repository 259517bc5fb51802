import ATape.Canonical.Delivery

/-! The search index in memory and the workers that bring projections to it. A worker
leases changes, puts their documents into the index and acknowledges them; it may stop,
or be overtaken by others, at any point. -/
namespace ATape.Canonical
open Foundation Go Authorization SourceIdentity Ingestion

/-- The documents by event, and for each project the latest observation among them. -/
structure Index where
  documents : Table String EventProjection
  checkpoints : Table String Time

/-- Only a message keeps its text. -/
def EventProjection.indexed (document : EventProjection) : EventProjection :=
  if document.kind = "message" then document else {document with text := "", toolLabel := ""}

namespace Index

def empty : Index := ⟨∅,∅⟩

def upsertDocument (i : Index) (document : EventProjection) : Index :=
  if ((i.documents.lookup document.eventID).any fun current => document.ingestSeq < current.ingestSeq) = true then i
  else
    {documents := i.documents.insert document.eventID document.indexed
     checkpoints :=
       if document.observedAt.after ((i.checkpoints.lookup document.projectID).getD .zero) then
         i.checkpoints.insert document.projectID document.observedAt
       else i.checkpoints}

def upsertProjectionDocuments (i : Index) (documents : List EventProjection) : Index :=
  documents.foldl upsertDocument i

end Index

/-- The changes that a worker has leased, and whether the index has them. -/
structure Pass where
  changes : List ProjectionChange
  upserted : Bool

structure Projecting where
  store : MemoryStore
  index : Index
  workers : Table Int Pass

/-- A worker is named after the time of its start. -/
def projector (n : Int) : String := "atape-"++toString n

def projectionBatchSize : Int := 100

/-- What may happen next, with the clock and the map order that it meets. -/
inductive Work
  | applyBatch (received : Nat → Time) (order : Order) (principal : Principal) (batch : WriteBatch)
  | lease (worker : Int) (leaseUntil now : Time)
  | upsert (worker : Int)
  | ack (worker : Int)
  | stop (worker : Int)

namespace Projecting

/-- A worker that gets no changes has nothing to do. -/
def lease (p : Projecting) (worker : Int) (leaseUntil now : Time) : Projecting :=
  let (changes,store) := p.store.leaseProjectionChanges (projector worker) projectionBatchSize leaseUntil now
  {p with
    store
    workers := if changes = [] then p.workers else p.workers.insert worker ⟨changes,false⟩}

def upsert (p : Projecting) (worker : Int) (pass : Pass) : Projecting :=
  {p with
    index := p.index.upsertProjectionDocuments (pass.changes.map (·.document))
    workers := p.workers.insert worker {pass with upserted := true}}

def ack (p : Projecting) (worker : Int) (pass : Pass) : Projecting :=
  {p with
    store := p.store.ackProjectionChanges (projector worker) (pass.changes.map (·.id))
    workers := p.workers.erase worker}

def Fresh (p : Projecting) : Prop := p.store.Fresh ∧ p.index = .empty ∧ p.workers = ∅

inductive Step (h : Hash) (texts : Set String) (p : Projecting) : Work → Projecting → Prop
  | applyBatch (received order principal batch) (submitted : Submitted h texts principal batch) :
      Step h texts p (.applyBatch received order principal batch)
        {p with store := p.store.perform (.applyBatch received order principal batch)}
  | lease (worker leaseUntil now) (idle : p.workers.lookup worker = none) :
      Step h texts p (.lease worker leaseUntil now) (p.lease worker leaseUntil now)
  | upsert (worker pass) (held : p.workers.lookup worker = some pass) (first : pass.upserted = false) :
      Step h texts p (.upsert worker) (p.upsert worker pass)
  | ack (worker pass) (held : p.workers.lookup worker = some pass) (done : pass.upserted = true) :
      Step h texts p (.ack worker) (p.ack worker pass)
  | stop (worker) : Step h texts p (.stop worker) {p with workers := p.workers.erase worker}

/-- The index has the current document of the event. -/
def Indexed (p : Projecting) (id : String) : Prop :=
  ∃ document, p.store.eventProjection id = some document ∧ p.index.documents.lookup id = some document.indexed

/-- When nothing is left to process or to put into the index, it has the current
document of each event. -/
def Converged (p : Projecting) : Prop :=
  (∀ c ∈ p.store.projectionChanges, c.processed = true) →
    (∀ n pass, p.workers.lookup n = some pass → pass.upserted = true) →
      ∀ id e, p.store.events.lookup id = some e → p.Indexed id

/-- A batch changes projections only by what it writes and by the title of its session;
and no worker puts a document into the index that is out of date, though of the latest
version of its event, when the index has a document of this version already. -/
def Timely (p : Projecting) : Work → Prop
  | .applyBatch received order principal batch => p.store.Agreed (.applyBatch received order principal batch)
  | .upsert worker => ∀ pass, p.workers.lookup worker = some pass → ∀ d ∈ pass.changes, ∀ current held,
      p.store.eventProjection d.document.eventID = some current → current ≠ d.document →
      current.ingestSeq = d.document.ingestSeq → p.index.documents.lookup d.document.eventID = some held →
      held.ingestSeq ≠ d.document.ingestSeq
  | _ => True

def TimelyStep (h : Hash) (texts : Set String) (p : Projecting) (work : Work) (p' : Projecting) : Prop :=
  p.Timely work ∧ Step h texts p work p'

/-- A change of the event is not acknowledged, nor can be before a worker that leased
it for the current document has put this into the index. -/
def Queued (p : Projecting) (id : String) : Prop :=
  ∃ c ∈ p.store.projectionChanges, c.eventID = id ∧ c.processed = false ∧
    ∀ n pass, p.workers.lookup n = some pass → c.leaseOwner = projector n → ∀ d ∈ pass.changes, d.id = c.id →
      pass.upserted = false ∧ p.store.eventProjection id = some d.document

def Dated (s : MemoryStore) (document : EventProjection) : Prop :=
  ∃ e, s.events.lookup document.eventID = some e ∧ document.ingestSeq ≤ e.ingestSeq

structure Tracked (p : Projecting) : Prop where
  numbered : p.store.Numbered
  index : ∀ id x, p.index.documents.lookup id = some x → x.eventID = id ∧ Dated p.store x
  held : ∀ n pass, p.workers.lookup n = some pass → ∀ d ∈ pass.changes, Dated p.store d.document ∧
    d.id ≤ p.store.nextProjectionChangeID
  alike : ∀ n pass, p.workers.lookup n = some pass → ∀ d ∈ pass.changes, ∀ d' ∈ pass.changes,
    d.document.eventID = d'.document.eventID → d.document = d'.document
  current : ∀ id e, p.store.events.lookup id = some e → p.Indexed id ∨ p.Queued id

theorem Tracked.converged {p : Projecting} (tracked : p.Tracked) : p.Converged := by
  intro finished _ id e row
  rcases tracked.current id e row with indexed | ⟨c,member,_,waiting,_⟩
  · exact indexed
  · simp [finished c member] at waiting

theorem Fresh.tracked {p : Projecting} (fresh : p.Fresh) : p.Tracked := by
  obtain ⟨⟨projects,memberships,same⟩,index,workers⟩ := fresh
  have numbered : p.store.Numbered := by constructor <;> simp [same,MemoryStore.newWithControlPlane]
  refine ⟨numbered,?_,?_,?_,?_⟩ <;> simp [same,index,workers,Index.empty,MemoryStore.newWithControlPlane]

end Projecting

theorem projector_inj {n m : Int} (same : projector n = projector m) : n = m := by
  have texts : toString n = toString m := by
    unfold projector at same
    have lists := congrArg String.toList same
    rw [String.toList_append,String.toList_append] at lists
    exact String.toList_inj.mp (List.append_cancel_left lists)
  exact Json.int_inj.mp (congrArg Json.num texts)

@[simp] theorem indexed_eventID (document : EventProjection) : document.indexed.eventID = document.eventID := by
  unfold EventProjection.indexed
  split <;> rfl

@[simp] theorem indexed_ingestSeq (document : EventProjection) : document.indexed.ingestSeq = document.ingestSeq := by
  unfold EventProjection.indexed
  split <;> rfl

@[simp] theorem indexed_sessionTitle (document : EventProjection) : document.indexed.sessionTitle = document.sessionTitle := by
  unfold EventProjection.indexed
  split <;> rfl

/-! What an upsert leaves in the index -/
namespace Index
variable {i : Index} {id : String}

theorem upsertDocument_other {document : EventProjection} (other : document.eventID ≠ id) :
    (i.upsertDocument document).documents.lookup id = i.documents.lookup id := by
  unfold upsertDocument
  split
  · rfl
  · rw [Table.lookup_insert,if_neg (Ne.symm other)]

theorem upsertDocument_source {document x : EventProjection}
    (found : (i.upsertDocument document).documents.lookup id = some x) :
    i.documents.lookup id = some x ∨ document.eventID = id ∧ x = document.indexed := by
  by_cases own : document.eventID = id
  · subst own
    unfold upsertDocument at found
    split at found
    · exact .inl found
    · rw [Table.lookup_insert,if_pos rfl] at found
      exact .inr ⟨rfl,(Option.some.inj found).symm⟩
  · exact .inl ((upsertDocument_other own).symm.trans found)

theorem upsert_source {documents : List EventProjection} {x : EventProjection}
    (found : (i.upsertProjectionDocuments documents).documents.lookup id = some x) :
    i.documents.lookup id = some x ∨ ∃ document ∈ documents, document.eventID = id ∧ x = document.indexed := by
  induction documents generalizing i with
  | nil => exact .inl found
  | cons first documents ih =>
    rcases ih (i := i.upsertDocument first) found with before | ⟨document,member,rest⟩
    · rcases upsertDocument_source before with old | ⟨own,same⟩
      · exact .inl old
      · exact .inr ⟨first,List.mem_cons_self,own,same⟩
    · exact .inr ⟨document,List.mem_cons_of_mem _ member,rest⟩

theorem upsert_keeps {documents : List EventProjection} {current : EventProjection}
    (held : i.documents.lookup id = some current.indexed)
    (older : ∀ document ∈ documents, document.eventID = id → document.ingestSeq < current.ingestSeq ∨ document = current) :
    (i.upsertProjectionDocuments documents).documents.lookup id = some current.indexed := by
  induction documents generalizing i with
  | nil => exact held
  | cons first documents ih =>
    apply ih _ fun document member => older document (List.mem_cons_of_mem _ member)
    by_cases own : first.eventID = id
    · subst own
      rcases older first List.mem_cons_self rfl with before | rfl
      · unfold upsertDocument
        rw [held,if_pos]
        · exact held
        · simpa using before
      · unfold upsertDocument
        rw [held,if_neg]
        · rw [Table.lookup_insert,if_pos rfl]
        · simp
    · rw [upsertDocument_other own]
      exact held

theorem upsert_puts {documents : List EventProjection} {current : EventProjection} (own : current.eventID = id)
    (member : current ∈ documents) (alike : ∀ document ∈ documents, document.eventID = id → document = current)
    (older : ∀ x, i.documents.lookup id = some x → x.ingestSeq ≤ current.ingestSeq) :
    (i.upsertProjectionDocuments documents).documents.lookup id = some current.indexed := by
  induction documents generalizing i with
  | nil => cases member
  | cons first documents ih =>
    have rest : ∀ document ∈ documents, document.eventID = id → document = current :=
      fun document later => alike document (List.mem_cons_of_mem _ later)
    by_cases here : first.eventID = id
    · have same := alike first List.mem_cons_self here
      subst same
      have put : (i.upsertDocument first).documents.lookup id = some first.indexed := by
        unfold upsertDocument
        rw [if_neg]
        · rw [Table.lookup_insert,if_pos here.symm]
        · rw [here]
          simp only [Option.any_eq_true,decide_eq_true_eq,not_exists,not_and,not_lt]
          exact older
      change ((i.upsertDocument first).upsertProjectionDocuments documents).documents.lookup id = _
      exact upsert_keeps put fun document later own' => .inr (rest document later own')
    · have later : current ∈ documents := by
        rcases List.mem_cons.mp member with rfl | later
        · exact absurd own here
        · exact later
      apply ih later rest
      intro x found
      exact older x ((upsertDocument_other here).symm.trans found)

end Index

namespace MemoryStore
variable {h : Hash} {texts : Set String} {s : MemoryStore}

theorem Coherent.projection_dated (coherent : Coherent h s) {id : String} {document : EventProjection}
    (shown : s.eventProjection id = some document) :
    ∃ e, s.events.lookup id = some e ∧ document.eventID = id ∧ document.ingestSeq = e.ingestSeq := by
  cases row : s.events.lookup id with
  | none => simp [eventProjection,row] at shown
  | some e =>
    obtain ⟨r,path,_,projected⟩ := coherent.projects row
    rw [shown] at projected
    cases projected
    exact ⟨e,rfl,(coherent.event id e row).1,rfl⟩

theorem write_later (received : Nat → Time) (order : Order) (result : ApplyResult) {w : WriteBatch} {verdicts : List Verdict}
    (formed : w.Formed h) (coherent : Coherent h s) {id : String} {e : EventRecord} (row : s.events.lookup id = some e) :
    ∃ e', (s.write received order w (applied w verdicts) result).events.lookup id = some e' ∧ e.ingestSeq ≤ e'.ingestSeq := by
  have rows := applied_received received order result s verdicts formed
  by_cases written : ∃ e' ∈ applied w verdicts, e'.id = id
  · obtain ⟨e',member,rfl⟩ := written
    obtain ⟨seq,later,_,own⟩ := rows.own e' member
    refine ⟨_,own,?_⟩
    have early := coherent.ingested _ e row
    change e.ingestSeq ≤ seq
    omega
  · push Not at written
    exact ⟨e,(rows.other id written).trans row,le_rfl⟩

end MemoryStore

namespace Projecting
open MemoryStore
variable {h : Hash} {texts : Set String} {p : Projecting}

theorem Dated.later {s s' : MemoryStore} {document : EventProjection} (dated : Dated s document)
    (kept : ∀ id e, s.events.lookup id = some e → ∃ e', s'.events.lookup id = some e' ∧ e.ingestSeq ≤ e'.ingestSeq) :
    Dated s' document := by
  obtain ⟨e,row,early⟩ := dated
  obtain ⟨e',row',late⟩ := kept _ e row
  exact ⟨e',row',early.trans late⟩

theorem Tracked.written (received : Nat → Time) (order : Order) {principal : Principal} {w : WriteBatch}
    {verdicts : List Verdict} (formed : w.Formed h) (coherent : Coherent h p.store) (tracked : p.Tracked)
    (writes : p.store.Writes principal w verdicts) (agreed : p.store.Agreed (.applyBatch received order principal w)) :
    Tracked {p with store := p.store.write received order w (applied w verdicts) (p.store.summarize w verdicts)} := by
  obtain ⟨changes,next⟩ := write_feed p.store received order w (applied w verdicts) (p.store.summarize w verdicts)
  have kept : ∀ id e, p.store.events.lookup id = some e →
      ∃ e', (p.store.write received order w (applied w verdicts) (p.store.summarize w verdicts)).events.lookup id = some e' ∧
        e.ingestSeq ≤ e'.ingestSeq :=
    fun id e row => write_later received order _ formed coherent row
  refine ⟨tracked.numbered.appended ⟨changes,next⟩,?_,?_,tracked.alike,?_⟩
  · intro id x found
    exact ⟨(tracked.index id x found).1,(tracked.index id x found).2.later kept⟩
  · intro n pass held d member
    obtain ⟨dated,early⟩ := tracked.held n pass held d member
    refine ⟨dated.later kept,?_⟩
    rw [next]
    omega
  · intro id e row
    rcases agreed_write formed coherent writes agreed row with projected | ⟨old,same⟩
    · obtain ⟨c,member,named⟩ := @numbered_mem p.store.nextProjectionChangeID _ _ projected
      have fresh := mem_numbered member
      refine .inr ⟨c,?_,named,fresh.2.2.2.1,?_⟩
      · rw [changes]
        exact List.mem_append_right _ member
      · intro n pass held _ d given same
        have early := (tracked.held n pass held d given).2
        omega
    · rcases tracked.current id e old with ⟨document,shown,found⟩ | ⟨c,member,named,waiting,others⟩
      · exact .inl ⟨document,same.trans shown,found⟩
      · refine .inr ⟨c,?_,named,waiting,?_⟩
        · rw [changes]
          exact List.mem_append_left _ member
        · intro n pass held owned d given number
          obtain ⟨first,shown⟩ := others n pass held owned d given number
          exact ⟨first,same.trans shown⟩

theorem Queued.fewer {workers : Table Int Pass} {id : String} (queued : p.Queued id)
    (fewer : ∀ n pass, workers.lookup n = some pass → p.workers.lookup n = some pass) :
    Queued {p with workers} id := by
  obtain ⟨c,member,named,waiting,others⟩ := queued
  exact ⟨c,member,named,waiting,fun n pass held => others n pass (fewer n pass held)⟩

theorem Tracked.fewer {workers : Table Int Pass} (tracked : p.Tracked)
    (fewer : ∀ n pass, workers.lookup n = some pass → p.workers.lookup n = some pass) :
    Tracked {p with workers} := by
  refine ⟨tracked.numbered,tracked.index,fun n pass held => tracked.held n pass (fewer n pass held),
    fun n pass held => tracked.alike n pass (fewer n pass held),?_⟩
  intro id e row
  exact (tracked.current id e row).imp_right fun queued => queued.fewer fewer

theorem erased_fewer {workers : Table Int Pass} (worker : Int) :
    ∀ n pass, (workers.erase worker).lookup n = some pass → workers.lookup n = some pass := by
  intro n pass held
  rw [Table.lookup_erase] at held
  split at held
  · cases held
  · exact held

theorem Tracked.acked (tracked : p.Tracked) {worker : Int} {pass : Pass} (held : p.workers.lookup worker = some pass)
    (done : pass.upserted = true) : Tracked (p.ack worker pass) := by
  have names : (p.store.projectionChanges.map (ackChange (projector worker) (pass.changes.map (·.id)))).map
      (fun c => (c.id,c.eventID)) = p.store.projectionChanges.map fun c => (c.id,c.eventID) := by
    rw [List.map_map]
    exact List.map_congr_left fun c _ => ackChange_names _ _ c
  have acknowledged : Tracked {p with store := p.store.ackProjectionChanges (projector worker) (pass.changes.map (·.id))} := by
    refine ⟨tracked.numbered.rewrite names,tracked.index,tracked.held,tracked.alike,?_⟩
    intro id e row
    have shown := p.store.eventProjection_changes
      (p.store.projectionChanges.map (ackChange (projector worker) (pass.changes.map (·.id)))) id
    rcases tracked.current id e row with ⟨document,projected,found⟩ | ⟨c,member,named,waiting,others⟩
    · exact .inl ⟨document,shown.trans projected,found⟩
    · have same : ackChange (projector worker) (pass.changes.map (·.id)) c = c := by
        unfold ackChange
        rw [if_neg]
        rintro ⟨listed,owned⟩
        obtain ⟨d,given,number⟩ := List.mem_map.mp listed
        have first := (others worker pass held owned d given number).1
        rw [done] at first
        cases first
      refine .inr ⟨c,List.mem_map.mpr ⟨c,member,same⟩,named,waiting,?_⟩
      intro n pass' held' owned d given number
      obtain ⟨first,projected⟩ := others n pass' held' owned d given number
      exact ⟨first,shown.trans projected⟩
  exact acknowledged.fewer (erased_fewer worker)

theorem Tracked.leased (coherent : Coherent h p.store) (tracked : p.Tracked) {worker : Int}
    (idle : p.workers.lookup worker = none) (leaseUntil now : Time) : Tracked (p.lease worker leaseUntil now) := by
  let result := p.store.leaseChanges (projector worker) leaseUntil now 100 p.store.projectionChanges
  obtain ⟨each,named⟩ := leaseChanges_each (s := p.store) (projector worker) leaseUntil now p.store.projectionChanges 100
  have names := p.store.leaseChanges_names (projector worker) leaseUntil now p.store.projectionChanges 100
  have same : p.lease worker leaseUntil now =
      {p with
        store := {p.store with projectionChanges := result.1}
        workers := if result.2 = [] then p.workers else p.workers.insert worker ⟨result.2,false⟩} := rfl
  have workers : ∀ n pass, (p.lease worker leaseUntil now).workers.lookup n = some pass →
      p.workers.lookup n = some pass ∧ n ≠ worker ∨ n = worker ∧ pass = ⟨result.2,false⟩ := by
    intro n pass held
    rw [same] at held
    by_cases own : n = worker
    · subst own
      dsimp only at held
      split at held
      · rw [idle] at held
        cases held
      · rw [Table.lookup_insert,if_pos rfl] at held
        exact .inr ⟨rfl,(Option.some.inj held).symm⟩
    · refine .inl ⟨?_,own⟩
      dsimp only at held
      split at held
      · exact held
      · rwa [Table.lookup_insert,if_neg own] at held
  have shown := p.store.eventProjection_changes result.1
  refine ⟨tracked.numbered.rewrite names,tracked.index,?_,?_,?_⟩
  · intro n pass held d member
    rcases workers n pass held with ⟨before,_⟩ | ⟨rfl,rfl⟩
    · exact tracked.held n pass before d member
    · obtain ⟨c,known,number,projected⟩ := named d member
      obtain ⟨e,row,own,dated⟩ := coherent.projection_dated projected
      refine ⟨⟨e,own ▸ row,dated.le⟩,?_⟩
      exact number ▸ tracked.numbered.bounded c known
  · intro n pass held d member d' member' alike
    rcases workers n pass held with ⟨before,_⟩ | ⟨rfl,rfl⟩
    · exact tracked.alike n pass before d member d' member' alike
    · obtain ⟨c,_,_,projected⟩ := named d member
      obtain ⟨c',_,_,projected'⟩ := named d' member'
      obtain ⟨_,_,own,_⟩ := coherent.projection_dated projected
      obtain ⟨_,_,own',_⟩ := coherent.projection_dated projected'
      rw [own,own'] at alike
      rw [alike,projected'] at projected
      exact (Option.some.inj projected).symm
  · intro id e row
    rcases tracked.current id e row with ⟨document,projected,found⟩ | ⟨c,member,rfl,waiting,others⟩
    · exact .inl ⟨document,(shown id).trans projected,found⟩
    · obtain ⟨c',left,leased⟩ := forall₂_mem_left each member
      refine .inr ?_
      cases leased with
      | kept =>
        refine ⟨_,left,rfl,waiting,?_⟩
        intro n pass held owned d given number
        rcases workers n pass held with ⟨before,_⟩ | ⟨rfl,rfl⟩
        · obtain ⟨first,projected⟩ := others n pass before owned d given number
          exact ⟨first,(shown _).trans projected⟩
        · obtain ⟨c',known,number',projected⟩ := named d given
          cases List.inj_on_of_nodup_map tracked.numbered.distinct known member (number'.trans number)
          exact ⟨rfl,(shown _).trans projected⟩
      | gone none =>
        obtain ⟨_,_,_,projected⟩ := coherent.projects row
        rw [none] at projected
        cases projected
      | leased leaseUntil document projected handed =>
        refine ⟨_,left,rfl,waiting,?_⟩
        intro n pass held owned d given number
        rcases workers n pass held with ⟨_,apart⟩ | ⟨rfl,rfl⟩
        · exact absurd (projector_inj owned).symm apart
        · obtain ⟨c',known,number',projected'⟩ := named d given
          cases List.inj_on_of_nodup_map tracked.numbered.distinct known member (number'.trans number)
          exact ⟨rfl,(shown _).trans projected'⟩

theorem Tracked.upserted (coherent : Coherent h p.store) (tracked : p.Tracked) {worker : Int} {pass : Pass}
    (held : p.workers.lookup worker = some pass) (timely : p.Timely (.upsert worker)) : Tracked (p.upsert worker pass) := by
  have workers : ∀ n other, (p.upsert worker pass).workers.lookup n = some other →
      p.workers.lookup n = some other ∧ n ≠ worker ∨ n = worker ∧ other = {pass with upserted := true} := by
    intro n other found
    change (p.workers.insert worker {pass with upserted := true}).lookup n = some other at found
    rw [Table.lookup_insert] at found
    split at found
    next own => exact .inr ⟨own,(Option.some.inj found).symm⟩
    next own => exact .inl ⟨found,own⟩
  have earlier : ∀ n other, (p.upsert worker pass).workers.lookup n = some other →
      ∃ before, p.workers.lookup n = some before ∧ before.changes = other.changes := by
    intro n other found
    rcases workers n other found with ⟨before,_⟩ | ⟨rfl,rfl⟩
    · exact ⟨other,before,rfl⟩
    · exact ⟨pass,held,rfl⟩
  refine ⟨tracked.numbered,?_,?_,?_,?_⟩
  · intro id x found
    rcases Index.upsert_source found with old | ⟨document,member,own,rfl⟩
    · exact tracked.index id x old
    · obtain ⟨d,given,rfl⟩ := List.mem_map.mp member
      obtain ⟨e,row,dated⟩ := (tracked.held worker pass held d given).1
      exact ⟨(indexed_eventID _).trans own,e,by rwa [indexed_eventID],by rwa [indexed_ingestSeq]⟩
  · intro n other found d member
    obtain ⟨before,held',same⟩ := earlier n other found
    exact tracked.held n before held' d (same ▸ member)
  · intro n other found d member d' member'
    obtain ⟨before,held',same⟩ := earlier n other found
    exact tracked.alike n before held' d (same ▸ member) d' (same ▸ member')
  · intro id e row
    rcases tracked.current id e row with ⟨document,shown,found⟩ | ⟨c,member,named,waiting,others⟩
    · refine .inl ⟨document,shown,Index.upsert_keeps found ?_⟩
      intro document' member own
      obtain ⟨d,given,rfl⟩ := List.mem_map.mp member
      obtain ⟨e',row',dated⟩ := (tracked.held worker pass held d given).1
      obtain ⟨e'',row'',_,version⟩ := coherent.projection_dated shown
      rw [own] at row'
      cases row'.symm.trans row''
      by_cases same : document = d.document
      · exact .inr same.symm
      · refine .inl (lt_of_le_of_ne (dated.trans version.ge) fun equal => ?_)
        have behind := timely pass held d given document document.indexed (own.symm ▸ shown) same equal.symm (own.symm ▸ found)
        exact behind ((indexed_ingestSeq document).trans equal.symm)
    · by_cases mine : c.leaseOwner = projector worker ∧ ∃ d ∈ pass.changes, d.id = c.id
      · obtain ⟨owned,d,given,number⟩ := mine
        obtain ⟨_,shown⟩ := others worker pass held owned d given number
        obtain ⟨e',row',own,version⟩ := coherent.projection_dated shown
        refine .inl ⟨d.document,shown,Index.upsert_puts own (List.mem_map.mpr ⟨d,given,rfl⟩) ?_ ?_⟩
        · intro document member own'
          obtain ⟨d',given',rfl⟩ := List.mem_map.mp member
          exact tracked.alike worker pass held d' given' d given (own'.trans own.symm)
        · intro x found
          obtain ⟨named',e'',row'',dated⟩ := tracked.index id x found
          rw [named'] at row''
          cases row'.symm.trans row''
          exact dated.trans version.ge
      · refine .inr ⟨c,member,named,waiting,?_⟩
        intro n other found owned d given number
        rcases workers n other found with ⟨before,_⟩ | ⟨rfl,rfl⟩
        · exact others n other before owned d given number
        · exact absurd ⟨owned,d,given,number⟩ mine

theorem Tracked.step (free : h.CollisionFree texts) {p' : Projecting} {work : Work} (coherent : Coherent h p.store)
    (tracked : p.Tracked) (step : TimelyStep h texts p work p') : Coherent h p'.store ∧ p'.Tracked := by
  obtain ⟨timely,step⟩ := step
  cases step with
  | applyBatch received order principal w submitted =>
    refine ⟨step_coherent free coherent (.applyBatch p.store received order principal w submitted),?_⟩
    rcases p.store.applyBatch_cases received order principal w with ⟨same,_⟩ | ⟨verdicts,writes,written⟩
    · rw [same]
      exact tracked
    · rw [written]
      exact tracked.written received order (submitted.formed free) coherent writes timely
  | lease worker leaseUntil now idle => exact ⟨coherent.changes _,tracked.leased coherent idle leaseUntil now⟩
  | upsert worker pass held first => exact ⟨coherent,tracked.upserted coherent held timely⟩
  | ack worker pass held done => exact ⟨coherent.changes _,tracked.acked held done⟩
  | stop worker => exact ⟨coherent,tracked.fewer (erased_fewer worker)⟩

/-- While each upsert is timely the index converges to the current documents. -/
theorem index_converges (free : h.CollisionFree texts) (reached : Reachable Fresh (TimelyStep h texts) p) : p.Converged := by
  have first : ∀ p : Projecting, p.Fresh → Coherent h p.store ∧ p.Tracked := fun p fresh => ⟨fresh.1.coherent,fresh.tracked⟩
  have tracked := reached.invariant first fun p work p' both step => both.2.step free both.1 step
  exact tracked.2.converged

/-! A message that gets another title while a worker holds its document. -/

def retitled : Message := ⟨"b2","Plan, revised","codex","main","Hello",2,1⟩

theorem retitled_valid : retitled.Valid := by
  constructor <;> decide

theorem lease_all {s : MemoryStore} {i : Index} {workers : Table Int Pass} {worker : Int} {leaseUntil now : Time}
    {id : String} {document : EventProjection} (shown : s.eventProjection id = some document)
    {states : List ProjectionChangeState} (changes : s.projectionChanges = states) (few : states.length ≤ 100)
    (some_ : states ≠ []) (free : ∀ c ∈ states, c.eventID = id ∧ c.processed = false ∧ c.leaseUntil.after now = false) :
    lease ⟨s,i,workers⟩ worker leaseUntil now =
      ⟨{s with projectionChanges := states.map fun c => {c with leaseOwner := projector worker, leaseUntil}},i,
        workers.insert worker ⟨states.map fun c => ⟨c.id,document⟩,false⟩⟩ := by
  have each : ∀ (states : List ProjectionChangeState) (limit : Nat), states.length ≤ limit →
      (∀ c ∈ states, c.eventID = id ∧ c.processed = false ∧ c.leaseUntil.after now = false) →
      s.leaseChanges (projector worker) leaseUntil now limit states =
        (states.map fun c => {c with leaseOwner := projector worker, leaseUntil},states.map fun c => ⟨c.id,document⟩) := by
    intro states
    induction states with
    | nil =>
      intro limit _ _
      cases limit <;> rfl
    | cons c others ih =>
      intro limit room free
      obtain ⟨limit,rfl⟩ : ∃ k, limit = k+1 := ⟨limit-1,by simp at room; omega⟩
      obtain ⟨named,waiting,expired⟩ := free c List.mem_cons_self
      have rest := ih limit (by simpa using room) fun c member => free c (List.mem_cons_of_mem _ member)
      simp [leaseChanges,named,waiting,expired,shown,rest]
  have leased := each states 100 few free
  obtain ⟨first,others,rfl⟩ := List.exists_cons_of_ne_nil some_
  simp only [lease,leaseProjectionChanges,projectionBatchSize,changes]
  rw [if_neg (by decide)]
  rw [show (100 : Int).toNat = 100 from rfl,leased]
  simp

def seconds (n : Int) : Time := ⟨momentTime.nanos+n*1000000000,0⟩

theorem hello_leased {h : Hash} {texts : Set String} (sent : Submitted h texts writer (hello.written h)) :
    ∃ s e, Message.Held h hello s ∧ s.events.lookup (Message.eventID h) = some e ∧ e.id = Message.eventID h ∧ e.sessionID = Message.sessionID h ∧
      e.threadID = "root" ∧ s.projectionChanges = [⟨1,Message.eventID h,projector 1,seconds 30,false⟩] ∧
      s.nextProjectionChangeID = 1 ∧ s.sessionEventIDs (Message.sessionID h) = [Message.eventID h] ∧
      Reachable Fresh (TimelyStep h texts) ⟨s,.empty,AList.insert 1
        ⟨[⟨1,e.projection (hello.sessionRow h) [⟨"root","main"⟩]⟩],false⟩ ∅⟩ := by
  obtain ⟨_,s,ok,held⟩ := Message.first_ok h hello
  obtain ⟨changes,next,listed⟩ := first_feed ok
  obtain ⟨seq,row⟩ := held.event
  have shown := message_shown held.session held.thread row rfl rfl
  have fresh : Fresh ⟨Message.store,.empty,∅⟩ := ⟨⟨_,_,rfl⟩,rfl,rfl⟩
  have agreed : Message.store.Agreed (.applyBatch (fun _ => momentTime) Message.order writer (hello.written h)) :=
    fun _ _ => .inr fun _ _ _ row => by cases row
  have applied : TimelyStep h texts ⟨Message.store,.empty,∅⟩
      (.applyBatch (fun _ => momentTime) Message.order writer (hello.written h)) _ :=
    ⟨agreed,.applyBatch (fun _ => momentTime) Message.order _ _ sent⟩
  have stored := (Reachable.start fresh).extend applied
  dsimp only at stored
  rw [perform_apply ok] at stored
  have lease : TimelyStep h texts ⟨s,.empty,∅⟩ (.lease 1 (seconds 30) momentTime) _ :=
    ⟨trivial,.lease 1 (seconds 30) momentTime rfl⟩
  have past : Time.zero.after momentTime = false := by decide
  have free : ∀ c ∈ [(⟨1,Message.eventID h,"",.zero,false⟩ : ProjectionChangeState)],
      c.eventID = Message.eventID h ∧ c.processed = false ∧ c.leaseUntil.after momentTime = false := by
    intro c member
    cases List.mem_singleton.mp member
    exact ⟨rfl,rfl,past⟩
  have leased := stored.extend lease
  rw [lease_all shown changes (by simp) (by simp) free] at leased
  refine ⟨{s with projectionChanges := [⟨1,Message.eventID h,projector 1,seconds 30,false⟩]},_,⟨⟨held.opened.project,held.opened.alive⟩,held.receipts,held.session,held.thread,held.source,
    held.event⟩,row,rfl,rfl,rfl,rfl,next,listed,leased⟩

theorem hello_converges {h : Hash} {texts : Set String} (sent : Submitted h texts writer (hello.written h)) :
    ∃ p id e, Reachable Fresh (TimelyStep h texts) p ∧ p.store.events.lookup id = some e ∧
      (∀ c ∈ p.store.projectionChanges, c.processed = true) ∧ p.workers.lookup 1 = none := by
  obtain ⟨s,e,held,row,id,own,root,changes,next,_,leased⟩ := hello_leased sent
  let pass : Pass := ⟨[⟨1,e.projection (hello.sessionRow h) [⟨"root","main"⟩]⟩],false⟩
  have started : (AList.insert 1 pass (∅ : Table Int Pass)).lookup 1 = some pass := by
    rw [Table.lookup_insert,if_pos rfl]
  have timely : Timely ⟨s,.empty,AList.insert 1 pass ∅⟩ (.upsert 1) := by
    intro _ _ d _ current held' _ _ _ found
    cases found
  have upsert : TimelyStep h texts ⟨s,.empty,AList.insert 1 pass ∅⟩ (.upsert 1) _ := ⟨timely,.upsert 1 pass started rfl⟩
  have upserted := leased.extend upsert
  have finished : ((AList.insert 1 pass (∅ : Table Int Pass)).insert 1 {pass with upserted := true}).lookup 1 =
      some {pass with upserted := true} := by
    rw [Table.lookup_insert,if_pos rfl]
  have ack : TimelyStep h texts (Projecting.upsert ⟨s,.empty,AList.insert 1 pass ∅⟩ 1 pass) (.ack 1) _ :=
    ⟨trivial,.ack 1 {pass with upserted := true} finished rfl⟩
  refine ⟨_,Message.eventID h,e,upserted.extend ack,row,?_,?_⟩
  · intro c member
    obtain ⟨c',known,rfl⟩ := List.mem_map.mp member
    change c' ∈ s.projectionChanges at known
    rw [changes] at known
    cases List.mem_singleton.mp known
    simp [ackChange,pass]
  · change AList.lookup 1 (AList.erase 1 _) = none
    rw [Table.lookup_erase,if_pos rfl]

theorem index_converges_hello : ∃ (p : Projecting) (id : String) (e : EventRecord), p.store.events.lookup id = some e ∧
    (∀ c ∈ p.store.projectionChanges, c.processed = true) ∧ p.Converged := by
  have sent := Message.pair_submitted hello retitled hello_valid (.inl rfl)
  obtain ⟨p,id,e,reached,row,processed,_⟩ := hello_converges sent
  exact ⟨p,id,e,row,processed,index_converges (Message.pair_collisionFree hello retitled) reached⟩

theorem retitled_leased : ∃ (s : MemoryStore) (e : EventRecord) (changes : List ProjectionChangeState) (old new : EventProjection),
    s.events.lookup (Message.eventID (Message.pairHash hello retitled)) = some e ∧
    s.eventProjection (Message.eventID (Message.pairHash hello retitled)) = some new ∧
    s.projectionChanges = changes ∧ (∀ c ∈ changes, c.id ∈ [1,2] ∧ c.leaseOwner = projector 2) ∧
    old.eventID = Message.eventID (Message.pairHash hello retitled) ∧ new.eventID = old.eventID ∧
    old.ingestSeq = new.ingestSeq ∧ old.sessionTitle ≠ new.sessionTitle ∧
    Reachable Fresh (Step (Message.pairHash hello retitled) {t | t ∈ Message.pairTexts hello retitled})
      ⟨s,.empty,AList.insert 2 ⟨[⟨1,new⟩,⟨2,new⟩],false⟩ (AList.insert 1 ⟨[⟨1,old⟩],false⟩ ∅)⟩ := by
  have sent := Message.pair_submitted hello retitled hello_valid (.inl rfl)
  have again := Message.pair_submitted hello retitled retitled_valid (.inr rfl)
  obtain ⟨s,e,held,row,id,own,root,changes,next,listed,leased⟩ := hello_leased sent
  obtain ⟨_,s',ok,changes',session,thread,event⟩ := again_ok held retitled (by decide) (by decide) rfl
  rw [if_pos (by decide),listed,next,changes] at changes'
  have shown := message_shown session thread (event.trans row) own root
  let old := e.projection (hello.sessionRow (Message.pairHash hello retitled)) [⟨"root","main"⟩]
  let workers : Table Int Pass := AList.insert 1 ⟨[⟨1,old⟩],false⟩ ∅
  have stored : Reachable Fresh (Step (Message.pairHash hello retitled) {t | t ∈ Message.pairTexts hello retitled})
      ⟨s',.empty,workers⟩ := by
    obtain ⟨start,works,fresh,run⟩ := leased
    have applied := Step.applyBatch (p := ⟨s,.empty,workers⟩) (fun _ => momentTime) Message.order _ _ again
    dsimp only at applied
    rw [perform_apply ok] at applied
    exact Reachable.extend ⟨start,works,fresh,run.weaken fun _ _ _ timely => timely.2⟩ applied
  have idle : workers.lookup 2 = none := by
    simp [workers,-AList.insert_empty]
  have free : Time.zero.after (seconds 120) = false ∧ (seconds 30).after (seconds 120) = false := by decide
  have released := stored.extend (Step.lease 2 (seconds 150) (seconds 120) idle)
  let waiting : List ProjectionChangeState :=
    [⟨1,Message.eventID (Message.pairHash hello retitled),projector 1,seconds 30,false⟩,
      ⟨2,Message.eventID (Message.pairHash hello retitled),"",.zero,false⟩]
  have listed' : s'.projectionChanges = waiting := changes'
  have few : waiting.length ≤ 100 := by simp [waiting]
  have ready : ∀ c ∈ waiting, c.eventID = Message.eventID (Message.pairHash hello retitled) ∧ c.processed = false ∧
      c.leaseUntil.after (seconds 120) = false := by simp [waiting,free]
  rw [lease_all shown listed' few (List.cons_ne_nil _ _) ready] at released
  have titles : trimSpace hello.title ≠ trimSpace retitled.title := by decide
  let both := waiting.map fun c => {c with leaseOwner := projector 2, leaseUntil := seconds 150}
  refine ⟨{s' with projectionChanges := both},e,both,old,_,event.trans row,(s'.eventProjection_changes _ _).trans shown,rfl,?_,id,
    rfl,rfl,titles,released⟩
  simp [both,waiting]

/-- A worker that was overtaken puts the old title back into the index. -/
theorem retitled_unconverged : ∃ p : Projecting, Reachable Fresh (Step (Message.pairHash hello retitled)
    {t | t ∈ Message.pairTexts hello retitled}) p ∧ ¬p.Converged := by
  obtain ⟨s,e,changes,old,new,row,shown,same,leased,named,alike,version,titles,reached⟩ := retitled_leased
  let first : Pass := ⟨[⟨1,old⟩],false⟩
  let second : Pass := ⟨[⟨1,new⟩,⟨2,new⟩],false⟩
  let workers : Table Int Pass := AList.insert 2 second (AList.insert 1 first ∅)
  have started : workers.lookup 2 = some second := by simp [workers,-AList.insert_empty]
  have upserted := reached.extend (Step.upsert 2 second started rfl)
  have finished : (workers.insert 2 {second with upserted := true}).lookup 2 = some {second with upserted := true} := by
    simp
  have acknowledged := upserted.extend (Step.ack 2 {second with upserted := true} finished rfl)
  have delayed : ((workers.insert 2 {second with upserted := true}).erase 2).lookup 1 = some first := by
    simp [workers,-AList.insert_empty]
  have processed : ∀ c ∈ s.projectionChanges.map (ackChange (projector 2) [1,2]), c.processed = true := by
    intro c member
    obtain ⟨c',known,rfl⟩ := List.mem_map.mp member
    rw [same] at known
    unfold ackChange
    rw [if_pos (leased c' known)]
  have idle : ∀ n pass, (((workers.insert 2 {second with upserted := true}).erase 2).insert 1
      {first with upserted := true}).lookup n = some pass → pass.upserted = true := by
    intro n pass held
    simp only [workers,Table.lookup_insert,Table.lookup_erase] at held
    split at held
    · cases held
      rfl
    · split at held
      · cases held
      · simp_all
  refine ⟨_,acknowledged.extend (Step.upsert 1 first delayed rfl),?_⟩
  intro converged
  obtain ⟨document,current,found⟩ := converged processed idle _ e row
  have kept := s.eventProjection_changes (s.projectionChanges.map (ackChange (projector 2) [1,2]))
    (Message.eventID (Message.pairHash hello retitled))
  cases (kept.trans shown).symm.trans current
  have older : ∀ x, (Index.empty.upsertProjectionDocuments [new,new]).documents.lookup
      (Message.eventID (Message.pairHash hello retitled)) = some x → x.ingestSeq ≤ old.ingestSeq := by
    intro x held
    rcases Index.upsert_source held with nothing | ⟨_,member,_,rfl⟩
    · cases nothing
    · rw [indexed_ingestSeq]
      simp only [List.mem_cons,List.not_mem_nil,or_false,or_self] at member
      rw [member,version]
  have put := Index.upsert_puts named (List.mem_singleton_self old) (fun _ member _ => List.mem_singleton.mp member) older
  have both : old.indexed = new.indexed := Option.some.inj (put.symm.trans found)
  exact titles (by rw [← indexed_sessionTitle old,both,indexed_sessionTitle])

end Projecting
end ATape.Canonical
