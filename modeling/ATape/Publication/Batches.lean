import ATape.Foundation.Growth
import ATape.Publication.Bindings

/-! What a legacy batch does to the rows of the sessions that are not published. None is
lost, their versions rise, and those of other sessions are out of its reach. -/
namespace ATape.Publication
open Authorization Canonical Foundation Go SourceIdentity
variable {event : EventRecord}

/-- An event rises by its projection first, so its revision may fall. -/
def EventRises (row row' : EventRecord) : Prop :=
  row'.sessionID = row.sessionID ∧ row.projectionRevision ≤ row'.projectionRevision

def UsageRises (row row' : UsageRecord) : Prop := row'.sessionID = row.sessionID ∧ row.revision ≤ row'.revision

def ThreadRises (row row' : ThreadRecord) : Prop := row.revision ≤ row'.revision

def SessionRises (row row' : SessionRow) : Prop := row.record.revision ≤ row'.record.revision

namespace Tables
variable {pk : Packages} {c : Context} {p : Principal} {t t' t'' : Tables} {h : Hash} {sessionID : String}

/-- The rows of the legacy tables rise. -/
structure Rises (t t' : Tables) : Prop where
  sessions : Table.Rises SessionRises t.sessions t'.sessions
  threads : Table.Rises ThreadRises t.threads t'.threads
  events : Table.Rises EventRises t.events t'.events
  usage : Table.Rises UsageRises t.usage t'.usage

theorem Rises.refl (t : Tables) : t.Rises t where
  sessions := .refl (fun row => Int.le_refl row.record.revision) _
  threads := .refl (fun row => Int.le_refl row.revision) _
  events := .refl (fun row => ⟨rfl,Int.le_refl row.projectionRevision⟩) _
  usage := .refl (fun row => ⟨rfl,Int.le_refl row.revision⟩) _

theorem Rises.trans (first : t.Rises t') (second : t'.Rises t'') : t.Rises t'' where
  sessions := first.sessions.trans (fun _ _ _ up up' => Int.le_trans up up') second.sessions
  threads := first.threads.trans (fun _ _ _ up up' => Int.le_trans up up') second.threads
  events := first.events.trans (fun _ _ _ up up' => ⟨up'.1.trans up.1,Int.le_trans up.2 up'.2⟩) second.events
  usage := first.usage.trans (fun _ _ _ up up' => ⟨up'.1.trans up.1,Int.le_trans up.2 up'.2⟩) second.usage

structure Beyond (sessionID : String) (t t' : Tables) : Prop where
  sessions : ∀ name, name ≠ sessionID → t'.sessions.lookup name = t.sessions.lookup name
  threads : ∀ k, k.1 ≠ sessionID → t'.threads.lookup k = t.threads.lookup k
  events : Table.Keeps (fun _ row => row.sessionID ≠ sessionID) t.events t'.events
  usage : Table.Keeps (fun _ row => row.sessionID ≠ sessionID) t.usage t'.usage

theorem Beyond.refl (sessionID : String) (t : Tables) : Beyond sessionID t t :=
  ⟨fun _ _ => rfl,fun _ _ => rfl,.refl _,.refl _⟩

theorem Beyond.trans (first : Beyond sessionID t t') (second : Beyond sessionID t' t'') : Beyond sessionID t t'' where
  sessions name other := (second.sessions name other).trans (first.sessions name other)
  threads k other := (second.threads k other).trans (first.threads k other)
  events := first.events.trans second.events
  usage := first.usage.trans second.usage

structure Writes (h : Hash) (sessionID : String) (t t' : Tables) : Prop where
  rises : t.Rises t'
  beyond : Beyond sessionID t t'
  named : t'.RowsNamed h

theorem Writes.refl (named : t.RowsNamed h) : t.Writes h sessionID t := ⟨.refl t,.refl sessionID t,named⟩

theorem Writes.trans (first : Writes h sessionID t t') (second : Writes h sessionID t' t'') :
    Writes h sessionID t t'' :=
  ⟨first.rises.trans second.rises,first.beyond.trans second.beyond,second.named⟩

theorem receiveSession_writes {session : SessionRecord} (named : t.RowsNamed h)
    (ran : t.receiveSession pk p session = .ok t') : Writes h session.id t t' := by
  unfold receiveSession at ran
  split at ran
  next fresh =>
    simp only [bind_ok,failWhen_ok,Except.ok.injEq] at ran
    obtain ⟨_,_,_,_,rfl⟩ := ran
    have refl := Rises.refl t
    refine ⟨⟨refl.sessions.insert fresh,refl.threads,refl.events,refl.usage⟩,
      ⟨fun name other => ?_,fun _ _ => rfl,.refl _,.refl _⟩,⟨named.events,named.usage⟩⟩
    rw [Table.lookup_insert,if_neg other]
  next existing known =>
    simp only [bind_ok,failWhen_ok,Except.ok.injEq] at ran
    obtain ⟨_,_,_,_,_,_,_,_,_,_,rfl⟩ := ran
    have refl := Rises.refl t
    refine ⟨⟨refl.sessions.modify fun row row' _ _ up => ?_,refl.threads,refl.events,refl.usage⟩,
      ⟨fun name other => ?_,fun _ _ => rfl,.refl _,.refl _⟩,⟨named.events,named.usage⟩⟩
    · refine Int.le_trans up ?_
      split
      next greater => exact Int.le_of_lt greater
      next => exact Int.le_refl _
    · rw [Table.lookup_modify,if_neg other]

theorem receiveThread_writes {thread : ThreadRecord} (named : t.RowsNamed h) (session : thread.sessionID = sessionID)
    (ran : t.receiveThread thread = .ok t') : Writes h sessionID t t' := by
  unfold receiveThread at ran
  have apart {k : String × String} (other : k.1 ≠ sessionID) : k ≠ (thread.sessionID,thread.id) := by
    rintro rfl
    exact other session
  split at ran
  next fresh =>
    simp only [bind_ok,failWhen_ok,Except.ok.injEq] at ran
    obtain ⟨_,_,rfl⟩ := ran
    have refl := Rises.refl t
    refine ⟨⟨refl.sessions,refl.threads.insert fresh,refl.events,refl.usage⟩,
      ⟨fun _ _ => rfl,fun k other => ?_,.refl _,.refl _⟩,⟨named.events,named.usage⟩⟩
    rw [Table.lookup_insert,if_neg (apart other)]
  next existing known =>
    simp only [bind_ok,failWhen_ok,Except.ok.injEq] at ran
    obtain ⟨_,_,_,_,_,_,rfl⟩ := ran
    have refl := Rises.refl t
    refine ⟨⟨refl.sessions,refl.threads.modify fun row row' _ _ up => ?_,refl.events,refl.usage⟩,
      ⟨fun _ _ => rfl,fun k other => ?_,.refl _,.refl _⟩,⟨named.events,named.usage⟩⟩
    · refine Int.le_trans up ?_
      unfold selectThread
      split
      next greater => exact Int.le_of_lt greater
      next => exact Int.le_refl _
    · rw [Table.lookup_modify,if_neg (apart other)]

theorem receiveThreads_writes {threads : List ThreadRecord} (named : t.RowsNamed h)
    (session : ∀ thread ∈ threads, thread.sessionID = sessionID) (ran : t.receiveThreads threads = .ok t') :
    Writes h sessionID t t' := by
  induction threads generalizing t with
  | nil =>
    cases ran
    exact .refl named
  | cons thread threads ih =>
    simp only [receiveThreads,bind_ok] at ran
    obtain ⟨t₁,first,rest⟩ := ran
    have written := receiveThread_writes named (session thread List.mem_cons_self) first
    exact written.trans (ih written.named (fun thread member => session thread (List.mem_cons_of_mem _ member)) rest)

/-! Events -/

/-- An event of a batch with what the batch does to it, by the tables before the batch. -/
structure Classified (h : Hash) (sessionID : String) (base : Tables) (event : EventRecord)
    (verdict : MemoryStore.Verdict) : Prop where
  session : event.sessionID = sessionID
  named : Named h sessionID .event event.id event.sourceKey
  updated : verdict = .updated → ∃ row, base.events.lookup event.id = some row ∧ row.sessionID = sessionID ∧
    row.projectionRevision ≤ event.projectionRevision

theorem classifyEvent_classified {verdict : MemoryStore.Verdict} (rows : t.RowsNamed h)
    (session : event.sessionID = sessionID) (named : Named h sessionID .event event.id event.sourceKey)
    (classified : t.classifyEvent event = .ok verdict) : Classified h sessionID t event verdict := by
  refine ⟨session,named,fun updated => ?_⟩
  subst updated
  unfold classifyEvent eventBySource at classified
  cases found : t.events.rows.find? fun row => row.2.sourceKey = event.sourceKey with
  | none =>
    simp only [found,Option.map_none,bind_ok,failWhen_ok] at classified
    obtain ⟨_,_,same⟩ := classified
    cases same
  | some existing =>
    simp only [found,Option.map_some,bind_ok,failWhen_ok,Bool.or_eq_true,decide_eq_true_eq,not_or,ne_eq,
      not_not] at classified
    obtain ⟨_,⟨owner,_⟩,classified⟩ := classified
    have known := (Table.mem_rows t.events _ _).mp (List.mem_of_find?_eq_some found)
    have key : existing.2.sourceKey = event.sourceKey := by simpa using List.find?_some found
    obtain ⟨place,named'⟩ := rows.events _ _ known
    rw [key] at named'
    -- the key gives the identifier, under which the row is
    have same : existing.1 = event.id := by
      rw [← place]
      exact (named'.unique named).2 (by simp)
    refine ⟨existing.2,same ▸ known,owner.trans session,?_⟩
    split at classified
    next => cases classified
    next greater => omega

theorem writeEvent_writes {base : Tables} {observedAt : Time} {index index' : Nat}
    {verdict : MemoryStore.Verdict} (written : Writes h sessionID base t)
    (classified : Classified h sessionID base event verdict)
    (ran : t.writeEvent c observedAt index event verdict = .ok (index',t')) : Writes h sessionID base t' := by
  cases verdict with
  | inserted =>
    simp only [writeEvent,bind_ok,failWhen_ok,Bool.or_eq_true,not_or,Bool.not_eq_true,Option.isSome_eq_false_iff,
      Option.isNone_iff_eq_none,Except.ok.injEq,Prod.mk.injEq] at ran
    obtain ⟨_,⟨fresh,_⟩,_,rfl⟩ := ran
    obtain ⟨rises,beyond,named⟩ := written
    refine ⟨⟨rises.sessions,rises.threads,rises.events.insert fresh,rises.usage⟩,
      ⟨beyond.sessions,beyond.threads,beyond.events.trans (.insert fresh fun other => other classified.session),
        beyond.usage⟩,
      ⟨fun id row known => ?_,named.usage⟩⟩
    rw [Table.lookup_insert] at known
    split at known
    next here =>
      cases known
      have same : event.sessionID = sessionID := classified.session
      refine ⟨here.symm,?_⟩
      simp only [datedEvent]
      rw [same]
      exact classified.named
    next => exact named.events id row known
  | updated =>
    simp only [writeEvent,Except.ok.injEq,Prod.mk.injEq] at ran
    obtain ⟨_,rfl⟩ := ran
    obtain ⟨first,known,session,less⟩ := classified.updated rfl
    obtain ⟨rises,beyond,named⟩ := written
    refine ⟨⟨rises.sessions,rises.threads,rises.events.modify fun row row' old now up => ?_,rises.usage⟩,
      ⟨beyond.sessions,beyond.threads,beyond.events.trans (.modify fun row now => ?_),beyond.usage⟩,
      ⟨fun id row now => ?_,named.usage⟩⟩
    · cases known.symm.trans old
      exact ⟨up.1,less⟩
    · obtain ⟨row',now',up⟩ := rises.events _ _ known
      cases now.symm.trans now'
      have same : row.sessionID = sessionID := up.1.trans session
      exact ⟨fun other => other same,fun other => other same⟩
    · rw [Table.lookup_modify] at now
      split at now
      next =>
        obtain ⟨row',old,rfl⟩ := Option.map_eq_some_iff.mp now
        exact named.events id row' old
      next => exact named.events id row now
  | stale | unchanged =>
    simp only [writeEvent,Except.ok.injEq,Prod.mk.injEq] at ran
    obtain ⟨_,rfl⟩ := ran
    exact written

theorem writeEvents_writes {base : Tables} {observedAt : Time} {index : Nat}
    {events : List (EventRecord × MemoryStore.Verdict)} (written : Writes h sessionID base t)
    (classified : ∀ pair ∈ events, Classified h sessionID base pair.1 pair.2)
    (ran : writeEvents c observedAt index t events = .ok t') : Writes h sessionID base t' := by
  induction events generalizing index t with
  | nil =>
    cases ran
    exact written
  | cons pair events ih =>
    simp only [writeEvents,bind_ok,Prod.exists] at ran
    obtain ⟨_,t₁,first,rest⟩ := ran
    exact ih (writeEvent_writes written (classified pair List.mem_cons_self) first)
      (fun pair member => classified pair (List.mem_cons_of_mem _ member)) rest

/-! Usage -/

theorem receiveUsage_writes {usage : List UsageRecord} (named : t.RowsNamed h)
    (batch : ∀ value ∈ usage, value.sessionID = sessionID ∧
      Named h sessionID .usage (stableID h "u_" value.sourceKey) value.sourceKey)
    (ran : t.receiveUsage usage = .ok t') : Writes h sessionID t t' := by
  induction usage generalizing t with
  | nil =>
    cases ran
    exact .refl named
  | cons value usage ih =>
    obtain ⟨session,name⟩ := batch value List.mem_cons_self
    have batch' : ∀ value ∈ usage, value.sessionID = sessionID ∧
        Named h sessionID .usage (stableID h "u_" value.sourceKey) value.sourceKey :=
      fun value member => batch value (List.mem_cons_of_mem _ member)
    have refl := Rises.refl t
    unfold receiveUsage at ran
    split at ran
    next fresh =>
      have first : Writes h sessionID t {t with usage := t.usage.insert value.sourceKey value} := by
        refine ⟨⟨refl.sessions,refl.threads,refl.events,refl.usage.insert fresh⟩,
          ⟨fun _ _ => rfl,fun _ _ => rfl,.refl _,.insert fresh fun other => other session⟩,
          ⟨named.events,fun key row known => ?_⟩⟩
        rw [Table.lookup_insert] at known
        split at known
        next here =>
          cases known
          rw [session]
          exact ⟨here.symm,name⟩
        next => exact named.usage key row known
      exact first.trans (ih first.named batch' ran)
    next existing known =>
      simp only [bind_ok,failWhen_ok] at ran
      obtain ⟨_,_,ran⟩ := ran
      have kept (row : UsageRecord) : (selectUsage value row).sourceKey = row.sourceKey ∧
          (selectUsage value row).sessionID = row.sessionID ∧ row.revision ≤ (selectUsage value row).revision := by
        unfold selectUsage
        split
        next greater => exact ⟨rfl,rfl,Int.le_of_lt greater⟩
        next => exact ⟨rfl,rfl,Int.le_refl _⟩
      have first : Writes h sessionID t {t with usage := t.usage.modify value.sourceKey (selectUsage value)} := by
        refine ⟨⟨refl.sessions,refl.threads,refl.events,refl.usage.modify fun row row' _ _ up => ?_⟩,
          ⟨fun _ _ => rfl,fun _ _ => rfl,.refl _,.modify fun row now => ?_⟩,⟨named.events,fun key row now => ?_⟩⟩
        · exact ⟨(kept row').2.1.trans up.1,Int.le_trans up.2 (kept row').2.2⟩
        · obtain ⟨place,named'⟩ := named.usage _ _ now
          rw [place] at named'
          have same : row.sessionID = sessionID := (named'.unique name).1
          exact ⟨fun other => other same,fun other => other ((kept row).2.1.trans same)⟩
        · rw [Table.lookup_modify] at now
          split at now
          next =>
            obtain ⟨row',old,rfl⟩ := Option.map_eq_some_iff.mp now
            rw [(kept row').1,(kept row').2.1]
            exact named.usage key row' old
          next => exact named.usage key row now
      exact first.trans (ih first.named batch' ran)

theorem ingest_writes {receipt : Option BatchReceipt} {input : Ingestion.Batch} {result : ApplyResult}
    (named : t.RowsNamed pk.hash) (ran : t.ingest pk c p receipt input = .ok (t',result)) :
    t' = t ∨ ∃ sessionID, t.sources.lookup sessionID = none ∧ Writes pk.hash sessionID t t' := by
  rcases ingest_ok ran with same | ⟨batch,made,unpublished,received⟩
  · exact .inl same
  · refine .inr ⟨batch.session.id,unpublished,?_⟩
    have unit := unitNamed_of_prepared made
    obtain ⟨t₁,t₂,verdicts,t₃,t₄,session,threads,classified,events,usage,rfl⟩ := receiveBatch_ok received
    have first := receiveSession_writes named session
    have second := receiveThreads_writes first.named (fun thread member => (unit.threads thread member).1) threads
    have pairs : ∀ pair ∈ batch.events.zip verdicts, Classified pk.hash batch.session.id t₂ pair.1 pair.2 := by
      intro pair member
      obtain ⟨known,_⟩ := List.of_mem_zip member
      have verdict := (List.forall₂_iff_zip.mp ((mapM_ok _ _ _).mp classified)).2 member
      obtain ⟨session,named⟩ := unit.events pair.1 known
      exact classifyEvent_classified second.named session named verdict
    have third := writeEvents_writes (.refl second.named) pairs events
    have fourth := receiveUsage_writes third.named unit.usage usage
    obtain ⟨rises,beyond,rows⟩ := ((first.trans second).trans third).trans fourth
    exact ⟨⟨rises.sessions,rises.threads,rises.events,rises.usage⟩,
      ⟨beyond.sessions,beyond.threads,beyond.events,beyond.usage⟩,⟨rows.events,rows.usage⟩⟩

end Tables
end ATape.Publication
