import ATape.Canonical.Calls
import ATape.Ingestion.Message

/-! Convergence of ingestion. Each table of the store is a family of registers in
which the latest version wins, and an accepted batch offers each of its records
to its own register. So the records that a list of batches leaves do not depend
on the order in which the batches were applied. -/
namespace ATape.Canonical
open Foundation Go Authorization SourceIdentity Ingestion

def EventRecord.undated (e : EventRecord) : EventRecord :=
  {e with observedAt := .zero, receivedAt := .zero, ingestSeq := 0}

def Alike (a b : EventRecord) : Prop := sameEventContent a b = true

theorem alike_undated {a b : EventRecord} : Alike a.undated b.undated ↔ Alike a b := Iff.rfl

namespace MemoryStore

def contentOf (s : MemoryStore) (source : String) : Option EventRecord :=
  (s.eventOf source).map EventRecord.undated

structure Covered (s : MemoryStore) (w : WriteBatch) : Prop where
  session : Register.Knows SessionRecord.revision Eq (s.sessions.lookup w.session.id) w.session
  threads : ∀ t ∈ w.threads, Register.Knows ThreadRecord.revision Eq (s.threads.lookup (threadKey t)) t
  events : ∀ e ∈ w.events, Register.Knows EventRecord.version Alike (s.contentOf e.sourceKey) e.undated
  usage : ∀ u ∈ w.usage, Register.Knows UsageRecord.revision Eq (s.usage.lookup u.sourceKey) u

/-- The tables of the first store merged with the records of some batches are
those of the second. -/
structure Taken (s : MemoryStore) (batches : List WriteBatch) (s' : MemoryStore) : Prop where
  sessions : Register.Merged SessionRecord.revision Eq SessionRecord.id s.sessions.lookup
    (batches.map (·.session)) s'.sessions.lookup
  threads : Register.Merged ThreadRecord.revision Eq threadKey s.threads.lookup
    (batches.flatMap (·.threads)) s'.threads.lookup
  events : Register.Merged EventRecord.version Alike EventRecord.sourceKey s.contentOf
    (batches.flatMap fun w => w.events.map EventRecord.undated) s'.contentOf
  usage : Register.Merged UsageRecord.revision Eq UsageRecord.sourceKey s.usage.lookup
    (batches.flatMap (·.usage)) s'.usage.lookup

theorem Taken.nil (s : MemoryStore) : Taken s [] s :=
  ⟨Register.merged_nil _,Register.merged_nil _,Register.merged_nil _,Register.merged_nil _⟩

theorem Taken.append {s middle final : MemoryStore} {first second : List WriteBatch}
    (left : Taken s first middle) (right : Taken middle second final) : Taken s (first++second) final := by
  refine ⟨?_,?_,?_,?_⟩
  · rw [List.map_append]
    exact left.sessions.append right.sessions
  · rw [List.flatMap_append]
    exact left.threads.append right.threads
  · rw [List.flatMap_append]
    exact left.events.append right.events
  · rw [List.flatMap_append]
    exact left.usage.append right.usage

theorem Taken.keeps {s s' : MemoryStore} {batches : List WriteBatch} (taken : Taken s batches s')
    {w : WriteBatch} (covered : s.Covered w) : s'.Covered w where
  session := Register.keeps_run (taken.sessions _) covered.session
  threads t member := Register.keeps_run (taken.threads _) (covered.threads t member)
  events e member := Register.keeps_run (taken.events _) (covered.events e member)
  usage u member := Register.keeps_run (taken.usage _) (covered.usage u member)

theorem Covered.taken {h : Hash} {s : MemoryStore} {w : WriteBatch} (formed : w.Formed h)
    (covered : s.Covered w) : Taken s [w] s where
  sessions := Register.merged_of_known (by simp) (by simpa using covered.session)
  threads := Register.merged_of_known (by simpa using formed_threadKeys formed) (by simpa using covered.threads)
  events := by
    apply Register.merged_of_known
    · simpa [EventRecord.undated,Function.comp_def] using formed.eventKeys
    · simpa [EventRecord.undated] using covered.events
  usage := Register.merged_of_known (by simpa using formed.usageKeys) (by simpa using covered.usage)

/-- A store whose rows are bound by their digests, and whose receipts are those
of batches that it covers. -/
structure Sound (h : Hash) (texts : Set String) (s : MemoryStore) : Prop where
  coherent : Coherent h s
  sessions : ∀ id r, s.sessions.lookup id = some r → r.Bound h texts
  threads : ∀ k t, s.threads.lookup k = some t → t.Bound h texts
  events : ∀ id e, s.events.lookup id = some e → e.Bound h texts
  usage : ∀ k u, s.usage.lookup k = some u → u.Bound h texts
  receipts : ∀ k receipt, s.batchReceipts.lookup k = some receipt →
    ∃ principal w, Submitted h texts principal w ∧ w.key = k ∧ w.digest = receipt.digest ∧
      w.session.id = receipt.result.sessionID ∧ s.Covered w

theorem newWithControlPlane_sound (h : Hash) (texts : Set String) (projects : List ProjectRecord)
    (memberships : List MembershipFacts) : Sound h texts (newWithControlPlane projects memberships) := by
  refine ⟨newWithControlPlane_coherent h projects memberships,?_,?_,?_,?_,?_⟩ <;>
    simp [newWithControlPlane]

variable {h : Hash} {texts : Set String} {s : MemoryStore}

section Write
variable (received : Nat → Time) (order : Order) (result : ApplyResult)
  {principal : Principal} {w : WriteBatch} {verdicts : List Verdict}

theorem eventOf_applied (formed : w.Formed h) {e : EventRecord} (member : e ∈ applied w verdicts) :
    ∃ seq, (s.write received order w (applied w verdicts) result).eventOf e.sourceKey =
      some (arrived seq w.observedAt (received seq) e) := by
  have rows := applied_received received order result s verdicts formed
  obtain ⟨seq,_,_,row⟩ := rows.own e member
  exact ⟨seq,by rw [eventOf,rows.source e member,Option.bind_some,row]⟩

theorem eventOf_other (formed : w.Formed h) (coherent : Coherent h s)
    (accepted : s.Accepted principal w verdicts) {source : String}
    (untouched : ∀ e ∈ applied w verdicts, e.sourceKey ≠ source) :
    (s.write received order w (applied w verdicts) result).eventOf source = s.eventOf source := by
  have rows := applied_received received order result s verdicts formed
  rw [eventOf,eventOf,rows.otherSource source untouched]
  cases known : s.eventBySource.lookup source with
  | none => rfl
  | some id =>
    obtain ⟨old,row,rfl⟩ := coherent.source source id known
    apply rows.other id
    intro e member same
    rcases applied_place formed coherent accepted member with ⟨fresh,_⟩ | ⟨old',row',_,keyed,_⟩
    · rw [same,row] at fresh
      cases fresh
    · rw [same,row] at row'
      cases row'
      exact untouched e member keyed.symm

theorem contentOf_applied (formed : w.Formed h) {e : EventRecord} (member : e ∈ applied w verdicts) :
    (s.write received order w (applied w verdicts) result).contentOf e.sourceKey = some e.undated := by
  obtain ⟨seq,own⟩ := eventOf_applied received order result formed member
  rw [contentOf,own]
  rfl

theorem contentOf_offered (free : h.CollisionFree texts) (sound : Sound h texts s) (formed : w.Formed h)
    (bound : w.Bound h texts) (accepted : s.Accepted principal w verdicts) {e : EventRecord}
    (member : e ∈ w.events) :
    Register.Offered EventRecord.version Alike (s.contentOf e.sourceKey) e.undated
      ((s.write received order w (applied w verdicts) result).contentOf e.sourceKey) := by
  have coherent := sound.coherent
  by_cases kept : e ∈ applied w verdicts
  · rw [contentOf_applied received order result formed kept]
    rcases applied_place formed coherent accepted kept with ⟨_,fresh⟩ | ⟨old,row,known,keyed,_,_,newer⟩
    · rw [contentOf,eventOf,fresh]
      exact .first _
    · rw [contentOf,eventOf,known,Option.bind_some,row]
      exact .newer _ _ newer
  · have untouched : ∀ e' ∈ applied w verdicts, e'.sourceKey ≠ e.sourceKey := by
      intro e' member' same
      have equal := List.inj_on_of_nodup_map formed.eventKeys (applied_sublist.subset member') member same
      exact kept (equal ▸ member')
    rw [contentOf,contentOf,eventOf_other received order result formed coherent accepted untouched]
    have skipped : ∃ id, s.eventBySource.lookup e.sourceKey = some id ∧
        (e.version < ((s.events.lookup id).getD .absent).version ∨
          e.version = ((s.events.lookup id).getD .absent).version ∧
            (e.digest = ((s.events.lookup id).getD .absent).digest ∨
              sameEventContent e ((s.events.lookup id).getD .absent) = true)) := by
      rcases not_mem_applied accepted.events member kept with stale | unchanged
      · obtain _ | ⟨id,known,older⟩ := stale
        exact ⟨id,known,.inl older⟩
      · obtain _ | _ | ⟨id,known,equal,same⟩ := unchanged
        exact ⟨id,known,.inr ⟨equal,same⟩⟩
    obtain ⟨id,known,covers⟩ := skipped
    obtain ⟨old,row,_⟩ := coherent.source _ id known
    rw [row] at covers
    rw [eventOf,known,Option.bind_some,row]
    apply Register.Offered.covered
    rcases covers with older | ⟨equal,same⟩
    · exact .inl older
    · refine .inr ⟨equal,alike_undated.mpr ?_⟩
      rcases same with digest | same
      · exact (bound.events e member).same free (sound.events id old row) digest
      · exact same

theorem write_taken (free : h.CollisionFree texts) (sound : Sound h texts s) (formed : w.Formed h)
    (bound : w.Bound h texts) (accepted : s.Accepted principal w verdicts) :
    Taken s [w] (s.write received order w (applied w verdicts) result) := by
  have coherent := sound.coherent
  refine ⟨?_,?_,?_,?_⟩
  · apply Register.merged_of_offered
    · simp
    · intro r member
      obtain rfl : r = w.session := by simpa using member
      rw [session_own]
      apply Register.offered_resolve
      intro held row equal
      have digest := (accepted.session held row).2.2.2 equal.symm
      exact bound.session.eq free (sound.sessions _ held row) digest.symm
    · intro id untouched
      exact session_other s received order w _ result (Ne.symm (untouched w.session (by simp)))
  · have threads : [w].flatMap (·.threads) = w.threads := by simp
    rw [threads]
    apply Register.merged_of_offered (formed_threadKeys formed)
    · intro t member
      rw [thread_own s received order w _ result (formed_threadKeys formed) member]
      apply Register.offered_resolve
      intro held row equal
      have digest := (accepted.threads t member held row).2.2 equal.symm
      exact (bound.threads t member).eq free (sound.threads _ held row) digest.symm
    · intro k untouched
      exact thread_other s received order w _ result untouched
  · have events : [w].flatMap (fun w => w.events.map EventRecord.undated) =
        w.events.map EventRecord.undated := by simp
    rw [events]
    apply Register.merged_of_offered
    · simpa [EventRecord.undated,Function.comp_def] using formed.eventKeys
    · intro r member
      obtain ⟨e,inside,rfl⟩ := List.mem_map.mp member
      have offered := contentOf_offered received order result free sound formed bound accepted inside
      exact offered
    · intro k untouched
      rw [contentOf,contentOf,eventOf_other received order result formed coherent accepted]
      intro e member
      exact untouched e.undated (List.mem_map.mpr ⟨e,applied_sublist.subset member,rfl⟩)
  · have usage : [w].flatMap (·.usage) = w.usage := by simp
    rw [usage]
    apply Register.merged_of_offered formed.usageKeys
    · intro u member
      rw [usage_own s received order w _ result formed.usageKeys member]
      apply Register.offered_resolve
      intro held row equal
      have digest := accepted.usage u member held row equal.symm
      exact (bound.usage u member).eq free (sound.usage _ held row) digest.symm
    · intro k untouched
      exact usage_other s received order w _ result untouched

theorem Taken.covered {s s' : MemoryStore} (taken : Taken s [w] s') :
    s'.Covered w where
  session := Register.Merged.knows eq_equivalence taken.sessions (by simp)
  threads t member := Register.Merged.knows eq_equivalence taken.threads (by simpa using member)
  events e member := by
    have offered : e.undated ∈ [w].flatMap fun w => w.events.map EventRecord.undated := by
      simp only [List.flatMap_cons,List.flatMap_nil,List.append_nil]
      exact List.mem_map_of_mem member
    have known := Register.Merged.knows sameEventContent_equivalence taken.events offered
    exact known
  usage u member := Register.Merged.knows eq_equivalence taken.usage (by simpa using member)

theorem write_sound (free : h.CollisionFree texts) (sound : Sound h texts s)
    (submitted : Submitted h texts principal w) (admitted : s.Admitted principal w)
    (accepted : s.Accepted principal w verdicts) :
    Sound h texts (s.write received order w (applied w verdicts) (s.summarize w verdicts)) := by
  have formed := submitted.formed free
  have bound := submitted.bound
  have taken := write_taken received order (s.summarize w verdicts) free sound formed bound accepted
  refine ⟨write_coherent received order _ formed sound.coherent admitted accepted,?_,?_,?_,?_,?_⟩
  · intro id r held
    by_cases own : id = w.session.id
    · subst own
      rw [session_own] at held
      rcases resolve_source held with rfl | old
      · exact bound.session
      · exact sound.sessions _ r old
    · rw [session_other s received order w _ _ own] at held
      exact sound.sessions id r held
  · intro k t held
    rcases thread_origin _ _ _ _ formed held with ⟨t',member,_,rfl⟩ | old
    · exact bound.threads t member
    · exact sound.threads k t old
  · intro id e held
    rcases event_origin _ _ _ formed held with ⟨e',member,_,_,_,_,rfl⟩ | ⟨_,old⟩
    · have given := bound.events e' (applied_sublist.subset member)
      exact ⟨given.digest,given.occurred⟩
    · exact sound.events id e old
  · intro k u held
    by_cases touched : ∃ u' ∈ w.usage, u'.sourceKey = k
    · obtain ⟨u',member,rfl⟩ := touched
      rw [usage_own s received order w _ _ formed.usageKeys member] at held
      rcases resolve_source held with rfl | old
      · exact bound.usage u member
      · exact sound.usage _ u old
    · push Not at touched
      rw [usage_other s received order w _ _ touched] at held
      exact sound.usage k u held
  · intro k receipt held
    rw [(write_kept s received order w _ _).2.2.2,Table.lookup_insert] at held
    split at held
    next own =>
      cases held
      exact ⟨principal,w,submitted,own.symm,rfl,rfl,taken.covered⟩
    next =>
      obtain ⟨principal',w',submitted',key,digest,session,covered⟩ := sound.receipts k receipt held
      exact ⟨principal',w',submitted',key,digest,session,taken.keeps covered⟩

end Write

theorem drop_covered (coherent : Coherent h s) {session : SessionRecord} {sessionID : String}
    (stored : s.sessions.lookup sessionID = some session) {w : WriteBatch} (formed : w.Formed h)
    (apart : w.session.id ≠ sessionID) (covered : s.Covered w) :
    (s.dropSession session sessionID).Covered w := by
  refine ⟨?_,?_,?_,?_⟩
  · simpa [dropSession,apart] using covered.session
  · intro t member
    obtain ⟨held,row,covers⟩ := covered.threads t member
    refine ⟨held,(drop_thread coherent stored).mpr ⟨row,?_⟩,covers⟩
    have size : t.sessionID.toList.length = sessionIDLength := formed.threadSession t member ▸ formed.sessionID
    rw [(coherent.thread_at size row).1,formed.threadSession t member]
    exact apart
  · intro e member
    obtain ⟨held,content,covers⟩ := covered.events e member
    obtain ⟨row,found,rfl⟩ := Option.map_eq_some_iff.mp content
    refine ⟨row.undated,?_,covers⟩
    obtain ⟨id,known,at'⟩ := Option.bind_eq_some_iff.mp found
    obtain ⟨_,_,_,_⟩ := coherent.event id row at'
    obtain ⟨row',at'',keyed⟩ := coherent.source _ id known
    rw [at'] at at''
    cases at''
    have elsewhere : row.sessionID ≠ sessionID := by
      have scope := coherent.eventScope id row at'
      rw [keyed] at scope
      rw [scope.unique (formed.eventScope e member)]
      exact apart
    have source := (drop_source coherent stored).mpr ⟨known,row,at',keyed,elsewhere⟩
    have event := (drop_event coherent stored).mpr ⟨at',elsewhere⟩
    rw [contentOf,eventOf,source,Option.bind_some,event]
    rfl
  · intro u member
    obtain ⟨held,row,covers⟩ := covered.usage u member
    refine ⟨held,?_,covers⟩
    have elsewhere : held.sessionID ≠ sessionID := by
      rw [(coherent.usageScope _ held row).unique (formed.usageScope u member)]
      exact apart
    simp [dropSession,Option.filter_eq_some_iff,row,elsewhere]

theorem dropSession_sound (free : h.CollisionFree texts) (sound : Sound h texts s) {session : SessionRecord}
    {sessionID : String} (stored : s.sessions.lookup sessionID = some session) :
    Sound h texts (s.dropSession session sessionID) := by
  have coherent := sound.coherent
  refine ⟨dropSession_coherent coherent stored,?_,?_,?_,?_,?_⟩
  · intro id r held
    simp only [dropSession,Table.lookup_erase] at held
    split at held
    next => cases held
    next => exact sound.sessions id r held
  · intro k t held
    exact sound.threads k t ((drop_thread coherent stored).mp held).1
  · intro id e held
    exact sound.events id e ((drop_event coherent stored).mp held).1
  · intro k u held
    simp only [dropSession,Table.lookup_keep,Option.filter_eq_some_iff] at held
    exact sound.usage k u held.1
  · intro k receipt held
    simp only [dropSession,Table.lookup_keep,Option.filter_eq_some_iff,decide_eq_true_eq] at held
    obtain ⟨principal,w,submitted,key,digest,session',covered⟩ := sound.receipts k receipt held.1
    exact ⟨principal,w,submitted,key,digest,session',
      drop_covered coherent stored (submitted.formed free) (session' ▸ held.2) covered⟩

theorem step_sound (free : h.CollisionFree texts) {s' : MemoryStore} {call : Call} (sound : Sound h texts s)
    (step : Step h texts s call s') : Sound h texts s' := by
  have next : s' = s.perform call := by cases step <;> rfl
  rcases s.perform_cases call with same | ⟨received,order,principal,w,verdicts,result,rfl,admitted,_,accepted,
    rfl,written⟩ | ⟨principal,sessionID,session,rfl,held,dropped⟩ | ⟨changes,rewritten,_⟩
  · exact (next.trans same) ▸ sound
  · cases step with
    | applyBatch _ _ _ _ submitted =>
      rw [written]
      exact write_sound received order free sound submitted admitted accepted
  · rw [next,dropped]
    exact dropSession_sound free sound held
  · rw [next,rewritten]
    refine ⟨sound.coherent.changes changes,sound.sessions,sound.threads,sound.events,sound.usage,?_⟩
    intro k receipt held
    obtain ⟨principal,w,submitted,key,digest,session,covered⟩ := sound.receipts k receipt held
    exact ⟨principal,w,submitted,key,digest,session,covered.session,covered.threads,covered.events,covered.usage⟩

theorem reachable_sound (free : h.CollisionFree texts) (reached : Reachable Fresh (Step h texts) s) :
    Sound h texts s := by
  have first : ∀ s, Fresh s → Sound h texts s := by
    rintro s ⟨projects,memberships,rfl⟩
    exact newWithControlPlane_sound h texts projects memberships
  exact reached.invariant first fun _ _ _ sound step => step_sound free sound step

/-! Lists of batches -/

structure Request where
  principal : Principal
  batch : WriteBatch

/-- The store accepts the batch, at some time and in some order of its maps. -/
def Accepts (h : Hash) (texts : Set String) (s : MemoryStore) (request : Request) (s' : MemoryStore) : Prop :=
  Submitted h texts request.principal request.batch ∧
    ∃ received order result, s.applyBatch received order request.principal request.batch = .ok (result,s')

theorem accepts_step {request : Request} {s' : MemoryStore} (accepts : Accepts h texts s request s') :
    ∃ call, Step h texts s call s' := by
  obtain ⟨submitted,received,order,result,ok⟩ := accepts
  refine ⟨.applyBatch received order request.principal request.batch,?_⟩
  have next : s' = s.perform (.applyBatch received order request.principal request.batch) := by
    simp [perform,ok,Except.map,after]
  exact next ▸ .applyBatch _ _ _ _ _ submitted

theorem accepts_taken (free : h.CollisionFree texts) (sound : Sound h texts s) {request : Request}
    {s' : MemoryStore} (accepts : Accepts h texts s request s') : Taken s [request.batch] s' := by
  obtain ⟨submitted,received,order,result,ok⟩ := accepts
  obtain ⟨_,⟨receipt,known,digest,rfl⟩ | ⟨_,verdicts,accepted,_,rfl⟩⟩ := applyBatch_ok ok
  · obtain ⟨principal,w,submitted',key,digest',_,covered⟩ := sound.receipts _ receipt known
    have same := submitted'.eq free submitted key (digest'.trans digest)
    exact Covered.taken (submitted.formed free) (same ▸ covered)
  · exact write_taken received order result free sound (submitted.formed free) submitted.bound accepted

theorem run_taken (free : h.CollisionFree texts) {final : MemoryStore} {requests : List Request}
    (run : Run (Accepts h texts) s requests final) (sound : Sound h texts s) :
    Taken s (requests.map (·.batch)) final := by
  induction run with
  | nil s => exact Taken.nil s
  | cons s request middle requests final head _ ih =>
    obtain ⟨call,step⟩ := accepts_step head
    exact (accepts_taken free sound head).append (ih (step_sound free sound step))

structure SameRecords (a b : MemoryStore) : Prop where
  sessions : ∀ id, a.sessions.lookup id = b.sessions.lookup id
  threads : ∀ k, a.threads.lookup k = b.threads.lookup k
  usage : ∀ k, a.usage.lookup k = b.usage.lookup k
  events : ∀ source, Option.Rel Alike (a.eventOf source) (b.eventOf source)

/-- Each record of the final store is a latest one of those that the first store
and the batches have for its key. -/
structure Newest (start : MemoryStore) (batches : List WriteBatch) (final : MemoryStore) : Prop where
  sessions : ∀ id, Register.Settled SessionRecord.revision Eq (start.sessions.lookup id)
    ((batches.map (·.session)).filter fun r => r.id = id) (final.sessions.lookup id)
  threads : ∀ k, Register.Settled ThreadRecord.revision Eq (start.threads.lookup k)
    ((batches.flatMap (·.threads)).filter fun t => threadKey t = k) (final.threads.lookup k)
  usage : ∀ k, Register.Settled UsageRecord.revision Eq (start.usage.lookup k)
    ((batches.flatMap (·.usage)).filter fun u => u.sourceKey = k) (final.usage.lookup k)
  events : ∀ source, Register.Settled EventRecord.version Alike (start.contentOf source)
    ((batches.flatMap fun w => w.events.map EventRecord.undated).filter fun e => e.sourceKey = source)
    (final.contentOf source)

theorem Taken.newest {final : MemoryStore} {batches : List WriteBatch} (taken : Taken s batches final) :
    Newest s batches final where
  sessions := taken.sessions.settled eq_equivalence
  threads := taken.threads.settled eq_equivalence
  usage := taken.usage.settled eq_equivalence
  events := taken.events.settled sameEventContent_equivalence

theorem Taken.sameRecords {first second : MemoryStore} {batches others : List WriteBatch}
    (left : Taken s batches first) (right : Taken s others second) (perm : batches.Perm others) :
    SameRecords first second := by
  refine ⟨?_,?_,?_,?_⟩
  · intro id
    exact Register.eq_of_rel (left.sessions.agree eq_equivalence right.sessions (fun r => (perm.map _).mem_iff) id)
  · intro k
    exact Register.eq_of_rel (left.threads.agree eq_equivalence right.threads
      (fun r => (perm.flatMap_right _).mem_iff) k)
  · intro k
    exact Register.eq_of_rel (left.usage.agree eq_equivalence right.usage
      (fun r => (perm.flatMap_right _).mem_iff) k)
  · intro source
    have agreed := left.events.agree sameEventContent_equivalence right.events
      (fun r => (perm.flatMap_right _).mem_iff) source
    unfold contentOf at agreed
    cases held : first.eventOf source <;> cases held' : second.eventOf source <;>
      simp only [held,held',Option.map_none,Option.map_some] at agreed
    · exact .none
    · cases agreed
    · cases agreed
    · cases agreed with
      | some alike => exact .some (alike_undated.mp alike)

/-- Batches that the store accepts in two orders leave it the same records in
both, each the latest of its key. -/
theorem applyBatch_converges (free : h.CollisionFree texts) {start first second : MemoryStore}
    (reached : Reachable Fresh (Step h texts) start) {requests others : List Request}
    (perm : requests.Perm others) (run : Run (Accepts h texts) start requests first)
    (run' : Run (Accepts h texts) start others second) :
    SameRecords first second ∧ Newest start (requests.map (·.batch)) first ∧
      Newest start (others.map (·.batch)) second := by
  have sound := reachable_sound free reached
  have taken := run_taken free run sound
  have taken' := run_taken free run' sound
  exact ⟨taken.sameRecords taken' (perm.map _),taken.newest,taken'.newest⟩

/-! Two messages of one conversation, in both orders. -/

def early : Message := ⟨"b1","Plan","codex","main","Hello",1,1⟩

def late : Message := ⟨"b2","Plan, revised","codex","main","Hello again",2,2⟩

theorem early_valid : early.Valid := by
  constructor <;> decide

theorem late_valid : late.Valid := by
  constructor <;> decide

def request (m : Message) : Request := ⟨writer,m.written (Message.pairHash early late)⟩

theorem applyBatch_converges_messages :
    ∃ first second, SameRecords first second ∧
      Newest Message.store [(request early).batch,(request late).batch] first ∧
      Newest Message.store [(request late).batch,(request early).batch] second := by
  have next : ∀ m m' : Message, ∀ {s}, Message.Held (Message.pairHash early late) m s → m'.batchID ≠ m.batchID →
      m.revision ≠ m'.revision → m.eventRevision ≠ m'.eventRevision →
      ∃ result s', m'.apply (Message.pairHash early late) s = .ok (result,s') :=
    fun m m' s held => held.next_ok
  obtain ⟨_,afterEarly,ok,held⟩ := Message.first_ok (Message.pairHash early late) early
  obtain ⟨_,first,second_ok⟩ := next early late held (by decide) (by decide) (by decide)
  obtain ⟨_,afterLate,ok',held'⟩ := Message.first_ok (Message.pairHash early late) late
  obtain ⟨_,second,second_ok'⟩ := next late early held' (by decide) (by decide) (by decide)
  have earlySent := Message.pair_submitted early late early_valid (.inl rfl)
  have lateSent := Message.pair_submitted early late late_valid (.inr rfl)
  have fresh : Fresh Message.store := ⟨_,_,rfl⟩
  exact ⟨first,second,applyBatch_converges (Message.pair_collisionFree early late) (Reachable.start fresh)
    (List.Perm.swap (request late) (request early) [])
    (.cons _ _ _ _ _ ⟨earlySent,_,_,_,ok⟩ (.one ⟨lateSent,_,_,_,second_ok⟩))
    (.cons _ _ _ _ _ ⟨lateSent,_,_,_,ok'⟩ (.one ⟨earlySent,_,_,_,second_ok'⟩))⟩

end MemoryStore
end ATape.Canonical
