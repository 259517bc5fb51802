import ATape.Canonical.Writes
import ATape.Foundation.Register

/-! The rows after a write, each resolved from the row before and the record of
the batch with its key. -/
namespace ATape.Canonical
open Foundation Go Authorization
namespace MemoryStore

theorem mem_addToIndex (index : Table String (List String)) (key value key' value' : String) :
    value' ∈ ((addToIndex index key value).lookup key').getD [] ↔
      (key' = key ∧ value' = value) ∨ value' ∈ (index.lookup key').getD [] := by
  unfold addToIndex
  rw [Table.lookup_insert]
  by_cases same : key' = key
  · subst same
    simp [List.mem_insert_iff]
  · simp [same]

theorem putUsage_own (s : MemoryStore) (u : UsageRecord) :
    (s.putUsage u).usage.lookup u.sourceKey =
      Register.resolve (·.revision) (s.usage.lookup u.sourceKey) u := by
  unfold putUsage Register.resolve
  split
  next newer => simp
  next => rfl

theorem putUsage_other (s : MemoryStore) (u : UsageRecord) (k : String) (other : k ≠ u.sourceKey) :
    (s.putUsage u).usage.lookup k = s.usage.lookup k := by
  unfold putUsage
  split
  · simp [other]
  · rfl

theorem putSession_own (s : MemoryStore) (w : WriteBatch) :
    (s.putSession w).sessions.lookup w.session.id =
      Register.resolve (·.revision) (s.sessions.lookup w.session.id) w.session := by
  unfold putSession Register.resolve
  cases held : s.sessions.lookup w.session.id with
  | none => simp
  | some existing =>
    simp only [Option.all_some,decide_eq_true_eq]
    split
    · simp
    · exact held

theorem putSession_other (s : MemoryStore) (w : WriteBatch) (id : String) (other : id ≠ w.session.id) :
    (s.putSession w).sessions.lookup id = s.sessions.lookup id := by
  unfold putSession
  split
  · simp [other]
  · split
    · simp [other]
    · rfl

def threadKey (t : ThreadRecord) : String := recordKey t.sessionID t.id

theorem putThread_own (s : MemoryStore) (t : ThreadRecord) :
    (s.putThread t).threads.lookup (threadKey t) =
      Register.resolve (·.revision) (s.threads.lookup (threadKey t)) t := by
  unfold putThread Register.resolve threadKey
  cases held : s.threads.lookup (recordKey t.sessionID t.id) with
  | none => simp
  | some existing =>
    simp only [Option.all_some,decide_eq_true_eq]
    split
    · simp
    · exact held

theorem putThread_other (s : MemoryStore) (t : ThreadRecord) (k : String) (other : k ≠ threadKey t) :
    (s.putThread t).threads.lookup k = s.threads.lookup k := by
  unfold threadKey at other
  unfold putThread
  split
  · simp [other]
  · split
    · simp [other]
    · rfl

theorem putThread_index (s : MemoryStore) (t : ThreadRecord) (sessionID id : String) :
    id ∈ ((s.putThread t).threadIDsBySession.lookup sessionID).getD [] ↔
      (s.threads.lookup (threadKey t) = none ∧ sessionID = t.sessionID ∧ id = t.id) ∨
        id ∈ (s.threadIDsBySession.lookup sessionID).getD [] := by
  unfold putThread threadKey
  cases held : s.threads.lookup (recordKey t.sessionID t.id) with
  | none => simp [mem_addToIndex]
  | some existing =>
    simp only [reduceCtorEq,false_and,false_or]
    split <;> rfl

variable (s : MemoryStore) (received : Nat → Time) (order : Order) (w : WriteBatch)
  (events : List EventRecord) (result : ApplyResult)

theorem usage_own (distinct : (w.usage.map (·.sourceKey)).Nodup) {u : UsageRecord} (member : u ∈ w.usage) :
    (s.write received order w events result).usage.lookup u.sourceKey =
      Register.resolve (·.revision) (s.usage.lookup u.sourceKey) u := by
  rw [write_usage]
  exact foldl_own (fun (s : MemoryStore) k => s.usage.lookup k) UsageRecord.sourceKey _ putUsage_own putUsage_other _ distinct s u member

theorem usage_other {k : String} (untouched : ∀ u ∈ w.usage, u.sourceKey ≠ k) :
    (s.write received order w events result).usage.lookup k = s.usage.lookup k := by
  rw [write_usage]
  exact foldl_other (fun (s : MemoryStore) k => s.usage.lookup k) UsageRecord.sourceKey putUsage_other _ s k untouched

theorem afterUsage_sessions : (s.afterUsage w).sessions = s.sessions := by
  have same := congrArg MemoryStore.sessions (afterUsage_beside s w)
  exact same

theorem session_own : (s.write received order w events result).sessions.lookup w.session.id =
    Register.resolve (·.revision) (s.sessions.lookup w.session.id) w.session := by
  rw [write_sessions,putSession_own,afterUsage_sessions]

theorem session_other {id : String} (other : id ≠ w.session.id) :
    (s.write received order w events result).sessions.lookup id = s.sessions.lookup id := by
  rw [write_sessions,putSession_other _ _ _ other,afterUsage_sessions]

theorem thread_own (distinct : (w.threads.map threadKey).Nodup) {t : ThreadRecord}
    (member : t ∈ w.threads) :
    (s.write received order w events result).threads.lookup (threadKey t) =
      Register.resolve (·.revision) (s.threads.lookup (threadKey t)) t := by
  rw [(write_threads s received order w events result).1,← (afterSession_threads s w).1]
  exact foldl_own (fun (s : MemoryStore) k => s.threads.lookup k) threadKey _ putThread_own putThread_other _ distinct _ t member

theorem thread_other {k : String} (untouched : ∀ t ∈ w.threads, threadKey t ≠ k) :
    (s.write received order w events result).threads.lookup k = s.threads.lookup k := by
  rw [(write_threads s received order w events result).1,← (afterSession_threads s w).1]
  exact foldl_other (fun (s : MemoryStore) k => s.threads.lookup k) threadKey putThread_other _ _ k untouched

theorem foldl_thread_index (ts : List ThreadRecord) (distinct : (ts.map threadKey).Nodup)
    (s : MemoryStore) (sessionID id : String) :
    id ∈ ((ts.foldl putThread s).threadIDsBySession.lookup sessionID).getD [] ↔
      (∃ t ∈ ts, s.threads.lookup (threadKey t) = none ∧ sessionID = t.sessionID ∧ id = t.id) ∨
        id ∈ (s.threadIDsBySession.lookup sessionID).getD [] := by
  induction ts generalizing s with
  | nil => simp
  | cons first ts ih =>
    rw [List.map_cons,List.nodup_cons] at distinct
    have before : ∀ t ∈ ts, (s.putThread first).threads.lookup (threadKey t) =
        s.threads.lookup (threadKey t) := by
      intro t member
      apply putThread_other
      intro same
      exact distinct.1 (List.mem_map.mpr ⟨t,member,same⟩)
    rw [List.foldl_cons,ih distinct.2,putThread_index]
    constructor
    · rintro (⟨t,member,fresh,here,named⟩ | ⟨fresh,here,named⟩ | known)
      · exact .inl ⟨t,List.mem_cons_of_mem _ member,before t member ▸ fresh,here,named⟩
      · exact .inl ⟨first,List.mem_cons_self,fresh,here,named⟩
      · exact .inr known
    · rintro (⟨t,member,fresh,here,named⟩ | known)
      · rcases List.mem_cons.mp member with rfl | later
        · exact .inr (.inl ⟨fresh,here,named⟩)
        · exact .inl ⟨t,later,(before t later).symm ▸ fresh,here,named⟩
      · exact .inr (.inr known)

theorem thread_index (distinct : (w.threads.map threadKey).Nodup) (sessionID id : String) :
    id ∈ ((s.write received order w events result).threadIDsBySession.lookup sessionID).getD [] ↔
      (∃ t ∈ w.threads, s.threads.lookup (threadKey t) = none ∧ sessionID = t.sessionID ∧ id = t.id) ∨
        id ∈ (s.threadIDsBySession.lookup sessionID).getD [] := by
  rw [(write_threads s received order w events result).2,afterThreads,foldl_thread_index _ distinct,
    (afterSession_threads s w).1,(afterSession_threads s w).2]

/-! Events -/

def arrived (seq : Nat) (observedAt receivedAt : Time) (e : EventRecord) : EventRecord :=
  {e with ingestSeq := seq, observedAt, receivedAt}

variable (observedAt : Time)

theorem receive_other_event (s : MemoryStore) (e : EventRecord) (id : String) (other : id ≠ e.id) :
    (receiveEvent observedAt received s e).events.lookup id = s.events.lookup id := by
  simp [receiveEvent,putEvent,appendProjectionChange,other]

theorem receive_own_event (s : MemoryStore) (e : EventRecord) :
    (receiveEvent observedAt received s e).events.lookup e.id =
      some (arrived (s.nextIngestSeq+1) observedAt (received (s.nextIngestSeq+1)) e) := by
  simp [receiveEvent,putEvent,appendProjectionChange,stored,arrived]

theorem receive_own_source (s : MemoryStore) (e : EventRecord) :
    (receiveEvent observedAt received s e).eventBySource.lookup e.sourceKey = some e.id := by
  simp [receiveEvent,putEvent,appendProjectionChange]

theorem receive_other_source (s : MemoryStore) (e : EventRecord) (k : String) (other : k ≠ e.sourceKey) :
    (receiveEvent observedAt received s e).eventBySource.lookup k = s.eventBySource.lookup k := by
  simp [receiveEvent,putEvent,appendProjectionChange,other]

theorem receive_seq (s : MemoryStore) (e : EventRecord) :
    (receiveEvent observedAt received s e).nextIngestSeq = s.nextIngestSeq+1 := rfl

theorem receive_index (s : MemoryStore) (e : EventRecord) (key id : String) :
    id ∈ ((receiveEvent observedAt received s e).eventIDsByThread.lookup key).getD [] ↔
      (s.events.lookup e.id = none ∧ key = recordKey e.sessionID e.threadID ∧ id = e.id) ∨
        id ∈ (s.eventIDsByThread.lookup key).getD [] := by
  simp only [receiveEvent,putEvent,appendProjectionChange]
  cases held : s.events.lookup e.id with
  | none => simp [mem_addToIndex]
  | some existing => simp

structure Received (s s' : MemoryStore) (observedAt : Time) (received : Nat → Time)
    (events : List EventRecord) : Prop where
  seq : s'.nextIngestSeq = s.nextIngestSeq+events.length
  own : ∀ e ∈ events, ∃ seq, s.nextIngestSeq < seq ∧ seq ≤ s'.nextIngestSeq ∧
    s'.events.lookup e.id = some (arrived seq observedAt (received seq) e)
  other : ∀ id, (∀ e ∈ events, e.id ≠ id) → s'.events.lookup id = s.events.lookup id
  source : ∀ e ∈ events, s'.eventBySource.lookup e.sourceKey = some e.id
  otherSource : ∀ k, (∀ e ∈ events, e.sourceKey ≠ k) → s'.eventBySource.lookup k = s.eventBySource.lookup k
  index : ∀ key id, id ∈ (s'.eventIDsByThread.lookup key).getD [] ↔
    (∃ e ∈ events, s.events.lookup e.id = none ∧ key = recordKey e.sessionID e.threadID ∧ id = e.id) ∨
      id ∈ (s.eventIDsByThread.lookup key).getD []

theorem foldl_received (events : List EventRecord) (ids : (events.map (·.id)).Nodup)
    (keys : (events.map (·.sourceKey)).Nodup) (s : MemoryStore) :
    Received s (events.foldl (receiveEvent observedAt received) s) observedAt received events := by
  induction events generalizing s with
  | nil => exact ⟨rfl,by simp,fun _ _ => rfl,by simp,fun _ _ => rfl,by simp⟩
  | cons first events ih =>
    rw [List.map_cons,List.nodup_cons] at ids keys
    have apart : ∀ e ∈ events, e.id ≠ first.id :=
      fun e member same => ids.1 (List.mem_map.mpr ⟨e,member,same⟩)
    have apartKeys : ∀ e ∈ events, e.sourceKey ≠ first.sourceKey :=
      fun e member same => keys.1 (List.mem_map.mpr ⟨e,member,same⟩)
    have rest := ih ids.2 keys.2 (receiveEvent observedAt received s first)
    have next := receive_seq received observedAt s first
    rw [List.foldl_cons]
    refine ⟨?_,?_,?_,?_,?_,?_⟩
    · rw [rest.seq,next,List.length_cons]
      omega
    · intro e member
      rcases List.mem_cons.mp member with rfl | later
      · refine ⟨s.nextIngestSeq+1,by omega,by rw [rest.seq,next]; omega,?_⟩
        rw [rest.other _ apart,receive_own_event]
      · obtain ⟨seq,after,bounded,row⟩ := rest.own e later
        exact ⟨seq,by omega,bounded,row⟩
    · intro id untouched
      rw [rest.other id fun e member => untouched e (List.mem_cons_of_mem _ member)]
      exact receive_other_event received observedAt s first id (Ne.symm (untouched first List.mem_cons_self))
    · intro e member
      rcases List.mem_cons.mp member with rfl | later
      · rw [rest.otherSource _ apartKeys,receive_own_source]
      · exact rest.source e later
    · intro k untouched
      rw [rest.otherSource k fun e member => untouched e (List.mem_cons_of_mem _ member)]
      exact receive_other_source received observedAt s first k (Ne.symm (untouched first List.mem_cons_self))
    · intro key id
      rw [rest.index,receive_index]
      have before : ∀ e ∈ events, (receiveEvent observedAt received s first).events.lookup e.id =
          s.events.lookup e.id := fun e member => receive_other_event received observedAt s first _ (apart e member)
      constructor
      · rintro (⟨e,member,fresh,here,named⟩ | new | known)
        · exact .inl ⟨e,List.mem_cons_of_mem _ member,before e member ▸ fresh,here,named⟩
        · exact .inl ⟨first,List.mem_cons_self,new⟩
        · exact .inr known
      · rintro (⟨e,member,fresh,here,named⟩ | known)
        · rcases List.mem_cons.mp member with rfl | later
          · exact .inr (.inl ⟨fresh,here,named⟩)
          · exact .inl ⟨e,later,(before e later).symm ▸ fresh,here,named⟩
        · exact .inr (.inr known)

theorem write_received (ids : (events.map (·.id)).Nodup) (keys : (events.map (·.sourceKey)).Nodup) :
    Received s (s.write received order w events result) w.observedAt received events := by
  have received' := foldl_received received w.observedAt events ids keys (s.afterThreads w)
  obtain ⟨rows,sources,index,next⟩ := write_events s received order w events result
  obtain ⟨rows',sources',index',next',_⟩ := afterThreads_events s w
  rw [← afterEvents] at received'
  refine ⟨?_,?_,?_,?_,?_,?_⟩
  · rw [next,received'.seq,next']
  · rw [rows,next,← next']
    exact received'.own
  · rw [rows,← rows']
    exact received'.other
  · rw [sources]
    exact received'.source
  · rw [sources,← sources']
    exact received'.otherSource
  · rw [index,← index',← rows']
    exact received'.index

end MemoryStore
end ATape.Canonical
