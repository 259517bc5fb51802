import ATape.Canonical.Formed
import ATape.Ingestion.Normalize

/-! What a prepared batch guarantees the store: records of one session, distinct
identities, threads that form a tree, and digests that bind their records. -/
namespace ATape.Ingestion
open Foundation Go SourceIdentity Authorization
open Canonical (SessionRecord ThreadRecord EventRecord UsageRecord WriteBatch Plain DigestOf)

theorem required_ok {field value : String} {maxBytes : Nat} {u : Unit} :
    required field value maxBytes = .ok u ↔ trimSpace value ≠ "" ∧ len value ≤ maxBytes := by
  simp [required,bind_ok]

theorem optional_ok {field value : String} {maxBytes : Nat} {u : Unit} :
    optional field value maxBytes = .ok u ↔ len value ≤ maxBytes := by
  simp [optional]

theorem timestamp_ok {field value : String} {t : Time} (ok : timestamp field value = .ok t) :
    parseRFC3339 value = some t ∧ t.truncateMicrosecond.isZero = false := by
  simp only [timestamp,bind_ok,present_ok,failWhen_ok,pure_ok,exists_const] at ok
  obtain ⟨parsed,read,known,rfl⟩ := ok
  exact ⟨read,by simpa using known⟩

theorem truncate_zero (t : Time) (zero : t.isZero = true) : t.truncateMicrosecond.isZero = true := by
  simp only [Time.isZero,decide_eq_true_eq,Time.truncateMicrosecond] at zero ⊢
  simp [zero]

theorem timestamp_plain {field value : String} {t : Time} (ok : timestamp field value = .ok t) : Plain t := by
  intro zero
  have known := (timestamp_ok ok).2
  rw [truncate_zero t zero] at known
  cases known

theorem sourceTimestamp_ok {field value profile : String} {unknown : Bool} {t : Time}
    (ok : sourceTimestamp field value unknown profile = .ok t) :
    Plain t ∧ (unknown = true → value = "") := by
  unfold sourceTimestamp at ok
  split at ok
  next absent =>
    simp only [bind_ok,failWhen_ok,pure_ok,exists_const,not_or,not_not] at ok
    obtain ⟨⟨_,empty⟩,rfl⟩ := ok
    exact ⟨fun _ => rfl,fun _ => empty⟩
  next known => exact ⟨timestamp_plain ok,fun absent => absurd absent known⟩

theorem digest_ok {h : Hash} {body : Option Json} {d : String} (ok : digest h body = .ok d) :
    ∃ j, body = some j ∧ d = h.hex (marshal j) := by
  simp only [digest,bind_ok,present_ok,pure_ok] at ok
  obtain ⟨j,written,rfl⟩ := ok
  exact ⟨j,written,rfl⟩

/-! Threads -/

theorem collectThreadIDs_valid {h : Hash} {scope : String} {index : Nat} {ids ids' : Table String String}
    {threads : List Thread} (ok : collectThreadIDs h scope index ids threads = .ok ids') :
    ∀ t ∈ threads, trimSpace t.sourceThreadID ≠ "" ∧ len t.sourceThreadID ≤ 500 := by
  induction threads generalizing index ids with
  | nil => simp
  | cons thread others ih =>
    simp only [collectThreadIDs,bind_ok,required_ok,exists_const] at ok
    obtain ⟨valid,_,_,ok⟩ := ok
    intro t member
    rcases List.mem_cons.mp member with rfl | member
    · exact valid
    · exact ih ok t member

theorem collectThreadIDs_ok {h : Hash} {scope : String} {index : Nat} {ids ids' : Table String String}
    {threads : List Thread} (ok : collectThreadIDs h scope index ids threads = .ok ids') :
    (threads.map (·.sourceThreadID)).Nodup ∧
      (∀ t ∈ threads, ids.lookup t.sourceThreadID = none) ∧
      ∀ k, ids'.lookup k =
        ((threads.find? fun t => t.sourceThreadID = k).map (threadID h scope)).or (ids.lookup k) := by
  induction threads generalizing index ids with
  | nil =>
    simp only [collectThreadIDs,pure_ok] at ok
    subst ok
    simp
  | cons thread others ih =>
    simp only [collectThreadIDs,bind_ok,failWhen_ok,exists_const] at ok
    obtain ⟨_,_,fresh,ok⟩ := ok
    obtain ⟨distinct,missing,found⟩ := ih ok
    have unknown : ids.lookup thread.sourceThreadID = none := by simpa using fresh
    have apart : ∀ t ∈ others, t.sourceThreadID ≠ thread.sourceThreadID := by
      intro t member same
      have absent := missing t member
      rw [Table.lookup_insert,if_pos same] at absent
      cases absent
    refine ⟨?_,?_,?_⟩
    · rw [List.map_cons,List.nodup_cons]
      refine ⟨?_,distinct⟩
      intro member
      obtain ⟨t,member,same⟩ := List.mem_map.mp member
      exact apart t member same
    · intro t member
      rcases List.mem_cons.mp member with rfl | member
      · exact unknown
      · have absent := missing t member
        rw [Table.lookup_insert,if_neg (apart t member)] at absent
        exact absent
    · intro k
      rw [found k,Table.lookup_insert,List.find?_cons]
      by_cases same : thread.sourceThreadID = k
      · have nobody : others.find? (fun t => t.sourceThreadID = k) = none := by
          rw [List.find?_eq_none]
          intro t member
          simpa [← same] using apart t member
        simp [same,nobody]
      · simp [same,Ne.symm same]

theorem checkParents_ok {ids : Table String String} {index : Nat} {threads : List Thread} {u : Unit}
    (ok : checkParents ids index threads = .ok u) :
    ∀ t ∈ threads, ∀ p, t.parentSourceThreadID = some p → ∃ id, ids.lookup p = some id := by
  induction threads generalizing index with
  | nil => simp
  | cons thread others ih =>
    simp only [checkParents,bind_ok,failWhen_ok,exists_const] at ok
    obtain ⟨_,known,ok⟩ := ok
    intro t member p parent
    rcases List.mem_cons.mp member with rfl | member
    · cases found : ids.lookup p with
      | none => simp [parent,found] at known
      | some id => exact ⟨id,rfl⟩
    · exact ih ok t member p parent

theorem cycleFrom_walk {threads : List Thread} {fuel : Nat} {seen : List String} {current : String}
    (distinct : seen.Nodup) (part : ∀ a ∈ seen, a ∈ threads.map (·.sourceThreadID))
    (enough : threads.length < fuel+seen.length) :
    Forest.Walk (parentOf threads) seen current (cycleFrom threads fuel seen current) := by
  induction fuel generalizing seen current with
  | zero =>
    -- the walk would have met more threads than there are
    have bounded := (distinct.subperm part).length_le
    simp only [List.length_map] at bounded
    omega
  | succ fuel ih =>
    unfold cycleFrom
    split
    next known => exact .repeats seen current known
    next fresh =>
      cases up : parentOf threads current with
      | none => exact .ends seen current fresh up
      | some parent =>
        have listed : current ∈ threads.map (·.sourceThreadID) := by
          obtain ⟨t,found,_⟩ := Option.bind_eq_some_iff.mp up
          have member := List.mem_reverse.mp (List.mem_of_find?_eq_some found)
          exact List.mem_map.mpr ⟨t,member,by simpa using List.find?_some found⟩
        apply Forest.Walk.steps seen current parent _ fresh up
        apply ih (List.nodup_cons.mpr ⟨fresh,distinct⟩)
        · intro a member
          rcases List.mem_cons.mp member with rfl | earlier
          · exact listed
          · exact part a earlier
        · rw [List.length_cons]
          omega

theorem walk_parents (threads : List Thread) (id : String) :
    Forest.Walk (parentOf threads) [] id (cycleFrom threads (threads.length+1) [] id) :=
  cycleFrom_walk List.nodup_nil (by simp) (by simp)

theorem cycle_listed {threads : List Thread} {id : String}
    (cycle : Relation.TransGen (Forest.Above (parentOf threads)) id id) : ∃ t ∈ threads, t.sourceThreadID = id := by
  obtain ⟨parent,up,_⟩ := Relation.TransGen.head'_iff.mp cycle
  obtain ⟨t,found,_⟩ := Option.bind_eq_some_iff.mp up
  exact ⟨t,List.mem_reverse.mp (List.mem_of_find?_eq_some found),by simpa using List.find?_some found⟩

theorem threadCycle_empty {order : List String} {threads : List Thread}
    (unnamed : ¬Relation.TransGen (Forest.Above (parentOf threads)) "" "")
    (nothing : threadCycle order threads = "") :
    ∀ id ∈ order, cycleFrom threads (threads.length+1) [] id = none := by
  unfold threadCycle at nothing
  cases found : order.findSome? (fun id => cycleFrom threads (threads.length+1) [] id) with
  | none => exact List.findSome?_eq_none_iff.mp found
  | some a =>
    rw [found,Option.getD_some] at nothing
    subst nothing
    obtain ⟨id,_,repeated⟩ := List.exists_of_findSome?_eq_some found
    exact absurd ((walk_parents threads id).cycle (by simp) repeated) unnamed

/-- The threads of a batch as a tree over their source names. -/
structure Threaded (h : Hash) (scope : String) (threads : List Thread) (ids : Table String String) : Prop where
  distinct : (threads.map (·.sourceThreadID)).Nodup
  mapped : ∀ t ∈ threads, ids.lookup t.sourceThreadID = some (threadID h scope t)
  source : ∀ k id, ids.lookup k = some id → ∃ t ∈ threads, t.sourceThreadID = k
  root : ∃ t, threads.filter (fun t => t.parentSourceThreadID.isNone) = [t]
  parents : ∀ t ∈ threads, ∀ p, t.parentSourceThreadID = some p → ∃ t' ∈ threads, t'.sourceThreadID = p
  rooted : ∀ t ∈ threads, ∃ n, Forest.Rooted (parentOf threads) t.sourceThreadID n

theorem parentOf_mem {threads : List Thread} (distinct : (threads.map (·.sourceThreadID)).Nodup)
    {t : Thread} (member : t ∈ threads) : parentOf threads t.sourceThreadID = t.parentSourceThreadID := by
  have found : threads.reverse.find? (fun t' => t'.sourceThreadID = t.sourceThreadID) = some t := by
    cases found : threads.reverse.find? (fun t' => t'.sourceThreadID = t.sourceThreadID) with
    | none => exact absurd (List.find?_eq_none.mp found t (List.mem_reverse.mpr member)) (by simp)
    | some t' =>
      have same : t'.sourceThreadID = t.sourceThreadID := by simpa using List.find?_some found
      have listed := List.mem_reverse.mp (List.mem_of_find?_eq_some found)
      rw [List.inj_on_of_nodup_map distinct listed member same]
  simp [parentOf,found]

theorem normalizeThreadIDs_ok {h : Hash} {scope : String} {threads : List Thread}
    {ids : Table String String} (ok : normalizeThreadIDs h scope threads = .ok ids) :
    Threaded h scope threads ids := by
  simp only [normalizeThreadIDs,bind_ok,failWhen_ok,exists_const,not_not] at ok
  obtain ⟨collected,gathered,single,_,parents,acyclic,ok⟩ := ok
  simp only [pure_ok] at ok
  subst ok
  obtain ⟨distinct,_,found⟩ := collectThreadIDs_ok gathered
  simp only [AList.lookup_empty,Option.or_none] at found
  have source : ∀ k id, collected.lookup k = some id → ∃ t ∈ threads, t.sourceThreadID = k := by
    intro k id known
    rw [found k] at known
    obtain ⟨t,first,_⟩ := Option.map_eq_some_iff.mp known
    exact ⟨t,List.mem_of_find?_eq_some first,by simpa using List.find?_some first⟩
  have closed : ∀ t ∈ threads, ∀ p, t.parentSourceThreadID = some p →
      ∃ t' ∈ threads, t'.sourceThreadID = p := by
    intro t member p parent
    obtain ⟨id,known⟩ := checkParents_ok parents t member p parent
    exact source p id known
  have unnamed : ¬Relation.TransGen (Forest.Above (parentOf threads)) "" "" := by
    intro cycle
    obtain ⟨t,member,blank⟩ := cycle_listed cycle
    exact (collectThreadIDs_valid gathered t member).1 (by rw [blank]; rfl)
  refine ⟨distinct,?_,source,?_,closed,?_⟩
  · intro t member
    rw [found t.sourceThreadID]
    cases first : threads.find? (fun t' => t'.sourceThreadID = t.sourceThreadID) with
    | none => exact absurd (List.find?_eq_none.mp first t member) (by simp)
    | some t' =>
      have same : t'.sourceThreadID = t.sourceThreadID := by simpa using List.find?_some first
      rw [List.inj_on_of_nodup_map distinct (List.mem_of_find?_eq_some first) member same]
      rfl
  · rw [List.countP_eq_length_filter] at single
    exact List.length_eq_one_iff.mp single
  · intro t member
    apply (walk_parents threads t.sourceThreadID).rooted
    exact threadCycle_empty unnamed acyclic _ (List.mem_map_of_mem member)

/-- The record of a thread, digest aside. -/
structure ThreadOf (h : Hash) (scope sessionID : String) (ids : Table String String) (input : Thread)
    (record : ThreadRecord) : Prop where
  id : record.id = (ids.lookup input.sourceThreadID).getD ""
  session : record.sessionID = sessionID
  sourceKey : record.sourceKey = sourceKey [scope,"thread",input.sourceThreadID]
  parent : record.parentThreadID = input.parentSourceThreadID.map fun p => (ids.lookup p).getD ""
  revision : record.revision = input.revision
  digest : DigestOf h (ThreadRecord.json {record with digest := ""}) record.digest

theorem normalizeThread_ok {h : Hash} {scope sessionID : String} {ids : Table String String} {index : Nat}
    {input : Thread} {record : ThreadRecord}
    (ok : normalizeThread h scope sessionID ids index input = .ok record) :
    ThreadOf h scope sessionID ids input record := by
  simp only [normalizeThread,bind_ok,failWhen_ok,pure_ok,exists_const] at ok
  obtain ⟨_,_,_,_,_,d,digested,rfl⟩ := ok
  exact ⟨rfl,rfl,rfl,rfl,rfl,digest_ok digested⟩

theorem normalizeThreads_ok {h : Hash} {scope sessionID : String} {ids : Table String String} {index : Nat}
    {inputs : List Thread} {records : List ThreadRecord}
    (ok : normalizeThreads h scope sessionID ids index inputs = .ok records) :
    List.Forall₂ (ThreadOf h scope sessionID ids) inputs records := by
  induction inputs generalizing index records with
  | nil =>
    simp only [normalizeThreads,pure_ok] at ok
    subst ok
    exact .nil
  | cons input others ih =>
    simp only [normalizeThreads,bind_ok,pure_ok] at ok
    obtain ⟨record,first,rest,later,rfl⟩ := ok
    exact .cons (normalizeThread_ok first) (ih later)

/-! Events and usage -/

/-- The record of an event, as far as its identity goes. -/
structure EventOf (h : Hash) (scope sessionID : String) (ids : Table String String) (input : Event)
    (record : EventRecord) : Prop where
  id : record.id = stableID h "e_" record.sourceKey
  session : record.sessionID = sessionID
  thread : ids.lookup input.sourceThreadID = some record.threadID
  sourceKey : record.sourceKey = sourceKey [scope,"event",input.sourceThreadID,input.sourceEventID]
  occurred : Plain record.occurredAt
  undated : record.observedAt = .zero ∧ record.receivedAt = .zero ∧ record.ingestSeq = 0
  explicit : input.occurredAtUnknown = true → input.occurredAt = ""
  digest : DigestOf h (EventRecord.json {record with digest := ""}) record.digest

theorem normalizeEvent_ok {h : Hash} {principal : Principal} {batch : Batch} {scope sessionID : String}
    {ids : Table String String} {index : Nat} {seen : List String} {input : Event} {record : EventRecord}
    (ok : normalizeEvent h principal batch scope sessionID ids index seen input = .ok record) :
    EventOf h scope sessionID ids input record ∧
      sourceKey [input.sourceThreadID,input.sourceEventID] ∉ seen := by
  simp only [normalizeEvent,bind_ok,failWhen_ok,present_ok,pure_ok,required_ok,exists_const] at ok
  obtain ⟨_,fresh,threadID,thread,_,_,_,_,_,_,rawRef,_,_,_,_,occurredAt,occurred,_,⟨text,label⟩,_,child,_,
    d,digested,rfl⟩ := ok
  obtain ⟨plain,explicit⟩ := sourceTimestamp_ok occurred
  exact ⟨⟨rfl,rfl,thread,rfl,plain,⟨rfl,rfl,rfl⟩,explicit,digest_ok digested⟩,fresh⟩

theorem normalizeEvents_ok {h : Hash} {principal : Principal} {batch : Batch} {scope sessionID : String}
    {ids : Table String String} {index : Nat} {seen : List String} {inputs : List Event}
    {records : List EventRecord}
    (ok : normalizeEvents h principal batch scope sessionID ids index seen inputs = .ok records) :
    List.Forall₂ (EventOf h scope sessionID ids) inputs records ∧
      (inputs.map fun e => sourceKey [e.sourceThreadID,e.sourceEventID]).Nodup ∧
      ∀ e ∈ inputs, sourceKey [e.sourceThreadID,e.sourceEventID] ∉ seen := by
  induction inputs generalizing index seen records with
  | nil =>
    simp only [normalizeEvents,pure_ok] at ok
    subst ok
    exact ⟨.nil,List.nodup_nil,by simp⟩
  | cons input others ih =>
    simp only [normalizeEvents,bind_ok,pure_ok] at ok
    obtain ⟨record,first,rest,later,rfl⟩ := ok
    obtain ⟨shape,fresh⟩ := normalizeEvent_ok first
    obtain ⟨shapes,distinct,unseen⟩ := ih later
    refine ⟨.cons shape shapes,?_,?_⟩
    · rw [List.map_cons,List.nodup_cons]
      refine ⟨?_,distinct⟩
      intro member
      obtain ⟨e,member,same⟩ := List.mem_map.mp member
      exact unseen e member (by simp [same])
    · intro e member
      rcases List.mem_cons.mp member with rfl | member
      · exact fresh
      · exact fun known => unseen e member (List.mem_cons_of_mem _ known)

structure UsageOf (h : Hash) (scope sessionID : String) (ids : Table String String) (input : Usage)
    (record : UsageRecord) : Prop where
  session : record.sessionID = sessionID
  thread : ids.lookup input.sourceThreadID = some record.threadID
  sourceKey : record.sourceKey = sourceKey [scope,"usage",input.sourceThreadID,input.sourceUsageID]
  digest : DigestOf h (UsageRecord.json {record with digest := ""}) record.digest

theorem normalizeUsageRecord_ok {h : Hash} {scope sessionID : String} {ids : Table String String}
    {index : Nat} {seen : List String} {input : Usage} {record : UsageRecord}
    (ok : normalizeUsageRecord h scope sessionID ids index seen input = .ok record) :
    UsageOf h scope sessionID ids input record ∧ record.sourceKey ∉ seen := by
  simp only [normalizeUsageRecord,bind_ok,failWhen_ok,present_ok,pure_ok,required_ok,exists_const] at ok
  obtain ⟨_,threadID,thread,fresh,_,_,occurredAt,_,_,_,_,d,digested,rfl⟩ := ok
  exact ⟨⟨rfl,thread,rfl,digest_ok digested⟩,fresh⟩

theorem normalizeUsageRecords_ok {h : Hash} {scope sessionID : String} {ids : Table String String}
    {index : Nat} {seen : List String} {inputs : List Usage} {records : List UsageRecord}
    (ok : normalizeUsageRecords h scope sessionID ids index seen inputs = .ok records) :
    List.Forall₂ (UsageOf h scope sessionID ids) inputs records ∧
      (records.map (·.sourceKey)).Nodup ∧ ∀ u ∈ records, u.sourceKey ∉ seen := by
  induction inputs generalizing index seen records with
  | nil =>
    simp only [normalizeUsageRecords,pure_ok] at ok
    subst ok
    exact ⟨.nil,List.nodup_nil,by simp⟩
  | cons input others ih =>
    simp only [normalizeUsageRecords,bind_ok,pure_ok] at ok
    obtain ⟨record,first,rest,later,rfl⟩ := ok
    obtain ⟨shape,fresh⟩ := normalizeUsageRecord_ok first
    obtain ⟨shapes,distinct,unseen⟩ := ih later
    refine ⟨.cons shape shapes,?_,?_⟩
    · rw [List.map_cons,List.nodup_cons]
      refine ⟨?_,distinct⟩
      intro member
      obtain ⟨u,member,same⟩ := List.mem_map.mp member
      exact unseen u member (by simp [same])
    · intro u member
      rcases List.mem_cons.mp member with rfl | member
      · exact fresh
      · exact fun known => unseen u member (List.mem_cons_of_mem _ known)

/-! The batch -/

structure SessionOf (h : Hash) (principal : Principal) (batch : Batch) (record : SessionRecord) : Prop where
  id : record.id = sessionID h batch.projectID principal.userID batch.source.installationID
    batch.source.adapterID batch.session.sourceSessionID
  project : record.projectID = batch.projectID
  user : record.capturedByUserID = principal.userID
  sourceKey : record.sourceKey = sessionSourceKey batch.projectID principal.userID
    batch.source.installationID batch.source.adapterID batch.session.sourceSessionID
  updated : Plain record.updatedAt
  digest : DigestOf h (SessionRecord.json {record with digest := ""}) record.digest

theorem normalizeSession_ok {h : Hash} {principal : Principal} {batch : Batch} {updatedAt : Time}
    {record : SessionRecord} (plain : Plain updatedAt)
    (ok : normalizeSession h principal batch updatedAt = .ok record) :
    SessionOf h principal batch record := by
  simp only [normalizeSession,bind_ok,pure_ok] at ok
  obtain ⟨d,digested,rfl⟩ := ok
  exact ⟨rfl,rfl,rfl,rfl,plain,digest_ok digested⟩

theorem checkBatch_ok {principal : Principal} {batch : Batch} {observedAt updatedAt : Time}
    (ok : checkBatch principal batch = .ok (observedAt,updatedAt)) :
    Plain updatedAt ∧ (batch.session.updatedAtUnknown = true → batch.session.updatedAt = "") := by
  simp only [checkBatch,bind_ok,failWhen_ok,pure_ok,required_ok,optional_ok,exists_const] at ok
  obtain ⟨_,_,_,observed,_,_,_,_,_,_,_,_,_,_,_,_,updated,read,_,_,_,_,_,_,_,same⟩ := ok
  cases same
  exact sourceTimestamp_ok read

/-- A batch and the write batch made of it. -/
structure PreparedFrom (h : Hash) (principal : Principal) (batch : Batch) (w : WriteBatch) : Prop where
  key : w.key = batchKey principal batch
  digest : w.digest = h.hex (marshal batch.json)
  project : w.projectID = batch.projectID
  explicit : batch.Explicit
  session : SessionOf h principal batch w.session
  records : ∃ ids, Threaded h (batchScope principal batch) batch.threads ids ∧
    List.Forall₂ (ThreadOf h (batchScope principal batch) w.session.id ids) batch.threads w.threads ∧
    List.Forall₂ (EventOf h (batchScope principal batch) w.session.id ids) batch.events w.events ∧
    (batch.events.map fun e => sourceKey [e.sourceThreadID,e.sourceEventID]).Nodup ∧
    List.Forall₂ (UsageOf h (batchScope principal batch) w.session.id ids) batch.usage w.usage ∧
    (w.usage.map (·.sourceKey)).Nodup

theorem prepareBatch_ok {h : Hash} {principal : Principal} {batch : Batch} {w : WriteBatch}
    (ok : prepareBatch h principal batch = .ok w) : PreparedFrom h principal batch w := by
  simp only [prepareBatch,normalizeBatch,bind_ok,pure_ok] at ok
  obtain ⟨⟨observedAt,updatedAt⟩,checked,ids,mapped,threads,threaded,events,evented,usage,used,session,
    sessioned,d,digested,rfl⟩ := ok
  obtain ⟨plain,explicit⟩ := checkBatch_ok checked
  have owner := normalizeSession_ok plain sessioned
  obtain ⟨j,same,rfl⟩ := digest_ok digested
  cases same
  obtain ⟨eventShapes,distinct,_⟩ := normalizeEvents_ok evented
  simp only [normalizeUsage,bind_ok,failWhen_ok,exists_const] at used
  obtain ⟨usageShapes,usageKeys,_⟩ := normalizeUsageRecords_ok used.2
  refine ⟨rfl,rfl,rfl,⟨explicit,?_⟩,owner,ids,normalizeThreadIDs_ok mapped,?_,?_,distinct,?_,usageKeys⟩
  · intro e member
    obtain ⟨record,_,shape⟩ := forall₂_mem_left eventShapes member
    exact shape.explicit
  · simpa only [owner.id] using normalizeThreads_ok threaded
  · simpa only [owner.id] using eventShapes
  · simpa only [owner.id] using usageShapes

end ATape.Ingestion
