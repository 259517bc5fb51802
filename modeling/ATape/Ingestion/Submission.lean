import ATape.Ingestion.Prepared

/-! The batches that reach the store: each was prepared from a wire batch, and the
texts hashed on the way belong to a set without collisions. -/
namespace ATape.Ingestion
open Foundation Go SourceIdentity Authorization Canonical

/-- Every text that preparing the batch hashed. -/
def hashedTexts (batch : Batch) (w : WriteBatch) : List String := marshal batch.json::w.hashed

/-- A write batch made of a wire batch by a principal. -/
def Submitted (h : Hash) (texts : Set String) (principal : Principal) (w : WriteBatch) : Prop :=
  ∃ batch, prepareBatch h principal batch = .ok w ∧ ∀ t ∈ hashedTexts batch w, t ∈ texts

theorem threadID_inj {h : Hash} {texts : Set String} (free : h.CollisionFree texts) {scope : String}
    {threads : List Thread} (root : ∃ t, threads.filter (fun t => t.parentSourceThreadID.isNone) = [t])
    (known : ∀ t ∈ threads, sourceKey [scope,"thread",t.sourceThreadID] ∈ texts) {t t' : Thread}
    (member : t ∈ threads) (member' : t' ∈ threads) (same : threadID h scope t = threadID h scope t') :
    t.sourceThreadID = t'.sourceThreadID := by
  have marked : ∀ s : String, "root" ≠ stableID h "t_" s := by
    intro s equal
    have heads := congrArg (fun u => u.toList.head?) equal
    simp [stableID] at heads
  unfold threadID at same
  cases up : t.parentSourceThreadID with
  | none =>
    cases up' : t'.parentSourceThreadID with
    | none =>
      obtain ⟨only,single⟩ := root
      have first : t ∈ threads.filter (fun t => t.parentSourceThreadID.isNone) := by simp [member,up]
      have second : t' ∈ threads.filter (fun t => t.parentSourceThreadID.isNone) := by simp [member',up']
      rw [single,List.mem_singleton] at first second
      rw [first,second]
    | some parent =>
      simp only [up,up'] at same
      exact absurd same (marked _)
  | some parent =>
    cases up' : t'.parentSourceThreadID with
    | none =>
      simp only [up,up'] at same
      exact absurd same.symm (marked _)
    | some parent' =>
      simp only [up,up'] at same
      have keys := stableID_inj free (known t member) (known t' member') same
      simpa using key_injective keys

theorem stableID_length (h : Hash) (mark value : String) :
    (stableID h mark value).toList.length = mark.toList.length+24 := by
  simp [stableID,Hash.short,h.length]

theorem rooted_records {h : Hash} {scope sessionID : String} {threads : List Thread}
    {ids : Table String String} {records : List ThreadRecord} (tree : Threaded h scope threads ids)
    (shapes : List.Forall₂ (ThreadOf h scope sessionID ids) threads records)
    (distinct : (records.map (·.id)).Nodup) {source : String} {n : Nat}
    (rooted : Forest.Rooted (parentOf threads) source n) (known : source ∈ threads.map (·.sourceThreadID)) :
    Forest.Rooted (recordParent records) ((ids.lookup source).getD "") n := by
  have step : ∀ t ∈ threads, recordParent records ((ids.lookup t.sourceThreadID).getD "") =
      t.parentSourceThreadID.map fun p => (ids.lookup p).getD "" := by
    intro t member
    obtain ⟨record,written,shape⟩ := forall₂_mem_left shapes member
    rw [← shape.id,recordParent_mem distinct written,shape.parent]
  induction rooted with
  | root a top =>
    obtain ⟨t,member,rfl⟩ := List.mem_map.mp known
    rw [parentOf_mem tree.distinct member] at top
    exact .root _ (by rw [step t member,top]; rfl)
  | child a b n below rest ih =>
    obtain ⟨t,member,rfl⟩ := List.mem_map.mp known
    rw [parentOf_mem tree.distinct member] at below
    obtain ⟨t',member',same⟩ := tree.parents t member b below
    exact .child _ _ n (by rw [step t member,below]; rfl) (ih (List.mem_map.mpr ⟨t',member',same⟩))

theorem map_eq_of_forall₂ {α β γ : Type} {R : α → β → Prop} {f : α → γ} {g : β → γ} {inputs : List α}
    {outputs : List β} (all : List.Forall₂ R inputs outputs)
    (related : ∀ a ∈ inputs, ∀ b, R a b → g b = f a) : outputs.map g = inputs.map f := by
  induction all with
  | nil => rfl
  | cons first _ ih =>
    rw [List.map_cons,List.map_cons,related _ List.mem_cons_self _ first,
      ih fun a member => related a (List.mem_cons_of_mem _ member)]

theorem Submitted.formed {h : Hash} {texts : Set String} (free : h.CollisionFree texts)
    {principal : Principal} {w : WriteBatch} (submitted : Submitted h texts principal w) : w.Formed h := by
  obtain ⟨batch,ok,known⟩ := submitted
  have prepared := prepareBatch_ok ok
  obtain ⟨ids,tree,threads,events,eventNames,usage,usageKeys⟩ := prepared.records
  have threadIDs : w.threads.map (·.id) = batch.threads.map (threadID h (batchScope principal batch)) := by
    apply map_eq_of_forall₂ threads
    intro t member record shape
    rw [shape.id,tree.mapped t member]
    rfl
  have threadKeys : ∀ t ∈ batch.threads,
      sourceKey [batchScope principal batch,"thread",t.sourceThreadID] ∈ texts := by
    intro t member
    obtain ⟨record,written,shape⟩ := forall₂_mem_left threads member
    apply known
    rw [← shape.sourceKey]
    simp only [hashedTexts,WriteBatch.hashed,List.mem_cons,List.mem_append,List.mem_flatMap]
    exact .inr (.inl (.inl (.inr ⟨record,written,.inl rfl⟩)))
  have distinct : (w.threads.map (·.id)).Nodup := by
    rw [threadIDs]
    apply List.Nodup.map_on _ (List.Nodup.of_map _ tree.distinct)
    intro t member t' member' same
    exact List.inj_on_of_nodup_map tree.distinct member member'
      (threadID_inj free tree.root threadKeys member member' same)
  have eventKeys : (w.events.map (·.sourceKey)).Nodup := by
    have keys : w.events.map (·.sourceKey) = batch.events.map fun e =>
        sourceKey [batchScope principal batch,"event",e.sourceThreadID,e.sourceEventID] :=
      map_eq_of_forall₂ events fun e _ record shape => shape.sourceKey
    rw [keys]
    apply List.Nodup.map_on _ (List.Nodup.of_map _ eventNames)
    intro e member e' member' same
    apply List.inj_on_of_nodup_map eventNames member member'
    have parts := key_injective same
    simp only [List.cons.injEq,and_true,true_and] at parts
    simp only [parts.1,parts.2]
  refine ⟨?_,?_,?_,distinct,?_,?_,?_,?_,?_,?_,?_,?_,eventKeys,?_,?_,?_,usageKeys⟩
  · rw [prepared.session.project,prepared.project]
  · rw [prepared.session.id,sessionID,stableID_length]
    rfl
  · intro t member
    obtain ⟨_,_,shape⟩ := forall₂_mem threads member
    exact shape.session
  · intro t member p parent
    obtain ⟨input,known,shape⟩ := forall₂_mem threads member
    rw [shape.parent] at parent
    obtain ⟨source,up,mapped⟩ := Option.map_eq_some_iff.mp parent
    obtain ⟨input',known',rfl⟩ := tree.parents input known source up
    obtain ⟨t',member',shape'⟩ := forall₂_mem_left threads known'
    exact ⟨t',member',by rw [shape'.id,mapped]⟩
  · obtain ⟨top,single⟩ := tree.root
    have inside : top ∈ batch.threads.filter fun t => t.parentSourceThreadID.isNone := by simp [single]
    obtain ⟨known,orphan⟩ := List.mem_filter.mp inside
    have nobody := Option.isNone_iff_eq_none.mp orphan
    obtain ⟨record,written,shape⟩ := forall₂_mem_left threads known
    refine ⟨record,written,?_,?_⟩
    · rw [shape.id,tree.mapped top known,threadID,nobody]
      rfl
    · rw [shape.parent,nobody]
      rfl
  · intro t member top
    obtain ⟨input,known,shape⟩ := forall₂_mem threads member
    have nobody : input.parentSourceThreadID = none := by
      rw [shape.parent] at top
      exact Option.map_eq_none_iff.mp top
    rw [shape.id,tree.mapped input known,threadID,nobody]
    rfl
  · intro t member
    obtain ⟨input,known,shape⟩ := forall₂_mem threads member
    obtain ⟨n,rooted⟩ := tree.rooted input known
    rw [shape.id]
    exact ⟨n,rooted_records tree threads distinct rooted (List.mem_map.mpr ⟨input,known,rfl⟩)⟩
  · intro e member
    obtain ⟨_,_,shape⟩ := forall₂_mem events member
    exact shape.session
  · intro e member
    obtain ⟨input,_,shape⟩ := forall₂_mem events member
    obtain ⟨t,known,source⟩ := tree.source _ _ shape.thread
    obtain ⟨record,written,shape'⟩ := forall₂_mem_left threads known
    refine ⟨record,written,?_⟩
    rw [shape'.id,source,shape.thread]
    rfl
  · intro e member
    obtain ⟨_,_,shape⟩ := forall₂_mem events member
    exact shape.id
  · intro e member
    obtain ⟨_,_,shape⟩ := forall₂_mem events member
    exact ⟨_,_,prepared.session.id,shape.sourceKey⟩
  · apply List.Nodup.map_on _ (List.Nodup.of_map _ eventKeys)
    intro e member e' member' same
    have hashedKey : ∀ e ∈ w.events, e.sourceKey ∈ texts := by
      intro e member
      apply known
      simp only [hashedTexts,WriteBatch.hashed,List.mem_cons,List.mem_append,List.mem_flatMap]
      exact .inr (.inl (.inr ⟨e,member,.inl rfl⟩))
    obtain ⟨_,_,shape⟩ := forall₂_mem events member
    obtain ⟨_,_,shape'⟩ := forall₂_mem events member'
    rw [shape.id,shape'.id] at same
    exact List.inj_on_of_nodup_map eventKeys member member'
      (stableID_inj free (hashedKey e member) (hashedKey e' member') same)
  · intro u member
    obtain ⟨_,_,shape⟩ := forall₂_mem usage member
    exact shape.session
  · intro u member
    obtain ⟨_,_,shape⟩ := forall₂_mem usage member
    exact ⟨_,_,prepared.session.id,shape.sourceKey⟩

theorem Submitted.bound {h : Hash} {texts : Set String} {principal : Principal} {w : WriteBatch}
    (submitted : Submitted h texts principal w) : w.Bound h texts := by
  obtain ⟨batch,ok,known⟩ := submitted
  have prepared := prepareBatch_ok ok
  obtain ⟨ids,tree,threads,events,_,usage,_⟩ := prepared.records
  simp only [hashedTexts,WriteBatch.hashed,List.mem_cons,List.mem_append,List.mem_flatMap] at known
  refine ⟨⟨⟨prepared.session.digest,?_⟩,prepared.session.updated⟩,?_,?_,?_⟩
  · intro t body
    exact known t (.inr (.inl (.inl (.inl body))))
  · intro t member
    obtain ⟨_,_,shape⟩ := forall₂_mem threads member
    exact ⟨⟨shape.digest,fun text body => known text (.inr (.inl (.inl (.inr ⟨t,member,.inr body⟩))))⟩⟩
  · intro e member
    obtain ⟨_,_,shape⟩ := forall₂_mem events member
    obtain ⟨observed,received,seq⟩ := shape.undated
    have blank : ({e with digest := "", observedAt := .zero, receivedAt := .zero, ingestSeq := 0} :
        EventRecord) = {e with digest := ""} := by
      cases e
      simp_all
    refine ⟨?_,shape.occurred⟩
    rw [blank]
    exact ⟨shape.digest,fun text body => known text (.inr (.inl (.inr ⟨e,member,.inr body⟩)))⟩
  · intro u member
    obtain ⟨_,_,shape⟩ := forall₂_mem usage member
    exact ⟨⟨shape.digest,fun text body => known text (.inr (.inr ⟨u,member,body⟩))⟩⟩

theorem prepareBatch_user {h : Hash} {principal principal' : Principal}
    (same : principal.userID = principal'.userID) (batch : Batch) :
    prepareBatch h principal batch = prepareBatch h principal' batch := by
  have events : ∀ scope sessionID ids index seen (inputs : List Event),
      normalizeEvents h principal batch scope sessionID ids index seen inputs =
        normalizeEvents h principal' batch scope sessionID ids index seen inputs := by
    intro scope sessionID ids index seen inputs
    induction inputs generalizing index seen with
    | nil => rfl
    | cons input others ih =>
      simp only [normalizeEvents,ih,normalizeEvent,normalizeRawReference,same]
  simp only [prepareBatch,normalizeBatch,checkBatch,batchScope,batchKey,normalizeSession,same,events]

theorem Submitted.eq {h : Hash} {texts : Set String} (free : h.CollisionFree texts)
    {principal principal' : Principal} {w w' : WriteBatch} (left : Submitted h texts principal w)
    (right : Submitted h texts principal' w') (key : w.key = w'.key) (digest : w.digest = w'.digest) :
    w = w' := by
  obtain ⟨batch,ok,known⟩ := left
  obtain ⟨batch',ok',known'⟩ := right
  have prepared := prepareBatch_ok ok
  have prepared' := prepareBatch_ok ok'
  rw [prepared.digest,prepared'.digest] at digest
  have texts' := free.hex (known _ List.mem_cons_self) (known' _ List.mem_cons_self) digest
  have bodies := marshal_injective batch.json_integral batch'.json_integral texts'
  have batches := Batch.json_inj prepared.explicit prepared'.explicit bodies
  subst batches
  rw [prepared.key,prepared'.key] at key
  have parts := key_injective key
  simp only [List.cons.injEq] at parts
  rw [prepareBatch_user parts.2.1,ok'] at ok
  exact (Except.ok.inj ok).symm

end ATape.Ingestion
