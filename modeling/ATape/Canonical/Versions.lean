import ATape.Canonical.Convergence
import ATape.Ingestion.Message

/-! The version of an event. Its fingerprint is that of another event exactly when both have one content, so
publications and batches find the same conflicts. -/
namespace ATape.Canonical
open Foundation Go SourceIdentity

/-- The event whose body is hashed for its version. -/
def EventRecord.versioned (e : EventRecord) : EventRecord :=
  {e with
    digest := ""
    adapterVersion := ""
    schemaVersion := ""
    observedAt := .zero
    receivedAt := .zero
    ingestSeq := 0
    occurredAt := e.occurredAt.utc}

def EventRecord.versionBody (e : EventRecord) : Option String := e.versioned.json.map marshal

theorem fingerprint_eq (h : Hash) (e : EventRecord) : eventVersionFingerprint h e = e.versionBody.map h.hex := by
  rw [EventRecord.versionBody,Option.map_map]
  rfl

theorem utc_plain (t : Time) : Plain t.utc := by
  intro unknown
  have zero : t.nanos = 0 := of_decide_eq_true unknown
  rw [Time.utc,zero]
  rfl

theorem versioned_iff {a b : EventRecord} : a.versioned = b.versioned ↔ sameEventContent a b = true := by
  cases a
  cases b
  simp only [EventRecord.versioned,sameEventContent,EventRecord.content,Time.utc,Time.equal,EventRecord.mk.injEq,
    Time.mk.injEq,Bool.and_eq_true,decide_eq_true_eq,true_and,and_true]
  constructor
  · intro same
    tauto
  · intro same
    tauto

theorem versionBody_known {e : EventRecord} (known : e.occurredAt.utc.Strict) : ∃ body, e.versionBody = some body := by
  have zero : ∃ j, timeJson .zero = some j := by
    have strict : Time.zero.Strict := by decide
    exact ⟨_,by rw [timeJson,Time.marshalText,if_pos strict]; rfl⟩
  have occurred : ∃ j, sourceTimeJson e.occurredAt.utc = some j := by
    unfold sourceTimeJson
    split
    next => exact ⟨none,rfl⟩
    next => exact ⟨_,by rw [timeJson,Time.marshalText,if_pos known]; rfl⟩
  obtain ⟨j,zero⟩ := zero
  obtain ⟨occurred,moment⟩ := occurred
  have written : e.versioned.json = some (e.versioned.body j j occurred) := by
    unfold EventRecord.json EventRecord.versioned
    dsimp only
    rw [zero,moment]
    rfl
  exact ⟨marshal _,by rw [EventRecord.versionBody,written]; rfl⟩

theorem versionBody_iff {a b : EventRecord} {x y : String} (left : a.versionBody = some x) (right : b.versionBody = some y) :
    x = y ↔ sameEventContent a b = true := by
  rw [← versioned_iff]
  obtain ⟨j,written,rfl⟩ := Option.map_eq_some_iff.mp left
  obtain ⟨j',written',rfl⟩ := Option.map_eq_some_iff.mp right
  constructor
  · intro same
    have bodies := marshal_injective (EventRecord.json_integral written) (EventRecord.json_integral written') same
    rw [← bodies] at written'
    exact EventRecord.json_inj (utc_plain _) (utc_plain _) written written'
  · intro same
    rw [same] at written
    rw [Option.some.inj (written.symm.trans written')]

/-- A store holds an event of the same source and version as another one. -/
structure MemoryStore.HoldsVersion (s : MemoryStore) (held next : EventRecord) : Prop where
  source : ∃ id, s.eventBySource.lookup next.sourceKey = some id ∧ s.events.lookup id = some held
  session : held.sessionID = next.sessionID
  thread : held.threadID = next.threadID
  version : held.version = next.version

theorem MemoryStore.HoldsVersion.conflict {s : MemoryStore} {held next : EventRecord} (holds : s.HoldsVersion held next)
    (bound : held.digest = next.digest → sameEventContent held next = true) :
    s.classify next = .error (.conflict next.sourceKey "event revision has different content") ↔
      sameEventContent held next = false := by
  obtain ⟨⟨id,known,row⟩,session,thread,version⟩ := holds
  obtain ⟨projection,revision⟩ := version_eq.mp version
  have turned : sameEventContent next held = sameEventContent held next := by
    rw [Bool.eq_iff_iff]
    exact ⟨sameEventContent_equivalence.symm,sameEventContent_equivalence.symm⟩
  unfold classify
  rw [known]
  dsimp only
  rw [row,Option.getD_some,failWhen_neg _ (by simp [session,thread]),ok_bind,if_neg (by omega),if_neg (by omega)]
  by_cases same : sameEventContent held next = true
  · rw [if_pos ⟨projection.symm,revision.symm,.inr (turned.trans same)⟩,same]
    constructor
    · intro refused
      cases refused
    · intro differs
      cases differs
  · have digests : ¬next.digest = held.digest := fun equal => same (bound equal.symm)
    rw [if_neg (by rw [turned]; tauto),if_pos ⟨projection.symm,revision.symm⟩]
    exact iff_of_true rfl (by simpa using same)

/-- Two events whose times can be written have one hashed body exactly when they have one content. With digests that
do not collide, a publication finds a conflict of versions exactly when a batch does. -/
theorem versionFingerprint_content (h : Hash) {a b : EventRecord} (known : a.occurredAt.utc.Strict)
    (known' : b.occurredAt.utc.Strict) :
    ∃ x y, a.versionBody = some x ∧ b.versionBody = some y ∧ (x = y ↔ sameEventContent a b = true) ∧
      (Set.InjOn h.hex {x,y} →
        (eventVersionFingerprint h a = eventVersionFingerprint h b ↔ sameEventContent a b = true) ∧
        ∀ texts, h.CollisionFree texts → a.Bound h texts → b.Bound h texts → ∀ s : MemoryStore, s.HoldsVersion a b →
          (s.classify b = .error (.conflict b.sourceKey "event revision has different content") ↔
            eventVersionFingerprint h a ≠ eventVersionFingerprint h b)) := by
  obtain ⟨x,left⟩ := versionBody_known known
  obtain ⟨y,right⟩ := versionBody_known known'
  refine ⟨x,y,left,right,versionBody_iff left right,?_⟩
  intro free
  have fingerprints : eventVersionFingerprint h a = eventVersionFingerprint h b ↔ sameEventContent a b = true := by
    rw [fingerprint_eq,fingerprint_eq,left,right,← versionBody_iff left right]
    constructor
    · intro same
      exact free (.inl rfl) (.inr rfl) (Option.some.inj same)
    · intro same
      rw [same]
  refine ⟨fingerprints,?_⟩
  intro texts apart bound bound' s holds
  rw [holds.conflict fun equal => bound.same apart bound' equal,ne_eq,fingerprints,Bool.not_eq_true]

def revised (text digest : String) : EventRecord where
  id := "e_1"
  sessionID := "s_1"
  threadID := "root"
  sourceKey := "1:e"
  revision := 1
  projectionRevision := 1
  digest
  sourceOrder := 0
  eventIndex := 0
  orderFidelity := "native"
  fidelity := "native"
  rawRef := ""
  adapterVersion := ""
  schemaVersion := ""
  observedAt := .zero
  receivedAt := .zero
  ingestSeq := 0
  kind := "message"
  author := "Ada"
  occurredAt := .zero
  text
  toolLabel := ""
  toolUpdateJSON := ""
  childThreadID := none

def revisedBody (text : String) : String := (revised text "").versionBody.getD ""

def revisedHash : Hash := .table [revisedBody "first",revisedBody "second"]

def digestedRevision (text : String) : EventRecord := revised text (revisedHash.hex (revisedBody text))

def revisedStore : MemoryStore :=
  {Ingestion.Message.store with
    events := (∅ : Table String EventRecord).insert "e_1" (digestedRevision "first")
    eventBySource := (∅ : Table String String).insert "1:e" "e_1"}

theorem revised_known (text digest : String) :
    (revised text digest).versionBody = some (revisedBody text) := by
  have strict : (revised text digest).occurredAt.utc.Strict := by
    have zero : Time.zero.utc.Strict := by decide
    exact zero
  obtain ⟨body,written⟩ := versionBody_known strict
  have plain : (revised text digest).versioned = (revised text "").versioned := rfl
  have same : (revised text "").versionBody = some body := by
    rw [← written,EventRecord.versionBody,EventRecord.versionBody,plain]
  rw [written,revisedBody,same,Option.getD_some]

theorem revised_versioned (text digest : String) :
    ({revised text digest with digest := "",observedAt := .zero,receivedAt := .zero,ingestSeq := 0} : EventRecord) =
      (revised text "").versioned := rfl

theorem revised_bound {text : String} (known : text ∈ ["first","second"]) :
    (digestedRevision text).Bound revisedHash {s | s ∈ [revisedBody "first",revisedBody "second"]} := by
  obtain ⟨j,json,marshalled⟩ := Option.map_eq_some_iff.mp (revised_known text "")
  have plain : ({digestedRevision text with digest := "",observedAt := .zero,receivedAt := .zero,ingestSeq := 0} :
      EventRecord) = (revised text "").versioned := revised_versioned text _
  refine ⟨⟨⟨j,?_,?_⟩,?_⟩,fun _ => rfl⟩
  · rw [plain,json]
  · rw [marshalled]
    rfl
  · intro t member
    have one : WriteBatch.bodyText (some j) = [marshal j] := rfl
    rw [plain,json,one,marshalled,List.mem_singleton] at member
    rw [member]
    simp only [List.mem_cons,List.not_mem_nil,or_false] at known
    rcases known with rfl|rfl <;> simp

theorem revisedStore_holds (text : String) :
    revisedStore.HoldsVersion (digestedRevision "first") (digestedRevision text) where
  source := ⟨"e_1",rfl,rfl⟩
  session := by simp only [digestedRevision,revised]
  thread := by simp only [digestedRevision,revised]
  version := by simp only [digestedRevision,revised,EventRecord.version]

theorem versionFingerprint_content_revised :
    revisedStore.classify (digestedRevision "second") =
        .error (.conflict "1:e" "event revision has different content") ∧
      eventVersionFingerprint revisedHash (digestedRevision "first") ≠
        eventVersionFingerprint revisedHash (digestedRevision "second") := by
  obtain ⟨x,y,left,right,-,conflicts⟩ := versionFingerprint_content revisedHash (a := digestedRevision "first")
    (b := digestedRevision "second") (by decide) (by decide)
  have apart := @Hash.table_collisionFree [revisedBody "first",revisedBody "second"] (by decide)
  have first : revisedBody "first" = x := Option.some.inj ((revised_known "first" _).symm.trans left)
  have second : revisedBody "second" = y := Option.some.inj ((revised_known "second" _).symm.trans right)
  have free : Set.InjOn revisedHash.hex {x,y} := by
    rw [← first,← second]
    apply apart.hex.mono
    rintro t (rfl|rfl) <;> simp
  obtain ⟨fingerprints,conflict⟩ := conflicts free
  have differs : eventVersionFingerprint revisedHash (digestedRevision "first") ≠
      eventVersionFingerprint revisedHash (digestedRevision "second") := by
    rw [ne_eq,fingerprints]
    decide
  refine ⟨(conflict _ apart (revised_bound ?_) (revised_bound ?_) revisedStore (revisedStore_holds _)).mpr differs,differs⟩
  · exact List.mem_cons_self
  · exact List.mem_cons_of_mem _ List.mem_cons_self

end ATape.Canonical
