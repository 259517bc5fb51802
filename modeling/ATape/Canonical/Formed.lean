import ATape.Canonical.Model
import ATape.Foundation.Forest

/-! What the store may assume of a batch: the records belong to one session, have
distinct identities, and their threads form a tree. -/
namespace ATape.Canonical
open Foundation Go SourceIdentity

def recordParent (threads : List ThreadRecord) (id : String) : Option String :=
  (threads.find? fun t => t.id = id).bind (·.parentThreadID)

theorem recordParent_mem {threads : List ThreadRecord} (distinct : (threads.map (·.id)).Nodup)
    {t : ThreadRecord} (member : t ∈ threads) : recordParent threads t.id = t.parentThreadID := by
  have found : threads.find? (fun t' => t'.id = t.id) = some t := by
    cases found : threads.find? (fun t' => t'.id = t.id) with
    | none => exact absurd (List.find?_eq_none.mp found t member) (by simp)
    | some t' =>
      have same : t'.id = t.id := by simpa using List.find?_some found
      rw [List.inj_on_of_nodup_map distinct (List.mem_of_find?_eq_some found) member same]
  simp [recordParent,found]

def rootThreadID : String := "root"

def sessionIDLength : Nat := 26

namespace WriteBatch

structure Formed (h : Hash) (w : WriteBatch) : Prop where
  project : w.session.projectID = w.projectID
  sessionID : w.session.id.toList.length = sessionIDLength
  threadSession : ∀ t ∈ w.threads, t.sessionID = w.session.id
  threadIDs : (w.threads.map (·.id)).Nodup
  parents : ∀ t ∈ w.threads, ∀ p, t.parentThreadID = some p → ∃ t' ∈ w.threads, t'.id = p
  root : ∃ t ∈ w.threads, t.id = rootThreadID ∧ t.parentThreadID = none
  rootOnly : ∀ t ∈ w.threads, t.parentThreadID = none → t.id = rootThreadID
  rooted : ∀ t ∈ w.threads, ∃ n, Forest.Rooted (recordParent w.threads) t.id n
  eventSession : ∀ e ∈ w.events, e.sessionID = w.session.id
  eventThread : ∀ e ∈ w.events, ∃ t ∈ w.threads, t.id = e.threadID
  eventNamed : ∀ e ∈ w.events, e.id = stableID h "e_" e.sourceKey
  eventScope : ∀ e ∈ w.events, Scoped h w.session.id e.sourceKey
  eventKeys : (w.events.map (·.sourceKey)).Nodup
  eventIDs : (w.events.map (·.id)).Nodup
  usageSession : ∀ u ∈ w.usage, u.sessionID = w.session.id
  usageScope : ∀ u ∈ w.usage, Scoped h w.session.id u.sourceKey
  usageKeys : (w.usage.map (·.sourceKey)).Nodup

def bodyText (body : Option Json) : List String := (body.map marshal).toList

def hashed (w : WriteBatch) : List String :=
  bodyText (SessionRecord.json {w.session with digest := ""})++
    w.threads.flatMap (fun t => t.sourceKey::bodyText (ThreadRecord.json {t with digest := ""}))++
    w.events.flatMap (fun e => e.sourceKey::bodyText (EventRecord.json {e with digest := ""}))++
    w.usage.flatMap (fun u => bodyText (UsageRecord.json {u with digest := ""}))

end WriteBatch

/-- A digest computed from the record without it. -/
def DigestOf (h : Hash) (body : Option Json) (d : String) : Prop :=
  ∃ j, body = some j ∧ d = h.hex (marshal j)

/-- A digest of a body among the given texts. -/
def Digested (h : Hash) (texts : Set String) (body : Option Json) (d : String) : Prop :=
  DigestOf h body d ∧ ∀ t ∈ WriteBatch.bodyText body, t ∈ texts

theorem Digested.inj {h : Hash} {texts : Set String} (free : h.CollisionFree texts) {a b : Option Json}
    {d : String} (left : Digested h texts a d) (right : Digested h texts b d)
    (integral : ∀ j, a = some j → j.Integral) (integral' : ∀ j, b = some j → j.Integral) :
    ∃ j, a = some j ∧ b = some j := by
  obtain ⟨⟨j,rfl,first⟩,known⟩ := left
  obtain ⟨⟨j',rfl,second⟩,known'⟩ := right
  have same := free.hex (known _ (by simp [WriteBatch.bodyText])) (known' _ (by simp [WriteBatch.bodyText]))
    (first.symm.trans second)
  exact ⟨j,rfl,by rw [marshal_injective (integral j rfl) (integral' j' rfl) same]⟩

variable (h : Hash) (texts : Set String)

/-! Records that their digest binds. An event is bound as its batch gave it,
before the store dated and numbered it. -/

structure SessionRecord.Bound (s : SessionRecord) : Prop where
  digest : Digested h texts (SessionRecord.json {s with digest := ""}) s.digest
  updated : Plain s.updatedAt

structure ThreadRecord.Bound (t : ThreadRecord) : Prop where
  digest : Digested h texts (ThreadRecord.json {t with digest := ""}) t.digest

structure EventRecord.Bound (e : EventRecord) : Prop where
  digest : Digested h texts (EventRecord.json
    {e with digest := "", observedAt := .zero, receivedAt := .zero, ingestSeq := 0}) e.digest
  occurred : Plain e.occurredAt

structure UsageRecord.Bound (u : UsageRecord) : Prop where
  digest : Digested h texts (UsageRecord.json {u with digest := ""}) u.digest

structure WriteBatch.Bound (w : WriteBatch) : Prop where
  session : w.session.Bound h texts
  threads : ∀ t ∈ w.threads, t.Bound h texts
  events : ∀ e ∈ w.events, e.Bound h texts
  usage : ∀ u ∈ w.usage, u.Bound h texts

variable {h texts}

theorem SessionRecord.Bound.eq (free : h.CollisionFree texts) {a b : SessionRecord} (left : a.Bound h texts)
    (right : b.Bound h texts) (same : a.digest = b.digest) : a = b := by
  obtain ⟨j,body,body'⟩ := left.digest.inj free (same ▸ right.digest)
    (fun j written => SessionRecord.json_integral written)
    (fun j written => SessionRecord.json_integral written)
  have stripped := SessionRecord.json_inj (a := {a with digest := ""}) (b := {b with digest := ""})
    left.updated right.updated body body'
  cases a
  cases b
  simp_all

theorem ThreadRecord.Bound.eq (free : h.CollisionFree texts) {a b : ThreadRecord} (left : a.Bound h texts)
    (right : b.Bound h texts) (same : a.digest = b.digest) : a = b := by
  obtain ⟨j,body,body'⟩ := left.digest.inj free (same ▸ right.digest)
    (fun j written => ThreadRecord.json_integral written)
    (fun j written => ThreadRecord.json_integral written)
  have stripped := ThreadRecord.json_inj (body.trans body'.symm)
  cases a
  cases b
  simp_all

theorem UsageRecord.Bound.eq (free : h.CollisionFree texts) {a b : UsageRecord} (left : a.Bound h texts)
    (right : b.Bound h texts) (same : a.digest = b.digest) : a = b := by
  obtain ⟨j,body,body'⟩ := left.digest.inj free (same ▸ right.digest)
    (fun j written => UsageRecord.json_integral written)
    (fun j written => UsageRecord.json_integral written)
  have stripped := UsageRecord.json_inj body body'
  cases a
  cases b
  simp_all

theorem EventRecord.Bound.same (free : h.CollisionFree texts) {a b : EventRecord} (left : a.Bound h texts)
    (right : b.Bound h texts) (same : a.digest = b.digest) : sameEventContent a b = true := by
  obtain ⟨j,body,body'⟩ := left.digest.inj free (same ▸ right.digest)
    (fun j written => EventRecord.json_integral written)
    (fun j written => EventRecord.json_integral written)
  have stripped := EventRecord.json_inj
    (a := {a with digest := "", observedAt := .zero, receivedAt := .zero, ingestSeq := 0})
    (b := {b with digest := "", observedAt := .zero, receivedAt := .zero, ingestSeq := 0})
    left.occurred right.occurred body body'
  cases a
  cases b
  simp_all [sameEventContent,EventRecord.content,Time.equal]

end ATape.Canonical
