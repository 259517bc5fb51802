import ATape.Foundation.Table
import ATape.Go.Json
import ATape.Go.Time
import ATape.SourceIdentity

/-! The canonical records of the server, with the JSON body from which their
digests are computed. A body determines its record. -/
namespace ATape.Canonical
open Foundation Go SourceIdentity

structure Actor where
  name : String
  harness : String
deriving DecidableEq

structure TeamRecord where
  id : String
  name : String
deriving DecidableEq

structure ProjectRecord where
  id : String
  teamID : String
  name : String
  type : String
  state : String
deriving DecidableEq

structure CapturedUser where
  id : String
  displayName : String
  avatarURL : String
deriving DecidableEq

structure SessionRecord where
  id : String
  projectID : String
  capturedByUserID : String
  sourceKey : String
  revision : Int
  digest : String
  title : String
  summary : String
  insight : String
  actor : Actor
  branch : String
  status : String
  captureStatus : String
  updatedAt : Time
  reportedEventCount : Int
deriving DecidableEq

structure ThreadRecord where
  id : String
  sessionID : String
  sourceKey : String
  revision : Int
  digest : String
  label : String
  summary : String
  parentThreadID : Option String
  captureStatus : String
deriving DecidableEq

structure EventRecord where
  id : String
  sessionID : String
  threadID : String
  sourceKey : String
  revision : Int
  projectionRevision : Int
  digest : String
  sourceOrder : Int
  eventIndex : Int
  orderFidelity : String
  fidelity : String
  rawRef : String
  adapterVersion : String
  schemaVersion : String
  observedAt : Time
  receivedAt : Time
  ingestSeq : Nat
  kind : String
  author : String
  occurredAt : Time
  text : String
  toolLabel : String
  toolUpdateJSON : String
  childThreadID : Option String
deriving DecidableEq

/-- An absent counter was not reported. -/
structure UsageRecord where
  sourceKey : String
  sessionID : String
  threadID : String
  revision : Int
  digest : String
  occurredAt : Time
  model : String
  inputTokens : Option Int
  outputTokens : Option Int
  cacheReadTokens : Option Int
  cacheWriteTokens : Option Int
deriving DecidableEq

structure WriteBatch where
  key : String
  digest : String
  observedAt : Time
  projectID : String
  session : SessionRecord
  threads : List ThreadRecord
  events : List EventRecord
  usage : List UsageRecord
deriving DecidableEq

/-- The part of an event that its transport does not determine. -/
def EventRecord.content (e : EventRecord) : EventRecord :=
  {e with
    digest := ""
    adapterVersion := ""
    schemaVersion := ""
    observedAt := .zero
    receivedAt := .zero
    occurredAt := .zero
    ingestSeq := 0
    childThreadID := none}

def sameEventContent (left right : EventRecord) : Bool :=
  left.occurredAt.equal right.occurredAt && left.childThreadID = right.childThreadID &&
    left.content = right.content

structure ApplyResult where
  sessionID : String
  sessionCreated : Bool
  insertedEvents : Nat
  updatedEvents : Nat
  unchangedEvents : Nat
  staleEvents : Nat
  replayed : Bool
deriving DecidableEq

structure ProjectionThread where
  id : String
  label : String
deriving DecidableEq

structure EventProjection where
  kind : String
  publicationHead : String
  publicationDescriptor : String
  projectID : String
  sessionID : String
  sessionTitle : String
  threadID : String
  threadPath : List ProjectionThread
  eventID : String
  author : String
  harness : String
  occurredAt : Time
  text : String
  toolLabel : String
  ingestSeq : Nat
  observedAt : Time
deriving DecidableEq

structure ProjectionChange where
  id : Nat
  document : EventProjection
deriving DecidableEq

theorem sameEventContent_equivalence : Equivalence fun a b : EventRecord => sameEventContent a b = true where
  refl a := by simp [sameEventContent,Time.equal]
  symm {a b} alike := by
    simp only [sameEventContent,Time.equal,Bool.and_eq_true,decide_eq_true_eq] at alike ⊢
    exact ⟨⟨alike.1.1.symm,alike.1.2.symm⟩,alike.2.symm⟩
  trans {a b c} first second := by
    simp only [sameEventContent,Time.equal,Bool.and_eq_true,decide_eq_true_eq] at first second ⊢
    exact ⟨⟨first.1.1.trans second.1.1,first.1.2.trans second.1.2⟩,first.2.trans second.2⟩

/-! The bodies of the records. A time outside the years of RFC 3339 has none. -/

def timeJson (t : Time) : Option Json := t.marshalText.map .str

/-- The text of a time, or nothing for an unknown one. -/
def sourceTimeJson (t : Time) : Option (Option Json) :=
  if t.isZero then some none else (timeJson t).map some

def optionJson : Option String → Json
  | none => .null
  | some text => .str text

def counterJson : Option Int → Json
  | none => .null
  | some n => .int n

def Actor.json (a : Actor) : Json := .obj [("Name",.str a.name),("Harness",.str a.harness)]

/-- An unknown time is written as null, after the other fields. -/
def SessionRecord.body (s : SessionRecord) (updatedAt : Option Json) : Json :=
  let start : List (String × Json) :=
    [("ID",.str s.id),("ProjectID",.str s.projectID),("CapturedByUserID",.str s.capturedByUserID),
      ("SourceKey",.str s.sourceKey),("Revision",.int s.revision),("Digest",.str s.digest),
      ("Title",.str s.title),("Summary",.str s.summary),("Insight",.str s.insight),
      ("Actor",s.actor.json),("Branch",.str s.branch),("Status",.str s.status),
      ("CaptureStatus",.str s.captureStatus)]
  let count := ("ReportedEventCount",Json.int s.reportedEventCount)
  match updatedAt with
  | none => .obj (start++[count,("UpdatedAt",.null)])
  | some known => .obj (start++[("UpdatedAt",known),count])

def SessionRecord.json (s : SessionRecord) : Option Json := (sourceTimeJson s.updatedAt).map s.body

def ThreadRecord.json (t : ThreadRecord) : Option Json :=
  some (.obj [("ID",.str t.id),("SessionID",.str t.sessionID),("SourceKey",.str t.sourceKey),
    ("Revision",.int t.revision),("Digest",.str t.digest),("Label",.str t.label),
    ("Summary",.str t.summary),("ParentThreadID",optionJson t.parentThreadID),
    ("CaptureStatus",.str t.captureStatus)])

/-- An empty tool update is omitted. -/
def EventRecord.body (e : EventRecord) (observedAt receivedAt : Json) (occurredAt : Option Json) : Json :=
  let start : List (String × Json) :=
    [("ID",.str e.id),("SessionID",.str e.sessionID),("ThreadID",.str e.threadID),
      ("SourceKey",.str e.sourceKey),("Revision",.int e.revision),
      ("ProjectionRevision",.int e.projectionRevision),("Digest",.str e.digest),
      ("SourceOrder",.int e.sourceOrder),("EventIndex",.int e.eventIndex),
      ("OrderFidelity",.str e.orderFidelity),("Fidelity",.str e.fidelity),("RawRef",.str e.rawRef),
      ("AdapterVersion",.str e.adapterVersion),("SchemaVersion",.str e.schemaVersion),
      ("ObservedAt",observedAt),("ReceivedAt",receivedAt),("IngestSeq",.int e.ingestSeq),
      ("Kind",.str e.kind),("Author",.str e.author)]
  let tool : List (String × Json) :=
    if e.toolUpdateJSON = "" then [] else [("ToolUpdateJSON",.str e.toolUpdateJSON)]
  let child := ("ChildThreadID",optionJson e.childThreadID)
  match occurredAt with
  | none => .obj (start++[("Text",.str e.text),("ToolLabel",.str e.toolLabel)]++tool++
      [child,("OccurredAt",.null)])
  | some known => .obj (start++[("OccurredAt",known),("Text",.str e.text),
      ("ToolLabel",.str e.toolLabel)]++tool++[child])

def EventRecord.json (e : EventRecord) : Option Json := do
  let observedAt ← timeJson e.observedAt
  let receivedAt ← timeJson e.receivedAt
  let occurredAt ← sourceTimeJson e.occurredAt
  pure (e.body observedAt receivedAt occurredAt)

def UsageRecord.json (u : UsageRecord) : Option Json :=
  (timeJson u.occurredAt).map fun occurredAt =>
    .obj [("SourceKey",.str u.sourceKey),("SessionID",.str u.sessionID),
      ("ThreadID",.str u.threadID),("Revision",.int u.revision),("Digest",.str u.digest),
      ("OccurredAt",occurredAt),("Model",.str u.model),("InputTokens",counterJson u.inputTokens),
      ("OutputTokens",counterJson u.outputTokens),("CacheReadTokens",counterJson u.cacheReadTokens),
      ("CacheWriteTokens",counterJson u.cacheWriteTokens)]

def eventVersionFingerprint (h : Hash) (e : EventRecord) : Option String :=
  (EventRecord.json {e with
    digest := ""
    adapterVersion := ""
    schemaVersion := ""
    observedAt := .zero
    receivedAt := .zero
    ingestSeq := 0
    occurredAt := e.occurredAt.utc}).map fun body => h.hex (marshal body)

def Plain (t : Time) : Prop := t.isZero = true → t = .zero

theorem timeJson_inj {t u : Time} {j : Json} (left : timeJson t = some j) (right : timeJson u = some j) :
    t = u := by
  simp only [timeJson,Option.map_eq_some_iff] at left right
  obtain ⟨text,written,rfl⟩ := left
  obtain ⟨text',written',same⟩ := right
  cases same
  exact Time.marshalText_injective written written'

theorem sourceTimeJson_inj {t u : Time} {j : Option Json} (plain : Plain t) (plain' : Plain u)
    (left : sourceTimeJson t = some j) (right : sourceTimeJson u = some j) : t = u := by
  unfold sourceTimeJson at left right
  split at left
  next unknown =>
    cases left
    split at right
    next unknown' => rw [plain unknown,plain' unknown']
    next => simp at right
  next =>
    obtain ⟨body,written,rfl⟩ := Option.map_eq_some_iff.mp left
    split at right
    next => simp at right
    next =>
      obtain ⟨body',written',same⟩ := Option.map_eq_some_iff.mp right
      cases same
      exact timeJson_inj written written'

theorem timeJson_integral {t : Time} {j : Json} (written : timeJson t = some j) : j.Integral := by
  simp only [timeJson,Option.map_eq_some_iff] at written
  obtain ⟨text,_,rfl⟩ := written
  simp [Json.Integral]

@[simp] theorem optionJson_inj {a b : Option String} : optionJson a = optionJson b ↔ a = b := by
  cases a <;> cases b <;> simp [optionJson]

@[simp] theorem counterJson_inj {a b : Option Int} : counterJson a = counterJson b ↔ a = b := by
  cases a with
  | none => cases b <;> simp [counterJson,Json.int]
  | some n =>
    cases b with
    | none => simp [counterJson,Json.int]
    | some m => simp [counterJson]

@[simp] theorem optionJson_integral (a : Option String) : (optionJson a).Integral := by
  cases a <;> simp [optionJson,Json.Integral]

@[simp] theorem counterJson_integral (a : Option Int) : (counterJson a).Integral := by
  cases a <;> simp [counterJson,Json.Integral]

@[simp] theorem Actor.json_inj {a b : Actor} : a.json = b.json ↔ a = b := by
  cases a
  cases b
  simp [Actor.json]

theorem SessionRecord.json_inj {a b : SessionRecord} {j : Json} (plain : Plain a.updatedAt)
    (plain' : Plain b.updatedAt) (left : a.json = some j) (right : b.json = some j) : a = b := by
  obtain ⟨updated,known,rfl⟩ := Option.map_eq_some_iff.mp left
  obtain ⟨updated',known',same⟩ := Option.map_eq_some_iff.mp right
  have times : updated' = updated := by
    cases updated <;> cases updated' <;> simp [SessionRecord.body] at same ⊢
    exact same.2.2.2.2.2.2.2.2.2.2.2.2.2.1
  subst times
  have moment := sourceTimeJson_inj plain plain' known known'
  cases a
  cases b
  cases updated' <;> simp_all [SessionRecord.body]

theorem ThreadRecord.json_inj {a b : ThreadRecord} (same : a.json = b.json) : a = b := by
  cases a
  cases b
  simp_all [ThreadRecord.json]

theorem UsageRecord.json_inj {a b : UsageRecord} {j : Json} (left : a.json = some j)
    (right : b.json = some j) : a = b := by
  obtain ⟨occurred,known,rfl⟩ := Option.map_eq_some_iff.mp left
  obtain ⟨occurred',known',same⟩ := Option.map_eq_some_iff.mp right
  simp only [Json.obj.injEq,List.cons.injEq,Prod.mk.injEq,true_and,Json.str.injEq,Json.int_inj,
    counterJson_inj,and_true] at same
  have times : occurred' = occurred := same.2.2.2.2.2.1
  subst times
  have moment := timeJson_inj known known'
  cases a
  cases b
  simp_all

theorem EventRecord.body_inj {a b : EventRecord} {observed received observed' received' : Json}
    {occurred occurred' : Option Json}
    (same : a.body observed received occurred = b.body observed' received' occurred') :
    observed = observed' ∧ received = received' ∧ occurred = occurred' ∧
      {a with observedAt := .zero, receivedAt := .zero, occurredAt := .zero} =
        {b with observedAt := .zero, receivedAt := .zero, occurredAt := .zero} := by
  cases a with
  | mk =>
    rename_i tool _
    cases b with
    | mk =>
      rename_i tool' _
      by_cases plain : tool = "" <;> by_cases plain' : tool' = "" <;> cases occurred <;>
        cases occurred' <;> simp_all [EventRecord.body]

theorem EventRecord.json_ok {a : EventRecord} {j : Json} (written : a.json = some j) :
    ∃ observed received occurred, timeJson a.observedAt = some observed ∧
      timeJson a.receivedAt = some received ∧ sourceTimeJson a.occurredAt = some occurred ∧
      j = a.body observed received occurred := by
  simp only [EventRecord.json,Option.bind_eq_bind,Option.bind_eq_some_iff,Option.pure_def,
    Option.some.injEq] at written
  obtain ⟨observed,left,received,middle,occurred,right,rfl⟩ := written
  exact ⟨observed,received,occurred,left,middle,right,rfl⟩

theorem EventRecord.json_inj {a b : EventRecord} {j : Json} (plain : Plain a.occurredAt)
    (plain' : Plain b.occurredAt) (left : a.json = some j) (right : b.json = some j) : a = b := by
  obtain ⟨observed,received,occurred,seen,got,known,rfl⟩ := json_ok left
  obtain ⟨observed',received',occurred',seen',got',known',same⟩ := json_ok right
  obtain ⟨rfl,rfl,rfl,rest⟩ := body_inj same
  have observedAt := timeJson_inj seen seen'
  have receivedAt := timeJson_inj got got'
  have occurredAt := sourceTimeJson_inj plain plain' known known'
  cases a
  cases b
  simp_all

theorem SessionRecord.json_integral {a : SessionRecord} {j : Json} (written : a.json = some j) :
    j.Integral := by
  obtain ⟨updated,known,rfl⟩ := Option.map_eq_some_iff.mp written
  unfold sourceTimeJson at known
  split at known
  next =>
    cases known
    simp [SessionRecord.body,Json.Integral,Json.IntegralMembers,Actor.json]
  next =>
    obtain ⟨body,text,rfl⟩ := Option.map_eq_some_iff.mp known
    simp [SessionRecord.body,Json.Integral,Json.IntegralMembers,Actor.json,timeJson_integral text]

theorem ThreadRecord.json_integral {a : ThreadRecord} {j : Json} (written : a.json = some j) :
    j.Integral := by
  cases written
  simp [Json.Integral,Json.IntegralMembers]

theorem UsageRecord.json_integral {a : UsageRecord} {j : Json} (written : a.json = some j) :
    j.Integral := by
  obtain ⟨occurred,text,rfl⟩ := Option.map_eq_some_iff.mp written
  simp [Json.Integral,Json.IntegralMembers,timeJson_integral text]

theorem EventRecord.json_integral {a : EventRecord} {j : Json} (written : a.json = some j) :
    j.Integral := by
  obtain ⟨observed,received,occurred,seen,got,known,rfl⟩ := json_ok written
  have observedText := timeJson_integral seen
  have receivedText := timeJson_integral got
  unfold sourceTimeJson at known
  split at known
  next =>
    cases known
    by_cases plain : a.toolUpdateJSON = "" <;>
      simp [EventRecord.body,plain,Json.Integral,Json.IntegralMembers,observedText,receivedText]
  next =>
    obtain ⟨body,text,rfl⟩ := Option.map_eq_some_iff.mp known
    have occurredText := timeJson_integral text
    by_cases plain : a.toolUpdateJSON = "" <;>
      simp [EventRecord.body,plain,Json.Integral,Json.IntegralMembers,observedText,receivedText,occurredText]

end ATape.Canonical
