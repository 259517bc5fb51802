import ATape.Foundation.JsonText

/-! The wire form of a canonical batch and the JSON body that its digest is
computed from. -/
namespace ATape.Ingestion
open Foundation

def protocolVersion : String := "atape.canonical.v1"

def legacyCanonicalProfileVersion : String := "atape.acp-centered.v1"

def canonicalProfileVersion : String := "atape.acp-centered.v2"

def unknownTimeCanonicalProfileVersion : String := "atape.acp-centered.v3"

def toolIdentityCanonicalProfileVersion : String := "atape.acp-centered.v4"

def stableToolCanonicalProfileVersion : String := "atape.acp-centered.v5"

structure Source where
  adapterID : String
  adapterVersion : String
  installationID : String
deriving DecidableEq

structure RawReference where
  type : String
  sourceObjectID : String
  fragment : String
  unavailableReason : String
deriving DecidableEq

structure Actor where
  name : String
  harness : String
deriving DecidableEq

structure Session where
  sourceSessionID : String
  revision : Int
  title : String
  summary : String
  insight : String
  actor : Actor
  branch : String
  status : String
  captureStatus : String
  updatedAt : String
  updatedAtUnknown : Bool
  reportedEventCount : Int
deriving DecidableEq

structure Thread where
  sourceThreadID : String
  parentSourceThreadID : Option String
  revision : Int
  label : String
  summary : String
  captureStatus : String
deriving DecidableEq

structure Event where
  sourceEventID : String
  sourceThreadID : String
  revision : Int
  projectionRevision : Int
  sourceOrder : Int
  eventIndex : Int
  orderFidelity : String
  fidelity : String
  rawRef : RawReference
  kind : String
  author : String
  occurredAt : String
  occurredAtUnknown : Bool
  text : String
  toolLabel : String
  toolUpdateJSON : String
  childSourceThreadID : Option String
deriving DecidableEq

structure Usage where
  sourceUsageID : String
  sourceThreadID : String
  revision : Int
  occurredAt : String
  model : String
  inputTokens : Option Int
  outputTokens : Option Int
  cacheReadTokens : Option Int
  cacheWriteTokens : Option Int
deriving DecidableEq

structure Batch where
  protocolVersion : String
  canonicalProfileVersion : String
  batchID : String
  observedAt : String
  source : Source
  projectID : String
  session : Session
  threads : List Thread
  events : List Event
  usage : List Usage
deriving DecidableEq

def Source.json (s : Source) : Json :=
  .obj [("adapterId",.str s.adapterID),("adapterVersion",.str s.adapterVersion),
    ("installationId",.str s.installationID)]

def RawReference.members (r : RawReference) : List (String × Json) :=
  [("type",.str r.type)]++Json.textMember "sourceObjectId" r.sourceObjectID++
    Json.textMember "fragment" r.fragment++Json.textMember "reason" r.unavailableReason

def Actor.json (a : Actor) : Json := .obj [("name",.str a.name),("harness",.str a.harness)]

/-- An unknown time is written as null, after the other fields. -/
def Session.members (s : Session) : List (String × Json) :=
  let start : List (String × Json) :=
    [("sourceSessionId",.str s.sourceSessionID),("revision",.int s.revision),("title",.str s.title),
      ("summary",.str s.summary),("insight",.str s.insight),("actor",s.actor.json),
      ("branch",.str s.branch),("status",.str s.status),("captureStatus",.str s.captureStatus)]
  let count : String × Json := ("reportedEventCount",.int s.reportedEventCount)
  if s.updatedAtUnknown then start++[count,("updatedAt",.null)]
  else start++[("updatedAt",.str s.updatedAt),count]

def Thread.members (t : Thread) : List (String × Json) :=
  [("sourceThreadId",.str t.sourceThreadID)]++
    Json.presentMember "parentSourceThreadId" .str t.parentSourceThreadID++
    [("revision",.int t.revision),("label",.str t.label),("summary",.str t.summary),
      ("captureStatus",.str t.captureStatus)]

def Event.members (e : Event) : List (String × Json) :=
  let start : List (String × Json) :=
    [("sourceEventId",.str e.sourceEventID),("sourceThreadId",.str e.sourceThreadID),
      ("revision",.int e.revision),("projectionRevision",.int e.projectionRevision),
      ("sourceOrder",.int e.sourceOrder),("eventIndex",.int e.eventIndex),
      ("orderFidelity",.str e.orderFidelity),("fidelity",.str e.fidelity),
      ("rawRef",.obj e.rawRef.members),("kind",.str e.kind),("author",.str e.author)]
  let finish : List (String × Json) :=
    [("text",.str e.text)]++Json.textMember "toolLabel" e.toolLabel++
      Json.textMember "toolUpdateJson" e.toolUpdateJSON++
      Json.presentMember "childSourceThreadId" .str e.childSourceThreadID
  if e.occurredAtUnknown then start++finish++[("occurredAt",.null)]
  else start++[("occurredAt",.str e.occurredAt)]++finish

def Usage.members (u : Usage) : List (String × Json) :=
  [("sourceUsageId",.str u.sourceUsageID),("sourceThreadId",.str u.sourceThreadID),
    ("revision",.int u.revision),("occurredAt",.str u.occurredAt),("model",.str u.model)]++
    Json.presentMember "inputTokens" .int u.inputTokens++
    Json.presentMember "outputTokens" .int u.outputTokens++
    Json.presentMember "cacheReadTokens" .int u.cacheReadTokens++
    Json.presentMember "cacheWriteTokens" .int u.cacheWriteTokens

/-- An empty list of usage is omitted. -/
def Batch.members (b : Batch) : List (String × Json) :=
  [("protocolVersion",.str b.protocolVersion),("canonicalProfileVersion",.str b.canonicalProfileVersion),
    ("batchId",.str b.batchID),("observedAt",.str b.observedAt),("source",b.source.json),
    ("projectId",.str b.projectID),("session",.obj b.session.members),
    ("threads",.arr (b.threads.map fun t => .obj t.members)),
    ("events",.arr (b.events.map fun e => .obj e.members))]++
    (if b.usage = [] then [] else [("usage",.arr (b.usage.map fun u => .obj u.members))])

def Batch.json (b : Batch) : Json := .obj b.members

@[simp] theorem Source.json_inj {a b : Source} : a.json = b.json ↔ a = b := by
  cases a
  cases b
  simp [Source.json]

@[simp] theorem Actor.json_inj {a b : Actor} : a.json = b.json ↔ a = b := by
  cases a
  cases b
  simp [Actor.json]

/-! Members that are left out are recovered by name. -/

theorem RawReference.members_inj {a b : RawReference} (same : a.members = b.members) : a = b := by
  have read (name : String) := congrArg (Json.member name) same
  have type := read "type"
  have object := read "sourceObjectId"
  have fragment := read "fragment"
  have reason := read "reason"
  simp [RawReference.members] at type object fragment reason
  cases a
  cases b
  simp_all

theorem Session.members_inj {a b : Session} (explicit : a.updatedAtUnknown = true → a.updatedAt = "")
    (explicit' : b.updatedAtUnknown = true → b.updatedAt = "") (same : a.members = b.members) : a = b := by
  cases a
  cases b
  unfold Session.members at same
  split at same <;> split at same <;> simp_all

theorem Thread.members_inj {a b : Thread} (same : a.members = b.members) : a = b := by
  have read (name : String) := congrArg (Json.member name) same
  have id := read "sourceThreadId"
  have parent := read "parentSourceThreadId"
  have revision := read "revision"
  have label := read "label"
  have summary := read "summary"
  have status := read "captureStatus"
  simp [Thread.members] at id parent revision label summary status
  cases a
  cases b
  simp_all

theorem Usage.members_inj {a b : Usage} (same : a.members = b.members) : a = b := by
  have read (name : String) := congrArg (Json.member name) same
  have id := read "sourceUsageId"
  have thread := read "sourceThreadId"
  have revision := read "revision"
  have occurred := read "occurredAt"
  have model := read "model"
  have input := read "inputTokens"
  have output := read "outputTokens"
  have cacheRead := read "cacheReadTokens"
  have cacheWrite := read "cacheWriteTokens"
  simp [Usage.members] at id thread revision occurred model input output cacheRead cacheWrite
  cases a
  cases b
  simp_all

theorem Event.members_inj {a b : Event} (explicit : a.occurredAtUnknown = true → a.occurredAt = "")
    (explicit' : b.occurredAtUnknown = true → b.occurredAt = "") (same : a.members = b.members) : a = b := by
  have read (name : String) := congrArg (Json.member name) same
  have id := read "sourceEventId"
  have thread := read "sourceThreadId"
  have revision := read "revision"
  have projection := read "projectionRevision"
  have order := read "sourceOrder"
  have index := read "eventIndex"
  have orderFidelity := read "orderFidelity"
  have fidelity := read "fidelity"
  have raw := read "rawRef"
  have kind := read "kind"
  have author := read "author"
  have occurred := read "occurredAt"
  have text := read "text"
  have label := read "toolLabel"
  have tool := read "toolUpdateJson"
  have child := read "childSourceThreadId"
  cases unknown : a.occurredAtUnknown <;> cases unknown' : b.occurredAtUnknown <;>
    simp [Event.members,unknown,unknown'] at id thread revision projection order index orderFidelity <;>
    simp [Event.members,unknown,unknown'] at fidelity raw kind author occurred text label tool child
  all_goals
    have reference := RawReference.members_inj raw
    cases a
    cases b
    simp_all

/-- Unknown times are given without a text. -/
structure Batch.Explicit (b : Batch) : Prop where
  session : b.session.updatedAtUnknown = true → b.session.updatedAt = ""
  events : ∀ e ∈ b.events, e.occurredAtUnknown = true → e.occurredAt = ""

theorem map_obj_inj {α : Type} {f : α → List (String × Json)} {P : α → Prop}
    (injective : ∀ a b, P a → P b → f a = f b → a = b) {as bs : List α} (left : ∀ a ∈ as, P a)
    (right : ∀ b ∈ bs, P b) (same : as.map (fun a => Json.obj (f a)) = bs.map fun b => Json.obj (f b)) :
    as = bs := by
  induction as generalizing bs with
  | nil => simpa using same.symm
  | cons a as ih =>
    cases bs with
    | nil => simp at same
    | cons b bs =>
      simp only [List.map_cons,List.cons.injEq,Json.obj.injEq] at same
      rw [injective a b (left a List.mem_cons_self) (right b List.mem_cons_self) same.1,
        ih (fun a member => left a (List.mem_cons_of_mem _ member))
          (fun b member => right b (List.mem_cons_of_mem _ member)) same.2]

theorem Batch.json_inj {a b : Batch} (explicit : a.Explicit) (explicit' : b.Explicit)
    (same : a.json = b.json) : a = b := by
  have read (name : String) := congrArg (Json.member name) (Json.obj.inj same)
  have protocol := read "protocolVersion"
  have profile := read "canonicalProfileVersion"
  have id := read "batchId"
  have observed := read "observedAt"
  have source := read "source"
  have project := read "projectId"
  have session := read "session"
  have threads := read "threads"
  have events := read "events"
  have usage := read "usage"
  simp only [Batch.members] at protocol profile id observed source project session threads events usage
  simp at protocol profile id observed source project session threads events
  have sessions := Session.members_inj explicit.session explicit'.session session
  have threadLists := map_obj_inj (P := fun _ => True) (fun _ _ _ _ => Thread.members_inj)
    (fun _ _ => trivial) (fun _ _ => trivial) threads
  have eventLists := map_obj_inj (fun _ _ => Event.members_inj) explicit.events explicit'.events events
  have usageLists : a.usage = b.usage := by
    apply map_obj_inj (P := fun _ => True) (fun _ _ _ _ => Usage.members_inj)
      (fun _ _ => trivial) (fun _ _ => trivial)
    by_cases none_ : a.usage = [] <;> by_cases none' : b.usage = [] <;> simp_all
  cases a
  cases b
  simp_all

theorem integralItems_map {α : Type} (f : α → Json) (as : List α) (integral : ∀ a ∈ as, (f a).Integral) :
    Json.IntegralItems (as.map f) := by
  induction as with
  | nil => trivial
  | cons a as ih =>
    exact ⟨integral a List.mem_cons_self,ih fun b member => integral b (List.mem_cons_of_mem _ member)⟩

theorem Batch.json_integral (b : Batch) : b.json.Integral := by
  have session : Json.IntegralMembers b.session.members := by
    unfold Session.members
    split <;> simp [Json.IntegralMembers,Json.Integral,Actor.json]
  have threads : Json.IntegralItems (b.threads.map fun t => Json.obj t.members) := by
    apply integralItems_map
    intro t _
    cases parent : t.parentSourceThreadID <;>
      simp [Thread.members,parent,Json.presentMember,Json.IntegralMembers,Json.Integral]
  have events : Json.IntegralItems (b.events.map fun e => Json.obj e.members) := by
    apply integralItems_map
    intro e _
    cases child : e.childSourceThreadID <;> cases unknown : e.occurredAtUnknown <;>
      simp [Event.members,child,unknown,RawReference.members,Json.presentMember,Json.IntegralMembers,
        Json.Integral]
  have usage : Json.IntegralItems (b.usage.map fun u => Json.obj u.members) := by
    apply integralItems_map
    intro u _
    simp [Usage.members,Json.IntegralMembers,Json.Integral,Json.integral_presentMember]
  by_cases none_ : b.usage = [] <;>
    simp_all [Batch.json,Batch.members,Json.IntegralMembers,Json.Integral,Source.json]

end ATape.Ingestion
