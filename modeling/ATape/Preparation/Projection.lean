import ATape.Capture.History
import ATape.Node.Json

/-! Views of a source and their Canonical projection: frames are validated, masked, counted and fingerprinted as they
are read. What a record has besides the members that the projection looks at stays as it is. -/
namespace ATape.Preparation
open Capture Foundation Node

inductive Reason
  | invalid
  | binding
  | capacity
  | unsupported
  | conflict
  | deadline
deriving DecidableEq

/-- What a preparation or a comparison fails with: an error of its own, one of the journal, one of the adapter
contract, or one of the source that is read. -/
inductive Failure
  | refused (reason : Reason) (message : String)
  | journal (error : CaptureJournalError)
  | contract (message : String)
  | source
deriving DecidableEq

def fail (reason : Reason) (message : String) : Failure := .refused reason message

inductive CanonicalProfile
  | v2
  | v3
  | v4
  | v5
deriving DecidableEq

structure AdapterSession (α : Type) where
  sourceSessionId : String
  reportedEventCount : ℤ
  body : α

structure AdapterThread (α : Type) where
  sourceThreadId : String
  parentSourceThreadId : Option String
  body : α

structure AdapterEvent (α : Type) where
  sourceThreadId : String
  sourceEventId : String
  sourceOrder : ℤ
  eventIndex : ℤ
  body : α

structure AdapterUsage (α : Type) where
  sourceThreadId : String
  sourceUsageId : String
  body : α

structure Observation (α : Type) where
  session : AdapterSession α
  threads : List (AdapterThread α)
  events : List (AdapterEvent α)
  usage : List (AdapterUsage α)

structure Frame (α : Type) where
  recordKey : String
  raw : Option α
  events : List (AdapterEvent α)
  usage : List (AdapterUsage α)

structure Page (α : Type) where
  frames : List (Frame α)
  done : Bool

structure Target where
  events : ℤ
  usage : ℤ
  threads : ℤ
  retainedThreadIds : List String

/-- A view of a source, with the pages that its reads give one after the other. -/
structure View (α : Type) where
  profile : String
  canonicalProfileVersion : Option CanonicalProfile
  sourceId : String
  originKey : String
  session : AdapterSession α
  threads : List (AdapterThread α)
  target : Target
  sourceCheckpoint : Option String
  sourceFailures : List String
  sourceFailuresTruncated : Bool
  pages : List (Page α)

/-- What the host knows of the contents of records: whether an observation is a valid page and can be masked, its
masks, the JSON values of its records without their revisions, and the masked archive rows, of which some are gaps. -/
structure Host (α : Type) where
  digest : ByteArray → String
  validatePage : CanonicalProfile → Observation α → Bool
  redactable : Observation α → Bool
  maskSession : AdapterSession α → AdapterSession α
  maskThread : AdapterThread α → AdapterThread α
  maskEvent : AdapterEvent α → AdapterEvent α
  maskUsage : AdapterUsage α → AdapterUsage α
  sessionJson : AdapterSession α → Json
  threadJson : AdapterThread α → Json
  eventJson : CanonicalProfile → AdapterSession α → List (AdapterThread α) → AdapterEvent α → Json
  usageJson : AdapterUsage α → Json
  maskFailure : String → String
  redactRaw : α → Except Unavailable Json

namespace Host
variable {α : Type} (h : Host α)

def encodeSource (value : Json) : ByteArray := (stringify value).toUTF8

def sourceFingerprint (value : Json) : String := h.digest (encodeSource value)

def prepareCanonicalSlice (profile : CanonicalProfile) (input : Observation α) : Except Failure (Observation α) := do
  failWhen (h.validatePage profile input = false) (.contract "Canonical slice has an invalid Adapter shape.")
  failWhen (h.redactable input = false) (.contract "Content cannot be safely redacted within its bounds.")
  let masked : Observation α :=
    ⟨h.maskSession input.session,input.threads.map h.maskThread,input.events.map h.maskEvent,input.usage.map h.maskUsage⟩
  failWhen (h.validatePage profile masked = false) (.contract "Canonical slice has an invalid Adapter shape.")
  .ok masked

end Host

def projectionVersion : CanonicalProfile → String
  | .v5 => "atape.host-canonical.v4"
  | .v4 => "atape.host-canonical.v3"
  | .v3 => "atape.host-canonical.v2"
  | .v2 => "atape.host-canonical.v1"

def View.canonicalProfile {α : Type} (view : View α) : CanonicalProfile := view.canonicalProfileVersion.getD .v2

def sourceProjectionProfile {α : Type} (view : View α) (transformVersion : String) : Except Failure String := do
  failWhen (view.profile = "" ∨ (units view.profile).length > 500) (fail .invalid "Source profile exceeds its bound.")
  let profile := projectionVersion view.canonicalProfile++":"++transformVersion++":"++view.profile
  failWhen ((units profile).length > 500) (fail .invalid "Capture projection profile exceeds its bound.")
  .ok profile

structure Projected (β : Type) where
  value : β
  key : String
  fingerprint : String

structure Counters where
  pages : ℕ
  events : ℕ
  usage : ℕ
  lastSourceOrder : ℤ

def Counters.start : Counters := ⟨0,0,0,-1⟩

structure Projection (α : Type) where
  profile : String
  session : AdapterSession α
  threads : List (AdapterThread α)

def safe (value minimum : ℤ) : Bool := decide (minimum ≤ value ∧ value.natAbs ≤ maxSafeInteger)

section Projection
variable {α : Type} (h : Host α) (owner : CaptureOwner) (view : View α) (transformVersion : String)

def canonicalSourceProjection : Except Failure (Projection α) := do
  let profile ← sourceProjectionProfile view transformVersion
  failWhen (view.sourceId ≠ owner.scope.sourceSessionId ∨ view.originKey ≠ owner.scope.originKey ∨
      view.session.sourceSessionId ≠ owner.scope.sourceSessionId)
    (fail .binding "Fresh source Origin differs from the claimed capture.")
  failWhen (safe view.target.events 0 = false ∨ safe view.target.usage 0 = false ∨ safe view.target.threads 1 = false ∨
      view.target.threads ≠ view.threads.length ∨ view.session.reportedEventCount ≠ view.target.events)
    (fail .invalid "Source target counts are inconsistent.")
  failWhen (¬view.target.retainedThreadIds.Nodup ∨ view.target.retainedThreadIds.length > 1000 ∨
      view.target.retainedThreadIds.any (fun id => !view.threads.any fun thread =>
        decide (thread.sourceThreadId = id) && thread.parentSourceThreadId.isSome) = true)
    (fail .invalid "Retained Threads must be unique nonroot headers in the complete target.")
  let masked ← h.prepareCanonicalSlice view.canonicalProfile ⟨view.session,view.threads,[],[]⟩
  .ok ⟨profile,masked.session,masked.threads⟩

variable (projection : Projection α)

def projectPage (page : Page α) (c : Counters) : Except Failure Counters := do
  failWhen (c.pages+1 > 1000001 ∨ page.frames.length > 100 ∨ page.done = false ∧ page.frames.length = 0)
    (fail .capacity "Source frame pagination exceeds its contract.")
  .ok {c with pages := c.pages+1}

def projectEvent (state : Counters × List (Projected (AdapterEvent α))) (event : AdapterEvent α) :
    Except Failure (Counters × List (Projected (AdapterEvent α))) := do
  let (c,events) := state
  failWhen (view.target.retainedThreadIds.contains event.sourceThreadId = true)
    (fail .invalid "Retained Thread cannot also contain explicit Events.")
  failWhen (event.eventIndex ≠ c.events ∨ event.sourceOrder ≤ c.lastSourceOrder ∨ (c.events : ℤ)+1 > view.target.events)
    (fail .invalid "Source Event order or target count is inconsistent.")
  let semantic := h.eventJson view.canonicalProfile projection.session projection.threads event
  .ok ({c with events := c.events+1,lastSourceOrder := event.sourceOrder},
    events++[⟨event,h.sourceFingerprint (.arr [.str event.sourceThreadId,.str event.sourceEventId]),
      h.sourceFingerprint semantic⟩])

def projectUsage (state : Counters × List (Projected (AdapterUsage α))) (sample : AdapterUsage α) :
    Except Failure (Counters × List (Projected (AdapterUsage α))) := do
  let (c,usage) := state
  failWhen (view.target.retainedThreadIds.contains sample.sourceThreadId = true)
    (fail .invalid "Retained Thread cannot also contain explicit usage.")
  failWhen ((c.usage : ℤ)+1 > view.target.usage) (fail .invalid "Source usage exceeds the declared target.")
  .ok ({c with usage := c.usage+1},
    usage++[⟨sample,h.sourceFingerprint (.arr [.str sample.sourceThreadId,.str sample.sourceUsageId]),
      h.sourceFingerprint (h.usageJson sample)⟩])

/-- The records of a frame. -/
structure Ready (α : Type) where
  events : List (Projected (AdapterEvent α))
  usage : List (Projected (AdapterUsage α))

def projectFrame (frame : Frame α) (c : Counters) : Except Failure (Counters × Ready α) := do
  failWhen (frame.events.length > 500 ∨ frame.usage.length > 500)
    (fail .capacity "Source frame exceeds Canonical slice admission.")
  if frame.events.length = 0 ∧ frame.usage.length = 0 then .ok (c,⟨[],[]⟩)
  else do
    let ready ← h.prepareCanonicalSlice view.canonicalProfile ⟨view.session,view.threads,frame.events,frame.usage⟩
    let (c,events) ← ready.events.foldlM (projectEvent h view projection) (c,[])
    let (c,usage) ← ready.usage.foldlM (projectUsage h view) (c,[])
    .ok (c,⟨events,usage⟩)

def finishProjection (c : Counters) : Except Failure RecordCounts := do
  failWhen ((c.events : ℤ) ≠ view.target.events ∨ (c.usage : ℤ) ≠ view.target.usage)
    (fail .invalid "Source ended before its complete declared target.")
  .ok ⟨1,projection.threads.length,c.events,c.usage⟩

end Projection

/-! The records of a whole view. -/

/-- A record with its fingerprint and its profile. -/
structure Identity where
  record : CaptureRecordKey
  fingerprint : String
  profile : String
deriving DecidableEq

section Records
variable {α : Type} (h : Host α) (view : View α) (projection : Projection α)

def Ready.identities (profile : String) (ready : Ready α) : List Identity :=
  ready.events.map (fun r => ⟨⟨.event,r.key⟩,r.fingerprint,profile⟩)++
    ready.usage.map fun r => ⟨⟨.usage,r.key⟩,r.fingerprint,profile⟩

def headerIdentities : List Identity :=
  ⟨⟨.session,projection.session.sourceSessionId⟩,h.sourceFingerprint (h.sessionJson projection.session),projection.profile⟩::
    projection.threads.map fun thread =>
      ⟨⟨.thread,thread.sourceThreadId⟩,h.sourceFingerprint (h.threadJson thread),projection.profile⟩

/-- The frames of a view are projected one after the other, up to the end of the page that is the last one. -/
def projectFrames : List (Frame α) → Counters → Except Failure (Counters × List (Ready α))
  | [],c => .ok (c,[])
  | frame::frames,c => do
    let (c,ready) ← projectFrame h view projection frame c
    let (c,rest) ← projectFrames frames c
    .ok (c,ready::rest)

def projectPages : List (Page α) → Counters → Except Failure (Counters × List (Ready α))
  | [],_ => .error .source
  | page::pages,c => do
    let c ← projectPage page c
    let (c,ready) ← projectFrames h view projection page.frames c
    if page.done then .ok (c,ready)
    else do
      let (c,rest) ← projectPages pages c
      .ok (c,ready++rest)

def View.projected (owner : CaptureOwner) (transformVersion : String) :
    Except Failure (Projection α × List (Ready α) × RecordCounts) := do
  let projection ← canonicalSourceProjection h owner view transformVersion
  let (c,ready) ← projectPages h view projection view.pages .start
  let counts ← finishProjection view projection c
  .ok (projection,ready,counts)

end Records

end ATape.Preparation
