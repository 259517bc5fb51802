import ATape.Publication.Validation

/-! The records that a target inherits from its base, read in bounded pages and stored as
derived parts, which no client has put. -/
namespace ATape.Publication
open Authorization Canonical Foundation Go SourceIdentity

/-! The threads of a target that are inherited -/

/-- The headers of a target by the names of its source. A later one takes the name. -/
def threadsBySource (source : SourceRow) : List ThreadRecord → Except Failure (List (String × ThreadRecord))
  | [] => .ok []
  | thread::threads => do
    let name ← present (sourceThreadID source.sourceKey thread.sourceKey) (conflict "target Thread source scope changed")
    let rest ← threadsBySource source threads
    .ok (rest++[(name,thread)])

namespace Tables

def retentionThread (t : Tables) (sessionID : String) (bySource : List (String × ThreadRecord)) (name : String) :
    Except Failure ThreadRecord := do
  let header ← present ((bySource.lookup name).filter fun thread => thread.parentThreadID.isSome)
    (invalid "retention requires a declared nonroot Thread")
  let base ← present (t.getThreadForRead sessionID header.id) (invalid "retained Thread is absent from the bound base")
  failWhen (base.sourceKey ≠ header.sourceKey || base.parentThreadID ≠ header.parentThreadID)
    (conflict "retained Thread identity or parent changed")
  .ok header

def retentionThreads (t : Tables) (sessionID : String) (source : SourceRow) (target : Target)
    (headers : List ThreadRecord) : Except Failure (List ThreadRecord) := do
  let bySource ← threadsBySource source headers
  target.retained.mapM (t.retentionThread sessionID bySource)

def fixedPublicationPart (t : Tables) (id : String) (ordinal : Nat) : Except Failure WriteBatch := do
  let part ← present (t.parts.lookup (id,ordinal)) (.persist "read fixed Canonical bounds")
  match part.payload with
  | .body _ => .error (.persist "read fixed Canonical format")
  | .fixed unit size => do
    failWhen (size < 1 || 4*2^20 < size) (.persist "read fixed Canonical format")
    .ok unit

end Tables

/-! The base -/

/-- What one call may still read of the units of the base, and those it has read. -/
structure Baseline where
  remaining : Nat
  units : List (Nat × WriteBatch)

inductive Reading (α : Type)
  | value (a : α)
  | spent

namespace Tables

def baselineUnit (limits : Limits) (t : Tables) (head : String) (b : Baseline) (ordinal : Nat) :
    Except Failure (Baseline × Reading WriteBatch) :=
  match b.units.lookup ordinal with
  | some unit => .ok (b,.value unit)
  | none => do
    let part ← present (t.parts.lookup (head,ordinal)) (.persist "read retained baseline unit bound")
    failWhen (limits.partBytes < part.payload.storedBytes)
      (capacity "baseline unit exceeds current retention read budget")
    if b.remaining < part.payload.storedBytes then .ok (b,.spent)
    else do
      let unit ← t.fixedPublicationPart head ordinal
      .ok (⟨b.remaining-part.payload.storedBytes,(ordinal,unit)::b.units⟩,.value unit)

/-- The next member of a kind that the base has in a thread, in the order of the keys. -/
def nextBaselineMember (t : Tables) (head : String) (kind : MemberKind) (threadID after : String) : Option MemberRow :=
  let rows := t.members.rows.filter fun row =>
    row.1.attemptID = head && row.1.kind = kind && row.2.threadID = threadID && after < row.2.sourceKey
  ((rows.map Prod.snd).insertionSort fun a b => a.sourceKey ≤ b.sourceKey).head?

def baselineThreadEvent (t : Tables) (sessionID threadID after : String) : Option EventRecord :=
  let rows := t.events.rows.filter fun row =>
    row.2.sessionID = sessionID && row.2.threadID = threadID && after < row.2.id
  ((rows.map Prod.snd).insertionSort fun a b => a.id ≤ b.id).head?

def baselineThreadUsage (t : Tables) (sessionID threadID after : String) : Option UsageRecord :=
  let rows := t.usage.rows.filter fun row =>
    row.2.sessionID = sessionID && row.2.threadID = threadID && after < row.2.sourceKey
  ((rows.map Prod.snd).insertionSort fun a b => a.sourceKey ≤ b.sourceKey).head?

/-- A record of the head, by the place of its member. -/
def baselineMember {α : Type} (limits : Limits) (t : Tables) (b : Baseline) (head : String) (kind : MemberKind)
    (records : WriteBatch → List α) (operation threadID after : String) :
    Except Failure (Baseline × Reading (Option (α × String))) :=
  match t.nextBaselineMember head kind threadID after with
  | none => .ok (b,.value none)
  | some member => do
    let (b,unit) ← t.baselineUnit limits head b member.partOrdinal
    match unit with
    | .spent => .ok (b,.spent)
    | .value unit => do
      let record ← present (records unit)[member.entryIndex]? (.persist operation)
      .ok (b,.value (some (record,member.sourceKey)))

def baselineEvent (limits : Limits) (pk : Packages) (t : Tables) (sessionID : String) (source : SourceRow)
    (b : Baseline) (threadID after : String) : Except Failure (Baseline × Reading (Option (EventRecord × String))) :=
  match source.currentHead with
  | none => .ok (b,.value ((t.baselineThreadEvent sessionID threadID after).map fun event => (event,event.id)))
  | some head => do
    let head ← publicationID pk head
    t.baselineMember limits b head .event (·.events) "read retained Event position" threadID after

def baselineUsage (limits : Limits) (pk : Packages) (t : Tables) (sessionID : String) (source : SourceRow)
    (b : Baseline) (threadID after : String) : Except Failure (Baseline × Reading (Option (UsageRecord × String))) :=
  match source.currentHead with
  | none => .ok (b,.value ((t.baselineThreadUsage sessionID threadID after).map fun usage => (usage,usage.sourceKey)))
  | some head => do
    let head ← publicationID pk head
    t.baselineMember limits b head .usage (·.usage) "read retained usage position" threadID after

/-! One page of inherited records -/

inductive Inherited
  | event (event : EventRecord)
  | usage (usage : UsageRecord)

def Inherited.append (unit : WriteBatch) : Inherited → WriteBatch
  | .event record => {unit with events := unit.events++[record]}
  | .usage record => {unit with usage := unit.usage++[record]}

/-- A child named by an inherited event is in the topology of the target. -/
def childKnown (threads : List ThreadRecord) (event : EventRecord) : Bool :=
  event.childThreadID.all fun child =>
    threads.any fun thread => thread.id = child && thread.parentThreadID = some event.threadID

def checkInherited (unit : WriteBatch) : Inherited → Except Failure Unit
  | .event event => failWhen (!childKnown unit.threads event)
      (invalid "retained Event references a child outside the target topology")
  | .usage _ => .ok ()

/-- The record at the cursor. -/
def readInherited (limits : Limits) (pk : Packages) (t : Tables) (sessionID : String) (source : SourceRow)
    (b : Baseline) (cursor : RetentionCursor) (threadID : String) :
    Except Failure (Baseline × Reading (Option (Inherited × String))) :=
  if cursor.usage then do
    let (b,read) ← t.baselineUsage limits pk sessionID source b threadID cursor.after
    match read with
    | .spent => .ok (b,.spent)
    | .value found => .ok (b,.value (found.map fun (usage,next) => (.usage usage,next)))
  else do
    let (b,read) ← t.baselineEvent limits pk sessionID source b threadID cursor.after
    match read with
    | .spent => .ok (b,.spent)
    | .value found => .ok (b,.value (found.map fun (event,next) => (.event event,next)))

/-- The usage of a thread follows its events, and the next thread its usage. -/
def RetentionCursor.next (cursor : RetentionCursor) : RetentionCursor :=
  if cursor.usage then ⟨cursor.thread+1,false,""⟩ else ⟨cursor.thread,true,""⟩

/-- How many rounds are left: each appends a record or moves on. -/
def rounds (threads n : Nat) (cursor : RetentionCursor) : Nat :=
  (50-n)+2*(threads-cursor.thread)+(if cursor.usage then 0 else 1)

def retainedPage (limits : Limits) (pk : Packages) (t : Tables) (sessionID : String) (source : SourceRow)
    (threads : List ThreadRecord) (n : Nat) (b : Baseline) (cursor : RetentionCursor) (unit : WriteBatch) :
    Except Failure (RetentionCursor × WriteBatch) :=
  if more : n < 50 ∧ cursor.thread < threads.length then do
    let (b,read) ← t.readInherited limits pk sessionID source b cursor threads[cursor.thread].id
    match read with
    | .spent => .ok (cursor,unit)
    | .value none => retainedPage limits pk t sessionID source threads n b (RetentionCursor.next cursor) unit
    | .value (some (record,next)) => do
      let grown := record.append unit
      checkInherited grown record
      let encoded ← encodeUnit grown "encode retained unit"
      if limits.partBytes < len encoded then do
        -- A record that does not fit waits for a unit of its own.
        failWhen (unit.events.length+unit.usage.length = 0) (capacity "retained member exceeds current part budget")
        .ok (cursor,unit)
      else retainedPage limits pk t sessionID source threads (n+1) b {cursor with after := next} grown
  else .ok (cursor,unit)
termination_by rounds threads.length n cursor
decreasing_by
  · unfold rounds RetentionCursor.next
    split
    next => simp; omega
    next => simp
  · unfold rounds
    simp only
    omega

/-! The edges -/

/-- The events that name a thread as their child, two at most. -/
def baselineParentEdges (t : Tables) (sessionID childThreadID : String) : List EventRecord :=
  (((t.visibleEvents sessionID).filter fun event => event.childThreadID = some childThreadID).insertionSort
    fun a b => a.id ≤ b.id).take 2

/-- An inherited thread hangs on the event that it hung on in the base. -/
def validateRetainedEdge (t : Tables) (id sessionID : String) (thread : ThreadRecord) : Except Failure Unit :=
  match t.baselineParentEdges sessionID thread.id with
  | [edge] => do
    failWhen (some edge.threadID ≠ thread.parentThreadID) (invalid "retained Thread has no unique baseline parent Event")
    let location ← present (t.members.lookup ⟨id,.event,edge.id⟩)
      (invalid "retained Thread parent Event left the target")
    let part ← t.fixedPublicationPart id location.partOrdinal
    let event ← present part.events[location.entryIndex]? (.persist "read selected parent Event")
    failWhen (some event.threadID ≠ thread.parentThreadID || event.childThreadID ≠ some thread.id)
      (conflict "retained Thread parent Event changed its relationship")
  | _ => .error (invalid "retained Thread has no unique baseline parent Event")

def validateRetainedEdges (t : Tables) (id sessionID : String) (threads : List ThreadRecord) : Except Failure Unit :=
  threads.forM (t.validateRetainedEdge id sessionID)

/-! The derived part -/

/-- An attempt after a page of inherited records. -/
def inherited (parts bytes : Nat) (cursor : RetentionCursor) (state : AttemptState) (row : AttemptRow) : AttemptRow :=
  {row with
    derivedParts := row.derivedParts+parts
    retainedBytes := row.retainedBytes+bytes
    retentionCursor := some cursor
    state := state}

def advancePublicationRetention (t : Tables) (id : String) (parts bytes : Nat) (cursor : RetentionCursor)
    (state : AttemptState) : Tables :=
  t.modifyAttempt id (inherited parts bytes cursor state)

/-- The part of a page with records, which follows the parts of the manifest. -/
def storeInherited (limits : Limits) (pk : Packages) (t : Tables) (c : Context) (userID id : String)
    (row : AttemptRow) (a : Attempt) (manifest : Manifest) (unit : WriteBatch) : Except Failure (Tables × Nat) := do
  failWhen ((limits.parts : Int) ≤ row.derivedParts+manifest.parts)
    (capacity "retention exceeds configured storage unit budget")
  let encoded ← encodeUnit unit "encode retained Canonical unit"
  failWhen ((limits.targetBytes : Int)-a.retainedBytes < len encoded ||
    (limits.userPendingBytes : Int)-t.pendingBytes userID < len encoded)
    (capacity "retention exceeds pending payload budget")
  let ordinal := manifest.parts.toNat+row.derivedParts
  let t ← t.insertPart id ordinal ⟨pk.hash.hex encoded,len encoded,.fixed unit (len encoded),true⟩ "store inherited unit"
  let (t,_) ← t.materializePublicationContent pk c id a.sessionID ordinal unit true
  .ok (t,len encoded)

def validateRetention (limits : Limits) (pk : Packages) (t : Tables) (c : Context) (userID id : String)
    (source : SourceRow) (row : AttemptRow) (a : Attempt) (manifest : Manifest) :
    Except Failure (Tables × Attempt) := do
  let target ← present row.targetJson (invalid "validated target declaration is absent")
  let first ← t.fixedPublicationPart id 0
  let threads ← t.retentionThreads a.sessionID source target first.threads
  let start := row.retentionCursor.getD ⟨0,false,""⟩
  let (cursor,unit) ← t.retainedPage limits pk a.sessionID source threads 0 ⟨limits.partBytes,[]⟩ start
    {first with events := [], usage := []}
  let done := decide (cursor.thread = threads.length)
  let filled := decide (0 < unit.events.length+unit.usage.length)
  let (written,bytes) ← (if filled then t.storeInherited limits pk c userID id row a manifest unit else .ok (t,0))
  let _ ← (if done then written.validateRetainedEdges id a.sessionID threads else .ok ())
  let written := written.advancePublicationRetention id (if filled then 1 else 0) bytes cursor
    (if done then .validated else .validating)
  let (_,current) ← written.publicationAttempt id (c.clock 2)
  liveAttempt current
  .ok (written,current)

/-- `Validate` commits at most one part, or one page of what is inherited. -/
def validate (limits : Limits) (pk : Packages) (t : Tables) (c : Context) (p : Principal) (attemptID : String) :
    Except Failure (Tables × Attempt) := do
  let id ← publicationID pk attemptID
  let userID ← publicationUser pk p
  let (_,source) ← t.reservation c p id
  let (row,a) ← t.publicationAttempt id (c.clock 1)
  liveAttempt a
  if a.state = .validated then .ok (t,a)
  else do
    let manifest ← present a.seal_ (invalid "only a sealed candidate can validate")
    failWhen (a.state ≠ .sealed && a.state ≠ .validating) (invalid "only a sealed candidate can validate")
    if (a.validatedParts : Int) = manifest.parts then t.validateRetention limits pk c userID id source row a manifest
    else t.validatePart limits pk c p userID id source row a manifest

end Tables
end ATape.Publication
