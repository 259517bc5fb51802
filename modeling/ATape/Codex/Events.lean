import ATape.Codex.Registry

/-! The events that one pass over the files of a Codex session emits. -/
namespace ATape.Codex
open Foundation

/-! Reading a file. -/

structure Line where
  start : Nat
  finish : Nat
  content : List UInt8

def readBlockBytes : Nat := 64*1024

def maxJsonlRecordBytes : Nat := 16*1024*1024

/-- `basename` -/
def basename (path : String) : String := (path.splitOn "/").getLastD ""

/-- The lines of the bytes at hand behind those of a line that is begun, with the place and the bytes of what is left. -/
def cutLines : Nat → List UInt8 → List UInt8 → List Line × Nat × List UInt8
  | pendingStart,pending,[] => ([],pendingStart,pending)
  | pendingStart,pending,byte::rest =>
    let content := pending++[byte]
    if byte = 0x0a then
      let others := cutLines (pendingStart+content.length) [] rest
      (⟨pendingStart,pendingStart+content.length,content⟩::others.1,others.2)
    else cutLines pendingStart content rest

/-- The lines up to a place, and the failure that ends them, if one does. -/
def readBlocks (path : String) (content : List UInt8) (finish position pendingStart : Nat) (pending : List UInt8) :
    List Line × Option CodexArchiveError :=
  if more : position < finish then
    let block := (content.drop position).take (min readBlockBytes (finish-position))
    if ended : block.length = 0 then ([],none)
    else
      let cut := cutLines pendingStart [] (pending++block)
      if cut.2.2.length > maxJsonlRecordBytes then
        (cut.1,some ⟨.limit,"Codex rollout "++basename path++" contains a JSONL record larger than "++
          toString maxJsonlRecordBytes++" bytes."⟩)
      else
        let others := readBlocks path content finish (position+block.length) cut.2.1 cut.2.2
        (cut.1++others.1,others.2)
  else if pending ≠ [] then ([⟨pendingStart,position,pending⟩],none)
  else ([],none)
termination_by finish-position
decreasing_by
  exact Nat.sub_lt_sub_left more (Nat.lt_add_of_pos_right (Nat.pos_of_ne_zero ended))

def readLines (path : String) (content : List UInt8) (start finish : Nat) : List Line × Option CodexArchiveError :=
  readBlocks path content finish start start []

/-! Events. -/

structure AdapterThread where
  sourceThreadID : String
  parentSourceThreadID : Option String
  label : String

inductive Fidelity
  | native
  | derived
deriving DecidableEq

inductive RawReference
  | object (sourceObjectID fragment : String)
  | unavailable (reason : String)
deriving DecidableEq

/-- An update that the collector writes itself, or the JSON text of one that it maps. -/
inductive AcpSessionUpdate
  | toolCall (toolCallID title kind status : String)
  | mapped (json : String)
deriving DecidableEq

/-- The source order is a number, or none where the sum of the source is not one. -/
structure AdapterEvent where
  sourceEventID : String
  sourceThreadID : String
  revision : Nat
  projectionRevision : Nat
  sourceOrder : Option Nat
  eventIndex : Nat
  orderFidelity : Fidelity
  fidelity : Fidelity
  rawRef : RawReference
  occurredAt : Option String
  update : AcpSessionUpdate
  childSourceThreadID : Option String
deriving DecidableEq

structure RolloutFile where
  path : String
  sourceObjectID : String
  generation : String
  content : List UInt8
  threadID : String
  timestamp : Option String

inductive Phase
  | canonical
  | raw
deriving DecidableEq

structure ActiveCursor where
  phase : Phase
  sessionID : String
  revision : Nat
  files : List CursorFile
  spawnOffset : Nat
  eventFileIndex : Nat
  eventOffset : Nat

/-- How lines map to events and usage; the mapping of a line is left open. -/
structure CanonicalProjection (Usage : Type) where
  usageByCoordinate : String → Option Usage
  mapProjectedItem : Line → CursorFile → Option AdapterEvent

structure Limits where
  threadsPerObservation : Nat
  eventsPerObservation : Nat
  canonicalBytesPerObservation : Nat

/-- What a pass works on: the cursor, the threads and files of the session, and the lengths of JSON texts. -/
structure Collection (Usage : Type) where
  active : ActiveCursor
  threads : List AdapterThread
  currentFiles : List RolloutFile
  projection : CanonicalProjection Usage
  eventSize : AdapterEvent → Nat
  usageSize : Usage → Nat
  canonicalBaseBytes : Nat
  limits : Limits

structure Collecting (Usage : Type) where
  events : List AdapterEvent
  usage : List Usage
  eventBytes : Nat
  eventIDs : List String

structure EventPage (Usage : Type) where
  events : List AdapterEvent
  usage : List Usage
  spawnOffset : Nat
  fileIndex : Nat
  offset : Nat
  complete : Bool

def eventProjectionVersion : Nat := 7

section Collect
variable {Usage : Type} (c : Collection Usage) (sourceRanks : SourceRanks)

def Collection.byteLimit : Nat := c.limits.canonicalBytesPerObservation-c.canonicalBaseBytes

def additionalBytes (state : Collecting Usage) (event : AdapterEvent) : Nat :=
  c.eventSize event+if state.events = [] then 0 else 1

def appendEvent (state : Collecting Usage) (event : AdapterEvent) : Result (Option (Collecting Usage)) :=
  let eventBytes := state.eventBytes+additionalBytes c state event
  if eventBytes > c.byteLimit then do
    failWhen (state.events = [])
      ⟨.limit,"Codex Event "++event.sourceEventID++" exceeds the Canonical byte limit."⟩
    pure none
  else pure (some {state with events := state.events++[event], eventBytes})

def Collection.children : List AdapterThread := c.threads.filter (·.parentSourceThreadID.isSome)

def spawnEvent (spawnOffset : Nat) (child : AdapterThread) (parent : String) : AdapterEvent :=
  { sourceEventID := "spawn-"++child.sourceThreadID
    sourceThreadID := parent
    revision := c.active.revision
    projectionRevision := eventProjectionVersion
    sourceOrder := some 0
    eventIndex := spawnOffset
    orderFidelity := .derived
    fidelity := .derived
    rawRef := .unavailable "Derived from Codex session metadata"
    occurredAt := (c.currentFiles.find? (·.threadID = child.sourceThreadID)).bind (·.timestamp)
    update := .toolCall ("spawn-"++child.sourceThreadID) ("Spawn "++child.label) "think" "completed"
    childSourceThreadID := some child.sourceThreadID }

def spawnEvents : List AdapterThread → Nat → Collecting Usage → Result (Collecting Usage × Nat)
  | [],spawnOffset,state => pure (state,spawnOffset)
  | child::children,spawnOffset,state =>
    if state.events.length < c.limits.eventsPerObservation then
      match child.parentSourceThreadID with
      | none => pure (state,spawnOffset)
      | some parent => do
        match ← appendEvent c state (spawnEvent c spawnOffset child parent) with
        | none => pure (state,spawnOffset)
        | some state => spawnEvents children (spawnOffset+1) state
    else pure (state,spawnOffset)

def eventKey (event : AdapterEvent) : String := event.sourceThreadID++"\x00"++event.sourceEventID

def takeUsage (file : CursorFile) (line : Line) (state : Collecting Usage) : Option (Collecting Usage) :=
  match c.projection.usageByCoordinate (file.sourceObjectID++":"++toString line.start) with
  | none => some state
  | some sample =>
    let bytes := c.usageSize sample+1
    if state.usage.length ≥ c.limits.eventsPerObservation ∨ state.eventBytes+bytes > c.byteLimit then none
    else some {state with usage := state.usage++[sample], eventBytes := state.eventBytes+bytes}

def recordEvent (file : CursorFile) (line : Line) (mapped : AdapterEvent) : AdapterEvent :=
  { mapped with
    revision := c.active.revision
    sourceOrder := file.sourceRank.map fun rank => sourceOrder rank line.start
    orderFidelity :=
      if c.active.files.countP (·.threadID = file.threadID) = 1 ∧
          ((sourceRanks.lookup c.active.sessionID).getD []).countP (·.sourceObjectID = file.sourceObjectID) = 1 then .native
      else .derived }

/-- An event that is on the page already is not put on it again. -/
def admitEvent (state : Collecting Usage) (event : AdapterEvent) : Result (Option (Collecting Usage)) :=
  if eventKey event ∈ state.eventIDs then pure (some state)
  else do
    match ← appendEvent c state event with
    | none => pure none
    | some state => pure (some {state with eventIDs := eventKey event::state.eventIDs})

/-- The lines of a file from an offset, with the offset reached and whether that is the end. -/
def readRecords (file : CursorFile) : List Line → Option CodexArchiveError → Nat → Collecting Usage →
    Result (Collecting Usage × Nat × Bool)
  | [],none,offset,state => pure (state,offset,true)
  | [],some failure,_,_ => .error failure
  | line::lines,failure,offset,state =>
    match takeUsage c file line state with
    | none => pure (state,offset,false)
    | some state =>
      match c.projection.mapProjectedItem line file with
      | none => readRecords file lines failure line.finish state
      | some mapped => do
        match ← admitEvent c state (recordEvent c sourceRanks file line mapped) with
        | none => pure (state,offset,false)
        | some state =>
          if state.events.length ≥ c.limits.eventsPerObservation then
            pure (state,line.finish,decide (line.finish ≥ file.size))
          else readRecords file lines failure line.finish state

def readFiles : List CursorFile → Nat → Nat → Collecting Usage → Result (Collecting Usage × Nat × Nat)
  | [],fileIndex,offset,state => pure (state,fileIndex,offset)
  | file::files,fileIndex,offset,state =>
    if state.events.length < c.limits.eventsPerObservation then
      match (c.currentFiles.find? (·.sourceObjectID = file.sourceObjectID)).filter (·.generation = file.generation) with
      | none => readFiles files (fileIndex+1) 0 state
      | some current => do
        let offset := max offset (file.startOffset.getD 0)
        let lines := readLines current.path current.content offset file.size
        let (state,offset,reachedEnd) ← readRecords c sourceRanks file lines.1 lines.2 offset state
        if reachedEnd = false ∨ state.events.length ≥ c.limits.eventsPerObservation ∧ offset < file.size then
          pure (state,fileIndex,offset)
        else readFiles files (fileIndex+1) 0 state
    else pure (state,fileIndex,offset)

def collectEvents : Result (EventPage Usage) := do
  let (state,spawnOffset) ←
    spawnEvents c (c.children.drop c.active.spawnOffset) c.active.spawnOffset ⟨[],[],0,[]⟩
  let state := {state with eventIDs := state.events.map eventKey}
  let (state,fileIndex,offset) ←
    (if spawnOffset ≥ c.children.length then
      readFiles c sourceRanks (c.active.files.drop c.active.eventFileIndex) c.active.eventFileIndex c.active.eventOffset state
    else pure (state,c.active.eventFileIndex,c.active.eventOffset))
  pure
    { events := state.events
      usage := state.usage
      spawnOffset
      fileIndex
      offset
      complete := decide (spawnOffset ≥ c.children.length ∧ fileIndex ≥ c.active.files.length) }

def completedEventPage : EventPage Usage :=
  { events := []
    usage := []
    spawnOffset := c.active.spawnOffset
    fileIndex := c.active.eventFileIndex
    offset := c.active.eventOffset
    complete := true }

/-- The events of a pass over a session; a pass over the raw files has none. -/
def collectActiveSession : Result (EventPage Usage) := do
  failWhen (c.threads.length > c.limits.threadsPerObservation)
    ⟨.limit,"Codex session "++c.active.sessionID++" has "++toString c.threads.length++" Threads; the Host limit is "++
      toString c.limits.threadsPerObservation++"."⟩
  failWhen (c.canonicalBaseBytes > c.limits.canonicalBytesPerObservation)
    ⟨.limit,"Codex session "++c.active.sessionID++" metadata exceeds the Canonical byte limit."⟩
  if c.active.phase = .canonical then collectEvents c sourceRanks else pure (completedEventPage c)

end Collect

def ranked (sourceRanks : SourceRanks) (active : ActiveCursor) : ActiveCursor :=
  {active with files := active.files.map fun file => {file with sourceRank := rankOf sourceRanks active.sessionID file.key}}

def checkSize (file : CursorFile) : Result Unit :=
  failWhen (file.size ≥ sourceOrderStride)
    ⟨.limit,"Codex rollout "++file.sourceName++" reaches the 512 GiB source order coordinate limit."⟩

/-- A pass: the ranks it keeps and the page it emits. -/
def collectSafeSession {Usage : Type} (registry : SourceRanks) (c : Collection Usage) :
    Result (SourceRanks × EventPage Usage) := do
  c.active.files.forM checkSize
  let sourceRanks ← assignSourceRanks (some registry) [⟨c.active.sessionID,c.active.files⟩]
  let page ← collectActiveSession {c with active := ranked sourceRanks c.active} sourceRanks
  pure (sourceRanks,page)


/-! Lines start below the place that they are read up to. -/

theorem cutLines_inside (bytes pending : List UInt8) (pendingStart : Nat) :
    (∀ line ∈ (cutLines pendingStart pending bytes).1, line.start < line.finish ∧
      line.finish ≤ pendingStart+pending.length+bytes.length) ∧
    (cutLines pendingStart pending bytes).2.1+(cutLines pendingStart pending bytes).2.2.length =
      pendingStart+pending.length+bytes.length := by
  induction bytes generalizing pending pendingStart with
  | nil => simp [cutLines]
  | cons byte bytes ih =>
    unfold cutLines
    split
    next =>
      obtain ⟨inside,joined⟩ := ih [] (pendingStart+(pending++[byte]).length)
      simp only [List.length_append,List.length_nil,Nat.add_zero,List.length_cons] at inside joined ⊢
      refine ⟨?_,by omega⟩
      intro line member
      rcases List.mem_cons.mp member with rfl | later
      · refine ⟨Nat.lt_add_of_pos_right (Nat.succ_pos _),?_⟩
        simp only
        omega
      · have bounds := inside line later
        exact ⟨bounds.1,by omega⟩
    next =>
      obtain ⟨inside,joined⟩ := ih (pending++[byte]) pendingStart
      simp only [List.length_append,List.length_nil,List.length_cons] at inside joined ⊢
      refine ⟨?_,by omega⟩
      intro line member
      have bounds := inside line member
      exact ⟨bounds.1,by omega⟩

theorem readBlocks_inside {path : String} {content : List UInt8} {finish position pendingStart : Nat}
    {pending : List UInt8} (joined : pendingStart+pending.length = position) (fits : position ≤ finish ∨ pending = []) :
    ∀ line ∈ (readBlocks path content finish position pendingStart pending).1, line.start < finish := by
  fun_induction readBlocks path content finish position pendingStart pending with
  | case1 => simp
  | case2 position pendingStart pending more block begun cut long =>
    obtain ⟨inside,_⟩ := cutLines_inside (pending++block) [] pendingStart
    have bounded : block.length ≤ finish-position := by simp [block]
    intro line member
    have bounds := inside line member
    rw [List.length_nil,List.length_append] at bounds
    omega
  | case3 position pendingStart pending more block begun cut short others ih =>
    obtain ⟨inside,rest⟩ := cutLines_inside (pending++block) [] pendingStart
    have bounded : block.length ≤ finish-position := by simp [block]
    have kept : cut.2.1+cut.2.2.length = position+block.length := by
      rw [rest,List.length_nil,List.length_append]
      omega
    intro line member
    rcases List.mem_append.mp member with here | later
    · have bounds := inside line here
      rw [List.length_nil,List.length_append] at bounds
      omega
    · exact ih kept (.inl (by omega)) line later
  | case4 position pendingStart pending reached left =>
    have positive := List.length_pos_iff.mpr left
    intro line member
    rw [List.mem_singleton.mp member]
    have whole := fits.resolve_right left
    simp only
    omega
  | case5 => simp

theorem readLines_inside {path : String} {content : List UInt8} {start finish : Nat} :
    ∀ line ∈ (readLines path content start finish).1, line.start < finish :=
  readBlocks_inside rfl (.inr rfl)

/-! What is on a page. -/

section Pages
variable {Usage : Type} {c : Collection Usage} {sourceRanks : SourceRanks}

theorem appendEvent_some {state state' : Collecting Usage} {event : AdapterEvent}
    (ok : appendEvent c state event = .ok (some state')) : state'.events = state.events++[event] := by
  unfold appendEvent at ok
  simp only at ok
  split at ok
  next =>
    simp only [bind_ok,pure_ok] at ok
    obtain ⟨_,_,same⟩ := ok
    cases same
  next =>
    cases ok
    rfl

theorem admitEvent_some {state state' : Collecting Usage} {event : AdapterEvent}
    (ok : admitEvent c state event = .ok (some state')) :
    state'.events = state.events ∨ state'.events = state.events++[event] := by
  unfold admitEvent at ok
  split at ok
  next =>
    cases ok
    exact .inl rfl
  next =>
    obtain ⟨appended,first,ok⟩ := (bind_ok _ _ _).mp ok
    cases appended with
    | none => cases ok
    | some middle =>
      have longer := appendEvent_some first
      cases ok
      exact .inr longer

theorem takeUsage_events {file : CursorFile} {line : Line} {state state' : Collecting Usage}
    (taken : takeUsage c file line state = some state') : state'.events = state.events := by
  unfold takeUsage at taken
  split at taken
  next =>
    cases taken
    rfl
  next =>
    simp only at taken
    split at taken
    next => cases taken
    next =>
      cases taken
      rfl

/-- An event that tells of a child of the session, in the place of the child. -/
def Spawned (c : Collection Usage) (e : AdapterEvent) : Prop :=
  ∃ i child parent, c.children[i]? = some child ∧ child.parentSourceThreadID = some parent ∧
    e = spawnEvent c i child parent

structure Recorded (c : Collection Usage) (sourceRanks : SourceRanks) (file : CursorFile) (offset : Nat)
    (e : AdapterEvent) : Prop where
  listed : file ∈ c.active.files
  inside : offset < file.size
  line : ∃ current ∈ c.currentFiles, ∃ start line mapped, current.sourceObjectID = file.sourceObjectID ∧
    current.generation = file.generation ∧ line ∈ (readLines current.path current.content start file.size).1 ∧
    line.start = offset ∧ c.projection.mapProjectedItem line file = some mapped ∧
    e = recordEvent c sourceRanks file line mapped

theorem spawnEvents_all {children : List AdapterThread} {spawnOffset spawnOffset' : Nat} {state state' : Collecting Usage}
    (ok : spawnEvents c children spawnOffset state = .ok (state',spawnOffset'))
    (rest : c.children.drop spawnOffset = children) (spawned : ∀ e ∈ state.events, Spawned c e) :
    ∀ e ∈ state'.events, Spawned c e := by
  induction children generalizing spawnOffset state with
  | nil =>
    cases ok
    exact spawned
  | cons child children ih =>
    unfold spawnEvents at ok
    split at ok
    next =>
      split at ok
      next =>
        cases ok
        exact spawned
      next parent known =>
        obtain ⟨appended,first,ok⟩ := (bind_ok _ _ _).mp ok
        cases appended with
        | none =>
          cases ok
          exact spawned
        | some middle =>
          have here : c.children[spawnOffset]? = some child := by
            have first := congrArg List.head? rest
            rwa [List.head?_drop,List.head?_cons] at first
          have later : c.children.drop (spawnOffset+1) = children := by
            rw [← List.tail_drop,rest,List.tail_cons]
          apply ih ok later
          intro e member
          rw [appendEvent_some first] at member
          rcases List.mem_append.mp member with earlier | last
          · exact spawned e earlier
          · rw [List.mem_singleton.mp last]
            exact ⟨spawnOffset,child,parent,here,known,rfl⟩
    next =>
      cases ok
      exact spawned

theorem readRecords_all {P : AdapterEvent → Prop} {file : CursorFile} {lines : List Line}
    {failure : Option CodexArchiveError} {offset offset' : Nat} {reachedEnd : Bool} {state state' : Collecting Usage}
    (ok : readRecords c sourceRanks file lines failure offset state = .ok (state',offset',reachedEnd))
    (record : ∀ line ∈ lines, ∀ mapped, c.projection.mapProjectedItem line file = some mapped →
      P (recordEvent c sourceRanks file line mapped))
    (before : ∀ e ∈ state.events, P e) : ∀ e ∈ state'.events, P e := by
  induction lines generalizing offset state with
  | nil =>
    cases failure with
    | none =>
      cases ok
      exact before
    | some failure => cases ok
  | cons line lines ih =>
    have others : ∀ line ∈ lines, ∀ mapped, c.projection.mapProjectedItem line file = some mapped →
        P (recordEvent c sourceRanks file line mapped) :=
      fun line member => record line (List.mem_cons_of_mem _ member)
    unfold readRecords at ok
    split at ok
    next =>
      cases ok
      exact before
    next used taken =>
      have kept : ∀ e ∈ used.events, P e := by
        rw [takeUsage_events taken]
        exact before
      split at ok
      next => exact ih ok others kept
      next mapped known =>
        obtain ⟨admitted,first,ok⟩ := (bind_ok _ _ _).mp ok
        cases admitted with
        | none =>
          cases ok
          exact kept
        | some middle =>
          have more : ∀ e ∈ middle.events, P e := by
            intro e member
            rcases admitEvent_some first with same | longer
            · exact kept e (same ▸ member)
            · rw [longer] at member
              rcases List.mem_append.mp member with earlier | last
              · exact kept e earlier
              · rw [List.mem_singleton.mp last]
                exact record line List.mem_cons_self mapped known
          simp only at ok
          split at ok
          next =>
            cases ok
            exact more
          next => exact ih ok others more

theorem readFiles_all {P : AdapterEvent → Prop} {files : List CursorFile} {fileIndex fileIndex' offset offset' : Nat}
    {state state' : Collecting Usage}
    (ok : readFiles c sourceRanks files fileIndex offset state = .ok (state',fileIndex',offset'))
    (record : ∀ file ∈ files, ∀ e start, Recorded c sourceRanks file start e → P e) (part : files ⊆ c.active.files)
    (before : ∀ e ∈ state.events, P e) : ∀ e ∈ state'.events, P e := by
  induction files generalizing fileIndex offset state with
  | nil =>
    cases ok
    exact before
  | cons file files ih =>
    have others : ∀ file ∈ files, ∀ e start, Recorded c sourceRanks file start e → P e :=
      fun file member => record file (List.mem_cons_of_mem _ member)
    have rest : files ⊆ c.active.files := fun file member => part (List.mem_cons_of_mem _ member)
    unfold readFiles at ok
    split at ok
    next =>
      split at ok
      next => exact ih ok others rest before
      next current found =>
        obtain ⟨⟨middle,reached,ended⟩,read,ok⟩ := (bind_ok _ _ _).mp ok
        obtain ⟨named,generation⟩ := Option.filter_eq_some_iff.mp found
        have more : ∀ e ∈ middle.events, P e := by
          apply readRecords_all read _ before
          intro line member mapped known
          apply record file List.mem_cons_self _ line.start
          exact ⟨part List.mem_cons_self,readLines_inside line member,current,List.mem_of_find?_eq_some named,_,line,mapped,
            by simpa using List.find?_some named,of_decide_eq_true generation,member,rfl,known,rfl⟩
        simp only at ok
        split at ok
        next =>
          cases ok
          exact more
        next => exact ih ok others rest more
    next =>
      cases ok
      exact before

theorem collectEvents_all {page : EventPage Usage} (ok : collectEvents c sourceRanks = .ok page) :
    ∀ e ∈ page.events, Spawned c e ∨ ∃ file offset, Recorded c sourceRanks file offset e := by
  simp only [collectEvents,bind_ok,pure_ok] at ok
  obtain ⟨⟨state,spawnOffset⟩,spawn,⟨final,fileIndex,offset⟩,read,rfl⟩ := ok
  have spawned : ∀ e ∈ state.events, Spawned c e := spawnEvents_all spawn rfl (by simp)
  have before : ∀ e ∈ state.events, Spawned c e ∨ ∃ file offset, Recorded c sourceRanks file offset e :=
    fun e member => .inl (spawned e member)
  split at read
  next =>
    apply readFiles_all read _ (List.drop_subset _ _) before
    intro file _ e start recorded
    exact .inr ⟨file,start,recorded⟩
  next =>
    cases read
    exact before

theorem collectActiveSession_all {page : EventPage Usage} (ok : collectActiveSession c sourceRanks = .ok page) :
    ∀ e ∈ page.events, Spawned c e ∨ ∃ file offset, Recorded c sourceRanks file offset e := by
  simp only [collectActiveSession,bind_ok,failWhen_ok,exists_const] at ok
  obtain ⟨_,_,ok⟩ := ok
  split at ok
  next => exact collectEvents_all ok
  next =>
    cases ok
    simp [completedEventPage]

end Pages

theorem collectSafeSession_ok {Usage : Type} {registry sourceRanks : SourceRanks} {c : Collection Usage}
    {page : EventPage Usage} (ok : collectSafeSession registry c = .ok (sourceRanks,page)) (registered : Registered registry) :
    Registered sourceRanks ∧ Extends registry sourceRanks ∧
      (∀ file ∈ c.active.files, file.size < sourceOrderStride ∧
        ∃ rank, rankOf sourceRanks c.active.sessionID file.key = some rank) ∧
      collectActiveSession {c with active := ranked sourceRanks c.active} sourceRanks = .ok page := by
  simp only [collectSafeSession,bind_ok,pure_ok,forM_ok] at ok
  obtain ⟨_,sizes,kept,assigned,found,collected,same⟩ := ok
  cases same
  obtain ⟨registered',longer,known⟩ := assignSnapshots_ok assigned registered
  refine ⟨registered',longer,?_,collected⟩
  intro file member
  have small := sizes file member
  rw [checkSize,failWhen_ok] at small
  refine ⟨Nat.lt_of_not_ge small,?_⟩
  obtain ⟨source,listed,same⟩ := List.mem_map.mp (known ⟨c.active.sessionID,c.active.files⟩ (by simp) file member)
  refine ⟨source.rank,(rankOf_iff registered' _ _ _).mpr ?_⟩
  rw [← same]
  exact listed

end ATape.Codex
