import ATape.Canonical.Model
import ATape.Foundation.Orders
import Mathlib.Data.Finset.Card
import Mathlib.Data.Finset.Dedup
import Mathlib.Data.Finset.Prod
import Mathlib.Data.String.Basic

/-! The aggregation of the facts that a team's overview reads. -/
namespace ATape.TeamOverview
open Foundation Go
open Canonical (Actor ProjectRecord)

def maxSafeInteger : ℤ := 9007199254740991

structure OverviewMember where
  id : String
  name : String
  current : Bool
deriving DecidableEq

structure OverviewSession where
  id : String
  projectID : String
  capturedByUserID : String
  title : String
  actor : Actor
deriving DecidableEq

structure OverviewUsage where
  sessionID : String
  threadID : String
  model : String
  occurredAt : Time
  inputTokens : Option ℤ
  outputTokens : Option ℤ
  cacheReadTokens : Option ℤ
  cacheWriteTokens : Option ℤ
deriving DecidableEq

structure OverviewEvent where
  id : String
  sessionID : String
  author : String
  at_ : Time
  order : ℤ
  index : ℤ
  root : Bool
deriving DecidableEq

structure OverviewSnapshot where
  members : List OverviewMember
  projects : List ProjectRecord
  sessions : List OverviewSession
  events : List OverviewEvent
  usage : List OverviewUsage

structure Query where
  project : String := ""
  member : String := ""
  agent : String := ""
  model : String := ""

inductive AggregationMode
  | metrics
  | session
  | overview
deriving DecidableEq

structure Tokens where
  input : Option ℤ
  output : Option ℤ
  cacheRead : Option ℤ
  cacheWrite : Option ℤ
  total : Option ℤ
  records : ℕ
  sessions : ℕ
deriving DecidableEq

structure Column where
  value : Option ℤ := none
  complete : Bool := false
deriving DecidableEq

def Column.add (c : Column) : Option ℤ → Column
  | none => {c with complete := false}
  | some src =>
    if c.value.getD 0 > maxSafeInteger-src then ⟨some (c.value.getD 0),false⟩
    else {c with value := some (c.value.getD 0+src)}

def Column.get (c : Column) : Option ℤ := if c.complete = true then c.value else none

structure TokenSum where
  records : ℕ := 0
  sessions : Finset String := ∅
  input : Column := {}
  output : Column := {}
  read : Column := {}
  write : Column := {}

/-- The first record makes the session set and marks every component complete. -/
def TokenSum.begin (t : TokenSum) : TokenSum :=
  if t.sessions = ∅ then {t with
    input := {t.input with complete := true}
    output := {t.output with complete := true}
    read := {t.read with complete := true}
    write := {t.write with complete := true}}
  else t

def TokenSum.add (t : TokenSum) (u : OverviewUsage) : TokenSum where
  records := t.records+1
  sessions := insert u.sessionID t.sessions
  input := t.begin.input.add u.inputTokens
  output := t.begin.output.add u.outputTokens
  read := t.begin.read.add u.cacheReadTokens
  write := t.begin.write.add u.cacheWriteTokens

def TokenSum.get (t : TokenSum) : Tokens where
  input := t.input.get
  output := t.output.get
  cacheRead := t.read.get
  cacheWrite := t.write.get
  total := t.input.get.bind fun input => t.output.get.bind fun output =>
    if input ≤ maxSafeInteger-output then some (input+output) else none
  records := t.records
  sessions := t.sessions.card

structure Group where
  sessions : Finset String := ∅
  projects : Finset String := ∅
  members : Finset String := ∅
  tokens : TokenSum := {}

def Group.mark (g : Group) (s : OverviewSession) : Group :=
  if s.id ∈ g.sessions then g
  else {g with
    sessions := insert s.id g.sessions
    projects := insert s.projectID g.projects
    members := insert s.capturedByUserID g.members}

structure Fact where
  session : OverviewSession
  at_ : Time
  usage : Option OverviewUsage
deriving DecidableEq

def Group.touch (g : Group) (fact : Fact) : Group :=
  let g := g.mark fact.session
  match fact.usage with
  | none => g
  | some u => {g with tokens := g.tokens.add u}

def laterEvent (a b : OverviewEvent) : Bool :=
  decide (a.order > b.order) || decide (a.order = b.order) &&
    (decide (a.index > b.index) || decide (a.index = b.index) && decide (a.id < b.id))

structure Frame where
  q : Query
  start : Time
  stop : Time
  day : Time → String
  mode : AggregationMode
  memberNames : String → OverviewMember
  projectNames : String → String
  sessions : String → Option OverviewSession

namespace Frame
variable (f : Frame)

def details : Bool := f.mode ≠ .metrics

def selectedModel (q : Query) : String := if q.model = "__unknown__" then "" else q.model

def eventFact (e : OverviewEvent) : Option Fact :=
  (f.sessions e.sessionID).bind fun v =>
    if !f.start.after e.at_ && f.stop.after e.at_ then some ⟨v,e.at_,none⟩ else none

def usageFact (u : OverviewUsage) : Option Fact :=
  (f.sessions u.sessionID).bind fun v =>
    if !f.start.after u.occurredAt && f.stop.after u.occurredAt &&
        (decide (f.q.model = "") || decide (u.model = selectedModel f.q)) then some ⟨v,u.occurredAt,some u⟩ else none

def memberKey (fact : Fact) : String := fact.session.capturedByUserID

def projectKey (fact : Fact) : String := fact.session.projectID

def modelKey (fact : Fact) : String := (fact.usage.map (·.model)).getD ""

def sessionKey (fact : Fact) : String := fact.session.id

def dayKey (fact : Fact) : String := f.day fact.at_++"\x00"++fact.session.actor.harness

end Frame

structure Scan where
  all : Group := {}
  byMember : Table String Group := ∅
  byProject : Table String Group := ∅
  byModel : Table String Group := ∅
  byDay : Table String Group := ∅
  bySession : Table String Group := ∅
  latest : Table String Time := ∅
  input : Table String OverviewEvent := ∅
  output : Table String OverviewEvent := ∅
  messages : Finset (String × ℤ) := ∅

def pick (key : Fact → String) : Table String Group → Fact → Table String Group := intoGroup key {} Group.touch

def raise (latest : Table String Time) (fact : Fact) : Table String Time :=
  if fact.at_.after ((latest.lookup fact.session.id).getD .zero) then latest.insert fact.session.id fact.at_ else latest

def keepLater (held : Table String OverviewEvent) (session : String) (e : OverviewEvent) : Table String OverviewEvent :=
  match held.lookup session with
  | none => held.insert session e
  | some old => if laterEvent e old = true then held.insert session e else held

namespace Frame
variable (f : Frame)

def mark (scan : Scan) (fact : Fact) : Scan :=
  {scan with
    all := scan.all.touch fact
    bySession := if f.details = true then pick sessionKey scan.bySession fact else scan.bySession
    byMember := if f.mode = .overview then pick memberKey scan.byMember fact else scan.byMember
    byProject := if f.mode = .overview then pick projectKey scan.byProject fact else scan.byProject
    byDay := if f.mode = .overview then pick f.dayKey scan.byDay fact else scan.byDay
    latest := if f.details = true then raise scan.latest fact else scan.latest}

/-- A root message is the input of its session when the session's actor wrote it, otherwise its output. -/
def takeEvent (scan : Scan) (e : OverviewEvent) : Scan :=
  match f.eventFact e with
  | none => scan
  | some fact =>
    let scan := f.mark scan fact
    if e.root = false then scan
    else if e.author = fact.session.actor.name then {scan with
      messages := insert (fact.session.id,e.order) scan.messages
      input := if f.details = true then keepLater scan.input fact.session.id e else scan.input}
    else {scan with
      output := if f.details = true then keepLater scan.output fact.session.id e else scan.output}

def takeUsage (scan : Scan) (u : OverviewUsage) : Scan :=
  match f.usageFact u with
  | none => scan
  | some fact =>
    let scan := f.mark scan fact
    {scan with byModel := if f.mode = .overview then pick modelKey scan.byModel fact else scan.byModel}

def scan (s : OverviewSnapshot) : Scan := s.usage.foldl f.takeUsage (s.events.foldl f.takeEvent {})

end Frame

structure Metrics where
  members : ℕ
  activeMembers : ℕ
  projects : ℕ
  sessions : ℕ
  messages : ℕ
  tokens : Tokens
deriving DecidableEq

structure Bucket where
  date : String
  agent : String
  sessions : ℕ
  members : ℕ
  tokens : Tokens
deriving DecidableEq

structure Detail where
  id : String
  name : String
  current : Bool
  sessions : ℕ
  projects : ℕ
  tokens : Tokens
deriving DecidableEq

/-- `updatedAt` is the instant whose RFC 3339 text the answer holds. -/
structure Session where
  id : String
  projectID : String
  projectName : String
  memberID : String
  memberName : String
  agent : String
  title : String
  updatedAt : Time
  tokens : Tokens
deriving DecidableEq

structure SessionPreview where
  input : String
  output : String
deriving DecidableEq

structure Aggregation where
  previews : String → Option SessionPreview := fun _ => none
  metrics : Metrics
  trend : List Bucket := []
  members : List Detail := []
  projects : List Detail := []
  models : List Detail := []
  sessions : List Session := []

/-- `strings.SplitN(key, "\x00", 2)` of a key that has the separator. -/
def splitDay (key : String) : String × String :=
  (String.ofList (key.toList.takeWhile (· ≠ '\x00')),String.ofList ((key.toList.dropWhile (· ≠ '\x00')).drop 1))

def Bucket.less (a b : Bucket) : Bool :=
  decide (a.date < b.date) || decide (a.date = b.date) && decide (a.agent < b.agent)

def Detail.less (a b : Detail) : Bool :=
  decide (a.sessions > b.sessions) || decide (a.sessions = b.sessions) && decide (a.name < b.name)

def sortDetails (v : List Detail) : List Detail := v.mergeSort fun a b => !b.less a

def memberName (m : OverviewMember) : String := if m.name = "" then "Former member" else m.name

def modelName (model : String) : String := if model = "" then "Unknown model" else model

namespace Frame
variable (f : Frame)

def bucketRow (row : String × Group) : Bucket where
  date := (splitDay row.1).1
  agent := (splitDay row.1).2
  sessions := row.2.sessions.card
  members := row.2.members.card
  tokens := row.2.tokens.get

def memberRow (row : String × Group) : Detail where
  id := row.1
  name := memberName (f.memberNames row.1)
  current := (f.memberNames row.1).current
  sessions := row.2.sessions.card
  projects := row.2.projects.card
  tokens := row.2.tokens.get

def projectRow (row : String × Group) : Detail where
  id := row.1
  name := f.projectNames row.1
  current := true
  sessions := row.2.sessions.card
  projects := row.2.projects.card
  tokens := row.2.tokens.get

def modelRow (row : String × Group) : Detail where
  id := if row.1 = "" then "__unknown__" else row.1
  name := modelName row.1
  current := true
  sessions := row.2.sessions.card
  projects := row.2.projects.card
  tokens := row.2.tokens.get

def latestOf (scan : Scan) (id : String) : Time := (scan.latest.lookup id).getD .zero

def sessionRow (scan : Scan) (row : String × Group) : Session :=
  let v := (f.sessions row.1).getD ⟨"","","","",⟨"",""⟩⟩
  {id := row.1
   projectID := v.projectID
   projectName := f.projectNames v.projectID
   memberID := v.capturedByUserID
   memberName := memberName (f.memberNames v.capturedByUserID)
   agent := v.actor.harness
   title := v.title
   updatedAt := (latestOf scan row.1).utc
   tokens := row.2.tokens.get}

def sessionLess (scan : Scan) (a b : Session) : Bool :=
  (latestOf scan a.id).after (latestOf scan b.id) ||
    (latestOf scan a.id).equal (latestOf scan b.id) && decide (a.id < b.id)

def previewOf (scan : Scan) (id : String) : SessionPreview :=
  let input := (scan.input.lookup id).getD ⟨"","","",.zero,0,0,false⟩
  let output := (scan.output.lookup id).getD ⟨"","","",.zero,0,0,false⟩
  ⟨input.id,if output.order ≥ input.order then output.id else ""⟩

def metricsOf (s : OverviewSnapshot) (scan : Scan) : Metrics where
  members := s.members.countP (·.current)
  activeMembers := scan.all.members.card
  projects := scan.all.projects.card
  sessions := scan.all.sessions.card
  messages := scan.messages.card
  tokens := scan.all.tokens.get

def report (order : MapOrder) (s : OverviewSnapshot) (scan : Scan) : Aggregation :=
  if f.details = false then {metrics := metricsOf s scan}
  else
    {metrics := metricsOf s scan
     trend := ((order.visit 0 scan.byDay.rows).map bucketRow).mergeSort fun a b => !b.less a
     members := sortDetails ((order.visit 1 scan.byMember.rows).map f.memberRow)
     projects := sortDetails ((order.visit 2 scan.byProject.rows).map f.projectRow)
     models := sortDetails ((order.visit 3 scan.byModel.rows).map modelRow)
     previews := fun id => (scan.bySession.lookup id).map fun _ => previewOf scan id
     sessions := ((order.visit 4 scan.bySession.rows).map (f.sessionRow scan)).mergeSort fun a b =>
       !sessionLess scan b a}

end Frame

namespace OverviewSnapshot
variable (s : OverviewSnapshot)

def memberNames (id : String) : OverviewMember :=
  ((Table.insertAll (s.members.map fun m => (m.id,m)) ∅).lookup id).getD ⟨"","",false⟩

def projectNames (id : String) : String :=
  ((Table.insertAll (s.projects.map fun p => (p.id,p.name)) ∅).lookup id).getD ""

def modelsForSession (q : Query) (start stop : Time) : Finset String :=
  ((s.usage.filter fun u => decide (u.model = Frame.selectedModel q) && !start.after u.occurredAt &&
    stop.after u.occurredAt).map (·.sessionID)).toFinset

def selects (q : Query) (start stop : Time) (v : OverviewSession) : Bool :=
  (decide (q.project = "") || decide (v.projectID = q.project)) &&
    (decide (q.member = "") || decide (v.capturedByUserID = q.member)) &&
    (decide (q.agent = "") || decide (v.actor.harness = q.agent)) &&
    (decide (q.model = "") || decide (v.id ∈ s.modelsForSession q start stop))

def frame (q : Query) (start stop : Time) (day : Time → String) (mode : AggregationMode) : Frame where
  q := q
  start := start
  stop := stop
  day := day
  mode := mode
  memberNames := s.memberNames
  projectNames := s.projectNames
  sessions := (Table.insertAll ((s.sessions.filter (s.selects q start stop)).map fun v => (v.id,v)) ∅).lookup

end OverviewSnapshot

/-- The loops over the maps of groups visit them in `order`. `day` is the date of an instant in the zone of
the overview. -/
def aggregate (order : MapOrder) (s : OverviewSnapshot) (q : Query) (start stop : Time) (day : Time → String)
    (mode : AggregationMode) : Aggregation :=
  let f := s.frame q start stop day mode
  f.report order s (f.scan s)

end ATape.TeamOverview
