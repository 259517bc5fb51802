import ATape.Foundation.Keyset
import ATape.Foundation.Outcome
import ATape.Node.Json
import Mathlib.Algebra.Order.Ring.Rat

/-! An OpenCode history in one snapshot of its SQLite database. Columns compare as SQLite
does by default: null values below numbers, numbers below texts and texts, by their bytes,
below blobs. -/
namespace ATape.OpenCode
open Foundation

inductive Reason
  | missing
  | io
  | format
  | unsupported
  | attribution
  | limit
  | closed
deriving DecidableEq

structure OpenCodeSourceError where
  reason : Reason
  message : String
deriving DecidableEq

abbrev Result := Except OpenCodeSourceError

inductive Cell
  | null
  | int (value : Int)
  | real (value : Rat)
  | text (value : String)
  | blob (bytes : List UInt8)
deriving DecidableEq

/-- The order of values. -/
def Cell.key : Cell → ℕ ×ₗ Rat ×ₗ List ℕ
  | .null => toLex (0,toLex (0,[]))
  | .int value => toLex (1,toLex (value,[]))
  | .real value => toLex (1,toLex (value,[]))
  | .text value => toLex (2,toLex (0,value.toList.map Char.toNat))
  | .blob bytes => toLex (3,toLex (0,bytes.map UInt8.toNat))

/-- `=` of two columns, which no null value meets. -/
def Cell.equals (a b : Cell) : Bool := a ≠ .null && b ≠ .null && a.key = b.key

/-- `<>` of two columns. -/
def Cell.differs (a b : Cell) : Bool := a ≠ .null && b ≠ .null && a.key ≠ b.key

abbrev Row := List (String × Cell)

def cell (row : Row) (name : String) : Cell := (row.lookup name).getD .null

inductive Table
  | session
  | message
  | part
deriving DecidableEq

def Table.name : Table → String
  | .session => "session"
  | .message => "message"
  | .part => "part"

/-- Rows without a primary key may repeat. -/
structure Database where
  rows : Table → List Row
  sessionMessages : Option (List Row)
  keyed : ∀ table, (rows table).Pairwise fun a b => cell a "id" = .null ∨ cell a "id" ≠ cell b "id"

def Database.find (db : Database) (table : Table) (id : String) : Option Row :=
  (db.rows table).find? fun row => cell row "id" = .text id

/-- The numbers of SQLite and JavaScript as texts, and the projections of JSON columns. -/
structure Engine where
  realText : Rat → String
  numeral : Rat → String
  project : Table → List (String × Json) → List (String × Json)

/-- `coalesce(length(cast(column as blob)),0)` -/
def Cell.bytes (engine : Engine) : Cell → ℕ
  | .null => 0
  | .int value => (toString value).utf8ByteSize
  | .real value => (engine.realText value).utf8ByteSize
  | .text value => value.utf8ByteSize
  | .blob bytes => bytes.length

def columnBytes (engine : Engine) (row : Row) (names : List String) : ℕ :=
  (names.map fun name => (cell row name).bytes engine).sum

/-! What is read of a value. -/

def maxSafeInteger : ℕ := 9007199254740991

def validText (maximum : ℕ) (text : String) : Bool :=
  text ≠ "" && !text.toList.contains '\x00' && text.utf8ByteSize ≤ maximum

def invalidIdentifier : OpenCodeSourceError :=
  ⟨.format,"OpenCode identity or metadata is invalid or exceeds its bounds."⟩

/-- The queries withhold a longer identity, which is invalid as well. -/
def identifier (maximum : ℕ) : Cell → Result String
  | .text text => if validText maximum text then .ok text else .error invalidIdentifier
  | _ => .error invalidIdentifier

def invalidCount : OpenCodeSourceError := ⟨.format,"OpenCode count or timestamp is invalid."⟩

def natural (maximum : ℕ) (value : Int) : Result ℕ :=
  if 0 ≤ value ∧ value ≤ maximum then .ok value.toNat else .error invalidCount

def count (maximum : ℕ) : Cell → Result ℕ
  | .int value => natural maximum value
  | .real value => if value.den = 1 then natural maximum value.num else .error invalidCount
  | _ => .error invalidCount

/-- An integer that JavaScript cannot hold is not read. -/
def fetch (cells : List Cell) : Result Unit :=
  failWhen (cells.any fun
    | .int value => value.natAbs > maxSafeInteger
    | _ => false) ⟨.io,"OpenCode history could not be read."⟩

def membersOf : Cell → Option (List (String × Json))
  | .text text => match Json.parse text with
    | some (.obj members) => some members
    | _ => none
  | _ => none

def invalidColumn : OpenCodeSourceError := ⟨.format,"OpenCode JSON column is invalid."⟩

def json (value : Cell) : Result (List (String × Json)) :=
  match value with
  | .text _ => present (membersOf value) invalidColumn
  | _ => .error ⟨.format,"OpenCode JSON column is not text."⟩

/-- The last member of a name is the one that is kept. -/
def property (members : List (String × Json)) (name : String) : Option Json := members.reverse.lookup name

def identifierOf : Option Json → Result String
  | some (.str text) => identifier 500 (.text text)
  | _ => .error invalidIdentifier

/-! Sessions. -/

structure Revert where
  messageId : String
  partId : Option String

structure OpenCodeSession where
  id : String
  projectId : String
  parentId : Option String
  directory : String
  title : String
  version : String
  timeCreated : ℕ
  timeUpdated : ℕ
  archivedAt : Option ℕ
  revert : Option Revert

def sessionColumns : List String :=
  ["id","project_id","parent_id","directory","title","version","time_created","time_updated","time_archived","revert"]

def sessionBytes : List String := ["id","project_id","parent_id","directory","title","version","revert"]

/-- A column that may be null. -/
def nullable {α : Type} (read : Cell → Result α) : Cell → Result (Option α)
  | .null => pure none
  | value => do
    let a ← read value
    pure (some a)

def isAbsolute (path : String) : Bool := path.toList.head? = some '/'

def titleOf : Cell → Result String
  | .text title =>
    if title.utf8ByteSize > 4096 then .error ⟨.limit,"OpenCode title exceeds its bounds."⟩ else .ok title
  | _ => .error ⟨.limit,"OpenCode title exceeds its bounds."⟩

def revertOf (members : List (String × Json)) : Result Revert := do
  let messageId ← identifierOf (property members "messageID")
  match property members "partID" with
  | none => pure ⟨messageId,none⟩
  | partId => do
    let partId ← identifierOf partId
    pure ⟨messageId,some partId⟩

def revertIn : Option (List (String × Json)) → Result (Option Revert)
  | none => pure none
  | some members => do
    let revert ← revertOf members
    pure (some revert)

def session (engine : Engine) (db : Database) (id : String) : Result OpenCodeSession := do
  let key ← identifier 500 (.text id)
  let row ← present (db.find .session key) ⟨.missing,"An OpenCode Session or its parent is missing."⟩
  failWhen (columnBytes engine row sessionBytes > 16*1024) ⟨.limit,"OpenCode Session metadata exceeds its bounds."⟩
  fetch (sessionColumns.map (cell row))
  let rev ← nullable json (cell row "revert")
  let directory ← identifier 4096 (cell row "directory")
  failWhen (isAbsolute directory = false) ⟨.attribution,"OpenCode Session has no absolute Origin directory."⟩
  let title ← titleOf (cell row "title")
  let id ← identifier 500 (cell row "id")
  let projectId ← identifier 500 (cell row "project_id")
  let parentId ← nullable (identifier 500) (cell row "parent_id")
  let version ← identifier 128 (cell row "version")
  let timeCreated ← count maxSafeInteger (cell row "time_created")
  let timeUpdated ← count maxSafeInteger (cell row "time_updated")
  let archivedAt ← nullable (count maxSafeInteger) (cell row "time_archived")
  let revert ← revertIn rev
  pure ⟨id,projectId,parentId,directory,title,version,timeCreated,timeUpdated,archivedAt,revert⟩

/-! Records. -/

structure OpenCodeSourceRecord where
  table : Table
  id : String
  sessionId : String
  messageId : Option String
  timeCreated : ℕ
  timeUpdated : ℕ
  data : List (String × Json)
  raw : Option (List (String × Json))

def optionalText : Option String → Json
  | none => .null
  | some text => .str text

def Revert.json (revert : Revert) : Json :=
  .obj (("messageID",.str revert.messageId)::Json.presentMember "partID" .str revert.partId)

def OpenCodeSession.members (s : OpenCodeSession) : List (String × Json) :=
  [("id",.str s.id),("projectId",.str s.projectId),("parentId",optionalText s.parentId),("directory",.str s.directory),
    ("title",.str s.title),("version",.str s.version),("timeCreated",.int s.timeCreated),("timeUpdated",.int s.timeUpdated),
    ("archivedAt",match s.archivedAt with
      | none => .null
      | some time => .int time),
    ("revert",match s.revert with
      | none => .null
      | some revert => revert.json)]

def OpenCodeSourceRecord.json (record : OpenCodeSourceRecord) : Json :=
  .obj ([("table",.str record.table.name),("id",.str record.id),("sessionId",.str record.sessionId)]++
    Json.presentMember "messageId" .str record.messageId++
    [("timeCreated",.int record.timeCreated),("timeUpdated",.int record.timeUpdated),("data",.obj record.data)]++
    Json.presentMember "raw" .obj record.raw)

/-- `Buffer.byteLength(JSON.stringify(value))` -/
def encodedBytes (value : Json) : ℕ := (Node.stringify value).utf8ByteSize

def required : Table → List String
  | .session => sessionColumns
  | .message => ["id","session_id","time_created","time_updated","data"]
  | .part => ["id","message_id","session_id","time_created","time_updated","data"]

def fields : Table → List String
  | .session => sessionColumns
  | .message => ["id","session_id","time_created","time_updated"]
  | .part => ["id","session_id","time_created","time_updated","message_id"]

def dataShape (table : Table) (row : Row) : Result (List (String × Json)) :=
  match table with
  | .session => pure []
  | _ => present (membersOf (cell row "data")) invalidColumn

def dataOf (engine : Engine) (db : Database) (table : Table) (id : String) (shape : List (String × Json)) :
    Result (List (String × Json)) :=
  match table with
  | .session => do
    let s ← session engine db id
    pure s.members
  | table => pure (engine.project table shape)

def rawValue (engine : Engine) (column : String × Cell) : Result (String × Json) :=
  match column.2 with
  | .null => pure (column.1,.null)
  | .int value => pure (column.1,.int value)
  | .real value => pure (column.1,.num (engine.numeral value))
  | .text value => pure (column.1,.str value)
  | .blob _ => .error ⟨.unsupported,"OpenCode Raw row contains an unsupported SQLite value."⟩

def rawOf (engine : Engine) (raw : Bool) (row : Row) : Result (Option (List (String × Json))) :=
  if raw then do
    let values ← row.mapM (rawValue engine)
    pure (some values)
  else pure none

def sessionIdOf (table : Table) (id : String) (row : Row) : Result String :=
  match table with
  | .session => pure id
  | _ => identifier 500 (cell row "session_id")

def messageIdOf (table : Table) (row : Row) : Result (Option String) :=
  match table with
  | .part => do
    let messageId ← identifier 500 (cell row "message_id")
    pure (some messageId)
  | _ => pure none

def record (engine : Engine) (db : Database) (raw : Bool) (rowBytes : ℕ) (table : Table) (id : String) :
    Result OpenCodeSourceRecord := do
  let row ← present (db.find table id) ⟨.format,"OpenCode row disappeared inside its read view."⟩
  failWhen (columnBytes engine row (if raw then row.map Prod.fst else required table) > rowBytes)
    ⟨.limit,"OpenCode row exceeds its admitted byte bound."⟩
  let shape ← dataShape table row
  fetch (if raw then row.map Prod.snd else (fields table).map (cell row))
  let data ← dataOf engine db table id shape
  let rawValues ← rawOf engine raw row
  let own ← identifier 500 (cell row "id")
  let sessionId ← sessionIdOf table id row
  let messageId ← messageIdOf table row
  let timeCreated ← count maxSafeInteger (cell row "time_created")
  let timeUpdated ← count maxSafeInteger (cell row "time_updated")
  pure ⟨table,own,sessionId,messageId,timeCreated,timeUpdated,data,rawValues⟩

/-! The admission of a family. -/

structure OpenCodeSourceLimits where
  rowBytes : ℕ
  pageBytes : ℕ
  pageRows : ℕ
  records : ℕ
  threads : ℕ
  durationMs : ℕ

def checkLimit (value maximum : ℕ) : Result Unit := do
  let value ← count maximum (.int value)
  failWhen (value < 1) ⟨.limit,"Source admission requires positive explicit limits."⟩

def checkLimits (limits : OpenCodeSourceLimits) : Result Unit := do
  checkLimit limits.rowBytes (16*1024*1024)
  checkLimit limits.pageBytes (32*1024*1024)
  checkLimit limits.pageRows 100
  checkLimit limits.records 1000000
  checkLimit limits.threads 1000
  checkLimit limits.durationMs 300000
  failWhen (limits.pageBytes < limits.rowBytes) ⟨.limit,"Source page or Raw policy is invalid."⟩

/-- What each check of the view finds: that it is closed, or late, or nothing. -/
abbrev Interrupted := ℕ → Option OpenCodeSourceError

def check (interrupted : Interrupted) (checks : ℕ) : Result ℕ :=
  match interrupted checks with
  | none => .ok (checks+1)
  | some error => .error error

section Admission
variable (engine : Engine) (db : Database) (limits : OpenCodeSourceLimits) (interrupted : Interrupted)

/-- The first session without a parent; a longer chain than there may be threads fails. -/
def climb : ℕ → ℕ → List String → OpenCodeSession → Result (OpenCodeSession × ℕ)
  | 0,checks,_,root => pure (root,checks)
  | fuel+1,checks,ancestors,root =>
    match root.parentId with
    | none => pure (root,checks)
    | some parentId => do
      let checks ← check interrupted checks
      failWhen (parentId ∈ ancestors ∨ ancestors.length ≥ limits.threads)
        ⟨.attribution,"OpenCode parent chain is cyclic or exceeds the family bound."⟩
      let root ← session engine db parentId
      climb fuel checks (parentId::ancestors) root

/-- `SELECT count(*) FROM (SELECT 1 FROM table WHERE session_id=? LIMIT ?)` -/
def amount (table : Table) (sessionId : String) (limit : ℕ) : ℕ :=
  min ((db.rows table).countP fun row => cell row "session_id" = .text sessionId) limit

def overAdmitted : OpenCodeSourceError := ⟨.limit,"OpenCode family exceeds its record admission bound."⟩

def admitRows (table : Table) (current : OpenCodeSession) (admitted : ℕ) : Result ℕ := do
  let admitted := admitted+amount db table current.id (limits.records-admitted+1)
  failWhen (admitted > limits.records) overAdmitted
  pure admitted

/-- A part of the session without its message, or with one of another session. -/
def strayPart (sessionId : String) (part : Row) : Bool :=
  cell part "session_id" = .text sessionId &&
    ((db.rows .message).all (fun message => !(cell message "id").equals (cell part "message_id")) ||
      (db.rows .message).any fun message => (cell message "id").equals (cell part "message_id") &&
        (cell message "session_id").differs (cell part "session_id"))

def resolves (current : OpenCodeSession) (revert : Revert) : Bool :=
  ((db.rows .message).any fun message => cell message "session_id" = .text current.id &&
    cell message "id" = .text revert.messageId) &&
  match revert.partId with
  | none => true
  | some partId => (db.rows .part).any fun part => cell part "session_id" = .text current.id &&
    cell part "message_id" = .text revert.messageId && cell part "id" = .text partId

def unresolved (current : OpenCodeSession) : Bool :=
  match current.revert with
  | none => false
  | some revert => !resolves db current revert

def admitSession (current : OpenCodeSession) (admitted : ℕ) : Result ℕ := do
  failWhen (admitted+1 > limits.records) overAdmitted
  let admitted ← admitRows db limits .message current (admitted+1)
  let admitted ← admitRows db limits .part current admitted
  failWhen (db.sessionMessages.any (fun rows => rows.any fun row => cell row "session_id" = .text current.id) = true)
    ⟨.unsupported,"OpenCode v2 or mixed message history is not supported by this source profile."⟩
  failWhen ((db.rows .part).any (strayPart db current.id) = true)
    ⟨.format,"OpenCode part relationships are incomplete or inconsistent."⟩
  failWhen (unresolved db current = true)
    ⟨.format,"OpenCode revert boundary cannot be resolved in this source view."⟩
  pure admitted

def children (current : OpenCodeSession) (size : ℕ) : Result (List String) := do
  let rows := ((db.rows .session).filter fun row => cell row "parent_id" = .text current.id).take (limits.threads-size+1)
  failWhen (rows.length > limits.threads-size) ⟨.limit,"OpenCode family exceeds its Thread bound."⟩
  let ids ← rows.mapM fun row => identifier 500 (cell row "id")
  pure (Node.sortTexts ids)

def addChildren : List String → List String → Result (List OpenCodeSession × List String)
  | visited,[] => pure ([],visited)
  | visited,id::ids => do
    failWhen (id ∈ visited) ⟨.attribution,"OpenCode family contains a repeated Session identity."⟩
    let child ← session engine db id
    let (others,visited) ← addChildren (id::visited) ids
    pure (child::others,visited)

structure Family where
  threads : List OpenCodeSession
  admitted : ℕ
  checks : ℕ

def explore : ℕ → ℕ → List String → List OpenCodeSession → List OpenCodeSession → ℕ → Result Family
  | 0,checks,_,explored,waiting,admitted => pure ⟨explored++waiting,admitted,checks⟩
  | _+1,checks,_,explored,[],admitted => pure ⟨explored,admitted,checks⟩
  | fuel+1,checks,visited,explored,current::waiting,admitted => do
    let checks ← check interrupted checks
    let admitted ← admitSession db limits current admitted
    let ids ← children db limits current (explored.length+1+waiting.length)
    let (added,visited) ← addChildren engine db visited ids
    explore fuel checks visited (explored++[current]) (waiting++added) admitted

end Admission

/-! Reading. -/

structure View where
  engine : Engine
  db : Database
  raw : Bool
  limits : OpenCodeSourceLimits
  interrupted : Interrupted
  root : OpenCodeSession
  family : Family

def openOpenCodeSource (engine : Engine) (db : Database) (raw : Bool) (limits : OpenCodeSourceLimits)
    (interrupted : Interrupted) (sessionId : String) : Result View := do
  checkLimits limits
  let start ← session engine db sessionId
  let (root,checks) ← climb engine db limits interrupted limits.threads 0 [start.id] start
  let family ← explore engine db limits interrupted limits.threads checks [root.id] [] [root] 0
  pure ⟨engine,db,raw,limits,interrupted,root,family⟩

/-- Where the traversal stands within a thread. -/
structure Place where
  phase : Table
  messageId : String
  messageTime : Int
  partId : String

def Place.start : Place := ⟨.session,"",-1,""⟩

structure Pending where
  record : OpenCodeSourceRecord
  bytes : ℕ

/-- `remaining` are the threads from the current one. -/
structure State where
  remaining : List OpenCodeSession
  place : Place
  consumed : ℕ
  pending : Option Pending
  failed : Bool
  done : Bool
  rewound : Bool
  checks : ℕ

def partKey (row : Row) : ℕ ×ₗ Rat ×ₗ List ℕ := (cell row "id").key

def messageKey (row : Row) : (ℕ ×ₗ Rat ×ₗ List ℕ) ×ₗ (ℕ ×ₗ Rat ×ₗ List ℕ) :=
  toLex ((cell row "time_created").key,(cell row "id").key)

/-- `WHERE message_id=? AND id>? ORDER BY id`. Null values are below every text. -/
def partsAfter (db : Database) (messageId partId : String) : List Row :=
  above partKey (Cell.text partId).key ((db.rows .part).filter fun row => cell row "message_id" = .text messageId)

/-- `WHERE session_id=? AND (time_created,id)>(?,?) ORDER BY time_created,id` -/
def messagesAfter (db : Database) (sessionId : String) (time : Int) (messageId : String) : List Row :=
  above messageKey (toLex ((Cell.int time).key,(Cell.text messageId).key))
    ((db.rows .message).filter fun row => cell row "session_id" = .text sessionId)

def separator (records : List OpenCodeSourceRecord) : ℕ := if records.isEmpty then 0 else 1

namespace View
variable (view : View)

def row (table : Table) (id : String) : Result OpenCodeSourceRecord :=
  record view.engine view.db view.raw view.limits.rowBytes table id

def nextPart (current : OpenCodeSession) (place : Place) : Result (Option (OpenCodeSourceRecord × Place)) :=
  if place.phase ≠ .part then pure none else
  match (partsAfter view.db place.messageId place.partId).head? with
  | none => pure none
  | some part => do
    let partId ← identifier 500 (cell part "id")
    let result ← view.row .part partId
    failWhen (result.sessionId ≠ current.id) ⟨.format,"OpenCode part belongs to another Session."⟩
    pure (some (result,{place with partId}))

def nextMessage (current : OpenCodeSession) (place : Place) : Result (Option (OpenCodeSourceRecord × Place)) :=
  match (messagesAfter view.db current.id place.messageTime place.messageId).head? with
  | none => pure none
  | some message => do
    fetch [cell message "time_created"]
    let messageId ← identifier 500 (cell message "id")
    let messageTime ← count maxSafeInteger (cell message "time_created")
    let result ← view.row .message messageId
    failWhen (result.sessionId ≠ current.id) ⟨.format,"OpenCode message belongs to another Session."⟩
    pure (some (result,⟨.part,messageId,messageTime,""⟩))

/-- The next record with the threads and the place from which the traversal goes on. -/
abbrev Step := OpenCodeSourceRecord × List OpenCodeSession × Place

def next : ℕ → List OpenCodeSession → Place → Result (Option Step × ℕ)
  | checks,[],_ => pure (none,checks)
  | checks,current::rest,place => do
    let checks ← check view.interrupted checks
    if place.phase = .session then do
      let result ← view.row .session current.id
      pure (some (result,current::rest,{place with phase := .message}),checks)
    else do
      let part ← view.nextPart current place
      match part with
      | some (result,place) => pure (some (result,current::rest,place),checks)
      | none => do
        let message ← view.nextMessage current place
        match message with
        | some (result,place) => pure (some (result,current::rest,place),checks)
        | none => next checks rest ⟨.session,"",-1,place.partId⟩

/-- The record that waits for its page, or the next one, or none when all were read. -/
def load (state : State) : Result (Option Pending × State) :=
  match state.pending with
  | some pending => pure (some pending,state)
  | none => do
    let (found,checks) ← view.next state.checks state.remaining state.place
    match found with
    | none => do
      failWhen (state.consumed ≠ view.family.admitted)
        ⟨.format,"OpenCode traversal did not cover every admitted source row."⟩
      pure (none,{state with remaining := [],done := true,checks})
    | some (record,remaining,place) => do
      failWhen (state.consumed+1 > view.limits.records) ⟨.limit,"OpenCode capture exceeds its record bound."⟩
      let size := encodedBytes record.json
      failWhen (size+2 > view.limits.pageBytes) ⟨.limit,"Encoded OpenCode record exceeds the page byte bound."⟩
      pure (some ⟨record,size⟩,
        {state with remaining,place,consumed := state.consumed+1,pending := some ⟨record,size⟩,checks})

/-- A page with room for a number of records. -/
def fill : ℕ → List OpenCodeSourceRecord → ℕ → State → Result (List OpenCodeSourceRecord × State)
  | 0,records,_,state => pure (records,state)
  | room+1,records,bytes,state => do
    let (pending,state) ← view.load state
    match pending with
    | none => pure (records,state)
    | some pending =>
      if bytes+(pending.bytes+separator records) > view.limits.pageBytes then pure (records,state)
      else fill room (records++[pending.record]) (bytes+(pending.bytes+separator records)) {state with pending := none}

structure Page where
  records : List OpenCodeSourceRecord
  done : Bool

def readPage (state : State) : Result (Page × State) := do
  let (records,state) ← view.fill view.limits.pageRows [] 2 state
  let checks ← check view.interrupted state.checks
  pure (⟨records,state.done⟩,{state with checks})

def start : State := ⟨view.family.threads,.start,0,none,false,false,false,view.family.checks⟩

def read (state : State) : Result Page × State :=
  match check view.interrupted state.checks with
  | .error error => (.error error,{state with checks := state.checks+1})
  | .ok checks =>
    if state.failed then
      (.error ⟨.closed,"A failed source view must be abandoned and reopened."⟩,{state with checks})
    else if state.done then (.ok ⟨[],true⟩,{state with checks})
    else match view.readPage {state with checks} with
      | .error error => (.error error,{state with failed := true,checks})
      | .ok (page,state) => (.ok page,state)

def rewind (state : State) : Result Unit × State :=
  match check view.interrupted state.checks with
  | .error error => (.error error,{state with checks := state.checks+1})
  | .ok checks =>
    if state.failed || !state.done || state.rewound then
      (.error ⟨.closed,"Only one complete planning rescan is allowed."⟩,{state with checks})
    else (.ok (),⟨view.family.threads,.start,0,none,state.failed,false,true,checks⟩)

def readAll : ℕ → State → Result (List Page × State)
  | 0,state => pure ([],state)
  | fuel+1,state =>
    match view.read state with
    | (.error error,_) => .error error
    | (.ok page,state) =>
      if page.done then pure ([page],state)
      else do
        let (pages,state) ← readAll fuel state
        pure (page::pages,state)

end View
end ATape.OpenCode
