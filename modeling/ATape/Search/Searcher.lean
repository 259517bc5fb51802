import ATape.Foundation.Outcome
import ATape.Go.Base64
import ATape.Go.Time
import ATape.Search.Documents
import ATape.SourceIdentity

/-! Keyword search in a project, one page at a time. -/
namespace ATape.ProjectSearch
open Foundation Go SourceIdentity

def defaultLimit : ℤ := 20

def maxLimit : ℤ := 50

def maxQuerySize : ℕ := 200

/-- The zero time stands for an unknown one. -/
structure Position where
  time : Time
  eventID : String
deriving DecidableEq

structure IndexQuery where
  projectID : String
  term : String
  after : Option Position
  limit : ℕ

structure EventProjection where
  projectID : String
  sessionID : String
  sessionTitle : String
  threadID : String
  threadPath : List (String × String)
  eventID : String
  author : String
  harness : String
  occurredAt : Time
  text : String
deriving DecidableEq

structure IndexPage where
  documents : List EventProjection
  hasMore : Bool

/-- `occurredAt` is the instant whose RFC 3339 text the answer holds. -/
structure Result where
  eventID : String
  sessionID : String
  sessionTitle : String
  threadID : String
  threadPath : List (String × String)
  author : String
  harness : String
  occurredAt : Option Time
  text : String
deriving DecidableEq

structure Page where
  projectID : String
  query : String
  results : List Result
  nextCursor : String
deriving DecidableEq

structure InvalidQuery where
  field : String
  reason : String
deriving DecidableEq

/-- A time of the database in the zone of the server, whose offset depends on the time. -/
def scanned (zone : ℤ → ℤ) (micros : ℤ) : Time := ⟨micros*1000,zone micros⟩

def domainTime (zone : ℤ → ℤ) (value : Option ℤ) : Time := value.elim .zero (scanned zone)

def nullableTime (value : Time) : Option Time := if value.isZero = true then none else some value.utc

def projection (zone : ℤ → ℤ) (row : SearchDocumentsRow) : EventProjection where
  projectID := row.projectID
  sessionID := row.sessionID
  sessionTitle := row.sessionTitle
  threadID := row.threadID
  threadPath := row.threadPath
  eventID := row.eventID
  author := row.author
  harness := row.harness
  occurredAt := domainTime zone row.occurredAt
  text := row.text

def EventProjection.result (document : EventProjection) : Result where
  eventID := document.eventID
  sessionID := document.sessionID
  sessionTitle := document.sessionTitle
  threadID := document.threadID
  threadPath := document.threadPath
  author := document.author
  harness := document.harness
  occurredAt := nullableTime document.occurredAt
  text := document.text

section Cursors
variable (h : Hash)

/-- The bytes that pairs of hexadecimal digits stand for. -/
def hexBytes : List Char → List UInt8
  | high::low::rest => (hexDigits.idxOf high*16+hexDigits.idxOf low).toUInt8::hexBytes rest
  | _ => []

def cursorScope (projectID term : String) : String :=
  encodeRawURL (hexBytes (h.hex (projectID++"\x00"++term)).toList)

/-- The body of a cursor. The time fails to marshal when its year has not four digits. -/
def cursorBody (position : Position) (projectID term : String) : Option Json := do
  let at_ ← if position.time.isZero = true then some .null else position.time.marshalText.map Json.str
  some (.obj [("v",.int 2),("s",.str (cursorScope h projectID term)),
    ("p",.obj [("t",at_),("e",.str position.eventID)])])

/-- The error of `json.Marshal` is dropped: a body that failed is encoded as no bytes. -/
def encodeCursor (position : Position) (projectID term : String) : String :=
  match cursorBody h position projectID term with
  | none => encodeRawURL []
  | some body => encodedJSON body

structure CursorPosition where
  time : Option Time := none
  eventID : String := ""

structure PageCursor where
  version : ℤ := 0
  scope : String := ""
  position : CursorPosition := {}

/-! Null leaves a number or a text as it is. -/

def intField : Json → ℤ → Option ℤ
  | .null,value => some value
  | .num literal,_ => atoi literal.toList
  | _,_ => none

def textField : Json → String → Option String
  | .null,value => some value
  | .str text,_ => some text
  | _,_ => none

def timeField : Json → Option (Option Time)
  | .null => some none
  | .str text => (parseRFC3339 text).map some
  | _ => none

def CursorPosition.read (p : CursorPosition) (m : String × Json) : Option CursorPosition :=
  if m.1 ∈ ["t","T"] then (timeField m.2).map fun time => {p with time}
  else if m.1 ∈ ["e","E"] then (textField m.2 p.eventID).map fun eventID => {p with eventID}
  else some p

def positionField : Json → CursorPosition → Option CursorPosition
  | .null,value => some value
  | .obj members,value => members.foldlM CursorPosition.read value
  | _,_ => none

def PageCursor.read (c : PageCursor) (m : String × Json) : Option PageCursor :=
  if m.1 ∈ ["v","V"] then (intField m.2 c.version).map fun version => {c with version}
  else if m.1 ∈ ["s","S","ſ"] then (textField m.2 c.scope).map fun scope => {c with scope}
  else if m.1 ∈ ["p","P"] then (positionField m.2 c.position).map fun position => {c with position}
  else some c

/-- `json.Unmarshal` into an empty cursor. -/
def readCursor (text : String) : Option PageCursor := do
  match ← Json.parse text with
  | .null => some {}
  | .obj members => members.foldlM PageCursor.read {}
  | _ => none

def PageCursor.matchesQuery (c : PageCursor) (projectID term : String) : Bool :=
  (decide (c.version = 1) || decide (c.version = 2)) && decide (c.scope = cursorScope h projectID term) &&
    !(decide (c.version = 1) && c.position.time.all Time.isZero) && !c.position.time.any Time.isZero &&
    decide (c.position.eventID ≠ "") && decide (len c.position.eventID ≤ 200)

/-- The position of a cursor, or none for the first page; the outer none is a cursor that is not valid. -/
def decodeCursor (cursor projectID term : String) : Option (Option Position) := do
  if cursor = "" then some none
  else if len cursor > 1024 then none
  else
    let bytes ← decodeRawURL cursor
    let chars ← utf8Decode bytes
    let decoded ← readCursor (String.ofList chars)
    if decoded.matchesQuery h projectID term = false then none
    else some (some ⟨decoded.position.time.getD .zero,decoded.position.eventID⟩)

end Cursors

section Search
variable {γ : Type} [LinearOrder γ] (l : Locale γ) (zone : ℤ → ℤ) (db : Database)

/-- The adapter reads one row more than the page to learn whether there are more. The position is bound with
microseconds. -/
def searchProjectionDocuments (query : IndexQuery) : IndexPage :=
  let after := query.after.getD ⟨.zero,""⟩
  let rows := searchDocuments l db
    {projectID := query.projectID
     term := query.term
     hasAfter := query.after.isSome
     afterUnknown := after.time.isZero
     afterTime := after.time.nanos/1000
     afterID := after.eventID
     resultLimit := query.limit+1}
  let hasMore := decide (rows.length > query.limit)
  ⟨(if hasMore = true then rows.take query.limit else rows).map (projection zone),hasMore⟩

def search (h : Hash) (projectID term cursor : String) (limit : ℤ) : Except InvalidQuery Page := do
  let term := trimSpace term
  failWhen (term = "") ⟨"q","must not be empty"⟩
  failWhen (len term > maxQuerySize) ⟨"q","must be at most 200 UTF-8 bytes"⟩
  let limit := if limit = 0 then defaultLimit else limit
  failWhen (limit < 1 ∨ limit > maxLimit) ⟨"limit","must be between 1 and 50"⟩
  let after ← present (decodeCursor h cursor projectID term) ⟨"cursor","is not valid"⟩
  let indexed := searchProjectionDocuments l zone db ⟨projectID,term,after,limit.toNat⟩
  pure
    {projectID
     query := term
     results := indexed.documents.map EventProjection.result
     nextCursor := if indexed.hasMore = true then
       indexed.documents.getLast?.elim "" fun last => encodeCursor h ⟨last.occurredAt,last.eventID⟩ projectID term
       else ""}

def readPages (h : Hash) (projectID term : String) (limit : ℤ) : ℕ → String → Option (List Result)
  | 0,_ => none
  | fuel+1,cursor =>
    match search l zone db h projectID term cursor limit with
    | .error _ => none
    | .ok page =>
      if page.nextCursor = "" then some page.results
      else (readPages h projectID term limit fuel page.nextCursor).map (page.results++·)

end Search
end ATape.ProjectSearch
