import ATape.Foundation.Keyset
import ATape.Foundation.Truth
import Mathlib

/-! The table of the indexed documents and the query that reads a page of it. -/
namespace ATape.ProjectSearch
open Foundation

/-- A row of `project_search_documents`. The time is in microseconds since the first of January of the year
one. -/
structure Document where
  eventID : String
  projectID : String
  sessionID : String
  sessionTitle : String
  threadID : String
  threadPath : List (String × String)
  author : String
  harness : String
  occurredAt : Option ℤ
  text : String
  eventKind : String
  publicationDescriptor : String
deriving DecidableEq

structure SessionRow where
  id : String
  recordState : String

structure PublicationSource where
  sessionID : String
  currentHead : Option String

structure PublicationMember where
  attemptID : String
  kind : String
  recordID : String
  searchDescriptor : String

structure Database where
  documents : List Document
  sessions : List SessionRow
  sources : List PublicationSource
  members : List PublicationMember

namespace Database

def active (db : Database) (sessionID : String) : Bool :=
  db.sessions.any fun s => decide (s.id = sessionID) && decide (s.recordState = "active")

/-- A session without a published head shows all its documents, otherwise those of the head. -/
def current (db : Database) (d : Document) : Bool :=
  (!db.sources.any fun s => decide (s.sessionID = d.sessionID) && s.currentHead.isSome) ||
    db.sources.any fun s => decide (s.sessionID = d.sessionID) && db.members.any fun m =>
      decide (s.currentHead = some m.attemptID) && decide (m.kind = "event") && decide (m.recordID = d.eventID) &&
        decide (m.searchDescriptor = d.publicationDescriptor)

end Database

/-- Each character with the two behind it. -/
def characters : List Char → List (Char × Option Char × Option Char)
  | [] => []
  | ch::rest => (ch,rest[0]?,rest[1]?)::characters rest

def window (width : ℕ) (c : Char × Option Char × Option Char) : Option (List Char) :=
  match width with
  | 1 => some [c.1]
  | 2 => c.2.1.map fun next => [c.1,next]
  | _ => c.2.1.bind fun next => c.2.2.map fun last => [c.1,next,last]

def searchBodyGrams (body : List Char) (minimumWidth maximumWidth : ℕ) : List (List Char) :=
  ([1,2,3].flatMap fun width =>
    if minimumWidth ≤ width ∧ maximumWidth ≥ width then (characters body).filterMap (window width) else []).dedup

def strposFrom (sub : List Char) (place : ℕ) : List Char → ℕ
  | [] => if sub.isPrefixOf [] then place else 0
  | c::rest => if sub.isPrefixOf (c::rest) then place else strposFrom sub (place+1) rest

/-- `strpos`: where a text first occurs, counted from one, or zero. -/
def strpos (text sub : List Char) : ℕ := strposFrom sub 1 text

/-- `substring(text FROM start FOR count)` -/
def substring (text : List Char) (start count : ℕ) : List Char := (text.drop (start-1)).take count

structure SearchDocumentsParams where
  projectID : String
  term : String
  hasAfter : Bool
  afterUnknown : Bool
  afterTime : ℤ
  afterID : String
  resultLimit : ℕ

structure SearchDocumentsRow where
  eventID : String
  projectID : String
  sessionID : String
  sessionTitle : String
  threadID : String
  threadPath : List (String × String)
  author : String
  harness : String
  occurredAt : Option ℤ
  text : String
deriving DecidableEq

/-- `lower` and `collate` are the database's: what `lower()` makes of a character, and the place of an
identity in the order of the texts. -/
structure Locale (γ : Type) where
  lower : Char → Char
  collate : String → γ

section Query
variable {γ : Type} [LinearOrder γ] (l : Locale γ)

def Locale.literal (term : String) : List Char := term.toList.map l.lower

/-- `search_text`, as the upsert writes it. -/
def Document.searchText (d : Document) : List Char :=
  if d.eventKind = "message" then d.text.toList.map l.lower else []

/-- `body_grams`, which the table generates. -/
def Document.bodyGrams (d : Document) : List (List Char) := searchBodyGrams (d.searchText l) 1 3

/-- Later times come first, then unknown times, each from the last identity down. -/
def Document.sortKey (d : Document) : WithTop ℤᵒᵈ ×ₗ γᵒᵈ :=
  toLex (d.occurredAt.elim ⊤ fun t => WithTop.some (OrderDual.toDual t),OrderDual.toDual (l.collate d.eventID))

/-- The condition that a row is behind the last row of the page before. -/
def Document.after (p : SearchDocumentsParams) (d : Document) : Truth :=
  .either (some !p.hasAfter)
    (.either
      (.both (some p.afterUnknown)
        (.both (some d.occurredAt.isNone) (some (decide (l.collate d.eventID < l.collate p.afterID)))))
      (.both (some !p.afterUnknown)
        (.either (some d.occurredAt.isNone)
          (Truth.pairLess d.occurredAt (l.collate d.eventID) p.afterTime (l.collate p.afterID)))))

def searchRow (literal : List Char) (d : Document) : SearchDocumentsRow where
  eventID := d.eventID
  projectID := d.projectID
  sessionID := d.sessionID
  sessionTitle := d.sessionTitle
  threadID := d.threadID
  threadPath := d.threadPath
  author := d.author
  harness := d.harness
  occurredAt := d.occurredAt
  text := String.ofList (substring d.text.toList (max 1 (strpos (d.searchText l) literal-120)) 640)

/-- The rows are selected first and joined with their own documents afterwards. -/
def searchDocuments (db : Database) (p : SearchDocumentsParams) : List SearchDocumentsRow :=
  let literal := l.literal p.term
  let grams := searchBodyGrams literal (min 3 literal.length) 3
  let selected := (ordered (Document.sortKey l) (db.documents.filter fun d =>
    decide (d.projectID = p.projectID) && decide (d.eventKind = "message") &&
      grams.all (fun gram => decide (gram ∈ d.bodyGrams l)) && decide (strpos (d.searchText l) literal > 0) &&
      (d.after l p).holds && db.active d.sessionID && db.current d)).take p.resultLimit
  (ordered (Document.sortKey l) selected).map (searchRow l literal)

end Query
end ATape.ProjectSearch
