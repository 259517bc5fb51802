import ATape.Foundation.Outcome
import ATape.Foundation.Repeats
import ATape.Foundation.Table
import ATape.Node.Json

/-! Native CodeBuddy records and the records of a history. Numbers are a parameter with what
`String` makes of them; a value that JSON cannot express is absent. -/
namespace ATape.CodeBuddy
open Foundation

inductive Reason
  | io
  | format
  | unsupported
  | attribution
  | limit
  | closed
deriving DecidableEq

inductive Failure
  | source (reason : Reason) (message : String)
  | typeError
deriving DecidableEq

def fail {α : Type} (reason : Reason) (message : String) : Except Failure α := .error (.source reason message)

inductive Value (ν : Type)
  | null
  | bool (value : Bool)
  | num (value : ν)
  | str (text : String)
  | arr (items : List (Value ν))
  | obj (members : List (String × Value ν))

abbrev Row (ν : Type) := List (String × Value ν)

section Values
variable {ν : Type}

def Row.get (row : Row ν) (name : String) : Option (Value ν) := row.lookup name

def object : Option (Value ν) → Row ν
  | some (.obj members) => members
  | _ => []

/-- A string of at most 500 bytes. -/
def id : Option (Value ν) → Except Failure String
  | some (.str text) =>
    if text = "" ∨ text.utf8ByteSize > 500 ∨ text.toList.contains '\x00' then
      fail .format "CodeBuddy record identity is invalid."
    else .ok text
  | _ => fail .format "CodeBuddy record identity is invalid."

def isText (value : Option (Value ν)) (text : String) : Bool :=
  match value with
  | some (.str other) => other = text
  | _ => false

/-- `!= null` -/
def isPresent : Option (Value ν) → Bool
  | none | some .null => false
  | some _ => true

/-- `===` for values of two rows, which share no objects. -/
def strictlyEqual [DecidableEq ν] : Option (Value ν) → Option (Value ν) → Bool
  | none,none => true
  | some .null,some .null => true
  | some (.bool a),some (.bool b) => a = b
  | some (.num a),some (.num b) => a = b
  | some (.str a),some (.str b) => a = b
  | _,_ => false

variable (numeral : ν → String)

mutual

/-- `String(value)`. An object whose own `toString` is no function has no text. -/
def text : Value ν → Option String
  | .null => some "null"
  | .bool true => some "true"
  | .bool false => some "false"
  | .num value => some (numeral value)
  | .str text => some text
  | .arr items => (texts items).map (String.intercalate ",")
  | .obj members => if members.any (fun member => member.1 = "toString") then none else some "[object Object]"

def texts : List (Value ν) → Option (List String)
  | [] => some []
  | .null::items => (texts items).map ("" :: ·)
  | item::items => (text item).bind fun first => (texts items).map (first :: ·)

end

def stringOf : Option (Value ν) → Except Failure String
  | none => .ok "undefined"
  | some value => present (text numeral value) .typeError

end Values

structure NativeRecord (ν : Type) where
  row : Row ν
  json : String

/-- A record of a history. A sibling is not the first of its row id. -/
structure Entry (ν : Type) extends NativeRecord ν where
  sibling : Bool

section History
variable {ν : Type}

def callIdOf (row : Row ν) : Except Failure String :=
  if isText (row.get "type") "function_call" then id (row.get "callId") else pure ""

def NativeRecord.key (record : NativeRecord ν) : Except Failure (String × String) := do
  let rowId ← id (record.row.get "id")
  let callId ← callIdOf record.row
  pure (rowId,callId)

def revised {α : Type} : Except Failure α :=
  fail .unsupported "CodeBuddy repeated record revisions require a wider source profile."

structure Scan (ν : Type) where
  unique : List (Entry ν)
  seen : Table String (Table String String)

/-- Whether a record may follow others of its row id. -/
def Scan.misplaced (scan : Scan ν) (rowId callId : String) (variants : Table String String) : Bool :=
  callId = "" || (variants.lookup "").isSome ||
    !scan.unique.getLast?.any fun last => isText (last.row.get "id") rowId

def scanRecord (scan : Scan ν) (record : NativeRecord ν) : Except Failure (Scan ν) := do
  let (rowId,callId) ← record.key
  let variants := scan.seen.lookup rowId
  match variants.bind (·.lookup callId) with
  | some json => if json ≠ record.json then revised else pure scan
  | none =>
    if variants.any (scan.misplaced rowId callId) then revised
    else pure ⟨scan.unique++[⟨record,variants.isSome⟩],
      scan.seen.insert rowId ((variants.getD ∅).insert callId record.json)⟩

def scanRecords (records : List (NativeRecord ν)) : Except Failure (Scan ν) := records.foldlM scanRecord ⟨[],∅⟩

variable [DecidableEq ν] (numeral : ν → String)

def responseKeys : List String := ["messageId","model","agent","traceId","conversationRequestId"]

def delegationNames : List String := ["Agent","Task","SendMessage"]

/-- Whether a call of a group differs from the first, which it may be itself. -/
def differs (own : Bool) (first row : Row ν) : Bool :=
  let data := object (row.get "providerData")
  let provider := object (first.get "providerData")
  !own && (!strictlyEqual (row.get "sessionId") (first.get "sessionId") ||
    !strictlyEqual (row.get "parentId") (first.get "parentId") ||
    responseKeys.any fun key => !strictlyEqual (data.get key) (provider.get key))

def isMarked (row : Row ν) : Bool :=
  let data := object (row.get "providerData")
  isPresent (row.get "logicalParentId") || isPresent (data.get "isCompactInternal") || isPresent (data.get "compactType")

def hasUsage (row : Row ν) : Bool :=
  let data := object (row.get "providerData")
  !(object ((object (row.get "message")).get "usage")).isEmpty || isPresent (data.get "usage") ||
    isPresent (data.get "rawUsage")

def unproven {α : Type} : Except Failure α :=
  fail .unsupported "CodeBuddy tool siblings have unproven response or delegation semantics."

abbrev Names (ν : Type) := Table String (Option (Value ν))

def checkCall (first : Row ν) (own last : Bool) (calls : Names ν) (row : Row ν) : Except Failure (Names ν) :=
  if !isText (row.get "type") "function_call" then unproven
  else do
    let name ← stringOf numeral (row.get "name")
    if delegationNames.contains name || differs own first row || isMarked row || !last && hasUsage row then unproven
    else do
      let callId ← id (row.get "callId")
      pure (calls.insert callId (row.get "name"))

def checkCalls (first : Row ν) (own : Bool) (calls : Names ν) : List (Entry ν) → Except Failure (Names ν)
  | [] => pure calls
  | call::rest => do
    let calls ← checkCall numeral first own rest.isEmpty calls call.row
    checkCalls first false calls rest

def unfinished {α : Type} : Except Failure α :=
  fail .format "CodeBuddy tool group has not reached every result; retry."

def checkResult (calls : Names ν) (result : Row ν) : Except Failure (Names ν) :=
  if !isText (result.get "type") "function_call_result" then unfinished
  else do
    let callId ← id (result.get "callId")
    match calls.lookup callId with
    | none => unfinished
    | some name =>
      if !strictlyEqual (result.get "name") name then fail .format "CodeBuddy tool group result changed its tool name."
      else pure (calls.erase callId)

def checkResults (calls : Names ν) : Nat → List (Entry ν) → Except Failure Unit
  | 0,_ => pure ()
  | _+1,[] => unfinished
  | n+1,result::rest => do
    let calls ← checkResult calls result.row
    checkResults calls n rest

/-- A record without siblings is no group. -/
def checkGroup (first : Entry ν) (siblings following : List (Entry ν)) : Except Failure Unit :=
  if siblings.isEmpty then pure () else do
  let provider := object (first.row.get "providerData")
  let _ ← id (provider.get "messageId")
  let _ ← id (provider.get "model")
  let calls ← checkCalls numeral first.row true ∅ (first::siblings)
  checkResults calls (siblings.length+1) following

def checkGroups : List (Entry ν) → Except Failure Unit
  | [] => pure ()
  | first::rest => do
    let siblings := rest.takeWhile (·.sibling)
    let following := rest.dropWhile (·.sibling)
    checkGroup numeral first siblings following
    checkGroups following
termination_by entries => entries.length
decreasing_by exact Nat.lt_succ_of_le (List.dropWhile_sublist _).length_le

def historyRecords (records : List (NativeRecord ν)) : Except Failure (List (Entry ν)) := do
  let scan ← scanRecords records
  checkGroups numeral scan.unique
  pure scan.unique

end History

/-! The keys under which records and their events are published. -/

section Keys
variable {ν : Type} (digest : String → String)

/-- `digest` is SHA-256 in hexadecimal digits. -/
def identity (parts : List String) : String := "cb_"++digest (Node.stringify (.arr (parts.map .str)))

def recordKey (namespace_ : String) (entry : Entry ν) : Except Failure String := do
  let (rowId,callId) ← entry.key
  pure (if entry.sibling then identity digest ["record-call",namespace_,rowId,callId]
    else identity digest ["record",namespace_,rowId])

def sourceEventId (namespace_ slot : String) (entry : Entry ν) : Except Failure String := do
  let (rowId,callId) ← entry.key
  pure (if entry.sibling then identity digest ["event-call",namespace_,rowId,callId,slot]
    else identity digest ["event",namespace_,rowId,slot])

end Keys
end ATape.CodeBuddy
