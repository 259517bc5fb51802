import ATape.Foundation.Json
import ATape.Go.Text

/-! The bounded tool updates that an event may carry. An update is admitted as
text; only its summary is derived from it. -/
namespace ATape.Canonical
open Foundation Go

structure ToolIdentity where
  type : String
  server : String
  name : String
deriving DecidableEq

/-- An absent identity in a present record clears the fact. -/
structure ToolIdentityMeta where
  identity : Option ToolIdentity
  fileActivity : Option String
deriving DecidableEq

/-- Inputs and outputs keep their text. -/
structure ToolUpdate where
  sessionUpdate : String
  toolCallID : String
  title : Option String
  kind : Option String
  status : Option String
  rawInput : Option String
  rawOutput : Option String
  meta_ : Option ToolIdentityMeta
deriving DecidableEq

def toolIdentityNamespace : String := "atape.dev/tool-identity"

def fileActivityNamespace : String := "atape.dev/file-activity"

def maxFileActivityEntries : Nat := 64

def maxFileActivityBytes : Nat := 4096

def maxFilePathBytes : Nat := 2048

/-! Numbers must fit a float. A literal is `digits × 10 ^ power`; the least
magnitude that rounds to infinity is `2 ^ 1024 - 2 ^ 970`. -/

def overflowBound : Nat := 2^1024-2^970

/-- Digits and power of ten of the magnitude of a literal. -/
def magnitude (literal : String) : Nat × Int :=
  let body := literal.toList.filter (· ≠ '-')
  let mantissa := literal.toList.takeWhile fun c => c ≠ 'e' && c ≠ 'E'
  let tail := (literal.toList.dropWhile fun c => c ≠ 'e' && c ≠ 'E').drop 1
  let power : Int := Nat.ofDigitChars 10 (tail.filter Char.isDigit) 0
  let signed := if tail.head? = some '-' then -power else power
  let decimals := (mantissa.dropWhile (· ≠ '.')).drop 1
  (Nat.ofDigitChars 10 ((body.takeWhile fun c => c ≠ 'e' && c ≠ 'E').filter Char.isDigit) 0,
    signed-decimals.length)

/-- `strconv.ParseFloat` accepts the literal. The power is compared with the
number of digits first, so that no huge power is computed. -/
def finiteNumber (literal : String) : Bool :=
  let (digits,power) := magnitude literal
  if digits = 0 then true
  else if power ≥ 310 then false
  else if power ≥ 0 then digits*10^power.toNat < overflowBound
  else if literal.length ≤ power.natAbs then true
  else digits < overflowBound*10^power.natAbs

mutual

def depth : Json → Nat
  | .arr values => depthItems values
  | .obj members => depthMembers members
  | _ => 0

def depthItems : List Json → Nat
  | [] => 0
  | first::others => max (1+depth first) (depthItems others)

def depthMembers : List (String × Json) → Nat
  | [] => 0
  | (_,first)::others => max (1+depth first) (depthMembers others)

end

mutual

def nodes : Json → Nat
  | .arr values => 1+nodesItems values
  | .obj members => 1+nodesMembers members
  | _ => 1

def nodesItems : List Json → Nat
  | [] => 0
  | first::others => nodes first+nodesItems others

def nodesMembers : List (String × Json) → Nat
  | [] => 0
  | (_,first)::others => nodes first+nodesMembers others

end

mutual

/-- No object repeats a name and every number is finite. -/
def plainJSON : Json → Bool
  | .num literal => finiteNumber literal
  | .arr values => plainItems values
  | .obj members => (members.map Prod.fst).Nodup && plainMembers members
  | _ => true

def plainItems : List Json → Bool
  | [] => true
  | first::others => plainJSON first && plainItems others

def plainMembers : List (String × Json) → Bool
  | [] => true
  | (_,first)::others => plainJSON first && plainMembers others

end

def validToolJSON (j : Json) (maxDepth maxNodes : Nat) : Bool :=
  depth j ≤ maxDepth && nodes j ≤ maxNodes && plainJSON j

/-- Every escape of half a surrogate pair stands in a pair. -/
def pairedSurrogates : List Char → Bool
  | [] => true
  | '\\' :: 'u' ::a::b::c::d::rest =>
    match Json.codeUnit [a,b,c,d] with
    | none => false
    | some (unit,_) =>
      if Json.isLow unit then false
      else if Json.isHigh unit then
        match rest with
        | '\\' :: 'u' ::e::f::g::h::rest =>
          match Json.codeUnit [e,f,g,h] with
          | some (low,_) => Json.isLow low && pairedSurrogates rest
          | none => false
        | _ => false
      else pairedSurrogates rest
  | ['\\'] => false
  | '\\' :: 'u' ::_ => false
  | '\\' ::_::rest => pairedSurrogates rest
  | _::rest => pairedSurrogates rest

def validIdentityUnicode (raw : String) : Bool :=
  match raw.toList with
  | '"' ::rest => rest.getLast? = some '"' && pairedSurrogates rest.dropLast
  | _ => false

def identityText (value : String) : Bool :=
  value ≠ "" && trimSpace value = value && trimFunc (· = '\ufeff') value = value && len value ≤ 500

/-- A string member; an absent or null one is empty. -/
def stringMember : Option Json → Option String
  | none => some ""
  | some .null => some ""
  | some (.str text) => some text
  | some _ => none

/-- An optional string member. -/
def pointerMember : Option Json → Option (Option String)
  | none => some none
  | some .null => some none
  | some (.str text) => some (some text)
  | some _ => none

def field (fields : List Json.Field) (name : String) : Option Json.Field :=
  fields.find? fun f => f.name = name

def isNull (raw : String) : Bool := raw = "null"

/-- The bytes that an entry takes when it is written without escapes of the
wire, if it is a well-formed entry. -/
def fileActivityEntry (raw : String) : Option Nat := do
  let fields ← Json.fields raw
  let operation ← field fields "operation"
  let path ← field fields "path"
  let operationText ← stringMember (some operation.value)
  let pathText ← stringMember (some path.value)
  if fields.length = 2 && operationText ∈ ["read","edit","search"] && validIdentityUnicode path.raw &&
      pathText ≠ "" && len pathText ≤ maxFilePathBytes && !pathText.toList.any isControl then
    pure (len "\x7b\"operation\":\"\",\"path\":\"\"\x7d"+len operationText+len pathText+
      pathText.toList.countP fun c => c = '"' || c = '\\')
  else none

def validFileActivity (raw : String) : Bool :=
  isNull raw ||
    match (Json.elements raw).bind fun entries => entries.mapM fileActivityEntry with
    | some sizes => sizes.length ≤ maxFileActivityEntries &&
        2+sizes.sum+(sizes.length-1) ≤ maxFileActivityBytes
    | none => false

def identityMember (raw : String) : Option (Option ToolIdentity) :=
  if isNull raw then some none
  else do
    let values ← Json.fields raw
    let value (name : String) := (field values name).map (·.value)
    let unicode (name : String) := ((field values name).map (·.raw)).any validIdentityUnicode
    let type ← stringMember (value "type")
    let server ← stringMember (value "server")
    let name ← stringMember (value "name")
    if identityText name && unicode "name" &&
        (type = "mcp" && identityText server && unicode "server" && values.length = 3 ||
          (type = "skill" || type = "tool") && values.length = 2) &&
        values.all (fun f => f.name = "type" || f.name = "name" || f.name = "server" && type = "mcp") then
      some (some ⟨type,server,name⟩)
    else none

def metaMember (raw : String) : Option ToolIdentityMeta := do
  let envelope ← Json.fields raw
  let identity ← field envelope toolIdentityNamespace
  let activity := field envelope fileActivityNamespace
  let identified ← identityMember identity.raw
  if envelope.all (fun f => f.name = toolIdentityNamespace || f.name = fileActivityNamespace) &&
      activity.all (fun f => validFileActivity f.raw) then
    some ⟨identified,activity.map (·.raw)⟩
  else none

def toolMembers : List String :=
  ["sessionUpdate","toolCallId","title","kind","status","rawInput","rawOutput","_meta"]

def toolKinds : List String :=
  ["read","edit","delete","move","search","execute","think","fetch","switch_mode","other"]

def toolStatuses : List String := ["pending","in_progress","completed","failed"]

/-- An absent payload is fine; a present one is bounded on its own. -/
def validPayload (payload : Option Json.Field) : Bool :=
  payload.all fun f => len f.raw ≤ 65536 && validToolJSON f.value 32 10000

/-- The update of a text, if it is an admitted one. -/
def parseToolUpdate (text : String) : Option ToolUpdate := do
  let body ← Json.parse text
  let fields ← Json.fields text
  let value (name : String) := (field fields name).map (·.value)
  let sessionUpdate ← stringMember (value "sessionUpdate")
  let toolCallID ← stringMember (value "toolCallId")
  let title ← pointerMember (value "title")
  let kind ← pointerMember (value "kind")
  let status ← pointerMember (value "status")
  let meta_ ← match field fields "_meta" with
    | none => some none
    | some member => (metaMember member.raw).map some
  if len text ≤ 140000 && validToolJSON body 34 21000 && fields.all (fun f => f.name ∈ toolMembers) &&
      trimSpace toolCallID ≠ "" && len toolCallID ≤ 500 &&
      (sessionUpdate = "tool_call" && title.any (fun t => trimSpace t ≠ "") ||
        sessionUpdate = "tool_call_update") &&
      title.all (fun t => len t ≤ 500) && kind.all (· ∈ toolKinds) && status.all (· ∈ toolStatuses) &&
      validPayload (field fields "rawInput") && validPayload (field fields "rawOutput") then
    some ⟨sessionUpdate,toolCallID,title,kind,status,(field fields "rawInput").map (·.raw),
      (field fields "rawOutput").map (·.raw),meta_⟩
  else none

def ToolUpdate.summary (t : ToolUpdate) : String × String × String :=
  let label := match t.title with
    | some title => if title = "" then t.toolCallID else title
    | none => t.toolCallID
  let status := t.status.getD ""
  if t.sessionUpdate = "tool_call" then
    ("tool_call",if status = "" then label else label++" · "++status,label)
  else
    let status := if status = "" then "updated" else status
    (if status = "completed" || status = "failed" then "tool_result" else "tool_call",
      label++" · "++status,label)

end ATape.Canonical
