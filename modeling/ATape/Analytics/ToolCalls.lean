import ATape.Analytics.Events
import ATape.Foundation.Entries

/-! The loops over the tool calls of a session: their tools, capabilities and files. -/
namespace ATape.SessionAnalytics
open Foundation Go SourceIdentity
open Canonical (ToolIdentity)

def identityJson (identity : ToolIdentity) : Json :=
  .obj ([("type",.str identity.type)]++(if identity.server = "" then [] else [("server",.str identity.server)])++
    [("name",.str identity.name)])

def stableToolName (identity : Option ToolIdentity) : String :=
  match identity with
  | none => "unknown"
  | some identity => if identity.type = "mcp" then identity.server++"/"++identity.name else identity.name

def stableToolKey (h : Hash) (identity : Option ToolIdentity) (kind : String) : String :=
  "tool:"++h.hex (marshal (.arr [.str "tool-group.v1",(identity.map identityJson).getD .null,.str kind]))

/-- What the loop over the calls has found. -/
structure CallScan where
  groups : Table (String × String) Tool := ∅
  mcpGroups : Table (String × String) MCPTool := ∅
  skillGroups : Table String Skill := ∅
  toolNames : List String := []
  capabilityNames : List String := []
  serverNames : List String := []
  toolCalls : ℕ := 0
  identified : ℕ := 0
  unidentified : ℕ := 0
  mcpCalls : ℕ := 0
  skillCalls : ℕ := 0
  unclassified : ℕ := 0
  threads : Table String Thread
  candidates : Table String EvidenceItem

def ToolCall.selector (h : Hash) (q : Query) (call : ToolCall) : String :=
  if q.analyticsVersion ≥ stableToolVersion then stableToolKey h call.identity call.kind else call.name

def ToolCall.groupKey (h : Hash) (q : Query) (call : ToolCall) : String × String := (call.selector h q,call.kind)

def ToolCall.group (h : Hash) (q : Query) (call : ToolCall) : Tool :=
  if q.analyticsVersion ≥ stableToolVersion then
    ⟨call.selector h q,call.identity,stableToolName call.identity,call.kind,{}⟩
  else ⟨"",none,call.name,call.kind,{}⟩

def ToolCall.matchesTool (h : Hash) (q : Query) (call : ToolCall) : Bool :=
  (decide (q.metric = "tools") || decide (q.metric = "failed_tools") && decide (call.status = "failed") ||
    decide (q.metric = "unknown_tools") && decide (call.status = "")) &&
    (decide (q.tool = "") || decide (q.tool = call.selector h q))

inductive Capability
  | unclassified
  | mcp (server name : String)
  | skill (name : String)
  | other

def ToolCall.capability (call : ToolCall) : Capability :=
  match call.identity with
  | none => .unclassified
  | some identity =>
    if identity.type = "tool" then .unclassified
    else if identity.type = "mcp" then .mcp identity.server identity.name
    else if identity.type = "skill" then .skill identity.name
    else .other

def ToolCall.matchesCapability (q : Query) (call : ToolCall) : Bool :=
  match call.capability with
  | .mcp server name => decide (q.metric = "mcp_tools") && (decide (q.server = "") || decide (q.server = server)) &&
      (decide (q.capability = "") || decide (q.capability = name))
  | .skill name => decide (q.metric = "skills") && (decide (q.capability = "") || decide (q.capability = name))
  | _ => false

def capabilityLabel : Capability → String
  | .mcp server name => server++"/"++name
  | .skill name => name
  | _ => ""

/-- The label under which a call is a candidate of the metric. Evidence of a tool keeps the last display
title of the call. -/
def ToolCall.candidate (h : Hash) (q : Query) (call : ToolCall) : Option String :=
  if call.matchesCapability q = true then some (capabilityLabel call.capability)
  else if call.matchesTool h q = true then some call.name
  else none

/-- Counts a call with its tool and its thread. -/
def CallScan.countTool (h : Hash) (q : Query) (scan : CallScan) (row : CallKey × ToolCall) : CallScan :=
  let group := (scan.groups.lookup (row.2.groupKey h q)).getD (row.2.group h q)
  {scan with
    groups := scan.groups.insert (row.2.groupKey h q) {group with outcomes := group.outcomes.increment row.2.status}
    toolNames := row.2.selector h q::scan.toolNames
    toolCalls := scan.toolCalls+1
    identified := if row.2.identity.isSome = true then scan.identified+1 else scan.identified
    unidentified := if row.2.identity.isSome = true then scan.unidentified else scan.unidentified+1
    threads := Table.modify row.1.thread (fun thread => {thread with toolCalls := thread.toolCalls+1}) scan.threads
    candidates := match row.2.candidate h q with
      | some label => scan.candidates.insert row.2.event.id (evidenceItem row.2.event label)
      | none => scan.candidates}

def CallScan.countCapability (q : Query) (scan : CallScan) (call : ToolCall) : CallScan :=
  match call.capability with
  | .unclassified => {scan with unclassified := scan.unclassified+1}
  | .mcp server name =>
    let group := (scan.mcpGroups.lookup (server,name)).getD ⟨server,name,{}⟩
    {scan with
      mcpCalls := scan.mcpCalls+1
      mcpGroups := scan.mcpGroups.insert (server,name) {group with outcomes := group.outcomes.increment call.status}
      serverNames := server::scan.serverNames
      capabilityNames := if q.metric = "mcp_tools" then name::scan.capabilityNames else scan.capabilityNames}
  | .skill name =>
    let group := (scan.skillGroups.lookup name).getD ⟨name,{}⟩
    {scan with
      skillCalls := scan.skillCalls+1
      skillGroups := scan.skillGroups.insert name {group with outcomes := group.outcomes.increment call.status}
      capabilityNames := if q.metric = "skills" then name::scan.capabilityNames else scan.capabilityNames}
  | .other => scan

def CallScan.take (h : Hash) (q : Query) (scan : CallScan) (row : CallKey × ToolCall) : CallScan :=
  (scan.countTool h q row).countCapability q row.2

section Fields
variable (h : Hash) (q : Query) (scan : CallScan) (row : CallKey × ToolCall)

@[simp] theorem countTool_mcpGroups : (scan.countTool h q row).mcpGroups = scan.mcpGroups := rfl

@[simp] theorem countTool_skillGroups : (scan.countTool h q row).skillGroups = scan.skillGroups := rfl

@[simp] theorem countTool_toolNames :
    (scan.countTool h q row).toolNames = row.2.selector h q::scan.toolNames := rfl

@[simp] theorem countTool_capabilityNames : (scan.countTool h q row).capabilityNames = scan.capabilityNames := rfl

@[simp] theorem countTool_serverNames : (scan.countTool h q row).serverNames = scan.serverNames := rfl

end Fields

def CallScan.fits (scan : CallScan) : Prop :=
  scan.groups.size ≤ maxTools ∧ scan.mcpGroups.size+scan.skillGroups.size ≤ maxTools

instance (scan : CallScan) : Decidable scan.fits := by
  unfold CallScan.fits
  infer_instance

def CallScan.hasRoom (h : Hash) (q : Query) (scan : CallScan) (call : ToolCall) : Prop :=
  ((scan.groups.lookup (call.groupKey h q)).isSome = true ∨ scan.groups.size < maxTools) ∧
    match call.capability with
    | .mcp server name => (scan.mcpGroups.lookup (server,name)).isSome = true ∨
        scan.mcpGroups.size+scan.skillGroups.size < maxTools
    | .skill name => (scan.skillGroups.lookup name).isSome = true ∨ scan.mcpGroups.size+scan.skillGroups.size < maxTools
    | _ => True

instance (h : Hash) (q : Query) (scan : CallScan) (call : ToolCall) : Decidable (scan.hasRoom h q call) := by
  unfold CallScan.hasRoom
  cases call.capability <;> infer_instance

def CallScan.run (h : Hash) (q : Query) : CallScan → List (CallKey × ToolCall) → Except Failure CallScan :=
  foldGuarded (fun scan row => ¬scan.hasRoom h q row.2) .capacity (CallScan.take h q)

/-! Files. -/

def filePathKey (h : Hash) (path : String) : String :=
  "file:"++h.hex (marshal (.arr [.str "file-path.v1",.str path]))

structure FileEntries where
  paths : Table String FilePath
  selectors : List String
  seen : List (String × String) := []
  seenPaths : List String := []
  operations : List String := []
  found : Bool := false

def FileEntries.group (h : Hash) (scan : FileEntries) (path : String) : FilePath :=
  (scan.paths.lookup path).getD {key := filePathKey h path,path}

def FileEntries.take (h : Hash) (q : Query) (scan : FileEntries) (entry : String × String) : FileEntries :=
  let (operation,path) := entry
  let group := scan.group h path
  if entry ∈ scan.seen then scan
  else
    { paths := scan.paths.insert path {group with
        calls := if path ∈ scan.seenPaths then group.calls else group.calls+1
        operations := group.operations.increment operation}
      selectors := if (scan.paths.lookup path).isSome = true then scan.selectors else group.key::scan.selectors
      seen := entry::scan.seen
      seenPaths := if path ∈ scan.seenPaths then scan.seenPaths else path::scan.seenPaths
      operations := if operation ∈ scan.operations then scan.operations else operation::scan.operations
      found := scan.found || (decide (q.file = "") || decide (q.file = group.key)) &&
        (decide (q.operation = "") || decide (q.operation = operation)) }

def FileEntries.hasRoom (scan : FileEntries) (entry : String × String) : Prop :=
  entry ∈ scan.seen ∨ (scan.paths.lookup entry.2).isSome = true ∨ scan.paths.size < maxFilePaths

instance (scan : FileEntries) (entry : String × String) : Decidable (scan.hasRoom entry) := by
  unfold FileEntries.hasRoom
  infer_instance

def FileEntries.run (h : Hash) (q : Query) : FileEntries → List (String × String) → Except Failure FileEntries :=
  foldGuarded (fun scan entry => ¬scan.hasRoom entry) .capacity (FileEntries.take h q)

structure FileScan where
  callsWithActivity : ℕ := 0
  callsWithoutActivity : ℕ := 0
  operations : FileOperations := {}
  paths : Table String FilePath := ∅
  selectors : List String := []
  candidates : Table String EvidenceItem

def FileScan.entries (scan : FileScan) : FileEntries := {paths := scan.paths,selectors := scan.selectors}

/-- Counts a call of which the entries were found. -/
def FileScan.count (order : MapOrder) (q : Query) (scan : FileScan) (call : ToolCall) (entries : FileEntries) : FileScan where
  callsWithActivity := scan.callsWithActivity+1
  callsWithoutActivity := scan.callsWithoutActivity
  operations := (order.visit 3 entries.operations).foldl FileOperations.increment scan.operations
  paths := entries.paths
  selectors := entries.selectors
  candidates :=
    if q.metric = "files" ∧ entries.found = true then
      scan.candidates.insert call.event.id (evidenceItem call.event call.name)
    else scan.candidates

def scanFiles (h : Hash) (order : MapOrder) (q : Query) (scan : FileScan) (call : ToolCall) : Except Failure FileScan :=
  if call.fileActivity = [] then pure {scan with callsWithoutActivity := scan.callsWithoutActivity+1}
  else do
    let entries ← FileEntries.run h q scan.entries call.fileActivity
    pure (scan.count order q call entries)

def FileScan.run (h : Hash) (order : MapOrder) (q : Query) : FileScan → List ToolCall → Except Failure FileScan
  | scan,[] => pure scan
  | scan,call::calls => do
    let scan ← scanFiles h order q scan call
    FileScan.run h order q scan calls

def FilePath.less (a b : FilePath) : Bool := if a.calls ≠ b.calls then a.calls > b.calls else a.path < b.path

def deriveFileActivity (h : Hash) (order : MapOrder) (q : Query) (calls : Table CallKey ToolCall)
    (candidates : Table String EvidenceItem) : Except Failure (FileActivity × Table String EvidenceItem) := do
  let scan ← FileScan.run h order q {candidates} ((order.visit 2 calls.rows).map Prod.snd)
  failWhen (q.file ≠ "" ∧ q.file ∉ scan.selectors) (.invalidQuery "file" "is outside this snapshot")
  let paths := ((order.visit 4 scan.paths.rows).map Prod.snd).mergeSort fun a b => !b.less a
  pure (⟨scan.callsWithActivity,scan.callsWithoutActivity,scan.operations,paths.length,paths⟩,scan.candidates)

end ATape.SessionAnalytics
