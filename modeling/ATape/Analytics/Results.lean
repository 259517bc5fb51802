import ATape.Analytics.Activity
import ATape.Canonical.Tool
import ATape.Foundation.Orders

/-! What an analysis of a session reports. -/
namespace ATape.SessionAnalytics
open Foundation Go
open Canonical (ToolIdentity)

def maxFacts : ℕ := 100000

def maxThreads : ℕ := 5000

def maxTools : ℕ := 2000

def maxModels : ℕ := 1000

def maxFilePaths : ℕ := 2000

def analyticsMetadataBytes : ℕ := 32*2^20

structure Tokens where
  total : Option ℤ
  input : Option ℤ
  output : Option ℤ
  cacheRead : Option ℤ
  cacheWrite : Option ℤ
  recordedSamples : ℕ
  incompleteSamples : ℕ
deriving DecidableEq

structure Summary where
  rootUserInputs : ℕ := 0
  messageFragments : ℕ := 0
  thoughtFragments : ℕ := 0
  toolCalls : ℕ := 0
  childThreads : ℕ := 0
  knownTimeEvents : ℕ := 0
  unknownTimeEvents : ℕ := 0
  unlinkedToolEvents : ℕ := 0
  identifiedToolCalls : Option ℕ := none
  unidentifiedToolCalls : Option ℕ := none
deriving DecidableEq

structure Outcomes where
  calls : ℕ := 0
  completed : ℕ := 0
  failed : ℕ := 0
  pending : ℕ := 0
  inProgress : ℕ := 0
  unknown : ℕ := 0
deriving DecidableEq

def Outcomes.increment (o : Outcomes) (status : String) : Outcomes :=
  let o := {o with calls := o.calls+1}
  if status = "completed" then {o with completed := o.completed+1}
  else if status = "failed" then {o with failed := o.failed+1}
  else if status = "pending" then {o with pending := o.pending+1}
  else if status = "in_progress" then {o with inProgress := o.inProgress+1}
  else {o with unknown := o.unknown+1}

structure Tool where
  key : String
  identity : Option ToolIdentity
  name : String
  kind : String
  outcomes : Outcomes
deriving DecidableEq

structure MCPTool where
  server : String
  name : String
  outcomes : Outcomes
deriving DecidableEq

structure Skill where
  name : String
  outcomes : Outcomes
deriving DecidableEq

structure Capabilities where
  mcpCalls : ℕ
  skillCalls : ℕ
  unclassifiedCalls : ℕ
  mcp : List MCPTool
  skills : List Skill
deriving DecidableEq

structure Thread where
  id : String
  label : String
  parentThreadID : Option String
  captureStatus : String
  eventCount : ℕ := 0
  toolCalls : ℕ := 0
  tokens : Tokens := ⟨none,none,none,none,none,0,0⟩
deriving DecidableEq

structure ModelUsage where
  model : String
  samples : ℕ
  tokens : Tokens
deriving DecidableEq

structure UsageReport where
  samples : ℕ
  tokens : Tokens
  models : List ModelUsage
deriving DecidableEq

structure EvidenceItem where
  eventID : String
  threadID : String
  kind : String
  label : String
  occurredAt : Option Time
  clockQuality : Option ClockQuality
deriving DecidableEq

structure FileOperations where
  readCalls : ℕ := 0
  editCalls : ℕ := 0
  searchCalls : ℕ := 0
deriving DecidableEq

def FileOperations.increment (o : FileOperations) (operation : String) : FileOperations :=
  if operation = "read" then {o with readCalls := o.readCalls+1}
  else if operation = "edit" then {o with editCalls := o.editCalls+1}
  else if operation = "search" then {o with searchCalls := o.searchCalls+1}
  else o

structure FilePath where
  key : String
  path : String
  calls : ℕ := 0
  operations : FileOperations := {}
deriving DecidableEq

structure FileActivity where
  callsWithActivity : ℕ
  callsWithoutActivity : ℕ
  operations : FileOperations
  uniquePaths : ℕ
  paths : List FilePath
deriving DecidableEq

structure Result where
  snapshot : String
  head : String
  analyticsVersion : ℕ
  sessionID : String
  captureStatus : String
  summary : Summary
  tools : List Tool
  capabilities : Capabilities
  threads : List Thread
  usage : UsageReport
  evidence : List EvidenceItem
  nextCursor : String
  activity : Option Activity
  fileActivity : Option FileActivity
  tokenActivity : Option TokenActivity

end ATape.SessionAnalytics
