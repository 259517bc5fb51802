import ATape.Foundation.Run
import ATape.Foundation.Table
import ATape.Go.Text

/-! Joining a team with a code: the transactions of one user, statement by statement.
The only rows that they contend for are the counters of failed attempts. A statement
that wants a locked row waits; one that finds no row locks nothing. -/
namespace ATape.Team
open Foundation Go

structure Policy where
  joinCodeAttemptWindow : Int
  maximumCodeFailures : Nat

structure PepperKeys where
  keyIDs : List String
  shortCodeDigest : String → String → Option String

structure JoinCodeRow where
  teamID : String
  pepperKeyID : String
  codeDigest : String
  status : String
deriving DecidableEq

structure WindowRow where
  failureCount : Nat
  blockedUntil : Option Int
deriving DecidableEq

def joinCodeAlphabet : String := "ABCDEFGHJKLMNPQRSTUVWXYZ23456789"

def joinCodeLength : Nat := 6

/-- `unicode.ToUpper` on the letters whose capital is in the alphabet of codes. -/
def toUpper (c : Char) : Char := if c = 'ſ' then 'S' else c.toUpper

def normalizeJoinCode (value : String) : Option String :=
  let upper := String.ofList ((trimSpace value).toList.map toUpper)
  if len upper = joinCodeLength ∧ upper.toList.all (joinCodeAlphabet.toList.contains ·) then some upper else none

/-- `now.Truncate` -/
def windowStart (policy : Policy) (now : Int) : Int := now-now%policy.joinCodeAttemptWindow

def windowEnd (policy : Policy) (now : Int) : Int := windowStart policy now+policy.joinCodeAttemptWindow

/-- The next statement of a transaction, with what those before it read. -/
inductive Place
  | started
  | timed (now : Int)
  | searching (now : Int) (code : String) (keys : List String) (found : List (String × JoinCodeRow))
  | failing (now : Int)
  | locking (now : Int) (id : String) (row : JoinCodeRow)
  | confirming (now : Int) (id : String) (row : JoinCodeRow)
  | entering (now : Int) (teamID : String)
  | clearing (now : Int) (teamID : String)
  | ending (now : Int) (joined : Option String)

/-- A call of `JoinTeam`. It is counted when its check found a counter. -/
structure Call where
  joinCode : String
  counted : Bool
  place : Place

inductive Write
  | nothing
  | put (row : WindowRow)
  | delete

structure Lock where
  holder : Nat
  write : Write

/-- What is told of the calls: that a code was compared with the enabled ones, and that
a join was committed. -/
inductive Event
  | compared (call : Nat) (window : Int) (code : String) (found counted : Bool)
  | joined (window : Int)
deriving DecidableEq

/-- The committed rows, those that a transaction has locked, and the transactions. -/
structure State where
  codes : Table String JoinCodeRow
  memberships : Table String String
  windows : Table Int WindowRow
  locks : Table Int Lock
  calls : Table Nat Call
  history : List Event

inductive Label
  | arrive (id : Nat) (joinCode : String)
  | readTime (id : Nat) (now : Int)
  | check (id : Nat)
  | find (id : Nat)
  | lockTeam (id : Nat)
  | lockCode (id : Nat)
  | enter (id : Nat)
  | clear (id : Nat)
  | record (id : Nat)
  | commit (id : Nat)
  | administer (codes : Table String JoinCodeRow)

namespace State

def initial (codes : Table String JoinCodeRow) (memberships : Table String String) : State :=
  ⟨codes,memberships,∅,∅,∅,[]⟩

def free (s : State) (window : Int) (id : Nat) : Bool := (s.locks.lookup window).all fun lock => lock.holder = id

def goto (s : State) (id : Nat) (call : Call) (place : Place) : State :=
  {s with calls := s.calls.insert id {call with place}}

/-- The end of a transaction, whose locks go. -/
def finish (s : State) (id : Nat) : State :=
  {s with calls := s.calls.erase id, locks := s.locks.keep fun _ lock => lock.holder ≠ id}

def findEnabledJoinCode (s : State) (keyID digest : String) : Option (String × JoinCodeRow) :=
  s.codes.rows.find? fun row => row.2.pepperKeyID = keyID && row.2.codeDigest = digest && row.2.status = "enabled"

def refuses (policy : Policy) (row : WindowRow) (now : Int) : Bool :=
  policy.maximumCodeFailures ≤ row.failureCount || row.blockedUntil.any fun time => now < time

def search (pepper : PepperKeys) (call : Call) (now : Int) : Place :=
  match normalizeJoinCode call.joinCode with
  | none => .failing now
  | some code => .searching now code pepper.keyIDs []

/-- `GetJoinCodeAttemptWindowForUpdate`. A row that is not committed yet is not there. -/
def check (policy : Policy) (pepper : PepperKeys) (s : State) (id : Nat) (call : Call) (now : Int) : Option State :=
  let window := windowStart policy now
  match s.windows.lookup window with
  | none => some (s.goto id {call with counted := false} (search pepper call now))
  | some row =>
    if !s.free window id then none
    else if refuses policy row now then some (s.finish id)
    else some ({s with locks := s.locks.insert window ⟨id,.nothing⟩}.goto id {call with counted := true}
      (search pepper call now))

/-- The search with one key, or what follows from what all of them found. -/
def find (policy : Policy) (pepper : PepperKeys) (s : State) (id : Nat) (call : Call) (now : Int) (code : String)
    (keys : List String) (found : List (String × JoinCodeRow)) : State :=
  match keys with
  | key::keys =>
    match pepper.shortCodeDigest key code with
    | none => s.finish id
    | some digest => s.goto id call (.searching now code keys (found++(s.findEnabledJoinCode key digest).toList))
  | [] =>
    let told := {s with
      history := s.history++[Event.compared id (windowStart policy now) code (!found.isEmpty) call.counted]}
    match found with
    | [] => told.goto id call (.failing now)
    | [(codeID,row)] => told.goto id call (.locking now codeID row)
    | _::_::_ => told.finish id

def failed (policy : Policy) (old : Option WindowRow) (now : Int) : WindowRow :=
  match old with
  | none => ⟨1,none⟩
  | some row => ⟨row.failureCount+1,if policy.maximumCodeFailures ≤ row.failureCount+1 then some (windowEnd policy now)
      else row.blockedUntil⟩

/-- `RecordJoinCodeFailure`. The column takes a hundred thousand failures. -/
def record (policy : Policy) (s : State) (id : Nat) (call : Call) (now : Int) : Option State :=
  let window := windowStart policy now
  let row := failed policy (s.windows.lookup window) now
  if !s.free window id then none
  else if 100000 < row.failureCount then some (s.finish id)
  else some ({s with locks := s.locks.insert window ⟨id,.put row⟩}.goto id call (.ending now none))

/-- The code under its lock, which may have been replaced since it was found. -/
def confirm (s : State) (id : Nat) (call : Call) (now : Int) (codeID : String) (row : JoinCodeRow) : State :=
  let still := (s.codes.lookup codeID).any fun locked => locked.status = "enabled" && locked.codeDigest = row.codeDigest
  s.goto id call (if still then .entering now row.teamID else .failing now)

def enter (s : State) (id : Nat) (call : Call) (now : Int) (teamID : String) : State :=
  if (s.memberships.lookup teamID).all fun status => status = "removed" || status = "active" then
    s.goto id call (.clearing now teamID)
  else s.finish id

/-- `ClearJoinCodeAttemptWindow` -/
def clear (policy : Policy) (s : State) (id : Nat) (call : Call) (now : Int) (teamID : String) : Option State :=
  let window := windowStart policy now
  match s.windows.lookup window with
  | none => some (s.goto id call (.ending now (some teamID)))
  | some _ =>
    if !s.free window id then none
    else some ({s with locks := s.locks.insert window ⟨id,.delete⟩}.goto id call (.ending now (some teamID)))

def written (s : State) (window : Int) (id : Nat) : Table Int WindowRow :=
  match (s.locks.lookup window).filter fun lock => lock.holder = id with
  | some ⟨_,.put row⟩ => s.windows.insert window row
  | some ⟨_,.delete⟩ => s.windows.erase window
  | _ => s.windows

def commit (policy : Policy) (s : State) (id : Nat) (now : Int) (joined : Option String) : State :=
  let window := windowStart policy now
  let settled := {s with windows := s.written window id}.finish id
  match joined with
  | none => settled
  | some teamID => {settled with
      memberships := settled.memberships.insert teamID "active"
      history := settled.history++[Event.joined window]}

/-- The step of a transaction, or none where it cannot be taken. -/
def step (policy : Policy) (pepper : PepperKeys) (s : State) : Label → Option State
  | .arrive id joinCode =>
    if (s.calls.lookup id).isSome then none else some (s.goto id ⟨joinCode,false,.started⟩ .started)
  | .administer codes => some {s with codes}
  | .readTime id now => at_ id fun call => match call.place with
    | .started => some (s.goto id call (.timed now))
    | _ => none
  | .check id => at_ id fun call => match call.place with
    | .timed now => check policy pepper s id call now
    | _ => none
  | .find id => at_ id fun call => match call.place with
    | .searching now code keys found => some (find policy pepper s id call now code keys found)
    | _ => none
  | .lockTeam id => at_ id fun call => match call.place with
    | .locking now codeID row => some (s.goto id call (.confirming now codeID row))
    | _ => none
  | .lockCode id => at_ id fun call => match call.place with
    | .confirming now codeID row => some (confirm s id call now codeID row)
    | _ => none
  | .enter id => at_ id fun call => match call.place with
    | .entering now teamID => some (enter s id call now teamID)
    | _ => none
  | .clear id => at_ id fun call => match call.place with
    | .clearing now teamID => clear policy s id call now teamID
    | _ => none
  | .record id => at_ id fun call => match call.place with
    | .failing now => record policy s id call now
    | _ => none
  | .commit id => at_ id fun call => match call.place with
    | .ending now joined => some (commit policy s id now joined)
    | _ => none
where
  at_ (id : Nat) (next : Call → Option State) : Option State := (s.calls.lookup id).bind next

end State
end ATape.Team
