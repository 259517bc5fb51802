import Mathlib.Algebra.Order.Ring.Int
import Mathlib.Data.List.Sort
import Mathlib.Data.Prod.Lex
import Mathlib.Tactic.Ring

/-! Transactions as programs of statements. A statement reads the clock and what the statements
before it left of the database. An operation that stops is rolled back, unless it asks for a
commit together with its error. -/
namespace ATape.Foundation

/-- What a write does to a database. -/
class Writes (δ : Type) (ω : outParam Type) where
  apply : ω → δ → δ

/-- Why an operation stops: with an error of its own, with one that is committed, or because
something under it failed. -/
inductive Halt (ε : Type)
  | refuse (error : ε)
  | settle (error : ε)
  | fault (retryable : Bool)

/-- The clock, the failures and the random texts that an operation meets, step by step. -/
structure World where
  clock : ℕ → Int
  fault : ℕ → Option Bool
  drawn : ℕ → String

/-- What an operation has written to the database that it began with. -/
structure Draft (δ ω : Type) where
  base : δ
  writes : List ω
  step : ℕ

section Programs
variable {δ ω ε α β : Type}

def drafted [Writes δ ω] (base : δ) (writes : List ω) : δ := writes.foldl (fun db write => Writes.apply write db) base

theorem written_append [Writes δ ω] (base : δ) (first second : List ω) :
    drafted base (first++second) = drafted (drafted base first) second := List.foldl_append

def Draft.start (base : δ) : Draft δ ω := ⟨base,[],0⟩

def Draft.db [Writes δ ω] (work : Draft δ ω) : δ := drafted work.base work.writes

def Draft.add (work : Draft δ ω) (writes : List ω) : Draft δ ω := ⟨work.base,work.writes++writes,work.step+1⟩

theorem Draft.db_add [Writes δ ω] (work : Draft δ ω) (writes : List ω) : (work.add writes).db = drafted work.db writes :=
  written_append _ _ _

def Tx (δ ω ε α : Type) := World → Draft δ ω → Except (Halt ε) α × Draft δ ω

instance : Monad (Tx δ ω ε) where
  pure a := fun _ work => (.ok a,work)
  bind x f := fun world work => match x world work with
    | (.ok a,work) => f a world work
    | (.error halt,work) => (.error halt,work)

def halt (why : Halt ε) : Tx δ ω ε α := fun _ work => (.error why,work)

def refuse (error : ε) : Tx δ ω ε α := halt (.refuse error)

def settle (error : ε) : Tx δ ω ε α := halt (.settle error)

/-- A failure that is no error of the operation. -/
def faulty : Tx δ ω ε α := halt (.fault false)

/-- A statement that violates a constraint has no answer. -/
def statement [Writes δ ω] (s : Int → δ → Option (α × List ω)) : Tx δ ω ε α := fun world work =>
  match world.fault work.step with
  | some retryable => (.error (.fault retryable),work.add [])
  | none => match s (world.clock work.step) work.db with
    | some (a,writes) => (.ok a,work.add writes)
    | none => (.error (.fault false),work.add [])

/-- A random text, where there is a source of randomness. -/
def draw : Tx δ ω ε String := fun world work =>
  match world.fault work.step with
  | some _ => (.error (.fault false),work.add [])
  | none => (.ok (world.drawn work.step),work.add [])

/-! How an operation ends. -/

def Tx.Ends (x : Tx δ ω ε α) (world : World) (work : Draft δ ω) (Q : Except (Halt ε) α → Draft δ ω → Prop) : Prop :=
  Q (x world work).1 (x world work).2

variable {world : World} {work : Draft δ ω} {Q : Except (Halt ε) β → Draft δ ω → Prop}

theorem pure_ends {b : β} (done : Q (.ok b) work) : (pure b : Tx δ ω ε β).Ends world work Q := done

theorem refuse_ends {error : ε} (done : Q (.error (.refuse error)) work) : (refuse error : Tx δ ω ε β).Ends world work Q :=
  done

theorem settle_ends {error : ε} (done : Q (.error (.settle error)) work) : (settle error : Tx δ ω ε β).Ends world work Q :=
  done

theorem faulty_ends (done : Q (.error (.fault false)) work) : (faulty : Tx δ ω ε β).Ends world work Q := done

theorem bind_ends {x : Tx δ ω ε α} {f : α → Tx δ ω ε β}
    (first : x.Ends world work fun result work => match result with
      | .ok a => (f a).Ends world work Q
      | .error halt => Q (.error halt) work) : (x >>= f).Ends world work Q := by
  unfold Tx.Ends at *
  simp only [bind]
  cases run : x world work with
  | mk result work' =>
    rw [run] at first
    cases result with
    | ok a => exact first
    | error halt => exact first

theorem Tx.Ends.of_run {x : Tx δ ω ε β} (ends : x.Ends world work Q) {result : Except (Halt ε) β} {work' : Draft δ ω}
    (run : x world work = (result,work')) : Q result work' := by
  unfold Tx.Ends at ends
  rwa [run] at ends

theorem statement_ends [Writes δ ω] {s : Int → δ → Option (β × List ω)}
    (faults : ∀ retryable, Q (.error (.fault retryable)) (work.add []))
    (done : ∀ b writes, s (world.clock work.step) work.db = some (b,writes) → Q (.ok b) (work.add writes)) :
    (statement s : Tx δ ω ε β).Ends world work Q := by
  unfold Tx.Ends statement
  split
  next retryable _ => exact faults retryable
  next =>
    split
    next b writes answer => exact done b writes answer
    next => exact faults false

theorem statement_bind_ends [Writes δ ω] {s : Int → δ → Option (α × List ω)} {f : α → Tx δ ω ε β}
    (faults : ∀ retryable, Q (.error (.fault retryable)) (work.add []))
    (next : ∀ a writes, s (world.clock work.step) work.db = some (a,writes) → (f a).Ends world (work.add writes) Q) :
    (statement s >>= f).Ends world work Q :=
  bind_ends (statement_ends faults next)

theorem draw_bind_ends {f : String → Tx δ ω ε β} (faults : ∀ retryable, Q (.error (.fault retryable)) (work.add []))
    (next : (f (world.drawn work.step)).Ends world (work.add []) Q) : (draw >>= f).Ends world work Q := by
  refine bind_ends ?_
  unfold Tx.Ends draw
  cases world.fault work.step with
  | some _ => exact faults false
  | none => exact next

end Programs

/-! Attempts at an operation. -/

/-- How a commit goes. One that fails may have been applied. -/
inductive Commit
  | done
  | failed (retryable applied : Bool)

structure Attempt (δ : Type) where
  base : δ
  world : World
  commit : Commit

/-- A reply is uncertain when its commit failed. -/
inductive Reply (ε α : Type)
  | ok (a : α)
  | domain (error : ε)
  | uncertain (result : Option α)
  | failed

/-- What an attempt wrote, and whether that stays. -/
structure Ended (δ ω : Type) where
  work : Draft δ ω
  applied : Bool

section Attempts
variable {δ ω ε α : Type}

def Ended.after [Writes δ ω] (ended : Ended δ ω) : δ := if ended.applied then ended.work.db else ended.work.base

/-- An operation is tried again while there is another attempt. -/
def withTransaction (x : Tx δ ω ε α) : List (Attempt δ) → Reply ε α × List (Ended δ ω)
  | [] => (.failed,[])
  | attempt::later =>
    match x attempt.world (Draft.start attempt.base) with
    | (.error (.settle error),work) => match attempt.commit with
      | .done => (.domain error,[⟨work,true⟩])
      | .failed _ applied => (.uncertain none,[⟨work,applied⟩])
    | (.error (.refuse error),work) => (.domain error,[⟨work,false⟩])
    | (.error (.fault retryable),work) =>
      if retryable && !later.isEmpty then
        let (reply,ended) := withTransaction x later
        (reply,⟨work,false⟩::ended)
      else (.failed,[⟨work,false⟩])
    | (.ok a,work) => match attempt.commit with
      | .done => (.ok a,[⟨work,true⟩])
      | .failed retryable applied =>
        if retryable && !later.isEmpty then
          let (reply,ended) := withTransaction x later
          (reply,⟨work,applied⟩::ended)
        else (.uncertain (some a),[⟨work,applied⟩])

/-- Whether what was written is to be committed. -/
def kept : Except (Halt ε) α → Bool
  | .ok _ => true
  | .error (.settle _) => true
  | .error _ => false

def replyOf : Except (Halt ε) α → Reply ε α
  | .ok a => .ok a
  | .error (.settle error) => .domain error
  | .error (.refuse error) => .domain error
  | .error (.fault _) => .failed

/-- The last attempt that was made gives the reply. The attempts before it were rolled back. -/
structure Made (x : Tx δ ω ε α) (tries : List (Attempt δ)) (reply : Reply ε α) (trace : List (Ended δ ω))
    (attempt : Attempt δ) (result : Except (Halt ε) α) (work : Draft δ ω) : Prop where
  run : x attempt.world (Draft.start attempt.base) = (result,work)
  reply : reply = replyOf result
  trace : ∃ earlier, trace = earlier++[⟨work,kept result⟩] ∧ tries[earlier.length]? = some attempt ∧
    ∀ ended ∈ earlier, ended.applied = false

theorem withTransaction_made {x : Tx δ ω ε α} {tries : List (Attempt δ)} {reply : Reply ε α} {trace : List (Ended δ ω)}
    (commits : ∀ attempt ∈ tries, attempt.commit = .done) (given : withTransaction x tries = (reply,trace))
    (some_ : tries ≠ []) : ∃ attempt result work, Made x tries reply trace attempt result work := by
  induction tries generalizing trace with
  | nil => exact absurd rfl some_
  | cons attempt later ih =>
    obtain ⟨done,commits⟩ := List.forall_mem_cons.mp commits
    have once : ∀ result work, x attempt.world (Draft.start attempt.base) = (result,work) → reply = replyOf result →
        trace = [⟨work,kept result⟩] → ∃ attempt' result work, Made x (attempt::later) reply trace attempt' result work :=
      fun result work run told only => ⟨attempt,result,work,run,told,[],only,rfl,List.forall_mem_nil _⟩
    unfold withTransaction at given
    rw [done] at given
    split at given
    next error work run =>
      cases given
      exact once _ _ run rfl rfl
    next error work run =>
      cases given
      exact once _ _ run rfl rfl
    next retryable work run =>
      split at given
      next more =>
        cases rest : withTransaction x later with
        | mk reply' ended =>
          rw [rest] at given
          cases given
          have others : later ≠ [] := by
            rintro rfl
            simp at more
          obtain ⟨attempt',result,work',made⟩ := ih commits rest others
          obtain ⟨earlier,rfl,last,undone⟩ := made.trace
          exact ⟨attempt',result,work',made.run,made.reply,⟨work,false⟩::earlier,rfl,last,List.forall_mem_cons.mpr ⟨rfl,undone⟩⟩
      next =>
        cases given
        exact once _ _ run rfl rfl
    next a work run =>
      cases given
      exact once _ _ run rfl rfl

end Attempts
end ATape.Foundation
