import ATape.Team.JoinCodes

/-! How often a user can guess. A call whose check found the counter of its window holds
it until it ends, so that each of its failures is counted before the next check. -/
namespace ATape.Team
open Foundation

/-- One more event in the count of the codes that were compared in a window since the
last join in it and that no enabled code was. -/
def Event.tally (window : Int) (counted : Bool) (n : Nat) : Event → Nat
  | .compared _ window' _ found counted' => if window' = window ∧ found = false ∧ counted' = counted then n+1 else n
  | .joined window' => if window' = window then 0 else n

/-- The guesses since the last join in a window, of the calls that are counted or of
those that are not. -/
def guesses (window : Int) (counted : Bool) (history : List Event) : Nat :=
  history.foldl (Event.tally window counted) 0

@[simp] theorem guesses_append (window : Int) (counted : Bool) (history : List Event) (event : Event) :
    guesses window counted (history++[event]) = event.tally window counted (guesses window counted history) := by
  simp [guesses]

namespace State
variable {policy : Policy} {pepper : PepperKeys}

/-- What the holder of a counter may be about to do to it. -/
def Holding (policy : Policy) (n : Nat) (row : Option WindowRow) (window : Int) (call : Call) : Write → Place → Prop
  | .nothing,.searching now _ _ _ | .nothing,.locking now _ _ | .nothing,.confirming now _ _ |
      .nothing,.entering now _ | .nothing,.clearing now _ => call.counted = true ∧ windowStart policy now = window ∧
        ∃ r, row = some r ∧ r.failureCount < policy.maximumCodeFailures ∧ n+1 ≤ r.failureCount
  | .nothing,.failing now => call.counted = true ∧ windowStart policy now = window ∧
      ∃ r, row = some r ∧ r.failureCount < policy.maximumCodeFailures ∧ n ≤ r.failureCount
  | .put r,.ending now none => windowStart policy now = window ∧ n+1 ≤ r.failureCount ∧
      ∀ old, row = some old → old.failureCount ≤ r.failureCount
  | .delete,.ending now (some _) => windowStart policy now = window
  | _,_ => False

/-- A counter that is above the guesses that it counts. -/
def Settled (n : Nat) : Option WindowRow → Prop
  | none => n = 0
  | some row => n+1 ≤ row.failureCount

def Counted (policy : Policy) (s : State) (window : Int) : Prop :=
  match s.locks.lookup window with
  | none => Settled (guesses window true s.history) (s.windows.lookup window)
  | some lock => (s.windows.lookup window = none → guesses window true s.history = 0) ∧
      ∃ call, s.calls.lookup lock.holder = some call ∧
        Holding policy (guesses window true s.history) (s.windows.lookup window) window call lock.write call.place

/-- The moment of the check that a call has passed. -/
def checked : Place → Option Int
  | .started | .timed _ => none
  | .searching now _ _ _ | .failing now | .locking now _ _ | .confirming now _ _ | .entering now _ |
      .clearing now _ | .ending now _ => some now

def Held (policy : Policy) (s : State) : Prop :=
  ∀ id call now, s.calls.lookup id = some call → call.counted = true → checked call.place = some now →
    ∃ write, s.locks.lookup (windowStart policy now) = some ⟨id,write⟩

structure Guarded (policy : Policy) (s : State) : Prop where
  counted : ∀ window, s.Counted policy window
  held : s.Held policy
  few : ∀ window, guesses window true s.history ≤ policy.maximumCodeFailures-1

theorem initial_guarded (codes : Table String JoinCodeRow) (memberships : Table String String) :
    (initial codes memberships).Guarded policy where
  counted window := by simp [Counted,Settled,initial,guesses]
  held id call now found := by simp [initial] at found
  few window := by simp [initial,guesses]

/-! What holds of the counter of a window does so while its row, its lock and its
holder stay. -/

theorem Holding.fewer {n m : Nat} {row : Option WindowRow} {window : Int} {call : Call} {write : Write} {place : Place}
    (holding : Holding policy n row window call write place) (fewer : m ≤ n) :
    Holding policy m row window call write place := by
  unfold Holding at holding ⊢
  split at holding <;> grind

theorem Settled.fewer {n m : Nat} {row : Option WindowRow} (settled : Settled n row) (fewer : m ≤ n) :
    Settled m row := by
  cases row with
  | none =>
    simp only [Settled] at settled ⊢
    omega
  | some row =>
    simp only [Settled] at settled ⊢
    omega

theorem Holding.window {n : Nat} {row : Option WindowRow} {window : Int} {call : Call} {write : Write} {place : Place}
    (holding : Holding policy n row window call write place) :
    ∃ now, checked place = some now ∧ windowStart policy now = window := by
  unfold Holding at holding
  split at holding <;> grind [checked]

theorem Counted.frame {s s' : State} {window : Int} (counted : s.Counted policy window)
    (locks : s'.locks.lookup window = s.locks.lookup window) (rows : s'.windows.lookup window = s.windows.lookup window)
    (told : guesses window true s'.history ≤ guesses window true s.history)
    (holder : ∀ lock call, s.locks.lookup window = some lock → s.calls.lookup lock.holder = some call →
      Holding policy (guesses window true s.history) (s.windows.lookup window) window call lock.write call.place →
      ∃ call', s'.calls.lookup lock.holder = some call' ∧
        Holding policy (guesses window true s'.history) (s.windows.lookup window) window call' lock.write call'.place) :
    s'.Counted policy window := by
  unfold Counted at counted ⊢
  rw [locks,rows]
  cases found : s.locks.lookup window with
  | none =>
    rw [found] at counted
    exact Settled.fewer counted told
  | some lock =>
    rw [found] at counted
    obtain ⟨absent,call,present,holding⟩ := counted
    refine ⟨fun missing => ?_,holder lock call found present holding⟩
    have before := absent missing
    omega

theorem Counted.absent {s : State} {window : Int} (counted : s.Counted policy window)
    (missing : s.windows.lookup window = none) : guesses window true s.history = 0 := by
  unfold Counted at counted
  split at counted
  next => simpa only [missing,Settled] using counted
  next => exact counted.1 missing

theorem Guarded.holder {s : State} (guarded : s.Guarded policy) {window : Int} {lock : Lock}
    (locked : s.locks.lookup window = some lock) : ∃ call, s.calls.lookup lock.holder = some call ∧
      Holding policy (guesses window true s.history) (s.windows.lookup window) window call lock.write call.place := by
  have counted := guarded.counted window
  unfold Counted at counted
  rw [locked] at counted
  exact counted.2

theorem Guarded.theirs {s : State} (guarded : s.Guarded policy) {window : Int} {id : Nat} {write : Write} {call : Call}
    (locked : s.locks.lookup window = some ⟨id,write⟩) (found : s.calls.lookup id = some call) :
    Holding policy (guesses window true s.history) (s.windows.lookup window) window call write call.place := by
  obtain ⟨other,present,holding⟩ := guarded.holder locked
  rw [found] at present
  cases present
  exact holding

theorem Guarded.move {s s' : State} {id : Nat} {call call' : Call} (guarded : s.Guarded policy)
    (found : s.calls.lookup id = some call) (locks : s'.locks = s.locks) (rows : s'.windows = s.windows)
    (calls : s'.calls = s.calls.insert id call')
    (told : ∀ window, guesses window true s'.history = guesses window true s.history)
    (moved : ∀ window write, s.locks.lookup window = some ⟨id,write⟩ →
      Holding policy (guesses window true s.history) (s.windows.lookup window) window call write call.place →
      Holding policy (guesses window true s.history) (s.windows.lookup window) window call' write call'.place)
    (timed : ∀ now, call'.counted = true → checked call'.place = some now →
      call.counted = true ∧ checked call.place = some now) : s'.Guarded policy where
  counted window := by
    apply (guarded.counted window).frame (by rw [locks]) (by rw [rows]) (Nat.le_of_eq (told window))
    intro lock holder locked present holding
    rw [calls,Table.lookup_insert,told]
    split
    next same =>
      subst same
      rw [found] at present
      cases present
      exact ⟨call',rfl,moved _ _ locked holding⟩
    next => exact ⟨holder,present,holding⟩
  held := by
    intro other holder now present counted time
    rw [calls,Table.lookup_insert] at present
    rw [locks]
    split at present
    next same =>
      cases present
      obtain ⟨before,passed⟩ := timed now counted time
      rw [same]
      exact guarded.held id call now found before passed
    next => exact guarded.held other holder now present counted time
  few window := by
    rw [told]
    exact guarded.few window

theorem Guarded.close {s s' : State} {id : Nat} (guarded : s.Guarded policy)
    (locks : s'.locks = s.locks.keep fun _ lock => lock.holder ≠ id) (calls : s'.calls = s.calls.erase id)
    (told : ∀ window, guesses window true s'.history ≤ guesses window true s.history)
    (own : ∀ window write, s.locks.lookup window = some ⟨id,write⟩ →
      Settled (guesses window true s'.history) (s'.windows.lookup window))
    (others : ∀ window, (∀ write, s.locks.lookup window ≠ some ⟨id,write⟩) →
      s'.windows.lookup window = s.windows.lookup window) : s'.Guarded policy where
  counted window := by
    cases locked : s.locks.lookup window with
    | none =>
      apply (guarded.counted window).frame
      · simp [locks,locked]
      · apply others
        simp [locked]
      · exact told window
      · simp [locked]
    | some lock =>
      by_cases mine : lock.holder = id
      · subst mine
        have gone : s'.locks.lookup window = none := by
          simp [locks,locked,Option.filter]
        unfold Counted
        rw [gone]
        exact own window lock.write locked
      · apply (guarded.counted window).frame
        · simp [locks,locked,mine]
        · apply others
          intro write same
          rw [locked] at same
          cases same
          exact mine rfl
        · exact told window
        · intro other holder same present holding
          rw [locked] at same
          cases same
          refine ⟨holder,?_,holding.fewer (told window)⟩
          rw [calls,Table.lookup_erase,if_neg mine]
          exact present
  held := by
    intro other holder now present counted time
    rw [calls,Table.lookup_erase] at present
    split at present
    next => cases present
    next apart =>
      obtain ⟨write,locked⟩ := guarded.held other holder now present counted time
      refine ⟨write,?_⟩
      simp [locks,locked,apart]
  few window := (told window).trans (guarded.few window)

theorem Guarded.take {s s' : State} {id : Nat} {call call' : Call} {window : Int} {write : Write}
    (guarded : s.Guarded policy) (found : s.calls.lookup id = some call) (free : s.free window id = true)
    (locks : s'.locks = s.locks.insert window ⟨id,write⟩) (rows : s'.windows = s.windows)
    (calls : s'.calls = s.calls.insert id call') (told : s'.history = s.history)
    (here : ∀ now, checked call.place = some now → windowStart policy now = window)
    (holding : Holding policy (guesses window true s.history) (s.windows.lookup window) window call' write
      call'.place) : s'.Guarded policy where
  counted other := by
    by_cases same : other = window
    · subst same
      unfold Counted
      rw [locks,Table.lookup_insert,if_pos rfl,rows,calls,told]
      refine ⟨(guarded.counted other).absent,call',?_,holding⟩
      rw [Table.lookup_insert,if_pos rfl]
    · apply (guarded.counted other).frame
      · rw [locks,Table.lookup_insert,if_neg same]
      · rw [rows]
      · rw [told]
      · intro lock holder locked present theirs
        refine ⟨holder,?_,by rwa [told]⟩
        rw [calls,Table.lookup_insert]
        split
        next mine =>
          rw [mine,found] at present
          cases present
          obtain ⟨now,time,start⟩ := theirs.window
          exact absurd (start.symm.trans (here now time)) same
        next => exact present
  held := by
    intro other holder now present counted time
    rw [calls,Table.lookup_insert] at present
    rw [locks,Table.lookup_insert]
    split at present
    next mine =>
      cases present
      obtain ⟨now',time',start⟩ := holding.window
      rw [time] at time'
      cases time'
      rw [start,if_pos rfl,mine]
      exact ⟨write,rfl⟩
    next apart =>
      obtain ⟨theirs,locked⟩ := guarded.held other holder now present counted time
      split
      next same =>
        rw [same] at locked
        simp only [State.free,locked,Option.all_some,decide_eq_true_eq] at free
        exact absurd free apart
      next => exact ⟨theirs,locked⟩
  few other := by
    rw [told]
    exact guarded.few other

theorem Guarded.goto {s : State} {id : Nat} {call call' : Call} {place : Place} (guarded : s.Guarded policy)
    (found : s.calls.lookup id = some call)
    (moved : ∀ window write, s.locks.lookup window = some ⟨id,write⟩ →
      Holding policy (guesses window true s.history) (s.windows.lookup window) window call write call.place →
      Holding policy (guesses window true s.history) (s.windows.lookup window) window {call' with place} write place)
    (timed : ∀ now, call'.counted = true → checked place = some now →
      call.counted = true ∧ checked call.place = some now) : (s.goto id call' place).Guarded policy :=
  guarded.move found rfl rfl rfl (fun _ => rfl) moved timed

theorem Guarded.takes {s : State} {id : Nat} {call call' : Call} {place : Place} {window : Int} {write : Write}
    (guarded : s.Guarded policy) (found : s.calls.lookup id = some call) (free : s.free window id = true)
    (here : ∀ now, checked call.place = some now → windowStart policy now = window)
    (holding : Holding policy (guesses window true s.history) (s.windows.lookup window) window {call' with place}
      write place) : ({s with locks := s.locks.insert window ⟨id,write⟩}.goto id call' place).Guarded policy :=
  guarded.take found free rfl rfl rfl rfl here holding

theorem Guarded.leave {s : State} {id : Nat} {call : Call} (guarded : s.Guarded policy)
    (found : s.calls.lookup id = some call)
    (quiet : ∀ window write, s.locks.lookup window = some ⟨id,write⟩ →
      Holding policy (guesses window true s.history) (s.windows.lookup window) window call write call.place →
      Settled (guesses window true s.history) (s.windows.lookup window)) : (s.finish id).Guarded policy := by
  apply guarded.close rfl rfl
  · intro window
    rfl
  · intro window write locked
    exact quiet _ _ locked (guarded.theirs locked found)
  · intro window _
    rfl

theorem check_guarded {s s' : State} {id : Nat} {call : Call} {now : Int} (guarded : s.Guarded policy)
    (found : s.calls.lookup id = some call) (timed : call.place = .timed now)
    (ok : check policy pepper s id call now = some s') : s'.Guarded policy := by
  have idle : ∀ n row window write, ¬ Holding policy n row window call write call.place := by
    intro n row window write holding
    rw [timed] at holding
    cases write <;> exact holding
  simp only [check] at ok
  cases present : s.windows.lookup (windowStart policy now) with
  | none =>
    simp only [present,Option.some.injEq] at ok
    subst ok
    apply guarded.goto found
    · intro window write _ holding
      exact absurd holding (idle _ _ _ _)
    · intro _ counted
      cases counted
  | some row =>
    simp only [present] at ok
    split at ok
    next => cases ok
    next free =>
      split at ok
      next =>
        cases ok
        apply guarded.leave found
        intro window write _ holding
        exact absurd holding (idle _ _ _ _)
      next allowed =>
        cases ok
        have unlocked : s.locks.lookup (windowStart policy now) = none := by
          cases locked : s.locks.lookup (windowStart policy now) with
          | none => rfl
          | some lock =>
            simp only [State.free,locked,Option.all_some,Bool.not_eq_true,Bool.not_eq_false',decide_eq_true_eq] at free
            subst free
            exact absurd (guarded.theirs locked found) (idle _ _ _ _)
        have settled := guarded.counted (windowStart policy now)
        simp only [Counted,unlocked,present,Settled] at settled
        have room : row.failureCount < policy.maximumCodeFailures := by
          simp only [refuses,Bool.or_eq_true,decide_eq_true_eq,not_or] at allowed
          omega
        apply guarded.takes found (by simpa using free)
        · intro now' time
          rw [timed] at time
          cases time
        · rw [present]
          unfold search
          split
          next => exact ⟨rfl,rfl,row,rfl,room,by omega⟩
          next => exact ⟨rfl,rfl,row,rfl,room,settled⟩

/-- The call that holds a counter has seen that it is above the guesses and below the
most that there may be, so that there is room for its own. -/
theorem Guarded.room {s : State} {id : Nat} {call : Call} {now : Int} {code : String} {keys : List String}
    {found : List (String × JoinCodeRow)} (guarded : s.Guarded policy) (present : s.calls.lookup id = some call)
    (counted : call.counted = true) (searching : call.place = .searching now code keys found) :
    s.locks.lookup (windowStart policy now) = some ⟨id,.nothing⟩ ∧
      ∃ row, s.windows.lookup (windowStart policy now) = some row ∧ row.failureCount < policy.maximumCodeFailures ∧
        guesses (windowStart policy now) true s.history+1 ≤ row.failureCount := by
  obtain ⟨write,locked⟩ := guarded.held id call now present counted (by rw [searching]; rfl)
  have holding := guarded.theirs locked present
  rw [searching] at holding
  cases write with
  | nothing => exact ⟨locked,holding.2.2⟩
  | put row => exact holding.elim
  | delete => exact holding.elim

theorem guess_guarded {s : State} {id : Nat} {call : Call} {now : Int} {code : String} (guarded : s.Guarded policy)
    (present : s.calls.lookup id = some call) (searching : call.place = .searching now code [] []) :
    ({s with history := s.history++[Event.compared id (windowStart policy now) code false call.counted]}.goto id call
      (.failing now)).Guarded policy := by
  cases counted : call.counted with
  | false =>
    apply guarded.move present
    · rfl
    · rfl
    · rfl
    · intro window
      simp [goto,Event.tally]
    · intro window write _ holding
      rw [searching] at holding
      cases write with
      | nothing =>
        obtain ⟨other,_⟩ := holding
        rw [counted] at other
        cases other
      | put row => exact holding.elim
      | delete => exact holding.elim
    · intro now' other
      rw [counted] at other
      cases other
  | true =>
    obtain ⟨locked,row,found,room,above⟩ := guarded.room present counted searching
    have told : ∀ window, guesses window true
        (s.history++[Event.compared id (windowStart policy now) code false true]) =
          if window = windowStart policy now then guesses window true s.history+1
          else guesses window true s.history := by
      intro window
      simp [Event.tally,eq_comm]
    constructor
    · intro window
      by_cases same : window = windowStart policy now
      · subst same
        simp only [Counted,goto,locked,found,told,if_true]
        refine ⟨nofun,{call with place := .failing now},by simp [counted],?_⟩
        exact ⟨counted,rfl,row,rfl,room,above⟩
      · have quiet := told window
        rw [if_neg same] at quiet
        refine (guarded.counted window).frame rfl rfl (Nat.le_of_eq quiet) ?_
        intro lock holder held theirs holding
        refine ⟨holder,?_,by simpa only [goto,quiet] using holding⟩
        simp only [goto,Table.lookup_insert]
        split
        next mine =>
          rw [mine,present] at theirs
          cases theirs
          obtain ⟨now',time,start⟩ := holding.window
          rw [searching] at time
          cases time
          exact absurd start.symm same
        next => exact theirs
    · intro other holder now' theirs passed time
      simp only [goto,Table.lookup_insert] at theirs
      split at theirs
      next mine =>
        cases theirs
        cases time
        rw [mine]
        exact ⟨_,locked⟩
      next => exact guarded.held other holder now' theirs passed time
    · intro window
      simp only [goto,told]
      split
      next same =>
        rw [same]
        omega
      next => exact guarded.few window

theorem found_tells (window : Int) (history : List Event) (id : Nat) (other : Int) (code : String) (counted : Bool) :
    guesses window true (history++[Event.compared id other code true counted]) = guesses window true history := by
  simp [Event.tally]

theorem searching_settles {call : Call} {now : Int} {code : String} {keys : List String}
    {found : List (String × JoinCodeRow)} (searching : call.place = .searching now code keys found) (n : Nat)
    (row : Option WindowRow) (window : Int) (write : Write)
    (holding : Holding policy n row window call write call.place) : Settled n row := by
  rw [searching] at holding
  cases write with
  | nothing =>
    obtain ⟨_,_,r,rfl,_,above⟩ := holding
    exact above
  | put row => exact holding.elim
  | delete => exact holding.elim

theorem find_guarded {s : State} {id : Nat} {call : Call} {now : Int} {code : String} {keys : List String}
    {found : List (String × JoinCodeRow)} (guarded : s.Guarded policy) (present : s.calls.lookup id = some call)
    (searching : call.place = .searching now code keys found) :
    (find policy pepper s id call now code keys found).Guarded policy := by
  have moved : ∀ place, (∀ n row window write, Holding policy n row window call write call.place →
      Holding policy n row window {call with place} write place) → checked place = some now →
      ∀ events, (∀ window, guesses window true events = guesses window true s.history) →
        ({s with history := events}.goto id call place).Guarded policy := by
    intro place kept time events told
    refine guarded.move present rfl rfl rfl told (fun _ _ _ => kept _ _ _ _) ?_
    intro now' counted time'
    refine ⟨counted,?_⟩
    rw [searching]
    exact time.symm.trans time'
  have waits : ∀ keys rest n row window write, Holding policy n row window call write call.place →
      Holding policy n row window {call with place := .searching now code keys rest} write
        (.searching now code keys rest) := by
    intro keys rest n row window write holding
    rw [searching] at holding
    cases write <;> exact holding
  unfold find
  cases keys with
  | cons key keys =>
    simp only
    split
    next => exact guarded.leave present fun _ _ _ => searching_settles searching _ _ _ _
    next digest _ => exact moved _ (waits _ _) rfl s.history (fun _ => rfl)
  | nil =>
    match found with
    | [] => exact guess_guarded guarded present searching
    | [(codeID,row)] =>
      refine moved _ ?_ rfl _ (fun window => found_tells _ _ _ _ _ _)
      intro n r window write holding
      rw [searching] at holding
      cases write <;> exact holding
    | first::second::rest =>
      apply guarded.close rfl rfl
      · intro window
        exact Nat.le_of_eq (found_tells _ _ _ _ _ _)
      · intro window write locked
        have settled := searching_settles searching _ _ _ _ (guarded.theirs locked present)
        exact settled.fewer (Nat.le_of_eq (found_tells _ _ _ _ _ _))
      · intro window _
        rfl

theorem confirm_guarded {s : State} {id : Nat} {call : Call} {now : Int} {codeID : String} {row : JoinCodeRow}
    (guarded : s.Guarded policy) (present : s.calls.lookup id = some call)
    (confirming : call.place = .confirming now codeID row) : (confirm s id call now codeID row).Guarded policy := by
  apply guarded.goto present
  · intro window write _ holding
    rw [confirming] at holding
    cases write with
    | nothing =>
      obtain ⟨counted,start,row,found,room,above⟩ := holding
      split
      next => exact ⟨counted,start,row,found,room,above⟩
      next => exact ⟨counted,start,row,found,room,by omega⟩
    | put row => exact holding.elim
    | delete => exact holding.elim
  · intro now' counted time
    refine ⟨counted,?_⟩
    rw [confirming]
    split at time <;> exact time

theorem enter_guarded {s : State} {id : Nat} {call : Call} {now : Int} {teamID : String} (guarded : s.Guarded policy)
    (present : s.calls.lookup id = some call) (entering : call.place = .entering now teamID) :
    (enter s id call now teamID).Guarded policy := by
  unfold enter
  split
  next =>
    apply guarded.goto present
    · intro window write _ holding
      rw [entering] at holding
      cases write <;> exact holding
    · intro now' counted time
      exact ⟨counted,by rw [entering]; exact time⟩
  next =>
    apply guarded.leave present
    intro window write _ holding
    rw [entering] at holding
    cases write with
    | nothing =>
      obtain ⟨_,_,row,found,_,above⟩ := holding
      rw [found]
      exact above
    | put row => exact holding.elim
    | delete => exact holding.elim

theorem clear_guarded {s s' : State} {id : Nat} {call : Call} {now : Int} {teamID : String} (guarded : s.Guarded policy)
    (present : s.calls.lookup id = some call) (clearing : call.place = .clearing now teamID)
    (ok : clear policy s id call now teamID = some s') : s'.Guarded policy := by
  have here : ∀ now', checked call.place = some now' → windowStart policy now' = windowStart policy now := by
    intro now' time
    rw [clearing] at time
    cases time
    rfl
  simp only [clear] at ok
  cases found : s.windows.lookup (windowStart policy now) with
  | none =>
    simp only [found,Option.some.injEq] at ok
    subst ok
    apply guarded.goto present
    · intro window write locked holding
      rw [clearing] at holding
      cases write with
      | nothing =>
        -- a call that holds a counter would have found it
        obtain ⟨_,rfl,row,held,_⟩ := holding
        rw [found] at held
        cases held
      | put row => exact holding.elim
      | delete => exact holding.elim
    · intro now' counted time
      exact ⟨counted,by rw [clearing]; exact time⟩
  | some row =>
    simp only [found] at ok
    split at ok
    next => cases ok
    next free =>
      cases ok
      apply guarded.takes present (by simpa using free) here
      rfl

theorem failing_here {call : Call} {now : Int} (failing : call.place = .failing now) (now' : Int)
    (time : checked call.place = some now') : windowStart policy now' = windowStart policy now := by
  rw [failing] at time
  cases time
  rfl

theorem Guarded.fails {s : State} {id : Nat} {call : Call} {now : Int} (guarded : s.Guarded policy)
    (present : s.calls.lookup id = some call) (failing : call.place = .failing now)
    (free : s.free (windowStart policy now) id = true) :
    guesses (windowStart policy now) true s.history+1 ≤
      (failed policy (s.windows.lookup (windowStart policy now)) now).failureCount := by
  have counted := guarded.counted (windowStart policy now)
  cases locked : s.locks.lookup (windowStart policy now) with
  | none =>
    simp only [Counted,locked] at counted
    cases found : s.windows.lookup (windowStart policy now) with
    | none =>
      simp only [found,Settled] at counted
      simp [failed,counted]
    | some row =>
      simp only [found,Settled] at counted
      simp only [failed]
      omega
  | some lock =>
    simp only [State.free,locked,Option.all_some,decide_eq_true_eq] at free
    subst free
    have holding := guarded.theirs locked present
    rw [failing] at holding
    cases lock with
    | mk id write =>
      cases write with
      | nothing =>
        obtain ⟨_,_,row,found,_,above⟩ := holding
        simp only [found,failed]
        omega
      | put row => exact holding.elim
      | delete => exact holding.elim

theorem record_guarded {s s' : State} {id : Nat} {call : Call} {now : Int} (guarded : s.Guarded policy)
    (column : policy.maximumCodeFailures ≤ 100000) (present : s.calls.lookup id = some call)
    (failing : call.place = .failing now) (ok : record policy s id call now = some s') : s'.Guarded policy := by
  simp only [record] at ok
  split at ok
  next => cases ok
  next free =>
    have free : s.free (windowStart policy now) id = true := by simpa using free
    split at ok
    next full =>
      cases ok
      apply guarded.leave present
      intro window write _ holding
      rw [failing] at holding
      cases write with
      | nothing =>
        -- a counter that a call holds has room in its column
        obtain ⟨_,rfl,row,found,room,_⟩ := holding
        simp only [found,failed] at full
        omega
      | put row => exact holding.elim
      | delete => exact holding.elim
    next =>
      cases ok
      apply guarded.takes present free (failing_here failing)
      refine ⟨rfl,guarded.fails present failing free,?_⟩
      intro old found
      simp [found,failed]

theorem written_other {s : State} {window window' : Int} {id : Nat} (apart : window' ≠ window) :
    (s.written window id).lookup window' = s.windows.lookup window' := by
  unfold written
  split <;> simp [apart]

theorem written_free {s : State} {window : Int} {id : Nat}
    (theirs : ∀ write, s.locks.lookup window ≠ some ⟨id,write⟩) : s.written window id = s.windows := by
  unfold written
  cases locked : s.locks.lookup window with
  | none => rfl
  | some lock =>
    have apart : lock.holder ≠ id := by
      intro same
      subst same
      exact theirs lock.write locked
    simp [Option.filter,apart]

theorem written_mine {s : State} {window : Int} {id : Nat} {write : Write}
    (locked : s.locks.lookup window = some ⟨id,write⟩) : s.written window id = match write with
      | .nothing => s.windows
      | .put row => s.windows.insert window row
      | .delete => s.windows.erase window := by
  unfold written
  cases write <;> simp [locked,Option.filter]

theorem commit_guarded {s : State} {id : Nat} {call : Call} {now : Int} {joined : Option String}
    (guarded : s.Guarded policy) (present : s.calls.lookup id = some call) (ending : call.place = .ending now joined) :
    (commit policy s id now joined).Guarded policy := by
  have locks : (commit policy s id now joined).locks = s.locks.keep fun _ lock => lock.holder ≠ id := by
    unfold commit
    cases joined <;> rfl
  have calls : (commit policy s id now joined).calls = s.calls.erase id := by
    unfold commit
    cases joined <;> rfl
  have rows : (commit policy s id now joined).windows = s.written (windowStart policy now) id := by
    unfold commit
    cases joined <;> rfl
  have told : ∀ window, guesses window true (commit policy s id now joined).history =
      if joined.isSome = true ∧ windowStart policy now = window then 0 else guesses window true s.history := by
    intro window
    unfold commit
    cases joined with
    | none => simp [finish]
    | some teamID => simp [finish,Event.tally]
  apply guarded.close locks calls
  · intro window
    rw [told]
    split <;> omega
  · intro window write locked
    have holding := guarded.theirs locked present
    obtain ⟨now',time,rfl⟩ := holding.window
    rw [ending] at time
    cases time
    rw [told,rows,written_mine locked]
    rw [ending] at holding
    cases joined with
    | none =>
      cases write with
      | put row => simpa [Settled] using holding.2.1
      | nothing => exact holding.elim
      | delete => exact holding.elim
    | some teamID =>
      cases write with
      | delete => simp [Settled]
      | nothing => exact holding.elim
      | put row => exact holding.elim
  · intro window theirs
    rw [rows]
    by_cases same : window = windowStart policy now
    · subst same
      rw [written_free theirs]
    · exact written_other same

theorem arrive_guarded {s : State} {id : Nat} {joinCode : String} (guarded : s.Guarded policy)
    (fresh : s.calls.lookup id = none) : (s.goto id ⟨joinCode,false,.started⟩ .started).Guarded policy where
  counted window := by
    refine (guarded.counted window).frame rfl rfl (Nat.le_refl _) ?_
    intro lock call locked present holding
    refine ⟨call,?_,holding⟩
    simp only [goto,Table.lookup_insert]
    split
    next same =>
      rw [same,fresh] at present
      cases present
    next => exact present
  held := by
    intro other call now present counted time
    simp only [goto,Table.lookup_insert] at present
    split at present
    next =>
      cases present
      cases counted
    next => exact guarded.held other call now present counted time
  few := guarded.few

theorem lockTeam_guarded {s : State} {id : Nat} {call : Call} {now : Int} {codeID : String} {row : JoinCodeRow}
    (guarded : s.Guarded policy) (present : s.calls.lookup id = some call)
    (locking : call.place = .locking now codeID row) :
    (s.goto id call (.confirming now codeID row)).Guarded policy := by
  apply guarded.goto present
  · intro window write _ holding
    rw [locking] at holding
    cases write <;> exact holding
  · intro now' counted time
    exact ⟨counted,by rw [locking]; exact time⟩

theorem readTime_guarded {s : State} {id : Nat} {call : Call} {now : Int} (guarded : s.Guarded policy)
    (present : s.calls.lookup id = some call) (started : call.place = .started) :
    (s.goto id call (.timed now)).Guarded policy := by
  apply guarded.goto present
  · intro window write _ holding
    rw [started] at holding
    cases write <;> exact holding.elim
  · intro now' _ time
    cases time

theorem step_guarded {s s' : State} {label : Label} (guarded : s.Guarded policy)
    (column : policy.maximumCodeFailures ≤ 100000) (ok : step policy pepper s label = some s') :
    s'.Guarded policy := by
  cases label with
  | arrive id joinCode =>
    simp only [step] at ok
    split at ok
    next => cases ok
    next fresh =>
      cases ok
      exact arrive_guarded guarded (by simpa using fresh)
  | administer codes =>
    cases ok
    exact ⟨guarded.counted,guarded.held,guarded.few⟩
  | readTime id now =>
    obtain ⟨call,present,ok⟩ := Option.bind_eq_some_iff.mp ok
    split at ok
    next started =>
      cases ok
      exact readTime_guarded guarded present started
    next => cases ok
  | check id =>
    obtain ⟨call,present,ok⟩ := Option.bind_eq_some_iff.mp ok
    split at ok
    next timed => exact check_guarded guarded present timed ok
    next => cases ok
  | find id =>
    obtain ⟨call,present,ok⟩ := Option.bind_eq_some_iff.mp ok
    split at ok
    next searching =>
      cases ok
      exact find_guarded guarded present searching
    next => cases ok
  | lockTeam id =>
    obtain ⟨call,present,ok⟩ := Option.bind_eq_some_iff.mp ok
    split at ok
    next locking =>
      cases ok
      exact lockTeam_guarded guarded present locking
    next => cases ok
  | lockCode id =>
    obtain ⟨call,present,ok⟩ := Option.bind_eq_some_iff.mp ok
    split at ok
    next confirming =>
      cases ok
      exact confirm_guarded guarded present confirming
    next => cases ok
  | enter id =>
    obtain ⟨call,present,ok⟩ := Option.bind_eq_some_iff.mp ok
    split at ok
    next entering =>
      cases ok
      exact enter_guarded guarded present entering
    next => cases ok
  | clear id =>
    obtain ⟨call,present,ok⟩ := Option.bind_eq_some_iff.mp ok
    split at ok
    next clearing => exact clear_guarded guarded present clearing ok
    next => cases ok
  | record id =>
    obtain ⟨call,present,ok⟩ := Option.bind_eq_some_iff.mp ok
    split at ok
    next failing => exact record_guarded guarded column present failing ok
    next => cases ok
  | commit id =>
    obtain ⟨call,present,ok⟩ := Option.bind_eq_some_iff.mp ok
    split at ok
    next ending =>
      cases ok
      exact commit_guarded guarded present ending
    next => cases ok

def Moves (policy : Policy) (pepper : PepperKeys) (s : State) (label : Label) (s' : State) : Prop :=
  step policy pepper s label = some s'

theorem run_guarded {s s' : State} {labels : List Label} (guarded : s.Guarded policy)
    (column : policy.maximumCodeFailures ≤ 100000) (run : Run (Moves policy pepper) s labels s') :
    s'.Guarded policy :=
  run.invariant (fun _ _ _ kept ok => step_guarded kept column ok) guarded

/-- A counter stays, and only rises, while no join is committed in its window. -/
def Keeps (window : Int) (s s' : State) : Prop :=
  ∃ events, s'.history = s.history++events ∧ (Event.joined window ∉ events →
    ∀ row, s.windows.lookup window = some row →
      ∃ row', s'.windows.lookup window = some row' ∧ row.failureCount ≤ row'.failureCount)

theorem Keeps.refl (window : Int) (s : State) : Keeps window s s :=
  ⟨[],by simp,fun _ row found => ⟨row,found,Nat.le_refl _⟩⟩

theorem Keeps.trans {window : Int} {a b c : State} (first : Keeps window a b) (second : Keeps window b c) :
    Keeps window a c := by
  obtain ⟨before,tells,kept⟩ := first
  obtain ⟨after,tells',kept'⟩ := second
  refine ⟨before++after,by rw [tells',tells,List.append_assoc],?_⟩
  intro quiet row found
  rw [List.mem_append,not_or] at quiet
  obtain ⟨row',found',le⟩ := kept quiet.1 row found
  obtain ⟨row'',found'',le'⟩ := kept' quiet.2 row' found'
  exact ⟨row'',found'',le.trans le'⟩

theorem Keeps.same {window : Int} {s s' : State} (rows : s'.windows = s.windows) {events : List Event}
    (tells : s'.history = s.history++events) : Keeps window s s' :=
  ⟨events,tells,fun _ row found => ⟨row,by rw [rows]; exact found,Nat.le_refl _⟩⟩

theorem check_keeps {s s' : State} {id : Nat} {call : Call} {now : Int} (window : Int)
    (ok : check policy pepper s id call now = some s') : Keeps window s s' := by
  simp only [check] at ok
  cases present : s.windows.lookup (windowStart policy now) with
  | none =>
    simp only [present,Option.some.injEq] at ok
    subst ok
    exact .same rfl (List.append_nil _).symm
  | some row =>
    simp only [present] at ok
    split at ok
    next => cases ok
    next =>
      split at ok
      next =>
        cases ok
        exact .same rfl (List.append_nil _).symm
      next =>
        cases ok
        exact .same rfl (List.append_nil _).symm

theorem find_keeps (s : State) (id : Nat) (call : Call) (now : Int) (code : String) (keys : List String)
    (found : List (String × JoinCodeRow)) (window : Int) :
    Keeps window s (find policy pepper s id call now code keys found) := by
  unfold find
  cases keys with
  | cons key keys =>
    simp only
    split
    next => exact .same rfl (List.append_nil _).symm
    next => exact .same rfl (List.append_nil _).symm
  | nil =>
    match found with
    | [] => exact .same rfl rfl
    | [_] => exact .same rfl rfl
    | _::_::_ => exact .same rfl rfl

theorem enter_keeps (s : State) (id : Nat) (call : Call) (now : Int) (teamID : String) (window : Int) :
    Keeps window s (enter s id call now teamID) := by
  unfold enter
  split
  next => exact .same rfl (List.append_nil _).symm
  next => exact .same rfl (List.append_nil _).symm

theorem clear_keeps {s s' : State} {id : Nat} {call : Call} {now : Int} {teamID : String} (window : Int)
    (ok : clear policy s id call now teamID = some s') : Keeps window s s' := by
  simp only [clear] at ok
  split at ok
  next =>
    cases ok
    exact .same rfl (List.append_nil _).symm
  next =>
    split at ok
    next => cases ok
    next =>
      cases ok
      exact .same rfl (List.append_nil _).symm

theorem record_keeps {s s' : State} {id : Nat} {call : Call} {now : Int} (window : Int)
    (ok : record policy s id call now = some s') : Keeps window s s' := by
  simp only [record] at ok
  split at ok
  next => cases ok
  next =>
    split at ok
    next =>
      cases ok
      exact .same rfl (List.append_nil _).symm
    next =>
      cases ok
      exact .same rfl (List.append_nil _).symm

theorem commit_keeps {s : State} {id : Nat} {call : Call} {now : Int} {joined : Option String}
    (guarded : s.Guarded policy) (present : s.calls.lookup id = some call) (ending : call.place = .ending now joined)
    (window : Int) : Keeps window s (commit policy s id now joined) := by
  have rows : (commit policy s id now joined).windows = s.written (windowStart policy now) id := by
    unfold commit
    cases joined <;> rfl
  have told : (commit policy s id now joined).history =
      s.history++(joined.map fun _ => Event.joined (windowStart policy now)).toList := by
    unfold commit
    cases joined <;> simp [finish]
  refine ⟨_,told,?_⟩
  intro quiet row found
  rw [rows]
  by_cases same : window = windowStart policy now
  · subst same
    by_cases theirs : ∀ write, s.locks.lookup (windowStart policy now) ≠ some ⟨id,write⟩
    · rw [written_free theirs]
      exact ⟨row,found,Nat.le_refl _⟩
    · simp only [not_forall,not_not] at theirs
      obtain ⟨write,locked⟩ := theirs
      have holding := guarded.theirs locked present
      rw [ending] at holding
      rw [written_mine locked]
      cases joined with
      | none =>
        cases write with
        | put new => exact ⟨new,by simp,holding.2.2 row found⟩
        | nothing => exact holding.elim
        | delete => exact holding.elim
      | some teamID => simp at quiet
  · rw [written_other same]
    exact ⟨row,found,Nat.le_refl _⟩

theorem step_keeps {s s' : State} {label : Label} (guarded : s.Guarded policy)
    (ok : step policy pepper s label = some s') (window : Int) : Keeps window s s' := by
  cases label with
  | arrive id joinCode =>
    simp only [step] at ok
    split at ok
    next => cases ok
    next =>
      cases ok
      exact .same rfl (List.append_nil _).symm
  | administer codes =>
    cases ok
    exact .same rfl (List.append_nil _).symm
  | readTime id now =>
    obtain ⟨call,present,ok⟩ := Option.bind_eq_some_iff.mp ok
    split at ok
    next =>
      cases ok
      exact .same rfl (List.append_nil _).symm
    next => cases ok
  | check id =>
    obtain ⟨call,present,ok⟩ := Option.bind_eq_some_iff.mp ok
    split at ok
    next => exact check_keeps window ok
    next => cases ok
  | find id =>
    obtain ⟨call,present,ok⟩ := Option.bind_eq_some_iff.mp ok
    split at ok
    next =>
      cases ok
      exact find_keeps _ _ _ _ _ _ _ window
    next => cases ok
  | lockTeam id =>
    obtain ⟨call,present,ok⟩ := Option.bind_eq_some_iff.mp ok
    split at ok
    next =>
      cases ok
      exact .same rfl (List.append_nil _).symm
    next => cases ok
  | lockCode id =>
    obtain ⟨call,present,ok⟩ := Option.bind_eq_some_iff.mp ok
    split at ok
    next =>
      cases ok
      exact .same rfl (List.append_nil _).symm
    next => cases ok
  | enter id =>
    obtain ⟨call,present,ok⟩ := Option.bind_eq_some_iff.mp ok
    split at ok
    next =>
      cases ok
      exact enter_keeps _ _ _ _ _ window
    next => cases ok
  | clear id =>
    obtain ⟨call,present,ok⟩ := Option.bind_eq_some_iff.mp ok
    split at ok
    next => exact clear_keeps window ok
    next => cases ok
  | record id =>
    obtain ⟨call,present,ok⟩ := Option.bind_eq_some_iff.mp ok
    split at ok
    next => exact record_keeps window ok
    next => cases ok
  | commit id =>
    obtain ⟨call,present,ok⟩ := Option.bind_eq_some_iff.mp ok
    split at ok
    next ending =>
      cases ok
      exact commit_keeps guarded present ending window
    next => cases ok

theorem run_keeps {s s' : State} {labels : List Label} (guarded : s.Guarded policy)
    (column : policy.maximumCodeFailures ≤ 100000) (run : Run (Moves policy pepper) s labels s') (window : Int) :
    Keeps window s s' :=
  run.related (Keeps.refl window) (fun _ _ _ => Keeps.trans)
    (fun _ _ _ kept ok => step_guarded kept column ok) (fun _ _ _ kept ok => step_keeps kept ok window) guarded

theorem check_refuses {s s' : State} {id : Nat} {call : Call} {now : Int} {row : WindowRow}
    (present : s.calls.lookup id = some call) (timed : call.place = .timed now)
    (found : s.windows.lookup (windowStart policy now) = some row)
    (full : policy.maximumCodeFailures ≤ row.failureCount)
    (ok : step policy pepper s (.check id) = some s') : s' = s.finish id := by
  obtain ⟨other,present',ok⟩ := Option.bind_eq_some_iff.mp ok
  rw [present] at present'
  cases present'
  rw [timed] at ok
  simp only [check,found,refuses,decide_eq_true full,Bool.true_or,if_true] at ok
  split at ok
  next => cases ok
  next => exact (Option.some.inj ok).symm

/-- The codes that were compared in a window and were none of the enabled ones. -/
def misses (window : Int) (history : List Event) : Nat :=
  history.countP fun
    | .compared _ window' _ found _ => window' = window && !found
    | .joined _ => false

/-- Since the last join in a window, fewer codes than the policy allows failures are
compared by the calls that found a counter and matched by none that is enabled, and so no
more than it allows where at most one call that found none was among them. Once the
counter is full, and until a join, each check of the window ends its call before any
comparison. -/
theorem guesses_bounded {codes : Table String JoinCodeRow} {memberships : Table String String} {labels : List Label}
    {s : State} (positive : 1 ≤ policy.maximumCodeFailures) (column : policy.maximumCodeFailures ≤ 100000)
    (run : Run (Moves policy pepper) (initial codes memberships) labels s) (window : Int) :
    guesses window true s.history < policy.maximumCodeFailures ∧
      (guesses window false s.history ≤ 1 →
        guesses window true s.history+guesses window false s.history ≤ policy.maximumCodeFailures) ∧
      ∀ row, s.windows.lookup window = some row → policy.maximumCodeFailures ≤ row.failureCount →
        ∀ later s', Run (Moves policy pepper) s later s' →
          (∀ events, s'.history = s.history++events → Event.joined window ∉ events) →
            ∀ id call now s'', s'.calls.lookup id = some call → call.place = .timed now →
              windowStart policy now = window → step policy pepper s' (.check id) = some s'' → s'' = s'.finish id := by
  have guarded := run_guarded (initial_guarded codes memberships) column run
  have few := guarded.few window
  refine ⟨by omega,fun _ => by omega,?_⟩
  intro row found full later s' run' quiet id call now s'' present timed start ok
  obtain ⟨events,tells,kept⟩ := run_keeps guarded column run' window
  obtain ⟨row',found',le⟩ := kept (quiet events tells) row found
  subst start
  exact check_refuses present timed found' (full.trans le) ok

def twice : Policy := ⟨600,2⟩

def plainKeys : PepperKeys := ⟨["k"],fun _ code => some code⟩

def oneCode : Table String JoinCodeRow := AList.singleton "c" ⟨"t","k","AAAAAA","enabled"⟩

def missLabels (id : Nat) : List Label :=
  [.arrive id "BBBBBB",.readTime id 0,.check id,.find id,.find id,.record id,.commit id]

def joinLabels (id : Nat) : List Label :=
  [.arrive id "AAAAAA",.readTime id 0,.check id,.find id,.find id,.lockTeam id,.lockCode id,.enter id,.clear id,.commit id]

/-- A second failure fills the counter. -/
theorem guesses_bounded_twice : ∃ labels s, Run (Moves twice plainKeys) (initial oneCode ∅) labels s ∧
    guesses 0 true s.history = 1 ∧ guesses 0 false s.history = 1 ∧
    guesses 0 true s.history+guesses 0 false s.history ≤ twice.maximumCodeFailures := by
  have told : (((missLabels 0++missLabels 1).foldlM (step twice plainKeys) (initial oneCode ∅)).map
      fun s => (guesses 0 true s.history,guesses 0 false s.history)) = some (1,1) := by
    decide
  obtain ⟨s,done,count⟩ := Option.map_eq_some_iff.mp told
  have run : Run (Moves twice plainKeys) (initial oneCode ∅) _ s := Run.executed done
  obtain ⟨_,total,_⟩ := guesses_bounded (by decide) (by decide) run 0
  simp only [Prod.mk.injEq] at count
  exact ⟨_,s,run,count.1,count.2,total (Nat.le_of_eq count.2)⟩

/-- Each join clears the counter, so that a user with a code of their own goes on. -/
theorem misses_after_join : ∃ labels s, Run (Moves twice plainKeys) (initial oneCode ∅) labels s ∧
    ¬ misses 0 s.history ≤ twice.maximumCodeFailures := by
  have told : (((missLabels 0++joinLabels 1++missLabels 2++joinLabels 3++missLabels 4).foldlM
      (step twice plainKeys) (initial oneCode ∅)).map fun s => misses 0 s.history) = some 3 := by
    decide
  obtain ⟨s,done,count⟩ := Option.map_eq_some_iff.mp told
  refine ⟨_,s,Run.executed done,?_⟩
  rw [count]
  decide

end State
end ATape.Team
