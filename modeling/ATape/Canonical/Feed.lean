import ATape.Canonical.Writes

/-! The feed of projection changes. A write appends one change for each event it
wrote and, when it changed the title, one for each other event of the session. -/
namespace ATape.Canonical
open Foundation Go Authorization
namespace MemoryStore

/-- New changes for some events, numbered in order. -/
def numbered : Nat → List String → List ProjectionChangeState
  | _,[] => []
  | last,id::ids => ⟨last+1,id,"",.zero,false⟩::numbered (last+1) ids

theorem numbered_append (last : Nat) (ids others : List String) :
    numbered last (ids++others) = numbered last ids++numbered (last+ids.length) others := by
  induction ids generalizing last with
  | nil => rfl
  | cons id ids ih =>
    simp only [List.cons_append,numbered,List.length_cons,ih]
    rw [Nat.add_assoc,Nat.add_comm 1]

theorem mem_numbered {last : Nat} {ids : List String} {c : ProjectionChangeState} (member : c ∈ numbered last ids) :
    c.eventID ∈ ids ∧ last < c.id ∧ c.id ≤ last+ids.length ∧ c.processed = false ∧ c.leaseOwner = "" := by
  induction ids generalizing last with
  | nil => cases member
  | cons id ids ih =>
    rcases List.mem_cons.mp member with rfl | later
    · simp
    · obtain ⟨known,after,before,fresh,free⟩ := ih later
      refine ⟨List.mem_cons_of_mem _ known,by omega,?_,fresh,free⟩
      rw [List.length_cons]
      omega

theorem numbered_mem {last : Nat} {ids : List String} {id : String} (member : id ∈ ids) :
    ∃ c ∈ numbered last ids, c.eventID = id := by
  induction ids generalizing last with
  | nil => cases member
  | cons first ids ih =>
    rcases List.mem_cons.mp member with rfl | later
    · exact ⟨_,List.mem_cons_self,rfl⟩
    · obtain ⟨c,known,named⟩ := @ih (last+1) later
      exact ⟨c,List.mem_cons_of_mem _ known,named⟩

def Appended (s s' : MemoryStore) (ids : List String) : Prop :=
  s'.projectionChanges = s.projectionChanges++numbered s.nextProjectionChangeID ids ∧
    s'.nextProjectionChangeID = s.nextProjectionChangeID+ids.length

theorem Appended.nil (s : MemoryStore) : Appended s s [] := by
  simp [Appended,numbered]

theorem Appended.trans {s middle final : MemoryStore} {ids others : List String}
    (first : Appended s middle ids) (second : Appended middle final others) :
    Appended s final (ids++others) := by
  obtain ⟨changes,next⟩ := first
  obtain ⟨changes',next'⟩ := second
  refine ⟨?_,?_⟩
  · rw [changes',changes,next,numbered_append,List.append_assoc]
  · rw [next',next,List.length_append]
    omega

theorem appended_foldl {ρ : Type} {put : MemoryStore → ρ → MemoryStore} (key : ρ → String)
    (each : ∀ s r, Appended s (put s r) [key r]) (rs : List ρ) (s : MemoryStore) :
    Appended s (rs.foldl put s) (rs.map key) := by
  induction rs generalizing s with
  | nil => exact .nil s
  | cons r rs ih => exact (each s r).trans (ih (put s r))

variable (s : MemoryStore) (received : Nat → Time) (order : Order) (w : WriteBatch)
  (events : List EventRecord) (result : ApplyResult)

theorem appended_one (id : String) : Appended s (s.appendProjectionChange id) [id] := ⟨rfl,rfl⟩

theorem appended_event (observedAt : Time) (e : EventRecord) :
    Appended s (receiveEvent observedAt received s e) [e.id] := ⟨rfl,rfl⟩

def projected : List String :=
  events.map (·.id)++
    if s.titleChanged w.session then
      (order.visit ((s.write received order w events result).sessionEventIDs w.session.id)).filter
        (· ∉ events.map (·.id))
    else []

theorem afterEvents_sessionEventIDs (sessionID : String) :
    (s.afterEvents received w events).sessionEventIDs sessionID =
      (s.write received order w events result).sessionEventIDs sessionID := by
  obtain ⟨_,threads⟩ := write_threads s received order w events result
  obtain ⟨_,_,index,_⟩ := write_events s received order w events result
  have kept := congrArg MemoryStore.threadIDsBySession (afterEvents_beside s received w events)
  change (s.afterEvents received w events).threadIDsBySession = (s.afterThreads w).threadIDsBySession at kept
  rw [sessionEventIDs,sessionEventIDs,threads,index,kept]

theorem write_feed : Appended s (s.write received order w events result) (s.projected received order w events result) := by
  obtain ⟨captured,written⟩ := write_eq s received order w events result
  obtain ⟨_,_,_,_,changes,next⟩ := afterThreads_events s w
  have evented := appended_foldl (·.id) (fun s e => appended_event s received w.observedAt e) events (s.afterThreads w)
  rw [← afterEvents] at evented
  have started : Appended s (s.afterEvents received w events) (events.map (·.id)) := by
    rw [Appended,← changes,← next]
    exact evented
  have titled : Appended s (s.afterTitle received order w events) (s.projected received order w events result) := by
    unfold afterTitle projected
    split
    next changed =>
      apply started.trans
      have others := appended_foldl id appended_one
        ((order.visit ((s.afterEvents received w events).sessionEventIDs w.session.id)).filter
          (· ∉ events.map (·.id))) (s.afterEvents received w events)
      rw [List.map_id,afterEvents_sessionEventIDs s received order w events result] at others
      rw [retitle,afterEvents_sessionEventIDs s received order w events result]
      exact others
    next => simpa using started
  rw [Appended,written]
  exact titled

/-! Leasing and acknowledging rewrite the changes in place. -/

theorem leaseChanges_names (owner : String) (leaseUntil now : Time) (states : List ProjectionChangeState) :
    ∀ limit, (s.leaseChanges owner leaseUntil now limit states).1.map (fun c => (c.id,c.eventID)) =
      states.map fun c => (c.id,c.eventID) := by
  induction states with
  | nil =>
    intro limit
    cases limit <;> rfl
  | cons state others ih =>
    intro limit
    cases limit with
    | zero => rfl
    | succ limit =>
      unfold leaseChanges
      split
      · simp [ih]
      · split
        · simp [ih]
        · simp [ih]

theorem ackChange_names (owner : String) (ids : List Nat) (c : ProjectionChangeState) :
    ((ackChange owner ids c).id,(ackChange owner ids c).eventID) = (c.id,c.eventID) := by
  unfold ackChange
  split <;> rfl

end MemoryStore
end ATape.Canonical
