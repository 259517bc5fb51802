import ATape.Canonical.Coherence

/-! The two walks from a thread to its root: the one of the search feed, and the
one shown with a conversation, which also stops at a thread it has met. In a
coherent store both give every ancestor. -/
namespace ATape.Canonical
open Foundation Go SourceIdentity

/-- The thread that a missing row reads as. -/
def ThreadRecord.absent : ThreadRecord := ⟨"","","",0,"","","",none,""⟩

def ThreadRecord.item (t : ThreadRecord) : ProjectionThread := ⟨t.id,t.label⟩

def MemoryStore.conversationThreads (s : MemoryStore) (order : Order) (sessionID : String) : List ThreadRecord :=
  (order.visit ((s.threadIDsBySession.lookup sessionID).getD [])).map fun id =>
    (s.threads.lookup (recordKey sessionID id)).getD .absent

def threadByID (threads : List ThreadRecord) : Table String ThreadRecord :=
  threads.foldl (fun table t => table.insert t.id t) ∅

def threadPath (byID : Table String ThreadRecord) : Nat → List String → ThreadRecord → List ProjectionThread
  | 0,_,_ => []
  | fuel+1,seen,current =>
    if current.id ∈ seen then []
    else
      match current.parentThreadID.bind byID.lookup with
      | none => [current.item]
      | some parent => threadPath byID fuel (current.id::seen) parent++[current.item]

namespace MemoryStore

/-- A path that starts at a thread without a parent, in which each thread has the
one before it as its parent. -/
inductive Ancestry (s : MemoryStore) (sessionID : String) : ThreadRecord → List ProjectionThread → Prop
  | root (t) (top : t.parentThreadID = none) : Ancestry s sessionID t [t.item]
  | child (t p parent path) (above : t.parentThreadID = some p)
      (held : s.threads.lookup (recordKey sessionID p) = some parent)
      (rest : Ancestry s sessionID parent path) : Ancestry s sessionID t (path++[t.item])

theorem Ancestry.unique {s : MemoryStore} {sessionID : String} {t : ThreadRecord} {path path' : List ProjectionThread}
    (left : Ancestry s sessionID t path) (right : Ancestry s sessionID t path') : path = path' := by
  induction left generalizing path' with
  | root t top =>
    cases right with
    | root => rfl
    | child _ _ _ _ above => simp [top] at above
  | child t p parent path above held _ ih =>
    cases right with
    | root _ top => simp [above] at top
    | child _ p' parent' path' above' held' rest =>
      rw [above] at above'
      cases above'
      rw [held] at held'
      cases held'
      rw [ih rest]

variable {h : Hash} {s : MemoryStore} {sessionID : String}

theorem Coherent.above (coherent : Coherent h s) (size : sessionID.toList.length = sessionIDLength)
    {t : ThreadRecord} {p : String} {n : Nat} (held : s.threads.lookup (recordKey sessionID t.id) = some t)
    (parent : t.parentThreadID = some p) (rooted : Forest.Rooted (s.parentIn sessionID) t.id n) :
    ∃ above m, s.threads.lookup (recordKey sessionID p) = some above ∧ above.id = p ∧ n = m+1 ∧
      Forest.Rooted (s.parentIn sessionID) p m := by
  have session := (coherent.thread_at size held).1
  obtain ⟨above,row,_,named⟩ := coherent.parent _ t p held parent
  rw [session] at row
  have next : s.parentIn sessionID t.id = some p := by
    rw [parentIn,held,Option.bind_some,parent]
  cases rooted with
  | root _ top => simp [next] at top
  | child _ p' m below rest =>
    rw [next] at below
    cases below
    exact ⟨above,m,row,named,rfl,rest⟩

theorem Coherent.threadPath_ancestry (coherent : Coherent h s) (size : sessionID.toList.length = sessionIDLength)
    {n : Nat} : ∀ {t : ThreadRecord} {fuel : Nat}, s.threads.lookup (recordKey sessionID t.id) = some t →
      Forest.Rooted (s.parentIn sessionID) t.id n → n ≤ fuel →
      Ancestry s sessionID t (s.threadPath sessionID fuel t) := by
  induction n with
  | zero =>
    intro t fuel held rooted _
    have top : t.parentThreadID = none := by
      by_contra child
      obtain ⟨p,parent⟩ := Option.ne_none_iff_exists'.mp child
      obtain ⟨_,_,_,_,impossible,_⟩ := coherent.above size held parent rooted
      cases impossible
    have path : s.threadPath sessionID fuel t = [t.item] := by
      cases fuel <;> simp [MemoryStore.threadPath,top,ThreadRecord.item]
    rw [path]
    exact .root t top
  | succ n ih =>
    intro t fuel held rooted enough
    cases parent : t.parentThreadID with
    | none =>
      have path : s.threadPath sessionID fuel t = [t.item] := by
        cases fuel <;> simp [MemoryStore.threadPath,parent,ThreadRecord.item]
      rw [path]
      exact .root t parent
    | some p =>
      obtain ⟨above,m,row,named,same,rest⟩ := coherent.above size held parent rooted
      cases same
      obtain ⟨fuel,rfl⟩ : ∃ k, fuel = k+1 := ⟨fuel-1,by omega⟩
      have path : s.threadPath sessionID (fuel+1) t = s.threadPath sessionID fuel above++[t.item] := by
        simp [MemoryStore.threadPath,parent,row,ThreadRecord.item]
      rw [path]
      subst named
      exact .child t _ above _ parent row (ih row rest (by omega))

theorem Coherent.conversation_ancestry (coherent : Coherent h s) (size : sessionID.toList.length = sessionIDLength)
    {byID : Table String ThreadRecord}
    (known : ∀ t, s.threads.lookup (recordKey sessionID t.id) = some t → byID.lookup t.id = some t) {n : Nat} :
    ∀ {t : ThreadRecord} {fuel : Nat} {seen : List String},
      s.threads.lookup (recordKey sessionID t.id) = some t → Forest.Rooted (s.parentIn sessionID) t.id n →
      n < fuel → (∀ id ∈ seen, ∃ m, n < m ∧ Forest.Rooted (s.parentIn sessionID) id m) →
      Ancestry s sessionID t (Canonical.threadPath byID fuel seen t) := by
  induction n with
  | zero =>
    intro t fuel seen held rooted enough deeper
    obtain ⟨fuel,rfl⟩ : ∃ k, fuel = k+1 := ⟨fuel-1,by omega⟩
    have unmet : t.id ∉ seen := by
      intro member
      obtain ⟨m,below,rooted'⟩ := deeper t.id member
      have := rooted.unique rooted'
      omega
    have top : t.parentThreadID = none := by
      by_contra child
      obtain ⟨p,parent⟩ := Option.ne_none_iff_exists'.mp child
      obtain ⟨_,_,_,_,impossible,_⟩ := coherent.above size held parent rooted
      cases impossible
    have path : Canonical.threadPath byID (fuel+1) seen t = [t.item] := by
      simp [Canonical.threadPath,unmet,top]
    rw [path]
    exact .root t top
  | succ n ih =>
    intro t fuel seen held rooted enough deeper
    obtain ⟨fuel,rfl⟩ : ∃ k, fuel = k+1 := ⟨fuel-1,by omega⟩
    have unmet : t.id ∉ seen := by
      intro member
      obtain ⟨m,below,rooted'⟩ := deeper t.id member
      have := rooted.unique rooted'
      omega
    cases parent : t.parentThreadID with
    | none =>
      have path : Canonical.threadPath byID (fuel+1) seen t = [t.item] := by
        simp [Canonical.threadPath,unmet,parent]
      rw [path]
      exact .root t parent
    | some p =>
      obtain ⟨above,m,row,named,same,rest⟩ := coherent.above size held parent rooted
      cases same
      subst named
      have path : Canonical.threadPath byID (fuel+1) seen t =
          Canonical.threadPath byID fuel (t.id::seen) above++[t.item] := by
        simp [Canonical.threadPath,unmet,parent,known above row]
      rw [path]
      apply Ancestry.child t _ above _ parent row
      apply ih row rest (by omega)
      intro id member
      rcases List.mem_cons.mp member with rfl | earlier
      · exact ⟨n+1,by omega,rooted⟩
      · obtain ⟨m,below,rooted'⟩ := deeper id earlier
        exact ⟨m,by omega,rooted'⟩

theorem Coherent.depth (coherent : Coherent h s) {t : ThreadRecord} {n : Nat}
    (held : s.threads.lookup (recordKey sessionID t.id) = some t)
    (rooted : Forest.Rooted (s.parentIn sessionID) t.id n) : n < s.threads.entries.length := by
  have names : (s.threads.entries.map fun row => row.2.id).length = s.threads.entries.length := List.length_map _
  rw [← names]
  apply rooted.depth_lt
  · exact List.mem_map.mpr ⟨⟨_,t⟩,(Table.mem_entries _ _ _).mpr held,rfl⟩
  · intro b c below
    obtain ⟨child,row,parent⟩ := Option.bind_eq_some_iff.mp below
    obtain ⟨above,row',_,named⟩ := coherent.parent _ child c row parent
    exact List.mem_map.mpr ⟨⟨_,above⟩,(Table.mem_entries _ _ _).mpr row',named⟩

theorem Coherent.depth_exists (coherent : Coherent h s) {t : ThreadRecord}
    (size : sessionID.toList.length = sessionIDLength)
    (held : s.threads.lookup (recordKey sessionID t.id) = some t) :
    ∃ n, n < s.threads.entries.length ∧ Forest.Rooted (s.parentIn sessionID) t.id n := by
  obtain ⟨n,rooted⟩ := coherent.rooted _ t held
  rw [(coherent.thread_at size held).1] at rooted
  exact ⟨n,coherent.depth held rooted,rooted⟩

private theorem threadByID_step {t : ThreadRecord} (threads : List ThreadRecord) (table : Table String ThreadRecord)
    (only : ∀ t' ∈ threads, t'.id = t.id → t' = t) (known : t ∈ threads ∨ table.lookup t.id = some t) :
    (threads.foldl (fun table t => table.insert t.id t) table).lookup t.id = some t := by
  induction threads generalizing table with
  | nil => exact known.resolve_left List.not_mem_nil
  | cons first threads ih =>
    apply ih _ fun t' member => only t' (List.mem_cons_of_mem _ member)
    rw [Table.lookup_insert]
    by_cases same : t.id = first.id
    · rw [if_pos same,only first List.mem_cons_self same.symm]
      exact .inr rfl
    · rw [if_neg same]
      rcases known with member | held
      · rcases List.mem_cons.mp member with rfl | later
        · exact absurd rfl same
        · exact .inl later
      · exact .inr held

theorem Coherent.threadByID (coherent : Coherent h s) (order : Order)
    (size : sessionID.toList.length = sessionIDLength) (t : ThreadRecord) (held : s.threads.lookup (recordKey sessionID t.id) = some t) :
    (Canonical.threadByID (s.conversationThreads order sessionID)).lookup t.id = some t := by
  unfold Canonical.threadByID
  apply threadByID_step
  · intro t' member same
    obtain ⟨id,listed,rfl⟩ := List.mem_map.mp member
    obtain ⟨row,found,_,named⟩ := (coherent.threadIndex sessionID id).mp ((order.perm _).mem_iff.mp listed)
    rw [found,Option.getD_some] at same ⊢
    rw [named] at same
    rw [same,held] at found
    exact (Option.some.inj found).symm
  · have session := (coherent.thread_at size held).1
    have listed := (coherent.threadIndex sessionID t.id).mpr ⟨t,held,session,rfl⟩
    exact .inl (List.mem_map.mpr ⟨t.id,(order.perm _).mem_iff.mpr listed,by rw [held,Option.getD_some]⟩)

end MemoryStore
end ATape.Canonical
