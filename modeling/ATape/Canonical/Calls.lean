import ATape.Canonical.Coherence
import ATape.Foundation.Run
import ATape.Ingestion.Submission

/-! The calls on a store, in any order and by anybody. A call that fails leaves
the store as it was; a batch reaches the store from the ingestor only. -/
namespace ATape.Canonical
open Foundation Go Authorization SourceIdentity Ingestion

inductive Call
  | applyBatch (received : Nat → Time) (order : Order) (principal : Principal) (batch : WriteBatch)
  | deleteSession (principal : Principal) (sessionID : String)
  | leaseProjectionChanges (owner : String) (limit : Int) (leaseUntil now : Time)
  | ackProjectionChanges (owner : String) (ids : List Nat)

namespace MemoryStore

def perform (s : MemoryStore) : Call → MemoryStore
  | .applyBatch received order principal batch =>
    after s ((s.applyBatch received order principal batch).map Prod.snd)
  | .deleteSession principal sessionID => after s (s.deleteSession principal sessionID)
  | .leaseProjectionChanges owner limit leaseUntil now =>
    (s.leaseProjectionChanges owner limit leaseUntil now).2
  | .ackProjectionChanges owner ids => s.ackProjectionChanges owner ids

theorem perform_apply {s s' : MemoryStore} {received : Nat → Time} {order : Order} {principal : Principal}
    {batch : WriteBatch} {result : ApplyResult}
    (ok : s.applyBatch received order principal batch = .ok (result,s')) :
    s.perform (.applyBatch received order principal batch) = s' := by
  simp only [perform,ok,Except.map,after]

theorem perform_delete {s s' : MemoryStore} {principal : Principal} {sessionID : String}
    (ok : s.deleteSession principal sessionID = .ok s') : s.perform (.deleteSession principal sessionID) = s' := by
  simp only [perform,ok,after]

/-- A store before any call. -/
def Fresh (s : MemoryStore) : Prop := ∃ projects memberships, s = newWithControlPlane projects memberships

/-- One call. The texts are all those that preparing the batches hashed. -/
inductive Step (h : Hash) (texts : Set String) : MemoryStore → Call → MemoryStore → Prop
  | applyBatch (s received order principal batch) (submitted : Submitted h texts principal batch) :
      Step h texts s (.applyBatch received order principal batch)
        (s.perform (.applyBatch received order principal batch))
  | deleteSession (s principal sessionID) :
      Step h texts s (.deleteSession principal sessionID) (s.perform (.deleteSession principal sessionID))
  | leaseProjectionChanges (s owner limit leaseUntil now) :
      Step h texts s (.leaseProjectionChanges owner limit leaseUntil now)
        (s.perform (.leaseProjectionChanges owner limit leaseUntil now))
  | ackProjectionChanges (s owner ids) :
      Step h texts s (.ackProjectionChanges owner ids) (s.perform (.ackProjectionChanges owner ids))

theorem deleteSession_ok {s s' : MemoryStore} {principal : Principal} {sessionID : String}
    (ok : s.deleteSession principal sessionID = .ok s') :
    s' = s ∨ ∃ session, s.sessions.lookup sessionID = some session ∧
      s' = s.dropSession session sessionID := by
  have concealed : s.concealedSession principal = .ok s' → s' = s := by
    intro ok
    simp only [concealedSession,bind_ok,pure_ok] at ok
    obtain ⟨_,_,same⟩ := ok
    exact same.symm
  have known : ∀ session deleted, s.deleteKnown principal sessionID session deleted = .ok s' →
      s' = s ∨ s' = if deleted then s else s.dropSession session sessionID := by
    intro session deleted ok
    unfold deleteKnown at ok
    split at ok
    next => exact .inl (concealed ok)
    next =>
      simp only [bind_ok,pure_ok] at ok
      obtain ⟨_,_,rfl⟩ := ok
      exact .inr rfl
  unfold deleteSession at ok
  split at ok
  next session held =>
    rcases known session false ok with same | dropped
    · exact .inl same
    · exact .inr ⟨session,held,by simpa using dropped⟩
  next session _ _ =>
    rcases known session true ok with same | same
    · exact .inl same
    · exact .inl (by simpa using same)
  next => exact .inl (concealed ok)

theorem perform_cases (s : MemoryStore) (call : Call) :
    s.perform call = s ∨
    (∃ received order principal w verdicts result, call = .applyBatch received order principal w ∧
      s.Admitted principal w ∧ s.batchReceipts.lookup w.key = none ∧ s.Accepted principal w verdicts ∧
      result = s.summarize w verdicts ∧
      s.perform call = s.write received order w (applied w verdicts) result) ∨
    (∃ principal sessionID session, call = .deleteSession principal sessionID ∧
      s.sessions.lookup sessionID = some session ∧ s.perform call = s.dropSession session sessionID) ∨
    (∃ changes, s.perform call = {s with projectionChanges := changes} ∧
      ((∃ owner limit leaseUntil now, call = .leaseProjectionChanges owner limit leaseUntil now ∧ 0 < limit ∧
          changes = (s.leaseChanges owner leaseUntil now limit.toNat s.projectionChanges).1) ∨
        ∃ owner ids, call = .ackProjectionChanges owner ids ∧
          changes = s.projectionChanges.map (ackChange owner ids))) := by
  cases call with
  | applyBatch received order principal w =>
    cases outcome : s.applyBatch received order principal w with
    | error failure => exact .inl (by simp [perform,outcome,after,Except.map])
    | ok accepted =>
      obtain ⟨result,s'⟩ := accepted
      obtain ⟨admitted,⟨_,_,_,rfl⟩ | ⟨unknown,verdicts,checked,summary,written⟩⟩ := applyBatch_ok outcome
      · exact .inl (by simp [perform,outcome,after,Except.map])
      · exact .inr (.inl ⟨received,order,principal,w,verdicts,result,rfl,admitted,unknown,checked,summary,
          by simp [perform,outcome,after,Except.map,written]⟩)
  | deleteSession principal sessionID =>
    cases outcome : s.deleteSession principal sessionID with
    | error failure => exact .inl (by simp [perform,outcome,after])
    | ok s' =>
      rcases deleteSession_ok outcome with rfl | ⟨session,held,rfl⟩
      · exact .inl (by simp [perform,outcome,after])
      · exact .inr (.inr (.inl ⟨principal,sessionID,session,rfl,held,by simp [perform,outcome,after]⟩))
  | leaseProjectionChanges owner limit leaseUntil now =>
    by_cases none : limit ≤ 0
    · exact .inl (by simp [perform,leaseProjectionChanges,none])
    · refine .inr (.inr (.inr ⟨_,?_,.inl ⟨owner,limit,leaseUntil,now,rfl,by omega,rfl⟩⟩))
      simp [perform,leaseProjectionChanges,none]
  | ackProjectionChanges owner ids =>
    exact .inr (.inr (.inr ⟨_,rfl,.inr ⟨owner,ids,rfl,rfl⟩⟩))

variable {h : Hash} {texts : Set String}

theorem step_coherent (free : h.CollisionFree texts) {s s' : MemoryStore} {call : Call}
    (coherent : Coherent h s) (step : Step h texts s call s') : Coherent h s' := by
  have next : s' = s.perform call := by cases step <;> rfl
  rcases s.perform_cases call with same | ⟨received,order,principal,w,verdicts,result,rfl,admitted,_,accepted,_,
    written⟩ | ⟨principal,sessionID,session,rfl,held,dropped⟩ | ⟨changes,rewritten,_⟩
  · exact (next.trans same) ▸ coherent
  · cases step with
    | applyBatch _ _ _ _ submitted =>
      rw [written]
      exact write_coherent _ _ _ (submitted.formed free) coherent admitted accepted
  · rw [next,dropped]
    exact dropSession_coherent coherent held
  · rw [next,rewritten]
    exact coherent.changes changes

theorem Fresh.coherent {s : MemoryStore} (fresh : Fresh s) : Coherent h s := by
  obtain ⟨projects,memberships,rfl⟩ := fresh
  exact newWithControlPlane_coherent h projects memberships

end MemoryStore
end ATape.Canonical
