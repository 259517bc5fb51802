import ATape.Foundation.Transactions

/-! Attempts at an operation, one by one: what each leaves behind, and which of them a reply is of. -/
namespace ATape.Foundation

/-- Whether what was to be committed stays. -/
def Commit.applied : Commit → Bool
  | .done => true
  | .failed _ applied => applied

section Attempts
variable {δ ω ε α : Type} (x : Tx δ ω ε α)

def Attempt.result (attempt : Attempt δ) : Except (Halt ε) α := (x attempt.world (Draft.start attempt.base)).1

def Attempt.ended (attempt : Attempt δ) : Ended δ ω :=
  ⟨(x attempt.world (Draft.start attempt.base)).2,kept (attempt.result x) && attempt.commit.applied⟩

/-- The attempts that are made are the first ones, and each ends as it does by itself. -/
theorem withTransaction_trace (tries : List (Attempt δ)) :
    ∃ made, (withTransaction x tries).2 = (tries.take made).map (Attempt.ended x) := by
  induction tries with
  | nil => exact ⟨0,rfl⟩
  | cons attempt later ih =>
    have once : ∀ ended, attempt.ended x = ended → ∃ made, [ended] = ((attempt::later).take made).map (Attempt.ended x) := by
      intro ended same
      exact ⟨1,by simp [same]⟩
    have again : ∀ ended, attempt.ended x = ended → ∃ made, ended::(withTransaction x later).2 =
        ((attempt::later).take made).map (Attempt.ended x) := by
      intro ended same
      obtain ⟨made,rest⟩ := ih
      exact ⟨made+1,by rw [List.take_succ_cons,List.map_cons,same,rest]⟩
    have ends : ∀ result work, x attempt.world (Draft.start attempt.base) = (result,work) →
        attempt.ended x = ⟨work,kept result && attempt.commit.applied⟩ := by
      intro result work run
      rw [Attempt.ended,Attempt.result,run]
    unfold withTransaction
    split
    next error work run =>
      split
      next done => exact once _ (by rw [ends _ _ run,done]; rfl)
      next done => exact once _ (by rw [ends _ _ run,done]; rfl)
    next error work run => exact once _ (ends _ _ run)
    next retryable work run =>
      split
      next => exact again _ (ends _ _ run)
      next => exact once _ (ends _ _ run)
    next a work run =>
      split
      next done => exact once _ (by rw [ends _ _ run,done]; rfl)
      next done =>
        split
        next => exact again _ (by rw [ends _ _ run,done]; rfl)
        next => exact once _ (by rw [ends _ _ run,done]; rfl)

variable {x}

/-- An answer is of one attempt, and a certain one is of an attempt that was committed. -/
theorem withTransaction_answer {tries : List (Attempt δ)} {a : α}
    (answered : (withTransaction x tries).1 = .ok a ∨ (withTransaction x tries).1 = .uncertain (some a)) :
    ∃ attempt ∈ tries, attempt.result x = .ok a ∧ ((withTransaction x tries).1 = .ok a → attempt.commit = .done) := by
  induction tries with
  | nil =>
    unfold withTransaction at answered
    simp at answered
  | cons attempt later ih =>
    have ends : ∀ result work, x attempt.world (Draft.start attempt.base) = (result,work) → attempt.result x = result := by
      intro result work run
      rw [Attempt.result,run]
    unfold withTransaction at answered ⊢
    split at answered
    next => split at answered <;> simp at answered
    next => simp at answered
    next =>
      split at answered
      next more =>
        obtain ⟨attempt',inside,done⟩ := ih answered
        refine ⟨attempt',List.mem_cons_of_mem _ inside,?_⟩
        rw [if_pos more]
        exact done
      next => simp at answered
    next b work run =>
      split at answered
      next done =>
        obtain rfl : b = a := by simpa using answered
        exact ⟨attempt,List.mem_cons_self,ends _ _ run,fun _ => done⟩
      next retryable applied done =>
        split at answered
        next more =>
          obtain ⟨attempt',inside,told⟩ := ih answered
          refine ⟨attempt',List.mem_cons_of_mem _ inside,?_⟩
          rw [if_pos more]
          exact told
        next last =>
          obtain rfl : b = a := by simpa using answered
          refine ⟨attempt,List.mem_cons_self,ends _ _ run,?_⟩
          rw [if_neg last]
          intro sure
          cases sure

/-- An attempt leaves the database as it was, or with what its operation wrote. -/
theorem Attempt.after_of_ends [Writes δ ω] (attempt : Attempt δ) {P : Except (Halt ε) α → List ω → Prop}
    (ends : x.Ends attempt.world (Draft.start attempt.base) fun result work => work.base = attempt.base ∧ P result work.writes) :
    (attempt.ended x).after = attempt.base ∨ ∃ writes, kept (attempt.result x) = true ∧ P (attempt.result x) writes ∧
      (attempt.ended x).after = drafted attempt.base writes := by
  obtain ⟨base,written⟩ := ends
  unfold Ended.after
  split
  next applied =>
    obtain ⟨stays,-⟩ := Bool.and_eq_true_iff.mp applied
    refine .inr ⟨_,stays,written,?_⟩
    rw [Attempt.ended,Draft.db,base]
  next => exact .inl base

end Attempts
end ATape.Foundation
