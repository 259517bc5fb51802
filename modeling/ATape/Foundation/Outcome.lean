import Mathlib.Algebra.Order.Ring.Int
import Mathlib.Data.List.Forall2
import Mathlib.Data.List.Sort
import Mathlib.Data.Prod.Lex
import Mathlib.Tactic.Ring

/-! Guarded fallible computations. A computation that succeeded passed each of
its guards; these rules peel a successful run apart one guard at a time. -/
namespace ATape.Foundation
variable {ε α β : Type}

/-- Raises the failure when the condition holds. -/
def failWhen (bad : Prop) [Decidable bad] (failure : ε) : Except ε Unit :=
  if bad then .error failure else .ok ()

/-- The value of an optional read, or the failure when there is none. -/
def present (value : Option α) (failure : ε) : Except ε α :=
  match value with
  | some a => .ok a
  | none => .error failure

theorem bind_ok (first : Except ε α) (next : α → Except ε β) (result : β) :
    (first >>= next) = .ok result ↔ ∃ value, first = .ok value ∧ next value = .ok result := by
  cases first with
  | error failure => simp [bind,Except.bind]
  | ok value => simp [bind,Except.bind]

theorem ok_bind (value : α) (next : α → Except ε β) : (Except.ok value >>= next) = next value := rfl

theorem error_bind (failure : ε) (next : α → Except ε β) : (Except.error failure >>= next) = .error failure := rfl

theorem failWhen_pos {bad : Prop} [Decidable bad] (failure : ε) (holds : bad) : failWhen bad failure = .error failure :=
  if_pos holds

theorem failWhen_neg {bad : Prop} [Decidable bad] (failure : ε) (fails : ¬bad) : failWhen bad failure = .ok () :=
  if_neg fails

theorem present_some (value : α) (failure : ε) : present (some value) failure = .ok value := rfl

@[simp] theorem failWhen_ok (bad : Prop) [Decidable bad] (failure : ε) (u : Unit) :
    failWhen bad failure = .ok u ↔ ¬bad := by
  unfold failWhen
  split <;> simp_all

@[simp] theorem present_ok (value : Option α) (failure : ε) (a : α) :
    present value failure = .ok a ↔ value = some a := by
  cases value <;> simp [present]

@[simp] theorem pure_ok (a b : α) : (pure a : Except ε α) = .ok b ↔ a = b := by
  simp [pure,Except.pure]

theorem forM_ok (f : α → Except ε Unit) (as : List α) (u : Unit) :
    as.forM f = .ok u ↔ ∀ a ∈ as, f a = .ok () := by
  induction as with
  | nil => simp [List.forM]
  | cons a as ih =>
    rw [List.forM,bind_ok,List.forall_mem_cons,← ih]
    constructor
    · rintro ⟨_,first,rest⟩
      exact ⟨first,rest⟩
    · rintro ⟨first,rest⟩
      exact ⟨(),first,rest⟩

theorem mapM_ok (f : α → Except ε β) (as : List α) (bs : List β) :
    as.mapM f = .ok bs ↔ List.Forall₂ (fun a b => f a = .ok b) as bs := by
  induction as generalizing bs with
  | nil =>
    rw [List.mapM_nil,pure_ok]
    constructor
    · rintro rfl
      exact .nil
    · intro all
      cases all
      rfl
  | cons a as ih =>
    simp only [List.mapM_cons,bind_ok,pure_ok]
    constructor
    · rintro ⟨b,first,rest,later,rfl⟩
      exact .cons first ((ih rest).mp later)
    · intro all
      cases all with
      | cons first later => exact ⟨_,first,_,(ih _).mpr later,rfl⟩

theorem forall₂_mem {R : α → β → Prop} {inputs : List α} {outputs : List β}
    (all : List.Forall₂ R inputs outputs) {output : β} (member : output ∈ outputs) :
    ∃ input ∈ inputs, R input output := by
  induction all with
  | nil => cases member
  | cons related _ ih =>
    rcases List.mem_cons.mp member with rfl | member
    · exact ⟨_,List.mem_cons_self,related⟩
    · obtain ⟨input,known,related⟩ := ih member
      exact ⟨input,List.mem_cons_of_mem _ known,related⟩

theorem forall₂_mem_left {R : α → β → Prop} {inputs : List α} {outputs : List β}
    (all : List.Forall₂ R inputs outputs) {input : α} (member : input ∈ inputs) :
    ∃ output ∈ outputs, R input output :=
  forall₂_mem all.flip member

/-- The state after a call, which keeps the old state when the call fails. -/
def after (before : α) : Except ε α → α
  | .ok state => state
  | .error _ => before

theorem ok_after (before : α) (result : Except ε α) (accepted : result.isOk = true) :
    result = .ok (after before result) := by
  cases result with
  | error failure => cases accepted
  | ok state => rfl

end ATape.Foundation
