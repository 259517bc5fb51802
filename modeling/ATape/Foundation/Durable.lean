import Mathlib.Algebra.Order.Ring.Int
import Mathlib.Data.List.Sort
import Mathlib.Data.Prod.Lex
import Mathlib.Tactic.Ring

/-! Work on durable storage. A computation reads the storage and replaces it in
atomic writes; it may be cut off between any two of them, so that its writes are
kept as a trail. The rules below take a computation apart: what it leaves when it is
cut off, and what it returns when it is not. -/
namespace ATape.Foundation

/-- The storage after each write of a computation, and what it returned. -/
structure Done (σ ε α : Type) where
  trail : List σ
  result : Except ε α

def Work (σ ε α : Type) := σ → Done σ ε α

namespace Work
variable {σ ε α β : Type}

/-- The storage at the end of a trail. -/
def last (s : σ) (trail : List σ) : σ := trail.getLastD s

@[simp] theorem last_nil (s : σ) : last s [] = s := rfl

@[simp] theorem last_cons (s s' : σ) (trail : List σ) : last s (s'::trail) = last s' trail := by
  cases trail <;> rfl

@[simp] theorem last_append (s : σ) (first second : List σ) :
    last s (first++second) = last (last s first) second := by
  induction first generalizing s with
  | nil => rfl
  | cons s' first ih => rw [List.cons_append,last_cons,last_cons,ih]

instance : Monad (Work σ ε) where
  pure a := fun _ => ⟨[],.ok a⟩
  bind first next := fun s =>
    match (first s).result with
    | .error failure => ⟨(first s).trail,.error failure⟩
    | .ok a => ⟨(first s).trail++(next a (last s (first s).trail)).trail,(next a (last s (first s).trail)).result⟩

def fail (failure : ε) : Work σ ε α := fun _ => ⟨[],.error failure⟩

def failWhen (bad : Prop) [Decidable bad] (failure : ε) : Work σ ε Unit :=
  fun _ => ⟨[],if bad then .error failure else .ok ()⟩

/-- A read of the storage, which may fail. -/
def read (f : σ → Except ε α) : Work σ ε α := fun s => ⟨[],f s⟩

/-- A computation that does not look at the storage. -/
def lift (value : Except ε α) : Work σ ε α := fun _ => ⟨[],value⟩

def write (f : σ → σ) : Work σ ε Unit := fun s => ⟨[f s],.ok ()⟩

/-- The storage after one of the writes of a computation, at which it may be cut off. -/
def Leaves (work : Work σ ε α) (s d : σ) : Prop := d ∈ (work s).trail

/-- The computation returns a value over storage that it has brought to a state. -/
def Yields (work : Work σ ε α) (s : σ) (a : α) (s' : σ) : Prop :=
  (work s).result = .ok a ∧ last s (work s).trail = s'

@[simp] theorem yields_pure (a b : α) (s s' : σ) : Yields (pure a : Work σ ε α) s b s' ↔ a = b ∧ s' = s := by
  simp [Yields,Pure.pure,eq_comm]

@[simp] theorem yields_bind (first : Work σ ε α) (next : α → Work σ ε β) (s s'' : σ) (b : β) :
    Yields (first >>= next) s b s'' ↔ ∃ a s', Yields first s a s' ∧ Yields (next a) s' b s'' := by
  cases returned : (first s).result with
  | error failure => simp [Yields,Bind.bind,returned]
  | ok a => simp [Yields,Bind.bind,returned]

@[simp] theorem yields_fail (failure : ε) (s s' : σ) (a : α) : ¬ Yields (fail failure) s a s' := by
  simp [Yields,fail]

@[simp] theorem yields_failWhen (bad : Prop) [Decidable bad] (failure : ε) (s s' : σ) (u : Unit) :
    Yields (failWhen bad failure) s u s' ↔ ¬bad ∧ s' = s := by
  by_cases holds : bad
  · simp [Yields,failWhen,holds]
  · simp [Yields,failWhen,holds,eq_comm]

@[simp] theorem yields_read (f : σ → Except ε α) (s s' : σ) (a : α) :
    Yields (read f) s a s' ↔ f s = .ok a ∧ s' = s := by
  simp [Yields,read,eq_comm]

@[simp] theorem yields_lift (value : Except ε α) (s s' : σ) (a : α) :
    Yields (lift value) s a s' ↔ value = .ok a ∧ s' = s := by
  simp [Yields,lift,eq_comm]

@[simp] theorem yields_write (f : σ → σ) (s s' : σ) (u : Unit) :
    Yields (write f : Work σ ε Unit) s u s' ↔ s' = f s := by
  simp [Yields,write,eq_comm]

@[simp] theorem leaves_pure (a : α) (s d : σ) : ¬ Leaves (pure a : Work σ ε α) s d := by
  simp [Leaves,Pure.pure]

@[simp] theorem leaves_bind (first : Work σ ε α) (next : α → Work σ ε β) (s d : σ) :
    Leaves (first >>= next) s d ↔ Leaves first s d ∨ ∃ a s', Yields first s a s' ∧ Leaves (next a) s' d := by
  cases returned : (first s).result with
  | error failure => simp [Leaves,Yields,Bind.bind,returned]
  | ok a => simp [Leaves,Yields,Bind.bind,returned]

@[simp] theorem leaves_fail (failure : ε) (s d : σ) : ¬ Leaves (fail failure : Work σ ε α) s d := by
  simp [Leaves,fail]

@[simp] theorem leaves_failWhen (bad : Prop) [Decidable bad] (failure : ε) (s d : σ) :
    ¬ Leaves (failWhen bad failure) s d := by
  simp [Leaves,failWhen]

@[simp] theorem leaves_read (f : σ → Except ε α) (s d : σ) : ¬ Leaves (read f) s d := by
  simp [Leaves,read]

@[simp] theorem leaves_lift (value : Except ε α) (s d : σ) : ¬ Leaves (lift value) s d := by
  simp [Leaves,lift]

@[simp] theorem leaves_write (f : σ → σ) (s d : σ) : Leaves (write f : Work σ ε Unit) s d ↔ d = f s := by
  simp [Leaves,write]

end Work
end ATape.Foundation
