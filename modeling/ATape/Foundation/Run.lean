import Mathlib.Algebra.Order.Ring.Int
import Mathlib.Data.List.Sort
import Mathlib.Data.Prod.Lex
import Mathlib.Tactic.Ring

/-! Runs of a labelled step relation: finite sequences of steps, what a step
preserves and so what every run preserves, and the states that runs reach. -/
namespace ATape.Foundation

/-- The states connected by a finite sequence of labelled steps. -/
inductive Run {σ : Type} {Λ : Type} (step : σ → Λ → σ → Prop) : σ → List Λ → σ → Prop
  | nil (s) : Run step s [] s
  | cons (s label middle labels final) (head : step s label middle)
      (tail : Run step middle labels final) : Run step s (label::labels) final

namespace Run
variable {σ Λ : Type} {step : σ → Λ → σ → Prop}

theorem one {s final : σ} {label : Λ} (head : step s label final) : Run step s [label] final :=
  .cons _ _ _ _ _ head (.nil _)

theorem append {s middle final : σ} {first second : List Λ} (left : Run step s first middle)
    (right : Run step middle second final) : Run step s (first++second) final := by
  induction left with
  | nil => exact right
  | cons s label next labels middle head _ ih => exact .cons _ _ _ _ _ head (ih right)

theorem invariant {Inv : σ → Prop} (keep : ∀ s label s', Inv s → step s label s' → Inv s')
    {s final : σ} {labels : List Λ} (run : Run step s labels final) (start : Inv s) : Inv final := by
  induction run with
  | nil => exact start
  | cons s label middle labels final head _ ih => exact ih (keep _ _ _ start head)

/-- A preorder that contains every step contains every run. An invariant may
be used to show that it contains the steps. -/
theorem related {Inv : σ → Prop} {R : σ → σ → Prop} (reflexive : ∀ s, R s s)
    (transitive : ∀ a b c, R a b → R b c → R a c)
    (keep : ∀ s label s', Inv s → step s label s' → Inv s')
    (included : ∀ s label s', Inv s → step s label s' → R s s')
    {s final : σ} {labels : List Λ} (run : Run step s labels final) (start : Inv s) :
    R s final := by
  induction run with
  | nil => exact reflexive _
  | cons s label middle labels final head _ ih =>
    exact transitive _ _ _ (included _ _ _ start head) (ih (keep _ _ _ start head))

theorem weaken {other : σ → Λ → σ → Prop} (implied : ∀ s label s', step s label s' → other s label s')
    {s final : σ} {labels : List Λ} (run : Run step s labels final) : Run other s labels final := by
  induction run with
  | nil => exact .nil _
  | cons s label middle labels final head _ ih => exact .cons _ _ _ _ _ (implied _ _ _ head) ih

theorem executed {next : σ → Λ → Option σ} {s final : σ} {labels : List Λ} (done : labels.foldlM next s = some final) :
    Run (fun s label s' => next s label = some s') s labels final := by
  induction labels generalizing s with
  | nil =>
    cases done
    exact .nil _
  | cons label labels ih =>
    rw [List.foldlM_cons] at done
    obtain ⟨middle,head,rest⟩ := Option.bind_eq_some_iff.mp done
    exact .cons _ _ _ _ _ head (ih rest)

end Run

/-- The states a run can reach from the initial states. -/
def Reachable {σ Λ : Type} (initial : σ → Prop) (step : σ → Λ → σ → Prop) (s : σ) : Prop :=
  ∃ start labels, initial start ∧ Run step start labels s

namespace Reachable
variable {σ Λ : Type} {initial : σ → Prop} {step : σ → Λ → σ → Prop}

theorem start {s : σ} (first : initial s) : Reachable initial step s := ⟨s,[],first,.nil s⟩

theorem extend {s s' : σ} {label : Λ} (reached : Reachable initial step s)
    (head : step s label s') : Reachable initial step s' := by
  obtain ⟨start,labels,first,run⟩ := reached
  exact ⟨start,labels++[label],first,run.append (.one head)⟩

theorem invariant {Inv : σ → Prop} (first : ∀ s, initial s → Inv s)
    (keep : ∀ s label s', Inv s → step s label s' → Inv s') {s : σ}
    (reached : Reachable initial step s) : Inv s := by
  obtain ⟨start,labels,ready,run⟩ := reached
  exact run.invariant keep (first _ ready)

end Reachable
end ATape.Foundation
