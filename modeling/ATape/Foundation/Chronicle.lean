import ATape.Foundation.Table

/-! Chronicles: what was done, the last act first, each with the state in which it was done. An act may
depend on those before it. -/
namespace ATape.Foundation

structure Deed (δ α : Type) where
  base : δ
  act : α

inductive Chronicle {δ α : Type} (initial : δ → Prop) (after : Deed δ α → δ)
    (possible : List (Deed δ α) → Deed δ α → Prop) : List (Deed δ α) → δ → Prop
  | start (s : δ) (first : initial s) : Chronicle initial after possible [] s
  | step (past : List (Deed δ α)) (e : Deed δ α) (reached : Chronicle initial after possible past e.base)
      (allowed : possible past e) : Chronicle initial after possible (e::past) (after e)

namespace Chronicle
variable {δ α : Type} {initial : δ → Prop} {after : Deed δ α → δ} {possible : List (Deed δ α) → Deed δ α → Prop}
  {run past later : List (Deed δ α)} {e : Deed δ α} {s : δ}

theorem split (reached : Chronicle initial after possible (later++e::past) s) :
    Chronicle initial after possible past e.base ∧ possible past e := by
  induction later generalizing s with
  | nil =>
    cases reached with
    | step _ _ before allowed => exact ⟨before,allowed⟩
  | cons first later ih =>
    cases reached with
    | step _ _ before _ => exact ih before

theorem before (reached : Chronicle initial after possible run s) (inside : e ∈ run) :
    ∃ past, Chronicle initial after possible past e.base ∧ possible past e ∧ past ⊆ run := by
  obtain ⟨later,past,rfl⟩ := List.append_of_mem inside
  obtain ⟨before,allowed⟩ := reached.split
  refine ⟨past,before,allowed,fun _ earlier => ?_⟩
  exact List.mem_append_right _ (List.mem_cons_of_mem _ earlier)

theorem related {R : δ → δ → Prop} (transitive : ∀ a b c, R a b → R b c → R a c)
    (keep : ∀ past e, possible past e → R e.base (after e))
    (reached : Chronicle initial after possible (later++e::past) s) : R e.base s := by
  induction later generalizing s with
  | nil =>
    cases reached with
    | step _ _ _ allowed => exact keep past e allowed
  | cons first later ih =>
    cases reached with
    | step _ _ before allowed => exact transitive _ _ _ (ih before) (keep _ _ allowed)

theorem pairwise {R : Deed δ α → Deed δ α → Prop} (reached : Chronicle initial after possible run s)
    (apart : ∀ past e, Chronicle initial after possible past e.base → possible past e → ∀ e' ∈ past, R e e') :
    run.Pairwise R := by
  induction reached with
  | start => exact .nil
  | step past e before allowed ih => exact .cons (apart past e before allowed) ih

theorem arose {P : δ → Prop} (first : ∀ s, initial s → ¬P s) (reached : Chronicle initial after possible run s) (holds : P s) :
    ∃ e ∈ run, ¬P e.base ∧ P (after e) := by
  induction reached with
  | start s begun => exact absurd holds (first s begun)
  | step past e _ _ ih =>
    by_cases before : P e.base
    · obtain ⟨e',inside,came⟩ := ih before
      exact ⟨e',List.mem_cons_of_mem _ inside,came⟩
    · exact ⟨e,List.mem_cons_self,before,holds⟩

theorem lasting {P Q : δ → Prop} (keep : ∀ past e, possible past e → P e.base → P (after e) → Q e.base → Q (after e))
    (reached : Chronicle initial after possible (later++e::past) s)
    (once : (later++e::past).Pairwise fun e e' => ¬P e.base → P (after e) → P (after e') → P e'.base)
    (came : ∃ e' ∈ e::past, ¬P e'.base ∧ P (after e')) (now : P (after e) → Q (after e)) (holds : P s) : Q s := by
  induction later generalizing s with
  | nil =>
    cases reached with
    | step => exact now holds
  | cons first later ih =>
    cases reached with
    | step _ _ before allowed =>
      obtain ⟨apart,once⟩ := List.pairwise_cons.mp once
      by_cases there : P first.base
      · exact keep _ first allowed there holds (ih before once there)
      · obtain ⟨e',inside,absent,present⟩ := came
        exact absurd (apart e' (List.mem_append_right _ inside) there holds present) absent

end Chronicle

theorem unique_of_pairwise {α : Type} {p : α → Prop} {l : List α} (apart : l.Pairwise fun a b => p a → ¬p b) {a b : α}
    (inside : a ∈ l) (inside' : b ∈ l) (holds : p a) (holds' : p b) : a = b := by
  by_contra differ
  have symmetric : Std.Symm fun a b : α => p a → ¬p b := ⟨fun _ _ other right left => other left right⟩
  exact apart.forall inside inside' differ holds holds'

section Batches
variable {κ ρ : Type}

/-- The first rows that are chosen, in an order. -/
def Table.batch (chosen : κ → ρ → Bool) (before : κ × ρ → κ × ρ → Bool) (size : ℕ) (t : Table κ ρ) : List κ :=
  (((t.rows.filter fun row => chosen row.1 row.2).insertionSort fun a b => before a b = true).take size).map Prod.fst

theorem Table.batch_chosen [DecidableEq κ] {chosen : κ → ρ → Bool} {before : κ × ρ → κ × ρ → Bool} {size : ℕ}
    {t : Table κ ρ} {k : κ} (inside : k ∈ t.batch chosen before size) :
    ∃ row, t.lookup k = some row ∧ chosen k row = true := by
  obtain ⟨⟨key,row⟩,taken,rfl⟩ := List.mem_map.mp inside
  have candidate := (List.mem_insertionSort _).mp (List.mem_of_mem_take taken)
  obtain ⟨held,meets⟩ := List.mem_filter.mp candidate
  exact ⟨row,(Table.mem_rows _ _ _).mp held,meets⟩

end Batches
end ATape.Foundation
