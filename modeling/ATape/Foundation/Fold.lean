import Mathlib.Algebra.Order.Ring.Int
import Mathlib.Data.List.Nodup
import Mathlib.Data.List.Sort
import Mathlib.Data.Prod.Lex
import Mathlib.Tactic.Ring

/-! Folding a list of writes into a state. What no write touches stays; and when
the writes go to distinct keys, each key is written once, on what it held before. -/
namespace ATape.Foundation
variable {σ ρ κ β γ : Type} {put : σ → ρ → σ}

theorem foldl_keep (view : σ → γ) (keep : ∀ s r, view (put s r) = view s) (rs : List ρ) (s : σ) :
    view (rs.foldl put s) = view s := by
  induction rs generalizing s with
  | nil => rfl
  | cons r rs ih => rw [List.foldl_cons,ih,keep]

theorem foldl_invariant {Inv : σ → Prop} {Ready : σ → ρ → Prop}
    (keep : ∀ s r, Inv s → Ready s r → Inv (put s r)) (rs : List ρ)
    (wait : ∀ s, ∀ r ∈ rs, ∀ r' ∈ rs, Inv s → Ready s r → Ready s r' → r ≠ r' → Ready (put s r) r')
    (distinct : rs.Nodup) (s : σ) (start : Inv s) (ready : ∀ r ∈ rs, Ready s r) : Inv (rs.foldl put s) := by
  induction rs generalizing s with
  | nil => exact start
  | cons r rs ih =>
    obtain ⟨fresh,distinct⟩ := List.nodup_cons.mp distinct
    have head := ready r List.mem_cons_self
    apply ih _ distinct _ (keep s r start head)
    · intro r' member
      have later := List.mem_cons_of_mem r member
      exact wait s r List.mem_cons_self r' later start head (ready r' later) (fun same => fresh (same ▸ member))
    · intro s r member r' member'
      exact wait s r (List.mem_cons_of_mem _ member) r' (List.mem_cons_of_mem _ member')

section Keyed
variable (view : σ → κ → β) (key : ρ → κ) (resolve : β → ρ → β)

theorem foldl_other (other : ∀ s r k, k ≠ key r → view (put s r) k = view s k) (rs : List ρ) (s : σ) (k : κ)
    (untouched : ∀ r ∈ rs, key r ≠ k) : view (rs.foldl put s) k = view s k := by
  induction rs generalizing s with
  | nil => rfl
  | cons r rs ih =>
    rw [List.foldl_cons,ih _ fun r' member => untouched r' (List.mem_cons_of_mem _ member)]
    exact other s r k (Ne.symm (untouched r List.mem_cons_self))

theorem foldl_own (own : ∀ s r, view (put s r) (key r) = resolve (view s (key r)) r)
    (other : ∀ s r k, k ≠ key r → view (put s r) k = view s k) (rs : List ρ)
    (distinct : (rs.map key).Nodup) (s : σ) (r : ρ) (member : r ∈ rs) :
    view (rs.foldl put s) (key r) = resolve (view s (key r)) r := by
  induction rs generalizing s with
  | nil => cases member
  | cons first rs ih =>
    rw [List.map_cons,List.nodup_cons] at distinct
    rw [List.foldl_cons]
    rcases List.mem_cons.mp member with rfl | later
    · rw [foldl_other view key other rs _ _ ?_,own]
      intro r' member' same
      exact distinct.1 (List.mem_map.mpr ⟨r',member',same⟩)
    · rw [ih distinct.2 _ later,other]
      intro same
      exact distinct.1 (List.mem_map.mpr ⟨r,later,same⟩)

end Keyed
end ATape.Foundation
