import Mathlib.Algebra.Order.Ring.Int
import Mathlib.Data.List.Induction
import Mathlib.Data.List.Nodup
import Mathlib.Data.List.Sort
import Mathlib.Data.Prod.Lex
import Mathlib.Tactic.Ring

/-! Entries with a key and a rank each. A new key takes the rank above all others, so that no rank is ever given twice
and none changes. -/
namespace ATape.Foundation
namespace Ranks
variable {σ κ : Type} (key : σ → κ) (rank : σ → Nat)

def top (entries : List σ) : Nat := entries.foldl (fun highest e => max highest (rank e)) 0

structure Ranked (limit : Nat) (entries : List σ) : Prop where
  keys : (entries.map key).Nodup
  ranks : (entries.map rank).Nodup
  bounded : ∀ e ∈ entries, 1 ≤ rank e ∧ rank e ≤ limit

variable {key rank}

@[simp] theorem top_append (entries : List σ) (e : σ) : top rank (entries++[e]) = max (top rank entries) (rank e) := by
  simp [top]

theorem le_top {entries : List σ} {e : σ} (member : e ∈ entries) : rank e ≤ top rank entries := by
  induction entries using List.reverseRecOn with
  | nil => cases member
  | append_singleton entries last ih =>
    rw [top_append]
    rcases List.mem_append.mp member with earlier | final
    · exact (ih earlier).trans (Nat.le_max_left _ _)
    · rw [List.mem_singleton.mp final]
      exact Nat.le_max_right _ _

theorem Ranked.nil (limit : Nat) : Ranked key rank limit [] := by
  refine ⟨List.nodup_nil,List.nodup_nil,?_⟩
  intro e member
  cases member

theorem Ranked.append {limit : Nat} {entries : List σ} {e : σ} (ranked : Ranked key rank limit entries)
    (fresh : key e ∉ entries.map key) (above : top rank entries < rank e) (fits : rank e ≤ limit) :
    Ranked key rank limit (entries++[e]) := by
  refine ⟨?_,?_,?_⟩
  · rw [List.map_append,List.map_singleton]
    exact ranked.keys.append (List.nodup_singleton _) (by simpa using fresh)
  · rw [List.map_append,List.map_singleton]
    apply ranked.ranks.append (List.nodup_singleton _)
    intro r given last
    obtain ⟨e',member,rfl⟩ := List.mem_map.mp given
    have below : rank e' ≤ top rank entries := le_top member
    rw [List.mem_singleton.mp last] at below
    omega
  · intro e' member
    rcases List.mem_append.mp member with earlier | last
    · exact ranked.bounded e' earlier
    · rw [List.mem_singleton.mp last]
      exact ⟨by omega,fits⟩

theorem Ranked.rank_iff {limit : Nat} {entries : List σ} {e e' : σ} (ranked : Ranked key rank limit entries)
    (member : e ∈ entries) (member' : e' ∈ entries) : rank e = rank e' ↔ key e = key e' := by
  constructor
  · intro same
    rw [List.inj_on_of_nodup_map ranked.ranks member member' same]
  · intro same
    rw [List.inj_on_of_nodup_map ranked.keys member member' same]

/-! Coordinates of a rank and an offset below a stride. -/

theorem coordinate_inj {base stride r r' o o' : Nat} (inside : o < stride) (inside' : o' < stride)
    (same : base+r*stride+o = base+r'*stride+o') : r = r' ∧ o = o' := by
  have joined : r*stride+o = r'*stride+o' := by omega
  have quotient := congrArg (· / stride) joined
  have positive : 0 < stride := by omega
  simp only [Nat.add_comm (_*stride),Nat.add_mul_div_right _ _ positive,Nat.div_eq_of_lt inside,
    Nat.div_eq_of_lt inside',Nat.zero_add] at quotient
  subst quotient
  exact ⟨rfl,by omega⟩

end Ranks
end ATape.Foundation
