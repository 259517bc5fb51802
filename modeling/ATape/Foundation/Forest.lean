import Mathlib.Algebra.Order.Ring.Int
import Mathlib.Data.List.Basic
import Mathlib.Data.List.Nodup
import Mathlib.Data.List.Perm.Subperm
import Mathlib.Data.List.Sort
import Mathlib.Data.Prod.Lex
import Mathlib.Logic.Relation
import Mathlib.Tactic.Ring

/-! Trees given by a parent for each node. A node is rooted when following the
parents ends; the number of steps is its depth. -/
namespace ATape.Foundation
namespace Forest
variable {α : Type} (parent : α → Option α)

inductive Rooted : α → Nat → Prop
  | root (a) (top : parent a = none) : Rooted a 0
  | child (a b n) (below : parent a = some b) (rest : Rooted b n) : Rooted a (n+1)

variable {parent}

theorem Rooted.unique {a : α} {n m : Nat} (left : Rooted parent a n) (right : Rooted parent a m) : n = m := by
  induction left generalizing m with
  | root a top =>
    cases right with
    | root => rfl
    | child _ b _ below => simp [top] at below
  | child a b n below _ ih =>
    cases right with
    | root _ top => simp [top] at below
    | child _ b' m below' rest =>
      rw [below] at below'
      cases below'
      rw [ih rest]

theorem Rooted.congr {other : α → Option α} {a : α} {n : Nat} (rooted : Rooted parent a n) (keep : α → Prop)
    (start : keep a) (agree : ∀ b, keep b → other b = parent b)
    (above : ∀ b c, keep b → parent b = some c → keep c) : Rooted other a n := by
  induction rooted with
  | root a top => exact .root a (by rw [agree a start,top])
  | child a b n below _ ih =>
    exact .child a b n (by rw [agree a start,below]) (ih (above a b start below))

theorem Rooted.chain {a : α} {n : Nat} (rooted : Rooted parent a n) :
    ∃ chain : List α, chain.length = n+1 ∧ chain.Nodup ∧ a ∈ chain ∧
      ∀ b ∈ chain, b = a ∨ ∃ c, parent c = some b := by
  suffices deep : ∃ chain : List α, chain.length = n+1 ∧ chain.Nodup ∧ a ∈ chain ∧
      (∀ b ∈ chain, b = a ∨ ∃ c, parent c = some b) ∧ ∀ b ∈ chain, ∃ m ≤ n, Rooted parent b m by
    obtain ⟨chain,size,distinct,start,named,_⟩ := deep
    exact ⟨chain,size,distinct,start,named⟩
  induction rooted with
  | root a top =>
    refine ⟨[a],rfl,List.nodup_singleton a,List.mem_singleton_self a,?_,?_⟩
    · intro b member
      exact .inl (List.mem_singleton.mp member)
    · intro b member
      rw [List.mem_singleton.mp member]
      exact ⟨0,Nat.le_refl _,.root a top⟩
  | child a b n below rest ih =>
    obtain ⟨chain,size,distinct,start,named,shallow⟩ := ih
    refine ⟨a::chain,by simp [size],List.nodup_cons.mpr ⟨?_,distinct⟩,List.mem_cons_self,?_,?_⟩
    · intro member
      obtain ⟨m,bounded,rooted⟩ := shallow a member
      have := rooted.unique (.child a b n below rest)
      omega
    · intro c member
      rcases List.mem_cons.mp member with rfl | member
      · exact .inl rfl
      · rcases named c member with rfl | higher
        · exact .inr ⟨a,below⟩
        · exact .inr higher
    · intro c member
      rcases List.mem_cons.mp member with rfl | member
      · exact ⟨n+1,Nat.le_refl _,.child c b n below rest⟩
      · obtain ⟨m,bounded,rooted⟩ := shallow c member
        exact ⟨m,by omega,rooted⟩

theorem Rooted.depth_lt {a : α} {n : Nat} {nodes : List α} (rooted : Rooted parent a n) (known : a ∈ nodes)
    (closed : ∀ b c, parent b = some c → c ∈ nodes) : n < nodes.length := by
  obtain ⟨chain,size,distinct,_,named⟩ := rooted.chain
  have part : chain ⊆ nodes := by
    intro b member
    rcases named b member with rfl | ⟨c,below⟩
    · exact known
    · exact closed c b below
  have := (distinct.subperm part).length_le
  omega

/-! Cycles. -/

/-- One node is the parent of another. -/
def Above (parent : α → Option α) (a b : α) : Prop := parent a = some b

theorem Rooted.above {a b : α} {n : Nat} (rooted : Rooted parent a n) (path : Relation.TransGen (Above parent) a b) :
    ∃ m < n, Rooted parent b m := by
  induction path with
  | single step =>
    cases rooted with
    | root _ top => simp [Above,top] at step
    | child _ b' m below rest =>
      rw [Above,below] at step
      cases step
      exact ⟨m,Nat.lt_succ_self m,rest⟩
  | tail _ step ih =>
    obtain ⟨m,less,rooted'⟩ := ih
    cases rooted' with
    | root _ top => simp [Above,top] at step
    | child _ b' k below rest =>
      rw [Above,below] at step
      cases step
      exact ⟨k,by omega,rest⟩

theorem Rooted.acyclic {a : α} {n : Nat} (rooted : Rooted parent a n) : ¬Relation.TransGen (Above parent) a a := by
  intro cycle
  obtain ⟨m,less,rooted'⟩ := rooted.above cycle
  have same := rooted.unique rooted'
  omega

/-- The walk over the parents from a node behind others that were seen, as a loop runs it: it ends where there is no
parent, or at a node that was seen. -/
inductive Walk (parent : α → Option α) : List α → α → Option α → Prop
  | repeats (seen current) (known : current ∈ seen) : Walk parent seen current (some current)
  | ends (seen current) (fresh : current ∉ seen) (top : parent current = none) : Walk parent seen current none
  | steps (seen current up result) (fresh : current ∉ seen) (below : parent current = some up)
      (rest : Walk parent (current::seen) up result) : Walk parent seen current result

theorem Walk.rooted {seen : List α} {current : α} {result : Option α} (walk : Walk parent seen current result)
    (top : result = none) : ∃ n, Rooted parent current n := by
  induction walk with
  | repeats => cases top
  | ends _ current _ none => exact ⟨0,.root current none⟩
  | steps _ current up _ _ below _ ih =>
    obtain ⟨n,rooted⟩ := ih top
    exact ⟨n+1,.child current up n below rooted⟩

theorem Walk.cycle {seen : List α} {current a : α} {result : Option α} (walk : Walk parent seen current result)
    (behind : ∀ b ∈ seen, Relation.TransGen (Above parent) b current) (found : result = some a) :
    Relation.TransGen (Above parent) a a := by
  induction walk with
  | repeats _ current known =>
    cases found
    exact behind _ known
  | ends => cases found
  | steps _ current up _ _ below _ ih =>
    apply ih _ found
    intro b member
    rcases List.mem_cons.mp member with rfl | earlier
    · exact .single below
    · exact (behind b earlier).tail below

end Forest
end ATape.Foundation
