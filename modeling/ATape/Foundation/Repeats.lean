import Mathlib.Algebra.Order.Ring.Int
import Mathlib.Data.List.Induction
import Mathlib.Data.List.Sort
import Mathlib.Data.Prod.Lex
import Mathlib.Tactic.Ring

/-! Lists without the elements that repeat an earlier one, and lists in which the elements
of a key follow each other, all but the first of them marked. -/
namespace ATape.Foundation
variable {α κ : Type}

/-- The elements that repeat no earlier one. -/
def firsts (same : α → α → Bool) : List α → List α
  | [] => []
  | a::as => a::(firsts same as).filter fun b => !same a b

theorem firsts_append_singleton (same : α → α → Bool) (as : List α) (b : α) :
    firsts same (as++[b]) = firsts same as++(if as.any (same · b) then [] else [b]) := by
  induction as with
  | nil => rfl
  | cons a as ih =>
    rw [List.cons_append,firsts,ih,firsts,List.filter_append,List.any_cons,List.cons_append]
    by_cases equal : same a b = true
    · cases as.any (same · b) <;> simp [equal]
    · cases as.any (same · b) <;> simp [equal]

theorem firsts_sublist (same : α → α → Bool) (as : List α) : (firsts same as).Sublist as := by
  induction as with
  | nil => exact .slnil
  | cons a as ih => exact .cons_cons a (List.filter_sublist.trans ih)

/-- A marked element has the key of the one before it, and another is the first of its key. -/
def Grouped (key : α → κ) (mark : α → Bool) (xs : List α) : Prop :=
  ∀ front x rest, xs = front++x::rest →
    if mark x then ∃ y, front.getLast? = some y ∧ key y = key x else ∀ y ∈ front, key y ≠ key x

section Grouped
variable {key : α → κ} {mark : α → Bool} {xs front siblings rest : List α} {first x : α}

theorem grouped_nil : Grouped key mark [] := by
  intro front x rest same
  simp at same

theorem Grouped.append_singleton (grouped : Grouped key mark xs)
    (last : if mark x then ∃ y, xs.getLast? = some y ∧ key y = key x else ∀ y ∈ xs, key y ≠ key x) :
    Grouped key mark (xs++[x]) := by
  intro front z rest same
  induction rest using List.reverseRecOn with
  | nil =>
    obtain ⟨rfl,rest⟩ := List.append_inj_left' same rfl,List.append_inj_right' same rfl
    cases rest
    exact last
  | append_singleton rest y _ =>
    have inside : xs = front++z::rest := by
      have same : xs++[x] = (front++z::rest)++[y] := by simpa using same
      exact List.append_inj_left' same rfl
    exact grouped front z rest inside

theorem Grouped.following (grouped : Grouped key mark (front++first::(siblings++rest)))
    (marked : ∀ y ∈ siblings, mark y = true) : ∀ y ∈ siblings, key y = key first := by
  induction siblings using List.reverseRecOn generalizing rest with
  | nil => exact nofun
  | append_singleton siblings x ih =>
    have earlier : ∀ y ∈ siblings, key y = key first := by
      have regrouped : Grouped key mark (front++first::(siblings++x::rest)) := by simpa using grouped
      exact ih regrouped fun y member => marked y (List.mem_append_left _ member)
    have own := grouped (front++first::siblings) x rest (by simp)
    rw [if_pos (marked x (by simp))] at own
    obtain ⟨y,before,same⟩ := own
    intro z member
    rcases List.mem_append.mp member with member | member
    · exact earlier z member
    · obtain rfl := List.mem_singleton.mp member
      rw [← same]
      have place : y ∈ first::siblings := by
        have last : (first::siblings).getLast? ≠ none := by simp
        rw [List.getLast?_append,Option.or_of_isSome (Option.isSome_iff_ne_none.mpr last)] at before
        exact List.mem_of_getLast? before
      rcases List.mem_cons.mp place with rfl | member
      · rfl
      · exact earlier y member

theorem Grouped.apart (grouped : Grouped key mark (front++first::(siblings++rest))) (fresh : mark first = false)
    (ends : ∀ y ∈ rest.head?, mark y = false) :
    (∀ y ∈ front, key y ≠ key first) ∧ ∀ y ∈ rest, key y ≠ key first := by
  refine ⟨?_,?_⟩
  · have own := grouped front first _ rfl
    rwa [if_neg (by simp [fresh])] at own
  · induction rest using List.reverseRecOn with
    | nil => exact nofun
    | append_singleton rest x ih =>
      have earlier : ∀ y ∈ rest, key y ≠ key first := by
        intro y member
        refine ih ?_ ?_ y member
        · intro front' z after same
          refine grouped front' z (after++[x]) ?_
          have split : front++first::(siblings++(rest++[x])) = front++first::(siblings++rest)++[x] := by simp
          rw [split,same]
          simp
        · cases rest with
          | nil => exact nofun
          | cons z rest => simpa using ends
      have own := grouped (front++first::(siblings++rest)) x [] (by simp)
      intro y member
      rcases List.mem_append.mp member with member | member
      · exact earlier y member
      · obtain rfl := List.mem_singleton.mp member
        cases rest using List.reverseRecOn with
        | nil =>
          have unmarked : mark y = false := ends y (by simp)
          rw [if_neg (by simp [unmarked])] at own
          exact (own first (by simp)).symm
        | append_singleton rest z =>
          split at own
          next =>
            obtain ⟨w,before,same⟩ := own
            have split : front++first::(siblings++(rest++[z])) = front++first::(siblings++rest)++[z] := by simp
            rw [split,List.getLast?_concat] at before
            cases before
            rw [← same]
            exact earlier z (by simp)
          next => exact (own first (by simp)).symm

end Grouped
end ATape.Foundation
