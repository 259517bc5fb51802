import ATape.Foundation.Keyset
import Mathlib.Data.List.Induction

/-! The first rows of a table by a key, kept while the rows are gone through one at a time. -/
namespace ATape.Foundation
variable {α κ : Type} [LinearOrder κ] (key : α → κ)

theorem ordered_unique {rows sorted : List α} (perm : sorted.Perm rows) (order : sorted.Pairwise fun a b => key a ≤ key b)
    (distinct : (rows.map key).Nodup) : ordered key rows = sorted := by
  refine List.Perm.eq_of_pairwise ?_ (ordered_pairwise key rows) order ((ordered_perm key rows).trans perm.symm)
  intro a b member member' first second
  exact List.inj_on_of_nodup_map distinct ((mem_ordered key).mp member) (perm.mem_iff.mp member') (le_antisymm first second)

theorem ordered_rising {rows : List α} (distinct : (rows.map key).Nodup) :
    (ordered key rows).Pairwise fun a b => key a < key b := by
  have apart := ((ordered_perm key rows).map key).nodup_iff.mpr distinct
  apply ((ordered_pairwise key rows).and (List.pairwise_map.mp apart)).imp
  intro a b both
  exact lt_of_le_of_ne both.1 both.2

theorem orderedInsert_take (a : α) (rows : List α) (n : ℕ) :
    ((rows.take n).orderedInsert (fun a b => key a ≤ key b) a).take n =
      (rows.orderedInsert (fun a b => key a ≤ key b) a).take n := by
  induction rows generalizing n with
  | nil => rw [List.take_nil]
  | cons b rows ih =>
    cases n with
    | zero => rfl
    | succ n =>
      rw [List.take_succ_cons,List.orderedInsert,List.orderedInsert]
      split
      next =>
        rw [List.take_succ_cons,List.take_succ_cons]
        cases n with
        | zero => rfl
        | succ n => rw [List.take_succ_cons,List.take_succ_cons,List.take_take,min_eq_left (Nat.le_succ n)]
      next => rw [List.take_succ_cons,List.take_succ_cons,ih]

/-- Keeps the first rows of those before and one more. -/
def keepLeading (n : ℕ) (rows : List α) (a : α) : List α := (ordered key (rows++[a])).take n

theorem foldl_keepLeading (n : ℕ) (rows : List α) (distinct : (rows.map key).Nodup) :
    rows.foldl (keepLeading key n) [] = (ordered key rows).take n := by
  induction rows using List.reverseRecOn with
  | nil => exact List.take_nil.symm
  | append_singleton rows a ih =>
    have distinct_ : (rows.map key).Nodup := by
      rw [List.map_append] at distinct
      exact (List.nodup_append.mp distinct).1
    have insert_ : ∀ {front : List α}, front.Sublist (ordered key rows) → ordered key (front++[a]) =
        front.orderedInsert (fun a b => key a ≤ key b) a := by
      intro front part
      apply ordered_unique
      · exact (List.perm_orderedInsert _ _ _).trans (List.perm_append_singleton a front).symm
      · have sorted := (ordered_pairwise key rows).sublist part
        have total : Std.Total fun a b : α => key a ≤ key b := ⟨fun a b => le_total (key a) (key b)⟩
        have transitive : IsTrans α fun a b => key a ≤ key b := ⟨fun _ _ _ => le_trans⟩
        exact List.Pairwise.orderedInsert a front sorted
      · have whole : ((ordered key rows++[a]).map key).Nodup :=
          (((ordered_perm key rows).append_right [a]).map key).nodup_iff.mpr distinct
        exact whole.sublist ((part.append (List.Sublist.refl [a])).map key)
    have all : ordered key (rows++[a]) = ordered key (ordered key rows++[a]) := by
      rw [insert_ (List.Sublist.refl _)]
      apply ordered_unique
      · exact (List.perm_orderedInsert _ _ _).trans
          ((((ordered_perm key rows).cons a).trans (List.perm_append_singleton a rows).symm))
      · have total : Std.Total fun a b : α => key a ≤ key b := ⟨fun a b => le_total (key a) (key b)⟩
        have transitive : IsTrans α fun a b => key a ≤ key b := ⟨fun _ _ _ => le_trans⟩
        exact List.Pairwise.orderedInsert a _ (ordered_pairwise key rows)
      · exact distinct
    rw [List.foldl_append,ih distinct_,List.foldl_cons,List.foldl_nil,keepLeading,all,insert_ (List.take_sublist _ _),
      insert_ (List.Sublist.refl _),orderedInsert_take]

theorem mem_front {front rest : List α} {last a : α} (rising : (front++[last]++rest).Pairwise fun a b => key a < key b)
    (member : a ∈ front++[last]++rest) (low : key a ≤ key last) : a ∈ front++[last] := by
  cases List.mem_append.mp member with
  | inl inside => exact inside
  | inr behind =>
    have above_ := (List.pairwise_append.mp rising).2.2 last (List.mem_append_right _ (List.mem_singleton_self _)) a behind
    exact absurd low (not_le.mpr above_)

end ATape.Foundation
