import Mathlib.Algebra.Order.Ring.Int
import Mathlib.Data.List.Lex
import Mathlib.Data.List.Sort
import Mathlib.Data.Prod.Lex
import Mathlib.Tactic.Ring

/-! Rows of a table in the order of a key, read one at a time from above the key of the one
before. Rows of the same key keep their places. -/
namespace ATape.Foundation
variable {α κ : Type} [LinearOrder κ] (key : α → κ)

/-- The rows by their keys. -/
def ordered (rows : List α) : List α := rows.insertionSort fun a b => key a ≤ key b

/-- The rows above a key. -/
def above (cursor : κ) (rows : List α) : List α := ordered key (rows.filter fun a => cursor < key a)

theorem mem_ordered {rows : List α} {a : α} : a ∈ ordered key rows ↔ a ∈ rows := List.mem_insertionSort _

theorem ordered_perm (rows : List α) : (ordered key rows).Perm rows := List.perm_insertionSort _ _

theorem ordered_pairwise (rows : List α) : (ordered key rows).Pairwise fun a b => key a ≤ key b := by
  have total : Std.Total fun a b : α => key a ≤ key b := ⟨fun a b => le_total (key a) (key b)⟩
  have transitive : IsTrans α fun a b => key a ≤ key b := ⟨fun _ _ _ => le_trans⟩
  exact List.pairwise_insertionSort _ rows

theorem filter_orderedInsert (p : α → Bool) (a : α) {rows : List α} (sorted : rows.Pairwise fun a b => key a ≤ key b) :
    (rows.orderedInsert (fun a b => key a ≤ key b) a).filter p =
      if p a then (rows.filter p).orderedInsert (fun a b => key a ≤ key b) a else rows.filter p := by
  induction rows with
  | nil => cases chosen : p a <;> simp [chosen]
  | cons b rows ih =>
    obtain ⟨least,sorted⟩ := List.pairwise_cons.mp sorted
    rw [List.orderedInsert]
    split
    next before =>
      rw [List.filter_cons]
      split
      next chosen =>
        cases rest : (b::rows).filter p with
        | nil => rfl
        | cons c others =>
          have inside : c ∈ b::rows := List.mem_of_mem_filter (rest ▸ List.mem_cons_self)
          have below : key a ≤ key c := by
            rcases List.mem_cons.mp inside with rfl | later
            · exact before
            · exact before.trans (least c later)
          rw [List.orderedInsert,if_pos below]
      next => rfl
    next behind =>
      rw [List.filter_cons,ih sorted,List.filter_cons]
      by_cases chosen : p b = true
      · rw [if_pos chosen,if_pos chosen]
        split
        next => rw [List.orderedInsert,if_neg behind]
        next => rfl
      · rw [if_neg chosen,if_neg chosen]

theorem filter_ordered (p : α → Bool) (rows : List α) : (ordered key rows).filter p = ordered key (rows.filter p) := by
  induction rows with
  | nil => rfl
  | cons a rows ih =>
    have inserted : ordered key (a::rows) = (ordered key rows).orderedInsert (fun a b => key a ≤ key b) a := rfl
    rw [inserted,filter_orderedInsert key p a (ordered_pairwise key rows),ih,List.filter_cons]
    split <;> rfl

theorem mem_above {cursor : κ} {rows : List α} {a : α} : a ∈ above key cursor rows ↔ a ∈ rows ∧ cursor < key a := by
  rw [above,mem_ordered,List.mem_filter,decide_eq_true_iff]

theorem above_cons {cursor : κ} {rows rest : List α} {a : α} (first : above key cursor rows = a::rest)
    (alone : ∀ b ∈ rest, key b ≠ key a) : above key (key a) rows = rest := by
  have inside : cursor < key a := ((mem_above key).mp (first ▸ List.mem_cons_self)).2
  have sorted : (a::rest).Pairwise fun a b => key a ≤ key b := first ▸ ordered_pairwise key _
  have later : ∀ b ∈ rest, key a < key b :=
    fun b member => lt_of_le_of_ne ((List.pairwise_cons.mp sorted).1 b member) (alone b member).symm
  have same : rows.filter (fun b => key a < key b) =
      (rows.filter fun b => cursor < key b).filter fun b => key a < key b := by
    rw [List.filter_filter]
    refine List.filter_congr fun b _ => ?_
    simpa using fun behind => inside.trans behind
  have cut : above key (key a) rows = (above key cursor rows).filter fun b => key a < key b := by
    rw [above,same,← filter_ordered]
    rfl
  rw [cut,first,List.filter_cons,if_neg (by simp)]
  exact List.filter_eq_self.mpr fun b member => decide_eq_true (later b member)

theorem above_all {cursor : κ} {rows : List α} (all : ∀ a ∈ rows, cursor < key a) : above key cursor rows = ordered key rows := by
  rw [above,List.filter_eq_self.mpr fun a member => decide_eq_true (all a member)]

theorem above_split {rows before after : List α} {a : α} (whole : ordered key rows = before++a::after)
    (distinct : (rows.map key).Nodup) : above key (key a) rows = after := by
  have sorted := ordered_pairwise key rows
  have apart := ((ordered_perm key rows).map key).nodup_iff.mpr distinct
  have cut : above key (key a) rows = (ordered key rows).filter fun b => key a < key b :=
    (filter_ordered key (fun b => decide (key a < key b)) rows).symm
  rw [whole] at sorted apart cut
  rw [cut,List.filter_append,List.filter_cons,if_neg (by simp)]
  obtain ⟨-,later,less⟩ := List.pairwise_append.mp sorted
  have none_ : before.filter (fun b => key a < key b) = [] := by
    apply List.filter_eq_nil_iff.mpr
    intro b member behind
    exact not_lt.mpr (less b member a List.mem_cons_self) (of_decide_eq_true behind)
  have all : after.filter (fun b => key a < key b) = after := by
    apply List.filter_eq_self.mpr
    intro b member
    apply decide_eq_true
    apply lt_of_le_of_ne ((List.pairwise_cons.mp later).1 b member)
    intro same
    rw [List.map_append,List.map_cons] at apart
    have fresh := (List.nodup_cons.mp (List.nodup_append.mp apart).2.1).1
    exact fresh (same ▸ List.mem_map_of_mem member)
  rw [none_,all,List.nil_append]

theorem ordered_eq {rows : List α} (sorted : rows.Pairwise fun a b => key a ≤ key b) : ordered key rows = rows := by
  have total : Std.Total fun a b : α => key a ≤ key b := ⟨fun a b => le_total (key a) (key b)⟩
  have transitive : IsTrans α fun a b => key a ≤ key b := ⟨fun _ _ _ => le_trans⟩
  exact List.Pairwise.insertionSort_eq sorted

theorem length_above (cursor : κ) (rows : List α) : (above key cursor rows).length ≤ rows.length := by
  rw [above,(ordered_perm key _).length_eq]
  exact List.length_filter_le _ _

theorem above_complete {cursor : κ} {rows : List α} (all : (above key cursor rows).length = rows.length) :
    ∀ a ∈ rows, cursor < key a := by
  rw [above,(ordered_perm key _).length_eq] at all
  exact fun a member => of_decide_eq_true (List.length_filter_eq_length_iff.mp all a member)

end ATape.Foundation
