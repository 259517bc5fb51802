import Mathlib.Algebra.Order.Ring.Int
import Mathlib.Data.List.Sort
import Mathlib.Data.Prod.Lex
import Mathlib.Tactic.Ring

/-! Pages of what a list selects. A loop counts the selected values, keeps those of the page and stops
behind it. -/
namespace ATape.Foundation
variable {α β : Type}

/-- How many values were seen, which were kept, and whether there is more behind the page. -/
structure Page (β : Type) where
  matched : ℕ
  items : List β
  more : Bool

def pageFrom (select : α → Option β) (offset limit : ℕ) : ℕ → List β → List α → Page β
  | matched,items,[] => ⟨matched,items,false⟩
  | matched,items,a::as =>
    match select a with
    | none => pageFrom select offset limit matched items as
    | some b =>
      let items := if matched ≥ offset ∧ items.length < limit then items++[b] else items
      if matched+1 > offset+limit then ⟨matched+1,items,true⟩
      else pageFrom select offset limit (matched+1) items as

/-- The page of a list at an offset. -/
def pageAt (offset limit : ℕ) (chosen : List β) : Page β :=
  ⟨min chosen.length (offset+limit+1),(chosen.drop offset).take limit,decide (chosen.length > offset+limit)⟩

theorem pageAt_items_snoc (offset limit : ℕ) (seen : List β) (b : β) (small : seen.length ≤ offset+limit) :
    ((seen++[b]).drop offset).take limit =
      if seen.length ≥ offset ∧ ((seen.drop offset).take limit).length < limit
      then (seen.drop offset).take limit++[b] else (seen.drop offset).take limit := by
  have whole : (seen.drop offset).take limit = seen.drop offset := by
    apply List.take_of_length_le
    rw [List.length_drop]
    omega
  rw [whole,List.length_drop]
  by_cases inside : offset ≤ seen.length
  · rw [List.drop_append_of_le_length inside]
    by_cases room : seen.length-offset < limit
    · rw [if_pos ⟨inside,room⟩]
      apply List.take_of_length_le
      rw [List.length_append,List.length_drop,List.length_singleton]
      omega
    · rw [if_neg fun both => room both.2,List.take_append_of_le_length]
      · exact whole
      · rw [List.length_drop]
        omega
  · rw [if_neg fun both => inside both.1,List.drop_eq_nil_of_le,List.drop_eq_nil_of_le (by omega)]
    · exact List.take_nil
    · rw [List.length_append,List.length_singleton]
      omega

theorem pageFrom_seen (select : α → Option β) (offset limit : ℕ) (as : List α) (seen : List β)
    (small : seen.length ≤ offset+limit) :
    pageFrom select offset limit seen.length ((seen.drop offset).take limit) as =
      pageAt offset limit (seen++as.filterMap select) := by
  induction as generalizing seen with
  | nil =>
    have inside : ¬seen.length > offset+limit := by omega
    rw [pageFrom,List.filterMap_nil,List.append_nil,pageAt,min_eq_left (by omega),decide_eq_false inside]
  | cons a as ih =>
    unfold pageFrom
    cases chosen : select a with
    | none =>
      rw [List.filterMap_cons_none chosen]
      exact ih seen small
    | some b =>
      have next : seen++(a::as).filterMap select = (seen++[b])++as.filterMap select := by
        rw [List.filterMap_cons_some chosen,List.append_assoc,List.singleton_append]
      have size : (seen++[b]).length = seen.length+1 := by rw [List.length_append,List.length_singleton]
      dsimp only
      rw [next,← pageAt_items_snoc offset limit seen b small]
      split
      next full =>
        have longer : ((seen++[b])++as.filterMap select).length > offset+limit := by
          rw [List.length_append,size]
          omega
        have same : ((seen++[b]++as.filterMap select).drop offset).take limit = ((seen++[b]).drop offset).take limit := by
          rw [List.drop_append_of_le_length (by omega),List.take_append_of_le_length]
          rw [List.length_drop]
          omega
        rw [pageAt,min_eq_right (by omega),same,decide_eq_true longer]
        congr 1
        omega
      next room =>
        rw [← size]
        exact ih (seen++[b]) (by omega)

theorem pageFrom_eq (select : α → Option β) (offset limit : ℕ) (as : List α) :
    pageFrom select offset limit 0 [] as = pageAt offset limit (as.filterMap select) := by
  have loop := pageFrom_seen select offset limit as [] (Nat.zero_le _)
  rwa [List.drop_nil,List.take_nil,List.nil_append] at loop

theorem pageAt_rest (offset limit : ℕ) (chosen : List β) :
    (pageAt offset limit chosen).items++chosen.drop (offset+limit) = chosen.drop offset := by
  rw [pageAt,← List.drop_drop,List.take_append_drop]

theorem pageAt_last {offset limit : ℕ} {chosen : List β} (last : (pageAt offset limit chosen).more = false) :
    (pageAt offset limit chosen).items = chosen.drop offset := by
  have small : ¬chosen.length > offset+limit := of_decide_eq_false last
  apply List.take_of_length_le
  rw [List.length_drop]
  omega

end ATape.Foundation
