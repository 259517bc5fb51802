import Mathlib.Algebra.BigOperators.Group.List.Basic
import Mathlib.Algebra.Order.Ring.Int
import Mathlib.Data.List.Sort
import Mathlib.Data.List.TakeWhile
import Mathlib.Data.Prod.Lex
import Mathlib.Tactic.Ring

/-! Segments that follow one another without gap or overlap. Each place is in one of
them, and those that meet an interval are neighbours. -/
namespace ATape.Foundation.Segments
variable {α : Type} (offset : α → Int) (size : α → Nat)

def length (segments : List α) : Nat := (segments.map size).sum

/-- Each segment begins where the one before it ends. -/
def Tiled : Int → List α → Prop
  | _,[] => True
  | place,s::rest => offset s = place ∧ Tiled (place+size s) rest

def Holds (place : Int) (s : α) : Prop := offset s ≤ place ∧ place < offset s+size s

/-- Whether a segment begins before the end of an interval and ends after its start. -/
def meets (low high : Int) (s : α) : Bool := offset s < high && low < offset s+size s

variable {offset size}

@[simp] theorem length_nil : length size ([] : List α) = 0 := rfl

@[simp] theorem length_cons (s : α) (rest : List α) : length size (s::rest) = size s+length size rest := by
  simp [length]

@[simp] theorem length_append (front back : List α) :
    length size (front++back) = length size front+length size back := by
  simp [length]

theorem tiled_append {place : Int} {front back : List α} :
    Tiled offset size place (front++back) ↔
      Tiled offset size place front ∧ Tiled offset size (place+length size front) back := by
  induction front generalizing place with
  | nil => simp [Tiled]
  | cons s front ih =>
    rw [List.cons_append,Tiled,Tiled,ih,length_cons,and_assoc]
    push_cast
    rw [Int.add_assoc]

theorem Tiled.within {place : Int} {segments : List α} (tiled : Tiled offset size place segments) {s : α}
    (member : s ∈ segments) : place ≤ offset s ∧ offset s+size s ≤ place+length size segments := by
  induction segments generalizing place with
  | nil => cases member
  | cons first rest ih =>
    obtain ⟨here,after⟩ := tiled
    rw [length_cons]
    rcases List.mem_cons.mp member with rfl | later
    · push_cast
      omega
    · have bounds := ih after later
      push_cast
      omega

theorem Tiled.holds {start place : Int} {segments : List α} (tiled : Tiled offset size start segments)
    (low : start ≤ place) (high : place < start+length size segments) :
    ∃! s, s ∈ segments ∧ Holds offset size place s := by
  induction segments generalizing start with
  | nil =>
    rw [length_nil] at high
    omega
  | cons first rest ih =>
    obtain ⟨here,after⟩ := tiled
    by_cases inside : place < start+size first
    · refine ⟨first,⟨List.mem_cons_self,by rw [here]; exact low,by rw [here]; exact inside⟩,?_⟩
      rintro other ⟨member,starts,_⟩
      rcases List.mem_cons.mp member with same | later
      · exact same
      · have bounds := after.within later
        omega
    · rw [length_cons] at high
      push_cast at high
      obtain ⟨s,⟨member,holds⟩,unique⟩ := ih after (by omega) (by omega)
      refine ⟨s,⟨List.mem_cons_of_mem _ member,holds⟩,?_⟩
      rintro other ⟨member',holds'⟩
      rcases List.mem_cons.mp member' with same | later
      · have ends : place < start+size first := by
          rw [← here,← same]
          exact holds'.2
        omega
      · exact unique other ⟨later,holds'⟩

theorem meets_of_holds {low high place : Int} {s : α} (above : low ≤ place) (below : place < high)
    (holds : Holds offset size place s) : meets offset size low high s = true := by
  obtain ⟨starts,ends⟩ := holds
  simp only [meets,Bool.and_eq_true,decide_eq_true_eq]
  omega

theorem Tiled.front {place low high : Int} {segments : List α} (tiled : Tiled offset size place segments)
    (late : low < place) : ∃ limit, segments.take limit = segments.filter (meets offset size low high) := by
  induction segments generalizing place with
  | nil => exact ⟨0,rfl⟩
  | cons first rest ih =>
    by_cases hit : place < high
    · obtain ⟨limit,run⟩ := ih tiled.2 (by omega)
      have here : meets offset size low high first = true := by
        simp only [meets,tiled.1,Bool.and_eq_true,decide_eq_true_eq]
        omega
      exact ⟨limit+1,by rw [List.take_succ_cons,run,List.filter_cons_of_pos here]⟩
    · refine ⟨0,(List.filter_eq_nil_iff.mpr ?_).symm⟩
      intro s member
      have bounds := tiled.within member
      simp only [meets,Bool.and_eq_true,decide_eq_true_eq]
      omega

theorem Tiled.meeting {place : Int} {segments : List α} (tiled : Tiled offset size place segments) (low high : Int) :
    ∃ after limit, (segments.drop after).take limit = segments.filter (meets offset size low high) := by
  induction segments generalizing place with
  | nil => exact ⟨0,0,rfl⟩
  | cons first rest ih =>
    by_cases hit : meets offset size low high first = true
    · have reached : low < place+size first := by
        simp only [meets,tiled.1,Bool.and_eq_true,decide_eq_true_eq] at hit
        exact hit.2
      obtain ⟨limit,run⟩ := @Tiled.front _ _ _ _ _ high _ tiled.2 reached
      exact ⟨0,limit+1,by rw [List.drop_zero,List.take_succ_cons,run,List.filter_cons_of_pos hit]⟩
    · obtain ⟨after,limit,run⟩ := ih tiled.2
      exact ⟨after+1,limit,by rw [List.drop_succ_cons,run,List.filter_cons_of_neg hit]⟩

end ATape.Foundation.Segments
