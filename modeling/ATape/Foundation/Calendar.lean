import Mathlib.Algebra.BigOperators.Group.List.Basic
import Mathlib.Algebra.Order.Ring.Int
import Mathlib.Data.List.Sort
import Mathlib.Data.Prod.Lex
import Mathlib.Tactic.Ring

/-! The proleptic Gregorian calendar: days counted from the first of January of
the year one, and their dates. Counting and dating undo each other. -/
namespace ATape.Foundation

/-- The segment of a row of lengths that holds a position, and the position
inside it. -/
def locate : List Nat → Nat → Nat × Nat
  | [],position => (0,position)
  | length::others,position =>
    if position < length then (0,position)
    else
      let (index,inside) := locate others (position-length)
      (index+1,inside)

theorem locate_spec (lengths : List Nat) (position : Nat) (covered : position < lengths.sum) :
    ∃ length, lengths[(locate lengths position).1]? = some length ∧
      (locate lengths position).2 < length ∧
      (lengths.take (locate lengths position).1).sum+(locate lengths position).2 = position := by
  induction lengths generalizing position with
  | nil => simp at covered
  | cons length others ih =>
    unfold locate
    split
    next within => exact ⟨length,by simp,by simpa using within,by simp⟩
    next beyond =>
      have rest : position-length < others.sum := by
        rw [List.sum_cons] at covered
        omega
      obtain ⟨found,segment,inside,total⟩ := ih (position-length) rest
      refine ⟨found,by simpa using segment,by simpa using inside,?_⟩
      simp only [List.take_succ_cons,List.sum_cons]
      omega

theorem locate_eq (lengths : List Nat) (index inside length : Nat) (segment : lengths[index]? = some length)
    (within : inside < length) : locate lengths ((lengths.take index).sum+inside) = (index,inside) := by
  induction lengths generalizing index with
  | nil => simp at segment
  | cons first others ih =>
    cases index with
    | zero =>
      simp only [List.getElem?_cons_zero,Option.some.injEq] at segment
      simp [locate,segment,within]
    | succ index =>
      have beyond : ¬first+(others.take index).sum+inside < first := by omega
      have rest : first+(others.take index).sum+inside-first = (others.take index).sum+inside := by omega
      simp only [List.take_succ_cons,List.sum_cons,locate,if_neg beyond,rest]
      rw [ih index (by simpa using segment)]

namespace Calendar

def isLeap (year : Int) : Bool := year%4 = 0 && (year%100 ≠ 0 || year%400 = 0)

/-- The days of all years before this one. -/
def daysBefore (year : Int) : Int := 365*(year-1)+(year-1)/4-(year-1)/100+(year-1)/400

def monthLengths (year : Int) : List Nat :=
  [31,if isLeap year then 29 else 28,31,30,31,30,31,31,30,31,30,31]

def yearLength (year : Int) : Nat := (monthLengths year).sum

theorem yearLength_eq (year : Int) : yearLength year = if isLeap year then 366 else 365 := by
  unfold yearLength monthLengths
  split <;> rfl

theorem daysBefore_succ (year : Int) : daysBefore (year+1) = daysBefore year+yearLength year := by
  rw [yearLength_eq]
  unfold daysBefore isLeap
  split
  next leap =>
    simp only [Bool.and_eq_true,Bool.or_eq_true,decide_eq_true_eq] at leap
    omega
  next common =>
    simp only [Bool.and_eq_true,Bool.or_eq_true,decide_eq_true_eq] at common
    omega

theorem daysBefore_mono {year later : Int} (ordered : year ≤ later) : daysBefore year ≤ daysBefore later := by
  unfold daysBefore
  omega

/-- The year of a day: an estimate from the mean length, which is off by at
most one. -/
def yearOf (day : Int) : Int :=
  let guess := 400*day/146097+1
  if day < daysBefore guess then guess-1
  else if daysBefore (guess+1) ≤ day then guess+1
  else guess

theorem yearOf_spec (day : Int) :
    daysBefore (yearOf day) ≤ day ∧ day < daysBefore (yearOf day+1) := by
  unfold yearOf
  simp only []
  split
  next early =>
    refine ⟨?_,by simpa using early⟩
    unfold daysBefore
    omega
  next =>
    split
    next late =>
      refine ⟨late,?_⟩
      unfold daysBefore
      omega
    next => exact ⟨by omega,by omega⟩

theorem yearOf_eq {day year : Int} (begun : daysBefore year ≤ day) (ended : day < daysBefore (year+1)) :
    yearOf day = year := by
  obtain ⟨begun',ended'⟩ := yearOf_spec day
  rcases lt_trichotomy (yearOf day) year with earlier | same | later
  · have := daysBefore_mono (show yearOf day+1 ≤ year by omega)
    omega
  · exact same
  · have := daysBefore_mono (show year+1 ≤ yearOf day by omega)
    omega

structure Date where
  year : Int
  month : Nat
  day : Nat
deriving DecidableEq

def daysIn (month : Nat) (year : Int) : Nat := (monthLengths year).getD (month-1) 0

theorem daysIn_le (month : Nat) (year : Int) : daysIn month year ≤ 31 := by
  have bounded : ∀ length ∈ monthLengths year, length ≤ 31 := by
    unfold monthLengths
    split <;> decide
  unfold daysIn
  rw [List.getD_eq_getElem?_getD]
  cases segment : (monthLengths year)[month-1]? with
  | none => simp
  | some length => exact bounded length (List.mem_of_getElem? segment)

namespace Date

structure Valid (d : Date) : Prop where
  month : 1 ≤ d.month ∧ d.month ≤ 12
  day : 1 ≤ d.day ∧ d.day ≤ daysIn d.month d.year

def days (d : Date) : Int :=
  daysBefore d.year+(((monthLengths d.year).take (d.month-1)).sum+(d.day-1) : Nat)

def ofDays (day : Int) : Date :=
  let year := yearOf day
  let (month,inside) := locate (monthLengths year) (day-daysBefore year).toNat
  ⟨year,month+1,inside+1⟩

theorem days_ofDays (day : Int) : (ofDays day).days = day := by
  obtain ⟨begun,ended⟩ := yearOf_spec day
  rw [daysBefore_succ] at ended
  obtain ⟨_,_,_,total⟩ := locate_spec (monthLengths (yearOf day)) (day-daysBefore (yearOf day)).toNat
    (by unfold yearLength at ended; omega)
  simp only [ofDays,days,Nat.add_sub_cancel]
  omega

theorem ofDays_valid (day : Int) : (ofDays day).Valid := by
  obtain ⟨begun,ended⟩ := yearOf_spec day
  rw [daysBefore_succ] at ended
  obtain ⟨length,segment,inside,_⟩ := locate_spec (monthLengths (yearOf day))
    (day-daysBefore (yearOf day)).toNat (by unfold yearLength at ended; omega)
  have twelve : (monthLengths (yearOf day)).length = 12 := rfl
  have bound := (List.getElem?_eq_some_iff.mp segment).1
  refine ⟨⟨?_,?_⟩,?_,?_⟩
  · simp [ofDays]
  · simp only [ofDays]
    omega
  · simp [ofDays]
  · simp only [ofDays,daysIn,Nat.add_sub_cancel,List.getD_eq_getElem?_getD,segment,Option.getD_some]
    omega

theorem ofDays_days (d : Date) (valid : d.Valid) : ofDays d.days = d := by
  obtain ⟨year,month,day⟩ := d
  obtain ⟨⟨first,last⟩,early,late⟩ := valid
  simp only at first last early late
  have twelve : (monthLengths year).length = 12 := rfl
  obtain ⟨length,segment⟩ : ∃ length, (monthLengths year)[month-1]? = some length :=
    ⟨_,List.getElem?_eq_getElem (by omega)⟩
  have size : day ≤ length := by
    simpa [daysIn,List.getD_eq_getElem?_getD,segment] using late
  have position := locate_eq (monthLengths year) (month-1) (day-1) length segment (by omega)
  have inYear : ((monthLengths year).take (month-1)).sum+(day-1) < yearLength year := by
    have upto : ((monthLengths year).take (month-1+1)).sum ≤ yearLength year := by
      have parts := List.sum_take_add_sum_drop (monthLengths year) (month-1+1)
      unfold yearLength
      omega
    rw [List.take_add_one,segment,Option.toList_some,List.sum_append,List.sum_singleton] at upto
    omega
  have found : yearOf (days ⟨year,month,day⟩) = year := by
    apply yearOf_eq
    · simp only [days]
      omega
    · rw [daysBefore_succ]
      simp only [days]
      omega
  have rest : (days ⟨year,month,day⟩-daysBefore year).toNat =
      ((monthLengths year).take (month-1)).sum+(day-1) := by
    simp only [days]
    omega
  simp only [ofDays,found,rest,position,Date.mk.injEq,true_and]
  omega

end Date
end Calendar
end ATape.Foundation
