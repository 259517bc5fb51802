import ATape.Go.Time
import Mathlib.Data.List.GetD

/-! The intervals of an activity: from the first recorded instant to the last in up to sixty parts,
with bounds of whole nanoseconds. -/
namespace ATape.Go

/-- Seconds from the first of January of the year one to that of 1970. -/
def unixSeconds : ℤ := 62135596800

namespace Time

/-- `t.Before(u)` -/
def before (t u : Time) : Bool := t.nanos < u.nanos

/-- `t.Unix()`, which rounds down. -/
def unix (t : Time) : ℤ := t.nanos/secondNanos-unixSeconds

def nanosecond (t : Time) : ℤ := t.nanos%secondNanos

end Time

/-- `time.Unix(seconds, nanos)`; nanoseconds may be negative. -/
def unixTime (seconds nanos : ℤ) : Time := ⟨(seconds+unixSeconds)*secondNanos+nanos,0⟩

end ATape.Go

namespace ATape.SessionAnalytics
open Go

def epochNanos (at_ : Time) : ℤ := at_.unix*1000000000+at_.nanosecond

/-- The quotient of `big.Int.QuoRem` is truncated. -/
def nanosTime (value : ℤ) : Time := unixTime (value.tdiv 1000000000) (value.tmod 1000000000)

def bucketCount (span : ℤ) : ℕ :=
  if span > 0 then if span < 60 then span.toNat else 60
  else 1

/-- The bounds of the buckets, each with the instant at which the next one begins. -/
def boundaries (first last : Time) : List Time :=
  let span := epochNanos last-epochNanos first
  (List.range (bucketCount span+1)).map fun index : ℕ =>
    nanosTime (epochNanos first+(span*index).tdiv (bucketCount span))

def bucketOf (bounds : List Time) (at_ : Time) : ℕ :=
  ((List.range (bounds.length-1)).find? fun index => at_.before (bounds.getD (index+1) .zero)).getD (bounds.length-1-1)

def within (bounds : List Time) (index : ℕ) (at_ : Time) : Bool :=
  !at_.before (bounds.getD index .zero) && (at_.before (bounds.getD (index+1) .zero) ||
    decide (index+1 = bounds.length-1) && at_.equal (bounds.getD (index+1) .zero))

theorem nanosTime_nanos (value : ℤ) : (nanosTime value).nanos = value+unixSeconds*1000000000 := by
  have whole := Int.mul_tdiv_add_tmod value 1000000000
  simp only [nanosTime,unixTime,secondNanos]
  rw [Int.add_mul]
  omega

theorem epochNanos_nanos (t : Time) : epochNanos t = t.nanos-unixSeconds*1000000000 := by
  simp only [epochNanos,Time.unix,Time.nanosecond,secondNanos]
  omega

section Bounds
variable {first last : Time}

theorem boundaries_length : (boundaries first last).length = bucketCount (last.nanos-first.nanos)+1 := by
  have span : epochNanos last-epochNanos first = last.nanos-first.nanos := by
    rw [epochNanos_nanos,epochNanos_nanos]
    omega
  simp [boundaries,span]

theorem bucketCount_pos (span : ℤ) : 0 < bucketCount span := by
  unfold bucketCount
  split
  next positive =>
    split
    · omega
    · omega
  next => omega

theorem boundary_nanos (ordered : first.nanos ≤ last.nanos) {index : ℕ}
    (inside : index ≤ bucketCount (last.nanos-first.nanos)) : ((boundaries first last).getD index .zero).nanos =
      first.nanos+(last.nanos-first.nanos)*index/(bucketCount (last.nanos-first.nanos)) := by
  have span : epochNanos last-epochNanos first = last.nanos-first.nanos := by
    rw [epochNanos_nanos,epochNanos_nanos]
    omega
  have product : 0 ≤ (last.nanos-first.nanos)*index := Int.mul_nonneg (by omega) (Int.natCast_nonneg index)
  have length := @boundaries_length first last
  rw [List.getD_eq_getElem _ _ (by omega)]
  simp only [boundaries,List.getElem_map,List.getElem_range,span]
  rw [nanosTime_nanos,epochNanos_nanos,Int.tdiv_eq_ediv_of_nonneg product]
  omega

theorem boundary_first (ordered : first.nanos ≤ last.nanos) : ((boundaries first last).getD 0 .zero).nanos = first.nanos := by
  rw [boundary_nanos ordered (Nat.zero_le _)]
  simp

theorem boundary_last (ordered : first.nanos ≤ last.nanos) :
    ((boundaries first last).getD (bucketCount (last.nanos-first.nanos)) .zero).nanos = last.nanos := by
  have some_ : (bucketCount (last.nanos-first.nanos) : ℤ) ≠ 0 := by
    have positive := bucketCount_pos (last.nanos-first.nanos)
    omega
  rw [boundary_nanos ordered (Nat.le_refl _),Int.mul_ediv_cancel _ some_]
  omega

theorem boundary_lt (apart : first.nanos < last.nanos) {index : ℕ}
    (inside : index < bucketCount (last.nanos-first.nanos)) :
    ((boundaries first last).getD index .zero).nanos < ((boundaries first last).getD (index+1) .zero).nanos := by
  have positive : (0 : ℤ) < bucketCount (last.nanos-first.nanos) := by
    have positive := bucketCount_pos (last.nanos-first.nanos)
    omega
  have enough : (bucketCount (last.nanos-first.nanos) : ℤ) ≤ last.nanos-first.nanos := by
    unfold bucketCount
    split
    · split
      · omega
      · omega
    · omega
  rw [boundary_nanos apart.le inside.le,boundary_nanos apart.le (Nat.succ_le_of_lt inside)]
  rw [Nat.succ_eq_add_one]
  have step : (last.nanos-first.nanos)*index/bucketCount (last.nanos-first.nanos)+1 ≤
      (last.nanos-first.nanos)*((index+1 : ℕ) : ℤ)/bucketCount (last.nanos-first.nanos) := by
    rw [← Int.add_mul_ediv_right _ 1 positive.ne']
    apply Int.ediv_le_ediv positive
    push_cast
    rw [Int.mul_add]
    omega
  omega

theorem boundary_mono (ordered : first.nanos ≤ last.nanos) {i j : ℕ} (le : i ≤ j)
    (inside : j ≤ bucketCount (last.nanos-first.nanos)) :
    ((boundaries first last).getD i .zero).nanos ≤ ((boundaries first last).getD j .zero).nanos := by
  have positive : (0 : ℤ) < bucketCount (last.nanos-first.nanos) := by
    have positive := bucketCount_pos (last.nanos-first.nanos)
    omega
  rw [boundary_nanos ordered (le.trans inside),boundary_nanos ordered inside]
  have product : (last.nanos-first.nanos)*i ≤ (last.nanos-first.nanos)*j :=
    Int.mul_le_mul_of_nonneg_left (Int.ofNat_le.mpr le) (by omega)
  have quotient := Int.ediv_le_ediv positive product
  omega

theorem bucketOf_within (ordered : first.nanos ≤ last.nanos) {at_ : Time} (early : first.nanos ≤ at_.nanos)
    (late : at_.nanos ≤ last.nanos) {index : ℕ} (inside : index < bucketCount (last.nanos-first.nanos)) :
    bucketOf (boundaries first last) at_ = index ↔ within (boundaries first last) index at_ = true := by
  have positive := bucketCount_pos (last.nanos-first.nanos)
  have begin_ := boundary_first ordered
  have end_ := boundary_last ordered
  unfold bucketOf within
  rw [boundaries_length,Nat.add_sub_cancel]
  simp only [Bool.and_eq_true,Bool.or_eq_true,Bool.not_eq_true',decide_eq_true_eq,Time.before,Time.equal,
    decide_eq_false_iff_not,Int.not_lt]
  cases found : (List.range (bucketCount (last.nanos-first.nanos))).find? fun index =>
      decide (at_.nanos < ((boundaries first last).getD (index+1) .zero).nanos) with
  | none =>
    have none_ := List.find?_eq_none.mp found
    have past : ∀ i < bucketCount (last.nanos-first.nanos),
        ((boundaries first last).getD (i+1) .zero).nanos ≤ at_.nanos := by
      intro i member
      simpa using none_ i (List.mem_range.mpr member)
    have final := past (bucketCount (last.nanos-first.nanos)-1) (by omega)
    rw [Nat.sub_add_cancel positive,end_] at final
    rw [Option.getD_none]
    constructor
    · rintro rfl
      have low := boundary_mono ordered (Nat.sub_le (bucketCount (last.nanos-first.nanos)) 1) (Nat.le_refl _)
      rw [Nat.sub_add_cancel positive,end_]
      rw [end_] at low
      exact ⟨by omega,.inr ⟨rfl,by omega⟩⟩
    · rintro ⟨-,before|⟨same,-⟩⟩
      · have behind := past index inside
        omega
      · omega
  | some i =>
    obtain ⟨before,member,earlier⟩ := List.find?_range_eq_some.mp found
    rw [Option.getD_some]
    simp only [decide_eq_true_eq,Bool.not_eq_true',decide_eq_false_iff_not,Int.not_lt] at before earlier
    have small := List.mem_range.mp member
    have low : ((boundaries first last).getD i .zero).nanos ≤ at_.nanos := by
      cases i with
      | zero => omega
      | succ i => exact earlier i (Nat.lt_succ_self i)
    constructor
    · rintro rfl
      exact ⟨low,.inl before⟩
    · rintro ⟨begun,ends⟩
      rcases Nat.lt_trichotomy i index with less|same|more
      · have following : i+1 ≤ index := less
        have up := boundary_mono ordered following inside.le
        omega
      · exact same
      · have passed := earlier index more
        rcases ends with before'|⟨last_,-⟩
        · omega
        · omega

theorem bucketOf_lt (at_ : Time) :
    bucketOf (boundaries first last) at_ < bucketCount (last.nanos-first.nanos) := by
  have positive := bucketCount_pos (last.nanos-first.nanos)
  unfold bucketOf
  rw [boundaries_length,Nat.add_sub_cancel]
  cases found : (List.range (bucketCount (last.nanos-first.nanos))).find? fun index =>
      at_.before ((boundaries first last).getD (index+1) .zero) with
  | none =>
    rw [Option.getD_none]
    omega
  | some i => exact List.mem_range.mp (List.mem_of_find?_eq_some found)

end Bounds
end ATape.SessionAnalytics
