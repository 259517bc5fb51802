import ATape.Foundation.Calendar
import ATape.Go.Text
import Mathlib.Data.List.TakeWhile
import Mathlib.Tactic.Ring

/-! Instants as package `time` keeps them, with the RFC 3339 texts it reads and
writes. A written time reads back as itself. -/
namespace ATape.Go
open Foundation Calendar

/-- Nanoseconds since the first of January of the year one in UTC, and the
zone's offset east of UTC in minutes. -/
structure Time where
  nanos : Int
  offset : Int
deriving DecidableEq

def secondNanos : Int := 1000000000

def minuteNanos : Int := 60*secondNanos

def dayNanos : Int := 1440*minuteNanos

namespace Time

/-- `time.Time{}` -/
def zero : Time := ⟨0,0⟩

def isZero (t : Time) : Bool := t.nanos = 0

/-- `t.Equal(u)` -/
def equal (t u : Time) : Bool := t.nanos = u.nanos

/-- `t.After(u)` -/
def after (t u : Time) : Bool := u.nanos < t.nanos

def utc (t : Time) : Time := ⟨t.nanos,0⟩

/-- `t.Truncate(time.Microsecond)`, which rounds down. -/
def truncateMicrosecond (t : Time) : Time := ⟨t.nanos/1000*1000,t.offset⟩

/-- The wall clock of the time's own zone. -/
def wall (t : Time) : Int := t.nanos+t.offset*minuteNanos

def date (t : Time) : Date := .ofDays (t.wall/dayNanos)

end Time

def padded : Nat → Nat → List Char
  | 0,_ => []
  | width+1,n => padded width (n/10)++[(n%10).digitChar]

def decimal (run : List Char) : Nat := Nat.ofDigitChars 10 run 0

/-- A fraction of a second, without trailing zeros. -/
def appendNano (nanos : Nat) : List Char :=
  if nanos = 0 then [] else '.' ::trimRight (fun c => c = '0') (padded 9 nanos)

def appendZone (offset : Int) : List Char :=
  if offset = 0 then ['Z']
  else (if offset < 0 then '-' else '+')::padded 2 (offset.natAbs/60)++ ':' ::padded 2 (offset.natAbs%60)

namespace Time

def formatRFC3339 (t : Time) : List Char :=
  let rest := (t.wall%dayNanos).toNat
  padded 4 t.date.year.toNat++ '-' ::padded 2 t.date.month++ '-' ::padded 2 t.date.day++
    'T' ::padded 2 (rest/3600000000000)++ ':' ::padded 2 (rest/60000000000%60)++
    ':' ::padded 2 (rest/1000000000%60)++appendNano (rest%1000000000)++appendZone t.offset

/-- RFC 3339 has years of four digits and zones of less than a day. -/
def Strict (t : Time) : Prop := 0 ≤ t.date.year ∧ t.date.year ≤ 9999 ∧ t.offset.natAbs < 1440

instance (t : Time) : Decidable t.Strict := inferInstanceAs (Decidable (_ ∧ _ ∧ _))

/-- `time.Time.MarshalJSON`, without the quotes. -/
def marshalText (t : Time) : Option String :=
  if t.Strict then some (String.ofList t.formatRFC3339) else none

end Time

/-- Up to two digits; a fixed field takes both. -/
def getnum (fixed : Bool) : List Char → Option (Nat × List Char)
  | [] => none
  | [a] => if a.isDigit && !fixed then some (decimal [a],[]) else none
  | a::b::rest =>
    if !a.isDigit then none
    else if b.isDigit then some (decimal [a,b],rest)
    else if fixed then none
    else some (decimal [a],b::rest)

def getyear : List Char → Option (Nat × List Char)
  | a::b::c::d::rest => if [a,b,c,d].all Char.isDigit then some (decimal [a,b,c,d],rest) else none
  | _ => none

def skipChar (c : Char) : List Char → Option (List Char)
  | x::rest => if x = c then some rest else none
  | [] => none

@[simp] theorem skipChar_cons (c : Char) (rest : List Char) : skipChar c (c::rest) = some rest := by
  simp [skipChar]

/-- An optional fraction after a period or a comma; digits beyond the ninth are
dropped. -/
def getnano (text : List Char) : Nat × List Char :=
  match text with
  | mark::rest =>
    let run := rest.takeWhile Char.isDigit
    if (mark = '.' || mark = ',') && run ≠ [] then
      (decimal (run.take 9)*10^(9-(run.take 9).length),rest.dropWhile Char.isDigit)
    else (0,text)
  | [] => (0,[])

def getzone : List Char → Option (Int × List Char)
  | 'Z' ::rest => some (0,rest)
  | mark::a::b:: ':' ::c::d::rest => do
    let (hours,_) ← getnum true [a,b]
    let (minutes,_) ← getnum true [c,d]
    if hours > 24 || minutes > 60 then none
    else if mark = '+' then some (hours*60+minutes,rest)
    else if mark = '-' then some (-(hours*60+minutes),rest)
    else none
  | _ => none

/-- `time.Parse(time.RFC3339Nano, value)`; its fast path for the strict form
accepts a part of what this accepts, with the same result. -/
def parseRFC3339 (value : String) : Option Time := do
  let (year,rest) ← getyear value.toList
  let (month,rest) ← getnum true (← skipChar '-' rest)
  let (day,rest) ← getnum true (← skipChar '-' rest)
  let (hour,rest) ← getnum false (← skipChar 'T' rest)
  let (minute,rest) ← getnum true (← skipChar ':' rest)
  let (second,rest) ← getnum true (← skipChar ':' rest)
  let (nano,rest) := getnano rest
  let (offset,rest) ← getzone rest
  if month < 1 || 12 < month || hour ≥ 24 || minute ≥ 60 || second ≥ 60 || rest ≠ [] ||
      day < 1 || daysIn month year < day then none
  else
    let seconds := (Date.days ⟨year,month,day⟩)*86400+hour*3600+minute*60+second
    some ⟨(seconds-offset*60)*secondNanos+nano,offset⟩

private theorem digitChar_isDigit : ∀ d < 10, d.digitChar.isDigit = true := by decide

theorem padded_length (width n : Nat) : (padded width n).length = width := by
  induction width generalizing n with
  | zero => rfl
  | succ width ih => simp [padded,ih]

theorem padded_isDigit (width n : Nat) : ∀ c ∈ padded width n, c.isDigit = true := by
  induction width generalizing n with
  | zero => simp [padded]
  | succ width ih =>
    intro c member
    rcases List.mem_append.mp member with upper | lower
    · exact ih _ c upper
    · rw [List.mem_singleton.mp lower]
      exact digitChar_isDigit _ (Nat.mod_lt _ (by decide))

theorem decimal_append (run : List Char) (d : Nat) (small : d < 10) :
    decimal (run++[d.digitChar]) = 10*decimal run+d := by
  unfold decimal
  rw [Nat.ofDigitChars_append,Nat.ofDigitChars_cons_digitChar_of_lt_ten small,Nat.ofDigitChars_nil]

theorem decimal_padded (width n : Nat) (small : n < 10^width) : decimal (padded width n) = n := by
  induction width generalizing n with
  | zero =>
    have : n = 0 := by simpa using small
    subst this
    rfl
  | succ width ih =>
    rw [padded,decimal_append _ _ (Nat.mod_lt _ (by decide)),ih (n/10) (by rw [pow_succ] at small; omega)]
    omega

theorem decimal_zeros (run : List Char) (k : Nat) :
    decimal (run++List.replicate k '0') = decimal run*10^k := by
  induction k with
  | zero => simp
  | succ k ih =>
    rw [List.replicate_succ',← List.append_assoc]
    have last := decimal_append (run++List.replicate k '0') 0 (by decide)
    rw [show (0:Nat).digitChar = '0' from rfl] at last
    rw [last,ih,pow_succ]
    ring

theorem getnum_padded (fixed : Bool) (n : Nat) (small : n < 100) (rest : List Char) :
    getnum fixed (padded 2 n++rest) = some (n,rest) := by
  have value := decimal_padded 2 n small
  have upper := digitChar_isDigit (n/10%10) (Nat.mod_lt _ (by decide))
  have lower := digitChar_isDigit (n%10) (Nat.mod_lt _ (by decide))
  simp only [padded,List.nil_append,List.singleton_append] at value ⊢
  simp [getnum,upper,lower,value]

theorem getyear_padded (n : Nat) (small : n < 10000) (rest : List Char) :
    getyear (padded 4 n++rest) = some (n,rest) := by
  have value := decimal_padded 4 n small
  have digits := padded_isDigit 4 n
  simp only [padded,List.nil_append,List.cons_append] at value digits ⊢
  have all := List.all_eq_true.mpr digits
  simp only [getyear,all,if_true,value]

theorem trimRight_zeros (run : List Char) :
    ∃ k, run = trimRight (fun c => c = '0') run++List.replicate k '0' := by
  have parts := List.takeWhile_append_dropWhile (p := fun c : Char => decide (c = '0')) (l := run.reverse)
  have zeros : run.reverse.takeWhile (fun c => decide (c = '0')) =
      List.replicate (run.reverse.takeWhile (fun c => decide (c = '0'))).length '0' := by
    rw [List.eq_replicate_iff]
    exact ⟨rfl,fun c member => by simpa using List.mem_takeWhile_imp member⟩
  refine ⟨(run.reverse.takeWhile (fun c => decide (c = '0'))).length,?_⟩
  have whole := congrArg List.reverse parts
  rw [List.reverse_append,List.reverse_reverse,zeros,List.reverse_replicate] at whole
  exact whole.symm

theorem appendZone_head (offset : Int) : ∃ c rest, appendZone offset = c::rest ∧
    c.isDigit = false ∧ c ≠ '.' ∧ c ≠ ',' := by
  unfold appendZone
  split
  next => exact ⟨'Z',[],rfl,by decide⟩
  next =>
    split
    next => exact ⟨'-',_,rfl,by decide⟩
    next => exact ⟨'+',_,rfl,by decide⟩

theorem getnano_appended (nanos : Nat) (small : nanos < 1000000000) (offset : Int) :
    getnano (appendNano nanos++appendZone offset) = (nanos,appendZone offset) := by
  obtain ⟨c,rest,zone,letter,period,comma⟩ := appendZone_head offset
  unfold appendNano
  split
  next zero => simp [zone,getnano,period,comma,zero]
  next positive =>
    obtain ⟨k,whole⟩ := trimRight_zeros (padded 9 nanos)
    have value := decimal_padded 9 nanos small
    have width := padded_length 9 nanos
    generalize trimmed : trimRight (fun c => decide (c = '0')) (padded 9 nanos) = run at whole
    rw [whole,List.length_append,List.length_replicate] at width
    have digits : ∀ d ∈ run, d.isDigit = true := by
      intro d member
      exact padded_isDigit 9 nanos d (whole ▸ List.mem_append_left _ member)
    rw [whole,decimal_zeros] at value
    have nonempty : run ≠ [] := by
      rintro rfl
      exact positive (by simpa [decimal] using value.symm)
    have taken : (run++appendZone offset).takeWhile Char.isDigit = run := by
      rw [List.takeWhile_append_of_pos digits,zone]
      simp [letter]
    have dropped : (run++appendZone offset).dropWhile Char.isDigit = appendZone offset := by
      rw [List.dropWhile_append_of_pos digits,zone]
      simp [letter]
    have all : run.take 9 = run := List.take_of_length_le (by omega)
    have scale : 9-run.length = k := by omega
    simp only [List.cons_append,getnano,taken,dropped,all,scale,value]
    simp [nonempty]

theorem getzone_padded (mark : Char) (hours minutes : Nat) (day : hours < 24) (hour : minutes < 60)
    (offset : Int) (signed : mark = '+' ∧ offset = hours*60+minutes ∨
      mark = '-' ∧ offset = -(hours*60+minutes)) :
    getzone (mark::padded 2 hours++ ':' ::padded 2 minutes) = some (offset,[]) := by
  have upper := getnum_padded true hours (by omega) []
  have lower := getnum_padded true minutes (by omega) []
  have small : ¬(hours > 24 ∨ minutes > 60) := by omega
  simp only [padded,List.nil_append,List.singleton_append,List.append_nil] at upper lower ⊢
  rcases signed with ⟨rfl,rfl⟩ | ⟨rfl,rfl⟩
  · simp only [List.cons_append,List.nil_append]
    rw [getzone,upper,lower]
    · simp [small]
    · simp
  · simp only [List.cons_append,List.nil_append]
    rw [getzone,upper,lower]
    · simp [small]
    · simp

theorem getzone_appended (offset : Int) (short : offset.natAbs < 1440) :
    getzone (appendZone offset) = some (offset,[]) := by
  unfold appendZone
  split
  next utc => simp [getzone,utc]
  next =>
    apply getzone_padded
    · omega
    · omega
    · split
      next => exact .inr ⟨rfl,by omega⟩
      next => exact .inl ⟨rfl,by omega⟩

theorem parse_format (t : Time) (strict : t.Strict) :
    parseRFC3339 (String.ofList t.formatRFC3339) = some t := by
  obtain ⟨early,late,short⟩ := strict
  have valid : t.date.Valid := Date.ofDays_valid _
  obtain ⟨⟨january,december⟩,first,last⟩ := valid
  have month : t.date.month < 100 := by omega
  have year : (t.date.year.toNat : Int) = t.date.year := by omega
  have days : Date.days ⟨t.date.year,t.date.month,t.date.day⟩ = t.wall/dayNanos := Date.days_ofDays _
  have days100 : t.date.day < 100 := by
    have := daysIn_le t.date.month t.date.year
    omega
  have inside := Int.emod_nonneg t.wall (show dayNanos ≠ 0 by decide)
  have bound := Int.emod_lt_of_pos t.wall (show 0 < dayNanos by decide)
  have whole := Int.mul_ediv_add_emod t.wall dayNanos
  generalize rest : (t.wall%dayNanos).toNat = left at *
  have nanos : (left : Int) = t.wall%dayNanos := by omega
  simp only [dayNanos,minuteNanos,secondNanos] at bound nanos
  have day : left < 86400000000000 := by omega
  unfold parseRFC3339 Time.formatRFC3339
  simp only [String.toList_ofList,rest,List.append_assoc,List.cons_append]
  rw [getyear_padded _ (by omega)]
  simp only [Option.bind_eq_bind,Option.bind_some,skipChar_cons]
  rw [getnum_padded _ _ month]
  simp only [Option.bind_some,skipChar_cons]
  rw [getnum_padded _ _ days100]
  simp only [Option.bind_some,skipChar_cons]
  rw [getnum_padded _ _ (by omega)]
  simp only [Option.bind_some,skipChar_cons]
  rw [getnum_padded _ _ (by omega)]
  simp only [Option.bind_some,skipChar_cons]
  rw [getnum_padded _ _ (by omega)]
  simp only [Option.bind_some]
  rw [getnano_appended _ (by omega),getzone_appended _ short]
  simp only [Option.bind_some,year]
  rw [if_neg]
  · rw [days]
    cases t with
    | mk instant offset =>
      simp only [Option.some.injEq,Time.mk.injEq,and_true]
      simp only [Time.wall,dayNanos,minuteNanos,secondNanos] at whole nanos ⊢
      omega
  · simp only [Bool.or_eq_true,decide_eq_true_eq,ne_eq,not_true_eq_false,or_false]
    omega

theorem Time.marshalText_injective {t u : Time} {text : String} (left : t.marshalText = some text)
    (right : u.marshalText = some text) : t = u := by
  unfold marshalText at left right
  split at left
  next strict =>
    split at right
    next strict' =>
      have same := (Option.some.inj left).trans (Option.some.inj right).symm
      have back := parse_format t strict
      rw [same,parse_format u strict'] at back
      exact (Option.some.inj back).symm
    next => cases right
  next => cases left

end ATape.Go
