import ATape.Go.Time

/-! The times that are read from a text. Their years have four digits, their zones reach beyond a day. -/
namespace ATape.Go
open Foundation Calendar

theorem digit_le (c : Char) (digit : c.isDigit = true) : c.toNat- '0'.toNat ≤ 9 := by
  simp only [Char.isDigit,Bool.and_eq_true,decide_eq_true_eq] at digit
  have upper : c.toNat ≤ 57 := digit.2
  have zero : '0'.toNat = 48 := rfl
  omega

theorem ofDigitChars_lt (run : List Char) (digits : ∀ c ∈ run, c.isDigit = true) (start : Nat) :
    Nat.ofDigitChars 10 run start < 10^run.length*(start+1) := by
  induction run generalizing start with
  | nil => simp
  | cons c run ih =>
    obtain ⟨first,others⟩ := List.forall_mem_cons.mp digits
    have later := ih others (10*start+(c.toNat- '0'.toNat))
    have digit := digit_le c first
    rw [Nat.ofDigitChars_cons,List.length_cons,pow_succ,Nat.mul_assoc]
    exact later.trans_le (Nat.mul_le_mul_left _ (by omega))

theorem decimal_lt (run : List Char) (digits : ∀ c ∈ run, c.isDigit = true) : decimal run < 10^run.length := by
  have bound := ofDigitChars_lt run digits 0
  rwa [Nat.zero_add,Nat.mul_one] at bound

theorem getyear_lt {text rest : List Char} {year : Nat} (read : getyear text = some (year,rest)) : year < 10000 := by
  unfold getyear at read
  split at read
  next a b c d rest =>
    split at read
    next digits =>
      simp only [Option.some.injEq,Prod.mk.injEq] at read
      have bound := decimal_lt [a,b,c,d] (List.all_eq_true.mp digits)
      have four : [a,b,c,d].length = 4 := rfl
      rw [← read.1]
      rw [four] at bound
      omega
    next => cases read
  next => cases read

theorem getnano_lt (text : List Char) : (getnano text).1 < 1000000000 := by
  unfold getnano
  split
  next mark rest =>
    dsimp only
    split
    next =>
      have digits : ∀ c ∈ (rest.takeWhile Char.isDigit).take 9, c.isDigit = true :=
        fun c member => List.mem_takeWhile_imp (List.mem_of_mem_take member)
      have bound := decimal_lt _ digits
      have short : ((rest.takeWhile Char.isDigit).take 9).length ≤ 9 := List.length_take_le _ _
      have scale : (10:Nat)^9 = 10^((rest.takeWhile Char.isDigit).take 9).length*
          10^(9-((rest.takeWhile Char.isDigit).take 9).length) := by
        rw [← pow_add]
        congr 1
        omega
      have whole : (1000000000:Nat) = 10^9 := by decide
      rw [whole,scale]
      exact Nat.mul_lt_mul_of_pos_right bound (Nat.pow_pos (by decide))
    next => exact Nat.zero_lt_succ _
  next => exact Nat.zero_lt_succ _

theorem parse_strict {value : String} {t : Time} (read : parseRFC3339 value = some t) :
    t.Strict ↔ t.offset.natAbs < 1440 := by
  simp only [parseRFC3339,Option.bind_eq_bind,Option.bind_eq_some_iff] at read
  obtain ⟨⟨year,rest⟩,digits,rest,-,⟨month,rest⟩,-,rest,-,⟨day,rest⟩,-,rest,-,⟨hour,rest⟩,-,rest,-,⟨minute,rest⟩,-,
    rest,-,⟨second,rest⟩,-,read⟩ := read
  have years := getyear_lt digits
  have nanos := getnano_lt rest
  generalize getnano rest = fraction at read nanos
  obtain ⟨nano,rest⟩ := fraction
  obtain ⟨⟨offset,rest⟩,-,read⟩ := read
  dsimp only at read nanos
  split at read
  next => cases read
  next inside =>
    simp only [Bool.or_eq_true,decide_eq_true_eq,not_or,Nat.not_lt] at inside
    cases read
    have valid : (⟨year,month,day⟩ : Date).Valid := by
      constructor
      · dsimp only
        omega
      · dsimp only
        omega
    have wall : Time.wall ⟨(Date.days ⟨year,month,day⟩*86400+hour*3600+minute*60+second-offset*60)*secondNanos+nano,offset⟩
        /dayNanos = Date.days ⟨year,month,day⟩ := by
      simp only [Time.wall,dayNanos,minuteNanos,secondNanos]
      omega
    have date : Time.date ⟨(Date.days ⟨year,month,day⟩*86400+hour*3600+minute*60+second-offset*60)*secondNanos+nano,offset⟩
        = ⟨year,month,day⟩ := by
      rw [Time.date,wall,Date.ofDays_days _ valid]
    rw [Time.Strict,date]
    dsimp only
    omega

end ATape.Go
