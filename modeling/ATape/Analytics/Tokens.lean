import ATape.Canonical.Model
import ATape.Foundation.Grouping
import Mathlib.Algebra.BigOperators.Ring.Finset
import Mathlib.Algebra.Order.BigOperators.Group.List

/-! Sums of the token counters of usage samples. A sum is exact or flagged, and no addition leaves
the range of its machine integer. -/
namespace ATape.SessionAnalytics
open Foundation Go
open Canonical (UsageRecord)

def maxSafeInteger : ℤ := 9007199254740991

/-- Addition of `int64`, which wraps around. -/
def int64Add (a b : ℤ) : ℤ := Int.bmod (a+b) (2^64)

/-- Subtraction of `int64`, which wraps around. -/
def int64Sub (a b : ℤ) : ℤ := Int.bmod (a-b) (2^64)

/-- The subtotal of reported classifications. A reported zero remains a zero. -/
structure TokenCounter where
  knownSubtotal : Option ℤ
  reportedSamples : ℕ
  missingSamples : ℕ
  overflowed : Bool
deriving DecidableEq

structure TokenAccounting where
  total : TokenCounter
  input : TokenCounter
  output : TokenCounter
  cacheRead : TokenCounter
  cacheWrite : TokenCounter
deriving DecidableEq

/-- The cohort of the samples on which input and both cache classifications are reported. -/
structure TokenCache where
  eligibleSamples : ℕ
  missingSamples : ℕ
  inputTokens : Option ℤ
  readTokens : Option ℤ
  writeTokens : Option ℤ
  uncachedTokens : Option ℤ
deriving DecidableEq

structure TokenCounterSum where
  value : ℤ := 0
  reported : ℕ := 0
  missing : ℕ := 0
  overflowed : Bool := false
deriving DecidableEq

def validToken (value : Option ℤ) : Bool := value.any fun n => 0 ≤ n && n ≤ maxSafeInteger

namespace TokenCounterSum

def add (s : TokenCounterSum) (value : Option ℤ) : TokenCounterSum :=
  if validToken value = false then {s with missing := s.missing+1}
  else if s.overflowed = true ∨ s.value > int64Sub maxSafeInteger (value.getD 0) then
    {s with reported := s.reported+1, overflowed := true}
  else {s with reported := s.reported+1, value := int64Add s.value (value.getD 0)}

def get (s : TokenCounterSum) : TokenCounter where
  knownSubtotal := if s.reported > 0 ∧ s.overflowed = false then some s.value else none
  reportedSamples := s.reported
  missingSamples := s.missing
  overflowed := s.overflowed

end TokenCounterSum

structure TokenAccountingSum where
  total : TokenCounterSum := {}
  input : TokenCounterSum := {}
  output : TokenCounterSum := {}
  cacheRead : TokenCounterSum := {}
  cacheWrite : TokenCounterSum := {}
deriving DecidableEq

/-- The total of a sample. Reported classifications whose sum is unsafe are overflow, not missing usage. -/
def addTotal (s : TokenCounterSum) (usage : UsageRecord) : TokenCounterSum :=
  if validToken usage.inputTokens = false ∨ validToken usage.outputTokens = false then s.add none
  else if usage.inputTokens.getD 0 > int64Sub maxSafeInteger (usage.outputTokens.getD 0) then
    {s with reported := s.reported+1, overflowed := true}
  else s.add (some (int64Add (usage.inputTokens.getD 0) (usage.outputTokens.getD 0)))

namespace TokenAccountingSum

def add (s : TokenAccountingSum) (usage : UsageRecord) : TokenAccountingSum where
  total := addTotal s.total usage
  input := s.input.add usage.inputTokens
  output := s.output.add usage.outputTokens
  cacheRead := s.cacheRead.add usage.cacheReadTokens
  cacheWrite := s.cacheWrite.add usage.cacheWriteTokens

def get (s : TokenAccountingSum) : TokenAccounting where
  total := s.total.get
  input := s.input.get
  output := s.output.get
  cacheRead := s.cacheRead.get
  cacheWrite := s.cacheWrite.get

end TokenAccountingSum

structure TokenCacheSum where
  eligible : ℕ := 0
  missing : ℕ := 0
  input : TokenCounterSum := {}
  read : TokenCounterSum := {}
  write : TokenCounterSum := {}
  uncached : TokenCounterSum := {}
deriving DecidableEq

/-- The sample has all three classifications, and the cache is a part of the input. -/
def eligible (usage : UsageRecord) : Bool :=
  validToken usage.inputTokens && validToken usage.cacheReadTokens && validToken usage.cacheWriteTokens &&
    decide (usage.cacheReadTokens.getD 0 ≤ usage.inputTokens.getD 0) &&
    decide (usage.cacheWriteTokens.getD 0 ≤ int64Sub (usage.inputTokens.getD 0) (usage.cacheReadTokens.getD 0))

def uncached (usage : UsageRecord) : ℤ :=
  int64Sub (int64Sub (usage.inputTokens.getD 0) (usage.cacheReadTokens.getD 0)) (usage.cacheWriteTokens.getD 0)

namespace TokenCacheSum

def add (s : TokenCacheSum) (usage : UsageRecord) : TokenCacheSum :=
  if SessionAnalytics.eligible usage = false then {s with missing := s.missing+1}
  else
    { eligible := s.eligible+1
      missing := s.missing
      input := s.input.add usage.inputTokens
      read := s.read.add usage.cacheReadTokens
      write := s.write.add usage.cacheWriteTokens
      uncached := s.uncached.add (some (SessionAnalytics.uncached usage)) }

def get (s : TokenCacheSum) : TokenCache where
  eligibleSamples := s.eligible
  missingSamples := s.missing
  inputTokens := s.input.get.knownSubtotal
  readTokens := s.read.get.knownSubtotal
  writeTokens := s.write.get.knownSubtotal
  uncachedTokens := s.uncached.get.knownSubtotal

end TokenCacheSum

structure TokenGroup where
  samples : ℕ := 0
  tokens : TokenAccountingSum := {}
  cache : TokenCacheSum := {}
deriving DecidableEq

def TokenGroup.add (g : TokenGroup) (usage : UsageRecord) : TokenGroup where
  samples := g.samples+1
  tokens := g.tokens.add usage
  cache := g.cache.add usage

/-! What the sums are of. -/

def knownSum (samples : List (Option ℕ)) : ℕ := (samples.map fun sample => sample.getD 0).sum

def knownCount (samples : List (Option ℕ)) : ℕ := samples.countP Option.isSome

def missingCount (samples : List (Option ℕ)) : ℕ := samples.countP Option.isNone

/-- The counter is exact on the samples, or flagged. -/
structure TokenCounter.Exact (c : TokenCounter) (samples : List (Option ℕ)) : Prop where
  reported : c.reportedSamples = knownCount samples
  missing : c.missingSamples = missingCount samples
  overflowed : c.overflowed = true ↔ maxSafeInteger < knownSum samples
  known : c.knownSubtotal =
    if knownCount samples = 0 ∨ maxSafeInteger < knownSum samples then none else some (knownSum samples : ℤ)

def sample (value : Option ℤ) : Option ℕ := if validToken value = true then value.map Int.toNat else none

def totalSample (usage : UsageRecord) : Option ℕ :=
  match sample usage.inputTokens,sample usage.outputTokens with
  | some input,some output => some (input+output)
  | _,_ => none

def cohort (usages : List UsageRecord) (value : UsageRecord → Option ℤ) : List (Option ℕ) :=
  (usages.filter eligible).map fun usage => sample (value usage)

structure TokenAccounting.Exact (a : TokenAccounting) (usages : List UsageRecord) : Prop where
  total : a.total.Exact (usages.map totalSample)
  input : a.input.Exact (usages.map fun u => sample u.inputTokens)
  output : a.output.Exact (usages.map fun u => sample u.outputTokens)
  cacheRead : a.cacheRead.Exact (usages.map fun u => sample u.cacheReadTokens)
  cacheWrite : a.cacheWrite.Exact (usages.map fun u => sample u.cacheWriteTokens)

def CohortTotal (total : Option ℤ) (samples : List (Option ℕ)) : Prop :=
  total = if samples = [] ∨ maxSafeInteger < knownSum samples then none else some (knownSum samples : ℤ)

structure TokenCache.Exact (c : TokenCache) (usages : List UsageRecord) : Prop where
  eligible : c.eligibleSamples = usages.countP eligible
  missing : c.missingSamples = usages.countP fun u => !SessionAnalytics.eligible u
  input : CohortTotal c.inputTokens (cohort usages (·.inputTokens))
  read : CohortTotal c.readTokens (cohort usages (·.cacheReadTokens))
  write : CohortTotal c.writeTokens (cohort usages (·.cacheWriteTokens))
  uncached : CohortTotal c.uncachedTokens (cohort usages fun u => some (uncached u))
  parts : ∀ n, c.inputTokens = some n → ∃ read write rest, c.readTokens = some read ∧ c.writeTokens = some write ∧
    c.uncachedTokens = some rest ∧ n = read+write+rest

/-- The running sum after some samples. -/
structure TokenCounterSum.Holds (s : TokenCounterSum) (samples : List (Option ℕ)) : Prop where
  reported : s.reported = knownCount samples
  missing : s.missing = missingCount samples
  overflowed : s.overflowed = true ↔ maxSafeInteger < knownSum samples
  value : s.overflowed = false → s.value = knownSum samples

theorem knownSum_append (samples later : List (Option ℕ)) :
    knownSum (samples++later) = knownSum samples+knownSum later := by
  rw [knownSum,List.map_append,List.sum_append]
  rfl

theorem knownCount_append (samples later : List (Option ℕ)) :
    knownCount (samples++later) = knownCount samples+knownCount later := List.countP_append

theorem missingCount_append (samples later : List (Option ℕ)) :
    missingCount (samples++later) = missingCount samples+missingCount later := List.countP_append

theorem int64Add_of_safe {a b : ℤ} (low : 0 ≤ a+b) (high : a+b ≤ maxSafeInteger) : int64Add a b = a+b := by
  unfold int64Add maxSafeInteger at *
  rw [Int.bmod_eq_of_le]
  · omega
  · omega

theorem int64Sub_of_safe {a b : ℤ} (low : 0 ≤ a-b) (high : a-b ≤ maxSafeInteger) : int64Sub a b = a-b := by
  unfold int64Sub maxSafeInteger at *
  rw [Int.bmod_eq_of_le]
  · omega
  · omega

theorem sample_some {value : Option ℤ} {n : ℕ} (known : sample value = some n) :
    validToken value = true ∧ value = some (n : ℤ) ∧ (n : ℤ) ≤ maxSafeInteger := by
  unfold sample at known
  split at known
  next valid =>
    obtain ⟨m,rfl,same⟩ := Option.map_eq_some_iff.mp known
    simp only [validToken,Option.any_some,Bool.and_eq_true,decide_eq_true_eq] at valid
    have exact_ : m = (n : ℤ) := by omega
    subst exact_
    exact ⟨by simp [validToken,valid],rfl,valid.2⟩
  next => cases known

theorem sample_none {value : Option ℤ} (unknown : sample value = none) : validToken value = false := by
  unfold sample at unknown
  split at unknown
  next valid =>
    cases value with
    | none => exact absurd valid (by decide)
    | some n => cases unknown
  next invalid => simpa using invalid

namespace TokenCounterSum
variable {s : TokenCounterSum} {samples : List (Option ℕ)}

theorem holds_nil : ({} : TokenCounterSum).Holds [] where
  reported := rfl
  missing := rfl
  overflowed := by decide
  value := fun _ => rfl

theorem Holds.skip (holds : s.Holds samples) : Holds {s with missing := s.missing+1} (samples++[none]) where
  reported := by
    rw [knownCount_append]
    exact holds.reported
  missing := by
    rw [missingCount_append,← holds.missing]
    rfl
  overflowed := by
    rw [knownSum_append]
    exact holds.overflowed
  value := by
    rw [knownSum_append]
    exact holds.value

theorem Holds.take (holds : s.Holds samples) {n : ℕ} {next : TokenCounterSum}
    (reported : next.reported = s.reported+1) (missing : next.missing = s.missing)
    (overflowed : next.overflowed = true ↔ maxSafeInteger < (knownSum samples : ℤ)+n)
    (value : next.overflowed = false → next.value = s.value+n) : next.Holds (samples++[some n]) where
  reported := by
    rw [knownCount_append,reported,holds.reported]
    rfl
  missing := by
    rw [missingCount_append,missing,holds.missing]
    rfl
  overflowed := by
    rw [knownSum_append,overflowed]
    simp [knownSum]
  value := by
    intro plain
    have small : s.overflowed = false := by
      rw [← Bool.not_eq_true,holds.overflowed]
      rw [← Bool.not_eq_true,overflowed] at plain
      omega
    rw [knownSum_append,value plain,holds.value small]
    simp [knownSum]

theorem Holds.add (holds : s.Holds samples) (value : Option ℤ) : (s.add value).Holds (samples++[sample value]) := by
  unfold TokenCounterSum.add
  cases known : sample value with
  | none =>
    rw [if_pos (sample_none known)]
    exact holds.skip
  | some n =>
    obtain ⟨valid,rfl,small⟩ := sample_some known
    rw [if_neg (by rw [valid]; decide),Option.getD_some,int64Sub_of_safe (by omega) (by omega)]
    split
    next past =>
      refine holds.take rfl rfl ?_ fun plain => by cases plain
      refine ⟨fun _ => ?_,fun _ => rfl⟩
      by_cases flagged : s.overflowed = true
      · have large := holds.overflowed.mp flagged
        omega
      · have large := past.resolve_left flagged
        rw [holds.value (by simpa using flagged)] at large
        omega
    next room =>
      have plain : s.overflowed = false := by
        rw [← Bool.not_eq_true]
        exact fun flagged => room (.inl flagged)
      have fits : ¬s.value > maxSafeInteger-n := fun large => room (.inr large)
      have amount := holds.value plain
      have exact_ : int64Add s.value n = s.value+n := int64Add_of_safe (by omega) (by omega)
      refine holds.take rfl rfl ?_ fun _ => exact_
      rw [← amount]
      constructor
      · intro flagged
        exact absurd (plain.symm.trans flagged) (by decide)
      · intro large
        omega

theorem Holds.addTotal (holds : s.Holds samples) (usage : UsageRecord) :
    (SessionAnalytics.addTotal s usage).Holds (samples++[totalSample usage]) := by
  unfold SessionAnalytics.addTotal totalSample
  cases input : sample usage.inputTokens with
  | none =>
    rw [if_pos (.inl (sample_none input))]
    exact holds.add none
  | some n =>
    cases output : sample usage.outputTokens with
    | none =>
      rw [if_pos (.inr (sample_none output))]
      exact holds.add none
    | some m =>
      obtain ⟨valid,first,small⟩ := sample_some input
      obtain ⟨valid',second,small'⟩ := sample_some output
      rw [if_neg (by rw [valid,valid']; decide),first,second,Option.getD_some,Option.getD_some,
        int64Sub_of_safe (by omega) (by omega)]
      split
      next past =>
        refine holds.take rfl rfl ?_ fun plain => by cases plain
        refine ⟨fun _ => ?_,fun _ => rfl⟩
        push_cast
        omega
      next room =>
        rw [int64Add_of_safe (by omega) (by omega)]
        have whole : sample (some ((n : ℤ)+m)) = some (n+m) := by
          have valid : validToken (some ((n : ℤ)+m)) = true := by
            simp only [validToken,Option.any_some,Bool.and_eq_true,decide_eq_true_eq]
            omega
          rw [sample,if_pos valid,Option.map_some]
          congr 1
        have added := holds.add (some ((n : ℤ)+m))
        rwa [whole] at added

theorem Holds.get (holds : s.Holds samples) : s.get.Exact samples where
  reported := holds.reported
  missing := holds.missing
  overflowed := holds.overflowed
  known := by
    have count := holds.reported
    have flag := holds.overflowed
    simp only [TokenCounterSum.get]
    by_cases past : maxSafeInteger < knownSum samples
    · rw [if_pos (Or.inr past),if_neg]
      rintro ⟨-,plain⟩
      exact absurd (plain.symm.trans (flag.mpr past)) (by decide)
    · have plain : s.overflowed = false := by
        rw [← Bool.not_eq_true]
        exact fun flagged => past (flag.mp flagged)
      by_cases none_ : knownCount samples = 0
      · rw [if_pos (Or.inl none_),if_neg]
        rintro ⟨some_,-⟩
        omega
      · rw [if_pos ⟨by omega,plain⟩,if_neg (by tauto),holds.value plain]

theorem Holds.fold {put : TokenCounterSum → UsageRecord → TokenCounterSum} {read : UsageRecord → Option ℕ}
    (step : ∀ {s samples} (usage : UsageRecord), Holds s samples → Holds (put s usage) (samples++[read usage]))
    (holds : s.Holds samples) (usages : List UsageRecord) : (usages.foldl put s).Holds (samples++usages.map read) := by
  induction usages generalizing s samples with
  | nil =>
    rw [List.map_nil,List.append_nil]
    exact holds
  | cons usage usages ih =>
    rw [List.map_cons,List.append_cons]
    exact ih (step usage holds)

end TokenCounterSum

/-! Sums of whole samples. -/

theorem accounting_fold (usages : List UsageRecord) (s : TokenAccountingSum) :
    usages.foldl TokenAccountingSum.add s =
      { total := usages.foldl addTotal s.total
        input := usages.foldl (fun s u => s.add u.inputTokens) s.input
        output := usages.foldl (fun s u => s.add u.outputTokens) s.output
        cacheRead := usages.foldl (fun s u => s.add u.cacheReadTokens) s.cacheRead
        cacheWrite := usages.foldl (fun s u => s.add u.cacheWriteTokens) s.cacheWrite } := by
  induction usages generalizing s with
  | nil => rfl
  | cons usage usages ih => exact ih _

def accounting (usages : List UsageRecord) : TokenAccounting := (usages.foldl TokenAccountingSum.add {}).get

def cache (usages : List UsageRecord) : TokenCache := (usages.foldl TokenCacheSum.add {}).get

theorem accounting_exact (usages : List UsageRecord) : (accounting usages).Exact usages := by
  have folded := accounting_fold usages {}
  have column : ∀ value : UsageRecord → Option ℤ,
      (usages.foldl (fun s u => TokenCounterSum.add s (value u)) {}).get.Exact (usages.map fun u => sample (value u)) := by
    intro value
    exact (TokenCounterSum.holds_nil.fold (fun usage holds => holds.add (value usage)) usages).get
  unfold accounting
  rw [folded]
  refine ⟨?_,column _,column _,column _,column _⟩
  exact (TokenCounterSum.holds_nil.fold (fun usage holds => holds.addTotal usage) usages).get

theorem cache_fold (usages : List UsageRecord) (s : TokenCacheSum) :
    usages.foldl TokenCacheSum.add s =
      { eligible := s.eligible+usages.countP eligible
        missing := s.missing+usages.countP fun u => !eligible u
        input := (usages.filter eligible).foldl (fun s u => s.add u.inputTokens) s.input
        read := (usages.filter eligible).foldl (fun s u => s.add u.cacheReadTokens) s.read
        write := (usages.filter eligible).foldl (fun s u => s.add u.cacheWriteTokens) s.write
        uncached := (usages.filter eligible).foldl (fun s u => s.add (some (uncached u))) s.uncached } := by
  induction usages generalizing s with
  | nil => rfl
  | cons usage usages ih =>
    rw [List.foldl_cons,ih,List.countP_cons,List.countP_cons,List.filter_cons]
    cases fits : eligible usage with
    | false =>
      simp [TokenCacheSum.add,fits,Nat.add_assoc]
      exact Nat.add_comm _ _
    | true =>
      simp [TokenCacheSum.add,fits,Nat.add_assoc]
      exact Nat.add_comm _ _

theorem eligible_samples {usage : UsageRecord} (fits : eligible usage = true) :
    ∃ read write rest, sample usage.inputTokens = some (read+write+rest) ∧ sample usage.cacheReadTokens = some read ∧
      sample usage.cacheWriteTokens = some write ∧ sample (some (uncached usage)) = some rest := by
  simp only [eligible,Bool.and_eq_true,decide_eq_true_eq] at fits
  obtain ⟨⟨⟨⟨input,read⟩,write⟩,first⟩,second⟩ := fits
  have known : ∀ {value : Option ℤ}, validToken value = true → ∃ n : ℕ, value = some (n : ℤ) ∧ (n : ℤ) ≤ maxSafeInteger ∧
      sample value = some n := by
    intro value valid
    cases value with
    | none => cases valid
    | some n =>
      have range := valid
      simp only [validToken,Option.any_some,Bool.and_eq_true,decide_eq_true_eq] at range
      obtain ⟨m,rfl⟩ := Int.eq_ofNat_of_zero_le range.1
      exact ⟨m,rfl,range.2,by rw [sample,if_pos valid]; rfl⟩
  obtain ⟨n,input_,small,sampled⟩ := known input
  obtain ⟨r,read_,-,sampledRead⟩ := known read
  obtain ⟨w,write_,-,sampledWrite⟩ := known write
  rw [input_,read_] at first
  rw [input_,read_,write_] at second
  simp only [Option.getD_some] at first second
  rw [int64Sub_of_safe (by omega) (by omega)] at second
  have rest : uncached usage = ((n-r-w : ℕ) : ℤ) := by
    rw [uncached,input_,read_,write_]
    simp only [Option.getD_some]
    have part : int64Sub n r = (n : ℤ)-r := int64Sub_of_safe (by omega) (by omega)
    rw [part,int64Sub_of_safe (by omega) (by omega)]
    omega
  refine ⟨r,w,n-r-w,?_,sampledRead,sampledWrite,?_⟩
  · rw [sampled]
    congr 1
    omega
  · have valid : validToken (some ((n-r-w : ℕ) : ℤ)) = true := by
      simp only [validToken,Option.any_some,Bool.and_eq_true,decide_eq_true_eq]
      omega
    rw [rest,sample,if_pos valid]
    rfl

theorem cohort_parts (usages : List UsageRecord) : knownSum (cohort usages (·.inputTokens)) =
    knownSum (cohort usages (·.cacheReadTokens))+knownSum (cohort usages (·.cacheWriteTokens))+
      knownSum (cohort usages fun u => some (uncached u)) := by
  induction usages with
  | nil => rfl
  | cons usage usages ih =>
    unfold cohort at ih ⊢
    rw [List.filter_cons]
    split
    next fits =>
      obtain ⟨read,write,rest,input_,read_,write_,rest_⟩ := eligible_samples fits
      simp only [knownSum,List.map_cons,List.sum_cons,input_,read_,write_,rest_,Option.getD_some] at ih ⊢
      omega
    next => exact ih

theorem cohort_known {usages : List UsageRecord} {value : UsageRecord → Option ℤ}
    (known : ∀ u, eligible u = true → (sample (value u)).isSome = true) :
    knownCount (cohort usages value) = (cohort usages value).length := by
  rw [knownCount,List.countP_eq_length]
  intro sampled member
  obtain ⟨u,inside,rfl⟩ := List.mem_map.mp member
  exact known u (List.mem_filter.mp inside).2

theorem cache_exact (usages : List UsageRecord) : (cache usages).Exact usages := by
  have folded := cache_fold usages {}
  have column : ∀ value : UsageRecord → Option ℤ, (∀ u, eligible u = true → (sample (value u)).isSome = true) →
      CohortTotal ((usages.filter eligible).foldl (fun s u => TokenCounterSum.add s (value u)) {}).get.knownSubtotal
        (cohort usages value) := by
    intro value known
    have exact_ := (TokenCounterSum.holds_nil.fold (fun usage holds => holds.add (value usage))
      (usages.filter eligible)).get.known
    rw [List.nil_append] at exact_
    have count := @cohort_known usages value known
    unfold cohort at count
    rw [exact_,count]
    unfold CohortTotal cohort
    simp only [List.length_eq_zero_iff]
  have input := column (·.inputTokens) fun u fits => by
    obtain ⟨_,_,_,known,_⟩ := eligible_samples fits
    rw [known]
    rfl
  have read := column (·.cacheReadTokens) fun u fits => by
    obtain ⟨_,_,_,_,known,_⟩ := eligible_samples fits
    rw [known]
    rfl
  have write := column (·.cacheWriteTokens) fun u fits => by
    obtain ⟨_,_,_,_,_,known,_⟩ := eligible_samples fits
    rw [known]
    rfl
  have rest := column (fun u => some (uncached u)) fun u fits => by
    obtain ⟨_,_,_,_,_,_,known⟩ := eligible_samples fits
    rw [known]
    rfl
  unfold cache
  rw [folded]
  refine ⟨Nat.zero_add _,Nat.zero_add _,input,read,write,rest,?_⟩
  intro n known
  have parts := cohort_parts usages
  have total := input.symm.trans known
  split at total
  next => cases total
  next fits =>
    obtain ⟨some_,small⟩ := not_or.mp fits
    obtain rfl := Option.some.inj total
    have filled : ∀ value : UsageRecord → Option ℤ, cohort usages value ≠ [] := by
      intro value nothing
      have none_ : usages.filter eligible = [] := List.map_eq_nil_iff.mp nothing
      exact some_ (by rw [cohort,none_,List.map_nil])
    refine ⟨_,_,_,read.trans (if_neg (not_or.mpr ⟨filled _,?_⟩)),write.trans (if_neg (not_or.mpr ⟨filled _,?_⟩)),
      rest.trans (if_neg (not_or.mpr ⟨filled _,?_⟩)),?_⟩
    all_goals omega

/-! Totals and their parts. -/

/-- A total is what its parts add up to. -/
structure TokenCounter.SumOf (total : TokenCounter) (parts : List TokenCounter) : Prop where
  reported : total.reportedSamples = (parts.map fun part => part.reportedSamples).sum
  missing : total.missingSamples = (parts.map fun part => part.missingSamples).sum
  known : total.overflowed = false →
    total.knownSubtotal.getD 0 = (parts.map fun part => part.knownSubtotal.getD 0).sum

structure TokenAccounting.SumOf (all : TokenAccounting) (parts : List TokenAccounting) : Prop where
  total : all.total.SumOf (parts.map fun part => part.total)
  input : all.input.SumOf (parts.map fun part => part.input)
  output : all.output.SumOf (parts.map fun part => part.output)
  cacheRead : all.cacheRead.SumOf (parts.map fun part => part.cacheRead)
  cacheWrite : all.cacheWrite.SumOf (parts.map fun part => part.cacheWrite)

/-- A total of a cohort that is not lost to overflow. -/
def ColumnSum (cohort : ℕ) (total : Option ℤ) (parts : List (Option ℤ)) : Prop :=
  cohort = 0 ∨ total.isSome = true → total.getD 0 = (parts.map fun part => part.getD 0).sum

structure TokenCache.SumOf (total : TokenCache) (parts : List TokenCache) : Prop where
  eligible : total.eligibleSamples = (parts.map fun part => part.eligibleSamples).sum
  missing : total.missingSamples = (parts.map fun part => part.missingSamples).sum
  input : ColumnSum total.eligibleSamples total.inputTokens (parts.map fun part => part.inputTokens)
  read : ColumnSum total.eligibleSamples total.readTokens (parts.map fun part => part.readTokens)
  write : ColumnSum total.eligibleSamples total.writeTokens (parts.map fun part => part.writeTokens)
  uncached : ColumnSum total.eligibleSamples total.uncachedTokens (parts.map fun part => part.uncachedTokens)

theorem TokenCounter.SumOf.perm {total : TokenCounter} {parts parts' : List TokenCounter} (sums : total.SumOf parts)
    (perm : parts.Perm parts') : total.SumOf parts' where
  reported := sums.reported.trans (perm.map _).sum_eq
  missing := sums.missing.trans (perm.map _).sum_eq
  known plain := (sums.known plain).trans (perm.map _).sum_eq

theorem TokenAccounting.SumOf.perm {all : TokenAccounting} {parts parts' : List TokenAccounting} (sums : all.SumOf parts)
    (perm : parts.Perm parts') : all.SumOf parts' where
  total := sums.total.perm (perm.map _)
  input := sums.input.perm (perm.map _)
  output := sums.output.perm (perm.map _)
  cacheRead := sums.cacheRead.perm (perm.map _)
  cacheWrite := sums.cacheWrite.perm (perm.map _)

theorem ColumnSum.perm {cohort : ℕ} {total : Option ℤ} {parts parts' : List (Option ℤ)} (sums : ColumnSum cohort total parts)
    (perm : parts.Perm parts') : ColumnSum cohort total parts' :=
  fun kept => (sums kept).trans (perm.map _).sum_eq

theorem TokenCache.SumOf.perm {total : TokenCache} {parts parts' : List TokenCache} (sums : total.SumOf parts)
    (perm : parts.Perm parts') : total.SumOf parts' where
  eligible := sums.eligible.trans (perm.map _).sum_eq
  missing := sums.missing.trans (perm.map _).sum_eq
  input := sums.input.perm (perm.map _)
  read := sums.read.perm (perm.map _)
  write := sums.write.perm (perm.map _)
  uncached := sums.uncached.perm (perm.map _)

theorem knownSum_of_none {samples : List (Option ℕ)} (none_ : knownCount samples = 0) : knownSum samples = 0 := by
  induction samples with
  | nil => rfl
  | cons sampled samples ih =>
    rw [knownCount,List.countP_cons,Nat.add_eq_zero_iff] at none_
    cases sampled with
    | none =>
      rw [knownSum,List.map_cons,List.sum_cons]
      exact (Nat.zero_add _).trans (ih none_.1)
    | some n => cases none_.2

theorem TokenCounter.Exact.amount {c : TokenCounter} {samples : List (Option ℕ)} (exact_ : c.Exact samples)
    (small : (knownSum samples : ℤ) ≤ maxSafeInteger) : c.knownSubtotal.getD 0 = knownSum samples := by
  rw [exact_.known]
  split
  next none_ =>
    rw [knownSum_of_none (none_.resolve_right (Int.not_lt.mpr small))]
    rfl
  next => rfl

theorem CohortTotal.amount {total : Option ℤ} {samples : List (Option ℕ)} (exact_ : CohortTotal total samples)
    (small : (knownSum samples : ℤ) ≤ maxSafeInteger) : total.getD 0 = knownSum samples := by
  rw [exact_]
  split
  next none_ =>
    rw [none_.resolve_right (Int.not_lt.mpr small)]
    rfl
  next => rfl

section Parts
variable {usages : List UsageRecord} {parts : List (List UsageRecord)} (whole : parts.flatten.Perm usages)
include whole

theorem countP_parts (p : UsageRecord → Bool) : usages.countP p = (parts.map fun part => part.countP p).sum := by
  rw [← whole.countP_eq,List.countP_flatten]

theorem knownSum_parts (read : List UsageRecord → List (Option ℕ)) (joins : ∀ a b, read (a++b) = read a++read b)
    (empty : read [] = []) (perm : ∀ {a b}, a.Perm b → (read a).Perm (read b)) :
    knownSum (read usages) = (parts.map fun part => knownSum (read part)).sum := by
  have same : knownSum (read usages) = knownSum (read parts.flatten) := by
    unfold knownSum
    exact ((perm whole).map _).sum_eq.symm
  rw [same]
  clear same whole
  induction parts with
  | nil => rw [List.flatten_nil,empty]; rfl
  | cons part parts ih => rw [List.flatten_cons,joins,knownSum_append,List.map_cons,List.sum_cons,ih]

theorem TokenCounter.sumOf {read : UsageRecord → Option ℕ} {counter : List UsageRecord → TokenCounter}
    (exact_ : ∀ us, (counter us).Exact (us.map read)) : (counter usages).SumOf (parts.map counter) := by
  have sums := knownSum_parts whole (fun us => us.map read) (fun _ _ => List.map_append) rfl fun same => same.map read
  refine ⟨?_,?_,?_⟩
  · have counts := countP_parts whole fun u => (read u).isSome
    simp only [(exact_ _).reported,knownCount,List.countP_map,List.map_map,Function.comp_def]
    exact counts
  · have counts := countP_parts whole fun u => (read u).isNone
    simp only [(exact_ _).missing,missingCount,List.countP_map,List.map_map,Function.comp_def]
    exact counts
  · intro plain
    have small : (knownSum (usages.map read) : ℤ) ≤ maxSafeInteger := by
      rw [← Int.not_lt,← (exact_ usages).overflowed,plain]
      exact Bool.false_ne_true
    have each : ∀ part ∈ parts, (knownSum (part.map read) : ℤ) ≤ maxSafeInteger := by
      intro part member
      have below := List.single_le_sum (fun _ _ => Nat.zero_le _) _
        (List.mem_map_of_mem (f:=fun part => knownSum (part.map read)) member)
      rw [← sums] at below
      omega
    have amounts : (parts.map counter).map (fun part => part.knownSubtotal.getD 0) =
        parts.map fun part => ((knownSum (part.map read) : ℕ) : ℤ) := by
      rw [List.map_map]
      exact List.map_congr_left fun part member => (exact_ part).amount (each part member)
    rw [(exact_ usages).amount small,amounts,sums,Nat.cast_list_sum,List.map_map]
    rfl

theorem accounting_sumOf : (accounting usages).SumOf (parts.map accounting) := by
  have column : ∀ {read : UsageRecord → Option ℕ} {counter : List UsageRecord → TokenCounter},
      (∀ us, (counter us).Exact (us.map read)) → (counter usages).SumOf (parts.map counter) :=
    fun exact_ => TokenCounter.sumOf whole exact_
  refine ⟨?_,?_,?_,?_,?_⟩
  · rw [List.map_map]
    exact column fun us => (accounting_exact us).total
  · rw [List.map_map]
    exact column fun us => (accounting_exact us).input
  · rw [List.map_map]
    exact column fun us => (accounting_exact us).output
  · rw [List.map_map]
    exact column fun us => (accounting_exact us).cacheRead
  · rw [List.map_map]
    exact column fun us => (accounting_exact us).cacheWrite

theorem columnSum {value : UsageRecord → Option ℤ} {column : List UsageRecord → Option ℤ}
    (exact_ : ∀ us, CohortTotal (column us) (cohort us value)) :
    ColumnSum (usages.countP eligible) (column usages) (parts.map column) := by
  have sums := knownSum_parts whole (fun us => cohort us value)
    (fun _ _ => by rw [cohort,List.filter_append,List.map_append]; rfl) rfl fun same => (same.filter _).map _
  intro kept
  have small : (knownSum (cohort usages value) : ℤ) ≤ maxSafeInteger := by
    rcases kept with none_|known
    · have nothing : usages.filter eligible = [] := by
        rw [← List.length_eq_zero_iff,← List.countP_eq_length_filter]
        exact none_
      have zero : ((knownSum [] : ℕ) : ℤ) ≤ maxSafeInteger := by decide
      rw [cohort,nothing]
      exact zero
    · rw [exact_ usages] at known
      split at known
      next => cases known
      next fits => exact Int.not_lt.mp (not_or.mp fits).2
  have each : ∀ part ∈ parts, (knownSum (cohort part value) : ℤ) ≤ maxSafeInteger := by
    intro part member
    have below := List.single_le_sum (fun _ _ => Nat.zero_le _) _
      (List.mem_map_of_mem (f:=fun part => knownSum (cohort part value)) member)
    rw [← sums] at below
    omega
  have amounts : (parts.map column).map (fun part => part.getD 0) =
      parts.map fun part => ((knownSum (cohort part value) : ℕ) : ℤ) := by
    rw [List.map_map]
    exact List.map_congr_left fun part member => (exact_ part).amount (each part member)
  rw [(exact_ usages).amount small,amounts,sums,Nat.cast_list_sum,List.map_map]
  rfl

theorem cache_sumOf : (cache usages).SumOf (parts.map cache) := by
  have column : ∀ {value : UsageRecord → Option ℤ} {column : List UsageRecord → Option ℤ},
      (∀ us, CohortTotal (column us) (cohort us value)) →
        ColumnSum (cache usages).eligibleSamples (column usages) (parts.map column) := by
    intro value column exact_
    rw [(cache_exact usages).eligible]
    exact columnSum whole exact_
  refine ⟨?_,?_,?_,?_,?_,?_⟩
  · rw [(cache_exact usages).eligible,countP_parts whole,List.map_map]
    exact congrArg List.sum (List.map_congr_left fun part _ => (cache_exact part).eligible.symm)
  · rw [(cache_exact usages).missing,countP_parts whole,List.map_map]
    exact congrArg List.sum (List.map_congr_left fun part _ => (cache_exact part).missing.symm)
  · rw [List.map_map]
    exact column fun us => (cache_exact us).input
  · rw [List.map_map]
    exact column fun us => (cache_exact us).read
  · rw [List.map_map]
    exact column fun us => (cache_exact us).write
  · rw [List.map_map]
    exact column fun us => (cache_exact us).uncached

end Parts
end ATape.SessionAnalytics
