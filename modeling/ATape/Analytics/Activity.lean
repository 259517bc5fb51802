import ATape.Analytics.TokenActivity

/-! The records of a session over time. The buckets part the recorded instants, and a bucket's range
selects the records that are counted in it. -/
namespace ATape.SessionAnalytics
open Foundation Go SourceIdentity
open Canonical (EventRecord UsageRecord)

structure ActivityBucket where
  from_ : Time
  to_ : Time
  includesEnd : Bool
  records : ℕ
  messages : ℕ
  thoughts : ℕ
  toolCalls : ℕ
  range : String
deriving DecidableEq

structure Activity where
  scopeThreadID : Option String
  eventCount : ℕ
  recordedTimeEvents : ℕ
  unknownTimeEvents : ℕ
  legacyTimeEvents : ℕ
  firstRecordedAt : Option Time
  lastRecordedAt : Option Time
  backwardClockTransitions : ℕ
  buckets : List ActivityBucket
  unplacedRange : Option String
deriving DecidableEq

structure ActivitySelection where
  report : Activity
  boundaries : List Time
  selected : Option ℕ
  unplaced : Bool

/-- The range names its mode and index beside the digest that binds it to the snapshot. -/
def activityRange (h : Hash) (snapshot : AnalyticsSnapshot) (q : Query) (mode : String) (index : ℕ) : String :=
  encodedJSON (.obj [("b",.str (h.hex (marshal (.arr [.int q.analyticsVersion,.str snapshot.session.id,
    .str snapshot.snapshotToken,.str q.thread,.str mode,.int index])))),("m",.str mode),("i",.int index)])

/-- What the first loop over the events has found. -/
structure ActivityScan where
  eventCount : ℕ := 0
  unknown : ℕ := 0
  legacy : ℕ := 0
  recorded : Recorded := {}
  previous : Table String Time := ∅
  backward : ℕ := 0

def ActivityScan.take (q : Query) (scan : ActivityScan) (event : EventRecord) : ActivityScan :=
  if q.inThread event.threadID = false then scan
  else
    match clockQuality event with
    | .unknown => {scan with eventCount := scan.eventCount+1,unknown := scan.unknown+1}
    | .legacy => {scan with eventCount := scan.eventCount+1,legacy := scan.legacy+1}
    | .recorded =>
      { eventCount := scan.eventCount+1
        unknown := scan.unknown
        legacy := scan.legacy
        recorded := scan.recorded.add event.occurredAt
        previous := scan.previous.insert event.threadID event.occurredAt
        backward :=
          if (scan.previous.lookup event.threadID).any (fun old => old.after event.occurredAt) = true
          then scan.backward+1 else scan.backward }

def recordedScope (q : Query) (events : List EventRecord) : List EventRecord :=
  events.filter fun event => q.inThread event.threadID && decide (clockQuality event = .recorded)

/-- A bucket with the records and the last updates of the tool calls in its interval. -/
def activityBucket (h : Hash) (snapshot : AnalyticsSnapshot) (q : Query) (bounds : List Time)
    (records calls : List EventRecord) (index : ℕ) : ActivityBucket :=
  let own := records.filter fun event => bucketOf bounds event.occurredAt = index
  { from_ := bounds.getD index .zero
    to_ := bounds.getD (index+1) .zero
    includesEnd := index = bounds.length-1-1
    records := own.length
    messages := own.countP fun event => event.kind = "message"
    thoughts := own.countP fun event => event.kind = "thought"
    toolCalls := calls.countP fun event => bucketOf bounds event.occurredAt = index
    range := activityRange h snapshot q "bucket" index }

/-- The activity of the events and of the tool calls, of which each stands with its last event, and the
bounds of its buckets. -/
def activityReport (h : Hash) (snapshot : AnalyticsSnapshot) (events calls : List EventRecord) (q : Query) :
    Activity × List Time :=
  let scan := events.foldl (ActivityScan.take q) {}
  let bounds := if scan.recorded.count > 0 then boundaries scan.recorded.first scan.recorded.last else []
  ({ scopeThreadID := if q.thread = "" then none else some q.thread
     eventCount := scan.eventCount
     recordedTimeEvents := scan.recorded.count
     unknownTimeEvents := scan.unknown
     legacyTimeEvents := scan.legacy
     firstRecordedAt := if scan.recorded.count > 0 then some scan.recorded.first.utc else none
     lastRecordedAt := if scan.recorded.count > 0 then some scan.recorded.last.utc else none
     backwardClockTransitions := scan.backward
     buckets := (List.range (bounds.length-1)).map
      (activityBucket h snapshot q bounds (recordedScope q events) (recordedScope q calls))
     unplacedRange := if scan.unknown+scan.legacy > 0 then some (activityRange h snapshot q "unplaced" 0) else none },
    bounds)

def deriveActivity (h : Hash) (snapshot : AnalyticsSnapshot) (events calls : List EventRecord) (q : Query) :
    Except Failure ActivitySelection :=
  let (report,bounds) := activityReport h snapshot events calls q
  if q.range = "" then pure ⟨report,bounds,none,false⟩
  else if report.unplacedRange = some q.range then pure ⟨report,bounds,none,true⟩
  else do
    let selected ← present
      ((List.range report.buckets.length).find? fun index => q.range = activityRange h snapshot q "bucket" index)
      (.invalidQuery "range" "must select a range from this session, snapshot, version and thread")
    pure ⟨report,bounds,some selected,false⟩

/-- Whether a record belongs to what is selected. -/
def ActivitySelection.matchesEvent (s : ActivitySelection) (event : EventRecord) : Bool :=
  if s.unplaced = true then decide (clockQuality event ≠ .recorded)
  else
    match s.selected with
    | some index => decide (clockQuality event = .recorded) && decide (bucketOf s.boundaries event.occurredAt = index)
    | none => true

/-- The records that are shown as evidence of a range of time, of an interval of token usage, or of
neither. Every record is a candidate there. -/
def recordEvidence (q : Query) (events : List EventRecord) (activity : ActivitySelection)
    (tokens : Option TokenActivitySelection) : List EventRecord :=
  events.filter fun event => q.inThread event.threadID && activity.matchesEvent event &&
    tokens.all fun s => s.matchesEvent event

theorem activityRange_inj {h : Hash} {snapshot : AnalyticsSnapshot} {q : Query} {mode mode' : String} {index index' : ℕ}
    (alike : activityRange h snapshot q mode index = activityRange h snapshot q mode' index') :
    mode = mode' ∧ index = index' := by
  have integral : ∀ (text mode : String) (index : ℕ),
      (Json.obj [("b",.str text),("m",.str mode),("i",.int index)]).Integral := by
    intro text mode index
    simp [Json.Integral,Json.IntegralMembers]
  have same := encodedJSON_injective (integral _ _ _) (integral _ _ _) alike
  simp only [Json.obj.injEq,List.cons.injEq,Prod.mk.injEq,Json.str.injEq,true_and,and_true] at same
  exact ⟨same.2.1,Int.ofNat_inj.mp (Json.int_inj.mp same.2.2)⟩

theorem scanActivity (q : Query) (events : List EventRecord) (scan : ActivityScan) :
    let scanned := events.foldl (ActivityScan.take q) scan
    scanned.eventCount = scan.eventCount+(events.filter fun e => q.inThread e.threadID).length ∧
      scanned.recorded = ((recordedScope q events).map fun e => e.occurredAt).foldl Recorded.add scan.recorded ∧
      scanned.unknown+scanned.legacy+(recordedScope q events).length =
        scan.unknown+scan.legacy+(events.filter fun e => q.inThread e.threadID).length := by
  induction events generalizing scan with
  | nil => exact ⟨rfl,rfl,rfl⟩
  | cons event events ih =>
    obtain ⟨counted,recorded,kinds⟩ := ih (scan.take q event)
    simp only [List.foldl_cons,recordedScope,List.filter_cons] at counted recorded kinds ⊢
    rw [counted,recorded]
    unfold ActivityScan.take at kinds ⊢
    cases inside : q.inThread event.threadID with
    | false =>
      simp only [inside,if_true,Bool.false_and,Bool.false_eq_true,if_false] at kinds ⊢
      exact ⟨trivial,trivial,kinds⟩
    | true =>
      simp only [inside,Bool.true_eq_false,if_false,Bool.true_and,if_true,List.length_cons] at kinds ⊢
      cases quality : clockQuality event with
      | unknown =>
        simp only [quality,reduceCtorEq,decide_false,Bool.false_eq_true,if_false] at kinds ⊢
        exact ⟨by omega,trivial,by omega⟩
      | legacy =>
        simp only [quality,reduceCtorEq,decide_false,Bool.false_eq_true,if_false] at kinds ⊢
        exact ⟨by omega,trivial,by omega⟩
      | recorded =>
        simp only [quality,decide_true,if_true,List.map_cons,List.foldl_cons,List.length_cons] at kinds ⊢
        exact ⟨by omega,trivial,by omega⟩

/-! The partition of the recorded instants. -/

def ActivityBucket.holds (row : ActivityBucket) (event : EventRecord) : Bool :=
  !event.occurredAt.before row.from_ && (event.occurredAt.before row.to_ ||
    row.includesEnd && event.occurredAt.equal row.to_)

/-- The buckets follow one another from the first instant to the last. Only the last one includes its
end, and a single instant has one bucket, from itself to itself. -/
structure Contiguous (first last : Time) (buckets : List ActivityBucket) : Prop where
  begins : ∀ row, buckets.head? = some row → row.from_.nanos = first.nanos
  ends : ∀ row, buckets.getLast? = some row → row.to_.nanos = last.nanos
  follows : ∀ i row row', buckets[i]? = some row → buckets[i+1]? = some row' → row.to_ = row'.from_
  includes_ : ∀ i row, buckets[i]? = some row → (row.includesEnd = true ↔ i+1 = buckets.length)
  rises : first.nanos < last.nanos → ∀ row ∈ buckets, row.from_.nanos < row.to_.nanos
  single : first.nanos = last.nanos → ∃ row, buckets = [row]

structure ActivityPartition (h : Hash) (snapshot : AnalyticsSnapshot) (events calls : List EventRecord) (q : Query)
    (report : Activity) : Prop where
  total : report.eventCount = (events.filter fun e => q.inThread e.threadID).length
  kinds : report.recordedTimeEvents+report.legacyTimeEvents+report.unknownTimeEvents = report.eventCount
  recorded : report.recordedTimeEvents = (recordedScope q events).length
  contiguous : recordedScope q events ≠ [] → report.buckets ≠ [] ∧ ∃ first ∈ recordedScope q events,
    ∃ last ∈ recordedScope q events, (∀ e ∈ recordedScope q events, first.occurredAt.nanos ≤ e.occurredAt.nanos ∧
      e.occurredAt.nanos ≤ last.occurredAt.nanos) ∧ Contiguous first.occurredAt last.occurredAt report.buckets
  one : ∀ event ∈ recordedScope q events, ∃! i : ℕ, ∃ row : ActivityBucket, report.buckets[i]? = some row ∧ row.holds event = true
  counted : ∀ row ∈ report.buckets, row.records = (recordedScope q events).countP (ActivityBucket.holds row)
  sum : (report.buckets.map fun row => row.records).sum = report.recordedTimeEvents
  selects : ∀ row ∈ report.buckets, ∀ q' : Query, q'.range = row.range → q'.thread = q.thread →
    q'.analyticsVersion = q.analyticsVersion → ∃ s', deriveActivity h snapshot events calls q' = .ok s' ∧
      recordEvidence q' events s' none = (recordedScope q events).filter (ActivityBucket.holds row)

section Report
variable {h : Hash} {snapshot : AnalyticsSnapshot} {events calls : List EventRecord} {q : Query}

def recordedInstants (q : Query) (events : List EventRecord) : Recorded :=
  recordedOf ((recordedScope q events).map fun e => e.occurredAt)

def activityBounds (q : Query) (events : List EventRecord) : List Time :=
  if recordedScope q events = [] then []
  else boundaries (recordedInstants q events).first (recordedInstants q events).last

def activityBuckets (h : Hash) (snapshot : AnalyticsSnapshot) (q : Query) (events calls : List EventRecord) :
    List ActivityBucket :=
  (List.range ((activityBounds q events).length-1)).map
    (activityBucket h snapshot q (activityBounds q events) (recordedScope q events) (recordedScope q calls))

theorem recordedInstants_inside {event : EventRecord} (member : event ∈ recordedScope q events) :
    (recordedInstants q events).first.nanos ≤ event.occurredAt.nanos ∧
      event.occurredAt.nanos ≤ (recordedInstants q events).last.nanos :=
  (recordedOf_spans _).inside _ (List.mem_map_of_mem member)

theorem recordedInstants_ordered : (recordedInstants q events).first.nanos ≤ (recordedInstants q events).last.nanos :=
  recordedOf_ordered _

theorem activityReport_eq : (activityReport h snapshot events calls q).2 = activityBounds q events ∧
    (activityReport h snapshot events calls q).1.buckets = activityBuckets h snapshot q events calls ∧
    (activityReport h snapshot events calls q).1.eventCount = (events.filter fun e => q.inThread e.threadID).length ∧
    (activityReport h snapshot events calls q).1.recordedTimeEvents = (recordedScope q events).length ∧
    (activityReport h snapshot events calls q).1.unknownTimeEvents+
      (activityReport h snapshot events calls q).1.legacyTimeEvents+(recordedScope q events).length =
        (activityReport h snapshot events calls q).1.eventCount := by
  obtain ⟨counted,recorded,kinds⟩ := scanActivity q events {}
  have count := (recordedOf_spans ((recordedScope q events).map fun e => e.occurredAt)).count
  rw [List.length_map] at count
  have bounds : (if (recordedInstants q events).count > 0 then
      boundaries (recordedInstants q events).first (recordedInstants q events).last else []) = activityBounds q events := by
    unfold activityBounds
    by_cases none_ : recordedScope q events = []
    · rw [if_pos none_,if_neg]
      rw [recordedInstants,count,none_]
      exact Nat.lt_irrefl 0
    · rw [if_neg none_,if_pos]
      exact lt_of_lt_of_eq (List.length_pos_iff.mpr none_) count.symm
  have scanned : (events.foldl (ActivityScan.take q) {}).recorded = recordedInstants q events := recorded
  simp only [Nat.zero_add] at counted kinds
  unfold activityReport activityBuckets
  simp only [scanned,bounds]
  exact ⟨trivial,trivial,counted,count,kinds.trans counted.symm⟩

theorem deriveActivity_report {s : ActivitySelection} (ok : deriveActivity h snapshot events calls q = .ok s) :
    s.boundaries = (activityReport h snapshot events calls q).2 ∧ s.report = (activityReport h snapshot events calls q).1 := by
  unfold deriveActivity at ok
  dsimp only at ok
  split at ok
  next =>
    cases ok
    exact ⟨rfl,rfl⟩
  next =>
    split at ok
    next =>
      cases ok
      exact ⟨rfl,rfl⟩
    next =>
      obtain ⟨_,-,ok⟩ := (bind_ok _ _ _).mp ok
      cases ok
      exact ⟨rfl,rfl⟩

theorem activityBuckets_get {i : ℕ} {row : ActivityBucket}
    (found : (activityBuckets h snapshot q events calls)[i]? = some row) : i < (activityBounds q events).length-1 ∧
      row = activityBucket h snapshot q (activityBounds q events) (recordedScope q events) (recordedScope q calls) i := by
  rw [activityBuckets,List.getElem?_map] at found
  obtain ⟨j,place,rfl⟩ := Option.map_eq_some_iff.mp found
  obtain ⟨small,same⟩ := List.getElem?_eq_some_iff.mp place
  rw [List.length_range] at small
  rw [List.getElem_range] at same
  exact ⟨small,by rw [← same]⟩

theorem activityBuckets_at {i : ℕ} (small : i < (activityBounds q events).length-1) :
    (activityBuckets h snapshot q events calls)[i]? =
      some (activityBucket h snapshot q (activityBounds q events) (recordedScope q events) (recordedScope q calls) i) := by
  rw [activityBuckets,List.getElem?_map,List.getElem?_range small]
  rfl

theorem activityBounds_of (filled : recordedScope q events ≠ []) : activityBounds q events =
    boundaries (recordedInstants q events).first (recordedInstants q events).last := if_neg filled

theorem activityBounds_length (filled : recordedScope q events ≠ []) : (activityBounds q events).length-1 =
    bucketCount ((recordedInstants q events).last.nanos-(recordedInstants q events).first.nanos) := by
  rw [activityBounds_of filled,boundaries_length,Nat.add_sub_cancel]

theorem activityBuckets_length : (activityBuckets h snapshot q events calls).length = (activityBounds q events).length-1 := by
  rw [activityBuckets,List.length_map,List.length_range]

theorem bucket_holds {i : ℕ} (small : i < (activityBounds q events).length-1) {event : EventRecord}
    (member : event ∈ recordedScope q events) :
    (activityBucket h snapshot q (activityBounds q events) (recordedScope q events) (recordedScope q calls) i).holds event =
      true ↔ bucketOf (activityBounds q events) event.occurredAt = i := by
  have filled : recordedScope q events ≠ [] := List.ne_nil_of_mem member
  obtain ⟨early,late⟩ := recordedInstants_inside member
  rw [activityBounds_length filled] at small
  have same := bucketOf_within recordedInstants_ordered early late small
  rw [← activityBounds_of filled] at same
  have final : (i+1 = (activityBounds q events).length-1) = (i = (activityBounds q events).length-1-1) := by
    rw [activityBounds_length filled]
    apply propext
    omega
  simp only [within,final] at same
  rw [same]
  rfl

theorem bucketOf_activity {event : EventRecord} (member : event ∈ recordedScope q events) :
    bucketOf (activityBounds q events) event.occurredAt < (activityBounds q events).length-1 := by
  have filled : recordedScope q events ≠ [] := List.ne_nil_of_mem member
  rw [activityBounds_length filled,activityBounds_of filled]
  exact bucketOf_lt _

theorem activity_contiguous (filled : recordedScope q events ≠ []) :
    activityBuckets h snapshot q events calls ≠ [] ∧
      Contiguous (recordedInstants q events).first (recordedInstants q events).last
        (activityBuckets h snapshot q events calls) := by
  have ordered := @recordedInstants_ordered events q
  have count := bucketCount_pos ((recordedInstants q events).last.nanos-(recordedInstants q events).first.nanos)
  have size : (activityBuckets h snapshot q events calls).length =
      bucketCount ((recordedInstants q events).last.nanos-(recordedInstants q events).first.nanos) := by
    rw [activityBuckets_length,activityBounds_length filled]
  have bounds := activityBounds_of filled
  refine ⟨List.ne_nil_of_length_pos (by omega),?_,?_,?_,?_,?_,?_⟩
  · intro row head
    rw [List.head?_eq_getElem?] at head
    obtain ⟨-,rfl⟩ := activityBuckets_get head
    simp only [activityBucket,bounds]
    exact boundary_first ordered
  · intro row end_
    rw [List.getLast?_eq_getElem?] at end_
    obtain ⟨-,rfl⟩ := activityBuckets_get end_
    simp only [activityBucket,bounds,size,Nat.sub_add_cancel count]
    exact boundary_last ordered
  · intro i row row' here next_
    obtain ⟨-,rfl⟩ := activityBuckets_get here
    obtain ⟨-,rfl⟩ := activityBuckets_get next_
    rfl
  · intro i row here
    obtain ⟨small,rfl⟩ := activityBuckets_get here
    rw [activityBuckets_length]
    simp only [activityBucket,decide_eq_true_eq]
    omega
  · intro apart row member
    obtain ⟨i,here⟩ := List.getElem?_of_mem member
    obtain ⟨small,rfl⟩ := activityBuckets_get here
    rw [activityBounds_length filled] at small
    simp only [activityBucket,bounds]
    exact boundary_lt apart small
  · intro same
    have one : bucketCount ((recordedInstants q events).last.nanos-(recordedInstants q events).first.nanos) = 1 := by
      rw [same,Int.sub_self]
      rfl
    rw [one] at size
    exact List.length_eq_one_iff.mp size

theorem deriveActivity_selects {q' : Query} (thread : q'.thread = q.thread)
    (version_ : q'.analyticsVersion = q.analyticsVersion) {i : ℕ} (small : i < (activityBounds q events).length-1)
    (range : q'.range = activityRange h snapshot q "bucket" i) :
    ∃ s', deriveActivity h snapshot events calls q' = .ok s' ∧ s'.unplaced = false ∧ s'.selected = some i ∧
      s'.boundaries = activityBounds q events := by
  have scope : recordedScope q' events = recordedScope q events := by simp [recordedScope,Query.inThread,thread]
  have bounds : activityBounds q' events = activityBounds q events := by simp [activityBounds,recordedInstants,scope]
  have ranges : ∀ mode index, activityRange h snapshot q' mode index = activityRange h snapshot q mode index := by
    intro mode index
    simp [activityRange,thread,version_]
  obtain ⟨bounds',buckets,-⟩ := @activityReport_eq h snapshot events calls q'
  have asked : q'.range ≠ "" := by
    intro none_
    have empty := congrArg decodeRawURL (range.symm.trans none_)
    rw [activityRange,encodedJSON,decode_encodeRawURL] at empty
    have text := congrArg (fun bytes => bytes.bind utf8Decode) empty
    simp only [Option.bind_some,utf8Decode_utf8,marshal,String.toList_ofList,Json.write] at text
    cases text
  have placed : (activityReport h snapshot events calls q').1.unplacedRange ≠ some q'.range := by
    have shape : (activityReport h snapshot events calls q').1.unplacedRange = none ∨
        (activityReport h snapshot events calls q').1.unplacedRange = some (activityRange h snapshot q' "unplaced" 0) := by
      unfold activityReport
      dsimp only
      split
      · exact .inr rfl
      · exact .inl rfl
    rcases shape with none_|unplaced
    · rw [none_]
      exact (Option.some_ne_none _).symm
    · rw [unplaced,range,ranges]
      intro same
      exact absurd (activityRange_inj (Option.some.inj same)).1 (by decide)
  have found : (List.range (activityReport h snapshot events calls q').1.buckets.length).find?
      (fun index => q'.range = activityRange h snapshot q' "bucket" index) = some i := by
    rw [List.find?_range_eq_some,buckets,activityBuckets_length,bounds]
    refine ⟨by rw [range,ranges]; exact decide_eq_true rfl,List.mem_range.mpr small,?_⟩
    intro j before
    rw [Bool.not_eq_true',decide_eq_false_iff_not,range,ranges]
    intro same
    exact absurd (activityRange_inj same).2 (Nat.ne_of_gt before)
  refine ⟨⟨(activityReport h snapshot events calls q').1,(activityReport h snapshot events calls q').2,some i,false⟩,?_,rfl,rfl,
    bounds'.trans bounds⟩
  unfold deriveActivity
  dsimp only
  rw [if_neg asked,if_neg placed,found]
  rfl

theorem deriveActivity_partition {s : ActivitySelection} (ok : deriveActivity h snapshot events calls q = .ok s) :
    ActivityPartition h snapshot events calls q s.report := by
  obtain ⟨-,report⟩ := deriveActivity_report ok
  obtain ⟨-,buckets,total,recorded,kinds⟩ := @activityReport_eq h snapshot events calls q
  rw [← report] at buckets total recorded kinds
  have sizes : ∀ i < (activityBounds q events).length-1,
      (recordedScope q events).countP (fun event => bucketOf (activityBounds q events) event.occurredAt = i) =
        (recordedScope q events).countP (activityBucket h snapshot q (activityBounds q events) (recordedScope q events)
          (recordedScope q calls) i).holds := by
    intro i small
    apply List.countP_congr
    intro event member
    rw [bucket_holds small member,decide_eq_true_eq]
  refine ⟨total,by omega,recorded,?_,?_,?_,?_,?_⟩
  · intro filled
    rw [buckets]
    obtain ⟨some_,contiguous⟩ := @activity_contiguous h snapshot events calls q filled
    have spans := recordedOf_spans ((recordedScope q events).map fun e => e.occurredAt)
    have instants : (recordedScope q events).map (fun e => e.occurredAt) ≠ [] := by simpa using filled
    obtain ⟨first,member,first_⟩ := List.mem_map.mp (spans.first instants)
    obtain ⟨last,member',last_⟩ := List.mem_map.mp (spans.last instants)
    refine ⟨some_,first,member,last,member',?_,?_⟩
    · rw [first_,last_]
      intro event inside
      exact recordedInstants_inside inside
    · rw [first_,last_]
      exact contiguous
  · intro event member
    have small := bucketOf_activity member
    have here := @activityBuckets_at h snapshot events calls q _ small
    refine ⟨bucketOf (activityBounds q events) event.occurredAt,⟨_,buckets ▸ here,(bucket_holds small member).mpr rfl⟩,?_⟩
    rintro j ⟨row,there,holds⟩
    rw [buckets] at there
    obtain ⟨small',rfl⟩ := activityBuckets_get there
    exact ((bucket_holds small' member).mp holds).symm
  · intro row member
    rw [buckets] at member
    obtain ⟨i,here⟩ := List.getElem?_of_mem member
    obtain ⟨small,rfl⟩ := activityBuckets_get here
    rw [← sizes i small,List.countP_eq_length_filter]
    rfl
  · have parts := @parts_perm ℕ EventRecord _ (fun event => bucketOf (activityBounds q events) event.occurredAt) _
      List.nodup_range (recordedScope q events) fun event member => List.mem_range.mpr (bucketOf_activity member)
    have sum := parts.length_eq
    rw [List.length_flatten,List.map_map] at sum
    rw [recorded,← sum,buckets,activityBuckets,List.map_map]
    rfl
  · intro row member q' range thread version_
    rw [buckets] at member
    obtain ⟨i,here⟩ := List.getElem?_of_mem member
    obtain ⟨small,rfl⟩ := activityBuckets_get here
    obtain ⟨s',ok',placed,selected,bounds⟩ := deriveActivity_selects thread version_ small range
    refine ⟨s',ok',?_⟩
    have inside : ∀ event : EventRecord, q'.inThread event.threadID = q.inThread event.threadID := by
      intro event
      simp [Query.inThread,thread]
    have own : (recordedScope q events).filter (ActivityBucket.holds (activityBucket h snapshot q
        (activityBounds q events) (recordedScope q events) (recordedScope q calls) i)) =
        (recordedScope q events).filter fun event => bucketOf (activityBounds q events) event.occurredAt = i := by
      apply List.filter_congr
      intro event member
      rw [Bool.eq_iff_iff,bucket_holds small member,decide_eq_true_eq]
    rw [own,recordEvidence,recordedScope,List.filter_filter]
    apply List.filter_congr
    intro event _
    simp only [ActivitySelection.matchesEvent,placed,selected,bounds,inside,Option.all_none,Bool.and_true,
      Bool.false_eq_true,if_false]
    rw [← Bool.and_assoc,Bool.and_comm]

/-! The intervals of token usage. -/

/-- The texts whose digests name the first intervals of a query. -/
def tokenRangeTexts (snapshot : AnalyticsSnapshot) (q : Query) (count : ℕ) : Set String :=
  {text | ∃ index < count, text = marshal (.arr [.str "token-range.v1",.int q.analyticsVersion,.str snapshot.session.id,
    .str snapshot.snapshotToken,.str q.thread,.str q.model,.int index])}

theorem tokenRange_inj {count : ℕ} (free : Set.InjOn h.hex (tokenRangeTexts snapshot q count)) {index index' : ℕ}
    (small : index < count) (small' : index' < count)
    (alike : tokenRange h snapshot q index = tokenRange h snapshot q index') : index = index' := by
  have integral : ∀ index : ℕ, (Json.arr [.str "token-range.v1",.int q.analyticsVersion,.str snapshot.session.id,
      .str snapshot.snapshotToken,.str q.thread,.str q.model,.int index]).Integral := by
    intro index
    simp [Json.Integral,Json.IntegralItems]
  have texts := free ⟨index,small,rfl⟩ ⟨index',small',rfl⟩ ((String.append_right_inj _).mp alike)
  have same := marshal_injective (integral _) (integral _) texts
  simp only [Json.arr.injEq,List.cons.injEq,true_and,and_true] at same
  exact Int.ofNat_inj.mp (Json.int_inj.mp same)

/-- Queries of the same scope and version. -/
structure SameScope (q q' : Query) : Prop where
  thread : q'.thread = q.thread
  model : q'.model = q.model
  analyticsVersion : q'.analyticsVersion = q.analyticsVersion

theorem tokenReport_scope {q' : Query} (scope : SameScope q q') :
    tokenReport h snapshot events q' = tokenReport h snapshot events q ∧
      scanTokens h q' snapshot.usage = scanTokens h q snapshot.usage ∧
      ∀ index, tokenRange h snapshot q' index = tokenRange h snapshot q index := by
  obtain ⟨thread,model,version_⟩ := scope
  have inThread : q'.inThread = q.inThread := funext fun id => by rw [Query.inThread,Query.inThread,thread]
  have inModel : q'.inModel h = q.inModel h := funext fun id => by rw [Query.inModel,Query.inModel,model]
  have ranges : ∀ index, tokenRange h snapshot q' index = tokenRange h snapshot q index := by
    intro index
    simp only [tokenRange,thread,model,version_]
  have scan : scanTokens h q' snapshot.usage = scanTokens h q snapshot.usage := by
    simp only [scanTokens_eq,tokenScope,untimedScope,timedScope,threadScope,modelScope,inThread,inModel,model]
  refine ⟨?_,scan,ranges⟩
  have bucket : tokenBucket h snapshot q' = tokenBucket h snapshot q := by
    funext bounds timed records index
    simp only [tokenBucket,ranges]
  simp only [tokenReport,scan,bucket,inThread,inModel,thread,model]

theorem tokenBounds_of (filled : (tokenBounds h q snapshot.usage).length-1 ≠ 0) : tokenBounds h q snapshot.usage =
    boundaries (timedRecorded h q snapshot.usage).first (timedRecorded h q snapshot.usage).last := by
  apply if_neg
  intro none_
  rw [tokenBounds,if_pos none_] at filled
  exact filled rfl

theorem within_interval {index : ℕ} (small : index < (tokenBounds h q snapshot.usage).length-1) (at_ : Time) :
    within (tokenBounds h q snapshot.usage) index at_ = true ↔
      (timedRecorded h q snapshot.usage).first.nanos ≤ at_.nanos ∧ at_.nanos ≤ (timedRecorded h q snapshot.usage).last.nanos ∧
        bucketOf (tokenBounds h q snapshot.usage) at_ = index := by
  have bounds := @tokenBounds_of h snapshot q (by omega)
  have ordered : (timedRecorded h q snapshot.usage).first.nanos ≤ (timedRecorded h q snapshot.usage).last.nanos :=
    recordedOf_ordered _
  rw [bounds,boundaries_length,Nat.add_sub_cancel] at small
  rw [bounds]
  constructor
  · intro inside
    have interval := inside
    simp only [within,Bool.and_eq_true,Bool.or_eq_true,Bool.not_eq_true',decide_eq_true_eq,Time.before,Time.equal,
      decide_eq_false_iff_not,Int.not_lt] at interval
    have low := boundary_mono ordered (Nat.zero_le index) small.le
    have high := boundary_mono ordered (Nat.succ_le_of_lt small) (Nat.le_refl _)
    rw [boundary_first ordered] at low
    rw [boundary_last ordered,Nat.succ_eq_add_one] at high
    have early : (timedRecorded h q snapshot.usage).first.nanos ≤ at_.nanos := low.trans interval.1
    have late : at_.nanos ≤ (timedRecorded h q snapshot.usage).last.nanos := by
      rcases interval.2 with before|⟨-,equal⟩
      · omega
      · omega
    exact ⟨early,late,(bucketOf_within ordered early late small).mpr inside⟩
  · rintro ⟨early,late,own⟩
    exact (bucketOf_within ordered early late small).mp own

theorem deriveTokenActivity_selects {s : TokenActivitySelection} (ok : deriveTokenActivity h snapshot events q = .ok s)
    (free : Set.InjOn h.hex (tokenRangeTexts snapshot q s.report.buckets.length)) {row : TokenActivityBucket}
    (member : row ∈ s.report.buckets) {q' : Query} (scope : SameScope q q') (range : q'.range = "")
    (asked : q'.tokenRange = row.range) : ∃ s' activity, deriveTokenActivity h snapshot events q' = .ok s' ∧
      deriveActivity h snapshot events calls q' = .ok activity ∧
      (recordEvidence q' events activity (some s')).length = row.records := by
  obtain ⟨report,bounds,found⟩ := deriveTokenActivity_ok ok
  obtain ⟨bounds',reports⟩ := tokenReport_reports h snapshot events q
  obtain ⟨sameReport,sameScan,ranges⟩ := @tokenReport_scope h snapshot events q q' scope
  rw [report] at free member
  have size : (tokenReport h snapshot events q).1.buckets.length = (tokenBounds h q snapshot.usage).length-1 := by
    rw [reports.buckets,List.length_map,List.length_range]
  rw [size] at free
  rw [reports.buckets] at member
  obtain ⟨index,place,rfl⟩ := List.mem_map.mp member
  have small := List.mem_range.mp place
  have name : q'.tokenRange = tokenRange h snapshot q index := asked
  have filled : q'.tokenRange ≠ "" := by
    rw [name]
    intro empty
    have text := congrArg String.toList empty
    rw [tokenRange,String.toList_append] at text
    cases text
  have selected : (List.range (tokenReport h snapshot events q').1.buckets.length).find?
      (fun index => q'.tokenRange = tokenRange h snapshot q' index) = some index := by
    rw [sameReport,size,List.find?_range_eq_some]
    refine ⟨by rw [name,ranges]; exact decide_eq_true rfl,place,?_⟩
    intro j before
    rw [Bool.not_eq_true',decide_eq_false_iff_not,name,ranges]
    intro same
    exact absurd (tokenRange_inj free small (before.trans small) same) (Nat.ne_of_gt before)
  refine ⟨⟨(tokenReport h snapshot events q').1,(tokenReport h snapshot events q').2,some index⟩,
    ⟨(activityReport h snapshot events calls q').1,(activityReport h snapshot events calls q').2,none,false⟩,?_,?_,?_⟩
  · unfold deriveTokenActivity
    rw [sameScan,found,failWhen_neg _ (by decide),ok_bind]
    dsimp only
    rw [if_neg filled,selected]
    rfl
  · unfold deriveActivity
    dsimp only
    rw [if_pos range]
    rfl
  · have inThread : ∀ id, q'.inThread id = q.inThread id := fun id => by rw [Query.inThread,Query.inThread,scope.thread]
    have same : recordEvidence q' events ⟨(activityReport h snapshot events calls q').1,
        (activityReport h snapshot events calls q').2,none,false⟩ (some ⟨(tokenReport h snapshot events q').1,
          (tokenReport h snapshot events q').2,some index⟩) =
        (recordsBeside h q snapshot.usage events).filter fun event =>
          bucketOf (tokenBounds h q snapshot.usage) event.occurredAt = index := by
      rw [recordEvidence,recordsBeside,List.filter_filter,sameReport,bounds']
      apply List.filter_congr
      intro event _
      have interval := within_interval small event.occurredAt
      simp only [ActivitySelection.matchesEvent,TokenActivitySelection.matchesEvent,Option.all_some,inThread]
      rw [Bool.eq_iff_iff]
      simp only [Bool.and_eq_true,interval,decide_eq_true_eq,Bool.not_eq_true',Time.before,Time.after,
        decide_eq_false_iff_not,Int.not_lt,Bool.false_eq_true,if_false]
      tauto
    rw [same,tokenBucket,List.countP_eq_length_filter]

end Report

/-- The buckets of the records part their instants, and the ranges of both kinds of buckets select what
is counted in them. -/
theorem activity_partitions (h : Hash) (snapshot : AnalyticsSnapshot) (events calls : List EventRecord) (q : Query) :
    (∀ s, deriveActivity h snapshot events calls q = .ok s → ActivityPartition h snapshot events calls q s.report) ∧
      ∀ s, deriveTokenActivity h snapshot events q = .ok s →
        Set.InjOn h.hex (tokenRangeTexts snapshot q s.report.buckets.length) → ∀ row ∈ s.report.buckets, ∀ q' : Query,
          SameScope q q' → q'.range = "" → q'.tokenRange = row.range → ∃ s' activity,
            deriveTokenActivity h snapshot events q' = .ok s' ∧ deriveActivity h snapshot events calls q' = .ok activity ∧
              (recordEvidence q' events activity (some s')).length = row.records :=
  ⟨fun _ ok => deriveActivity_partition ok,
    fun _ ok free _ member _ scope range asked => deriveTokenActivity_selects ok free member scope range asked⟩

def recordAt (nanos : ℤ) : EventRecord where
  id := "e_1"
  sessionID := "s_1"
  threadID := "root"
  sourceKey := "1:e"
  revision := 1
  projectionRevision := 1
  digest := ""
  sourceOrder := 0
  eventIndex := 0
  orderFidelity := "native"
  fidelity := "native"
  rawRef := ""
  adapterVersion := ""
  schemaVersion := "atape.acp-centered.v5"
  observedAt := .zero
  receivedAt := .zero
  ingestSeq := 0
  kind := "message"
  author := "Ada"
  occurredAt := ⟨nanos,0⟩
  text := ""
  toolLabel := ""
  toolUpdateJSON := ""
  childThreadID := none

/-- Two samples that are two nanoseconds apart. -/
def twoInstants : AnalyticsSnapshot :=
  {twoModels with usage := [oneToken "a",{oneToken "a" with occurredAt := ⟨3,0⟩}]}

def intervalHash : Hash := .table ([0,1].map fun index : ℕ => marshal (.arr [.str "token-range.v1",.int 5,.str "s_1",
  .str "legacy:v1:1",.str "",.str "",.int index]))

theorem activity_partitions_twoInstants : ∃ s t,
    deriveActivity intervalHash twoInstants [recordAt 1,recordAt 3] [] {analyticsVersion := 5} = .ok s ∧
    ActivityPartition intervalHash twoInstants [recordAt 1,recordAt 3] [] {analyticsVersion := 5} s.report ∧
    deriveTokenActivity intervalHash twoInstants [recordAt 1,recordAt 3] {analyticsVersion := 5} = .ok t ∧
    ∀ row ∈ t.report.buckets, ∃ t' activity,
      deriveTokenActivity intervalHash twoInstants [recordAt 1,recordAt 3]
        {analyticsVersion := 5,tokenRange := row.range} = .ok t' ∧
      deriveActivity intervalHash twoInstants [recordAt 1,recordAt 3] []
        {analyticsVersion := 5,tokenRange := row.range} = .ok activity ∧
      (recordEvidence {analyticsVersion := 5,tokenRange := row.range} [recordAt 1,recordAt 3] activity (some t')).length =
        row.records := by
  obtain ⟨partitions,selects⟩ := activity_partitions intervalHash twoInstants [recordAt 1,recordAt 3] []
    {analyticsVersion := 5}
  have derived : (deriveActivity intervalHash twoInstants [recordAt 1,recordAt 3] [] {analyticsVersion := 5}).isOk = true := by
    decide
  have counted : (deriveTokenActivity intervalHash twoInstants [recordAt 1,recordAt 3] {analyticsVersion := 5}).isOk =
      true := by decide
  cases first : deriveActivity intervalHash twoInstants [recordAt 1,recordAt 3] [] {analyticsVersion := 5} with
  | error failure =>
    rw [first] at derived
    cases derived
  | ok s =>
    cases second : deriveTokenActivity intervalHash twoInstants [recordAt 1,recordAt 3] {analyticsVersion := 5} with
    | error failure =>
      rw [second] at counted
      cases counted
    | ok t =>
      have two : t.report.buckets.length = 2 := by
        rw [(deriveTokenActivity_ok second).1]
        decide
      have free : Set.InjOn intervalHash.hex (tokenRangeTexts twoInstants {analyticsVersion := 5} 2) := by
        apply (Hash.table_collisionFree (by decide)).hex.mono
        rintro text ⟨index,small,rfl⟩
        exact List.mem_map.mpr ⟨index,by simp; omega,rfl⟩
      refine ⟨s,t,rfl,partitions s first,rfl,?_⟩
      intro row member
      exact selects t second (two ▸ free) row member {analyticsVersion := 5,tokenRange := row.range} ⟨rfl,rfl,rfl⟩ rfl rfl

/-- With one instant the bounds of the bucket do not rise. -/
theorem single_instant : (deriveActivity (.table []) twoModels [recordAt 1] [] {}).toOption.map (fun s =>
    s.report.buckets.map fun row => (row.from_,row.to_,row.records)) = some [(⟨1,0⟩,⟨1,0⟩,1)] := by
  decide

end ATape.SessionAnalytics
