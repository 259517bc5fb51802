import ATape.Analytics.Query
import ATape.Analytics.Tokens

/-! Token usage by model, thread and time. Each breakdown sums the same samples as the total it stands
under. -/
namespace ATape.SessionAnalytics
open Foundation Go SourceIdentity
open Canonical (EventRecord UsageRecord)

structure TokenModel where
  key : String
  model : Option String
  samples : ℕ
  tokens : TokenAccounting
  cache : TokenCache
deriving DecidableEq

structure TokenThread where
  id : String
  samples : ℕ
  tokens : TokenAccounting
  cache : TokenCache
deriving DecidableEq

structure TokenActivityBucket where
  from_ : Time
  to_ : Time
  includesEnd : Bool
  samples : ℕ
  tokens : TokenAccounting
  records : ℕ
  range : String
deriving DecidableEq

structure TokenActivity where
  scopeThreadID : Option String
  scopeModelKey : Option String
  samples : ℕ
  timedSamples : ℕ
  untimedSamples : ℕ
  firstRecordedAt : Option Time
  lastRecordedAt : Option Time
  tokens : TokenAccounting
  untimedTokens : TokenAccounting
  cache : TokenCache
  models : List TokenModel
  threads : List TokenThread
  buckets : List TokenActivityBucket
deriving DecidableEq

structure TokenActivitySelection where
  report : TokenActivity
  boundaries : List Time
  selected : Option ℕ

def modelKey (h : Hash) (model : String) : String :=
  "model:"++h.hex (marshal (.arr [.str "usage-model.v1",.str model]))

def tokenRange (h : Hash) (snapshot : AnalyticsSnapshot) (q : Query) (index : ℕ) : String :=
  "tokens:"++h.hex (marshal (.arr [.str "token-range.v1",.int q.analyticsVersion,.str snapshot.session.id,
    .str snapshot.snapshotToken,.str q.thread,.str q.model,.int index]))

def Query.inModel (q : Query) (h : Hash) (model : String) : Bool := q.model = "" || q.model = modelKey h model

/-- What the first loop over the usage has found. -/
structure TokenScan where
  total : TokenGroup := {}
  untimed : TokenAccountingSum := {}
  untimedSamples : ℕ := 0
  models : Table String TokenGroup := ∅
  threads : Table String TokenGroup := ∅
  modelFound : Bool
  recorded : Recorded := {}

def TokenScan.take (h : Hash) (q : Query) (scan : TokenScan) (usage : UsageRecord) : TokenScan :=
  let matchesThread := q.inThread usage.threadID
  let matchesModel := q.inModel h usage.model
  let timed := matchesThread && matchesModel && !usage.occurredAt.isZero
  let untimed := matchesThread && matchesModel && usage.occurredAt.isZero
  { total := if (matchesThread && matchesModel) = true then scan.total.add usage else scan.total
    untimed := if untimed = true then scan.untimed.add usage else scan.untimed
    untimedSamples := if untimed = true then scan.untimedSamples+1 else scan.untimedSamples
    models := if matchesThread = true then intoGroup (fun u => u.model) {} TokenGroup.add scan.models usage else scan.models
    threads :=
      if matchesModel = true then intoGroup (fun u => u.threadID) {} TokenGroup.add scan.threads usage else scan.threads
    modelFound := scan.modelFound || q.model = modelKey h usage.model
    recorded := if timed = true then scan.recorded.add usage.occurredAt else scan.recorded }

def scanTokens (h : Hash) (q : Query) (usage : List UsageRecord) : TokenScan :=
  usage.foldl (TokenScan.take h q) { modelFound := q.model = "" }

def modelRow (h : Hash) (row : String × TokenGroup) : TokenModel where
  key := modelKey h row.1
  model := if row.1 = "" then none else some row.1
  samples := row.2.samples
  tokens := row.2.tokens.get
  cache := row.2.cache.get

/-- The order of the rows; an unnamed model comes first. -/
def TokenModel.less (a b : TokenModel) : Bool :=
  match a.model,b.model with
  | none,some _ => true
  | some x,some y => x < y
  | _,none => false

def threadRow (row : String × TokenGroup) : TokenThread where
  id := row.1
  samples := row.2.samples
  tokens := row.2.tokens.get
  cache := row.2.cache.get

/-- A bucket with the samples of its interval and the records beside them. -/
def tokenBucket (h : Hash) (snapshot : AnalyticsSnapshot) (q : Query) (bounds : List Time) (timed : List UsageRecord)
    (records : List EventRecord) (index : ℕ) : TokenActivityBucket :=
  let own := timed.filter fun usage => bucketOf bounds usage.occurredAt = index
  { from_ := bounds.getD index .zero
    to_ := bounds.getD (index+1) .zero
    includesEnd := index = bounds.length-1-1
    samples := own.length
    tokens := (own.foldl TokenAccountingSum.add {}).get
    records := records.countP fun event => bucketOf bounds event.occurredAt = index
    range := tokenRange h snapshot q index }

/-- The token activity with the bounds of its buckets. -/
def tokenReport (h : Hash) (snapshot : AnalyticsSnapshot) (events : List EventRecord) (q : Query) :
    TokenActivity × List Time :=
  let scan := scanTokens h q snapshot.usage
  let bounds := if scan.recorded.count > 0 then boundaries scan.recorded.first scan.recorded.last else []
  let timed := snapshot.usage.filter fun usage =>
    q.inThread usage.threadID && q.inModel h usage.model && !usage.occurredAt.isZero
  let records := events.filter fun event =>
    q.inThread event.threadID && decide (clockQuality event = .recorded) &&
      !event.occurredAt.before scan.recorded.first && !event.occurredAt.after scan.recorded.last
  ({ scopeThreadID := if q.thread = "" then none else some q.thread
     scopeModelKey := if q.model = "" then none else some q.model
     samples := scan.total.samples
     timedSamples := scan.recorded.count
     untimedSamples := scan.untimedSamples
     firstRecordedAt := if scan.recorded.count > 0 then some scan.recorded.first.utc else none
     lastRecordedAt := if scan.recorded.count > 0 then some scan.recorded.last.utc else none
     tokens := scan.total.tokens.get
     untimedTokens := scan.untimed.get
     cache := scan.total.cache.get
     models := (scan.models.rows.map (modelRow h)).mergeSort fun a b => !b.less a
     threads := (scan.threads.rows.map threadRow).mergeSort fun a b => a.id ≤ b.id
     buckets := (List.range (bounds.length-1)).map (tokenBucket h snapshot q bounds timed records) },bounds)

def deriveTokenActivity (h : Hash) (snapshot : AnalyticsSnapshot) (events : List EventRecord) (q : Query) :
    Except Failure TokenActivitySelection := do
  failWhen ((scanTokens h q snapshot.usage).modelFound = false) (.invalidQuery "model" "is outside this snapshot")
  let (report,bounds) := tokenReport h snapshot events q
  if q.tokenRange = "" then pure ⟨report,bounds,none⟩
  else do
    let selected ← present
      ((List.range report.buckets.length).find? fun index => q.tokenRange = tokenRange h snapshot q index)
      (.invalidQuery "tokenRange" "must select a token interval from this session, snapshot, version, model and thread")
    pure ⟨report,bounds,some selected⟩

/-- Whether a record belongs to the selected interval. -/
def TokenActivitySelection.matchesEvent (s : TokenActivitySelection) (event : EventRecord) : Bool :=
  match s.selected with
  | none => false
  | some index => decide (clockQuality event = .recorded) && within s.boundaries index event.occurredAt

/-! What the loop over the usage finds. -/

theorem group_fold (usages : List UsageRecord) (g : TokenGroup) : usages.foldl TokenGroup.add g =
    { samples := g.samples+usages.length
      tokens := usages.foldl TokenAccountingSum.add g.tokens
      cache := usages.foldl TokenCacheSum.add g.cache } := by
  induction usages generalizing g with
  | nil => rfl
  | cons usage usages ih =>
    rw [List.foldl_cons,ih,List.length_cons]
    simp only [TokenGroup.add,List.foldl_cons,Nat.add_assoc,Nat.add_comm 1]

section Scopes
variable (h : Hash) (q : Query)

def threadScope (usage : List UsageRecord) : List UsageRecord := usage.filter fun u => q.inThread u.threadID

def modelScope (usage : List UsageRecord) : List UsageRecord := usage.filter fun u => q.inModel h u.model

def tokenScope (usage : List UsageRecord) : List UsageRecord :=
  usage.filter fun u => q.inThread u.threadID && q.inModel h u.model

def untimedScope (usage : List UsageRecord) : List UsageRecord :=
  usage.filter fun u => q.inThread u.threadID && q.inModel h u.model && u.occurredAt.isZero

def timedScope (usage : List UsageRecord) : List UsageRecord :=
  usage.filter fun u => q.inThread u.threadID && q.inModel h u.model && !u.occurredAt.isZero

theorem scan_fold (usage : List UsageRecord) (scan : TokenScan) : usage.foldl (TokenScan.take h q) scan =
    { total := (tokenScope h q usage).foldl TokenGroup.add scan.total
      untimed := (untimedScope h q usage).foldl TokenAccountingSum.add scan.untimed
      untimedSamples := scan.untimedSamples+(untimedScope h q usage).length
      models := (threadScope q usage).foldl (intoGroup (fun u => u.model) {} TokenGroup.add) scan.models
      threads := (modelScope h q usage).foldl (intoGroup (fun u => u.threadID) {} TokenGroup.add) scan.threads
      modelFound := scan.modelFound || usage.any fun u => q.model = modelKey h u.model
      recorded := ((timedScope h q usage).map fun u => u.occurredAt).foldl Recorded.add scan.recorded } := by
  induction usage generalizing scan with
  | nil => simp [tokenScope,untimedScope,threadScope,modelScope,timedScope]
  | cons u usage ih =>
    rw [List.foldl_cons,ih]
    simp only [tokenScope,untimedScope,threadScope,modelScope,timedScope,List.filter_cons,TokenScan.take,List.any_cons,
      Bool.or_assoc]
    cases q.inThread u.threadID <;> cases q.inModel h u.model <;> cases u.occurredAt.isZero <;>
      simp [Nat.add_assoc,Nat.add_comm 1]

theorem scanTokens_eq (usage : List UsageRecord) : scanTokens h q usage =
    { total := (tokenScope h q usage).foldl TokenGroup.add {}
      untimed := (untimedScope h q usage).foldl TokenAccountingSum.add {}
      untimedSamples := (untimedScope h q usage).length
      models := grouped (fun u => u.model) {} TokenGroup.add (threadScope q usage)
      threads := grouped (fun u => u.threadID) {} TokenGroup.add (modelScope h q usage)
      modelFound := decide (q.model = "") || usage.any fun u => q.model = modelKey h u.model
      recorded := recordedOf ((timedScope h q usage).map fun u => u.occurredAt) } := by
  rw [scanTokens,scan_fold]
  simp only [Nat.zero_add]
  rfl

end Scopes

theorem grouped_rows {key : UsageRecord → String} {usages : List UsageRecord} {row : String × TokenGroup}
    (member : row ∈ (grouped key {} TokenGroup.add usages).rows) :
    row.2 = (usages.filter fun u => key u = row.1).foldl TokenGroup.add {} :=
  (grouped_own key {} TokenGroup.add ((Table.mem_rows _ _ _).mp member)).2

theorem group_tokens (usages : List UsageRecord) :
    (usages.foldl TokenGroup.add {}).tokens.get = accounting usages ∧
      (usages.foldl TokenGroup.add {}).cache.get = cache usages ∧
      (usages.foldl TokenGroup.add {}).samples = usages.length := by
  rw [group_fold]
  exact ⟨rfl,rfl,Nat.zero_add _⟩

section Sums
variable {usages : List UsageRecord} {key : UsageRecord → String} {row : Type} {make : String × TokenGroup → row}
  {rows : List row}

theorem rows_sumOf (perm : rows.Perm ((grouped key {} TokenGroup.add usages).rows.map make))
    (tokens : row → TokenAccounting) (caches : row → TokenCache)
    (tokens_ : ∀ r, tokens (make r) = r.2.tokens.get) (caches_ : ∀ r, caches (make r) = r.2.cache.get) :
    ∃ parts : List (List UsageRecord), parts.flatten.Perm usages ∧ (rows.map tokens).Perm (parts.map accounting) ∧
      (rows.map caches).Perm (parts.map cache) := by
  refine ⟨_,grouped_parts key {} TokenGroup.add usages,?_,?_⟩
  · refine (perm.map tokens).trans (.of_eq ?_)
    rw [List.map_map,List.map_map]
    apply List.map_congr_left
    intro r member
    rw [Function.comp,tokens_,grouped_rows member]
    exact (group_tokens _).1
  · refine (perm.map caches).trans (.of_eq ?_)
    rw [List.map_map,List.map_map]
    apply List.map_congr_left
    intro r member
    rw [Function.comp,caches_,grouped_rows member]
    exact (group_tokens _).2.1

end Sums
/-! The report. -/

def timedRecorded (h : Hash) (q : Query) (usage : List UsageRecord) : Recorded :=
  recordedOf ((timedScope h q usage).map fun u => u.occurredAt)

def recordsBeside (h : Hash) (q : Query) (usage : List UsageRecord) (events : List EventRecord) : List EventRecord :=
  events.filter fun event => q.inThread event.threadID && decide (clockQuality event = .recorded) &&
    !event.occurredAt.before (timedRecorded h q usage).first && !event.occurredAt.after (timedRecorded h q usage).last

def tokenBounds (h : Hash) (q : Query) (usage : List UsageRecord) : List Time :=
  if timedScope h q usage = [] then [] else boundaries (timedRecorded h q usage).first (timedRecorded h q usage).last

structure Reports (h : Hash) (snapshot : AnalyticsSnapshot) (events : List EventRecord) (q : Query)
    (report : TokenActivity) : Prop where
  buckets : report.buckets = (List.range ((tokenBounds h q snapshot.usage).length-1)).map
    (tokenBucket h snapshot q (tokenBounds h q snapshot.usage) (timedScope h q snapshot.usage)
      (recordsBeside h q snapshot.usage events))
  tokens : report.tokens = accounting (tokenScope h q snapshot.usage)
  cache : report.cache = cache (tokenScope h q snapshot.usage)
  untimed : report.untimedTokens = accounting (untimedScope h q snapshot.usage)
  models : report.models.Perm
    ((grouped (fun u => u.model) {} TokenGroup.add (threadScope q snapshot.usage)).rows.map (modelRow h))
  threads : report.threads.Perm
    ((grouped (fun u => u.threadID) {} TokenGroup.add (modelScope h q snapshot.usage)).rows.map threadRow)

theorem tokenReport_reports (h : Hash) (snapshot : AnalyticsSnapshot) (events : List EventRecord) (q : Query) :
    (tokenReport h snapshot events q).2 = tokenBounds h q snapshot.usage ∧
      Reports h snapshot events q (tokenReport h snapshot events q).1 := by
  have counted := (recordedOf_spans ((timedScope h q snapshot.usage).map fun u => u.occurredAt)).count
  rw [List.length_map] at counted
  obtain ⟨tokens,cache_,-⟩ := group_tokens (tokenScope h q snapshot.usage)
  have bounds : (if (timedRecorded h q snapshot.usage).count > 0 then boundaries (timedRecorded h q snapshot.usage).first
      (timedRecorded h q snapshot.usage).last else []) = tokenBounds h q snapshot.usage := by
    unfold tokenBounds
    by_cases none_ : timedScope h q snapshot.usage = []
    · rw [if_pos none_,if_neg]
      rw [timedRecorded,counted,none_]
      exact Nat.lt_irrefl 0
    · rw [if_neg none_,if_pos]
      exact lt_of_lt_of_eq (List.length_pos_iff.mpr none_) counted.symm
  have recorded : recordedOf ((timedScope h q snapshot.usage).map fun u => u.occurredAt) =
      timedRecorded h q snapshot.usage := rfl
  unfold tokenReport
  simp only [scanTokens_eq,recorded,bounds]
  exact ⟨trivial,rfl,tokens,cache_,rfl,List.mergeSort_perm _ _,List.mergeSort_perm _ _⟩

theorem deriveTokenActivity_ok {h : Hash} {snapshot : AnalyticsSnapshot} {events : List EventRecord} {q : Query}
    {s : TokenActivitySelection} (ok : deriveTokenActivity h snapshot events q = .ok s) :
    s.report = (tokenReport h snapshot events q).1 ∧ s.boundaries = tokenBounds h q snapshot.usage ∧
      (scanTokens h q snapshot.usage).modelFound = true := by
  obtain ⟨bounds,-⟩ := tokenReport_reports h snapshot events q
  simp only [deriveTokenActivity,bind_ok,failWhen_ok,exists_const,Bool.not_eq_false] at ok
  obtain ⟨found,ok⟩ := ok
  split at ok
  next =>
    cases ok
    exact ⟨rfl,bounds,found⟩
  next =>
    obtain ⟨_,-,ok⟩ := (bind_ok _ _ _).mp ok
    cases ok
    exact ⟨rfl,bounds,found⟩

/-- The totals of a report are exact, and each breakdown adds up to the samples that it breaks down. -/
structure TokenTotals (h : Hash) (snapshot : AnalyticsSnapshot) (q : Query) (report : TokenActivity) : Prop where
  session : report.tokens.Exact (tokenScope h q snapshot.usage) ∧ report.cache.Exact (tokenScope h q snapshot.usage)
  untimed : report.untimedTokens.Exact (untimedScope h q snapshot.usage)
  models : ∀ row ∈ report.models, ∃ model, row.key = modelKey h model ∧
    row.tokens.Exact ((threadScope q snapshot.usage).filter fun u => u.model = model) ∧
    row.cache.Exact ((threadScope q snapshot.usage).filter fun u => u.model = model)
  threads : ∀ row ∈ report.threads,
    row.tokens.Exact ((modelScope h q snapshot.usage).filter fun u => u.threadID = row.id) ∧
    row.cache.Exact ((modelScope h q snapshot.usage).filter fun u => u.threadID = row.id)
  buckets : ∀ row ∈ report.buckets, row.tokens.Exact ((timedScope h q snapshot.usage).filter fun u =>
    !u.occurredAt.before row.from_ && (u.occurredAt.before row.to_ || row.includesEnd && u.occurredAt.equal row.to_))
  byModel : (accounting (threadScope q snapshot.usage)).SumOf (report.models.map fun row => row.tokens) ∧
    (cache (threadScope q snapshot.usage)).SumOf (report.models.map fun row => row.cache)
  byThread : (accounting (modelScope h q snapshot.usage)).SumOf (report.threads.map fun row => row.tokens) ∧
    (cache (modelScope h q snapshot.usage)).SumOf (report.threads.map fun row => row.cache)
  byTime : report.tokens.SumOf (report.untimedTokens::report.buckets.map fun row => row.tokens)
  everyModel : q.model = "" → report.tokens.SumOf (report.models.map fun row => row.tokens) ∧
    report.cache.SumOf (report.models.map fun row => row.cache)
  everyThread : q.thread = "" → report.tokens.SumOf (report.threads.map fun row => row.tokens) ∧
    report.cache.SumOf (report.threads.map fun row => row.cache)

section Report
variable {h : Hash} {snapshot : AnalyticsSnapshot} {events : List EventRecord} {q : Query} {s : TokenActivitySelection}

theorem tokenScope_all (usage : List UsageRecord) :
    (q.model = "" → tokenScope h q usage = threadScope q usage) ∧
      (q.thread = "" → tokenScope h q usage = modelScope h q usage) := by
  constructor
  · intro none_
    simp [tokenScope,threadScope,Query.inModel,none_]
  · intro none_
    simp [tokenScope,modelScope,Query.inThread,none_]

theorem timed_parts (usage : List UsageRecord) : (untimedScope h q usage++timedScope h q usage).Perm (tokenScope h q usage) := by
  have parts := List.filter_append_perm (fun u : UsageRecord => u.occurredAt.isZero) (tokenScope h q usage)
  simp only [tokenScope,List.filter_filter] at parts
  simp only [untimedScope,timedScope,tokenScope,Bool.and_comm _ (Time.isZero _),Bool.and_comm _ (!Time.isZero _)]
  exact parts

theorem bucket_interval {bounds : List Time} {first last : Time} (bounds_ : bounds = boundaries first last)
    (ordered : first.nanos ≤ last.nanos) {timed : List UsageRecord}
    (inside : ∀ u ∈ timed, first.nanos ≤ u.occurredAt.nanos ∧ u.occurredAt.nanos ≤ last.nanos) {index : ℕ}
    (own : index < bounds.length-1) : (timed.filter fun u => bucketOf bounds u.occurredAt = index) =
      timed.filter fun u => !u.occurredAt.before (bounds.getD index .zero) &&
        (u.occurredAt.before (bounds.getD (index+1) .zero) ||
          decide (index = bounds.length-1-1) && u.occurredAt.equal (bounds.getD (index+1) .zero)) := by
  subst bounds_
  rw [boundaries_length,Nat.add_sub_cancel] at own
  apply List.filter_congr
  intro u member
  obtain ⟨early,late⟩ := inside u member
  have same := bucketOf_within ordered early late own
  have final : (index+1 = (boundaries first last).length-1) = (index = (boundaries first last).length-1-1) := by
    rw [boundaries_length]
    apply propext
    omega
  simp only [within,final] at same
  rw [Bool.eq_iff_iff,decide_eq_true_eq,same]

theorem deriveTokenActivity_totals (ok : deriveTokenActivity h snapshot events q = .ok s) :
    TokenTotals h snapshot q s.report := by
  obtain ⟨report,-⟩ := deriveTokenActivity_ok ok
  obtain ⟨-,reports⟩ := tokenReport_reports h snapshot events q
  rw [← report] at reports
  obtain ⟨buckets,tokens,cache_,untimed,models,threads⟩ := reports
  have spans := recordedOf_spans ((timedScope h q snapshot.usage).map fun u => u.occurredAt)
  have ordered := recordedOf_ordered ((timedScope h q snapshot.usage).map fun u => u.occurredAt)
  have inside : ∀ u ∈ timedScope h q snapshot.usage, _ := fun u member =>
    spans.inside u.occurredAt (List.mem_map_of_mem member)
  have some_ : (tokenBounds h q snapshot.usage).length-1 ≠ 0 → tokenBounds h q snapshot.usage = boundaries
      (timedRecorded h q snapshot.usage).first (timedRecorded h q snapshot.usage).last := by
    intro filled
    apply if_neg
    intro none_
    rw [tokenBounds,if_pos none_] at filled
    exact filled rfl
  have byModel : (accounting (threadScope q snapshot.usage)).SumOf (s.report.models.map fun row => row.tokens) ∧
      (cache (threadScope q snapshot.usage)).SumOf (s.report.models.map fun row => row.cache) := by
    obtain ⟨parts,whole,first,second⟩ := rows_sumOf models (fun row => row.tokens) (fun row => row.cache) (fun _ => rfl) fun _ => rfl
    exact ⟨(accounting_sumOf whole).perm first.symm,(cache_sumOf whole).perm second.symm⟩
  have byThread : (accounting (modelScope h q snapshot.usage)).SumOf (s.report.threads.map fun row => row.tokens) ∧
      (cache (modelScope h q snapshot.usage)).SumOf (s.report.threads.map fun row => row.cache) := by
    obtain ⟨parts,whole,first,second⟩ := rows_sumOf threads (fun row => row.tokens) (fun row => row.cache) (fun _ => rfl) fun _ => rfl
    exact ⟨(accounting_sumOf whole).perm first.symm,(cache_sumOf whole).perm second.symm⟩
  refine ⟨?_,?_,?_,?_,?_,byModel,byThread,?_,?_,?_⟩
  · rw [tokens,cache_]
    exact ⟨accounting_exact _,cache_exact _⟩
  · rw [untimed]
    exact accounting_exact _
  · intro row member
    obtain ⟨r,held,rfl⟩ := List.mem_map.mp (models.mem_iff.mp member)
    have own := grouped_rows held
    refine ⟨r.1,rfl,?_,?_⟩
    · simp only [modelRow,own,(group_tokens _).1]
      exact accounting_exact _
    · simp only [modelRow,own,(group_tokens _).2.1]
      exact cache_exact _
  · intro row member
    obtain ⟨r,held,rfl⟩ := List.mem_map.mp (threads.mem_iff.mp member)
    have own := grouped_rows held
    constructor
    · simp only [threadRow,own,(group_tokens _).1]
      exact accounting_exact _
    · simp only [threadRow,own,(group_tokens _).2.1]
      exact cache_exact _
  · intro row member
    rw [buckets] at member
    obtain ⟨index,own,rfl⟩ := List.mem_map.mp member
    have small := List.mem_range.mp own
    have interval := bucket_interval (some_ (by omega)) ordered inside small
    simp only [tokenBucket]
    rw [← interval]
    exact accounting_exact _
  · rw [tokens,untimed,buckets,List.map_map]
    have parts : (untimedScope h q snapshot.usage::(List.range ((tokenBounds h q snapshot.usage).length-1)).map fun index =>
        (timedScope h q snapshot.usage).filter fun u => bucketOf (tokenBounds h q snapshot.usage) u.occurredAt = index).flatten.Perm
          (tokenScope h q snapshot.usage) := by
      rw [List.flatten_cons]
      refine ((parts_perm List.nodup_range ?_).append_left _).trans (timed_parts _)
      intro u member
      have filled : timedScope h q snapshot.usage ≠ [] := List.ne_nil_of_mem member
      rw [tokenBounds,if_neg filled,List.mem_range,boundaries_length,Nat.add_sub_cancel]
      exact bucketOf_lt _
    have sums := accounting_sumOf parts
    rw [List.map_cons,List.map_map] at sums
    exact sums
  · intro none_
    rw [tokens,cache_,(tokenScope_all snapshot.usage).1 none_]
    exact byModel
  · intro none_
    rw [tokens,cache_,(tokenScope_all snapshot.usage).2 none_]
    exact byThread

end Report

def oneToken (model : String) : UsageRecord where
  sourceKey := model
  sessionID := "s_1"
  threadID := "root"
  revision := 1
  digest := ""
  occurredAt := ⟨1,0⟩
  model
  inputTokens := some 1
  outputTokens := none
  cacheReadTokens := none
  cacheWriteTokens := none

def twoModels : AnalyticsSnapshot where
  snapshotToken := "legacy:v1:1"
  head := ""
  session :=
    { id := "s_1"
      projectID := "p_1"
      capturedByUserID := "ada"
      sourceKey := "1:s"
      revision := 1
      digest := ""
      title := "Notes"
      summary := ""
      insight := ""
      actor := ⟨"Ada","codex"⟩
      branch := ""
      status := "active"
      captureStatus := "healthy"
      updatedAt := .zero
      reportedEventCount := 0 }
  threads := []
  events := []
  usage := [oneToken "a",oneToken "b"]

theorem deriveTokenActivity_twoModels : ∃ s, deriveTokenActivity (.table []) twoModels [] {} = .ok s ∧
    TokenTotals (.table []) twoModels {} s.report := by
  have accepted : (deriveTokenActivity (.table []) twoModels [] {}).isOk = true := by decide
  cases result : deriveTokenActivity (.table []) twoModels [] {} with
  | error failure =>
    rw [result] at accepted
    cases accepted
  | ok s => exact ⟨s,rfl,deriveTokenActivity_totals result⟩

def modelHash : Hash := .table [marshal (.arr [.str "usage-model.v1",.str "a"])]

/-- Without a sample there is no subtotal, and the rows of the models do not heed the selected model. -/
theorem unreported_subtotal : ((accounting []).input.knownSubtotal = none ∧
      (knownSum (([] : List UsageRecord).map fun u => sample u.inputTokens) : ℤ) ≤ maxSafeInteger) ∧
    ∃ s, deriveTokenActivity modelHash twoModels [] {model := modelKey modelHash "a"} = .ok s ∧
      s.report.tokens.input.knownSubtotal = some 1 ∧
      (s.report.models.map fun row => row.tokens.input.knownSubtotal.getD 0).sum = 2 := by
  refine ⟨by decide,?_⟩
  have accepted : (deriveTokenActivity modelHash twoModels [] {model := modelKey modelHash "a"}).isOk = true := by
    decide
  cases result : deriveTokenActivity modelHash twoModels [] {model := modelKey modelHash "a"} with
  | error failure =>
    rw [result] at accepted
    cases accepted
  | ok s =>
    obtain ⟨report,-⟩ := deriveTokenActivity_ok result
    obtain ⟨-,reports⟩ := tokenReport_reports modelHash twoModels [] {model := modelKey modelHash "a"}
    rw [← report] at reports
    refine ⟨s,rfl,?_,?_⟩
    · rw [reports.tokens]
      decide
    · rw [(reports.models.map _).sum_eq]
      decide

end ATape.SessionAnalytics
