import ATape.Analytics.Loops

/-! The pages of the evidence of a session. Whatever the orders of the maps and the sizes of the pages,
the pages that follow each other are the evidence of the query, each item once, and a cursor is good for
its own session, snapshot and filters only. -/
namespace ATape.SessionAnalytics
open Foundation Go SourceIdentity
open Canonical (EventRecord)

/-! The order of the calls. -/

theorem deriveActivity_perm (h : Hash) (s : AnalyticsSnapshot) (events : List EventRecord) {calls calls' : List EventRecord}
    (perm : calls.Perm calls') (q : Query) : deriveActivity h s events calls q = deriveActivity h s events calls' q := by
  have scope : (recordedScope q calls).Perm (recordedScope q calls') := perm.filter _
  have bucket : ∀ bounds records, activityBucket h s q bounds records (recordedScope q calls) =
      activityBucket h s q bounds records (recordedScope q calls') := by
    intro bounds records
    funext index
    simp only [activityBucket,scope.countP_eq]
  unfold deriveActivity activityReport
  simp only [bucket]

section Order
variable {h : Hash} {equalFold : String → String → Bool} {order order' : MapOrder} {s : AnalyticsSnapshot} {q : Query}

def offerThread (scan : EventScan) (row : String × EventRecord) : Option (String × EvidenceItem) :=
  match scan.threads.lookup row.1 with
  | some thread => if thread.parentThreadID.isSome = true then some (row.2.id,evidenceItem row.2 thread.label) else none
  | none => none

theorem offerThread_key {scan : EventScan} (row : String × EventRecord) (e : String × EvidenceItem)
    (offered : offerThread scan row = some e) : e.1 = row.2.id := by
  unfold offerThread at offered
  split at offered
  next =>
    split at offered
    next => rw [← Option.some.inj offered]
    next => cases offered
  next => cases offered

theorem threadCandidates_eq (scan : EventScan) (candidates : Table String EvidenceItem) :
    threadCandidates order q scan candidates =
      if q.metric = "threads" then
        Table.insertAll ((order.visit 10 scan.firstThreadEvent.rows).filterMap (offerThread scan)) candidates
      else candidates := by
  unfold threadCandidates
  congr 1
  induction order.visit 10 scan.firstThreadEvent.rows generalizing candidates with
  | nil => rfl
  | cons row rows ih =>
    rw [List.foldl_cons,ih,List.filterMap_cons]
    unfold offerThread
    cases scan.threads.lookup row.1 with
    | none => rfl
    | some thread =>
      dsimp only
      split <;> rfl

theorem threadCandidates_perm {scan : EventScan} {done : List EventRecord} (found : scan.Found done)
    (unique : (done.map (·.id)).Nodup) {candidates candidates' : Table String EvidenceItem}
    (alike : ∀ id, candidates.lookup id = candidates'.lookup id) (id : String) :
    (threadCandidates order q scan candidates).lookup id = (threadCandidates order' q scan candidates').lookup id := by
  rw [threadCandidates_eq,threadCandidates_eq]
  split
  next =>
    have perm : (order.visit 10 scan.firstThreadEvent.rows).Perm (order'.visit 10 scan.firstThreadEvent.rows) :=
      (order.perm 10 _).trans (order'.perm 10 _).symm
    have ids : ((order.visit 10 scan.firstThreadEvent.rows).map fun row => row.2.id).Nodup :=
      ((order.perm 10 _).map _).nodup_iff.mpr (found.distinctFirsts unique)
    exact Table.insertAll_perm (Table.offers_distinct offerThread_key ids) (perm.filterMap _) alike id
  next => exact alike id

theorem checkFilters_ok (q : Query) (calls : CallScan) : checkFilters q calls = .ok () ↔
    ¬(q.tool ≠ "" ∧ q.tool ∉ calls.toolNames) ∧ ¬(q.capability ≠ "" ∧ q.capability ∉ calls.capabilityNames) ∧
      ¬(q.server ≠ "" ∧ q.server ∉ calls.serverNames) := by
  unfold checkFilters
  simp only [bind_ok,failWhen_ok,exists_const]

theorem filesOf_perm {calls : Table CallKey ToolCall} {candidates candidates' : Table String EvidenceItem}
    (unique : (calls.rows.map fun row => row.2.event.id).Nodup)
    (alike : ∀ id, candidates.lookup id = candidates'.lookup id) {files : Option FileActivity × Table String EvidenceItem}
    (ok : filesOf h order q calls candidates = .ok files) :
    ∃ files', filesOf h order' q calls candidates' = .ok files' ∧ ∀ id, files'.2.lookup id = files.2.lookup id := by
  unfold filesOf at ok ⊢
  by_cases stable : q.analyticsVersion ≥ stableToolVersion
  · rw [if_pos stable] at ok ⊢
    cases derived : deriveFileActivity h order q calls candidates with
    | error failure =>
      rw [derived] at ok
      cases ok
    | ok found =>
      rw [derived] at ok
      obtain rfl := Except.ok.inj ok
      obtain ⟨found',derived',same⟩ := @deriveFileActivity_perm h order q order' calls candidates candidates' unique alike
        found derived
      rw [derived']
      exact ⟨(some found'.1,found'.2),rfl,same⟩
  · rw [if_neg stable] at ok ⊢
    obtain rfl := (pure_ok _ _).mp ok
    exact ⟨(none,candidates'),rfl,fun id => (alike id).symm⟩

theorem activityOf_perm (events : List EventRecord) (calls : Table CallKey ToolCall) :
    activityOf h order s events calls q = activityOf h order' s events calls q := by
  have perm : ((order.visit 11 calls.rows).map fun row => row.2.event).Perm
      ((order'.visit 11 calls.rows).map fun row => row.2.event) :=
    ((order.perm 11 _).trans (order'.perm 11 _).symm).map _
  unfold activityOf
  rw [deriveActivity_perm h s events perm q]

theorem analyse_ok {a : Analysis} (ok : analyse h equalFold order s q = .ok a) :
    ∃ threads scan calls files usage activity tokens,
      ¬(s.events.length > maxFacts ∨ s.usage.length > maxFacts ∨ s.threads.length > maxThreads) ∧
      openThreads s ∅ s.threads = .ok threads ∧
      ¬(q.thread ≠ "" ∧ (threads.lookup q.thread).isNone = true) ∧
      EventScan.run equalFold s q
        {summary := {childThreads := s.threads.countP fun thread => thread.parentThreadID.isSome},threads}
        (s.events.mergeSort eventLe) = .ok scan ∧
      CallScan.run h q {threads := scan.threads,candidates := scan.candidates} (order.visit 1 scan.calls.rows) = .ok calls ∧
      checkFilters q calls = .ok () ∧
      filesOf h order q scan.calls (threadCandidates order q scan calls.candidates) = .ok files ∧
      UsageScan.run s threads {} s.usage = .ok usage ∧
      activityOf h order s (s.events.mergeSort eventLe) scan.calls q = .ok activity ∧
      tokenActivityOf h s (s.events.mergeSort eventLe) q = .ok tokens ∧
      a = assemble order s q (s.events.mergeSort eventLe) scan calls files usage activity tokens := by
  unfold analyse analyseEvents at ok
  obtain ⟨_,small,ok⟩ := (bind_ok _ _ _).mp ok
  obtain ⟨threads,opened,ok⟩ := (bind_ok _ _ _).mp ok
  obtain ⟨_,inside,ok⟩ := (bind_ok _ _ _).mp ok
  obtain ⟨scan,scanned,ok⟩ := (bind_ok _ _ _).mp ok
  obtain ⟨calls,called,ok⟩ := (bind_ok _ _ _).mp ok
  obtain ⟨_,checked,ok⟩ := (bind_ok _ _ _).mp ok
  obtain ⟨files,filed,ok⟩ := (bind_ok _ _ _).mp ok
  obtain ⟨usage,used,ok⟩ := (bind_ok _ _ _).mp ok
  obtain ⟨activity,placed,ok⟩ := (bind_ok _ _ _).mp ok
  obtain ⟨tokens,counted,ok⟩ := (bind_ok _ _ _).mp ok
  exact ⟨threads,scan,calls,files,usage,activity,tokens,(failWhen_ok _ _ _).mp small,opened,(failWhen_ok _ _ _).mp inside,
    scanned,called,checked,filed,used,placed,counted,((pure_ok _ _).mp ok).symm⟩

theorem sorted_unique (unique : (s.events.map (·.id)).Nodup) : ((s.events.mergeSort eventLe).map (·.id)).Nodup :=
  ((List.mergeSort_perm _ _).map _).nodup_iff.mpr unique

theorem scanned_found {threads : Table String Thread} {scan : EventScan} {summary : Summary}
    (scanned : EventScan.run equalFold s q {summary,threads} (s.events.mergeSort eventLe) = .ok scan) :
    scan.Found (s.events.mergeSort eventLe) := by
  have nothing : EventScan.Found {summary,threads} [] := by
    constructor
    · intro key call held
      cases held
    · intro thread event held
      cases held
  exact nothing.run scanned

theorem start_fits (threads : Table String Thread) (candidates : Table String EvidenceItem) :
    CallScan.fits {threads,candidates} := ⟨Nat.zero_le _,Nat.zero_le _⟩

theorem analyse_order (unique : (s.events.map (·.id)).Nodup) {a : Analysis} (ok : analyse h equalFold order s q = .ok a)
    (order' : MapOrder) : ∃ a', analyse h equalFold order' s q = .ok a' ∧ a'.evidence = a.evidence := by
  obtain ⟨threads,scan,calls,files,usage,activity,tokens,small,opened,inside,scanned,called,checked,filed,used,placed,counted,
    rfl⟩ := analyse_ok ok
  have found := scanned_found scanned
  have distinct := found.distinct (sorted_unique unique)
  have perm : (order.visit 1 scan.calls.rows).Perm (order'.visit 1 scan.calls.rows) :=
    (order.perm 1 _).trans (order'.perm 1 _).symm
  have ids : ((order.visit 1 scan.calls.rows).map fun row => row.2.event.id).Nodup :=
    ((order.perm 1 _).map _).nodup_iff.mpr distinct
  obtain ⟨calls',called',candidates,tools,servers,capabilities⟩ := callRun_perm (start_fits _ _) perm ids called
  have checked' : checkFilters q calls' = .ok () := by
    rw [checkFilters_ok] at checked ⊢
    rw [tools,servers,capabilities]
    exact checked
  have alike : ∀ id, (threadCandidates order q scan calls.candidates).lookup id =
      (threadCandidates order' q scan calls'.candidates).lookup id :=
    threadCandidates_perm found (sorted_unique unique) fun id => (candidates id).symm
  obtain ⟨files',filed',same⟩ := @filesOf_perm h order order' q scan.calls _ _ distinct alike files filed
  rw [@activityOf_perm h order order'] at placed
  refine ⟨assemble order' s q (s.events.mergeSort eventLe) scan calls' files' usage activity tokens,?_,?_⟩
  · unfold analyse analyseEvents
    rw [failWhen_neg _ small,ok_bind,opened,ok_bind,failWhen_neg _ inside,ok_bind,scanned,ok_bind,called',ok_bind,checked',
      ok_bind,filed',ok_bind,used,ok_bind,placed,ok_bind,counted,ok_bind]
    rfl
  · unfold Analysis.evidence assemble
    congr 1
    funext event
    simp only [selectEvidence,same]

/-! Items of evidence. -/

def Keyed (candidates : Table String EvidenceItem) : Prop :=
  ∀ id item, candidates.lookup id = some item → item.eventID = id

theorem Keyed.insert {candidates : Table String EvidenceItem} (keyed : Keyed candidates) {id : String} {item : EvidenceItem}
    (own : item.eventID = id) : Keyed (candidates.insert id item) := by
  intro other item' held
  rw [Table.lookup_insert] at held
  split at held
  next here =>
    rw [← Option.some.inj held,here]
    exact own
  next => exact keyed other item' held

theorem Keyed.insertAll {candidates : Table String EvidenceItem} (keyed : Keyed candidates)
    {entries : List (String × EvidenceItem)} (own : ∀ e ∈ entries, e.2.eventID = e.1) :
    Keyed (Table.insertAll entries candidates) := by
  induction entries generalizing candidates with
  | nil => exact keyed
  | cons entry entries ih =>
    obtain ⟨first,rest⟩ := List.forall_mem_cons.mp own
    exact ih (keyed.insert first) rest

theorem Keyed.scan {scan scan' : EventScan} {events : List EventRecord} (keyed : Keyed scan.candidates)
    (ok : EventScan.run equalFold s q scan events = .ok scan') : Keyed scan'.candidates := by
  induction events generalizing scan with
  | nil =>
    rw [← (pure_ok _ _).mp ok]
    exact keyed
  | cons event events ih =>
    obtain ⟨next,step,ok⟩ := (bind_ok _ _ _).mp ok
    apply ih _ ok
    obtain ⟨thread,-,outcome⟩ := scanEvent_ok step
    have noted : Keyed (scan.note equalFold s q thread event).candidates := by
      unfold EventScan.note
      dsimp only
      split
      next => exact keyed.insert rfl
      next => exact keyed
    rcases outcome with ⟨-,rfl⟩|⟨update,fields,-,rfl⟩
    · exact noted
    · exact noted

theorem offer_item (call : ToolCall) (e : String × EvidenceItem) (offered : call.offer h q = some e) : e.2.eventID = e.1 := by
  obtain ⟨label,-,rfl⟩ := Option.map_eq_some_iff.mp offered
  rfl

theorem offerThread_item {scan : EventScan} (row : String × EventRecord) (e : String × EvidenceItem)
    (offered : offerThread scan row = some e) : e.2.eventID = e.1 := by
  unfold offerThread at offered
  split at offered
  next =>
    split at offered
    next => rw [← Option.some.inj offered]; rfl
    next => cases offered
  next => cases offered

theorem offerFile_item (call : ToolCall) (e : String × EvidenceItem) (offered : call.offerFile h q = some e) :
    e.2.eventID = e.1 := by
  unfold ToolCall.offerFile at offered
  split at offered
  next => rw [← Option.some.inj offered]; rfl
  next => cases offered

theorem keyed_offers {α : Type} {offer : α → Option (String × EvidenceItem)}
    (own : ∀ a e, offer a = some e → e.2.eventID = e.1) (as : List α) : ∀ e ∈ as.filterMap offer, e.2.eventID = e.1 := by
  intro e member
  obtain ⟨a,-,offered⟩ := List.mem_filterMap.mp member
  exact own a e offered

theorem selectEvidence_item {candidates : Table String EvidenceItem} (keyed : Keyed candidates)
    {activity : Option ActivitySelection} {tokens : Option TokenActivitySelection} {event : EventRecord} {item : EvidenceItem}
    (selected : selectEvidence q candidates activity tokens event = some item) : item.eventID = event.id := by
  unfold selectEvidence at selected
  split at selected
  next => cases selected
  next candidate held =>
    have own := keyed _ _ held
    split at selected
    next => cases selected
    next =>
      split at selected
      next => cases selected
      next =>
        split at selected
        next => cases selected
        next =>
          split at selected
          next =>
            rw [← Option.some.inj selected]
            exact own
          next =>
            rw [← Option.some.inj selected]
            exact own

theorem analyse_evidence {a : Analysis} (ok : analyse h equalFold order s q = .ok a)
    (unique : (s.events.map (·.id)).Nodup) :
    (a.evidence.map (·.eventID)).Nodup ∧ a.evidence.length ≤ maxFacts ∧ a.result.snapshot = s.snapshotToken := by
  obtain ⟨threads,scan,calls,files,usage,activity,tokens,small,opened,inside,scanned,called,checked,filed,used,placed,counted,
    rfl⟩ := analyse_ok ok
  have nothing : Keyed (∅ : Table String EvidenceItem) := by
    intro id item held
    cases held
  have keyed : Keyed scan.candidates := Keyed.scan nothing scanned
  obtain ⟨rfl,-⟩ := (callRun_ok (start_fits _ _)).mp called
  have keyed' : Keyed (threadCandidates order q scan ((order.visit 1 scan.calls.rows).foldl (CallScan.take h q)
      {threads := scan.threads,candidates := scan.candidates}).candidates) := by
    have offers := keyed.insertAll (keyed_offers (fun row : CallKey × ToolCall => @offer_item h q row.2)
      (order.visit 1 scan.calls.rows))
    rw [threadCandidates_eq,takes_candidates]
    split
    next => exact offers.insertAll (keyed_offers offerThread_item _)
    next => exact offers
  have keyed'' : Keyed files.2 := by
    unfold filesOf at filed
    split at filed
    next =>
      cases derived : deriveFileActivity h order q scan.calls (threadCandidates order q scan
          ((order.visit 1 scan.calls.rows).foldl (CallScan.take h q)
            {threads := scan.threads,candidates := scan.candidates}).candidates) with
      | error failure =>
        rw [derived] at filed
        cases filed
      | ok found =>
        rw [derived] at filed
        obtain rfl := Except.ok.inj filed
        have offers := keyed'.insertAll (keyed_offers (@offerFile_item h q) ((order.visit 2 scan.calls.rows).map Prod.snd))
        rwa [← deriveFileActivity_candidates derived] at offers
    next =>
      obtain rfl := (pure_ok _ _).mp filed
      exact keyed'
  refine ⟨?_,?_,rfl⟩
  · have same : (s.events.mergeSort eventLe).filterMap (fun event =>
        (selectEvidence q files.2 activity tokens event).map fun item => (item.eventID,item)) =
        ((s.events.mergeSort eventLe).filterMap (selectEvidence q files.2 activity tokens)).map
          fun item => (item.eventID,item) := List.map_filterMap.symm
    have distinct := @Table.offers_distinct EventRecord String EvidenceItem (·.id)
      (fun event => (selectEvidence q files.2 activity tokens event).map fun item => (item.eventID,item))
      (by
        intro event e offered
        obtain ⟨item,selected,rfl⟩ := Option.map_eq_some_iff.mp offered
        exact selectEvidence_item keyed'' selected)
      _ (sorted_unique unique)
    rw [same,List.map_map] at distinct
    exact distinct
  · have length := List.length_filterMap_le (selectEvidence q files.2 activity tokens) (s.events.mergeSort eventLe)
    rw [List.length_mergeSort] at length
    have bound : s.events.length ≤ maxFacts := by
      by_contra many
      exact small (.inl (Nat.not_le.mp many))
    exact length.trans bound

end Order

/-! Pages. -/

section Pages
variable {h : Hash} {equalFold : String → String → Bool} {order : MapOrder} {s : AnalyticsSnapshot}

theorem scanRun_page (q : Query) (snapshot cursor : String) (limit : ℤ) (scan : EventScan) (events : List EventRecord) :
    EventScan.run equalFold s (q.page snapshot cursor limit) scan events = EventScan.run equalFold s q scan events := by
  induction events generalizing scan with
  | nil => rfl
  | cons event events ih =>
    have step : scanEvent equalFold s (q.page snapshot cursor limit) scan event = scanEvent equalFold s q scan event := rfl
    rw [EventScan.run,EventScan.run,step]
    cases scanEvent equalFold s q scan event with
    | error failure => rfl
    | ok next => exact ih next

theorem fileRun_page (q : Query) (snapshot cursor : String) (limit : ℤ) (scan : FileScan) (calls : List ToolCall) :
    FileScan.run h order (q.page snapshot cursor limit) scan calls = FileScan.run h order q scan calls := by
  induction calls generalizing scan with
  | nil => rfl
  | cons call calls ih =>
    have step : scanFiles h order (q.page snapshot cursor limit) scan call = scanFiles h order q scan call := rfl
    rw [FileScan.run,FileScan.run,step]
    cases scanFiles h order q scan call with
    | error failure => rfl
    | ok next => exact ih next

theorem analyse_page (q : Query) (snapshot cursor : String) (limit : ℤ) :
    analyse h equalFold order s (q.page snapshot cursor limit) = analyse h equalFold order s q := by
  have files : ∀ calls candidates, filesOf h order (q.page snapshot cursor limit) calls candidates =
      filesOf h order q calls candidates := by
    intro calls candidates
    unfold filesOf deriveFileActivity
    simp only [fileRun_page]
    rfl
  unfold analyse analyseEvents
  simp only [scanRun_page,files]
  rfl

theorem derive_ok {q : Query} {offset : ℕ} {r : Result} (ok : derive h equalFold order s q offset = .ok r) :
    ∃ a, analyse h equalFold order s q = .ok a ∧ offset ≤ a.evidence.length ∧
      r.evidence = (pageAt offset q.limit.toNat a.evidence).items ∧ r.snapshot = a.result.snapshot ∧
      r.nextCursor = if a.evidence.length > offset+q.limit.toNat then
          cursorText (binding h s.session.id {q with snapshot := s.snapshotToken}) (offset+q.limit.toNat)
        else "" := by
  obtain ⟨a,analysed,ok⟩ := (bind_ok _ _ _).mp ok
  dsimp only at ok
  rw [pageFrom_eq] at ok
  obtain ⟨_,within_,ok⟩ := (bind_ok _ _ _).mp ok
  rw [failWhen_ok] at within_
  obtain rfl := (pure_ok _ _).mp ok
  have page : (pageAt offset q.limit.toNat (a.events.filterMap a.select)).matched =
    min a.evidence.length (offset+q.limit.toNat+1) := rfl
  refine ⟨a,analysed,?_,rfl,rfl,?_⟩
  · omega
  · have more : (pageAt offset q.limit.toNat (a.events.filterMap a.select)).more =
      decide (a.evidence.length > offset+q.limit.toNat) := rfl
    simp only [more,decide_eq_true_eq]

theorem derive_of {q : Query} {offset : ℕ} {a : Analysis} (analysed : analyse h equalFold order s q = .ok a)
    (within_ : offset ≤ a.evidence.length) : ∃ r, derive h equalFold order s q offset = .ok r := by
  unfold derive
  rw [analysed,ok_bind]
  dsimp only
  rw [pageFrom_eq,failWhen_neg,ok_bind]
  · exact ⟨_,rfl⟩
  · have page : (pageAt offset q.limit.toNat (a.events.filterMap a.select)).matched =
      min a.evidence.length (offset+q.limit.toNat+1) := rfl
    omega

end Pages

/-! Following the cursors. -/

/-- The items that a client finds who asks for a page, then for the page at its cursor, and so on until
there is no cursor. The `n`-th page is asked with the `n`-th limit. -/
inductive Follows (ask : ℕ → Query → Except Failure Result) (q : Query) (limits : ℕ → ℤ) :
    ℕ → String → String → List EvidenceItem → Prop
  | last {n : ℕ} {snapshot cursor : String} {r : Result} : ask n (q.page snapshot cursor (limits n)) = .ok r →
      r.nextCursor = "" → Follows ask q limits n snapshot cursor r.evidence
  | next {n : ℕ} {snapshot cursor : String} {r : Result} {rest : List EvidenceItem} :
      ask n (q.page snapshot cursor (limits n)) = .ok r → r.nextCursor ≠ "" →
      Follows ask q limits (n+1) r.snapshot r.nextCursor rest → Follows ask q limits n snapshot cursor (r.evidence++rest)

theorem Follows.det {ask : ℕ → Query → Except Failure Result} {q : Query} {limits : ℕ → ℤ} {n : ℕ}
    {snapshot cursor : String} {items items' : List EvidenceItem} (follows : Follows ask q limits n snapshot cursor items)
    (follows' : Follows ask q limits n snapshot cursor items') : items' = items := by
  induction follows generalizing items' with
  | last asked none_ =>
    cases follows' with
    | last asked' none' => rw [Except.ok.inj (asked'.symm.trans asked)]
    | next asked' some_ later =>
      rw [Except.ok.inj (asked'.symm.trans asked)] at some_
      exact absurd none_ some_
  | next asked some_ later ih =>
    cases follows' with
    | last asked' none' =>
      rw [Except.ok.inj (asked'.symm.trans asked)] at none'
      exact absurd none' some_
    | next asked' some' later' =>
      have same := Except.ok.inj (asked'.symm.trans asked)
      rw [same] at later' ⊢
      rw [ih later']

section Walk
variable {h : Hash} {equalFold : String → String → Bool} {s : AnalyticsSnapshot} {q : Query} {limits : ℕ → ℤ}
  {orders : ℕ → MapOrder}

def effective (limit : ℤ) : ℤ := if limit = 0 then 20 else limit

theorem effective_range {limit : ℤ} (valid : limit = 0 ∨ 1 ≤ limit ∧ limit ≤ 100) :
    1 ≤ effective limit ∧ effective limit ≤ 100 := by
  unfold effective
  split <;> omega

theorem validate_page {order : MapOrder} {snapshot cursor : String} {limit : ℤ} {offset : ℕ}
    (allowed : (q.defaults.page snapshot cursor (effective limit)).Allowed s.session.id)
    (read : checkCursor h s.session.id (q.defaults.page snapshot cursor (effective limit)) = .ok offset) :
    validateQuery h order s.session.id (q.page snapshot cursor limit) =
      .ok (q.defaults.page snapshot cursor (effective limit),offset) := by
  have checked : checkQuery order s.session.id (q.page snapshot cursor limit) =
      .ok (q.defaults.page snapshot cursor (effective limit)) := checkQuery_ok.mpr ⟨rfl,allowed⟩
  unfold validateQuery
  rw [checked,ok_bind,read,ok_bind]
  rfl

theorem follow_from {items : List EvidenceItem} (named : s.snapshotToken ≠ "") (short : len s.snapshotToken ≤ 200)
    (valid : ∀ n, limits n = 0 ∨ 1 ≤ limits n ∧ limits n ≤ 100) (few : items.length ≤ maxFacts)
    (all : ∀ n, ∃ a, analyse h equalFold (orders n) s q.defaults = .ok a ∧ a.evidence = items ∧
      a.result.snapshot = s.snapshotToken)
    {n offset : ℕ} {snapshot cursor : String} (inside : offset ≤ items.length)
    (allowed : (q.defaults.page snapshot cursor (effective (limits n))).Allowed s.session.id)
    (read : checkCursor h s.session.id (q.defaults.page snapshot cursor (effective (limits n))) = .ok offset) :
    Follows (fun n => openPage h equalFold (orders n) s) q limits n snapshot cursor (items.drop offset) := by
  induction left : items.length-offset using Nat.strong_induction_on generalizing n offset snapshot cursor with
  | _ left ih =>
    obtain ⟨a,analysed,rfl,token⟩ := all n
    obtain ⟨low,high⟩ := effective_range (valid n)
    have size : (effective (limits n)).toNat ≥ 1 := by omega
    have found : analyse h equalFold (orders n) s (q.defaults.page snapshot cursor (effective (limits n))) = .ok a :=
      (analyse_page _ _ _ _).trans analysed
    obtain ⟨r,derived⟩ := derive_of found inside
    obtain ⟨a',found',-,page,head,cursor'⟩ := derive_ok derived
    obtain rfl := Except.ok.inj (found.symm.trans found')
    have asked : openPage h equalFold (orders n) s (q.page snapshot cursor (limits n)) = .ok r := by
      unfold openPage
      rw [validate_page allowed read,ok_bind]
      exact derived
    have limit : (q.defaults.page snapshot cursor (effective (limits n))).limit = effective (limits n) := rfl
    rw [limit] at page cursor'
    by_cases more : a.evidence.length > offset+(effective (limits n)).toNat
    · rw [if_pos more] at cursor'
      obtain ⟨low',high'⟩ := effective_range (valid (n+1))
      have allowed' : (q.defaults.page r.snapshot r.nextCursor (effective (limits (n+1)))).Allowed s.session.id := by
        have later := @Query.Allowed.page _ _ allowed _ r.nextCursor (effective (limits (n+1))) named short low' high'
        rw [head,token]
        exact later
      have read' : checkCursor h s.session.id (q.defaults.page r.snapshot r.nextCursor (effective (limits (n+1)))) =
          .ok (offset+(effective (limits n)).toNat) := by
        apply checkCursor_issued
        · rw [head,token]
          exact named
        · rw [head,token]
          exact cursor'
        · omega
        · omega
      have rest := ih _ (by omega) (by omega) allowed' read' rfl
      have whole := Follows.next asked (by rw [cursor']; exact cursorText_nonempty _ _) rest
      rw [page,pageAt_rest] at whole
      exact whole
    · rw [if_neg more] at cursor'
      have whole : Follows (fun n => openPage h equalFold (orders n) s) q limits n snapshot cursor r.evidence :=
        .last asked cursor'
      rw [page,pageAt_last (decide_eq_false more)] at whole
      exact whole

end Walk

theorem issued_cursor {h : Hash} {equalFold : String → String → Bool} {order order' : MapOrder} {s : AnalyticsSnapshot}
    {q q' v' : Query} {r : Result} {sessionID' : String} {offset' : ℕ} (named : s.snapshotToken ≠ "")
    (short : len s.snapshotToken ≤ 200) (ok : openPage h equalFold order s q = .ok r) (more : r.nextCursor ≠ "")
    (own : q'.cursor = r.nextCursor) (accepted : validateQuery h order' sessionID' q' = .ok (v',offset'))
    (free : Set.InjOn h.hex {marshal (bindingBody s.session.id {q.defaults with snapshot := s.snapshotToken}),
      marshal (bindingBody sessionID' v')}) :
    sessionID' = s.session.id ∧ v'.snapshot = s.snapshotToken ∧ v'.page "" "" 0 = q.defaults.page "" "" 0 := by
  obtain ⟨⟨v,offset⟩,validated,derived⟩ := (bind_ok _ _ _).mp ok
  obtain ⟨_,checked,validated⟩ := (bind_ok _ _ _).mp validated
  obtain ⟨_,-,validated⟩ := (bind_ok _ _ _).mp validated
  obtain ⟨rfl,rfl⟩ := Prod.mk.inj ((pure_ok _ _).mp validated)
  obtain ⟨rfl,allowed⟩ := checkQuery_ok.mp checked
  obtain ⟨a,-,-,-,-,cursor⟩ := derive_ok derived
  obtain ⟨_,checked',validated'⟩ := (bind_ok _ _ _).mp accepted
  obtain ⟨_,read,validated'⟩ := (bind_ok _ _ _).mp validated'
  obtain ⟨rfl,rfl⟩ := Prod.mk.inj ((pure_ok _ _).mp validated')
  obtain ⟨rfl,allowed'⟩ := checkQuery_ok.mp checked'
  rw [cursor] at own
  split at own
  next =>
    obtain ⟨bound,-⟩ := @checkCursor_bound h sessionID' _ q'.defaults _ _ own read
    have texts := free (.inl rfl) (.inr rfl) bound
    have bodies := marshal_injective (bindingBody_integral _ _) (bindingBody_integral _ _) texts
    have limit := not_or.mp allowed.limit
    have allowedIssued := allowed.page q.defaults.cursor named short (by omega : 1 ≤ q.defaults.limit) (by omega)
    obtain ⟨session,snapshot,filters⟩ := bindingBody_inj allowedIssued allowed' bodies
    exact ⟨session.symm,snapshot.symm,filters.symm⟩
  next none_ =>
    rw [cursor,if_neg none_] at more
    exact absurd rfl more

def thoughtAt (id : String) (index : ℤ) : EventRecord := {recordAt 1 with id,eventIndex := index,kind := "thought"}

def rootThread : Canonical.ThreadRecord where
  id := "root"
  sessionID := "s_1"
  sourceKey := "1:t"
  revision := 1
  digest := ""
  label := "Main"
  parentThreadID := none
  summary := ""
  captureStatus := "healthy"

def twoThoughts : AnalyticsSnapshot :=
  {twoModels with threads := [rootThread],events := [thoughtAt "e_1" 0,thoughtAt "e_2" 1],usage := []}

theorem twoThoughts_sorted : twoThoughts.events.mergeSort eventLe = twoThoughts.events :=
  List.mergeSort_of_pairwise (by decide)

def thoughts : Query := {metric := "thoughts"}

def bindingHash : Hash := .table [marshal (bindingBody "s_1" {thoughts.defaults with snapshot := "legacy:v1:1"})]

end ATape.SessionAnalytics
