import ATape.Analytics.Evidence

/-! What an analysis reports agrees with itself: the rows add up to the totals, and each metric selects as
many items of evidence as are reported. -/
namespace ATape.SessionAnalytics
open Foundation Go SourceIdentity
open Canonical (EventRecord ToolUpdate parseToolUpdate)

/-! Calls. -/

def identityTypes : List String := ["tool","mcp","skill"]

/-- The status and the identity of a call are among those that updates may have. -/
structure ToolCall.Known (call : ToolCall) : Prop where
  status : call.status = "" ∨ call.status ∈ Canonical.toolStatuses
  identity : ∀ identity, call.identity = some identity → identity.type ∈ identityTypes

theorem identityMember_type {raw : String} {identity : Canonical.ToolIdentity}
    (read : Canonical.identityMember raw = some (some identity)) : identity.type ∈ identityTypes := by
  unfold Canonical.identityMember at read
  split at read
  next => cases read
  next =>
    simp only [Option.bind_eq_bind,Option.bind_eq_some_iff] at read
    obtain ⟨values,-,type_,-,server,-,name,-,read⟩ := read
    split at read
    next valid =>
      obtain rfl := Option.some.inj (Option.some.inj read)
      simp only [Bool.and_eq_true,Bool.or_eq_true,decide_eq_true_eq] at valid
      simp only [identityTypes,List.mem_cons,List.not_mem_nil,or_false]
      tauto
    next => cases read

theorem metaMember_type {raw : String} {m : Canonical.ToolIdentityMeta} (read : Canonical.metaMember raw = some m) :
    ∀ identity, m.identity = some identity → identity.type ∈ identityTypes := by
  unfold Canonical.metaMember at read
  simp only [Option.bind_eq_bind,Option.bind_eq_some_iff] at read
  obtain ⟨envelope,-,member,-,identified,own,read⟩ := read
  split at read
  next =>
    obtain rfl := Option.some.inj read
    rintro identity rfl
    exact identityMember_type own
  next => cases read

theorem parseToolUpdate_known {text : String} {update : ToolUpdate} (parsed : parseToolUpdate text = some update) :
    (∀ status, update.status = some status → status ∈ Canonical.toolStatuses) ∧
      ∀ m, update.meta_ = some m → ∀ identity, m.identity = some identity → identity.type ∈ identityTypes := by
  unfold parseToolUpdate at parsed
  simp only [Option.bind_eq_bind,Option.bind_eq_some_iff] at parsed
  obtain ⟨body,-,fields,-,sessionUpdate,-,toolCallID,-,title,-,kind,-,status,-,parsed⟩ := parsed
  split at parsed
  next =>
    rw [Option.bind_some] at parsed
    split at parsed
    next valid =>
      obtain rfl := Option.some.inj parsed
      simp only [Bool.and_eq_true] at valid
      refine ⟨?_,?_⟩
      · rintro status rfl
        exact of_decide_eq_true valid.1.1.2
      · intro m none_
        cases none_
    next => cases parsed
  next member _ =>
    obtain ⟨meta_,own,parsed⟩ := Option.bind_eq_some_iff.mp parsed
    obtain ⟨m,read,rfl⟩ := Option.map_eq_some_iff.mp own
    split at parsed
    next valid =>
      obtain rfl := Option.some.inj parsed
      simp only [Bool.and_eq_true] at valid
      refine ⟨?_,?_⟩
      · rintro status rfl
        exact of_decide_eq_true valid.1.1.2
      · rintro m' same
        rw [← Option.some.inj same]
        exact metaMember_type read
    next => cases parsed

theorem ToolCall.Known.update {call : ToolCall} (known : call.Known) {text : String} {update : ToolUpdate}
    (parsed : parseToolUpdate text = some update) (fields : List Json.Field) (event : EventRecord) :
    (call.update update fields event).Known := by
  obtain ⟨statuses,types⟩ := parseToolUpdate_known parsed
  constructor
  · unfold ToolCall.update
    dsimp only
    split
    next =>
      cases given : update.status with
      | none => exact .inl rfl
      | some status => exact .inr (statuses status given)
    next => exact known.status
  · intro identity own
    unfold ToolCall.update at own
    dsimp only at own
    split at own
    next m given => exact types m given identity own
    next => exact known.identity identity own

theorem start_known (event : EventRecord) : (ToolCall.start event).Known := by
  refine ⟨.inl rfl,?_⟩
  intro identity own
  cases own

/-! Events. -/

def eventEvidence (metric : String) (summary : Summary) : ℕ :=
  if metric = "user_inputs" then summary.rootUserInputs
  else if metric = "thoughts" then summary.thoughtFragments
  else 0

/-- The candidates are counted, the calls are known and no call has been counted for a thread. -/
structure EventScan.Counted (q : Query) (scan : EventScan) (done : List EventRecord) : Prop where
  inside : ∀ id, (scan.candidates.lookup id).isSome = true → id ∈ done.map (·.id)
  size : q.metric ∉ ["records","token_records"] → scan.candidates.size = eventEvidence q.metric scan.summary
  idle : ∀ id thread, scan.threads.lookup id = some thread → thread.toolCalls = 0
  known : ∀ key call, scan.calls.lookup key = some call → call.Known ∧ (scan.threads.lookup key.thread).isSome = true

section Events
variable {equalFold : String → String → Bool} {s : AnalyticsSnapshot} {q : Query} {scan scan' : EventScan}
  {done : List EventRecord}

theorem note_size (plain : q.metric ∉ ["records","token_records"]) {event : EventRecord} {input : Bool}
    (fresh : scan.candidates.lookup event.id = none) (size : scan.candidates.size = eventEvidence q.metric scan.summary) :
    Table.size (match eventCandidate q event input with
      | some label => scan.candidates.insert event.id (evidenceItem event label)
      | none => scan.candidates) = eventEvidence q.metric (countEvent scan.summary event input) := by
  unfold eventCandidate eventEvidence countEvent at *
  rw [if_neg plain]
  by_cases inputs : q.metric = "user_inputs"
  · have other : q.metric ≠ "thoughts" := by
      rw [inputs]
      decide
    rw [if_pos inputs] at size ⊢
    cases input with
    | true =>
      rw [if_pos ⟨inputs,rfl⟩,if_pos rfl]
      exact (Table.size_insert_new fresh _).trans (congrArg (·+1) size)
    | false =>
      rw [if_neg fun both => Bool.false_ne_true both.2,if_neg fun both => other both.1,if_neg Bool.false_ne_true]
      exact size
  · rw [if_neg inputs] at size ⊢
    rw [if_neg fun both => inputs both.1]
    by_cases thoughts : q.metric = "thoughts"
    · rw [if_pos thoughts] at size ⊢
      by_cases thought : event.kind = "thought"
      · rw [if_pos ⟨thoughts,thought⟩,if_pos thought]
        exact (Table.size_insert_new fresh _).trans (congrArg (·+1) size)
      · rw [if_neg fun both => thought both.2,if_neg thought]
        exact size
    · rw [if_neg thoughts] at size ⊢
      rw [if_neg fun both => thoughts both.1]
      exact size

theorem EventScan.Counted.note (counted : scan.Counted q done) {event : EventRecord} (fresh : event.id ∉ done.map (·.id))
    {thread : Thread} (held : scan.threads.lookup event.threadID = some thread) :
    (scan.note equalFold s q thread event).Counted q (done++[event]) := by
  have none_ : scan.candidates.lookup event.id = none := by
    by_contra some_
    exact fresh (counted.inside _ (Option.isSome_iff_ne_none.mpr some_))
  have threads : ∀ id, (scan.threads.lookup id).isSome = true →
      ((scan.note equalFold s q thread event).threads.lookup id).isSome = true := by
    intro id some_
    rw [EventScan.note,Table.lookup_insert]
    split
    next => rfl
    next => exact some_
  constructor
  · intro id some_
    rw [List.map_append,List.mem_append]
    unfold EventScan.note at some_
    dsimp only at some_
    split at some_
    next =>
      rw [Table.lookup_insert] at some_
      split at some_
      next here =>
        rw [here]
        exact .inr (List.mem_singleton_self _)
      next => exact .inl (counted.inside id some_)
    next => exact .inl (counted.inside id some_)
  · exact fun plain => note_size plain none_ (counted.size plain)
  · intro id thread' held'
    rw [EventScan.note,Table.lookup_insert] at held'
    split at held'
    next =>
      have none_ := counted.idle _ _ held
      obtain rfl := Option.some.inj held'
      exact none_
    next => exact counted.idle id thread' held'
  · intro key call held'
    obtain ⟨known,inside⟩ := counted.known key call held'
    exact ⟨known,threads _ inside⟩

theorem EventScan.Counted.step (counted : scan.Counted q done) {event : EventRecord}
    (fresh : event.id ∉ done.map (·.id)) (ok : scanEvent equalFold s q scan event = .ok scan') :
    scan'.Counted q (done++[event]) := by
  obtain ⟨thread,held,outcome⟩ := scanEvent_ok ok
  have noted := @EventScan.Counted.note equalFold s q scan done counted event fresh thread held
  rcases outcome with ⟨-,rfl⟩|⟨update,fields,parsed,rfl⟩
  · exact noted
  · refine ⟨noted.inside,noted.size,noted.idle,?_⟩
    intro key call found
    rw [Table.lookup_insert] at found
    split at found
    next here =>
      obtain rfl := Option.some.inj found
      rw [here]
      constructor
      · cases old : scan.calls.lookup ⟨event.threadID,update.toolCallID⟩ with
        | none => exact (start_known event).update parsed fields event
        | some call => exact (counted.known _ _ old).1.update parsed fields event
      · rw [EventScan.note,Table.lookup_insert,if_pos rfl]
        rfl
    next => exact noted.known key call found

theorem EventScan.Counted.run {events : List EventRecord} (counted : scan.Counted q done)
    (unique : ((done++events).map (·.id)).Nodup)
    (ok : EventScan.run equalFold s q scan events = .ok scan') : scan'.Counted q (done++events) := by
  induction events generalizing scan done with
  | nil =>
    rw [← (pure_ok _ _).mp ok,List.append_nil]
    exact counted
  | cons event events ih =>
    obtain ⟨next,step,ok⟩ := (bind_ok _ _ _).mp ok
    have joined : done++event::events = (done++[event])++events := (List.append_cons _ _ _)
    have fresh : event.id ∉ done.map (·.id) := by
      intro member
      rw [List.map_append,List.map_cons] at unique
      exact (List.nodup_middle.mp unique |> List.nodup_cons.mp).1 (List.mem_append_left _ member)
    rw [joined] at unique ⊢
    exact ih (counted.step fresh step) unique ok

end Events

theorem openThreads_idle {s : AnalyticsSnapshot} {threads threads' : Table String Thread} {sources : List Canonical.ThreadRecord}
    (idle : ∀ id thread, threads.lookup id = some thread → thread.toolCalls = 0)
    (ok : openThreads s threads sources = .ok threads') :
    ∀ id thread, threads'.lookup id = some thread → thread.toolCalls = 0 := by
  induction sources generalizing threads with
  | nil =>
    rw [← (pure_ok _ _).mp ok]
    exact idle
  | cons source sources ih =>
    obtain ⟨_,-,ok⟩ := (bind_ok _ _ _).mp ok
    obtain ⟨_,-,ok⟩ := (bind_ok _ _ _).mp ok
    apply ih _ ok
    intro id thread held
    rw [Table.lookup_insert] at held
    split at held
    next => rw [← Option.some.inj held]
    next => exact idle id thread held

/-! Counters of the calls. -/

def Capability.isMCP : Capability → Bool
  | .mcp _ _ => true
  | _ => false

def Capability.isSkill : Capability → Bool
  | .skill _ => true
  | _ => false

def Capability.isUnclassified : Capability → Bool
  | .unclassified => true
  | _ => false

section Counters
variable {h : Hash} {q : Query}

theorem takes_counts (scan : CallScan) (rows : List (CallKey × ToolCall)) :
    (rows.foldl (CallScan.take h q) scan).toolCalls = scan.toolCalls+rows.length ∧
      (rows.foldl (CallScan.take h q) scan).identified = scan.identified+rows.countP (fun row => row.2.identity.isSome) ∧
      (rows.foldl (CallScan.take h q) scan).unidentified = scan.unidentified+rows.countP (fun row => row.2.identity.isNone) ∧
      (rows.foldl (CallScan.take h q) scan).mcpCalls = scan.mcpCalls+rows.countP (fun row => row.2.capability.isMCP) ∧
      (rows.foldl (CallScan.take h q) scan).skillCalls = scan.skillCalls+rows.countP (fun row => row.2.capability.isSkill) ∧
      (rows.foldl (CallScan.take h q) scan).unclassified =
        scan.unclassified+rows.countP (fun row => row.2.capability.isUnclassified) := by
  induction rows generalizing scan with
  | nil => simp
  | cons row rows ih =>
    obtain ⟨calls,identified,unidentified,mcp,skills,unclassified⟩ := ih (scan.take h q row)
    have one : (scan.take h q row).toolCalls = scan.toolCalls+1 ∧
        (scan.take h q row).identified = scan.identified+(if row.2.identity.isSome = true then 1 else 0) ∧
        (scan.take h q row).unidentified = scan.unidentified+(if row.2.identity.isNone = true then 1 else 0) ∧
        (scan.take h q row).mcpCalls = scan.mcpCalls+(if row.2.capability.isMCP = true then 1 else 0) ∧
        (scan.take h q row).skillCalls = scan.skillCalls+(if row.2.capability.isSkill = true then 1 else 0) ∧
        (scan.take h q row).unclassified = scan.unclassified+(if row.2.capability.isUnclassified = true then 1 else 0) := by
      unfold CallScan.take CallScan.countCapability CallScan.countTool
      cases row.2.identity <;> cases row.2.capability <;> exact ⟨rfl,rfl,rfl,rfl,rfl,rfl⟩
    obtain ⟨calls',identified',unidentified',mcp',skills',unclassified'⟩ := one
    simp only [List.foldl_cons,List.countP_cons,List.length_cons]
    refine ⟨?_,?_,?_,?_,?_,?_⟩
    all_goals omega

/-- A counter of outcomes that counts the calls with some statuses. -/
structure Counts (count : Outcomes → ℕ) (status : String → Bool) : Prop where
  start : count {} = 0
  step : ∀ o st, count (o.increment st) = count o+if status st = true then 1 else 0

theorem counts_calls : Counts (·.calls) (fun _ => true) := by
  refine ⟨rfl,?_⟩
  intro o st
  simp only [Outcomes.increment]
  split
  next => rfl
  next =>
    split
    next => rfl
    next =>
      split
      next => rfl
      next => split <;> rfl

theorem counts_failed : Counts (·.failed) (fun st => st = "failed") := by
  refine ⟨rfl,?_⟩
  intro o st
  simp only [Outcomes.increment,decide_eq_true_eq]
  split
  next completed => simp [completed]
  next =>
    split
    next => rfl
    next =>
      split
      next => rfl
      next => split <;> rfl

theorem counts_unknown : Counts (·.unknown) (fun st => st ∉ Canonical.toolStatuses) := by
  refine ⟨rfl,?_⟩
  intro o st
  simp only [Outcomes.increment,decide_eq_true_eq,Canonical.toolStatuses,List.mem_cons,List.not_mem_nil,or_false]
  split
  next completed => simp [completed]
  next =>
    split
    next failed => simp [failed]
    next =>
      split
      next pending => simp [pending]
      next =>
        split
        next progress => simp [progress]
        next => simp_all

def Outcomes.Balanced (o : Outcomes) : Prop := o.calls = o.completed+o.failed+o.pending+o.inProgress+o.unknown

theorem Outcomes.Balanced.increment {o : Outcomes} (balanced : o.Balanced) (status : String) : (o.increment status).Balanced := by
  unfold Outcomes.Balanced at *
  unfold Outcomes.increment
  dsimp only
  repeat' split
  all_goals dsimp only
  all_goals omega

theorem group_outcomes (call : ToolCall) : (call.group h q).outcomes = {} := by
  unfold ToolCall.group
  split <;> rfl

theorem takes_balanced {scan : CallScan} (balanced : ∀ k group, scan.groups.lookup k = some group → group.outcomes.Balanced)
    (rows : List (CallKey × ToolCall)) :
    ∀ k group, (rows.foldl (CallScan.take h q) scan).groups.lookup k = some group → group.outcomes.Balanced := by
  induction rows generalizing scan with
  | nil => exact balanced
  | cons row rows ih =>
    apply ih
    intro k group held
    rw [take_groups,Table.lookup_insert] at held
    split at held
    next =>
      rw [← Option.some.inj held]
      apply Outcomes.Balanced.increment
      cases old : scan.groups.lookup (row.2.groupKey h q) with
      | none =>
        rw [Option.getD_none,group_outcomes]
        rfl
      | some group => exact balanced _ _ old
    next => exact balanced k group held

theorem takes_total {count : Outcomes → ℕ} {status : String → Bool} (counts : Counts count status)
    (asked : String × String → Bool) (scan : CallScan) (rows : List (CallKey × ToolCall)) :
    Table.total (fun k group => if asked k = true then count group.outcomes else 0)
        (rows.foldl (CallScan.take h q) scan).groups =
      Table.total (fun k group => if asked k = true then count group.outcomes else 0) scan.groups+
        rows.countP (fun row => asked (row.2.groupKey h q) && status row.2.status) := by
  induction rows generalizing scan with
  | nil => rfl
  | cons row rows ih =>
    have one : Table.total (fun k group => if asked k = true then count group.outcomes else 0) (scan.take h q row).groups =
        Table.total (fun k group => if asked k = true then count group.outcomes else 0) scan.groups+
          if (asked (row.2.groupKey h q) && status row.2.status) = true then 1 else 0 := by
      rw [take_groups]
      cases old : scan.groups.lookup (row.2.groupKey h q) with
      | none =>
        rw [Table.total_insert_new _ old,Option.getD_none]
        dsimp only
        rw [group_outcomes,counts.step,counts.start]
        cases asked (row.2.groupKey h q) <;> simp
      | some group =>
        have moved := Table.total_insert_old (fun k group => if asked k = true then count group.outcomes else 0) old
          {group with outcomes := group.outcomes.increment row.2.status}
        dsimp only at moved
        rw [counts.step] at moved
        rw [Option.getD_some]
        cases here : asked (row.2.groupKey h q) with
        | false => simpa [here] using moved
        | true =>
          simp only [here,if_true] at moved
          rw [Bool.true_and]
          exact Nat.add_right_cancel (moved.trans (by omega))
    rw [List.foldl_cons,ih,one,List.countP_cons]
    omega

theorem takes_threads {scan : CallScan} {rows : List (CallKey × ToolCall)}
    (inside : ∀ row ∈ rows, (scan.threads.lookup row.1.thread).isSome = true) :
    Table.total (fun _ thread => thread.toolCalls) (rows.foldl (CallScan.take h q) scan).threads =
      Table.total (fun _ thread => thread.toolCalls) scan.threads+rows.length := by
  induction rows generalizing scan with
  | nil => rfl
  | cons row rows ih =>
    have threads : (scan.take h q row).threads =
        Table.modify row.1.thread (fun thread => {thread with toolCalls := thread.toolCalls+1}) scan.threads := by
      unfold CallScan.take CallScan.countCapability
      cases row.2.capability <;> rfl
    obtain ⟨here,later⟩ := List.forall_mem_cons.mp inside
    obtain ⟨thread,held⟩ := Option.isSome_iff_exists.mp here
    rw [List.foldl_cons,ih,threads]
    · have moved := Table.total_modify (fun _ thread => thread.toolCalls)
        (fun thread => {thread with toolCalls := thread.toolCalls+1}) held
      rw [List.length_cons]
      dsimp only at moved
      omega
    · intro row' member
      rw [threads,Table.lookup_modify]
      split
      next => simpa using later row' member
      next => exact later row' member

end Counters

/-! Rows. -/

theorem rows_sum {κ ρ γ : Type} [DecidableEq κ] {t : Table κ ρ} {visited : List (κ × ρ)} (perm : visited.Perm t.rows)
    (view : κ × ρ → γ) (le : γ → γ → Bool) (w : γ → ℕ) :
    (((visited.map view).mergeSort le).map w).sum = Table.total (fun k r => w (view (k,r))) t := by
  have rows : Table.total (fun k r => w (view (k,r))) t = (t.rows.map fun row => w (view row)).sum := by
    rw [Table.total,Table.rows,List.map_map]
    rfl
  rw [rows,((List.mergeSort_perm _ le).map w).sum_eq,List.map_map,(perm.map _).sum_eq]
  rfl

/-- The selector that a query names a row with. -/
def Tool.selector (q : Query) (t : Tool) : String := if q.analyticsVersion ≥ stableToolVersion then t.key else t.name

/-- The rows that a query asks for. -/
def Query.asksTool (q : Query) (t : Tool) : Bool := q.tool = "" || q.tool = t.selector q

section Rows
variable {h : Hash} {order : MapOrder} {q : Query}

theorem group_selector (call : ToolCall) : (call.group h q).selector q = call.selector h q := by
  unfold Tool.selector ToolCall.group ToolCall.selector
  split <;> rfl

theorem takes_selector {scan : CallScan} (own : ∀ k group, scan.groups.lookup k = some group → group.selector q = k.1)
    (rows : List (CallKey × ToolCall)) :
    ∀ k group, (rows.foldl (CallScan.take h q) scan).groups.lookup k = some group → group.selector q = k.1 := by
  induction rows generalizing scan with
  | nil => exact own
  | cons row rows ih =>
    apply ih
    intro k group held
    rw [take_groups,Table.lookup_insert] at held
    split at held
    next here =>
      rw [← Option.some.inj held,here]
      cases old : scan.groups.lookup (row.2.groupKey h q) with
      | none =>
        have fresh := @group_selector h q row.2
        unfold Tool.selector at fresh ⊢
        exact fresh
      | some group =>
        have kept := own _ _ old
        unfold Tool.selector at kept ⊢
        exact kept
    next => exact own k group held

theorem tools_sum {count : Outcomes → ℕ} {status : String → Bool} (counts : Counts count status)
    (threads : Table String Thread) (candidates : Table String EvidenceItem) (rows : List (CallKey × ToolCall)) :
    ((((rows.foldl (CallScan.take h q) {threads,candidates}).tools order).filter q.asksTool).map
        fun t => count t.outcomes).sum =
      rows.countP fun row => (q.tool = "" || q.tool = row.2.selector h q) && status row.2.status := by
  have total := @takes_total h q count status counts (fun k => q.tool = "" || q.tool = k.1)
    {threads,candidates} rows
  have none_ : Table.total (fun (k : String × String) (group : Tool) =>
      if (decide (q.tool = "") || decide (q.tool = k.1)) = true then count group.outcomes else 0)
      (CallScan.groups {threads,candidates}) = 0 := rfl
  rw [none_,Nat.zero_add] at total
  have own := @takes_selector h q {threads,candidates} (by intro k group held; cases held) rows
  have sum := rows_sum (order.perm 8 (rows.foldl (CallScan.take h q) {threads,candidates}).groups.rows) Prod.snd
    (fun a b => !b.less a) (fun t => if q.asksTool t = true then count t.outcomes else 0)
  have filtered : ∀ tools : List Tool, ((tools.filter q.asksTool).map fun t => count t.outcomes).sum =
      (tools.map fun t => if q.asksTool t = true then count t.outcomes else 0).sum := by
    intro tools
    induction tools with
    | nil => rfl
    | cons t tools ih =>
      rw [List.filter_cons,List.map_cons,List.sum_cons,← ih]
      split
      next => rw [List.map_cons,List.sum_cons]
      next => rw [Nat.zero_add]
  rw [filtered,CallScan.tools,sum]
  refine Eq.trans ?_ total
  apply Table.total_congr
  intro k group held
  rw [Query.asksTool,own k group held]

end Rows

/-! Files. -/

theorem fileRun_counts {h : Hash} {order : MapOrder} {q : Query} (scan : FileScan) (calls : List ToolCall) :
    (calls.foldl (FileScan.take h order q) scan).callsWithActivity+
        (calls.foldl (FileScan.take h order q) scan).callsWithoutActivity =
      scan.callsWithActivity+scan.callsWithoutActivity+calls.length := by
  induction calls generalizing scan with
  | nil => rfl
  | cons call calls ih =>
    have one : (scan.take h order q call).callsWithActivity+(scan.take h order q call).callsWithoutActivity =
        scan.callsWithActivity+scan.callsWithoutActivity+1 := by
      unfold FileScan.take FileScan.count
      split
      next => rfl
      next =>
        dsimp only
        omega
    rw [List.foldl_cons,ih,one,List.length_cons]
    omega

theorem deriveFileActivity_counts {h : Hash} {order : MapOrder} {q : Query} {calls : Table CallKey ToolCall}
    {candidates : Table String EvidenceItem} {found : FileActivity × Table String EvidenceItem}
    (ok : deriveFileActivity h order q calls candidates = .ok found) :
    found.1.callsWithActivity+found.1.callsWithoutActivity = calls.rows.length := by
  obtain ⟨scan,run,ok⟩ := (bind_ok _ _ _).mp ok
  obtain ⟨_,-,ok⟩ := (bind_ok _ _ _).mp ok
  obtain rfl := (pure_ok _ _).mp ok
  obtain ⟨rfl,-⟩ := (fileRun_ok (show FileScan.fits {candidates} from Nat.zero_le _)).mp run
  have counts := @fileRun_counts h order q {candidates} ((order.visit 2 calls.rows).map Prod.snd)
  rw [List.length_map,(order.perm 2 calls.rows).length_eq] at counts
  simpa using counts

/-! Agreement. -/

/-- The rows of a report add up to its totals. -/
structure Agreement (r : Result) : Prop where
  tools : (r.tools.map (·.outcomes.calls)).sum = r.summary.toolCalls
  threads : (r.threads.map (·.toolCalls)).sum = r.summary.toolCalls
  capabilities : r.capabilities.mcpCalls+r.capabilities.skillCalls+r.capabilities.unclassifiedCalls = r.summary.toolCalls
  outcomes : ∀ tool ∈ r.tools, tool.outcomes.Balanced
  identities : ∀ identified unidentified, r.summary.identifiedToolCalls = some identified →
    r.summary.unidentifiedToolCalls = some unidentified → identified+unidentified = r.summary.toolCalls
  identified : r.summary.identifiedToolCalls.isSome = r.summary.unidentifiedToolCalls.isSome
  files : ∀ files, r.fileActivity = some files →
    files.callsWithActivity+files.callsWithoutActivity = r.summary.toolCalls

def reportedCount (q : Query) (r : Result) : Option ℕ :=
  if q.metric = "tools" then some ((r.tools.filter q.asksTool).map (·.outcomes.calls)).sum
  else if q.metric = "failed_tools" then some ((r.tools.filter q.asksTool).map (·.outcomes.failed)).sum
  else if q.metric = "unknown_tools" then some ((r.tools.filter q.asksTool).map (·.outcomes.unknown)).sum
  else if q.metric = "mcp_tools" then some r.capabilities.mcpCalls
  else if q.metric = "skills" then some r.capabilities.skillCalls
  else if q.metric = "thoughts" then some r.summary.thoughtFragments
  else if q.metric = "user_inputs" then some r.summary.rootUserInputs
  else none

section Agree
variable {h : Hash} {equalFold : String → String → Bool} {order : MapOrder} {s : AnalyticsSnapshot} {q : Query}

theorem scanned_counted {threads : Table String Thread} {children : ℕ} {scan : EventScan}
    (unique : (s.events.map (·.id)).Nodup) (opened : openThreads s ∅ s.threads = .ok threads)
    (scanned : EventScan.run equalFold s q {summary := {childThreads := children},threads} (s.events.mergeSort eventLe) =
      .ok scan) : scan.Counted q (s.events.mergeSort eventLe) := by
  have nothing : EventScan.Counted q {summary := {childThreads := children},threads} [] := by
    constructor
    · intro id some_
      cases some_
    · intro _
      unfold eventEvidence
      split
      next => rfl
      next => split <;> rfl
    · exact openThreads_idle (by intro id thread held; cases held) opened
    · intro key call held
      cases held
  exact nothing.run (sorted_unique unique) scanned

theorem capability_kinds {rows : List (CallKey × ToolCall)} (known : ∀ row ∈ rows, row.2.Known) :
    rows.countP (fun row => row.2.capability.isMCP)+rows.countP (fun row => row.2.capability.isSkill)+
      rows.countP (fun row => row.2.capability.isUnclassified) = rows.length := by
  induction rows with
  | nil => rfl
  | cons row rows ih =>
    obtain ⟨here,later⟩ := List.forall_mem_cons.mp known
    have one : (if row.2.capability.isMCP = true then 1 else 0)+(if row.2.capability.isSkill = true then 1 else 0)+
        (if row.2.capability.isUnclassified = true then 1 else 0) = 1 := by
      unfold ToolCall.capability
      cases own : row.2.identity with
      | none => rfl
      | some identity =>
        have type_ := here.identity identity own
        simp only [identityTypes,List.mem_cons,List.not_mem_nil,or_false] at type_
        rcases type_ with tool|mcp|skill
        · simp [tool,Capability.isMCP,Capability.isSkill,Capability.isUnclassified]
        · simp [mcp,Capability.isMCP,Capability.isSkill,Capability.isUnclassified]
        · simp [skill,Capability.isMCP,Capability.isSkill,Capability.isUnclassified]
    have rest := ih later
    simp only [List.countP_cons,List.length_cons]
    omega

theorem identity_kinds (rows : List (CallKey × ToolCall)) :
    rows.countP (fun row => row.2.identity.isSome)+rows.countP (fun row => row.2.identity.isNone) = rows.length := by
  induction rows with
  | nil => rfl
  | cons row rows ih =>
    simp only [List.countP_cons,List.length_cons]
    cases row.2.identity <;> simp <;> omega

theorem analyse_agrees {a : Analysis} (unique : (s.events.map (·.id)).Nodup)
    (ok : analyse h equalFold order s q = .ok a) : Agreement a.result := by
  obtain ⟨threads,scan,calls,files,usage,activity,tokens,-,opened,-,scanned,called,-,filed,-,-,-,rfl⟩ := analyse_ok ok
  obtain ⟨-,-,idle,known⟩ := scanned_counted unique opened scanned
  obtain ⟨rfl,-⟩ := (callRun_ok (start_fits _ _)).mp called
  have perm := order.perm 1 scan.calls.rows
  have all : ∀ row ∈ order.visit 1 scan.calls.rows, row.2.Known ∧ (scan.threads.lookup row.1.thread).isSome = true := by
    intro row member
    exact known row.1 row.2 ((Table.mem_rows _ _ _).mp (perm.mem_iff.mp member))
  obtain ⟨total,identified,unidentified,mcp,skills,unclassified⟩ := @takes_counts h q
    {threads := scan.threads,candidates := scan.candidates} (order.visit 1 scan.calls.rows)
  have zero : CallScan.toolCalls {threads := scan.threads,candidates := scan.candidates} = 0 := rfl
  rw [zero,Nat.zero_add] at total
  constructor
  · have sum := rows_sum (order.perm 8 ((order.visit 1 scan.calls.rows).foldl (CallScan.take h q)
      {threads := scan.threads,candidates := scan.candidates}).groups.rows) Prod.snd (fun a b => !b.less a)
      (·.outcomes.calls)
    have groups := @takes_total h q _ _ counts_calls (fun _ => true)
      {threads := scan.threads,candidates := scan.candidates} (order.visit 1 scan.calls.rows)
    simp only [if_true,Bool.and_true,List.countP_true] at groups
    exact sum.trans (groups.trans ((Nat.zero_add _).trans total.symm))
  · have sum := rows_sum (order.perm 9 ((order.visit 1 scan.calls.rows).foldl (CallScan.take h q)
      {threads := scan.threads,candidates := scan.candidates}).threads.rows) (fun row : String × Thread =>
        {row.2 with tokens := ((usage.threads.lookup row.1).getD {}).get}) (fun a b => a.id ≤ b.id) (·.toolCalls)
    have counted := @takes_threads h q {threads := scan.threads,candidates := scan.candidates}
      (order.visit 1 scan.calls.rows) fun row member => (all row member).2
    have none_ : Table.total (fun _ thread => thread.toolCalls) scan.threads = 0 := Table.total_eq_zero idle
    exact sum.trans (counted.trans ((congrArg (·+_) none_).trans ((Nat.zero_add _).trans total.symm)))
  · have kinds := capability_kinds fun row member => (all row member).1
    exact (congrArg₂ (·+·) (congrArg₂ (·+·) (mcp.trans (Nat.zero_add _)) (skills.trans (Nat.zero_add _)))
      (unclassified.trans (Nat.zero_add _))).trans (kinds.trans total.symm)
  · intro tool member
    have inside := (List.mergeSort_perm _ _).mem_iff.mp member
    obtain ⟨⟨k,group⟩,visited,rfl⟩ := List.mem_map.mp inside
    have held := (Table.mem_rows _ _ _).mp ((order.perm 8 _).mem_iff.mp visited)
    exact takes_balanced (by intro k group held; cases held) _ k group held
  · intro found others found' others'
    have kinds := identity_kinds (order.visit 1 scan.calls.rows)
    by_cases stable : q.analyticsVersion ≥ stableToolVersion
    · simp only [assemble,if_pos stable,Option.some.injEq] at found' others'
      rw [← found',← others']
      exact (congrArg₂ (·+·) (identified.trans (Nat.zero_add _)) (unidentified.trans (Nat.zero_add _))).trans
        (kinds.trans total.symm)
    · simp only [assemble,if_neg stable] at found'
      cases found'
  · by_cases stable : q.analyticsVersion ≥ stableToolVersion
    · simp only [assemble,if_pos stable,Option.isSome_some]
    · simp only [assemble,if_neg stable,Option.isSome_none]
  · intro report own
    have size : (order.visit 1 scan.calls.rows).length = scan.calls.rows.length := perm.length_eq
    unfold filesOf at filed
    split at filed
    next =>
      cases derived : deriveFileActivity h order q scan.calls (threadCandidates order q scan
          ((order.visit 1 scan.calls.rows).foldl (CallScan.take h q)
            {threads := scan.threads,candidates := scan.candidates}).candidates) with
      | error failure =>
        rw [derived] at filed
        cases filed
      | ok found =>
        rw [derived] at filed
        obtain rfl := Except.ok.inj filed
        obtain rfl := Option.some.inj own
        exact (deriveFileActivity_counts derived).trans (size.symm.trans total.symm)
    next =>
      obtain rfl := (pure_ok _ _).mp filed
      cases own

theorem activityOf_all {events : List EventRecord} {calls : Table CallKey ToolCall} {activity : Option ActivitySelection}
    (whole : q.range = "") (ok : activityOf h order s events calls q = .ok activity) (event : EventRecord) :
    activity.any (fun a => !a.matchesEvent event) = false := by
  unfold activityOf at ok
  split at ok
  next =>
    unfold deriveActivity at ok
    dsimp only at ok
    rw [if_pos whole] at ok
    obtain rfl := Except.ok.inj ok
    rfl
  next =>
    obtain rfl := (pure_ok _ _).mp ok
    rfl

theorem evidence_size {events : List EventRecord} (unique : (events.map (·.id)).Nodup) {candidates : Table String EvidenceItem}
    (covers : ∀ id, (candidates.lookup id).isSome = true → id ∈ events.map (·.id)) {activity : Option ActivitySelection}
    {tokens : Option TokenActivitySelection} (whole : ∀ event, activity.any (fun a => !a.matchesEvent event) = false)
    (session : q.thread = "") (plain : q.metric ≠ "token_records") :
    (events.filterMap (selectEvidence q candidates activity tokens)).length = candidates.size := by
  rw [List.length_filterMap_eq_countP,Table.size_countP unique covers]
  congr 1
  funext event
  unfold selectEvidence
  cases candidates.lookup event.id with
  | none => rfl
  | some item =>
    dsimp only
    rw [if_neg fun both => both.1 session,if_neg (by rw [whole event]; exact Bool.false_ne_true),
      if_neg fun both => plain both.1]
    split <;> rfl

/-- The calls that a metric asks for, when no filter but the tool is given. -/
def asksCall (h : Hash) (q : Query) (call : ToolCall) : Bool :=
  if q.metric = "tools" then q.tool = "" || q.tool = call.selector h q
  else if q.metric = "failed_tools" then (q.tool = "" || q.tool = call.selector h q) && call.status = "failed"
  else if q.metric = "unknown_tools" then (q.tool = "" || q.tool = call.selector h q) && call.status = ""
  else if q.metric = "mcp_tools" then call.capability.isMCP
  else if q.metric = "skills" then call.capability.isSkill
  else false

theorem offer_isSome (call : ToolCall) :
    (call.offer h q).isSome = (call.matchesCapability q || call.matchesTool h q) := by
  unfold ToolCall.offer ToolCall.candidate
  rw [Option.isSome_map]
  cases call.matchesCapability q with
  | true => rfl
  | false => cases call.matchesTool h q <;> rfl

theorem offer_asks (anyCapability : q.capability = "") (anyServer : q.server = "") (call : ToolCall) :
    (call.offer h q).isSome = asksCall h q call := by
  have capability : call.matchesCapability q = (decide (q.metric = "mcp_tools") && call.capability.isMCP ||
      decide (q.metric = "skills") && call.capability.isSkill) := by
    unfold ToolCall.matchesCapability
    cases call.capability <;> simp [anyCapability,anyServer,Capability.isMCP,Capability.isSkill]
  rw [offer_isSome,capability]
  unfold ToolCall.matchesTool asksCall
  by_cases tools : q.metric = "tools"
  · simp [tools]
  by_cases failed : q.metric = "failed_tools"
  · simp [failed,Bool.and_comm]
  by_cases unknown : q.metric = "unknown_tools"
  · simp [unknown,Bool.and_comm]
  by_cases mcp : q.metric = "mcp_tools"
  · simp [mcp]
  by_cases skills : q.metric = "skills"
  · simp [skills]
  · simp [tools,failed,unknown,mcp,skills]

theorem analyse_size {a : Analysis} (unique : (s.events.map (·.id)).Nodup) (ok : analyse h equalFold order s q = .ok a)
    (whole : q.range = "") (session : q.thread = "") (anyCapability : q.capability = "") (anyServer : q.server = "")
    (plain : q.metric ∉ ["records","token_records","threads","files"]) :
    ∃ scan : EventScan, ∃ calls : CallScan, scan.Counted q (s.events.mergeSort eventLe) ∧
      calls = (order.visit 1 scan.calls.rows).foldl (CallScan.take h q)
        {threads := scan.threads,candidates := scan.candidates} ∧
      (∀ row ∈ order.visit 1 scan.calls.rows, row.2.Known) ∧
      a.result.tools = calls.tools order ∧ a.result.capabilities = calls.capabilities order ∧
      a.result.summary.thoughtFragments = scan.summary.thoughtFragments ∧
      a.result.summary.rootUserInputs = scan.summary.rootUserInputs ∧
      a.evidence.length = eventEvidence q.metric scan.summary+
        (order.visit 1 scan.calls.rows).countP fun row => asksCall h q row.2 := by
  obtain ⟨threads,scan,calls,files,usage,activity,tokens,-,opened,-,scanned,called,-,filed,-,placed,-,rfl⟩ := analyse_ok ok
  have counted := scanned_counted unique opened scanned
  have found := scanned_found scanned
  obtain ⟨rfl,-⟩ := (callRun_ok (start_fits _ _)).mp called
  have perm := order.perm 1 scan.calls.rows
  simp only [List.mem_cons,List.not_mem_nil,or_false,not_or] at plain
  obtain ⟨records,tokenRecords,threadsMetric,filesMetric⟩ := plain
  have ids : ((order.visit 1 scan.calls.rows).map fun row => row.2.event.id).Nodup :=
    (perm.map _).nodup_iff.mpr (found.distinct (sorted_unique unique))
  have lookups : ∀ id, files.2.lookup id = (Table.insertAll
      ((order.visit 1 scan.calls.rows).filterMap fun row => row.2.offer h q) scan.candidates).lookup id := by
    intro id
    rw [threadCandidates_eq,if_neg threadsMetric,takes_candidates] at filed
    unfold filesOf at filed
    split at filed
    next =>
      cases derived : deriveFileActivity h order q scan.calls (Table.insertAll
          ((order.visit 1 scan.calls.rows).filterMap fun row => row.2.offer h q) scan.candidates) with
      | error failure =>
        rw [derived] at filed
        cases filed
      | ok found =>
        rw [derived] at filed
        obtain rfl := Except.ok.inj filed
        have none_ : ((order.visit 2 scan.calls.rows).map Prod.snd).filterMap (ToolCall.offerFile h q) = [] := by
          rw [List.filterMap_eq_nil_iff]
          intro call _
          exact if_neg fun both => filesMetric both.1
        rw [deriveFileActivity_candidates derived,none_]
        rfl
    next =>
      obtain rfl := (pure_ok _ _).mp filed
      rfl
  have offered : ∀ e ∈ (order.visit 1 scan.calls.rows).filterMap fun row => row.2.offer h q,
      ∃ row ∈ order.visit 1 scan.calls.rows, asksCall h q row.2 = true ∧ e.1 = row.2.event.id := by
    intro e member
    obtain ⟨row,inside,offer⟩ := List.mem_filterMap.mp member
    refine ⟨row,inside,?_,offer_key _ _ offer⟩
    rw [← offer_asks anyCapability anyServer,offer]
    rfl
  have fresh : ∀ e ∈ (order.visit 1 scan.calls.rows).filterMap fun row => row.2.offer h q,
      scan.candidates.lookup e.1 = none := by
    intro e member
    obtain ⟨row,-,asks,-⟩ := offered e member
    have none_ : scan.candidates.size = 0 := by
      rw [counted.size (by simp [records,tokenRecords])]
      unfold eventEvidence
      unfold asksCall at asks
      split
      next inputs => simp [inputs] at asks
      next =>
        split
        next thoughts => simp [thoughts] at asks
        next => rfl
    cases held : scan.candidates.lookup e.1 with
    | none => rfl
    | some item =>
      have positive : 1 ≤ scan.candidates.size := Table.le_total (fun _ _ => 1) held
      omega
  have size : files.2.size = eventEvidence q.metric scan.summary+
      (order.visit 1 scan.calls.rows).countP fun row => asksCall h q row.2 := by
    have same : ∀ id, (files.2.lookup id).isSome = true ↔ ((Table.insertAll
        ((order.visit 1 scan.calls.rows).filterMap fun row => row.2.offer h q) scan.candidates).lookup id).isSome = true := by
      intro id
      rw [lookups]
    rw [Table.size_of_keys same,Table.size_insertAll (Table.offers_distinct (fun row e => offer_key row.2 e) ids) fresh,
      counted.size (by simp [records,tokenRecords]),List.length_filterMap_eq_countP]
    simp only [offer_asks anyCapability anyServer]
  have covers : ∀ id, (files.2.lookup id).isSome = true → id ∈ (s.events.mergeSort eventLe).map (·.id) := by
    intro id some_
    rw [lookups,Table.lookup_insertAll_isSome] at some_
    rcases some_ with new|old
    · obtain ⟨e,member,rfl⟩ := List.mem_map.mp new
      obtain ⟨row,inside,-,own⟩ := offered e member
      have held := (Table.mem_rows _ _ _).mp (perm.mem_iff.mp inside)
      rw [own]
      exact List.mem_map.mpr ⟨_,(found.calls _ _ held).1,rfl⟩
    · exact counted.inside id old
  refine ⟨scan,_,counted,rfl,?_,rfl,rfl,rfl,rfl,?_⟩
  · intro row member
    exact (counted.known row.1 row.2 ((Table.mem_rows _ _ _).mp (perm.mem_iff.mp member))).1
  · exact (evidence_size (sorted_unique unique) covers (activityOf_all whole placed) session tokenRecords).trans size

theorem analyse_reported {a : Analysis} (unique : (s.events.map (·.id)).Nodup) (ok : analyse h equalFold order s q = .ok a)
    (whole : q.range = "") (session : q.thread = "") (anyCapability : q.capability = "") (anyServer : q.server = "")
    {n : ℕ} (reported : reportedCount q a.result = some n) : a.evidence.length = n := by
  have plain : q.metric ∉ ["records","token_records","threads","files"] := by
    intro other
    simp only [List.mem_cons,List.not_mem_nil,or_false] at other
    rcases other with other|other|other|other <;> simp [reportedCount,other] at reported
  obtain ⟨scan,calls,-,rfl,known,tools,capabilities,thoughts,inputs,length⟩ :=
    analyse_size unique ok whole session anyCapability anyServer plain
  obtain ⟨-,-,-,mcp,skills,-⟩ := @takes_counts h q {threads := scan.threads,candidates := scan.candidates}
    (order.visit 1 scan.calls.rows)
  rw [length]
  have sums : ∀ {count : Outcomes → ℕ} {status : String → Bool}, Counts count status →
      ((a.result.tools.filter q.asksTool).map fun t => count t.outcomes).sum =
        (order.visit 1 scan.calls.rows).countP fun row =>
          (q.tool = "" || q.tool = row.2.selector h q) && status row.2.status := by
    intro count status counts
    rw [tools]
    exact tools_sum counts _ _ _
  unfold reportedCount at reported
  by_cases all : q.metric = "tools"
  · rw [if_pos all,sums counts_calls] at reported
    rw [← Option.some.inj reported]
    simp [eventEvidence,asksCall,all]
  rw [if_neg all] at reported
  by_cases failed : q.metric = "failed_tools"
  · rw [if_pos failed,sums counts_failed] at reported
    rw [← Option.some.inj reported]
    simp [eventEvidence,asksCall,failed]
  rw [if_neg failed] at reported
  by_cases unknown : q.metric = "unknown_tools"
  · rw [if_pos unknown,sums counts_unknown] at reported
    have same : (order.visit 1 scan.calls.rows).countP (fun row => asksCall h q row.2) =
        (order.visit 1 scan.calls.rows).countP fun row =>
          (q.tool = "" || q.tool = row.2.selector h q) && decide (row.2.status ∉ Canonical.toolStatuses) := by
      apply List.countP_congr
      intro row member
      have status := (known row member).status
      have plain : row.2.status = "" ↔ row.2.status ∉ Canonical.toolStatuses := by
        constructor
        · intro none_
          rw [none_]
          decide
        · exact fun other => status.resolve_right other
      simp [asksCall,unknown,plain]
    rw [← Option.some.inj reported,same]
    simp [eventEvidence,unknown]
  rw [if_neg unknown] at reported
  by_cases asked : q.metric = "mcp_tools"
  · rw [if_pos asked,capabilities,CallScan.capabilities,mcp] at reported
    rw [← Option.some.inj reported]
    simp [eventEvidence,asksCall,asked]
  rw [if_neg asked] at reported
  by_cases skilled : q.metric = "skills"
  · rw [if_pos skilled,capabilities,CallScan.capabilities,skills] at reported
    rw [← Option.some.inj reported]
    simp [eventEvidence,asksCall,skilled]
  rw [if_neg skilled] at reported
  by_cases thinking : q.metric = "thoughts"
  · rw [if_pos thinking,thoughts] at reported
    rw [← Option.some.inj reported]
    simp [eventEvidence,asksCall,thinking]
  rw [if_neg thinking] at reported
  by_cases asking : q.metric = "user_inputs"
  · rw [if_pos asking,inputs] at reported
    rw [← Option.some.inj reported]
    simp [eventEvidence,asksCall,asking]
  · rw [if_neg asking] at reported
    cases reported

end Agree

/-- What is reported of a session agrees with itself and with its evidence. -/
theorem evidence_agrees (h : Hash) (equalFold : String → String → Bool) (order : MapOrder) (s : AnalyticsSnapshot)
    (unique : (s.events.map (·.id)).Nodup) (q : Query) (r : Result) (ok : openPage h equalFold order s q = .ok r) :
    Agreement r ∧ ∃ a, analyse h equalFold order s q.defaults = .ok a ∧
      (q.thread = "" → q.capability = "" → q.server = "" →
        ∀ n, reportedCount q.defaults r = some n → a.evidence.length = n) := by
  obtain ⟨⟨v,offset⟩,validated,derived⟩ := (bind_ok _ _ _).mp ok
  obtain ⟨_,checked,validated⟩ := (bind_ok _ _ _).mp validated
  obtain ⟨_,-,validated⟩ := (bind_ok _ _ _).mp validated
  obtain ⟨rfl,rfl⟩ := Prod.mk.inj ((pure_ok _ _).mp validated)
  obtain ⟨rfl,allowed⟩ := checkQuery_ok.mp checked
  obtain ⟨a,analysed,rest⟩ := (bind_ok _ _ _).mp derived
  obtain ⟨_,-,rest⟩ := (bind_ok _ _ _).mp rest
  obtain rfl := (pure_ok _ _).mp rest
  obtain ⟨tools,threads,capabilities,outcomes,identities,identified,files⟩ := analyse_agrees unique analysed
  refine ⟨⟨tools,threads,capabilities,outcomes,identities,identified,files⟩,a,analysed,?_⟩
  intro session anyCapability anyServer n reported
  have whole : q.defaults.range = "" := by
    by_contra some_
    have records : q.defaults.metric ≠ "records" := by
      intro records
      simp [reportedCount,records] at reported
    exact allowed.range ⟨some_,.inr (.inl records)⟩
  exact analyse_reported unique analysed whole session anyCapability anyServer reported

def oneCall : AnalyticsSnapshot :=
  {twoModels with
    threads := [rootThread]
    events := [{recordAt 1 with
      kind := "tool_call"
      toolUpdateJSON := "\x7b\"sessionUpdate\":\"tool_call\",\"toolCallId\":\"1\",\"title\":\"Read\",\"status\":\"completed\"\x7d"}]
    usage := []}

theorem evidence_agrees_oneCall : ∃ r a n, openPage bindingHash (fun a b => a = b) .same oneCall {} = .ok r ∧
    Agreement r ∧ reportedCount ({} : Query).defaults r = some n ∧
    analyse bindingHash (fun a b => a = b) .same oneCall ({} : Query).defaults = .ok a ∧ a.evidence.length = n := by
  have opened : (openPage bindingHash (fun a b => a = b) .same oneCall {}).isOk = true := by
    unfold openPage derive analyse
    simp only [oneCall,List.mergeSort_singleton]
    decide +kernel
  cases first : openPage bindingHash (fun a b => a = b) .same oneCall {} with
  | error failure =>
    rw [first] at opened
    cases opened
  | ok r =>
    obtain ⟨agrees,a,analysed,count⟩ := evidence_agrees bindingHash (fun a b => a = b) .same oneCall (by decide) {} r first
    exact ⟨r,a,_,rfl,agrees,rfl,analysed,count rfl rfl rfl _ rfl⟩

end ATape.SessionAnalytics
