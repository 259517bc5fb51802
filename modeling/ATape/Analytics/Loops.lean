import ATape.Analytics.Derive
import ATape.Foundation.Entries

/-! What the loops of an analysis find. The loop over the events runs in the order of the session; what
the loops over maps find does not depend on the order in which they visit the entries. -/
namespace ATape.SessionAnalytics
open Foundation Go SourceIdentity
open Canonical (EventRecord ToolUpdate parseToolUpdate)

/-! Events. -/

def callKey (event : EventRecord) : Option CallKey :=
  (parseToolUpdate event.toolUpdateJSON).map fun update => ⟨event.threadID,update.toolCallID⟩

theorem scanEvent_ok {equalFold : String → String → Bool} {s : AnalyticsSnapshot} {q : Query} {scan scan' : EventScan}
    {event : EventRecord} (ok : scanEvent equalFold s q scan event = .ok scan') :
    ∃ thread, scan.threads.lookup event.threadID = some thread ∧
      (event.toolUpdateJSON = "" ∧ scan' = scan.note equalFold s q thread event ∨
        ∃ update fields, parseToolUpdate event.toolUpdateJSON = some update ∧
          scan' = {scan.note equalFold s q thread event with
            calls := scan.calls.insert ⟨event.threadID,update.toolCallID⟩
              (((scan.calls.lookup ⟨event.threadID,update.toolCallID⟩).getD (.start event)).update update fields event)}) := by
  unfold scanEvent at ok
  obtain ⟨thread,held,ok⟩ := (bind_ok _ _ _).mp ok
  obtain ⟨-,-,ok⟩ := (bind_ok _ _ _).mp ok
  obtain ⟨-,-,ok⟩ := (bind_ok _ _ _).mp ok
  refine ⟨thread,(present_ok _ _ _).mp held,?_⟩
  dsimp only at ok
  split at ok
  next plain => exact .inl ⟨plain,((pure_ok _ _).mp ok).symm⟩
  next =>
    obtain ⟨update,parsed,ok⟩ := (bind_ok _ _ _).mp ok
    obtain ⟨fields,-,ok⟩ := (bind_ok _ _ _).mp ok
    exact .inr ⟨update,fields,(present_ok _ _ _).mp parsed,((pure_ok _ _).mp ok).symm⟩

structure EventScan.Found (scan : EventScan) (done : List EventRecord) : Prop where
  calls : ∀ key call, scan.calls.lookup key = some call → call.event ∈ done ∧ callKey call.event = some key
  firsts : ∀ thread event, scan.firstThreadEvent.lookup thread = some event → event ∈ done ∧ event.threadID = thread

theorem EventScan.Found.step {equalFold : String → String → Bool} {s : AnalyticsSnapshot} {q : Query}
    {scan scan' : EventScan} {done : List EventRecord} (found : scan.Found done) {event : EventRecord}
    (ok : scanEvent equalFold s q scan event = .ok scan') : scan'.Found (done++[event]) := by
  have new : event ∈ done++[event] := List.mem_append_right _ (List.mem_singleton_self _)
  obtain ⟨thread,-,outcome⟩ := scanEvent_ok ok
  have firsts : ∀ id first, (scan.note equalFold s q thread event).firstThreadEvent.lookup id = some first →
      first ∈ done++[event] ∧ first.threadID = id := by
    intro id first held
    unfold EventScan.note at held
    dsimp only at held
    split at held
    next =>
      obtain ⟨old,own⟩ := found.firsts id first held
      exact ⟨List.mem_append_left _ old,own⟩
    next =>
      rw [Table.lookup_insert] at held
      split at held
      next here =>
        obtain rfl := Option.some.inj held
        exact ⟨new,here.symm⟩
      next =>
        obtain ⟨old,own⟩ := found.firsts id first held
        exact ⟨List.mem_append_left _ old,own⟩
  have calls : ∀ key call, scan.calls.lookup key = some call → call.event ∈ done++[event] ∧ callKey call.event = some key := by
    intro key call held
    obtain ⟨old,own⟩ := found.calls key call held
    exact ⟨List.mem_append_left _ old,own⟩
  rcases outcome with ⟨-,rfl⟩|⟨update,fields,parsed,rfl⟩
  · exact ⟨calls,firsts⟩
  · refine ⟨?_,firsts⟩
    intro key call held
    rw [Table.lookup_insert] at held
    split at held
    next here =>
      obtain rfl := Option.some.inj held
      exact ⟨new,by rw [here]; exact congrArg (Option.map _) parsed⟩
    next => exact calls key call held

theorem EventScan.Found.run {equalFold : String → String → Bool} {s : AnalyticsSnapshot} {q : Query}
    {scan scan' : EventScan} {done events : List EventRecord} (found : scan.Found done)
    (ok : EventScan.run equalFold s q scan events = .ok scan') : scan'.Found (done++events) := by
  induction events generalizing scan done with
  | nil =>
    rw [← (pure_ok _ _).mp ok,List.append_nil]
    exact found
  | cons event events ih =>
    obtain ⟨next,step,ok⟩ := (bind_ok _ _ _).mp ok
    have later := ih (found.step step) ok
    rwa [List.append_assoc,List.singleton_append] at later

theorem EventScan.Found.distinct {scan : EventScan} {done : List EventRecord} (found : scan.Found done)
    (unique : (done.map (·.id)).Nodup) : (scan.calls.rows.map fun row => row.2.event.id).Nodup := by
  have keys := Table.rows_distinct scan.calls
  rw [List.nodup_map_iff_inj_on (keys.of_map _)]
  rintro ⟨key,call⟩ member ⟨key',call'⟩ member' alike
  have held := (Table.mem_rows _ _ _).mp member
  have held' := (Table.mem_rows _ _ _).mp member'
  obtain ⟨inside,own⟩ := found.calls _ _ held
  obtain ⟨inside',own'⟩ := found.calls _ _ held'
  have same : call.event = call'.event := List.inj_on_of_nodup_map unique inside inside' alike
  have sameKey : key = key' := Option.some.inj (own.symm.trans ((congrArg callKey same).trans own'))
  subst sameKey
  rw [held] at held'
  rw [Option.some.inj held']

theorem EventScan.Found.distinctFirsts {scan : EventScan} {done : List EventRecord} (found : scan.Found done)
    (unique : (done.map (·.id)).Nodup) : (scan.firstThreadEvent.rows.map fun row => row.2.id).Nodup := by
  have keys := Table.rows_distinct scan.firstThreadEvent
  rw [List.nodup_map_iff_inj_on (keys.of_map _)]
  rintro ⟨id,event⟩ member ⟨id',event'⟩ member' alike
  obtain ⟨inside,own⟩ := found.firsts _ _ ((Table.mem_rows _ _ _).mp member)
  obtain ⟨inside',own'⟩ := found.firsts _ _ ((Table.mem_rows _ _ _).mp member')
  have same : event = event' := List.inj_on_of_nodup_map unique inside inside' alike
  exact Prod.ext (own.symm.trans ((congrArg (·.threadID) same).trans own')) same

/-! Calls. -/

section Calls
variable {h : Hash} {q : Query}

theorem take_groups (scan : CallScan) (row : CallKey × ToolCall) : (scan.take h q row).groups =
    scan.groups.insert (row.2.groupKey h q) {(scan.groups.lookup (row.2.groupKey h q)).getD (row.2.group h q) with
      outcomes := ((scan.groups.lookup (row.2.groupKey h q)).getD (row.2.group h q)).outcomes.increment row.2.status} := by
  unfold CallScan.take CallScan.countCapability
  cases row.2.capability <;> rfl

theorem hasRoom_iff {scan : CallScan} (fits : scan.fits) (row : CallKey × ToolCall) :
    scan.hasRoom h q row.2 ↔ (scan.take h q row).fits := by
  obtain ⟨groups,others⟩ := fits
  have tools := @Table.size_insert_fits _ _ _ scan.groups 0 maxTools groups (row.2.groupKey h q)
  simp only [Nat.add_zero] at tools
  unfold CallScan.hasRoom CallScan.fits
  rw [take_groups]
  apply and_congr (tools _).symm
  unfold CallScan.take CallScan.countCapability
  cases row.2.capability with
  | unclassified => exact iff_of_true trivial others
  | other => exact iff_of_true trivial others
  | mcp server name => exact (Table.size_insert_fits others _ _).symm
  | skill name =>
    have skills := @Table.size_insert_fits _ _ _ scan.skillGroups scan.mcpGroups.size maxTools
      (by omega) name
    simp only [Nat.add_comm _ (Table.size scan.mcpGroups)] at skills
    exact (skills _).symm

theorem fits_of_take {scan : CallScan} {row : CallKey × ToolCall} (fits : (scan.take h q row).fits) : scan.fits := by
  obtain ⟨groups,others⟩ := fits
  rw [take_groups] at groups
  refine ⟨(Table.size_insert_le _ _ _).trans groups,le_trans ?_ others⟩
  unfold CallScan.take CallScan.countCapability
  cases row.2.capability with
  | unclassified => exact le_rfl
  | other => exact le_rfl
  | mcp server name => exact Nat.add_le_add_right (Table.size_insert_le _ _ _) _
  | skill name => exact Nat.add_le_add_left (Table.size_insert_le _ _ _) _

theorem callRun_ok {scan scan' : CallScan} (fits : scan.fits) {rows : List (CallKey × ToolCall)} :
    CallScan.run h q scan rows = .ok scan' ↔ rows.foldl (CallScan.take h q) scan = scan' ∧ scan'.fits :=
  foldGuarded_ok CallScan.fits (fun _ row fits => not_congr (hasRoom_iff fits row)) (fun _ _ => fits_of_take) fits

def ToolCall.offer (h : Hash) (q : Query) (call : ToolCall) : Option (String × EvidenceItem) :=
  (call.candidate h q).map fun label => (call.event.id,evidenceItem call.event label)

theorem offer_key (call : ToolCall) (e : String × EvidenceItem) (offered : call.offer h q = some e) : e.1 = call.event.id := by
  obtain ⟨label,-,rfl⟩ := Option.map_eq_some_iff.mp offered
  rfl

theorem countCapability_candidates (scan : CallScan) (call : ToolCall) :
    (scan.countCapability q call).candidates = scan.candidates := by
  unfold CallScan.countCapability
  cases call.capability <;> rfl

theorem take_candidates (scan : CallScan) (row : CallKey × ToolCall) : (scan.take h q row).candidates =
    Table.insertAll (row.2.offer h q).toList scan.candidates := by
  rw [CallScan.take,countCapability_candidates,ToolCall.offer]
  unfold CallScan.countTool
  cases row.2.candidate h q <;> rfl

theorem takes_candidates (scan : CallScan) (rows : List (CallKey × ToolCall)) :
    (rows.foldl (CallScan.take h q) scan).candidates =
      Table.insertAll (rows.filterMap fun row => row.2.offer h q) scan.candidates := by
  induction rows generalizing scan with
  | nil => rfl
  | cons row rows ih =>
    rw [List.foldl_cons,ih,take_candidates,← Table.insertAll_append]
    congr 1
    cases offer : row.2.offer h q with
    | none => simp only [List.filterMap_cons,offer,Option.toList_none,List.nil_append]
    | some entry => simp only [List.filterMap_cons,offer,Option.toList_some,List.singleton_append]

theorem takes_groups_isSome (scan : CallScan) (rows : List (CallKey × ToolCall)) (k : String × String) :
    ((rows.foldl (CallScan.take h q) scan).groups.lookup k).isSome = true ↔
      (scan.groups.lookup k).isSome = true ∨ ∃ row ∈ rows, row.2.groupKey h q = k := by
  induction rows generalizing scan with
  | nil => simp
  | cons row rows ih =>
    rw [List.foldl_cons,ih,take_groups,Table.lookup_insert]
    by_cases own : k = row.2.groupKey h q
    · subst own
      simp
    · have other : ¬row.2.groupKey h q = k := fun same => own same.symm
      simp [own,other]

theorem takes_mcp_isSome (scan : CallScan) (rows : List (CallKey × ToolCall)) (k : String × String) :
    ((rows.foldl (CallScan.take h q) scan).mcpGroups.lookup k).isSome = true ↔
      (scan.mcpGroups.lookup k).isSome = true ∨ ∃ row ∈ rows, row.2.capability = .mcp k.1 k.2 := by
  induction rows generalizing scan with
  | nil => simp
  | cons row rows ih =>
    rw [List.foldl_cons,ih,CallScan.take,CallScan.countCapability]
    cases capability : row.2.capability with
    | unclassified => simp [capability]
    | other => simp [capability]
    | skill name => simp [capability]
    | mcp server name =>
      simp only [Table.lookup_insert,List.exists_mem_cons_iff,capability,Capability.mcp.injEq]
      by_cases own : k = (server,name)
      · subst own
        simp
      · have other : ¬(server = k.1 ∧ name = k.2) := fun same => own (Prod.ext same.1.symm same.2.symm)
        simp [own,other]

theorem takes_skills_isSome (scan : CallScan) (rows : List (CallKey × ToolCall)) (k : String) :
    ((rows.foldl (CallScan.take h q) scan).skillGroups.lookup k).isSome = true ↔
      (scan.skillGroups.lookup k).isSome = true ∨ ∃ row ∈ rows, row.2.capability = .skill k := by
  induction rows generalizing scan with
  | nil => simp
  | cons row rows ih =>
    rw [List.foldl_cons,ih,CallScan.take,CallScan.countCapability]
    cases capability : row.2.capability with
    | unclassified => simp [capability]
    | other => simp [capability]
    | mcp server name => simp [capability]
    | skill name =>
      simp only [Table.lookup_insert,List.exists_mem_cons_iff,capability,Capability.skill.injEq]
      by_cases own : k = name
      · subst own
        simp
      · have other : ¬name = k := fun same => own same.symm
        simp [own,other]

theorem takes_names (scan : CallScan) (rows : List (CallKey × ToolCall)) (name : String) :
    (name ∈ (rows.foldl (CallScan.take h q) scan).toolNames ↔
      name ∈ scan.toolNames ∨ ∃ row ∈ rows, row.2.selector h q = name) ∧
    (name ∈ (rows.foldl (CallScan.take h q) scan).serverNames ↔
      name ∈ scan.serverNames ∨ ∃ row ∈ rows, ∃ own, row.2.capability = .mcp name own) ∧
    (name ∈ (rows.foldl (CallScan.take h q) scan).capabilityNames ↔ name ∈ scan.capabilityNames ∨ ∃ row ∈ rows,
      q.metric = "mcp_tools" ∧ (∃ server, row.2.capability = .mcp server name) ∨
        q.metric = "skills" ∧ row.2.capability = .skill name) := by
  induction rows generalizing scan with
  | nil => simp
  | cons row rows ih =>
    obtain ⟨tools,servers,capabilities⟩ := ih (scan.take h q row)
    rw [List.foldl_cons,tools,servers,capabilities]
    simp only [List.exists_mem_cons_iff,← or_assoc]
    refine ⟨or_congr_left ?_,or_congr_left ?_,or_congr_left ?_⟩
    · unfold CallScan.take CallScan.countCapability
      cases row.2.capability <;> simp [eq_comm,or_comm]
    · unfold CallScan.take CallScan.countCapability
      cases row.2.capability <;> simp [eq_comm,or_comm]
    · unfold CallScan.take CallScan.countCapability
      cases row.2.capability with
      | unclassified => simp
      | other => simp
      | mcp server own =>
        by_cases asked : q.metric = "mcp_tools"
        · simp [asked,eq_comm,or_comm]
        · simp [asked]
      | skill own =>
        by_cases asked : q.metric = "skills"
        · simp [asked,eq_comm,or_comm]
        · simp [asked]

theorem callRun_perm {scan scan' : CallScan} (fits : scan.fits) {rows rows' : List (CallKey × ToolCall)}
    (perm : rows.Perm rows') (unique : (rows.map fun row => row.2.event.id).Nodup)
    (ok : CallScan.run h q scan rows = .ok scan') : ∃ found, CallScan.run h q scan rows' = .ok found ∧
      (∀ id, found.candidates.lookup id = scan'.candidates.lookup id) ∧
      (∀ name, name ∈ found.toolNames ↔ name ∈ scan'.toolNames) ∧
      (∀ name, name ∈ found.serverNames ↔ name ∈ scan'.serverNames) ∧
      ∀ name, name ∈ found.capabilityNames ↔ name ∈ scan'.capabilityNames := by
  obtain ⟨rfl,fits'⟩ := (callRun_ok fits).mp ok
  refine ⟨rows'.foldl (CallScan.take h q) scan,(callRun_ok fits).mpr ⟨rfl,?_,?_⟩,?_,?_,?_,?_⟩
  · rw [@Table.size_of_keys _ _ _ _ _ (rows.foldl (CallScan.take h q) scan).groups]
    · exact fits'.1
    · intro k
      rw [takes_groups_isSome,takes_groups_isSome]
      simp only [perm.mem_iff]
  · rw [@Table.size_of_keys _ _ _ _ _ (rows.foldl (CallScan.take h q) scan).mcpGroups,
      @Table.size_of_keys _ _ _ _ _ (rows.foldl (CallScan.take h q) scan).skillGroups]
    · exact fits'.2
    · intro k
      rw [takes_skills_isSome,takes_skills_isSome]
      simp only [perm.mem_iff]
    · intro k
      rw [takes_mcp_isSome,takes_mcp_isSome]
      simp only [perm.mem_iff]
  · intro id
    rw [takes_candidates,takes_candidates]
    apply Table.insertAll_perm _ (perm.symm.filterMap _) (fun _ => rfl)
    exact Table.offers_distinct (fun row e => offer_key row.2 e) ((perm.map _).nodup_iff.mp unique)
  · intro name
    simp only [(takes_names scan _ name).1,perm.mem_iff]
  · intro name
    simp only [(takes_names scan _ name).2.1,perm.mem_iff]
  · intro name
    simp only [(takes_names scan _ name).2.2,perm.mem_iff]

end Calls

/-! Files. -/

section Files
variable {h : Hash} {order : MapOrder} {q : Query}

/-- The filters of the query take in a file entry. -/
def asksFile (h : Hash) (q : Query) (entry : String × String) : Bool :=
  (decide (q.file = "") || decide (q.file = filePathKey h entry.2)) &&
    (decide (q.operation = "") || decide (q.operation = entry.1))

def FileEntries.fits (scan : FileEntries) : Prop := scan.paths.size ≤ maxFilePaths

theorem entry_hasRoom {scan : FileEntries} (fits : scan.fits) (entry : String × String) :
    scan.hasRoom entry ↔ (scan.take h q entry).fits := by
  have grows := @Table.size_insert_fits _ _ _ scan.paths 0 maxFilePaths fits entry.2
  simp only [Nat.add_zero] at grows
  unfold FileEntries.hasRoom FileEntries.fits FileEntries.take
  by_cases seen : entry ∈ scan.seen
  · simp only [seen,true_or,if_true,true_iff]
    exact fits
  · simp only [seen,false_or,if_false]
    exact (grows _).symm

theorem entry_back {scan : FileEntries} {entry : String × String} (fits : (scan.take h q entry).fits) : scan.fits := by
  unfold FileEntries.fits FileEntries.take at fits
  dsimp only at fits
  split at fits
  next => exact fits
  next => exact (Table.size_insert_le _ _ _).trans fits

theorem entryRun_ok {scan scan' : FileEntries} (fits : scan.fits) {entries : List (String × String)} :
    FileEntries.run h q scan entries = .ok scan' ↔ entries.foldl (FileEntries.take h q) scan = scan' ∧ scan'.fits :=
  foldGuarded_ok FileEntries.fits (fun _ entry fits => not_congr (entry_hasRoom fits entry)) (fun _ _ => entry_back) fits

/-- Each group stands under its path and each selector names one of them. -/
structure FilePaths (h : Hash) (paths : Table String FilePath) (selectors : List String) : Prop where
  keys : ∀ path group, paths.lookup path = some group → group.key = filePathKey h path
  selectors : ∀ name, name ∈ selectors ↔ ∃ path, (paths.lookup path).isSome = true ∧ filePathKey h path = name

structure FileEntries.Kept (h : Hash) (q : Query) (scan : FileEntries) : Prop where
  groups : FilePaths h scan.paths scan.selectors
  seen : ∀ entry ∈ scan.seen, (scan.paths.lookup entry.2).isSome = true ∧ (asksFile h q entry = true → scan.found = true)

theorem group_key {paths : Table String FilePath} {selectors : List String} (groups : FilePaths h paths selectors)
    (path : String) : ((paths.lookup path).getD {key := filePathKey h path,path}).key = filePathKey h path := by
  cases held : paths.lookup path with
  | none => rfl
  | some group => exact groups.keys path group held

theorem FilePaths.insert {paths : Table String FilePath} {selectors : List String} (groups : FilePaths h paths selectors)
    (path : String) {group : FilePath} (own : group.key = filePathKey h path) :
    FilePaths h (paths.insert path group)
      (if (paths.lookup path).isSome = true then selectors else filePathKey h path::selectors) where
  keys := by
    intro other group' held
    rw [Table.lookup_insert] at held
    split at held
    next here =>
      rw [← Option.some.inj held,here]
      exact own
    next => exact groups.keys other group' held
  selectors := by
    intro name
    split
    next old =>
      rw [groups.selectors]
      apply exists_congr
      intro other
      rw [Table.lookup_insert]
      split
      next here =>
        subst here
        simp only [old,Option.isSome_some]
      next => exact Iff.rfl
    next new =>
      rw [List.mem_cons,groups.selectors]
      constructor
      · rintro (rfl|⟨other,held,rfl⟩)
        · exact ⟨path,by rw [Table.lookup_insert,if_pos rfl]; rfl,rfl⟩
        · refine ⟨other,?_,rfl⟩
          rw [Table.lookup_insert]
          split
          next => rfl
          next => exact held
      · rintro ⟨other,held,rfl⟩
        rw [Table.lookup_insert] at held
        split at held
        next here =>
          rw [here]
          exact .inl rfl
        next => exact .inr ⟨other,held,rfl⟩

theorem FileEntries.Kept.take {scan : FileEntries} (kept : scan.Kept h q) (entry : String × String) :
    (scan.take h q entry).Kept h q ∧ (scan.take h q entry).found = (scan.found || asksFile h q entry) ∧
      ∀ path, ((scan.take h q entry).paths.lookup path).isSome = true ↔
        (scan.paths.lookup path).isSome = true ∨ entry.2 = path := by
  have own : (scan.group h entry.2).key = filePathKey h entry.2 := group_key kept.groups entry.2
  by_cases old : entry ∈ scan.seen
  · have same : scan.take h q entry = scan := if_pos old
    rw [same]
    obtain ⟨inside,found⟩ := kept.seen entry old
    refine ⟨kept,?_,?_⟩
    · cases asked : asksFile h q entry with
      | false => rw [Bool.or_false]
      | true => rw [found asked,Bool.or_true]
    · intro path
      constructor
      · exact .inl
      · rintro (held|rfl)
        · exact held
        · exact inside
  · have paths : (scan.take h q entry).paths = scan.paths.insert entry.2 {scan.group h entry.2 with
        calls := if entry.2 ∈ scan.seenPaths then (scan.group h entry.2).calls else (scan.group h entry.2).calls+1
        operations := (scan.group h entry.2).operations.increment entry.1} := by
      unfold FileEntries.take
      dsimp only
      rw [if_neg old]
    have selectors : (scan.take h q entry).selectors = if (scan.paths.lookup entry.2).isSome = true then scan.selectors
        else filePathKey h entry.2::scan.selectors := by
      unfold FileEntries.take
      dsimp only
      rw [if_neg old,own]
    have seen : (scan.take h q entry).seen = entry::scan.seen := by
      unfold FileEntries.take
      dsimp only
      rw [if_neg old]
    have found : (scan.take h q entry).found = (scan.found || asksFile h q entry) := by
      unfold FileEntries.take
      dsimp only
      rw [if_neg old,own]
      rfl
    have lookups : ∀ path, ((scan.take h q entry).paths.lookup path).isSome = true ↔
        (scan.paths.lookup path).isSome = true ∨ entry.2 = path := by
      intro path
      rw [paths,Table.lookup_insert]
      by_cases here : path = entry.2
      · simp [here]
      · simp [here,Ne.symm here]
    refine ⟨⟨?_,?_⟩,found,lookups⟩
    · rw [paths,selectors]
      exact kept.groups.insert entry.2 own
    · intro other member
      rw [seen,List.mem_cons] at member
      rw [lookups,found]
      rcases member with rfl|member
      · exact ⟨.inr rfl,fun asked => by rw [asked,Bool.or_true]⟩
      · obtain ⟨inside,hit⟩ := kept.seen other member
        exact ⟨.inl inside,fun asked => by rw [hit asked,Bool.true_or]⟩

theorem FileEntries.Kept.takes {scan : FileEntries} (kept : scan.Kept h q) (entries : List (String × String)) :
    (entries.foldl (FileEntries.take h q) scan).Kept h q ∧
      (entries.foldl (FileEntries.take h q) scan).found = (scan.found || entries.any (asksFile h q)) ∧
      ∀ path, ((entries.foldl (FileEntries.take h q) scan).paths.lookup path).isSome = true ↔
        (scan.paths.lookup path).isSome = true ∨ ∃ entry ∈ entries, entry.2 = path := by
  induction entries generalizing scan with
  | nil => simp [kept]
  | cons entry entries ih =>
    obtain ⟨kept',found,paths⟩ := kept.take entry
    obtain ⟨kept'',found',paths'⟩ := ih kept'
    rw [List.foldl_cons]
    refine ⟨kept'',?_,?_⟩
    · rw [found',found,List.any_cons,Bool.or_assoc]
    · intro path
      rw [paths',paths,List.exists_mem_cons_iff,or_assoc]

def FileScan.take (h : Hash) (order : MapOrder) (q : Query) (scan : FileScan) (call : ToolCall) : FileScan :=
  if call.fileActivity = [] then {scan with callsWithoutActivity := scan.callsWithoutActivity+1}
  else scan.count order q call (call.fileActivity.foldl (FileEntries.take h q) scan.entries)

def FileScan.fits (scan : FileScan) : Prop := scan.paths.size ≤ maxFilePaths

theorem scanFiles_ok {scan scan' : FileScan} (fits : scan.fits) (call : ToolCall) :
    scanFiles h order q scan call = .ok scan' ↔ scan.take h order q call = scan' ∧ scan'.fits := by
  have start : scan.entries.fits := fits
  unfold scanFiles FileScan.take
  split
  next =>
    rw [pure_ok]
    constructor
    · rintro rfl
      exact ⟨rfl,fits⟩
    · exact And.left
  next =>
    rw [bind_ok]
    simp only [pure_ok]
    constructor
    · rintro ⟨entries,run,rfl⟩
      obtain ⟨rfl,fits'⟩ := (entryRun_ok start).mp run
      exact ⟨rfl,fits'⟩
    · rintro ⟨rfl,fits'⟩
      exact ⟨_,(entryRun_ok start).mpr ⟨rfl,fits'⟩,rfl⟩

theorem entries_back {scan : FileEntries} {entries : List (String × String)}
    (fits : (entries.foldl (FileEntries.take h q) scan).fits) : scan.fits :=
  fits_before FileEntries.fits (fun _ _ => entry_back) fits

theorem call_back {scan : FileScan} {call : ToolCall} (fits : (scan.take h order q call).fits) : scan.fits := by
  unfold FileScan.take at fits
  split at fits
  next => exact fits
  next => exact entries_back fits

theorem fileRun_ok {scan scan' : FileScan} (fits : scan.fits) {calls : List ToolCall} :
    FileScan.run h order q scan calls = .ok scan' ↔ calls.foldl (FileScan.take h order q) scan = scan' ∧ scan'.fits := by
  induction calls generalizing scan with
  | nil =>
    rw [FileScan.run,pure_ok,List.foldl_nil]
    constructor
    · rintro rfl
      exact ⟨rfl,fits⟩
    · exact And.left
  | cons call calls ih =>
    rw [FileScan.run,bind_ok,List.foldl_cons]
    constructor
    · rintro ⟨next,step,rest⟩
      obtain ⟨rfl,fits'⟩ := (scanFiles_ok fits call).mp step
      exact (ih fits').mp rest
    · rintro ⟨rfl,fits'⟩
      have fits'' : (scan.take h order q call).fits := fits_before FileScan.fits (fun _ _ => call_back) fits'
      exact ⟨_,(scanFiles_ok fits call).mpr ⟨rfl,fits''⟩,(ih fits'').mpr ⟨rfl,fits'⟩⟩

def ToolCall.offerFile (h : Hash) (q : Query) (call : ToolCall) : Option (String × EvidenceItem) :=
  if q.metric = "files" ∧ call.fileActivity.any (asksFile h q) = true then
    some (call.event.id,evidenceItem call.event call.name)
  else none

theorem offerFile_key (call : ToolCall) (e : String × EvidenceItem) (offered : call.offerFile h q = some e) :
    e.1 = call.event.id := by
  unfold ToolCall.offerFile at offered
  split at offered
  next => rw [← Option.some.inj offered]
  next => cases offered

theorem FilePaths.take {scan : FileScan} (groups : FilePaths h scan.paths scan.selectors) (call : ToolCall) :
    FilePaths h (scan.take h order q call).paths (scan.take h order q call).selectors ∧
      (scan.take h order q call).candidates = Table.insertAll (call.offerFile h q).toList scan.candidates ∧
      ∀ path, ((scan.take h order q call).paths.lookup path).isSome = true ↔
        (scan.paths.lookup path).isSome = true ∨ ∃ entry ∈ call.fileActivity, entry.2 = path := by
  have kept : scan.entries.Kept h q := ⟨groups,fun _ member => absurd member List.not_mem_nil⟩
  obtain ⟨⟨groups',-⟩,found,paths⟩ := kept.takes call.fileActivity
  rw [show scan.entries.found = false from rfl,Bool.false_or] at found
  unfold FileScan.take
  split
  next nothing =>
    refine ⟨groups,?_,?_⟩
    · simp [ToolCall.offerFile,nothing,Table.insertAll]
    · simp [nothing]
  next =>
    refine ⟨groups',?_,paths⟩
    unfold FileScan.count ToolCall.offerFile
    dsimp only
    rw [found]
    split <;> rfl

theorem FilePaths.takes {scan : FileScan} (groups : FilePaths h scan.paths scan.selectors) (calls : List ToolCall) :
    FilePaths h (calls.foldl (FileScan.take h order q) scan).paths (calls.foldl (FileScan.take h order q) scan).selectors ∧
      (calls.foldl (FileScan.take h order q) scan).candidates =
        Table.insertAll (calls.filterMap (ToolCall.offerFile h q)) scan.candidates ∧
      ∀ path, ((calls.foldl (FileScan.take h order q) scan).paths.lookup path).isSome = true ↔
        (scan.paths.lookup path).isSome = true ∨ ∃ call ∈ calls, ∃ entry ∈ call.fileActivity, entry.2 = path := by
  induction calls generalizing scan with
  | nil => exact ⟨groups,rfl,by simp⟩
  | cons call calls ih =>
    obtain ⟨groups',candidates,paths⟩ := @FilePaths.take h order q scan groups call
    obtain ⟨groups'',candidates',paths'⟩ := ih groups'
    rw [List.foldl_cons]
    refine ⟨groups'',?_,?_⟩
    · rw [candidates',candidates,← Table.insertAll_append]
      congr 1
      cases offered : call.offerFile h q with
      | none => simp only [List.filterMap_cons,offered,Option.toList_none,List.nil_append]
      | some entry => simp only [List.filterMap_cons,offered,Option.toList_some,List.singleton_append]
    · intro path
      rw [paths',paths,List.exists_mem_cons_iff,or_assoc]

theorem no_files : FilePaths h (∅ : Table String FilePath) [] := by
  constructor
  · intro path group held
    cases held
  · simp

theorem deriveFileActivity_candidates {calls : Table CallKey ToolCall} {candidates : Table String EvidenceItem}
    {found : FileActivity × Table String EvidenceItem} (ok : deriveFileActivity h order q calls candidates = .ok found) :
    found.2 = Table.insertAll (((order.visit 2 calls.rows).map Prod.snd).filterMap (ToolCall.offerFile h q)) candidates := by
  obtain ⟨scan,run,ok⟩ := (bind_ok _ _ _).mp ok
  obtain ⟨_,-,ok⟩ := (bind_ok _ _ _).mp ok
  obtain rfl := (pure_ok _ _).mp ok
  obtain ⟨rfl,-⟩ := (fileRun_ok (show FileScan.fits {candidates} from Nat.zero_le _)).mp run
  exact (@FilePaths.takes h order q {candidates} no_files _).2.1

theorem deriveFileActivity_perm {order' : MapOrder} {calls : Table CallKey ToolCall}
    {candidates candidates' : Table String EvidenceItem} (unique : (calls.rows.map fun row => row.2.event.id).Nodup)
    (alike : ∀ id, candidates.lookup id = candidates'.lookup id) {found : FileActivity × Table String EvidenceItem}
    (ok : deriveFileActivity h order q calls candidates = .ok found) :
    ∃ found', deriveFileActivity h order' q calls candidates' = .ok found' ∧
      ∀ id, found'.2.lookup id = found.2.lookup id := by
  obtain ⟨scan,run,ok⟩ := (bind_ok _ _ _).mp ok
  obtain ⟨_,asked,ok⟩ := (bind_ok _ _ _).mp ok
  rw [failWhen_ok] at asked
  obtain rfl := (pure_ok _ _).mp ok
  have nothing : ∀ candidates : Table String EvidenceItem, FileScan.fits {candidates} := fun _ => Nat.zero_le _
  obtain ⟨rfl,fits⟩ := (fileRun_ok (nothing candidates)).mp run
  have perm : ((order.visit 2 calls.rows).map Prod.snd).Perm ((order'.visit 2 calls.rows).map Prod.snd) :=
    ((order.perm 2 calls.rows).trans (order'.perm 2 calls.rows).symm).map Prod.snd
  obtain ⟨groups,offers,paths⟩ := @FilePaths.takes h order q {candidates} no_files ((order.visit 2 calls.rows).map Prod.snd)
  obtain ⟨groups',offers',paths'⟩ := @FilePaths.takes h order' q {candidates := candidates'} no_files
    ((order'.visit 2 calls.rows).map Prod.snd)
  have same : ∀ path, ((((order'.visit 2 calls.rows).map Prod.snd).foldl (FileScan.take h order' q)
      {candidates := candidates'}).paths.lookup path).isSome = true ↔ ((((order.visit 2 calls.rows).map Prod.snd).foldl
        (FileScan.take h order q) {candidates}).paths.lookup path).isSome = true := by
    intro path
    rw [paths,paths']
    simp only [perm.mem_iff]
  have fits' : FileScan.fits (((order'.visit 2 calls.rows).map Prod.snd).foldl (FileScan.take h order' q)
      {candidates := candidates'}) := by
    rw [FileScan.fits,Table.size_of_keys same]
    exact fits
  have run' := (fileRun_ok (nothing candidates')).mpr ⟨rfl,fits'⟩
  have asked' : ¬(q.file ≠ "" ∧ q.file ∉ (((order'.visit 2 calls.rows).map Prod.snd).foldl (FileScan.take h order' q)
      {candidates := candidates'}).selectors) := by
    rw [groups'.selectors]
    simp only [same]
    rwa [← groups.selectors]
  unfold deriveFileActivity
  rw [run',ok_bind,failWhen_neg _ asked',ok_bind]
  refine ⟨_,rfl,?_⟩
  intro id
  dsimp only
  rw [offers,offers']
  have ids : ∀ order : MapOrder, (((order.visit 2 calls.rows).map Prod.snd).map fun call => call.event.id).Nodup := by
    intro order
    rw [List.map_map]
    exact ((order.perm 2 calls.rows).map _).nodup_iff.mpr unique
  apply Table.insertAll_perm _ (perm.symm.filterMap _) fun id => (alike id).symm
  exact Table.offers_distinct offerFile_key (ids order')

end Files

end ATape.SessionAnalytics
