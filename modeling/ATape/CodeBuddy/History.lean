import ATape.CodeBuddy.Records

/-! A history keeps what was published of it while its file grows. -/
namespace ATape.CodeBuddy
open Foundation

variable {ν : Type}

/-- A record like an earlier one. -/
def NativeRecord.repeats (record other : NativeRecord ν) : Bool := record.key = other.key ∧ record.json = other.json

theorem id_ok {value : Option (Value ν)} {text : String} (ok : id value = .ok text) : value = some (.str text) := by
  unfold id at ok
  split at ok
  next other =>
    split at ok
    next => cases ok
    next =>
      cases ok
      rfl
  next => cases ok

theorem isText_iff {value : Option (Value ν)} {text : String} : isText value text = true ↔ value = some (.str text) := by
  unfold isText
  split <;> simp_all

def Entry.rowId (entry : Entry ν) : Except Failure String := id (entry.row.get "id")

theorem key_ok {record : NativeRecord ν} {rowId callId : String} : record.key = .ok (rowId,callId) ↔
    id (record.row.get "id") = .ok rowId ∧ callIdOf record.row = .ok callId := by
  simp only [NativeRecord.key,bind_ok,pure_ok,Prod.mk.injEq]
  constructor
  · rintro ⟨_,first,_,second,rfl,rfl⟩
    exact ⟨first,second⟩
  · rintro ⟨first,second⟩
    exact ⟨_,first,_,second,rfl,rfl⟩

inductive Scanning (scan : Scan ν) (record : NativeRecord ν) : Scan ν → Prop
  | repeated (rowId callId) (variants) (named : record.key = .ok (rowId,callId))
    (known : scan.seen.lookup rowId = some variants) (same : variants.lookup callId = some record.json) :
    Scanning scan record scan
  | kept (rowId callId) (named : record.key = .ok (rowId,callId))
    (fresh : (scan.seen.lookup rowId).bind (·.lookup callId) = none)
    (placed : ∀ variants, scan.seen.lookup rowId = some variants → scan.misplaced rowId callId variants = false) :
    Scanning scan record ⟨scan.unique++[⟨record,(scan.seen.lookup rowId).isSome⟩],
      scan.seen.insert rowId (((scan.seen.lookup rowId).getD ∅).insert callId record.json)⟩

theorem scanning {scan scan' : Scan ν} {record : NativeRecord ν} (ok : scanRecord scan record = .ok scan') :
    Scanning scan record scan' := by
  unfold scanRecord at ok
  rw [bind_ok] at ok
  obtain ⟨⟨rowId,callId⟩,named,ok⟩ := ok
  simp only at ok
  split at ok
  next json found =>
    obtain ⟨variants,known,there⟩ := Option.bind_eq_some_iff.mp found
    split at ok
    next => cases ok
    next same =>
      cases ok
      refine .repeated rowId callId variants named known ?_
      rw [there,not_not.mp same]
  next fresh =>
    split at ok
    next => cases ok
    next placed =>
      cases ok
      refine .kept rowId callId named fresh ?_
      intro variants known
      simpa [known] using placed

theorem Scanning.ok {scan scan' : Scan ν} {record : NativeRecord ν} (scanning : Scanning scan record scan') :
    scanRecord scan record = .ok scan' := by
  unfold scanRecord
  cases scanning with
  | repeated rowId callId variants named known same =>
    rw [named,ok_bind]
    simp [known,same,pure,Except.pure]
  | kept rowId callId named fresh placed =>
    rw [named,ok_bind]
    have placed' : ((scan.seen.lookup rowId).any (scan.misplaced rowId callId)) = false := by
      cases known : scan.seen.lookup rowId with
      | none => rfl
      | some variants => exact placed variants known
    simp only [fresh,placed']
    rfl

theorem exists_append_singleton {α : Type} {as : List α} {a : α} {p : α → Prop} :
    (∃ b ∈ as++[a], p b) ↔ (∃ b ∈ as, p b) ∨ p a := by
  simp [or_and_right,exists_or]

/-- What a scan has kept and what it remembers. -/
structure Scanned (records : List (NativeRecord ν)) (scan : Scan ν) : Prop where
  kept : scan.unique.map (·.toNativeRecord) = firsts NativeRecord.repeats records
  known : ∀ record ∈ records, ∃ entry ∈ scan.unique, entry.key = record.key ∧ entry.json = record.json
  named : ∀ entry ∈ scan.unique, ∃ rowId callId, entry.key = .ok (rowId,callId)
  distinct : (scan.unique.map (·.key)).Nodup
  seen : ∀ rowId callId json, (scan.seen.lookup rowId).bind (·.lookup callId) = some json ↔
    ∃ entry ∈ scan.unique, entry.key = .ok (rowId,callId) ∧ entry.json = json
  rows : ∀ rowId, (scan.seen.lookup rowId).isSome = true ↔ ∃ entry ∈ scan.unique, entry.rowId = .ok rowId
  grouped : Grouped Entry.rowId Entry.sibling scan.unique
  again : scanRecords (scan.unique.map (·.toNativeRecord)) = .ok scan

theorem scanned_nil : Scanned ([] : List (NativeRecord ν)) ⟨[],∅⟩ where
  kept := rfl
  known := nofun
  named := nofun
  distinct := .nil
  seen := by simp
  rows := by simp
  grouped := grouped_nil
  again := rfl

theorem Scanned.step {records : List (NativeRecord ν)} {scan scan' : Scan ν} {record : NativeRecord ν}
    (scanned : Scanned records scan) (scanning : Scanning scan record scan') : Scanned (records++[record]) scan' := by
  have repeated : records.any (·.repeats record) = true ↔
      ∃ entry ∈ scan.unique, entry.key = record.key ∧ entry.json = record.json := by
    rw [List.any_eq_true]
    constructor
    · rintro ⟨other,member,same⟩
      obtain ⟨entry,inside,key,json⟩ := scanned.known other member
      have same := of_decide_eq_true same
      exact ⟨entry,inside,key.trans same.1,json.trans same.2⟩
    · rintro ⟨entry,inside,key,json⟩
      have member : entry.toNativeRecord ∈ firsts NativeRecord.repeats records :=
        scanned.kept ▸ List.mem_map_of_mem inside
      exact ⟨_,(firsts_sublist _ _).subset member,decide_eq_true ⟨key,json⟩⟩
  cases scanning with
  | repeated rowId callId variants named known same =>
    obtain ⟨entry,inside,key,json⟩ := (scanned.seen rowId callId record.json).mp (by rw [known]; exact same)
    have like : ∃ entry ∈ scan.unique, entry.key = record.key ∧ entry.json = record.json :=
      ⟨entry,inside,key.trans named.symm,json⟩
    refine {scanned with kept := ?_,known := ?_}
    · rw [firsts_append_singleton,if_pos (repeated.mpr like),List.append_nil]
      exact scanned.kept
    · intro other member
      rcases List.mem_append.mp member with member | member
      · exact scanned.known other member
      · obtain rfl := List.mem_singleton.mp member
        exact like
  | kept rowId callId named fresh placed =>
    have new : ∀ entry ∈ scan.unique, entry.key ≠ .ok (rowId,callId) := by
      intro entry inside key
      have there := (scanned.seen rowId callId entry.json).mpr ⟨entry,inside,key,rfl⟩
      rw [fresh] at there
      cases there
    have rowId_ok : id (record.row.get "id") = .ok rowId := (key_ok.mp named).1
    refine ⟨?_,?_,?_,?_,?_,?_,?_,?_⟩
    · have unlike : ¬records.any (·.repeats record) = true := by
        intro like
        obtain ⟨entry,inside,key,_⟩ := repeated.mp like
        exact new entry inside (key.trans named)
      rw [firsts_append_singleton,if_neg unlike,List.map_append,scanned.kept]
      rfl
    · intro other member
      rcases List.mem_append.mp member with member | member
      · obtain ⟨entry,inside,same⟩ := scanned.known other member
        exact ⟨entry,List.mem_append_left _ inside,same⟩
      · obtain rfl := List.mem_singleton.mp member
        exact ⟨_,List.mem_append_right _ (List.mem_singleton.mpr rfl),rfl,rfl⟩
    · intro entry inside
      rcases List.mem_append.mp inside with inside | inside
      · exact scanned.named entry inside
      · obtain rfl := List.mem_singleton.mp inside
        exact ⟨rowId,callId,named⟩
    · rw [List.map_append,List.nodup_append]
      refine ⟨scanned.distinct,List.nodup_singleton _,?_⟩
      intro key member other last
      obtain ⟨entry,inside,rfl⟩ := List.mem_map.mp member
      obtain rfl := List.mem_singleton.mp last
      exact fun same => new entry inside (same.trans named)
    · intro rowId' callId' json
      rw [exists_append_singleton,← scanned.seen,Table.lookup_insert]
      by_cases row : rowId = rowId'
      · subst row
        rw [if_pos rfl,Option.bind_some,Table.lookup_insert]
        by_cases call : callId = callId'
        · subst call
          rw [if_pos rfl,fresh]
          simp [named]
        · rw [if_neg (Ne.symm call)]
          have other : ¬record.key = .ok (rowId,callId') := by
            rw [named]
            simp [call]
          cases scan.seen.lookup rowId <;> simp [other]
      · rw [if_neg (Ne.symm row)]
        have other : ¬record.key = .ok (rowId',callId') := by
          rw [named]
          simp [row]
        simp [other]
    · intro rowId'
      rw [exists_append_singleton,← scanned.rows,Table.lookup_insert]
      have own : Entry.rowId ⟨record,(scan.seen.lookup rowId).isSome⟩ = .ok rowId := rowId_ok
      by_cases row : rowId' = rowId
      · simp [row,own]
      · simp [row,own,Ne.symm row]
    · refine scanned.grouped.append_singleton ?_
      have own : Entry.rowId ⟨record,(scan.seen.lookup rowId).isSome⟩ = .ok rowId := rowId_ok
      rw [own]
      split
      next marked =>
        obtain ⟨variants,known⟩ := Option.isSome_iff_exists.mp marked
        have placed := placed variants known
        simp only [Scan.misplaced,Bool.or_eq_false_iff,Bool.not_eq_false'] at placed
        obtain ⟨last,there,same⟩ := Option.any_eq_true _ _ |>.mp placed.2
        have inside : last ∈ scan.unique := List.mem_of_getLast? there
        obtain ⟨rowId',_,named'⟩ := scanned.named last inside
        have first := (key_ok.mp named').1
        have text := (isText_iff.mp same).symm.trans (id_ok first)
        cases text
        exact ⟨last,there,first⟩
      next unmarked =>
        intro entry inside same
        exact unmarked ((scanned.rows rowId).mpr ⟨entry,inside,same⟩)
    · rw [List.map_append,scanRecords,List.foldlM_append]
      have again := scanned.again
      unfold scanRecords at again
      rw [again,ok_bind]
      exact (List.foldlM_cons ..).trans (by rw [(Scanning.kept rowId callId named fresh placed).ok]; rfl)

theorem scanRecords_append (front rest : List (NativeRecord ν)) :
    scanRecords (front++rest) = scanRecords front >>= fun scan => rest.foldlM scanRecord scan :=
  List.foldlM_append

theorem scanned {records : List (NativeRecord ν)} {scan : Scan ν} (ok : scanRecords records = .ok scan) :
    Scanned records scan := by
  induction records using List.reverseRecOn generalizing scan with
  | nil =>
    cases ok
    exact scanned_nil
  | append_singleton records record ih =>
    rw [scanRecords_append,bind_ok] at ok
    obtain ⟨before,earlier,ok⟩ := ok
    rw [List.foldlM_cons,bind_ok] at ok
    obtain ⟨_,last,ends⟩ := ok
    cases ends
    exact (ih earlier).step (scanning last)

theorem unique_grows {records : List (NativeRecord ν)} {scan scan' : Scan ν}
    (ok : records.foldlM scanRecord scan = .ok scan') : scan.unique <+: scan'.unique := by
  induction records generalizing scan with
  | nil =>
    cases ok
    exact List.prefix_refl _
  | cons record records ih =>
    rw [List.foldlM_cons,bind_ok] at ok
    obtain ⟨next,first,rest⟩ := ok
    have here : scan.unique <+: next.unique := by
      cases scanning first with
      | repeated => exact List.prefix_refl _
      | kept => exact List.prefix_append _ _
    exact here.trans (ih rest)

/-! Groups of calls. -/

section Groups

def Entry.callId (entry : Entry ν) : Except Failure String := id (entry.row.get "callId")

structure Awaits (calls : Names ν) (waiting : List (Entry ν)) : Prop where
  distinct : (waiting.map Entry.callId).Nodup
  waits : ∀ callId name, calls.lookup callId = some name ↔
    ∃ call ∈ waiting, call.callId = .ok callId ∧ call.row.get "name" = name

theorem awaits_nil : Awaits ∅ ([] : List (Entry ν)) := ⟨.nil,by simp⟩

theorem Awaits.insert {calls : Names ν} {waiting : List (Entry ν)} {call : Entry ν} {callId : String}
    (awaits : Awaits calls waiting) (named : call.callId = .ok callId)
    (fresh : ∀ other ∈ waiting, other.callId ≠ call.callId) :
    Awaits (calls.insert callId (call.row.get "name")) (waiting++[call]) := by
  refine ⟨?_,?_⟩
  · rw [List.map_append,List.nodup_append]
    refine ⟨awaits.distinct,List.nodup_singleton _,?_⟩
    intro a member b last
    obtain ⟨other,inside,rfl⟩ := List.mem_map.mp member
    obtain rfl := List.mem_singleton.mp last
    exact fresh other inside
  · intro callId' name
    rw [exists_append_singleton,← awaits.waits,Table.lookup_insert]
    by_cases own : callId' = callId
    · subst own
      have absent : calls.lookup callId' ≠ some name := by
        intro there
        obtain ⟨other,inside,same,_⟩ := (awaits.waits _ _).mp there
        exact fresh other inside (same.trans named.symm)
      simp [named,absent]
    · have other : call.callId ≠ .ok callId' := by
        rw [named]
        simp [Ne.symm own]
      simp [own,other]

theorem Awaits.erase {calls : Names ν} {waiting : List (Entry ν)} {callId : String} {name : Option (Value ν)}
    (awaits : Awaits calls waiting) (there : calls.lookup callId = some name) :
    ∃ before call behind, waiting = before++call::behind ∧ call.callId = .ok callId ∧ call.row.get "name" = name ∧
      Awaits (calls.erase callId) (before++behind) := by
  obtain ⟨call,inside,named,same⟩ := (awaits.waits _ _).mp there
  obtain ⟨before,behind,rfl⟩ := List.append_of_mem inside
  have distinct := awaits.distinct
  rw [List.map_append,List.map_cons,List.nodup_middle,List.nodup_cons] at distinct
  refine ⟨before,call,behind,rfl,named,same,?_,?_⟩
  · rw [List.map_append]
    exact distinct.2
  · intro callId' name'
    rw [Table.lookup_erase]
    split
    next own =>
      subst own
      constructor
      · exact nofun
      · rintro ⟨other,inside,named',_⟩
        refine absurd ?_ distinct.1
        rw [named,← named',← List.map_append]
        exact List.mem_map_of_mem inside
    next apart =>
      rw [awaits.waits]
      have other : ¬call.callId = .ok callId' := by
        rw [named]
        simp [Ne.symm apart]
      simp [or_and_right,exists_or,other]

variable [DecidableEq ν] {numeral : ν → String}

/-- A call of a tool that delegates nothing, in the ordinary chain of records. -/
structure Ordinary (numeral : ν → String) (row : Row ν) : Prop where
  call : isText (row.get "type") "function_call" = true
  tool : ∃ name, stringOf numeral (row.get "name") = .ok name ∧ name ∉ delegationNames
  unmarked : isMarked row = false

/-- The calls of one response, whose usage is with the last of them. -/
structure Homogeneous (numeral : ν → String) (first : Entry ν) (siblings : List (Entry ν)) : Prop where
  response : ∃ message model, id ((object (first.row.get "providerData")).get "messageId") = .ok message ∧
    id ((object (first.row.get "providerData")).get "model") = .ok model
  ordinary : ∀ call ∈ first::siblings, Ordinary numeral call.row
  same : ∀ call ∈ siblings, differs false first.row call.row = false
  usage : ∀ call ∈ (first::siblings).dropLast, hasUsage call.row = false

structure Answers (call result : Entry ν) : Prop where
  typed : isText (result.row.get "type") "function_call_result" = true
  named : ∃ callId, call.callId = .ok callId ∧ result.callId = .ok callId
  name : strictlyEqual (result.row.get "name") (call.row.get "name") = true

theorem checkCall_ok {first row : Row ν} {own last : Bool} {calls calls' : Names ν}
    (ok : checkCall numeral first own last calls row = .ok calls') :
    Ordinary numeral row ∧ differs own first row = false ∧ (last = false → hasUsage row = false) ∧
      ∃ callId, id (row.get "callId") = .ok callId ∧ calls' = calls.insert callId (row.get "name") := by
  unfold checkCall at ok
  split at ok
  next => cases ok
  next typed =>
    rw [bind_ok] at ok
    obtain ⟨name,tool,ok⟩ := ok
    split at ok
    next => cases ok
    next proven =>
      simp only [bind_ok,pure_ok] at ok
      obtain ⟨callId,named,rfl⟩ := ok
      simp only [Bool.or_eq_true,not_or,Bool.not_eq_true,Bool.and_eq_false_iff,Bool.not_eq_false'] at proven
      obtain ⟨⟨⟨plain,same⟩,unmarked⟩,usage⟩ := proven
      refine ⟨⟨by simpa using typed,⟨name,tool,by simpa using plain⟩,unmarked⟩,same,?_,callId,named,rfl⟩
      intro more
      simpa [more] using usage

theorem checkCalls_ordinary {first : Row ν} {own : Bool} {calls calls' : Names ν} {group : List (Entry ν)}
    (ok : checkCalls numeral first own calls group = .ok calls') :
    (∀ call ∈ group, Ordinary numeral call.row) ∧ (∀ call ∈ group.drop own.toNat, differs false first call.row = false) ∧
      ∀ call ∈ group.dropLast, hasUsage call.row = false := by
  induction group generalizing own calls with
  | nil => simp
  | cons call group ih =>
    unfold checkCalls at ok
    rw [bind_ok] at ok
    obtain ⟨next,here,rest⟩ := ok
    obtain ⟨ordinary,same,usage,_⟩ := checkCall_ok here
    obtain ⟨ordinaries,sames,usages⟩ := ih rest
    refine ⟨List.forall_mem_cons.mpr ⟨ordinary,ordinaries⟩,?_,?_⟩
    · cases own with
      | true => exact sames
      | false => exact List.forall_mem_cons.mpr ⟨same,sames⟩
    · cases group with
      | nil => exact nofun
      | cons other group => exact List.forall_mem_cons.mpr ⟨usage rfl,usages⟩

theorem checkCalls_awaits {first : Row ν} {own : Bool} {calls calls' : Names ν} {waiting group : List (Entry ν)}
    (ok : checkCalls numeral first own calls group = .ok calls') (awaits : Awaits calls waiting)
    (distinct : ((waiting++group).map Entry.callId).Nodup) : Awaits calls' (waiting++group) := by
  induction group generalizing own calls waiting with
  | nil =>
    cases ok
    simpa using awaits
  | cons call group ih =>
    unfold checkCalls at ok
    rw [bind_ok] at ok
    obtain ⟨next,here,rest⟩ := ok
    obtain ⟨_,_,_,callId,named,rfl⟩ := checkCall_ok here
    have fresh : ∀ other ∈ waiting, other.callId ≠ call.callId := by
      intro other inside alike
      rw [List.map_append,List.map_cons,List.nodup_middle,List.nodup_cons] at distinct
      exact distinct.1 (List.mem_append_left _ (alike ▸ List.mem_map_of_mem inside))
    have distinct' : ((waiting++[call]++group).map Entry.callId).Nodup := by simpa using distinct
    simpa using ih rest (awaits.insert named fresh) distinct'

theorem checkResult_ok {calls calls' : Names ν} {waiting : List (Entry ν)} {result : Entry ν}
    (ok : checkResult calls result.row = .ok calls') (awaits : Awaits calls waiting) :
    ∃ before call behind, waiting = before++call::behind ∧ Answers call result ∧ Awaits calls' (before++behind) := by
  unfold checkResult at ok
  split at ok
  next => cases ok
  next typed =>
    rw [bind_ok] at ok
    obtain ⟨callId,named,ok⟩ := ok
    split at ok
    next => cases ok
    next name there =>
      split at ok
      next => cases ok
      next same =>
        cases ok
        obtain ⟨before,call,behind,rfl,named',rfl,awaits'⟩ := awaits.erase there
        exact ⟨before,call,behind,rfl,⟨by simpa using typed,⟨callId,named',named⟩,by simpa using same⟩,awaits'⟩

theorem checkResults_ok {calls : Names ν} {waiting following : List (Entry ν)} {n : Nat}
    (ok : checkResults calls n following = .ok ()) (awaits : Awaits calls waiting) (all : waiting.length = n) :
    ∃ results rest, following = results++rest ∧ ∃ order, order.Perm waiting ∧ List.Forall₂ Answers order results := by
  induction n generalizing calls waiting following with
  | zero => exact ⟨[],following,rfl,[],List.length_eq_zero_iff.mp all ▸ .nil,.nil⟩
  | succ n ih =>
    cases following with
    | nil => cases ok
    | cons result following =>
      unfold checkResults at ok
      rw [bind_ok] at ok
      obtain ⟨next,first,rest⟩ := ok
      obtain ⟨before,call,behind,rfl,answers,awaits'⟩ := checkResult_ok first awaits
      have fewer : (before++behind).length = n := by simp at all ⊢; omega
      obtain ⟨results,more,rfl,order,permuted,answered⟩ := ih rest awaits' fewer
      exact ⟨result::results,more,rfl,call::order,(permuted.cons call).trans List.perm_middle.symm,.cons answers answered⟩

theorem checkGroup_ok {first : Entry ν} {siblings following : List (Entry ν)}
    (ok : checkGroup numeral first siblings following = .ok ()) (nonempty : siblings ≠ [])
    (distinct : (∀ call ∈ first::siblings, isText (call.row.get "type") "function_call" = true) →
      ((first::siblings).map Entry.callId).Nodup) :
    Homogeneous numeral first siblings ∧ ∃ results rest, following = results++rest ∧
      ∃ order, order.Perm (first::siblings) ∧ List.Forall₂ Answers order results := by
  unfold checkGroup at ok
  rw [if_neg (by simpa using nonempty)] at ok
  simp only [bind_ok] at ok
  obtain ⟨message,messaged,model,modelled,calls,checked,answered⟩ := ok
  obtain ⟨ordinary,same,usage⟩ := checkCalls_ordinary checked
  have awaits := checkCalls_awaits checked awaits_nil (distinct fun call inside => (ordinary call inside).call)
  exact ⟨⟨⟨message,model,messaged,modelled⟩,ordinary,same,usage⟩,checkResults_ok answered awaits rfl⟩

theorem checkGroups_ok {unique front siblings rest : List (Entry ν)} {first : Entry ν}
    (ok : checkGroups numeral unique = .ok ()) (place : unique = front++first::(siblings++rest))
    (fresh : first.sibling = false) (marked : ∀ call ∈ siblings, call.sibling = true)
    (ends : ∀ entry ∈ rest.head?, entry.sibling = false) : checkGroup numeral first siblings rest = .ok () := by
  induction unique using checkGroups.induct generalizing front with
  | case1 => simp at place
  | case2 entry tail following =>
    rename_i ih
    unfold checkGroups at ok
    rw [bind_ok] at ok
    obtain ⟨_,here,later⟩ := ok
    cases front with
    | nil =>
      obtain ⟨rfl,rfl⟩ := List.cons.inj place
      have taken : rest.takeWhile (·.sibling) = [] := by
        cases rest with
        | nil => rfl
        | cons entry rest => simp [ends entry rfl]
      have dropped : rest.dropWhile (·.sibling) = rest := by
        cases rest with
        | nil => rfl
        | cons entry rest => simp [ends entry rfl]
      rw [List.takeWhile_append_of_pos marked,List.dropWhile_append_of_pos marked,taken,dropped,List.append_nil] at here
      exact here
    | cons _ front =>
      obtain ⟨rfl,rfl⟩ := List.cons.inj place
      have dropped : (front++first::(siblings++rest)).dropWhile (·.sibling) =
          front.dropWhile (·.sibling)++first::(siblings++rest) := by
        rw [List.dropWhile_append]
        split
        next none_ =>
          rw [List.isEmpty_iff.mp none_]
          simp [fresh]
        next => rfl
      exact ih later dropped

end Groups

/-! Whole histories. -/

section Whole
variable [DecidableEq ν] {numeral : ν → String} {records : List (NativeRecord ν)} {unique : List (Entry ν)}

theorem historyRecords_ok (ok : historyRecords numeral records = .ok unique) :
    ∃ scan, scanRecords records = .ok scan ∧ scan.unique = unique ∧ checkGroups numeral unique = .ok () := by
  simp only [historyRecords,bind_ok,pure_ok] at ok
  obtain ⟨scan,scanned,_,checked,rfl⟩ := ok
  exact ⟨scan,scanned,rfl,checked⟩

/-- The calls of a row id, all but the first of them siblings, with their results behind. -/
structure Complete (numeral : ν → String) (front : List (Entry ν)) (first : Entry ν)
    (siblings results rest : List (Entry ν)) : Prop where
  several : siblings ≠ [] ∧ ∀ call ∈ siblings, call.rowId = first.rowId ∧ call.sibling = true
  apart : ∀ entry ∈ front++results++rest, entry.rowId ≠ first.rowId
  homogeneous : Homogeneous numeral first siblings
  answered : ∃ order, order.Perm (first::siblings) ∧ List.Forall₂ Answers order results

theorem grouped_complete {scan : Scan ν} (scanned : Scanned records scan) (checked : checkGroups numeral scan.unique = .ok ())
    {front rest : List (Entry ν)} {first other : Entry ν} (place : scan.unique = front++first::rest)
    (new : ∀ entry ∈ front, entry.rowId ≠ first.rowId) (inside : other ∈ rest) (same : other.rowId = first.rowId) :
    ∃ siblings results more, rest = siblings++(results++more) ∧ Complete numeral front first siblings results more := by
  have grouped := scanned.grouped
  have fresh : first.sibling = false := by
    have own := grouped front first rest place
    split at own
    next =>
      obtain ⟨y,before,alike⟩ := own
      exact absurd alike (new y (List.mem_of_getLast? before))
    next unmarked => simpa using unmarked
  have marked : ∀ call ∈ rest.takeWhile (·.sibling), call.sibling = true := fun call => List.mem_takeWhile_imp
  have ends : ∀ entry ∈ (rest.dropWhile (·.sibling)).head?, entry.sibling = false := by
    intro entry there
    have stopped := List.head?_dropWhile_not (·.sibling) rest
    rw [there] at stopped
    simpa using stopped
  have split : scan.unique = front++first::(rest.takeWhile (·.sibling)++rest.dropWhile (·.sibling)) := by
    rw [List.takeWhile_append_dropWhile,place]
  rw [split] at grouped
  have alike := grouped.following marked
  obtain ⟨before,behind⟩ := grouped.apart fresh ends
  have nonempty : rest.takeWhile (·.sibling) ≠ [] := by
    intro none_
    refine behind other ?_ same
    have whole : rest.takeWhile (·.sibling)++rest.dropWhile (·.sibling) = rest := List.takeWhile_append_dropWhile
    rw [none_,List.nil_append] at whole
    rwa [whole]
  have checked' := checkGroups_ok checked split fresh marked ends
  have distinct : (∀ call ∈ first::rest.takeWhile (·.sibling), isText (call.row.get "type") "function_call" = true) →
      ((first::rest.takeWhile (·.sibling)).map Entry.callId).Nodup := by
    intro typed
    have keys : ((first::rest.takeWhile (·.sibling)).map fun call => call.toNativeRecord.key).Nodup := by
      refine scanned.distinct.sublist (List.Sublist.map _ ?_)
      rw [place]
      exact ((List.takeWhile_sublist _).cons_cons _).trans (List.sublist_append_right _ _)
    refine (keys.of_map _).map_on ?_
    intro call inside call' inside' same
    refine List.inj_on_of_nodup_map keys inside inside' ?_
    have row : ∀ call ∈ first::rest.takeWhile (·.sibling), call.toNativeRecord.key =
        first.rowId >>= fun rowId => call.callId >>= fun callId => pure (rowId,callId) := by
      intro call inside
      have own : call.rowId = first.rowId := by
        rcases List.mem_cons.mp inside with rfl | inside
        · rfl
        · exact alike call inside
      rw [← own]
      simp only [NativeRecord.key,callIdOf,typed call inside,if_true]
      rfl
    rw [row call inside,row call' inside',same]
  obtain ⟨homogeneous,results,more,following,answered⟩ := checkGroup_ok checked' nonempty distinct
  refine ⟨_,results,more,?_,⟨nonempty,fun call inside => ⟨alike call inside,marked call inside⟩⟩,?_,homogeneous,answered⟩
  · rw [← following,List.takeWhile_append_dropWhile]
  · intro entry inside
    rw [List.append_assoc,← following] at inside
    rcases List.mem_append.mp inside with inside | inside
    · exact before entry inside
    · exact behind entry inside

end Whole

/-- A history that is accepted is its records without those that repeat an earlier one. No two
have the same row and call ids, the calls of a row id stand together with their results
behind, and what a shorter file gave stays with its keys. -/
theorem historyRecords_stable [DecidableEq ν] (numeral : ν → String) (records : List (NativeRecord ν))
    (unique : List (Entry ν)) (accepted : historyRecords numeral records = .ok unique) :
    unique.map (·.toNativeRecord) = firsts NativeRecord.repeats records ∧
    ((∀ entry ∈ unique, ∃ rowId callId, entry.key = .ok (rowId,callId)) ∧ (unique.map (·.key)).Nodup) ∧
    (∀ front first rest, unique = front++first::rest → (∀ entry ∈ front, entry.rowId ≠ first.rowId) →
      (∃ other ∈ rest, other.rowId = first.rowId) → ∃ siblings results more, rest = siblings++(results++more) ∧
        Complete numeral front first siblings results more) ∧
    historyRecords numeral (unique.map (·.toNativeRecord)) = .ok unique ∧
    ∀ front, front <+: records → ∀ earlier, historyRecords numeral front = .ok earlier → earlier <+: unique ∧
      ∀ digest namespace_ slot,
        earlier.map (recordKey digest namespace_) <+: unique.map (recordKey digest namespace_) ∧
        earlier.map (sourceEventId digest namespace_ slot) <+: unique.map (sourceEventId digest namespace_ slot) := by
  obtain ⟨scan,scans,rfl,checked⟩ := historyRecords_ok accepted
  have whole := scanned scans
  refine ⟨whole.kept,⟨whole.named,whole.distinct⟩,?_,?_,?_⟩
  · rintro front first rest place new ⟨other,inside,same⟩
    exact grouped_complete whole checked place new inside same
  · unfold historyRecords
    rw [whole.again,ok_bind,checked]
    rfl
  · rintro front ⟨rest,rfl⟩ earlier accepted'
    obtain ⟨scan',scans',rfl,_⟩ := historyRecords_ok accepted'
    rw [scanRecords_append,scans',ok_bind] at scans
    have grows := unique_grows scans
    exact ⟨grows,fun _ _ _ => ⟨grows.map _,grows.map _⟩⟩

/-! Two calls of one response, one of them written twice. -/

def exampleCall (callId : String) : NativeRecord Int where
  row := [("id",.str "calls"),("type",.str "function_call"),("callId",.str callId),("name",.str "Read"),
    ("providerData",.obj [("messageId",.str "message"),("model",.str "model")])]
  json := "call "++callId

def exampleResult (callId : String) : NativeRecord Int where
  row := [("id",.str ("result "++callId)),("type",.str "function_call_result"),("callId",.str callId),
    ("name",.str "Read")]
  json := "result "++callId

def exampleHistory : List (NativeRecord Int) :=
  [exampleCall "a",exampleCall "b",exampleCall "a",exampleResult "b",exampleResult "a"]

theorem historyRecords_stable_calls : ∃ unique, historyRecords toString exampleHistory = .ok unique ∧
    unique.map (·.toNativeRecord) = firsts NativeRecord.repeats exampleHistory ∧
    historyRecords toString (unique.map (·.toNativeRecord)) = .ok unique := by
  have accepted : (historyRecords toString exampleHistory).isOk = true := by decide +kernel
  cases history : historyRecords toString exampleHistory with
  | error failure =>
    rw [history] at accepted
    cases accepted
  | ok unique =>
    have stable := historyRecords_stable toString exampleHistory unique history
    exact ⟨unique,rfl,stable.1,stable.2.2.2.1⟩

end ATape.CodeBuddy
