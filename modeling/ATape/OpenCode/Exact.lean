import ATape.OpenCode.Family
import ATape.OpenCode.Pages
import Mathlib.Algebra.Order.BigOperators.Group.List

/-! A traversal that comes to its end has read every row that was admitted, once and in order. -/
namespace ATape.OpenCode
open Foundation

/-! The rows of a thread. -/

def messagesOf (db : Database) (thread : String) : List Row :=
  ordered messageKey ((db.rows .message).filter fun row => cell row "session_id" = .text thread)

def partsOf (db : Database) (thread messageId : String) : List Row :=
  ordered partKey ((db.rows .part).filter fun row =>
    cell row "message_id" = .text messageId && cell row "session_id" = .text thread)

/-- A thread, its messages by their times and ids, and behind each message its parts by their ids. -/
def history (db : Database) (thread : String) : List Item :=
  (db.find .session thread).toList.map (fun row => ⟨thread,.session,row⟩)++
    (messagesOf db thread).flatMap fun message => ⟨thread,.message,message⟩::
      (partsOf db thread (idText (cell message "id"))).map fun part => ⟨thread,.part,part⟩

def partsVisited (db : Database) (thread : String) : List Row :=
  (messagesAfter db thread (-1) "").flatMap fun message => partsAfter db (idText (cell message "id")) ""

def Named (row : Row) : Prop := ∃ id, cell row "id" = .text id

section Threads
variable {db : Database} {thread : String}

theorem length_threadItems : (threadItems db thread).length =
    (db.find .session thread).toList.length+(messagesAfter db thread (-1) "").length+(partsVisited db thread).length := by
  have each : ∀ messages : List Row, (messages.flatMap (messageItems db thread)).length =
      messages.length+(messages.flatMap fun message => partsAfter db (idText (cell message "id")) "").length := by
    intro messages
    induction messages with
    | nil => rfl
    | cons message messages ih =>
      simp only [List.flatMap_cons,List.length_append,ih,messageItems,partItems,List.length_cons,List.length_map]
      omega
  rw [threadItems,messagesItems,List.length_append,List.length_map,each]
  simp only [partsVisited]
  omega

theorem mem_messagesAfter {message : Row} {time : Int} {messageId : String}
    (inside : message ∈ messagesAfter db thread time messageId) :
    message ∈ db.rows .message ∧ cell message "session_id" = .text thread := by
  obtain ⟨member,_⟩ := (mem_above messageKey).mp inside
  simpa using member

theorem mem_partsAfter {part : Row} {messageId partId : String} : part ∈ partsAfter db messageId partId ↔
    part ∈ db.rows .part ∧ cell part "message_id" = .text messageId ∧ (Cell.text partId).key < partKey part := by
  rw [partsAfter,mem_above,List.mem_filter,decide_eq_true_iff,and_assoc]

theorem queried_distinct {table : Table} {κ : Type} [LinearOrder κ] {key : Row → κ} {cursor : κ} {chosen : Row → Bool}
    (named : ∀ row ∈ above key cursor ((db.rows table).filter chosen), Named row) :
    (above key cursor ((db.rows table).filter chosen)).Pairwise fun a b => cell a "id" ≠ cell b "id" := by
  have keyed : (above key cursor ((db.rows table).filter chosen)).Pairwise fun a b =>
      cell a "id" = .null ∨ cell a "id" ≠ cell b "id" := by
    have sublist : (((db.rows table).filter chosen).filter fun a => cursor < key a).Sublist (db.rows table) :=
      List.filter_sublist.trans List.filter_sublist
    exact ((ordered_perm key _).pairwise_iff fun {_ _} apart => apart_symm.symm _ _ apart).mpr
      ((db.keyed table).sublist sublist)
  refine keyed.imp_of_mem fun {a b} inside _ apart => ?_
  obtain ⟨id,same⟩ := named a inside
  refine apart.resolve_left ?_
  rw [same]
  exact nofun

theorem partsVisited_nodup (messages : ∀ message ∈ messagesAfter db thread (-1) "", Named message)
    (parts : ∀ part ∈ partsVisited db thread, Named part) : (partsVisited db thread).Nodup := by
  refine List.nodup_flatMap.mpr ⟨?_,?_⟩
  · intro message inside
    have named : ∀ part ∈ partsAfter db (idText (cell message "id")) "", Named part :=
      fun part member => parts part (List.mem_flatMap.mpr ⟨message,inside,member⟩)
    refine (queried_distinct named).imp fun {a b} apart same => apart ?_
    rw [same]
  · refine (queried_distinct messages).imp_of_mem fun {a b} inside inside' apart part member member' => apart ?_
    obtain ⟨id,named⟩ := messages a inside
    obtain ⟨id',named'⟩ := messages b inside'
    have first := (mem_partsAfter.mp member).2.1
    have second := (mem_partsAfter.mp member').2.1
    rw [named,idText] at first
    rw [named',idText] at second
    rw [named,named',← first,← second]

structure Within (db : Database) (thread : String) : Prop where
  messages : ∀ message ∈ messagesAfter db thread (-1) "", Named message
  parts : ∀ part ∈ partsVisited db thread, Named part ∧ cell part "session_id" = .text thread

theorem Within.visited (within : Within db thread) : (partsVisited db thread).Subperm
    ((db.rows .part).filter fun row => cell row "session_id" = .text thread) := by
  refine List.subperm_of_subset (partsVisited_nodup within.messages fun part inside => (within.parts part inside).1) ?_
  intro part inside
  obtain ⟨message,_,member⟩ := List.mem_flatMap.mp inside
  exact List.mem_filter.mpr ⟨(mem_partsAfter.mp member).1,by simpa using (within.parts part inside).2⟩

theorem Within.length_le (within : Within db thread) : (threadItems db thread).length ≤ weight db thread := by
  have single : (db.find .session thread).toList.length ≤ 1 := by
    cases db.find .session thread <;> simp
  have messages : (messagesAfter db thread (-1) "").length ≤ rowCount db .message thread := by
    rw [rowCount,List.countP_eq_length_filter]
    exact length_above messageKey _ _
  have parts : (partsVisited db thread).length ≤ rowCount db .part thread := by
    rw [rowCount,List.countP_eq_length_filter]
    exact within.visited.length_le
  rw [length_threadItems,weight]
  omega

theorem Within.exact (within : Within db thread) (all : (threadItems db thread).length = weight db thread) :
    threadItems db thread = history db thread ∧ ∀ message ∈ messagesOf db thread, ∀ part ∈ db.rows .part,
      cell part "message_id" = .text (idText (cell message "id")) → (Cell.text "").key < partKey part →
        cell part "session_id" = .text thread := by
  have single : (db.find .session thread).toList.length ≤ 1 := by
    cases db.find .session thread <;> simp
  have messages : (messagesAfter db thread (-1) "").length ≤ rowCount db .message thread := by
    rw [rowCount,List.countP_eq_length_filter]
    exact length_above messageKey _ _
  have parts : (partsVisited db thread).length ≤ rowCount db .part thread := by
    rw [rowCount,List.countP_eq_length_filter]
    exact within.visited.length_le
  rw [length_threadItems,weight] at all
  have ordered_ : messagesAfter db thread (-1) "" = messagesOf db thread := by
    refine above_all messageKey (above_complete messageKey ?_)
    rw [← List.countP_eq_length_filter]
    change (messagesAfter db thread (-1) "").length = rowCount db .message thread
    omega
  have visited : ∀ part ∈ db.rows .part, cell part "session_id" = .text thread → part ∈ partsVisited db thread := by
    intro part inside own
    have size : ((db.rows .part).filter fun row => cell row "session_id" = .text thread).length ≤
        (partsVisited db thread).length := by
      rw [← List.countP_eq_length_filter]
      change rowCount db .part thread ≤ _
      omega
    exact (within.visited.perm_of_length_le size).mem_iff.mpr (List.mem_filter.mpr ⟨inside,by simpa using own⟩)
  have theirs : ∀ message ∈ messagesOf db thread, ∀ part ∈ db.rows .part,
      cell part "message_id" = .text (idText (cell message "id")) →
        ((Cell.text "").key < partKey part ↔ cell part "session_id" = .text thread) := by
    intro message place part inside owner
    constructor
    · intro above_
      exact (within.parts part (List.mem_flatMap.mpr ⟨message,by rw [ordered_]; exact place,
        mem_partsAfter.mpr ⟨inside,owner,above_⟩⟩)).2
    · intro own
      obtain ⟨_,_,member⟩ := List.mem_flatMap.mp (visited part inside own)
      exact (mem_partsAfter.mp member).2.2
  refine ⟨?_,fun message place part inside owner => (theirs message place part inside owner).mp⟩
  rw [threadItems,history,messagesItems,ordered_]
  congr 1
  refine List.flatMap_congr fun message place => ?_
  rw [messageItems,partItems,partsOf,partsAfter,above,List.filter_filter]
  congr 3
  refine List.filter_congr fun part inside => ?_
  rw [Bool.and_comm]
  by_cases owner : cell part "message_id" = .text (idText (cell message "id"))
  · simp only [owner,decide_true,Bool.true_and,theirs message place part inside owner]
  · simp only [owner,decide_false,Bool.false_and]

end Threads

/-! What was read of a thread. -/

theorem record_thread {engine : Engine} {db : Database} {raw : Bool} {rowBytes : ℕ} {table : Table} {id : String}
    {r : OpenCodeSourceRecord} {row : Row} (ok : record engine db raw rowBytes table id = .ok r)
    (found : db.find table id = some row) (child : table ≠ .session) : cell row "session_id" = .text r.sessionId := by
  simp only [record,bind_ok,present_ok,pure_ok] at ok
  obtain ⟨row',found',_,_,_,_,_,_,_,_,_,_,_,_,sessionId,placed,_,_,_,_,_,_,rfl⟩ := ok
  rw [found] at found'
  cases found'
  unfold sessionIdOf at placed
  split at placed
  next => exact absurd rfl child
  next => exact text_valid placed

section Read
variable {view : View} {thread : String}

theorem View.Reads.named {item : Item} {r : OpenCodeSourceRecord} (reads : view.Reads item r) : Named item.row := ⟨_,reads.id⟩

theorem View.Reads.placed {item : Item} {r : OpenCodeSourceRecord} (reads : view.Reads item r) (child : item.table ≠ .session) :
    cell item.row "session_id" = .text item.thread := by
  rw [← reads.thread]
  exact record_thread reads.row reads.found child

theorem within_of_reads (read : ∀ item ∈ threadItems view.db thread, ∃ r, view.Reads item r) : Within view.db thread := by
  have messages : ∀ message ∈ messagesAfter view.db thread (-1) "", ∀ item ∈ messageItems view.db thread message,
      ∃ r, view.Reads item r := by
    intro message inside item member
    exact read item (List.mem_append_right _ (List.mem_flatMap.mpr ⟨message,inside,member⟩))
  refine ⟨?_,?_⟩
  · intro message inside
    obtain ⟨r,reads⟩ := messages message inside _ List.mem_cons_self
    exact reads.named
  · intro part inside
    obtain ⟨message,place,member⟩ := List.mem_flatMap.mp inside
    obtain ⟨r,reads⟩ := messages message place _ (List.mem_cons_of_mem _ (List.mem_map_of_mem member))
    exact ⟨reads.named,reads.placed nofun⟩

theorem View.Reads.unique {item : Item} {r r' : OpenCodeSourceRecord} (reads : view.Reads item r)
    (reads' : view.Reads item r') : r = r' := by
  have same : r.id = r'.id := Cell.text.inj (reads.id.symm.trans reads'.id)
  have row := reads.row
  rw [same,reads'.row] at row
  exact (Except.ok.inj row).symm

theorem reads_unique {items : List Item} {records records' : List OpenCodeSourceRecord}
    (reads : List.Forall₂ view.Reads items records) (reads' : List.Forall₂ view.Reads items records') : records = records' := by
  induction reads generalizing records' with
  | nil =>
    cases reads'
    rfl
  | cons first _ ih =>
    cases reads' with
    | cons first' rest' => rw [first.unique first',ih rest']

end Read

/-! Whole traversals. -/

theorem sum_each {α : Type} {f g : α → ℕ} {as : List α} (fewer : ∀ a ∈ as, f a ≤ g a)
    (all : (as.map g).sum ≤ (as.map f).sum) : ∀ a ∈ as, f a = g a := by
  induction as with
  | nil => exact nofun
  | cons a as ih =>
    obtain ⟨first,rest⟩ := List.forall_mem_cons.mp fewer
    have below : (as.map f).sum ≤ (as.map g).sum := List.sum_le_sum rest
    rw [List.map_cons,List.map_cons,List.sum_cons,List.sum_cons] at all
    exact List.forall_mem_cons.mpr ⟨by omega,ih rest (by omega)⟩

structure Opened (view : View) (sessionId : String) : Prop where
  rows : 0 < view.limits.pageRows
  parentless : view.root.parentId = none
  reaches : Reaches view.db view.root.id sessionId
  family : ∃ visited, Exploring view.engine view.db view.limits view.root.id visited view.family.threads [] view.family.admitted

theorem checkLimit_ok {value maximum : ℕ} {u : Unit} (ok : checkLimit value maximum = .ok u) : 0 < value := by
  simp only [checkLimit,bind_ok,failWhen_ok] at ok
  obtain ⟨n,counted,positive⟩ := ok
  obtain ⟨same,_⟩ := natural_ok counted
  omega

theorem open_ok {engine : Engine} {db : Database} {raw : Bool} {limits : OpenCodeSourceLimits} {interrupted : Interrupted}
    {sessionId : String} {view : View} (ok : openOpenCodeSource engine db raw limits interrupted sessionId = .ok view) :
    Opened view sessionId ∧ view.db = db ∧ view.limits = limits ∧ view.interrupted = interrupted := by
  simp only [openOpenCodeSource,bind_ok,pure_ok] at ok
  obtain ⟨_,limited,start,found,⟨root,checks⟩,climbed,family,explored,rfl⟩ := ok
  simp only [checkLimits,bind_ok] at limited
  obtain ⟨_,_,_,_,_,rows,_,_,_,threads,_⟩ := limited
  have room := checkLimit_ok threads
  obtain ⟨same,_⟩ := session_ok found
  have own : session engine db start.id = .ok start := by rwa [same]
  obtain ⟨parentless,found',reaches⟩ := climb_ok own (by simp; omega) (show [start.id].length ≤ limits.threads from room) climbed
  have exploring : Exploring engine db limits root.id [root.id] [] [root] 0 := by
    refine ⟨List.nodup_singleton _,?_,room,?_,?_,⟨root,by simp,rfl⟩,nofun,rfl,Nat.zero_le _,nofun⟩
    · simp
    · simpa using found'
    · simpa using Relation.ReflTransGen.refl
  exact ⟨⟨checkLimit_ok rows,parentless,same ▸ reaches,explore_ok (Nat.zero_add _) exploring explored⟩,rfl,rfl,rfl⟩

section Whole
variable {view : View} {sessionId : String}

theorem Opened.members (opened : Opened view sessionId) (id : String) :
    (∃ s ∈ view.family.threads, s.id = id) ↔ Reaches view.db view.root.id id := by
  obtain ⟨_,exploring⟩ := opened.family
  have reached := exploring.reached
  have top := exploring.top
  have closed := exploring.closed
  rw [List.append_nil] at reached top closed
  constructor
  · rintro ⟨s,inside,rfl⟩
    exact reached s inside
  · intro reaches
    induction reaches with
    | refl => exact top
    | tail _ link ih =>
      obtain ⟨s,inside,rfl⟩ := ih
      exact closed s inside _ link

theorem start_items : leftItems view.db view.family.threads .start = view.family.threads.flatMap fun s => threadItems view.db s.id := by
  cases view.family.threads <;> rfl

theorem reading_start (rewound : Bool) (checks : ℕ) : Reading view
    (view.family.threads.flatMap fun s => threadItems view.db s.id).length
    (view.family.threads.flatMap fun s => threadItems view.db s.id)
    ⟨view.family.threads,.start,0,none,false,false,rewound,checks⟩ := by
  refine ⟨⟨start_items.symm,nofun,?_,Nat.zero_le _⟩,rfl,rfl⟩
  rw [start_items,Nat.zero_add]

theorem Opened.exact (opened : Opened view sessionId)
    (read : ∀ item ∈ view.family.threads.flatMap fun s => threadItems view.db s.id, ∃ r, view.Reads item r)
    (total : (view.family.threads.flatMap fun s => threadItems view.db s.id).length = view.family.admitted) :
    ∀ s ∈ view.family.threads, threadItems view.db s.id = history view.db s.id ∧
      ∀ message ∈ messagesOf view.db s.id, ∀ part ∈ view.db.rows .part,
        cell part "message_id" = .text (idText (cell message "id")) → (Cell.text "").key < partKey part →
          cell part "session_id" = .text s.id := by
  obtain ⟨_,exploring⟩ := opened.family
  have within : ∀ s ∈ view.family.threads, Within view.db s.id :=
    fun s inside => within_of_reads fun item member => read item (List.mem_flatMap.mpr ⟨s,inside,member⟩)
  have each := sum_each (fun s inside => (within s inside).length_le) (by
    rw [← exploring.counted,← total,List.length_flatMap])
  exact fun s inside => (within s inside).exact (each s inside)

end Whole
end ATape.OpenCode
