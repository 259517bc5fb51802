import ATape.OpenCode.Exact

/-! A traversal of a sound history does not fail while nothing interrupts it. -/
namespace ATape.OpenCode
open Foundation

def Portable (value : Cell) : Prop := fetch [value] = .ok () ∧ ∀ bytes, value ≠ .blob bytes

structure Sound (view : View) : Prop where
  ids : ∀ table, ∀ row ∈ view.db.rows table, ∃ id, identifier 500 (cell row "id") = .ok id
  times : ∀ table, ∀ row ∈ view.db.rows table, ∀ name ∈ ["time_created","time_updated"],
    ∃ time, count maxSafeInteger (cell row name) = .ok time
  parts : ∀ part ∈ view.db.rows .part, ∀ message ∈ view.db.rows .message,
    cell message "id" = cell part "message_id" → cell part "session_id" = cell message "session_id"
  data : ∀ table, table ≠ .session → ∀ row ∈ view.db.rows table, ∃ members, membersOf (cell row "data") = some members
  columns : view.raw = true → ∀ table, ∀ row ∈ view.db.rows table, ∀ column ∈ row, Portable column.2
  bytes : ∀ table, ∀ row ∈ view.db.rows table,
    columnBytes view.engine row (if view.raw then row.map Prod.fst else required table) ≤ view.limits.rowBytes
  encoded : ∀ table id r, view.row table id = .ok r → encodedBytes r.json+2 ≤ view.limits.pageBytes

/-! Rows. -/

theorem fetch_ok {cells : List Cell} {u : Unit} : fetch cells = .ok u ↔ ∀ value ∈ cells, fetch [value] = .ok () := by
  simp only [fetch,failWhen_ok,List.any_cons,List.any_nil,Bool.or_false,List.any_eq_true,not_exists,not_and]

theorem fetch_text (text : String) : fetch [.text text] = .ok () := rfl

theorem fetch_count {value : Cell} {n : ℕ} (ok : count maxSafeInteger value = .ok n) : fetch [value] = .ok () := by
  cases value with
  | int value =>
    obtain ⟨same,few⟩ := natural_ok ok
    simp [fetch]
    omega
  | _ => rfl

theorem rawOf_total (engine : Engine) {raw : Bool} {row : Row} (portable : raw = true → ∀ column ∈ row, Portable column.2) :
    ∃ values, rawOf engine raw row = .ok values := by
  cases raw with
  | false => exact ⟨none,rfl⟩
  | true =>
    have each : ∀ column ∈ row, ∃ value, rawValue engine column = .ok value := by
      intro column inside
      obtain ⟨_,noBlob⟩ := portable rfl column inside
      obtain ⟨name,value⟩ := column
      cases value with
      | blob bytes => exact absurd rfl (noBlob bytes)
      | _ => exact ⟨_,rfl⟩
    have values : ∀ {columns : Row}, (∀ column ∈ columns, ∃ value, rawValue engine column = .ok value) →
        ∃ values, columns.mapM (rawValue engine) = .ok values := by
      intro columns each
      induction columns with
      | nil => exact ⟨[],rfl⟩
      | cons column columns ih =>
        obtain ⟨⟨value,first⟩,each⟩ := List.forall_mem_cons.mp each
        obtain ⟨values,rest⟩ := ih each
        exact ⟨value::values,by rw [List.mapM_cons,first,ok_bind,rest]; rfl⟩
    obtain ⟨values,ok⟩ := values each
    exact ⟨some values,by rw [rawOf,if_pos rfl,ok]; rfl⟩

section Totality
variable {view : View} {total : ℕ} {items : List Item} {state : State}

theorem Sound.session_row (sound : Sound view) {s : OpenCodeSession} (found : session view.engine view.db s.id = .ok s) :
    ∃ r, view.row .session s.id = .ok r := by
  have whole := found
  simp only [session,bind_ok,present_ok,failWhen_ok] at found
  obtain ⟨key,keyed,row,there,_,_,_,fetched,_⟩ := found
  have same : s.id = key := Cell.text.inj (text_valid keyed)
  subst same
  have inside := (find_ok there).1
  obtain ⟨id,named⟩ := sound.ids .session row inside
  obtain ⟨created,createdOk⟩ := sound.times .session row inside "time_created" (by simp)
  obtain ⟨updated,updatedOk⟩ := sound.times .session row inside "time_updated" (by simp)
  obtain ⟨values,rawOk⟩ := rawOf_total view.engine fun raw => sound.columns raw .session row inside
  have size : ¬columnBytes view.engine row (if view.raw then row.map Prod.fst else required .session) >
      view.limits.rowBytes := Nat.not_lt.mpr (sound.bytes .session row inside)
  have fetches : fetch (if view.raw then row.map Prod.snd else (fields .session).map (cell row)) = .ok () := by
    split
    next raw => exact fetch_ok.mpr (List.forall_mem_map.mpr fun column member => (sound.columns raw .session row inside column member).1)
    next => exact fetched
  refine ⟨⟨.session,id,s.id,none,created,updated,s.members,values⟩,?_⟩
  rw [View.row,record,there,present_some,ok_bind,failWhen_neg _ size,ok_bind,dataShape]
  simp only [pure_bind,fetches,ok_bind,dataOf,whole,rawOk,named,sessionIdOf,messageIdOf,createdOk,updatedOk]
  rfl

theorem Sound.child_row (sound : Sound view) {table : Table} {thread id : String} {row : Row} (child : table ≠ .session)
    (inside : row ∈ view.db.rows table) (own : cell row "id" = .text id) (placed : cell row "session_id" = .text thread)
    (valid : identifier 500 (.text thread) = .ok thread)
    (message : table = .part → ∃ messageId, identifier 500 (cell row "message_id") = .ok messageId) :
    ∃ r, view.row table id = .ok r ∧ r.sessionId = thread := by
  obtain ⟨id',named⟩ := sound.ids table row inside
  obtain ⟨created,createdOk⟩ := sound.times table row inside "time_created" (by simp)
  obtain ⟨updated,updatedOk⟩ := sound.times table row inside "time_updated" (by simp)
  obtain ⟨values,rawOk⟩ := rawOf_total view.engine fun raw => sound.columns raw table row inside
  obtain ⟨members,dataOk⟩ := sound.data table child row inside
  have size : ¬columnBytes view.engine row (if view.raw then row.map Prod.fst else required table) >
      view.limits.rowBytes := Nat.not_lt.mpr (sound.bytes table row inside)
  have shape : dataShape table row = .ok members := by
    cases table with
    | session => exact absurd rfl child
    | _ => simp [dataShape,dataOk]
  have project : dataOf view.engine view.db table id members = .ok (view.engine.project table members) := by
    cases table with
    | session => exact absurd rfl child
    | _ => rfl
  have sessionId : sessionIdOf table id row = .ok thread := by
    cases table with
    | session => exact absurd rfl child
    | _ => simp [sessionIdOf,placed,valid]
  obtain ⟨messageId,messageOk⟩ : ∃ messageId, messageIdOf table row = .ok messageId := by
    cases table with
    | session => exact absurd rfl child
    | message => exact ⟨none,rfl⟩
    | part =>
      obtain ⟨messageId,ok⟩ := message rfl
      exact ⟨some messageId,by rw [messageIdOf,ok]; rfl⟩
  have fetches : fetch (if view.raw then row.map Prod.snd else (fields table).map (cell row)) = .ok () := by
    split
    next raw => exact fetch_ok.mpr (List.forall_mem_map.mpr fun column member => (sound.columns raw table row inside column member).1)
    next =>
      have first : ∀ value ∈ [cell row "id",cell row "session_id",cell row "time_created",cell row "time_updated"],
          fetch [value] = .ok () := by
        simp only [List.forall_mem_cons,own,placed,fetch_text,fetch_count createdOk,fetch_count updatedOk,true_and]
        simp
      cases table with
      | session => exact absurd rfl child
      | message => exact fetch_ok.mpr first
      | part =>
        obtain ⟨_,ok⟩ := message rfl
        refine fetch_ok.mpr (List.forall_mem_append.mpr ⟨first,List.forall_mem_singleton.mpr ?_⟩)
        rw [text_valid ok]
        rfl
  refine ⟨⟨table,id',thread,messageId,created,updated,view.engine.project table members,values⟩,?_,rfl⟩
  rw [View.row,record,find_row inside own,present_some,ok_bind,failWhen_neg _ size,ok_bind,shape,ok_bind,fetches]
  simp only [ok_bind,project,rawOk,named,sessionId,messageOk,createdOk,updatedOk]
  rfl

theorem session_valid {engine : Engine} {db : Database} {id : String} {s : OpenCodeSession}
    (found : session engine db id = .ok s) : identifier 500 (.text id) = .ok id := by
  simp only [session,bind_ok] at found
  obtain ⟨key,keyed,_⟩ := found
  rw [keyed,Cell.text.inj (text_valid keyed)]

/-! Steps. -/

/-- Where a traversal of a thread may stand. -/
def Located (db : Database) (thread : String) (place : Place) : Prop :=
  place.phase = .part → ∃ message ∈ db.rows .message, cell message "id" = .text place.messageId ∧
    cell message "session_id" = .text thread

theorem Sound.nextPart (sound : Sound view) {current : OpenCodeSession} {place : Place}
    (found : session view.engine view.db current.id = .ok current) (located : Located view.db current.id place) :
    ∃ step, view.nextPart current place = .ok step ∧ ∀ r place', step = some (r,place') →
      Located view.db current.id place' ∧ encodedBytes r.json+2 ≤ view.limits.pageBytes := by
  unfold View.nextPart
  split
  next => exact ⟨none,rfl,fun _ _ step => by cases step⟩
  next inPart =>
    have inPart := not_not.mp inPart
    split
    next => exact ⟨none,rfl,fun _ _ step => by cases step⟩
    next part first =>
      obtain ⟨message,there,own,placed⟩ := located inPart
      obtain ⟨rest,parts⟩ := List.head?_eq_some_iff.mp first
      obtain ⟨inside,owner,_⟩ := mem_partsAfter.mp (parts ▸ List.mem_cons_self : part ∈ partsAfter _ _ _)
      obtain ⟨partId,named⟩ := sound.ids .part part inside
      obtain ⟨messageId,messageNamed⟩ := sound.ids .message message there
      have alike := sound.parts part inside message there (own.trans owner.symm)
      obtain ⟨r,read,same⟩ := sound.child_row (by decide : Table.part ≠ .session) inside (text_valid named) (alike.trans placed) (session_valid found)
        fun _ => ⟨messageId,by rw [owner,← own,messageNamed]⟩
      refine ⟨some (r,{place with partId}),?_,?_⟩
      · rw [named,ok_bind,read,ok_bind,failWhen_neg _ (not_not.mpr same)]
        rfl
      · rintro _ _ ⟨⟩
        exact ⟨located,sound.encoded _ _ _ read⟩

theorem Sound.nextMessage (sound : Sound view) (place : Place) {current : OpenCodeSession}
    (found : session view.engine view.db current.id = .ok current) :
    ∃ step, view.nextMessage current place = .ok step ∧ ∀ r place', step = some (r,place') →
      Located view.db current.id place' ∧ encodedBytes r.json+2 ≤ view.limits.pageBytes := by
  unfold View.nextMessage
  split
  next => exact ⟨none,rfl,fun _ _ step => by cases step⟩
  next message first =>
    obtain ⟨rest,messages⟩ := List.head?_eq_some_iff.mp first
    obtain ⟨inside,placed⟩ := mem_messagesAfter (messages ▸ List.mem_cons_self : message ∈ messagesAfter _ _ _ _)
    obtain ⟨messageId,named⟩ := sound.ids .message message inside
    obtain ⟨messageTime,timed⟩ := sound.times .message message inside "time_created" (by simp)
    obtain ⟨r,read,same⟩ := sound.child_row (by decide : Table.message ≠ .session) inside (text_valid named) placed
      (session_valid found) (by simp)
    refine ⟨some (r,⟨.part,messageId,messageTime,""⟩),?_,?_⟩
    · rw [fetch_count timed,ok_bind,named,ok_bind,timed,ok_bind,read,ok_bind,failWhen_neg _ (not_not.mpr same)]
      rfl
    · rintro _ _ ⟨⟩
      exact ⟨fun _ => ⟨message,inside,text_valid named,placed⟩,sound.encoded _ _ _ read⟩

/-- What a traversal rests on when it goes on. -/
structure Sure (view : View) (remaining : List OpenCodeSession) (place : Place) : Prop where
  threads : ∀ s ∈ remaining, session view.engine view.db s.id = .ok s
  located : ∀ s ∈ remaining.head?, Located view.db s.id place

theorem Sound.next (sound : Sound view) (free : ∀ n, view.interrupted n = none) (checks : ℕ)
    {remaining : List OpenCodeSession} {place : Place} (sure : Sure view remaining place) :
    ∃ step checks', view.next checks remaining place = .ok (step,checks') ∧
      ∀ r remaining' place', step = some (r,remaining',place') → Sure view remaining' place' ∧
        encodedBytes r.json+2 ≤ view.limits.pageBytes := by
  induction remaining generalizing checks place with
  | nil => exact ⟨none,checks,rfl,fun _ _ _ step => by cases step⟩
  | cons current rest ih =>
    obtain ⟨threads,located⟩ := sure
    obtain ⟨found,later⟩ := List.forall_mem_cons.mp threads
    have located : Located view.db current.id place := located current rfl
    have checked : check view.interrupted checks = .ok (checks+1) := by rw [check,free]
    unfold View.next
    rw [checked,ok_bind]
    split
    next =>
      obtain ⟨r,read⟩ := sound.session_row found
      refine ⟨some (r,current::rest,{place with phase := .message}),checks+1,by rw [read]; rfl,?_⟩
      rintro _ _ _ ⟨⟩
      exact ⟨⟨threads,fun s head phase => by cases phase⟩,sound.encoded _ _ _ read⟩
    next =>
      obtain ⟨part,partOk,partSure⟩ := sound.nextPart found located
      rw [partOk,ok_bind]
      cases part with
      | some step =>
        obtain ⟨r,place'⟩ := step
        obtain ⟨located',fits⟩ := partSure r place' rfl
        refine ⟨some (r,current::rest,place'),checks+1,rfl,?_⟩
        rintro _ _ _ ⟨⟩
        exact ⟨⟨threads,by rintro _ ⟨⟩; exact located'⟩,fits⟩
      | none =>
        obtain ⟨message,messageOk,messageSure⟩ := sound.nextMessage place found
        simp only [messageOk,ok_bind]
        cases message with
        | some step =>
          obtain ⟨r,place'⟩ := step
          obtain ⟨located',fits⟩ := messageSure r place' rfl
          refine ⟨some (r,current::rest,place'),checks+1,rfl,?_⟩
          rintro _ _ _ ⟨⟩
          exact ⟨⟨threads,by rintro _ ⟨⟩; exact located'⟩,fits⟩
        | none => exact ih _ ⟨later,fun _ _ phase => by cases phase⟩

/-! Pages. -/

/-- Every row that is left was admitted. -/
structure Ready (view : View) (items : List Item) (state : State) : Prop where
  stands : Stands view view.family.admitted items state
  sure : Sure view state.remaining state.place
  few : view.family.admitted ≤ view.limits.records

theorem Sound.load (sound : Sound view) (free : ∀ n, view.interrupted n = none) (ready : Ready view items state) :
    ∃ found state', view.load state = .ok (found,state') ∧ Sure view state'.remaining state'.place := by
  obtain ⟨stands,sure,few⟩ := ready
  unfold View.load
  split
  next pending _ => exact ⟨some pending,state,rfl,sure⟩
  next =>
    obtain ⟨step,checks,ok,onward⟩ := sound.next free state.checks sure
    have advances := next_ok ok
    rw [ok,ok_bind]
    cases step with
    | none =>
      have none_ : leftItems view.db state.remaining state.place = [] := advances
      have all := stands.total
      rw [none_,List.length_nil,Nat.add_zero] at all
      refine ⟨none,{state with remaining := [],done := true,checks},?_,⟨by simp,by simp⟩⟩
      simp only [failWhen_neg _ (not_not.mpr all)]
      rfl
    | some step =>
      obtain ⟨r,remaining,place⟩ := step
      obtain ⟨sure',fits⟩ := onward r remaining place rfl
      obtain ⟨item,_,same⟩ := advances
      have all := stands.total
      rw [same,List.length_cons] at all
      have room : ¬state.consumed+1 > view.limits.records := by omega
      refine ⟨some ⟨r,encodedBytes r.json⟩,{state with
        remaining,place,consumed := state.consumed+1,pending := some ⟨r,encodedBytes r.json⟩,checks},?_,sure'⟩
      simp only [failWhen_neg _ room,failWhen_neg _ (Nat.not_lt.mpr fits),ok_bind]
      rfl

theorem Sound.fill (sound : Sound view) (free : ∀ n, view.interrupted n = none) (room bytes : ℕ)
    (records : List OpenCodeSourceRecord) (ready : Ready view items state) :
    ∃ records' state', view.fill room records bytes state = .ok (records',state') ∧
      Sure view state'.remaining state'.place := by
  induction room generalizing records bytes state items with
  | zero => exact ⟨records,state,rfl,ready.sure⟩
  | succ room ih =>
    obtain ⟨found,loaded,ok,sure⟩ := sound.load free ready
    have loads := load_ok ready.stands ok
    unfold View.fill
    rw [ok,ok_bind]
    cases loads with
    | ends => exact ⟨records,loaded,rfl,sure⟩
    | waits pending there stands =>
      simp only
      split
      next => exact ⟨records,loaded,rfl,sure⟩
      next => exact ih _ _ ⟨⟨rfl,by simp,stands.total,stands.bounded⟩,sure,ready.few⟩

theorem Sound.read (sound : Sound view) (free : ∀ n, view.interrupted n = none) (ready : Ready view items state)
    (open_ : state.done = false) (intact : state.failed = false) :
    ∃ page state', view.read state = (.ok page,state') ∧ Sure view state'.remaining state'.place := by
  have checked : ∀ checks, check view.interrupted checks = .ok (checks+1) := fun checks => by rw [check,free]
  have ready' : Ready view items {state with checks := state.checks+1} :=
    ⟨⟨ready.stands.left,ready.stands.sized,ready.stands.total,ready.stands.bounded⟩,ready.sure,ready.few⟩
  obtain ⟨records,filled,ok,sure⟩ := sound.fill free view.limits.pageRows 2 [] ready'
  refine ⟨⟨records,filled.done⟩,{filled with checks := filled.checks+1},?_,sure⟩
  have page : view.readPage {state with checks := state.checks+1} =
      .ok (⟨records,filled.done⟩,{filled with checks := filled.checks+1}) := by
    rw [View.readPage,ok,ok_bind]
    simp only [checked]
    rfl
  rw [View.read,checked]
  simp only [intact,open_,Bool.false_eq_true,if_false] at page ⊢
  rw [page]

theorem Sound.readAll (sound : Sound view) (free : ∀ n, view.interrupted n = none) (room : 0 < view.limits.pageRows)
    {fuel : ℕ} (ready : Ready view items state) (open_ : state.done = false) (intact : state.failed = false) :
    ∃ pages state', view.readAll fuel state = .ok (pages,state') := by
  induction fuel generalizing state items with
  | zero => exact ⟨[],state,rfl⟩
  | succ fuel ih =>
    obtain ⟨page,state',ok,sure⟩ := sound.read free ready open_ intact
    obtain ⟨taken,rest,paged⟩ := read_ok room ⟨ready.stands,open_,intact⟩ ok
    unfold View.readAll
    rw [ok]
    simp only
    split
    next => exact ⟨[page],state',rfl⟩
    next more =>
      have still : state'.done = false := by simpa [paged.done] using more
      obtain ⟨pages,last,later⟩ := ih ⟨paged.stands,sure,ready.few⟩ still paged.failed
      exact ⟨page::pages,last,by rw [later]; rfl⟩

/-! The rows that are read are those that were admitted. -/

theorem Sound.named (sound : Sound view) {table : Table} {row : Row} (inside : row ∈ view.db.rows table) : Named row := by
  obtain ⟨id,ok⟩ := sound.ids table row inside
  exact ⟨id,text_valid ok⟩

theorem Sound.apart (sound : Sound view) (table : Table) : (view.db.rows table).Nodup := by
  refine (view.db.keyed table).imp_of_mem fun {a b} inside _ apart same => ?_
  obtain ⟨id,named⟩ := sound.named inside
  rw [same] at apart named
  simp [named] at apart

theorem Sound.message_after (sound : Sound view) {message : Row} (inside : message ∈ view.db.rows .message) :
    toLex ((Cell.int (-1)).key,(Cell.text "").key) < messageKey message := by
  obtain ⟨time,timed⟩ := sound.times .message message inside "time_created" (by simp)
  have early : (Cell.int (-1)).key < (cell message "time_created").key := by
    rw [← count_key timed]
    refine Prod.Lex.toLex_lt_toLex.mpr (.inr ⟨rfl,Prod.Lex.toLex_lt_toLex.mpr (.inl ?_)⟩)
    exact Rat.intCast_lt_intCast.mpr (by omega)
  exact Prod.Lex.toLex_lt_toLex.mpr (.inl early)

theorem Sound.part_after (sound : Sound view) {part : Row} (inside : part ∈ view.db.rows .part) :
    (Cell.text "").key < partKey part := by
  obtain ⟨id,named⟩ := sound.ids .part part inside
  obtain ⟨own,valid⟩ := identifier_ok named
  rw [partKey,own]
  have some_ : id.toList ≠ [] := by
    intro none_
    have empty : id = "" := String.toList_inj.mp none_
    simp [validText,empty] at valid
  obtain ⟨c,cs,chars⟩ := List.exists_cons_of_ne_nil some_
  refine Prod.Lex.toLex_lt_toLex.mpr (.inr ⟨rfl,Prod.Lex.toLex_lt_toLex.mpr (.inr ⟨rfl,?_⟩)⟩)
  rw [chars]
  exact List.nil_lt_cons _ _

theorem Sound.messages_length (sound : Sound view) (thread : String) :
    (messagesAfter view.db thread (-1) "").length = rowCount view.db .message thread := by
  rw [messagesAfter,above_all messageKey fun message inside => sound.message_after (List.mem_of_mem_filter inside),
    (ordered_perm messageKey _).length_eq,rowCount,List.countP_eq_length_filter]

theorem Sound.mem_parts (sound : Sound view) {thread : String} {part : Row}
    (whole : ∀ part ∈ view.db.rows .part, strayPart view.db thread part = false) :
    part ∈ partsVisited view.db thread ↔
      part ∈ (view.db.rows .part).filter fun row => cell row "session_id" = .text thread := by
  rw [List.mem_filter,decide_eq_true_iff]
  constructor
  · intro visited
    obtain ⟨message,place,member⟩ := List.mem_flatMap.mp visited
    obtain ⟨there,placed⟩ := mem_messagesAfter place
    obtain ⟨inside,owner,_⟩ := mem_partsAfter.mp member
    obtain ⟨id,named⟩ := sound.named there
    rw [named,idText] at owner
    exact ⟨inside,(sound.parts part inside message there (named.trans owner.symm)).trans placed⟩
  · rintro ⟨inside,placed⟩
    have kept := whole part inside
    simp only [strayPart,placed,decide_true,Bool.true_and,Bool.or_eq_false_iff] at kept
    obtain ⟨message,there,equal⟩ := List.any_eq_true.mp (by simpa using kept.1 :
      (view.db.rows .message).any (fun message => (cell message "id").equals (cell part "message_id")) = true)
    obtain ⟨id,named⟩ := sound.named there
    have owner : cell part "message_id" = .text id := by
      simp only [Cell.equals,Bool.and_eq_true,decide_eq_true_iff] at equal
      exact key_text (equal.2.symm.trans (by rw [named]))
    have alike := sound.parts part inside message there (named.trans owner.symm)
    refine List.mem_flatMap.mpr ⟨message,?_,?_⟩
    · exact (mem_above messageKey).mpr ⟨List.mem_filter.mpr ⟨there,by simpa using alike.symm.trans placed⟩,
        sound.message_after there⟩
    · exact mem_partsAfter.mpr ⟨inside,by rw [named,idText,owner],sound.part_after inside⟩

theorem Sound.parts_length (sound : Sound view) {thread : String}
    (whole : ∀ part ∈ view.db.rows .part, strayPart view.db thread part = false) :
    (partsVisited view.db thread).length = rowCount view.db .part thread := by
  have visited : (partsVisited view.db thread).Nodup := by
    refine partsVisited_nodup (fun message inside => sound.named (mem_messagesAfter inside).1) fun part inside => ?_
    exact sound.named (List.mem_of_mem_filter ((sound.mem_parts whole).mp inside))
  rw [rowCount,List.countP_eq_length_filter]
  exact ((List.perm_ext_iff_of_nodup visited ((sound.apart .part).filter _)).mpr fun _ => sound.mem_parts whole).length_eq

theorem Sound.admitted (sound : Sound view) {sessionId : String} (opened : Opened view sessionId) :
    (view.family.threads.flatMap fun s => threadItems view.db s.id).length = view.family.admitted := by
  obtain ⟨_,exploring⟩ := opened.family
  rw [List.length_flatMap,exploring.counted]
  congr 1
  refine List.map_congr_left fun s inside => ?_
  obtain ⟨_,row,there,_⟩ := session_ok (exploring.found s (List.mem_append_left _ inside))
  rw [length_threadItems,there,sound.messages_length,sound.parts_length (exploring.whole s inside),weight]
  rfl

theorem Sound.ready (sound : Sound view) {sessionId : String} (opened : Opened view sessionId) (rewound : Bool) (checks : ℕ) :
    Ready view (view.family.threads.flatMap fun s => threadItems view.db s.id)
      ⟨view.family.threads,.start,0,none,false,false,rewound,checks⟩ := by
  obtain ⟨_,exploring⟩ := opened.family
  refine ⟨?_,⟨fun s inside => exploring.found s (List.mem_append_left _ inside),fun _ _ phase => by cases phase⟩,
    exploring.bounded⟩
  rw [← sound.admitted opened]
  exact (reading_start rewound checks).stands

end Totality
end ATape.OpenCode
