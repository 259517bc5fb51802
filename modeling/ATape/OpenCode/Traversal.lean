import ATape.OpenCode.Source
import Mathlib.Data.List.Pairwise

/-! What a traversal has still to read, and what each read takes of it. -/
namespace ATape.OpenCode
open Foundation

/-! Values. -/

theorem identifier_ok {maximum : ℕ} {value : Cell} {text : String} (ok : identifier maximum value = .ok text) :
    value = .text text ∧ validText maximum text = true := by
  cases value with
  | text other =>
    rw [identifier] at ok
    split at ok
    next valid =>
      cases ok
      exact ⟨rfl,valid⟩
    next => cases ok
  | _ => cases ok

theorem natural_ok {maximum n : ℕ} {value : Int} (ok : natural maximum value = .ok n) : value = n ∧ n ≤ maximum := by
  unfold natural at ok
  split at ok
  next fits =>
    cases ok
    omega
  next => cases ok

theorem count_key {maximum n : ℕ} {value : Cell} (ok : count maximum value = .ok n) : (Cell.int n).key = value.key := by
  cases value with
  | int value =>
    obtain ⟨rfl,_⟩ := natural_ok ok
    rfl
  | real value =>
    rw [count] at ok
    split at ok
    next whole =>
      obtain ⟨same,_⟩ := natural_ok ok
      have number := Rat.coe_int_num_of_den_eq_one whole
      rw [same] at number
      simp [Cell.key,← number]
    next => cases ok
  | _ => cases ok

theorem text_key_injective {text text' : String} (same : (Cell.text text).key = (Cell.text text').key) : text = text' := by
  have chars : text.toList.map Char.toNat = text'.toList.map Char.toNat := by
    simpa [Cell.key] using same
  have injective : Function.Injective Char.toNat := fun a b alike => Char.toNat_inj.mp alike
  exact String.toList_inj.mp (List.map_injective_iff.mpr injective chars)

theorem key_text {value : Cell} {text : String} (same : value.key = (Cell.text text).key) : value = .text text := by
  cases value with
  | text other => rw [text_key_injective same]
  | _ => simp [Cell.key] at same

theorem text_valid {value : Cell} {text : String} (ok : identifier 500 value = .ok text) : value = .text text :=
  (identifier_ok ok).1

/-! Rows that are still to be read. -/

structure Item where
  thread : String
  table : Table
  row : Row

def idText : Cell → String
  | .text text => text
  | _ => ""

def partItems (db : Database) (thread messageId partId : String) : List Item :=
  (partsAfter db messageId partId).map fun part => ⟨thread,.part,part⟩

def messageItems (db : Database) (thread : String) (message : Row) : List Item :=
  ⟨thread,.message,message⟩::partItems db thread (idText (cell message "id")) ""

def messagesItems (db : Database) (thread : String) (time : Int) (messageId : String) : List Item :=
  (messagesAfter db thread time messageId).flatMap (messageItems db thread)

def threadItems (db : Database) (thread : String) : List Item :=
  (db.find .session thread).toList.map (fun row => ⟨thread,.session,row⟩)++messagesItems db thread (-1) ""

def placeItems (db : Database) (thread : String) (place : Place) : List Item :=
  match place.phase with
  | .session => (db.find .session thread).toList.map (fun row => ⟨thread,.session,row⟩)++
    messagesItems db thread place.messageTime place.messageId
  | .message => messagesItems db thread place.messageTime place.messageId
  | .part => partItems db thread place.messageId place.partId++messagesItems db thread place.messageTime place.messageId

def leftItems (db : Database) : List OpenCodeSession → Place → List Item
  | [],_ => []
  | current::rest,place => placeItems db current.id place++rest.flatMap fun s => threadItems db s.id

structure View.Reads (view : View) (item : Item) (record : OpenCodeSourceRecord) : Prop where
  id : cell item.row "id" = .text record.id
  found : view.db.find item.table record.id = some item.row
  row : view.row item.table record.id = .ok record
  thread : record.sessionId = item.thread

section Rows
variable {db : Database} {table : Table} {id : String} {row : Row}

theorem find_ok (found : db.find table id = some row) : row ∈ db.rows table ∧ cell row "id" = .text id := by
  refine ⟨List.mem_of_find?_eq_some found,?_⟩
  simpa using List.find?_some found

instance apart_symm : Std.Symm fun a b : Row => cell a "id" = .null ∨ cell a "id" ≠ cell b "id" where
  symm a b apart := by
    by_cases null : cell b "id" = .null
    · exact .inl null
    · refine .inr fun same => ?_
      rw [← same] at apart
      exact apart.elim null fun differ => differ rfl

theorem Database.only (db : Database) {row other : Row} (inside : row ∈ db.rows table) (inside' : other ∈ db.rows table)
    (named : cell row "id" = .text id) (named' : cell other "id" = .text id) : row = other := by
  by_contra differ
  have apart := (db.keyed table).forall inside inside' differ
  simp [named,named'] at apart

theorem Database.alone (db : Database) {κ : Type} [LinearOrder κ] {key : Row → κ} {cursor : κ} {chosen : Row → Bool}
    {rest : List Row} (first : above key cursor ((db.rows table).filter chosen) = row::rest)
    (named : cell row "id" = .text id) : ∀ other ∈ rest, cell other "id" ≠ .text id := by
  have keyed : (row::rest).Pairwise fun a b => cell a "id" = .null ∨ cell a "id" ≠ cell b "id" := by
    rw [← first]
    have sublist : (((db.rows table).filter chosen).filter fun a => cursor < key a).Sublist (db.rows table) :=
      List.filter_sublist.trans List.filter_sublist
    exact ((ordered_perm key _).pairwise_iff fun {_ _} apart => apart_symm.symm _ _ apart).mpr
      ((db.keyed table).sublist sublist)
  intro other inside same
  have apart := (List.pairwise_cons.mp keyed).1 other inside
  simp [named,same] at apart

theorem find_row (inside : row ∈ db.rows table) (named : cell row "id" = .text id) : db.find table id = some row := by
  cases found : db.find table id with
  | none =>
    have none_ := List.find?_eq_none.mp found row inside
    simp [named] at none_
  | some other =>
    obtain ⟨inside',named'⟩ := find_ok found
    rw [db.only inside inside' named named']

theorem partsAfter_cons {messageId partId next : String} {part : Row} {rest : List Row}
    (first : partsAfter db messageId partId = part::rest) (named : cell part "id" = .text next) :
    partsAfter db messageId next = rest := by
  have alone := db.alone first named
  have key : (Cell.text next).key = partKey part := by rw [partKey,named]
  rw [partsAfter,key]
  refine above_cons partKey first fun other inside same => alone other inside ?_
  exact key_text (same.trans key.symm)

theorem messagesAfter_cons {sessionId messageId next : String} {time : Int} {n : ℕ} {message : Row} {rest : List Row}
    (first : messagesAfter db sessionId time messageId = message::rest) (named : cell message "id" = .text next)
    (timed : count maxSafeInteger (cell message "time_created") = .ok n) : messagesAfter db sessionId n next = rest := by
  have alone := db.alone first named
  have key : toLex ((Cell.int n).key,(Cell.text next).key) = messageKey message := by
    rw [messageKey,named,count_key timed]
  rw [messagesAfter,key]
  refine above_cons messageKey first fun other inside same => alone other inside ?_
  have ids := congrArg (fun key => (ofLex key).2) (same.trans key.symm)
  exact key_text ids

end Rows

/-! What is read. -/

section Reading
variable {view : View}

theorem record_ok {engine : Engine} {db : Database} {raw : Bool} {rowBytes : ℕ} {table : Table} {id : String}
    {r : OpenCodeSourceRecord} (ok : record engine db raw rowBytes table id = .ok r) :
    ∃ row, db.find table id = some row ∧ r.id = id ∧ r.table = table ∧
      (table = .session → r.sessionId = id) := by
  simp only [record,bind_ok,present_ok,pure_ok] at ok
  obtain ⟨row,found,_,_,_,_,_,_,_,_,_,_,own,named,sessionId,placed,_,_,_,_,_,_,rfl⟩ := ok
  refine ⟨row,found,?_,rfl,?_⟩
  · have named' := (find_ok found).2
    rw [named'] at named
    exact (Cell.text.inj (text_valid named)).symm
  · rintro rfl
    cases placed
    rfl

theorem row_reads {table : Table} {id thread : String} {r : OpenCodeSourceRecord} (ok : view.row table id = .ok r)
    (same : r.sessionId = thread) : ∃ row, view.db.find table id = some row ∧ view.Reads ⟨thread,table,row⟩ r := by
  obtain ⟨row,found,rfl,rfl,_⟩ := record_ok ok
  exact ⟨row,found,(find_ok found).2,found,ok,same⟩

theorem nextPart_ok {current : OpenCodeSession} {place : Place} {found : Option (OpenCodeSourceRecord × Place)}
    (ok : view.nextPart current place = .ok found) (phase : place.phase = .part) :
    match found with
    | none => partItems view.db current.id place.messageId place.partId = []
    | some (r,place') => ∃ item, view.Reads item r ∧
      placeItems view.db current.id place = item::placeItems view.db current.id place' := by
  unfold View.nextPart at ok
  rw [if_neg (not_not.mpr phase)] at ok
  split at ok
  next none_ =>
    cases ok
    simpa [partItems] using List.head?_eq_none_iff.mp none_
  next part first =>
    simp only [bind_ok,failWhen_ok,pure_ok] at ok
    obtain ⟨partId,named,r,read,_,same,rfl⟩ := ok
    obtain ⟨rest,parts⟩ := List.head?_eq_some_iff.mp first
    have named := text_valid named
    obtain ⟨row,there,reads⟩ := row_reads read (not_not.mp same)
    have inside : part ∈ view.db.rows .part := by
      have member : part ∈ partsAfter view.db place.messageId place.partId := parts ▸ List.mem_cons_self
      exact List.mem_of_mem_filter ((mem_above partKey).mp member).1
    have own : part = row := view.db.only inside (find_ok there).1 named (find_ok there).2
    subst own
    refine ⟨_,reads,?_⟩
    simp only [placeItems,phase,partItems,parts,partsAfter_cons parts named]
    rfl

theorem nextMessage_ok {current : OpenCodeSession} {place : Place} {found : Option (OpenCodeSourceRecord × Place)}
    (ok : view.nextMessage current place = .ok found) :
    match found with
    | none => messagesItems view.db current.id place.messageTime place.messageId = []
    | some (r,place') => ∃ item, view.Reads item r ∧
      messagesItems view.db current.id place.messageTime place.messageId = item::placeItems view.db current.id place' := by
  unfold View.nextMessage at ok
  split at ok
  next none_ =>
    cases ok
    simp only [messagesItems,List.head?_eq_none_iff.mp none_]
    rfl
  next message first =>
    simp only [bind_ok,failWhen_ok,pure_ok] at ok
    obtain ⟨_,_,messageId,named,messageTime,timed,r,read,_,same,rfl⟩ := ok
    obtain ⟨rest,messages⟩ := List.head?_eq_some_iff.mp first
    have named := text_valid named
    obtain ⟨row,there,reads⟩ := row_reads read (not_not.mp same)
    have inside : message ∈ view.db.rows .message := by
      have member : message ∈ messagesAfter view.db current.id place.messageTime place.messageId :=
        messages ▸ List.mem_cons_self
      exact List.mem_of_mem_filter ((mem_above messageKey).mp member).1
    have own : message = row := view.db.only inside (find_ok there).1 named (find_ok there).2
    subst own
    refine ⟨_,reads,?_⟩
    simp only [messagesItems,messages,List.flatMap_cons,messageItems,named,idText,placeItems,
      messagesAfter_cons messages named timed]
    rfl

/-- The next record is of the first row that is left. -/
def View.Advances (view : View) (remaining : List OpenCodeSession) (place : Place) : Option View.Step → Prop
  | none => leftItems view.db remaining place = []
  | some (r,remaining',place') => ∃ item, view.Reads item r ∧
    leftItems view.db remaining place = item::leftItems view.db remaining' place'

theorem next_ok {checks checks' : ℕ} {remaining : List OpenCodeSession} {place : Place} {found : Option View.Step}
    (ok : view.next checks remaining place = .ok (found,checks')) : view.Advances remaining place found := by
  induction remaining generalizing checks place with
  | nil =>
    cases ok
    rfl
  | cons current rest ih =>
    unfold View.next at ok
    rw [bind_ok] at ok
    obtain ⟨checked,_,ok⟩ := ok
    split at ok
    next phase =>
      simp only [bind_ok,pure_ok,Prod.mk.injEq] at ok
      obtain ⟨r,read,rfl,_⟩ := ok
      obtain ⟨_,_,_,_,own⟩ := record_ok read
      obtain ⟨row,there,reads⟩ := row_reads read (own rfl)
      refine ⟨_,reads,?_⟩
      simp only [leftItems,placeItems,phase,there]
      rfl
    next phase =>
      rw [bind_ok] at ok
      obtain ⟨part,parts,ok⟩ := ok
      split at ok
      next r place' =>
        cases ok
        have inPart : place.phase = .part := by
          by_contra other
          rw [View.nextPart,if_pos other] at parts
          cases parts
        obtain ⟨item,reads,same⟩ := nextPart_ok parts inPart
        exact ⟨item,reads,by simp only [leftItems,same,List.cons_append]⟩
      next =>
        have here : placeItems view.db current.id place =
            messagesItems view.db current.id place.messageTime place.messageId := by
          cases inPhase : place.phase with
          | session => exact absurd inPhase phase
          | message => simp only [placeItems,inPhase]
          | part =>
            have none_ : partItems view.db current.id place.messageId place.partId = [] := nextPart_ok parts inPhase
            simp only [placeItems,inPhase,none_,List.nil_append]
        rw [bind_ok] at ok
        obtain ⟨message,messages,ok⟩ := ok
        split at ok
        next r place' =>
          cases ok
          obtain ⟨item,reads,same⟩ := nextMessage_ok messages
          exact ⟨item,reads,by simp only [leftItems,here,same,List.cons_append]⟩
        next =>
          have none_ := nextMessage_ok messages
          have onward : leftItems view.db (current::rest) place =
              leftItems view.db rest ⟨.session,"",-1,place.partId⟩ := by
            rw [leftItems,here,none_,List.nil_append]
            cases rest <;> rfl
          have rest := ih ok
          unfold View.Advances at rest ⊢
          rwa [onward]

end Reading
end ATape.OpenCode
