import ATape.OpenCode.Progress

/-! A traversal of a family is exact or fails, and it does not fail on a proper history. -/
namespace ATape.OpenCode
open Foundation

section Distinct
variable {view : View}

def Apart (a b : Item) : Prop := (a.table,cell a.row "id") ≠ (b.table,cell b.row "id")

theorem apart_of_rows {db : Database} {a b : Item} (inside : a.row ∈ db.rows a.table) (inside' : b.row ∈ db.rows b.table)
    (named : Named a.row) (differ : a.table = b.table → a.row ≠ b.row) : Apart a b := by
  obtain ⟨id,own⟩ := named
  intro same
  obtain ⟨table,ids⟩ := Prod.mk.inj same
  refine differ table (db.only inside (table ▸ inside') own ?_)
  rw [← ids,own]

theorem View.Reads.inside {item : Item} {r : OpenCodeSourceRecord} (reads : view.Reads item r) :
    item.row ∈ view.db.rows item.table := (find_ok reads.found).1

theorem View.Reads.owned {a b : Item} {r r' : OpenCodeSourceRecord} (reads : view.Reads a r) (reads' : view.Reads b r')
    (table : a.table = b.table) (row : a.row = b.row) : a.thread = b.thread := by
  by_cases child : a.table = .session
  · have own : ∀ {item : Item} {r : OpenCodeSourceRecord}, view.Reads item r → item.table = .session →
        item.thread = r.id := by
      intro item r reads child
      obtain ⟨_,_,_,_,same⟩ := record_ok reads.row
      rw [← reads.thread]
      exact same child
    rw [own reads child,own reads' (table ▸ child)]
    exact Cell.text.inj (reads.id.symm.trans (row ▸ reads'.id))
  · have first := reads.placed child
    rw [row,reads'.placed (table ▸ child)] at first
    exact (Cell.text.inj first).symm

theorem thread_of_mem {db : Database} {thread : String} {item : Item} (inside : item ∈ threadItems db thread) :
    item.thread = thread := by
  rcases List.mem_append.mp inside with inside | inside
  · obtain ⟨_,_,rfl⟩ := List.mem_map.mp inside
    rfl
  · obtain ⟨_,_,inside⟩ := List.mem_flatMap.mp inside
    rcases List.mem_cons.mp inside with rfl | inside
    · rfl
    · obtain ⟨_,_,rfl⟩ := List.mem_map.mp inside
      rfl

theorem thread_apart {thread : String} (read : ∀ item ∈ threadItems view.db thread, ∃ r, view.Reads item r) :
    (threadItems view.db thread).Pairwise Apart := by
  have within := within_of_reads read
  have elsewhere : ∀ {a b : Item}, a.table ≠ b.table → Apart a b := fun differ same => differ (Prod.mk.inj same).1
  have child : ∀ item ∈ messagesItems view.db thread (-1) "", item.table ≠ .session := by
    intro item inside
    obtain ⟨_,_,inside⟩ := List.mem_flatMap.mp inside
    rcases List.mem_cons.mp inside with rfl | inside
    · exact nofun
    · obtain ⟨_,_,rfl⟩ := List.mem_map.mp inside
      exact nofun
  refine List.pairwise_append.mpr ⟨?_,?_,?_⟩
  · cases view.db.find .session thread <;> simp
  · refine List.pairwise_flatMap.mpr ⟨?_,?_⟩
    · intro message inside
      refine List.pairwise_cons.mpr ⟨?_,?_⟩
      · intro item member
        obtain ⟨_,_,rfl⟩ := List.mem_map.mp member
        exact elsewhere nofun
      · refine List.pairwise_map.mpr ((queried_distinct ?_).imp fun differ same => differ (Prod.mk.inj same).2)
        exact fun part member => (within.parts part (List.mem_flatMap.mpr ⟨message,inside,member⟩)).1
    · refine (queried_distinct within.messages).imp_of_mem fun {m m'} inside inside' differ a member b member' => ?_
      rcases List.mem_cons.mp member with rfl | member <;> rcases List.mem_cons.mp member' with rfl | member'
      · exact fun same => differ (Prod.mk.inj same).2
      · obtain ⟨_,_,rfl⟩ := List.mem_map.mp member'
        exact elsewhere nofun
      · obtain ⟨_,_,rfl⟩ := List.mem_map.mp member
        exact elsewhere nofun
      · obtain ⟨part,parts,rfl⟩ := List.mem_map.mp member
        obtain ⟨part',parts',rfl⟩ := List.mem_map.mp member'
        obtain ⟨here,owner,_⟩ := mem_partsAfter.mp parts
        obtain ⟨here',owner',_⟩ := mem_partsAfter.mp parts'
        refine apart_of_rows here here' (within.parts part (List.mem_flatMap.mpr ⟨m,inside,parts⟩)).1 fun _ same => ?_
        obtain ⟨id,named⟩ := within.messages m inside
        obtain ⟨id',named'⟩ := within.messages m' inside'
        have same : part = part' := same
        rw [same,owner',named,named',idText,idText] at owner
        exact differ (by rw [named,named',owner])
  · intro a inside b inside'
    obtain ⟨_,_,rfl⟩ := List.mem_map.mp inside
    exact elsewhere (child b inside').symm

theorem items_apart {threads : List String} (distinct : threads.Nodup)
    (read : ∀ item ∈ threads.flatMap (threadItems view.db), ∃ r, view.Reads item r) :
    (threads.flatMap (threadItems view.db)).Pairwise Apart := by
  have each : ∀ thread ∈ threads, ∀ item ∈ threadItems view.db thread, ∃ r, view.Reads item r :=
    fun thread inside item member => read item (List.mem_flatMap.mpr ⟨thread,inside,member⟩)
  refine List.pairwise_flatMap.mpr ⟨fun thread inside => thread_apart (each thread inside),?_⟩
  refine distinct.imp_of_mem fun {thread thread'} inside inside' differ a member b member' => ?_
  obtain ⟨r,reads⟩ := each thread inside a member
  obtain ⟨r',reads'⟩ := each thread' inside' b member'
  refine apart_of_rows reads.inside reads'.inside reads.named fun table row => differ ?_
  rw [← thread_of_mem member,← thread_of_mem member']
  exact reads.owned reads' table row

theorem records_nodup {items : List Item} {records : List OpenCodeSourceRecord} (apart : items.Pairwise Apart)
    (reads : List.Forall₂ view.Reads items records) : (records.map fun r => (r.table,r.id)).Nodup := by
  have same : records.map (fun r => (r.table,Cell.text r.id)) = items.map fun item => (item.table,cell item.row "id") := by
    induction reads with
    | nil => rfl
    | cons first _ ih =>
      obtain ⟨_,_,_,table,_⟩ := record_ok first.row
      rw [List.map_cons,List.map_cons,ih (List.pairwise_cons.mp apart).2,table,first.id]
  have ids : (items.map fun item => (item.table,cell item.row "id")).Nodup := List.pairwise_map.mpr apart
  rw [← same] at ids
  refine List.pairwise_map.mpr ((List.pairwise_map.mp ids).imp fun differ alike => differ ?_)
  obtain ⟨table,id⟩ := Prod.mk.inj alike
  rw [table,id]

theorem Opened.distinct {sessionId : String} (opened : Opened view sessionId) : (view.family.threads.map (·.id)).Nodup := by
  obtain ⟨_,exploring⟩ := opened.family
  simpa using exploring.distinct

end Distinct

/-! Whole traversals. -/

/-- The pages hold each row of the family once, in order, and no part of another session. -/
structure Exact (view : View) (pages : List View.Page) : Prop where
  last : ∃ front last, pages = front++[last] ∧ last.done = true ∧ ∀ page ∈ front, page.done = false ∧ page.records ≠ []
  limits : ∀ page ∈ pages, page.records.length ≤ view.limits.pageRows ∧ pageBytes page.records ≤ view.limits.pageBytes
  rows : List.Forall₂ view.Reads (view.family.threads.flatMap fun s => history view.db s.id) (pages.flatMap (·.records))
  once : ((pages.flatMap (·.records)).map fun r => (r.table,r.id)).Nodup
  parts : ∀ s ∈ view.family.threads, ∀ message ∈ messagesOf view.db s.id, ∀ part ∈ view.db.rows .part,
    cell part "message_id" = cell message "id" → (Cell.text "").key < partKey part →
      cell part "session_id" = .text s.id

section Whole
variable {view : View} {sessionId : String}

theorem pageBytes_least (records : List OpenCodeSourceRecord) : 2 ≤ pageBytes records := by
  cases records with
  | nil => rw [pageBytes_nil]
  | cons record records =>
    rw [pageBytes_cons]
    omega

theorem Complete.exact {total : ℕ} {pages : List View.Page} {state state' : State} (opened : Opened view sessionId)
    (complete : Complete view total (view.family.threads.flatMap fun s => threadItems view.db s.id) pages state state')
    (size : (view.family.threads.flatMap fun s => threadItems view.db s.id).length = total) : Exact view pages := by
  obtain ⟨last,limits,reads,admitted,_,_,_⟩ := complete
  have read : ∀ item ∈ view.family.threads.flatMap fun s => threadItems view.db s.id, ∃ r, view.Reads item r := by
    intro item inside
    obtain ⟨r,_,reads⟩ := forall₂_mem_left reads inside
    exact ⟨r,reads⟩
  have each := opened.exact read (size.trans admitted)
  have whole : (view.family.threads.flatMap fun s => threadItems view.db s.id) =
      view.family.threads.flatMap fun s => history view.db s.id :=
    List.flatMap_congr fun s inside => (each s inside).1
  have apart : (view.family.threads.flatMap fun s => threadItems view.db s.id).Pairwise Apart := by
    have read' : ∀ item ∈ (view.family.threads.map (·.id)).flatMap (threadItems view.db), ∃ r, view.Reads item r := by
      rwa [List.flatMap_map]
    have items := items_apart opened.distinct read'
    rwa [List.flatMap_map] at items
  refine ⟨last,?_,whole ▸ reads,records_nodup apart reads,?_⟩
  · -- The root is on some page, which is no shorter than one without records.
    obtain ⟨_,exploring⟩ := opened.family
    obtain ⟨s,inside,_⟩ := exploring.top
    obtain ⟨_,row,found,_⟩ := session_ok (exploring.found s inside)
    rw [List.append_nil] at inside
    have top : (⟨s.id,.session,row⟩ : Item) ∈ view.family.threads.flatMap fun s => threadItems view.db s.id :=
      List.mem_flatMap.mpr ⟨s,inside,List.mem_append_left _ (by simp [found])⟩
    obtain ⟨r,member,_⟩ := forall₂_mem_left reads top
    obtain ⟨page,place,member⟩ := List.mem_flatMap.mp member
    have least : 2 ≤ view.limits.pageBytes := by
      rcases (limits page place).2 with none_ | fits
      · rw [none_] at member
        cases member
      · exact (pageBytes_least page.records).trans fits
    intro other inside
    obtain ⟨few,sized⟩ := limits other inside
    refine ⟨few,sized.elim (fun none_ => ?_) id⟩
    rw [none_,pageBytes_nil]
    exact least
  · intro s inside message place part there owner above_
    have named : ∃ id, cell message "id" = .text id := by
      have item : (⟨s.id,.message,message⟩ : Item) ∈ view.family.threads.flatMap fun s => threadItems view.db s.id := by
        rw [whole]
        exact List.mem_flatMap.mpr ⟨s,inside,List.mem_append_right _ (List.mem_flatMap.mpr ⟨message,place,List.mem_cons_self⟩)⟩
      obtain ⟨r,reads⟩ := read _ item
      exact reads.named
    obtain ⟨id,named⟩ := named
    exact (each s inside).2 message place part there (by rw [owner,named,idText]) above_

theorem Opened.traversal (opened : Opened view sessionId) (rewound : Bool) (checks : ℕ) {pages : List View.Page}
    {state : State} (ok : view.readAll (view.limits.records+1)
      ⟨view.family.threads,.start,0,none,false,false,rewound,checks⟩ = .ok (pages,state)) :
    Exact view pages ∧ state.done = true ∧ state.failed = false ∧ state.rewound = rewound ∧
      List.Forall₂ view.Reads (view.family.threads.flatMap fun s => threadItems view.db s.id) (pages.flatMap (·.records)) := by
  have complete := readAll_ok opened.rows (reading_start rewound checks) (by omega) ok
  exact ⟨complete.exact opened rfl,complete.done,complete.failed,complete.rewound,complete.reads⟩

theorem rewind_ok {state state' : State} (ok : view.rewind state = (.ok (),state')) :
    ∃ checks, state' = ⟨view.family.threads,.start,0,none,state.failed,false,true,checks⟩ := by
  unfold View.rewind at ok
  split at ok
  next => cases ok
  next checks _ =>
    split at ok
    next => cases ok
    next =>
      cases ok
      exact ⟨checks,rfl⟩

theorem rewind_complete (free : ∀ n, view.interrupted n = none) {state : State} (done : state.done = true)
    (failed : state.failed = false) (rewound : state.rewound = false) :
    view.rewind state = (.ok (),⟨view.family.threads,.start,0,none,false,false,true,state.checks+1⟩) := by
  simp [View.rewind,check,free,done,failed,rewound]

end Whole

/-- What is opened is the family of a root, and reading it is exact, may be done twice and fails
on no sound history. -/
theorem traversal_exact {engine : Engine} {db : Database} {raw : Bool} {limits : OpenCodeSourceLimits}
    {interrupted : Interrupted} {sessionId : String} {view : View}
    (opens : openOpenCodeSource engine db raw limits interrupted sessionId = .ok view) :
    (view.db = db ∧ view.limits = limits) ∧
    ((view.family.threads.map (·.id)).Nodup ∧ view.family.threads.length ≤ limits.threads ∧
      view.root.parentId = none ∧ Reaches db view.root.id sessionId ∧
      ∀ id, (∃ s ∈ view.family.threads, s.id = id) ↔ Reaches db view.root.id id) ∧
    (∀ pages state, view.readAll (limits.records+1) view.start = .ok (pages,state) → Exact view pages ∧
      ∀ state', view.rewind state = (.ok (),state') →
        ∀ pages' state'', view.readAll (limits.records+1) state' = .ok (pages',state'') →
          Exact view pages' ∧ pages'.flatMap (·.records) = pages.flatMap (·.records)) ∧
    (Sound view → (∀ n, interrupted n = none) → ∃ pages state state' pages' state'',
      view.readAll (limits.records+1) view.start = .ok (pages,state) ∧ view.rewind state = (.ok (),state') ∧
        view.readAll (limits.records+1) state' = .ok (pages',state'')) := by
  obtain ⟨opened,rfl,rfl,rfl⟩ := open_ok opens
  refine ⟨⟨rfl,rfl⟩,⟨opened.distinct,?_,opened.parentless,opened.reaches,opened.members⟩,?_,?_⟩
  · obtain ⟨_,exploring⟩ := opened.family
    simpa using exploring.few
  · intro pages state first
    obtain ⟨exact_,_,failed,_,reads⟩ := opened.traversal false _ first
    refine ⟨exact_,fun state' again pages' state'' second => ?_⟩
    obtain ⟨checks,rfl⟩ := rewind_ok again
    rw [failed] at second
    obtain ⟨exact',_,_,_,reads'⟩ := opened.traversal true checks second
    exact ⟨exact',(reads_unique reads reads').symm⟩
  · intro sound free
    obtain ⟨pages,state,first⟩ := sound.readAll free opened.rows (sound.ready opened false view.family.checks) rfl rfl
    obtain ⟨_,done,failed,rewound,_⟩ := opened.traversal false _ first
    obtain ⟨pages',state'',second⟩ := sound.readAll free opened.rows (sound.ready opened true (state.checks+1)) rfl rfl
    exact ⟨pages,state,_,pages',state'',first,rewind_complete free done failed rewound,second⟩

/-! A session with a message and a part. -/

def sampleEngine : Engine := ⟨fun _ => "",fun _ => "",fun _ members => members⟩

def sampleLimits : OpenCodeSourceLimits := ⟨200,4096,2,10,4,1000⟩

def sampleSession : Row :=
  [("id",.text "s"),("project_id",.text "p"),("parent_id",.null),("directory",.text "/d"),("title",.text ""),
    ("version",.text "1"),("time_created",.int 1),("time_updated",.int 1),("time_archived",.null),("revert",.null)]

def sampleMessage (data : String) : Row :=
  [("id",.text "m"),("session_id",.text "s"),("time_created",.int 1),("time_updated",.int 1),("data",.text data)]

def samplePart (id sessionId : String) : Row :=
  [("id",.text id),("message_id",.text "m"),("session_id",.text sessionId),("time_created",.int 1),
    ("time_updated",.int 1),("data",.text "\x7b\x7d")]

def sampleHistory (data id sessionId : String) : Database where
  rows
    | .session => [sampleSession]
    | .message => [sampleMessage data]
    | .part => [samplePart id sessionId]
  sessionMessages := none
  keyed := by
    intro table
    cases table <;> exact List.pairwise_singleton _ _

def openSample (db : Database) : Result View := openOpenCodeSource sampleEngine db false sampleLimits (fun _ => none) "s"

theorem sample_sound (root : OpenCodeSession) (family : Family) :
    Sound ⟨sampleEngine,sampleHistory "\x7b\x7d" "x" "s",false,sampleLimits,fun _ => none,root,family⟩ := by
  have every : ∀ {p : Table → Row → Prop}, p .session sampleSession → p .message (sampleMessage "\x7b\x7d") →
      p .part (samplePart "x" "s") → ∀ table, ∀ row ∈ (sampleHistory "\x7b\x7d" "x" "s").rows table, p table row := by
    intro p first second third table row inside
    cases table <;> obtain rfl := List.mem_singleton.mp inside <;> assumption
  refine ⟨?_,?_,?_,?_,nofun,?_,?_⟩
  · exact every (p := fun _ row => ∃ id, identifier 500 (cell row "id") = .ok id)
      ⟨"s",by decide⟩ ⟨"m",by decide⟩ ⟨"x",by decide⟩
  · refine every (p := fun _ row => ∀ name ∈ ["time_created","time_updated"],
      ∃ time, count maxSafeInteger (cell row name) = .ok time) ?_ ?_ ?_
    all_goals
      intro name inside
      refine ⟨1,?_⟩
      revert name inside
      decide
  · intro part inside message inside' _
    obtain rfl := List.mem_singleton.mp inside
    obtain rfl := List.mem_singleton.mp inside'
    rfl
  · intro table child row inside
    have held := every (p := fun table row => table = .session ∨ (membersOf (cell row "data")).isSome = true)
      (.inl rfl) (.inr (by decide)) (.inr (by decide)) table row inside
    exact Option.isSome_iff_exists.mp (held.resolve_left child)
  · exact every (p := fun table row => columnBytes sampleEngine row (required table) ≤ 200)
      (by decide) (by decide) (by decide)
  · intro table id r ok
    obtain ⟨row,found,_⟩ := record_ok ok
    obtain ⟨inside,own⟩ := find_ok found
    have small := every (p := fun table row => (record sampleEngine (sampleHistory "\x7b\x7d" "x" "s") false 200 table
        (idText (cell row "id"))).toOption.all (fun r => encodedBytes r.json+2 ≤ 4096) = true)
      (by decide +kernel) (by decide +kernel) (by decide +kernel) table row inside
    have ok : record sampleEngine (sampleHistory "\x7b\x7d" "x" "s") false 200 table id = .ok r := ok
    rw [own,idText,ok] at small
    exact of_decide_eq_true small

theorem any_ok {α : Type} {result : Result α} {p : α → Bool} (holds : result.toOption.any p = true) :
    ∃ a, result = .ok a ∧ p a = true := by
  cases result with
  | error error => cases holds
  | ok a => exact ⟨a,rfl,holds⟩

theorem opened_sample {data id sessionId : String} {view : View} (opens : openSample (sampleHistory data id sessionId) = .ok view) :
    ∃ root family, view = ⟨sampleEngine,sampleHistory data id sessionId,false,sampleLimits,fun _ => none,root,family⟩ := by
  simp only [openSample,openOpenCodeSource,bind_ok,pure_ok] at opens
  obtain ⟨_,_,_,_,⟨root,_⟩,_,family,_,rfl⟩ := opens
  exact ⟨root,family,rfl⟩

/-- It is read in whole, twice. -/
theorem traversal_exact_sample : ∃ view pages state state' pages' state'',
    openSample (sampleHistory "\x7b\x7d" "x" "s") = .ok view ∧ view.readAll 11 view.start = .ok (pages,state) ∧
      view.rewind state = (.ok (),state') ∧ view.readAll 11 state' = .ok (pages',state'') ∧ Exact view pages ∧
      pages'.flatMap (·.records) = pages.flatMap (·.records) := by
  obtain ⟨view,opens,_⟩ := any_ok (by decide :
    (openSample (sampleHistory "\x7b\x7d" "x" "s")).toOption.any (fun _ => true) = true)
  obtain ⟨root,family,rfl⟩ := opened_sample opens
  obtain ⟨_,_,exact_,total⟩ := traversal_exact opens
  obtain ⟨pages,state,state',pages',state'',first,again,second⟩ := total (sample_sound root family) fun _ => rfl
  obtain ⟨whole,twice⟩ := exact_ pages state first
  exact ⟨_,pages,state,state',pages',state'',opens,first,again,second,whole,(twice state' again pages' state'' second).2⟩

/-- A part of another session without an id of its own is on no page, and a message whose data are no
object is not read. -/
theorem stray_part_unread :
    (∃ view pages state, openSample (sampleHistory "\x7b\x7d" "" "o") = .ok view ∧
      view.readAll 11 view.start = .ok (pages,state) ∧ state.done = true ∧
      sampleMessage "\x7b\x7d" ∈ messagesOf view.db "s" ∧ samplePart "" "o" ∈ view.db.rows .part ∧
      cell (samplePart "" "o") "message_id" = cell (sampleMessage "\x7b\x7d") "id" ∧
      ∀ r ∈ pages.flatMap (·.records), r.table ≠ .part) ∧
    ∃ view error, openSample (sampleHistory "[]" "x" "s") = .ok view ∧ view.readAll 11 view.start = .error error := by
  constructor
  · obtain ⟨view,opens,held⟩ := any_ok (by decide +kernel :
      (openSample (sampleHistory "\x7b\x7d" "" "o")).toOption.any (fun view =>
        (view.readAll 11 view.start).toOption.any fun read =>
          read.2.done && (read.1.flatMap (·.records)).all fun r => r.table ≠ .part) = true)
    obtain ⟨⟨pages,state⟩,read,held⟩ := any_ok held
    obtain ⟨done,none_⟩ := (Bool.and_eq_true _ _).mp held
    obtain ⟨root,family,rfl⟩ := opened_sample opens
    refine ⟨_,pages,state,opens,read,done,?_,List.mem_singleton.mpr rfl,rfl,?_⟩
    · exact (mem_ordered messageKey).mpr (List.mem_filter.mpr ⟨List.mem_singleton.mpr rfl,by decide⟩)
    · exact fun r inside => of_decide_eq_true (List.all_eq_true.mp none_ r inside)
  · obtain ⟨view,opens,held⟩ := any_ok (by decide +kernel :
      (openSample (sampleHistory "[]" "x" "s")).toOption.any (fun view => !(view.readAll 11 view.start).isOk) = true)
    cases read : view.readAll 11 view.start with
    | error error => exact ⟨view,error,opens,read⟩
    | ok pages =>
      rw [read] at held
      cases held

end ATape.OpenCode
