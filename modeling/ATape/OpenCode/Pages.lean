import ATape.OpenCode.Traversal

/-! Pages of a traversal. Each takes the rows that are next, and no page but the last is empty. -/
namespace ATape.OpenCode
open Foundation

/-! How long a page is. -/

def pageBytes (records : List OpenCodeSourceRecord) : ℕ := encodedBytes (.arr (records.map (·.json)))

theorem bytes_append (front back : List Char) : (String.ofList (front++back)).utf8ByteSize =
    (String.ofList front).utf8ByteSize+(String.ofList back).utf8ByteSize := by
  rw [String.ofList_append,String.utf8ByteSize_append]

theorem pageBytes_nil : pageBytes [] = 2 := by decide

theorem bytes_items (values : List Json) : (String.ofList (Json.writeItems Node.escaping values)).utf8ByteSize =
    (values.map fun value => encodedBytes value+1).sum+1 := by
  induction values with
  | nil => decide
  | cons value values ih =>
    have comma : (String.ofList [',']).utf8ByteSize = 1 := by decide
    have apart : Json.writeItems Node.escaping (value::values) =
      [',']++(Json.write Node.escaping value++Json.writeItems Node.escaping values) := rfl
    rw [apart,bytes_append,bytes_append,ih,comma,List.map_cons,List.sum_cons]
    simp only [encodedBytes,Node.stringify]
    omega

theorem pageBytes_cons (record : OpenCodeSourceRecord) (records : List OpenCodeSourceRecord) :
    pageBytes (record::records) =
      2+encodedBytes record.json+(records.map fun record => encodedBytes record.json+1).sum := by
  have bracket : (String.ofList ['[']).utf8ByteSize = 1 := by decide
  have apart : Json.write Node.escaping (.arr ((record::records).map (·.json))) =
    ['[']++(Json.write Node.escaping record.json++Json.writeItems Node.escaping (records.map (·.json))) := by
      rw [List.map_cons,Json.write]
      rfl
  rw [pageBytes,encodedBytes,Node.stringify,apart,bytes_append,bytes_append,bytes_items,bracket,List.map_map]
  simp only [encodedBytes,Node.stringify,Function.comp_def]
  omega

theorem pageBytes_append_singleton (records : List OpenCodeSourceRecord) (record : OpenCodeSourceRecord) :
    pageBytes (records++[record]) = pageBytes records+(encodedBytes record.json+separator records) := by
  cases records with
  | nil =>
    rw [List.nil_append,pageBytes_cons,pageBytes_nil]
    rfl
  | cons first records =>
    rw [List.cons_append,pageBytes_cons,pageBytes_cons,List.map_append,List.sum_append]
    simp [separator]
    omega

/-! How far a state has come. -/

/-- The rows whose records are on no page yet, of a number of rows in all. -/
structure Stands (view : View) (total : ℕ) (items : List Item) (state : State) : Prop where
  left : match state.pending with
    | none => items = leftItems view.db state.remaining state.place
    | some pending => ∃ item, items = item::leftItems view.db state.remaining state.place ∧ view.Reads item pending.record
  sized : ∀ pending, state.pending = some pending →
    pending.bytes = encodedBytes pending.record.json ∧ pending.bytes+2 ≤ view.limits.pageBytes
  total : state.consumed+(leftItems view.db state.remaining state.place).length = total
  bounded : state.consumed ≤ view.limits.records

section States
variable {view : View} {total : ℕ} {items : List Item} {state state' : State}

/-- A record that waits for its page, or that all rows were read. -/
inductive Loaded (view : View) (total : ℕ) (items : List Item) (state state' : State) : Option Pending → Prop
  | ends (none_ : items = []) (complete : total = view.family.admitted) (done : state'.done = true)
    (pending : state'.pending = none) (consumed : state'.consumed = total) (bounded : state'.consumed ≤ view.limits.records)
    (left : state'.remaining = []) (failed : state'.failed = state.failed) (rewound : state'.rewound = state.rewound) :
    Loaded view total items state state' none
  | waits (pending) (there : state'.pending = some pending) (stands : Stands view total items state')
    (done : state'.done = state.done) (failed : state'.failed = state.failed) (rewound : state'.rewound = state.rewound) :
    Loaded view total items state state' (some pending)

theorem load_ok {found : Option Pending} (stands : Stands view total items state)
    (ok : view.load state = .ok (found,state')) : Loaded view total items state state' found := by
  obtain ⟨left,sized,counted,bounded⟩ := stands
  unfold View.load at ok
  split at ok
  next pending there =>
    cases ok
    exact .waits pending there ⟨left,sized,counted,bounded⟩ rfl rfl rfl
  next free =>
    rw [bind_ok] at ok
    obtain ⟨⟨step,checks⟩,found_,ok⟩ := ok
    have advances := next_ok found_
    rw [free] at left
    simp only at ok
    split at ok
    next =>
      simp only [bind_ok,failWhen_ok,pure_ok,Prod.mk.injEq] at ok
      obtain ⟨_,complete,rfl,rfl⟩ := ok
      have none_ : leftItems view.db state.remaining state.place = [] := advances
      rw [none_,List.length_nil,Nat.add_zero] at counted
      exact .ends (left.trans none_) (counted ▸ not_not.mp complete) rfl free counted bounded rfl rfl rfl
    next r remaining place =>
      simp only [bind_ok,failWhen_ok,pure_ok,Prod.mk.injEq] at ok
      obtain ⟨_,few,_,small,rfl,rfl⟩ := ok
      obtain ⟨item,reads,same⟩ := advances
      refine .waits _ rfl ⟨⟨item,left.trans same,reads⟩,?_,?_,Nat.not_lt.mp few⟩ rfl rfl rfl
      · rintro _ ⟨⟩
        exact ⟨rfl,Nat.not_lt.mp small⟩
      · rw [same,List.length_cons] at counted
        simp only
        omega

/-- What a page takes. -/
structure Fills (view : View) (total : ℕ) (items : List Item) (room : ℕ) (records records' : List OpenCodeSourceRecord)
    (state state' : State) : Prop where
  taken : ∃ taken rest fresh, items = taken++rest ∧ records' = records++fresh ∧ List.Forall₂ view.Reads taken fresh ∧
    fresh.length ≤ room ∧ Stands view total rest state' ∧
    (state'.done = true → rest = [] ∧ total = view.family.admitted) ∧
    (0 < room → records = [] → state'.done = false → fresh ≠ [])
  sized : records' = records ∨ pageBytes records' ≤ view.limits.pageBytes
  failed : state'.failed = state.failed
  rewound : state'.rewound = state.rewound

theorem fill_ok {room : ℕ} {records records' : List OpenCodeSourceRecord} (stands : Stands view total items state)
    (open_ : state.done = false)
    (ok : view.fill room records (pageBytes records) state = .ok (records',state')) :
    Fills view total items room records records' state state' := by
  induction room generalizing records state items with
  | zero =>
    cases ok
    refine ⟨⟨[],items,[],rfl,(List.append_nil _).symm,.nil,le_rfl,stands,?_,fun none_ => absurd none_ (lt_irrefl 0)⟩,
      .inl rfl,rfl,rfl⟩
    intro done
    rw [open_] at done
    cases done
  | succ room ih =>
    unfold View.fill at ok
    rw [bind_ok] at ok
    obtain ⟨⟨found,loaded⟩,load,ok⟩ := ok
    cases load_ok stands load with
    | ends none_ complete done pending consumed bounded left failed rewound =>
      cases ok
      refine ⟨⟨[],[],[],none_,(List.append_nil _).symm,.nil,Nat.zero_le _,⟨?_,?_,?_,bounded⟩,fun _ => ⟨rfl,complete⟩,?_⟩,
        .inl rfl,failed,rewound⟩
      · rw [pending,left]
        rfl
      · rw [pending]
        exact nofun
      · rw [left,consumed]
        rfl
      · intro _ _ more
        rw [done] at more
        cases more
    | waits pending there stands' done failed rewound =>
      simp only at ok
      obtain ⟨size,fits⟩ := stands'.sized pending there
      split at ok
      next full =>
        cases ok
        refine ⟨⟨[],items,[],rfl,(List.append_nil _).symm,.nil,Nat.zero_le _,stands',?_,?_⟩,.inl rfl,failed,rewound⟩
        · intro finished
          rw [done,open_] at finished
          cases finished
        · rintro _ rfl _
          rw [pageBytes_nil] at full
          simp only [separator,List.isEmpty_nil,if_true] at full
          omega
      next fitting =>
        have left := stands'.left
        rw [there] at left
        obtain ⟨item,rfl,reads⟩ := left
        have grown : pageBytes records+(pending.bytes+separator records) = pageBytes (records++[pending.record]) := by
          rw [pageBytes_append_singleton,size]
        rw [grown] at ok fitting
        have stands'' : Stands view total (leftItems view.db loaded.remaining loaded.place)
            {loaded with pending := none} := ⟨rfl,nofun,stands'.total,stands'.bounded⟩
        obtain ⟨⟨taken,rest,fresh,split,records_,read,few,left,ends,_⟩,sized',failed',rewound'⟩ :=
          ih stands'' (done.trans open_) ok
        have fits' : pageBytes records' ≤ view.limits.pageBytes := by
          rcases sized' with same | fits'
          · rw [same]
            exact Nat.not_lt.mp fitting
          · exact fits'
        refine ⟨⟨item::taken,rest,pending.record::fresh,by rw [split]; rfl,by simp [records_],.cons reads read,
          Nat.succ_le_succ few,left,ends,fun _ _ _ => nofun⟩,.inr fits',failed'.trans failed,rewound'.trans rewound⟩

/-- Reading goes on with rows that are left. -/
structure Reading (view : View) (total : ℕ) (items : List Item) (state : State) : Prop where
  stands : Stands view total items state
  done : state.done = false
  failed : state.failed = false

structure Paged (view : View) (total : ℕ) (items taken rest : List Item) (page : View.Page) (state state' : State) :
    Prop where
  split : items = taken++rest
  reads : List.Forall₂ view.Reads taken page.records
  few : page.records.length ≤ view.limits.pageRows
  sized : page.records = [] ∨ pageBytes page.records ≤ view.limits.pageBytes
  stands : Stands view total rest state'
  done : page.done = state'.done
  ends : state'.done = true → rest = [] ∧ total = view.family.admitted
  nonempty : state'.done = false → page.records ≠ []
  failed : state'.failed = false
  rewound : state'.rewound = state.rewound

theorem Stands.flags (stands : Stands view total items state) (failed done : Bool) (checks : ℕ) :
    Stands view total items {state with failed,done,checks} :=
  ⟨stands.left,stands.sized,stands.total,stands.bounded⟩

theorem read_ok {page : View.Page} (room : 0 < view.limits.pageRows) (reading : Reading view total items state)
    (ok : view.read state = (.ok page,state')) : ∃ taken rest, Paged view total items taken rest page state state' := by
  unfold View.read at ok
  split at ok
  next => cases ok
  next checks _ =>
    rw [reading.failed,reading.done] at ok
    simp only [Bool.false_eq_true,if_false] at ok
    split at ok
    next => cases ok
    next page_ state_ paged =>
      cases ok
      simp only [View.readPage,bind_ok,pure_ok,Prod.mk.injEq] at paged
      obtain ⟨⟨records,filled⟩,fill,checked,_,rfl,rfl⟩ := paged
      rw [← pageBytes_nil] at fill
      obtain ⟨⟨taken,rest,fresh,split,same,reads,few,stands,ends,nonempty⟩,sized,failed,rewound⟩ :=
        fill_ok (reading.stands.flags false false checks) rfl fill
      rw [List.nil_append] at same
      subst same
      exact ⟨taken,rest,split,reads,few,sized,stands.flags _ _ _,rfl,ends,nonempty room rfl,failed,rewound⟩

structure Complete (view : View) (total : ℕ) (items : List Item) (pages : List View.Page) (state state' : State) : Prop where
  last : ∃ front last, pages = front++[last] ∧ last.done = true ∧ ∀ page ∈ front, page.done = false ∧ page.records ≠ []
  limits : ∀ page ∈ pages, page.records.length ≤ view.limits.pageRows ∧
    (page.records = [] ∨ pageBytes page.records ≤ view.limits.pageBytes)
  reads : List.Forall₂ view.Reads items (pages.flatMap (·.records))
  total : total = view.family.admitted
  done : state'.done = true
  failed : state'.failed = false
  rewound : state'.rewound = state.rewound

theorem readAll_ok {fuel : ℕ} {pages : List View.Page} (room : 0 < view.limits.pageRows)
    (reading : Reading view total items state) (enough : view.limits.records+items.length < fuel+total)
    (ok : view.readAll fuel state = .ok (pages,state')) : Complete view total items pages state state' := by
  induction fuel generalizing state items pages with
  | zero =>
    have few : (leftItems view.db state.remaining state.place).length ≤ items.length := by
      have left := reading.stands.left
      split at left
      next => exact left ▸ le_rfl
      next =>
        obtain ⟨item,rfl,_⟩ := left
        simp
    have := reading.stands.total
    have := reading.stands.bounded
    omega
  | succ fuel ih =>
    unfold View.readAll at ok
    split at ok
    next => cases ok
    next page next read =>
      obtain ⟨taken,rest,paged⟩ := read_ok room reading read
      obtain ⟨split,reads,few,sized,stands,done,ends,nonempty,failed,rewound⟩ := paged
      split at ok
      next last =>
        cases ok
        obtain ⟨rfl,complete⟩ := ends (done ▸ last)
        refine ⟨⟨[],page,rfl,last,nofun⟩,?_,?_,complete,done ▸ last,failed,rewound⟩
        · intro other inside
          obtain rfl := List.mem_singleton.mp inside
          exact ⟨few,sized⟩
        · rw [split]
          simpa using reads
      next more =>
        have open_ : next.done = false := by simpa [done] using more
        rw [bind_ok] at ok
        obtain ⟨⟨others,final⟩,later,ok⟩ := ok
        cases ok
        have some_ : 0 < page.records.length := List.length_pos_iff.mpr (nonempty open_)
        have shorter : items.length = page.records.length+rest.length := by
          rw [split,List.length_append,reads.length_eq]
        obtain ⟨⟨front,last,rfl,ended,before⟩,limits,reads',complete,done',failed',rewound'⟩ :=
          ih ⟨stands,open_,failed⟩ (by omega) later
        refine ⟨⟨page::front,last,rfl,ended,?_⟩,List.forall_mem_cons.mpr ⟨⟨few,sized⟩,limits⟩,?_,complete,done',failed',
          rewound'.trans rewound⟩
        · exact List.forall_mem_cons.mpr ⟨⟨done.trans open_,nonempty open_⟩,before⟩
        · rw [split,List.flatMap_cons]
          exact List.rel_append reads reads'

end States
end ATape.OpenCode
