import ATape.Codex.Events

/-! The order of the events of a session over all passes: each file keeps its rank, so that a place in a file has one
order for good, and no two places of a session share one. -/
namespace ATape.Codex
open Foundation

/-- A pass assigns the files of some snapshots, as for a cursor from before the ranks, or collects a session. A pass that
fails leaves the cursor as it was. -/
inductive Pass (Usage : Type)
  | assign (snapshots : List Snapshot)
  | collect (collection : Collection Usage)

structure Collected (Usage : Type) where
  collection : Collection Usage
  sourceRanks : SourceRanks
  page : EventPage Usage

variable {Usage : Type}

def pass (registry : SourceRanks) : Pass Usage → SourceRanks × List (Collected Usage)
  | .assign snapshots =>
    match assignSourceRanks (some registry) snapshots with
    | .ok sourceRanks => (sourceRanks,[])
    | .error _ => (registry,[])
  | .collect c =>
    match collectSafeSession registry c with
    | .ok (sourceRanks,page) => (sourceRanks,[⟨{c with active := ranked sourceRanks c.active},sourceRanks,page⟩])
    | .error _ => (registry,[])

def after (registry : SourceRanks) : List (Pass Usage) → SourceRanks
  | [] => registry
  | step::passes => after (pass registry step).1 passes

def pages (registry : SourceRanks) : List (Pass Usage) → List (Collected Usage)
  | [] => []
  | step::passes => (pass registry step).2++pages (pass registry step).1 passes

structure Ranking (d : Collected Usage) : Prop where
  registered : Registered d.sourceRanks
  files : ∀ file ∈ d.collection.active.files, file.size < sourceOrderStride ∧
    ∃ rank, rankOf d.sourceRanks d.collection.active.sessionID file.key = some rank ∧ file.sourceRank = some rank
  events : ∀ e ∈ d.page.events,
    Spawned d.collection e ∨ ∃ file offset, Recorded d.collection d.sourceRanks file offset e

theorem pass_ok {registry : SourceRanks} (registered : Registered registry) (step : Pass Usage) :
    Registered (pass registry step).1 ∧ Extends registry (pass registry step).1 ∧
      ∀ d ∈ (pass registry step).2, Ranking d ∧ d.sourceRanks = (pass registry step).1 := by
  cases step with
  | assign snapshots =>
    cases assigned : assignSourceRanks (some registry) snapshots with
    | error failure =>
      have same : pass registry (.assign snapshots : Pass Usage) = (registry,[]) := by simp only [pass,assigned]
      rw [same]
      exact ⟨registered,.refl _,by simp⟩
    | ok sourceRanks =>
      have same : pass registry (.assign snapshots : Pass Usage) = (sourceRanks,[]) := by simp only [pass,assigned]
      obtain ⟨registered',longer,_⟩ := assignSnapshots_ok assigned registered
      rw [same]
      exact ⟨registered',longer,by simp⟩
  | collect c =>
    cases collected : collectSafeSession registry c with
    | error failure =>
      have same : pass registry (.collect c) = (registry,[]) := by simp only [pass,collected]
      rw [same]
      exact ⟨registered,.refl _,by simp⟩
    | ok result =>
      have same : pass registry (.collect c) =
          (result.1,[⟨{c with active := ranked result.1 c.active},result.1,result.2⟩]) := by simp only [pass,collected]
      obtain ⟨registered',longer,files,page⟩ := collectSafeSession_ok collected registered
      rw [same]
      refine ⟨registered',longer,?_⟩
      intro d member
      rw [List.mem_singleton.mp member]
      refine ⟨⟨registered',?_,collectActiveSession_all page⟩,rfl⟩
      intro file listed
      obtain ⟨file',member',rfl⟩ := List.mem_map.mp listed
      obtain ⟨small,rank,known⟩ := files file' member'
      exact ⟨small,rank,known,known⟩

theorem after_ok {registry : SourceRanks} (registered : Registered registry) (passes : List (Pass Usage)) :
    Registered (after registry passes) ∧ Extends registry (after registry passes) := by
  induction passes generalizing registry with
  | nil => exact ⟨registered,.refl _⟩
  | cons step passes ih =>
    obtain ⟨registered',longer,_⟩ := pass_ok registered step
    obtain ⟨registered'',longer'⟩ := ih registered'
    exact ⟨registered'',longer.trans longer'⟩

theorem after_append (registry : SourceRanks) (passes later : List (Pass Usage)) :
    after registry (passes++later) = after (after registry passes) later := by
  induction passes generalizing registry with
  | nil => rfl
  | cons step passes ih => exact ih _

theorem pages_ok {registry : SourceRanks} (registered : Registered registry) (passes : List (Pass Usage)) :
    ∀ d ∈ pages registry passes, Ranking d ∧ Extends d.sourceRanks (after registry passes) := by
  induction passes generalizing registry with
  | nil => simp [pages]
  | cons step passes ih =>
    obtain ⟨registered',_,here⟩ := pass_ok registered step
    intro d member
    rcases List.mem_append.mp member with first | later
    · obtain ⟨ranking,same⟩ := here d first
      rw [same]
      exact ⟨ranking,(after_ok registered' passes).2⟩
    · exact ih registered' d later

theorem recorded_order {passes : List (Pass Usage)} {d : Collected Usage} (member : d ∈ pages ∅ passes)
    {file : CursorFile} {offset : Nat} {e : AdapterEvent} (recorded : Recorded d.collection d.sourceRanks file offset e) :
    offset < sourceOrderStride ∧ ∃ rank, rankOf (after ∅ passes) d.collection.active.sessionID file.key = some rank ∧
      e.sourceOrder = some (sourceOrder rank offset) := by
  obtain ⟨ranking,longer⟩ := pages_ok registered_empty passes d member
  obtain ⟨small,rank,known,own⟩ := ranking.files file recorded.listed
  obtain ⟨_,_,_,line,mapped,_,_,_,place,_,same⟩ := recorded.line
  refine ⟨recorded.inside.trans small,rank,?_,?_⟩
  · exact rankOf_extends ranking.registered (after_ok registered_empty passes).1 longer known
  · rw [same,recordEvent,own,place]
    rfl

/-- Over any passes, no rank changes and no two files of a session share one. The order of a rank and an offset below the
stride tells both, rises with the offset and is safe. Every event tells of a child, with order zero, or comes from a line
of a file, with the order of the file's rank and the line's offset; two of the latter share an order iff they are of one
place. -/
theorem source_order (passes : List (Pass Usage)) :
    (∀ later sessionID key rank, rankOf (after ∅ passes) sessionID key = some rank →
      rankOf (after ∅ (passes++later)) sessionID key = some rank) ∧
    (∀ sessionID key key' rank, rankOf (after ∅ passes) sessionID key = some rank →
      rankOf (after ∅ passes) sessionID key' = some rank → key = key') ∧
    (∀ rank rank' offset offset', offset < sourceOrderStride → offset' < sourceOrderStride →
      (sourceOrder rank offset = sourceOrder rank' offset' ↔ rank = rank' ∧ offset = offset')) ∧
    (∀ rank offset offset', offset < offset' → sourceOrder rank offset < sourceOrder rank offset') ∧
    (∀ rank offset, rank ≤ maxSourceRanksPerSession → offset < sourceOrderStride →
      sourceOrder rank offset ≤ maxSafeInteger) ∧
    (∀ d ∈ pages ∅ passes, ∀ e ∈ d.page.events,
      Spawned d.collection e ∧ e.sourceOrder = some 0 ∨
      ∃ file offset rank, Recorded d.collection d.sourceRanks file offset e ∧ offset < sourceOrderStride ∧
        rankOf (after ∅ passes) d.collection.active.sessionID file.key = some rank ∧
        rank ≤ maxSourceRanksPerSession ∧ e.sourceOrder = some (sourceOrder rank offset)) ∧
    ∀ d ∈ pages ∅ passes, ∀ d' ∈ pages ∅ passes,
      d.collection.active.sessionID = d'.collection.active.sessionID → ∀ file file' offset offset' e e',
        Recorded d.collection d.sourceRanks file offset e → Recorded d'.collection d'.sourceRanks file' offset' e' →
        (e.sourceOrder = e'.sourceOrder ↔ file.key = file'.key ∧ offset = offset') := by
  have registered := (after_ok registered_empty passes).1
  refine ⟨?_,?_,fun _ _ _ _ => sourceOrder_inj,fun _ _ _ => sourceOrder_lt,fun _ _ => sourceOrder_safe,?_,?_⟩
  · intro later sessionID key rank known
    rw [after_append]
    obtain ⟨registered',longer⟩ := after_ok registered later
    exact rankOf_extends registered registered' longer known
  · intro sessionID key key' rank known known'
    exact (rankOf_inj registered known known').mp rfl
  · intro d member e listed
    rcases (pages_ok registered_empty passes d member).1.events e listed with spawned | ⟨file,offset,recorded⟩
    · left
      refine ⟨spawned,?_⟩
      obtain ⟨_,_,_,_,_,rfl⟩ := spawned
      rfl
    · right
      obtain ⟨inside,rank,known,order⟩ := recorded_order member recorded
      exact ⟨file,offset,rank,recorded,inside,known,(rankOf_bounds registered known).2,order⟩
  · intro d member d' member' session file file' offset offset' e e' recorded recorded'
    obtain ⟨inside,rank,known,order⟩ := recorded_order member recorded
    obtain ⟨inside',rank',known',order'⟩ := recorded_order member' recorded'
    rw [← session] at known'
    rw [order,order',Option.some_inj,sourceOrder_inj inside inside',rankOf_inj registered known known']

def twoChildren : Collection Unit where
  active := ⟨.canonical,"s",1,[],0,0,0⟩
  threads := [⟨"s",none,"main"⟩,⟨"a",some "s","first"⟩,⟨"b",some "s","second"⟩]
  currentFiles := []
  projection := ⟨fun _ => none,fun _ _ => none⟩
  eventSize := fun _ => 1
  usageSize := fun _ => 1
  canonicalBaseBytes := 0
  limits := ⟨100,100,100⟩

/-- The events of two children share the order zero. -/
theorem source_order_shared : ∃ d ∈ pages ∅ [Pass.collect twoChildren], ∃ e ∈ d.page.events, ∃ e' ∈ d.page.events,
    e ≠ e' ∧ e.sourceOrder = e'.sourceOrder := by
  have one : (pages ∅ [Pass.collect twoChildren]).any fun d => d.page.events.any fun e => d.page.events.any fun e' =>
      e ≠ e' && e.sourceOrder = e'.sourceOrder := by
    decide
  simpa using one

end ATape.Codex
