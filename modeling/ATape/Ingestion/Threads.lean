import ATape.Ingestion.Prepared

/-! The thread lists that a batch may carry: those that name one rooted tree, in any order. -/
namespace ATape.Ingestion
open Foundation Go SourceIdentity Relation

/-- A thread names another as its parent. -/
def Parent (threads : List Thread) (a b : String) : Prop :=
  ∃ t ∈ threads, t.sourceThreadID = a ∧ t.parentSourceThreadID = some b

structure RootedTree (threads : List Thread) : Prop where
  valid : ∀ t ∈ threads, trimSpace t.sourceThreadID ≠ "" ∧ len t.sourceThreadID ≤ 500
  distinct : (threads.map (·.sourceThreadID)).Nodup
  root : threads.countP (fun t => t.parentSourceThreadID.isNone) = 1
  parents : ∀ t ∈ threads, ∀ p, t.parentSourceThreadID = some p → p ∈ threads.map (·.sourceThreadID)
  acyclic : ∀ id, ¬TransGen (Parent threads) id id

theorem above_parent {threads : List Thread} (distinct : (threads.map (·.sourceThreadID)).Nodup) (a b : String) :
    Forest.Above (parentOf threads) a b ↔ Parent threads a b := by
  constructor
  · intro up
    obtain ⟨t,found,parent⟩ := Option.bind_eq_some_iff.mp up
    exact ⟨t,List.mem_reverse.mp (List.mem_of_find?_eq_some found),by simpa using List.find?_some found,parent⟩
  · rintro ⟨t,member,rfl,parent⟩
    rw [Forest.Above,parentOf_mem distinct member,parent]

theorem cycle_parent {threads : List Thread} (distinct : (threads.map (·.sourceThreadID)).Nodup) (id : String) :
    TransGen (Forest.Above (parentOf threads)) id id ↔ TransGen (Parent threads) id id := by
  have same : Forest.Above (parentOf threads) = Parent threads := by
    ext a b
    exact above_parent distinct a b
  rw [same]

/-! The walks. -/

theorem threadCycle_cycle {order : List String} {threads : List Thread} (found : threadCycle order threads ≠ "") :
    ∃ id, TransGen (Forest.Above (parentOf threads)) id id := by
  unfold threadCycle at found
  cases repeated : order.findSome? (fun id => cycleFrom threads (threads.length+1) [] id) with
  | none =>
    rw [repeated] at found
    exact absurd rfl found
  | some a =>
    obtain ⟨id,_,walked⟩ := List.exists_of_findSome?_eq_some repeated
    exact ⟨a,(walk_parents threads id).cycle (by simp) walked⟩

theorem threadCycle_iff {order : List String} {threads : List Thread}
    (every : ∀ id, id ∈ order ↔ id ∈ threads.map (·.sourceThreadID))
    (unnamed : ¬TransGen (Forest.Above (parentOf threads)) "" "") :
    threadCycle order threads ≠ "" ↔ ∃ id, TransGen (Forest.Above (parentOf threads)) id id := by
  constructor
  · exact threadCycle_cycle
  · intro found nothing
    obtain ⟨id,cycle⟩ := found
    obtain ⟨t,member,named⟩ := cycle_listed cycle
    have walked := threadCycle_empty unnamed nothing id ((every id).mpr (List.mem_map.mpr ⟨t,member,named⟩))
    obtain ⟨n,rooted⟩ := (walk_parents threads id).rooted walked
    exact rooted.acyclic cycle

/-! Acceptance. -/

theorem collectThreadIDs_fresh {h : Hash} {scope : String} {index : Nat} {ids : Table String String}
    {threads : List Thread} (valid : ∀ t ∈ threads, trimSpace t.sourceThreadID ≠ "" ∧ len t.sourceThreadID ≤ 500)
    (distinct : (threads.map (·.sourceThreadID)).Nodup) (fresh : ∀ t ∈ threads, ids.lookup t.sourceThreadID = none) :
    ∃ ids', collectThreadIDs h scope index ids threads = .ok ids' := by
  induction threads generalizing index ids with
  | nil => exact ⟨ids,rfl⟩
  | cons thread others ih =>
    rw [List.map_cons,List.nodup_cons] at distinct
    have unknown := fresh thread List.mem_cons_self
    have later : ∀ t ∈ others,
        (ids.insert thread.sourceThreadID (threadID h scope thread)).lookup t.sourceThreadID = none := by
      intro t member
      have apart : t.sourceThreadID ≠ thread.sourceThreadID := by
        intro same
        exact distinct.1 (List.mem_map.mpr ⟨t,member,same⟩)
      rw [Table.lookup_insert,if_neg apart]
      exact fresh t (List.mem_cons_of_mem _ member)
    have rest : ∃ ids', collectThreadIDs h scope (index+1)
        (ids.insert thread.sourceThreadID (threadID h scope thread)) others = .ok ids' :=
      ih (fun t member => valid t (List.mem_cons_of_mem _ member)) distinct.2 later
    obtain ⟨ids',gathered⟩ := rest
    refine ⟨ids',?_⟩
    simp only [collectThreadIDs,bind_ok,required_ok,failWhen_ok,exists_const]
    exact ⟨valid thread List.mem_cons_self,by simp [unknown],gathered⟩

theorem checkParents_known {ids : Table String String} {index : Nat} {threads : List Thread}
    (apart : ∀ t ∈ threads, t.parentSourceThreadID ≠ some t.sourceThreadID)
    (known : ∀ t ∈ threads, ∀ p, t.parentSourceThreadID = some p → (ids.lookup p).isSome = true) :
    checkParents ids index threads = .ok () := by
  induction threads generalizing index with
  | nil => rfl
  | cons thread others ih =>
    have rest : checkParents ids (index+1) others = .ok () :=
      ih (fun t member => apart t (List.mem_cons_of_mem _ member))
        (fun t member => known t (List.mem_cons_of_mem _ member))
    simp only [checkParents,bind_ok,failWhen_ok,exists_const]
    refine ⟨apart thread List.mem_cons_self,?_,rest⟩
    cases parent : thread.parentSourceThreadID with
    | none => simp
    | some p =>
      have present := known thread List.mem_cons_self p parent
      simpa [Option.isSome_iff_ne_none] using present

theorem RootedTree.accepted {threads : List Thread} (tree : RootedTree threads) (h : Hash) (scope : String) :
    ∃ ids, normalizeThreadIDs h scope threads = .ok ids := by
  have collected : ∃ ids, collectThreadIDs h scope 0 ∅ threads = .ok ids :=
    collectThreadIDs_fresh tree.valid tree.distinct (by simp)
  obtain ⟨ids,gathered⟩ := collected
  obtain ⟨_,_,found⟩ := collectThreadIDs_ok gathered
  have known : ∀ t ∈ threads, ∀ p, t.parentSourceThreadID = some p → (ids.lookup p).isSome = true := by
    intro t member p parent
    obtain ⟨t',member',named⟩ := List.mem_map.mp (tree.parents t member p parent)
    simp only [found p,AList.lookup_empty,Option.or_none,Option.isSome_map]
    rw [List.find?_isSome]
    exact ⟨t',member',by simpa using named⟩
  have apart : ∀ t ∈ threads, t.parentSourceThreadID ≠ some t.sourceThreadID := by
    intro t member itself
    exact tree.acyclic t.sourceThreadID (.single ⟨t,member,rfl,itself⟩)
  have acyclic : threadCycle (threads.map (·.sourceThreadID)) threads = "" := by
    by_contra repeated
    obtain ⟨id,cycle⟩ := threadCycle_cycle repeated
    exact tree.acyclic id ((cycle_parent tree.distinct id).mp cycle)
  refine ⟨ids,?_⟩
  simp only [normalizeThreadIDs,bind_ok,failWhen_ok,pure_ok,exists_const]
  exact ⟨ids,gathered,by simp [tree.root],(),checkParents_known apart known,by simp [acyclic],rfl⟩

theorem normalizeThreadIDs_tree {h : Hash} {scope : String} {threads : List Thread} {ids : Table String String}
    (ok : normalizeThreadIDs h scope threads = .ok ids) : RootedTree threads := by
  have tree := normalizeThreadIDs_ok ok
  simp only [normalizeThreadIDs,bind_ok,failWhen_ok,exists_const,not_not] at ok
  obtain ⟨_,gathered,single,_⟩ := ok
  refine ⟨collectThreadIDs_valid gathered,tree.distinct,single,?_,?_⟩
  · intro t member p parent
    obtain ⟨t',member',named⟩ := tree.parents t member p parent
    exact List.mem_map.mpr ⟨t',member',named⟩
  · intro id cycle
    have walked := (cycle_parent tree.distinct id).mpr cycle
    obtain ⟨t,member,rfl⟩ := cycle_listed walked
    obtain ⟨n,rooted⟩ := tree.rooted t member
    exact rooted.acyclic walked

/-! The order. -/

theorem RootedTree.perm {threads threads' : List Thread} (tree : RootedTree threads) (same : threads.Perm threads') :
    RootedTree threads' := by
  have names := same.map (·.sourceThreadID)
  have parent : Parent threads' = Parent threads := by
    ext a b
    simp only [Parent,same.mem_iff]
  constructor
  · intro t member
    exact tree.valid t (same.mem_iff.mpr member)
  · exact names.nodup_iff.mp tree.distinct
  · rw [← same.countP_eq]
    exact tree.root
  · intro t member p up
    exact names.mem_iff.mp (tree.parents t (same.mem_iff.mpr member) p up)
  · rw [parent]
    exact tree.acyclic

theorem Threaded.lookup_perm {h : Hash} {scope : String} {threads threads' : List Thread} {ids ids' : Table String String}
    (tree : Threaded h scope threads ids) (tree' : Threaded h scope threads' ids') (same : threads.Perm threads')
    {k id : String} (known : ids.lookup k = some id) : ids'.lookup k = some id := by
  obtain ⟨t,member,rfl⟩ := tree.source k id known
  rw [tree.mapped t member] at known
  rw [tree'.mapped t (same.mem_iff.mp member),known]

theorem Threaded.perm {h : Hash} {scope : String} {threads threads' : List Thread} {ids ids' : Table String String}
    (tree : Threaded h scope threads ids) (tree' : Threaded h scope threads' ids') (same : threads.Perm threads')
    (k : String) : ids'.lookup k = ids.lookup k := by
  ext id
  exact ⟨tree'.lookup_perm tree same.symm,tree.lookup_perm tree' same⟩

/-- A thread list is accepted iff it names a rooted tree. Every walk over the parents ends; away from the empty name,
which no accepted list has, a cycle is reported exactly where there is one, in whatever order the walks start. The order
of the threads is of no account. -/
theorem threads_accepted (h : Hash) (scope : String) (threads : List Thread) :
    ((∃ ids, normalizeThreadIDs h scope threads = .ok ids) ↔ RootedTree threads) ∧
    (∀ id, Forest.Walk (parentOf threads) [] id (cycleFrom threads (threads.length+1) [] id)) ∧
    (∀ order : List String, (∀ id, id ∈ order ↔ id ∈ threads.map (·.sourceThreadID)) →
      ¬TransGen (Forest.Above (parentOf threads)) "" "" →
      (threadCycle order threads ≠ "" ↔ ∃ id, TransGen (Forest.Above (parentOf threads)) id id)) ∧
    ∀ threads', threads.Perm threads' → ∀ ids, normalizeThreadIDs h scope threads = .ok ids →
      ∃ ids', normalizeThreadIDs h scope threads' = .ok ids' ∧ ∀ k, ids'.lookup k = ids.lookup k := by
  refine ⟨⟨?_,?_⟩,walk_parents threads,?_,?_⟩
  · intro accepted
    obtain ⟨ids,ok⟩ := accepted
    exact normalizeThreadIDs_tree ok
  · intro tree
    exact tree.accepted h scope
  · intro order every unnamed
    exact threadCycle_iff every unnamed
  · intro threads' same ids ok
    obtain ⟨ids',ok'⟩ := ((normalizeThreadIDs_tree ok).perm same).accepted h scope
    exact ⟨ids',ok',(normalizeThreadIDs_ok ok).perm (normalizeThreadIDs_ok ok') same⟩

theorem threads_accepted_loop :
    threadCycle ["child","main"] [⟨"main",none,1,"","",""⟩,⟨"child",some "child",1,"","",""⟩] ≠ "" ∧
      ∃ id, TransGen (Forest.Above (parentOf [⟨"main",none,1,"","",""⟩,⟨"child",some "child",1,"","",""⟩])) id id := by
  have found : threadCycle ["child","main"] [⟨"main",none,1,"","",""⟩,⟨"child",some "child",1,"","",""⟩] ≠ "" := by
    decide
  refine ⟨found,((threads_accepted (.table []) "scope" _).2.2.1 ["child","main"] ?_ ?_).mp found⟩
  · intro id
    simp [or_comm]
  · intro cycle
    obtain ⟨t,member,blank⟩ := cycle_listed cycle
    simp at member
    rcases member with rfl | rfl <;> simp at blank

/-- A thread of the empty name that is its own parent: the walk returns that name, which reads as no cycle. -/
theorem threads_blank : ∃ threads : List Thread, threadCycle (threads.map (·.sourceThreadID)) threads = "" ∧
    TransGen (Forest.Above (parentOf threads)) "" "" := by
  let blank : Thread := ⟨"",some "",1,"","",""⟩
  exact ⟨[blank],by decide,.single rfl⟩

end ATape.Ingestion
