import ATape.Foundation.Segments
import ATape.Raw.Memory

/-! What the manifest is for: each generation of an object is a text that grows at its
end until its last chunk closes it, and each chunk is known by one identifier. -/
namespace ATape.RawArchive
open Foundation Go

/-- The chunks of a generation, numbered from one and each where the one before ends,
with their number and their size. -/
structure GenerationState.Contiguous (g : GenerationState) (objectID : String) (n : Int) : Prop where
  number : g.record.generation = n
  ordinals : g.chunks.map ChunkRecord.ordinal = List.range' 1 g.chunks.length
  tiled : Segments.Tiled ChunkRecord.offset ChunkRecord.sizeBytes 0 g.chunks
  size : g.record.sizeBytes = Segments.length ChunkRecord.sizeBytes g.chunks
  count : g.record.chunkCount = g.chunks.length
  own : ∀ c ∈ g.chunks, c.objectID = objectID ∧ c.generation = n

structure GenerationState.Open (g : GenerationState) (objectID : String) (n : Int) : Prop
    extends g.Contiguous objectID n where
  unfinished : ∀ c ∈ g.chunks, c.final = false

/-- A generation with chunks, of which the last may be final: the generation is
finalized exactly when it is. -/
structure GenerationState.Sound (g : GenerationState) (objectID : String) (n : Int) : Prop
    extends g.Contiguous objectID n where
  ends : ∃ front last, g.chunks = front++[last] ∧ g.record.finalized = last.final ∧
    ∀ c ∈ front, c.final = false

/-- An object whose generations are numbered from one to the current one. -/
structure ObjectState.Sound (o : ObjectState) (objectID : String) : Prop where
  named : o.record.objectID = objectID
  generations : ∀ n, (o.generations.lookup n).isSome ↔ 1 ≤ n ∧ n ≤ o.record.currentGeneration
  started : 1 ≤ o.record.currentGeneration
  counted : o.record.generationCount = o.record.currentGeneration
  each : ∀ n g, o.generations.lookup n = some g → g.Sound objectID n
  current : ∀ g, o.generations.lookup o.record.currentGeneration = some g →
    o.record.currentSizeBytes = g.record.sizeBytes ∧ o.record.currentFinalized = g.record.finalized

def ObjectState.chunksAt (o : ObjectState) (n : Int) : List ChunkRecord :=
  match o.generations.lookup n with
  | some g => g.chunks
  | none => []

def MemoryStore.chunksAt (s : MemoryStore) (objectID : String) (n : Int) : List ChunkRecord :=
  match s.objects.lookup objectID with
  | some o => o.chunksAt n
  | none => []

structure MemoryStore.Sound (s : MemoryStore) : Prop where
  objects : ∀ id o, s.objects.lookup id = some o → o.Sound id
  chunks : ∀ id c, s.chunkIDs.lookup id = some c ↔ c.chunkID = id ∧ c ∈ s.chunksAt c.objectID c.generation
  alike : ∀ id o, s.objects.lookup id = some o → ∀ n, ∀ c ∈ o.chunksAt n,
    MemoryStore.sameObjectIdentity o.record c = true

theorem GenerationState.Sound.open {g : GenerationState} {id : String} {n : Int} (sound : g.Sound id n)
    (unfinished : g.record.finalized = false) : g.Open id n := by
  refine ⟨sound.toContiguous,?_⟩
  obtain ⟨front,last,split,closed,earlier⟩ := sound.ends
  intro c member
  rw [split] at member
  rcases List.mem_append.mp member with before | here
  · exact earlier c before
  · rw [List.mem_singleton.mp here,← closed]
    exact unfinished

theorem GenerationState.open_empty (id : String) (n : Int) : GenerationState.Open ⟨⟨n,0,0,false⟩,[]⟩ id n :=
  ⟨⟨rfl,rfl,trivial,rfl,rfl,by simp⟩,by simp⟩

theorem GenerationState.Open.extend {g : GenerationState} {id : String} {n : Int} (before : g.Open id n)
    {chunk : ChunkRecord} (object : chunk.objectID = id) (generation : chunk.generation = n)
    (place : chunk.offset = g.record.sizeBytes) : (g.extend chunk).Sound id n where
  number := before.number
  ordinals := by
    simp only [GenerationState.extend,List.map_append,List.map_cons,List.map_nil,List.length_append,
      List.length_cons,List.length_nil,before.ordinals,before.count]
    rw [List.range'_concat]
    simp [Nat.add_comm]
  tiled := by
    apply Segments.tiled_append.mpr
    refine ⟨before.tiled,?_,trivial⟩
    rw [place,before.size]
    omega
  size := by simp [GenerationState.extend,before.size]
  count := by simp [GenerationState.extend,before.count]
  own := by
    intro c member
    rcases List.mem_append.mp member with old | new
    · exact before.own c old
    · rw [List.mem_singleton.mp new]
      exact ⟨object,generation⟩
  ends := ⟨g.chunks,_,rfl,rfl,before.unfinished⟩

/-- An object that a chunk of a generation may be appended to: the generation is the
current one, and the earlier ones are as they were. -/
structure ObjectState.Ready (o : ObjectState) (objectID : String) (n : Int) (g : GenerationState) : Prop where
  named : o.record.objectID = objectID
  here : o.generations.lookup n = some g
  others : ∀ m, m ≠ n → ((o.generations.lookup m).isSome ↔ 1 ≤ m ∧ m < n)
  started : 1 ≤ n
  current : o.record.currentGeneration = n
  counted : o.record.generationCount = n
  each : ∀ m g', m ≠ n → o.generations.lookup m = some g' → g'.Sound objectID m

theorem ObjectState.Sound.ready {o : ObjectState} {id : String} {n : Int} {g : GenerationState} (sound : o.Sound id)
    (current : n = o.record.currentGeneration) (here : o.generations.lookup n = some g) : o.Ready id n g where
  named := sound.named
  here := here
  others := by
    intro m apart
    rw [sound.generations]
    omega
  started := by
    rw [current]
    exact sound.started
  current := current.symm
  counted := by rw [sound.counted,current]
  each := fun m g' _ found => sound.each m g' found

theorem ObjectState.Sound.advance {o : ObjectState} {id : String} {n : Int} (sound : o.Sound id)
    (next : n = o.record.currentGeneration+1) : (o.advance n).Ready id n ⟨⟨n,0,0,false⟩,[]⟩ where
  named := sound.named
  here := by simp [ObjectState.advance]
  others := by
    intro m apart
    simp only [ObjectState.advance,Table.lookup_insert,if_neg apart,sound.generations]
    omega
  started := by
    have := sound.started
    omega
  current := rfl
  counted := by
    rw [next,← sound.counted]
    rfl
  each := by
    intro m g' apart found
    simp only [ObjectState.advance,Table.lookup_insert,if_neg apart] at found
    exact sound.each m g' found

theorem newObject_ready (now : Time) {chunk : ChunkRecord} (first : chunk.generation = 1) :
    (MemoryStore.newObject now chunk).Ready chunk.objectID chunk.generation ⟨⟨chunk.generation,0,0,false⟩,[]⟩ where
  named := rfl
  here := by simp only [MemoryStore.newObject,Table.lookup_insert,first,if_true]
  others := by
    intro m apart
    rw [first] at apart ⊢
    simp only [MemoryStore.newObject,Table.lookup_insert,if_neg apart,AList.lookup_empty,Option.isSome_none,
      Bool.false_eq_true,false_iff]
    omega
  started := by rw [first]
  current := first.symm
  counted := first.symm
  each := by
    intro m g' apart found
    rw [first] at apart
    simp only [MemoryStore.newObject,Table.lookup_insert,if_neg apart,AList.lookup_empty] at found
    cases found

theorem ObjectState.Ready.extend {o : ObjectState} {id : String} {n : Int} {g : GenerationState} (ready : o.Ready id n g)
    (before : g.Open id n) {chunk : ChunkRecord} (object : chunk.objectID = id) (generation : chunk.generation = n)
    (place : chunk.offset = g.record.sizeBytes) : (o.extend g chunk).Sound id where
  named := ready.named
  generations := by
    intro m
    simp only [ObjectState.extend,Table.lookup_insert,generation,ready.current]
    by_cases same : m = n
    · rw [if_pos same]
      have := ready.started
      simp only [Option.isSome_some,true_iff]
      omega
    · rw [if_neg same,ready.others m same]
      omega
  started := by
    have := ready.started
    rwa [← ready.current] at this
  counted := by
    simp only [ObjectState.extend]
    rw [ready.counted,ready.current]
  each := by
    intro m g' found
    simp only [ObjectState.extend,Table.lookup_insert,generation] at found
    by_cases same : m = n
    · rw [if_pos same] at found
      cases found
      subst same
      exact before.extend object generation place
    · rw [if_neg same] at found
      exact ready.each m g' same found
  current := by
    intro g' found
    simp only [ObjectState.extend,ready.current,Table.lookup_insert,generation,if_true,Option.some.injEq] at found
    subst found
    exact ⟨rfl,rfl⟩

theorem ObjectState.chunksAt_insert (record : ObjectRecord) (generations : Table Int GenerationState) (n m : Int)
    (g : GenerationState) : ObjectState.chunksAt ⟨record,generations.insert n g⟩ m =
      if m = n then g.chunks else ObjectState.chunksAt ⟨record,generations⟩ m := by
  unfold ObjectState.chunksAt
  by_cases same : m = n
  · simp only [Table.lookup_insert,if_pos same]
  · simp only [Table.lookup_insert,if_neg same]

namespace MemoryStore

theorem mem_chunksAt {s : MemoryStore} {id : String} {n : Int} {c : ChunkRecord} (member : c ∈ s.chunksAt id n) :
    ∃ o g, s.objects.lookup id = some o ∧ o.generations.lookup n = some g ∧ c ∈ g.chunks := by
  unfold chunksAt at member
  cases found : s.objects.lookup id with
  | none =>
    rw [found] at member
    cases member
  | some o =>
    rw [found] at member
    unfold ObjectState.chunksAt at member
    cases here : o.generations.lookup n with
    | none =>
      simp only [here] at member
      cases member
    | some g =>
      simp only [here] at member
      exact ⟨o,g,rfl,here,member⟩

/-- An object that is ready for a chunk, and what it keeps of the store it comes from. -/
structure Opened (s : MemoryStore) (chunk : ChunkRecord) (o : ObjectState) (g : GenerationState) : Prop where
  ready : o.Ready chunk.objectID chunk.generation g
  unfinished : g.record.finalized = false → g.Open chunk.objectID chunk.generation
  kept : ∀ m, o.chunksAt m = s.chunksAt chunk.objectID m
  alike : sameObjectIdentity o.record chunk = true
  others : ∀ m, ∀ c ∈ o.chunksAt m, sameObjectIdentity o.record c = true

theorem openGeneration_ok {s s' : MemoryStore} {now : Time} {chunk : ChunkRecord} {o : ObjectState} (sound : s.Sound)
    (ok : s.openGeneration now chunk = .ok (s',o)) :
    ∃ g, s.Opened chunk o g ∧ (s' = s ∨ s' = {s with objects := s.objects.insert chunk.objectID o} ∧
      g.record.finalized = false ∧ chunk.offset = g.record.sizeBytes) := by
  unfold openGeneration at ok
  cases held : s.objects.lookup chunk.objectID with
  | none =>
    simp only [held,bind_ok,failWhen_ok,exists_const,Except.ok.injEq,Prod.mk.injEq,Bool.or_eq_true,
      decide_eq_true_eq,not_or,not_not] at ok
    obtain ⟨⟨first,start⟩,rfl,rfl⟩ := ok
    have absent : ∀ m, s.chunksAt chunk.objectID m = [] := by
      intro m
      simp only [chunksAt,held]
    have empty : ∀ m, (newObject now chunk).chunksAt m = [] := by
      intro m
      rw [newObject,ObjectState.chunksAt_insert]
      split <;> rfl
    refine ⟨⟨⟨chunk.generation,0,0,false⟩,[]⟩,⟨newObject_ready now first,fun _ => GenerationState.open_empty _ _,
      fun m => (empty m).trans (absent m).symm,?_,?_⟩,.inr ⟨rfl,rfl,start⟩⟩
    · simp [sameObjectIdentity,newObject]
    · intro m c member
      rw [empty] at member
      cases member
  | some old =>
    have known := sound.objects _ _ held
    simp only [held,bind_ok,failWhen_ok,exists_const,Bool.and_eq_true,decide_eq_true_eq,not_and,not_not,
      Bool.not_eq_true',Bool.not_eq_false] at ok
    obtain ⟨alike,young,near,start,ok⟩ := ok
    by_cases next : chunk.generation = old.record.currentGeneration+1
    · simp only [if_pos next,Except.ok.injEq,Prod.mk.injEq] at ok
      obtain ⟨rfl,rfl⟩ := ok
      have kept : ∀ m, (old.advance chunk.generation).chunksAt m = old.chunksAt m := by
        intro m
        rw [ObjectState.advance,ObjectState.chunksAt_insert]
        split
        next same =>
          subst same
          have absent : ¬ (old.generations.lookup chunk.generation).isSome := by
            rw [known.generations]
            omega
          simp only [ObjectState.chunksAt,Option.not_isSome_iff_eq_none.mp absent]
        next => rfl
      refine ⟨⟨⟨chunk.generation,0,0,false⟩,[]⟩,⟨known.advance next,fun _ => GenerationState.open_empty _ _,?_,?_,?_⟩,
        .inr ⟨rfl,rfl,start next⟩⟩
      · intro m
        rw [kept]
        simp only [chunksAt,held]
      · exact alike
      · intro m c member
        rw [kept] at member
        exact sound.alike _ _ held m c member
    · simp only [if_neg next,Except.ok.injEq,Prod.mk.injEq] at ok
      obtain ⟨rfl,rfl⟩ := ok
      have current : chunk.generation = old.record.currentGeneration := by omega
      have inside : (old.generations.lookup chunk.generation).isSome := by
        rw [known.generations,current]
        exact ⟨known.started,Int.le_refl _⟩
      obtain ⟨g,here⟩ := Option.isSome_iff_exists.mp inside
      refine ⟨g,⟨known.ready current here,(known.each _ _ here).open,?_,alike,sound.alike _ _ held⟩,.inl rfl⟩
      intro m
      simp only [chunksAt,held]

/-- What a commit does: it fails and leaves the store, it is a replay and leaves the
store, or it puts the chunk at the end of its generation. -/
theorem commitLocked_cases {s : MemoryStore} (sound : s.Sound) (now : Time) (chunk : ChunkRecord) :
    (∃ failure, s.commitLocked now chunk = (s,.error failure)) ∨
      (∃ existing o g, s.chunkIDs.lookup chunk.chunkID = some existing ∧ sameChunk existing chunk = true ∧
        s.commitLocked now chunk = (s,.ok ⟨o,g,true⟩)) ∨
      ∃ o g, s.chunkIDs.lookup chunk.chunkID = none ∧ s.Opened chunk o g ∧ g.record.finalized = false ∧
        chunk.offset = g.record.sizeBytes ∧
        s.commitLocked now chunk =
          ({s with
              objects := s.objects.insert chunk.objectID (o.extend g chunk)
              chunkIDs := s.chunkIDs.insert chunk.chunkID {chunk with ordinal := g.record.chunkCount+1}},
            .ok ⟨(o.extend g chunk).record,(g.extend chunk).record,false⟩) := by
  unfold commitLocked
  cases known : s.chunkIDs.lookup chunk.chunkID with
  | some existing =>
    by_cases same : sameChunk existing chunk = true
    · obtain ⟨_,member⟩ := (sound.chunks _ _).mp known
      obtain ⟨o,g,object,generation,_⟩ := mem_chunksAt member
      refine .inr (.inl ⟨existing,o.record,g.record,rfl,same,?_⟩)
      simp [same,object,generation]
    · exact .inl ⟨_,by simp only [same]; rfl⟩
  | none =>
    cases opened : s.openGeneration now chunk with
    | error failure => exact .inl ⟨failure,by simp only⟩
    | ok found =>
      obtain ⟨s',o⟩ := found
      obtain ⟨g,fits,left⟩ := openGeneration_ok sound opened
      simp only [appendChunk,fits.ready.here]
      by_cases finalized : g.record.finalized = true
      · rcases left with rfl | ⟨_,open_,_⟩
        · exact .inl ⟨_,by rw [if_pos finalized]⟩
        · rw [finalized] at open_
          cases open_
      · by_cases place : chunk.offset = g.record.sizeBytes
        · refine .inr (.inr ⟨o,g,trivial,fits,by simpa using finalized,place,?_⟩)
          rcases left with rfl | ⟨rfl,_,_⟩
          · simp [finalized,place]
          · simp [finalized,place,AList.insert_insert]
        · rcases left with rfl | ⟨_,_,start⟩
          · exact .inl ⟨_,by rw [if_neg finalized,if_pos place]⟩
          · exact absurd start place

def appended (s : MemoryStore) (chunk : ChunkRecord) (o : ObjectState) (g : GenerationState) : MemoryStore :=
  {s with
    objects := s.objects.insert chunk.objectID (o.extend g chunk)
    chunkIDs := s.chunkIDs.insert chunk.chunkID {chunk with ordinal := g.record.chunkCount+1}}

theorem Opened.extend_chunksAt {s : MemoryStore} {chunk : ChunkRecord} {o : ObjectState} {g : GenerationState}
    (fits : s.Opened chunk o g) (m : Int) : (o.extend g chunk).chunksAt m =
      if m = chunk.generation then s.chunksAt chunk.objectID m++[{chunk with ordinal := g.record.chunkCount+1}]
      else s.chunksAt chunk.objectID m := by
  have kept : ∀ record, ObjectState.chunksAt ⟨record,o.generations⟩ m = s.chunksAt chunk.objectID m :=
    fun record => fits.kept m
  rw [ObjectState.extend,ObjectState.chunksAt_insert,kept]
  by_cases same : m = chunk.generation
  · rw [if_pos same,if_pos same,← fits.kept m,same]
    simp only [ObjectState.chunksAt,fits.ready.here]
    rfl
  · rw [if_neg same,if_neg same]

theorem Opened.appended_chunksAt {s : MemoryStore} {chunk : ChunkRecord} {o : ObjectState} {g : GenerationState}
    (fits : s.Opened chunk o g) (id : String) (m : Int) : (s.appended chunk o g).chunksAt id m =
      if id = chunk.objectID ∧ m = chunk.generation then
        s.chunksAt id m++[{chunk with ordinal := g.record.chunkCount+1}]
      else s.chunksAt id m := by
  by_cases same : id = chunk.objectID
  · subst same
    simp only [true_and,← fits.extend_chunksAt m]
    simp only [chunksAt,appended,Table.lookup_insert,if_true]
  · simp only [same,false_and,if_false]
    simp only [chunksAt,appended,Table.lookup_insert,if_neg same]

theorem Opened.mem_appended {s : MemoryStore} {chunk : ChunkRecord} {o : ObjectState} {g : GenerationState}
    (fits : s.Opened chunk o g) (c : ChunkRecord) : c ∈ (s.appended chunk o g).chunksAt c.objectID c.generation ↔
      c ∈ s.chunksAt c.objectID c.generation ∨ c = {chunk with ordinal := g.record.chunkCount+1} := by
  rw [fits.appended_chunksAt]
  constructor
  · intro member
    split at member
    · rcases List.mem_append.mp member with old | new
      · exact .inl old
      · exact .inr (List.mem_singleton.mp new)
    · exact .inl member
  · rintro (old | rfl)
    · split
      · exact List.mem_append_left _ old
      · exact old
    · rw [if_pos ⟨rfl,rfl⟩]
      exact List.mem_append_right _ List.mem_cons_self

theorem appended_sound {s : MemoryStore} {chunk : ChunkRecord} {o : ObjectState} {g : GenerationState} (sound : s.Sound)
    (fresh : s.chunkIDs.lookup chunk.chunkID = none) (fits : s.Opened chunk o g)
    (unfinished : g.record.finalized = false) (place : chunk.offset = g.record.sizeBytes) :
    (s.appended chunk o g).Sound where
  objects := by
    intro id o' found
    simp only [appended,Table.lookup_insert] at found
    by_cases same : id = chunk.objectID
    · rw [if_pos same] at found
      cases found
      rw [same]
      exact fits.ready.extend (fits.unfinished unfinished) rfl rfl place
    · rw [if_neg same] at found
      exact sound.objects id o' found
  chunks := by
    intro id c
    rw [fits.mem_appended]
    simp only [appended,Table.lookup_insert]
    by_cases same : id = chunk.chunkID
    · rw [if_pos same,Option.some.injEq]
      constructor
      · rintro rfl
        exact ⟨same.symm,.inr rfl⟩
      · rintro ⟨named,old | rfl⟩
        · have listed := (sound.chunks chunk.chunkID c).mpr ⟨named.trans same,old⟩
          rw [fresh] at listed
          cases listed
        · rfl
    · rw [if_neg same,sound.chunks]
      constructor
      · rintro ⟨named,old⟩
        exact ⟨named,.inl old⟩
      · rintro ⟨named,old | rfl⟩
        · exact ⟨named,old⟩
        · exact absurd named.symm same
  alike := by
    intro id o' found n c member
    simp only [appended,Table.lookup_insert] at found
    by_cases same : id = chunk.objectID
    · rw [if_pos same] at found
      cases found
      change sameObjectIdentity o.record c = true
      rw [fits.extend_chunksAt,← fits.kept n] at member
      split at member
      · rcases List.mem_append.mp member with old | new
        · exact fits.others n c old
        · rw [List.mem_singleton.mp new]
          exact fits.alike
      · exact fits.others n c member
    · rw [if_neg same] at found
      exact sound.alike id o' found n c member

theorem commitLocked_sound {s : MemoryStore} (sound : s.Sound) (now : Time) (chunk : ChunkRecord) :
    (s.commitLocked now chunk).1.Sound := by
  rcases commitLocked_cases sound now chunk with ⟨_,same⟩ | ⟨_,_,_,_,_,same⟩ | ⟨o,g,fresh,fits,open_,place,same⟩
  · rw [same]
    exact sound
  · rw [same]
    exact sound
  · rw [same]
    exact appended_sound sound fresh fits open_ place

theorem commitLocked_keeps {s : MemoryStore} (sound : s.Sound) (now : Time) (chunk : ChunkRecord) {id : String}
    {c : ChunkRecord} (known : s.chunkIDs.lookup id = some c) :
    (s.commitLocked now chunk).1.chunkIDs.lookup id = some c := by
  rcases commitLocked_cases sound now chunk with ⟨_,same⟩ | ⟨_,_,_,_,_,same⟩ | ⟨o,g,fresh,_,_,_,same⟩
  · rw [same]
    exact known
  · rw [same]
    exact known
  · rw [same]
    have apart : id ≠ chunk.chunkID := by
      rintro rfl
      rw [fresh] at known
      cases known
    simp only [Table.lookup_insert,if_neg apart]
    exact known

theorem new_sound : new.Sound where
  objects := by simp [new]
  chunks := by simp [new,chunksAt]
  alike := by simp [new]

end MemoryStore
end ATape.RawArchive
