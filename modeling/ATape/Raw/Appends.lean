import ATape.Foundation.Run
import ATape.Raw.Manifest

/-! Commits in any order, by anyone: what the manifest holds after them, and the pages
that are read from it. -/
namespace ATape.RawArchive.MemoryStore
open Authorization Foundation Go

/-- A call of `CommitChunk`, with the facts of the session that it finds. -/
structure Commit where
  found : Option SessionAccessFacts
  now : Time
  principal : Principal
  chunk : ChunkRecord

/-- The chunk that a permitted call offers to the manifest. -/
def Commit.offer (c : Commit) : Except Failure ChunkRecord := do
  let access ← authorizeChunk c.found c.principal c.chunk
  .ok {c.chunk with projectID := access.projectID}

def commit (s : MemoryStore) (c : Commit) : MemoryStore × Except Failure CommitResult :=
  s.commitChunk c.found c.now c.principal c.chunk

def performs (s : MemoryStore) (calls : List Commit) : MemoryStore := calls.foldl (fun s c => (s.commit c).1) s

theorem commit_ok {s : MemoryStore} {c : Commit} {r : ChunkRecord} (offered : c.offer = .ok r) :
    s.commit c = s.commitLocked c.now r := by
  unfold Commit.offer at offered
  unfold commit commitChunk
  simp only [bind_ok,Except.ok.injEq] at offered
  obtain ⟨access,permitted,rfl⟩ := offered
  simp only [permitted]

theorem commit_refused {s : MemoryStore} {c : Commit} {failure : Failure} (refused : c.offer = .error failure) :
    s.commit c = (s,.error failure) := by
  unfold Commit.offer at refused
  unfold commit commitChunk
  cases permitted : authorizeChunk c.found c.principal c.chunk with
  | error other =>
    rw [permitted] at refused
    cases refused
    rfl
  | ok access =>
    rw [permitted] at refused
    cases refused

theorem commit_step {s : MemoryStore} (sound : s.Sound) (c : Commit) : (s.commit c).1.Sound ∧
    ∀ id r, s.chunkIDs.lookup id = some r → (s.commit c).1.chunkIDs.lookup id = some r := by
  cases offered : c.offer with
  | error failure =>
    rw [commit_refused offered]
    exact ⟨sound,fun _ _ known => known⟩
  | ok r =>
    rw [commit_ok offered]
    exact ⟨commitLocked_sound sound _ _,fun _ _ known => commitLocked_keeps sound _ _ known⟩

theorem performs_keep (calls : List Commit) {s : MemoryStore} (sound : s.Sound) : (s.performs calls).Sound ∧
    ∀ id r, s.chunkIDs.lookup id = some r → (s.performs calls).chunkIDs.lookup id = some r := by
  induction calls generalizing s with
  | nil => exact ⟨sound,fun _ _ known => known⟩
  | cons c calls ih =>
    obtain ⟨sound',keeps⟩ := commit_step sound c
    obtain ⟨last,keeps'⟩ := ih sound'
    exact ⟨last,fun id r known => keeps' id r (keeps id r known)⟩

theorem failed_commit {s : MemoryStore} (sound : s.Sound) {c : Commit} {failure : Failure}
    (failed : (s.commit c).2 = .error failure) : (s.commit c).1 = s := by
  cases offered : c.offer with
  | error other => rw [commit_refused offered]
  | ok r =>
    rw [commit_ok offered] at failed ⊢
    rcases commitLocked_cases sound c.now r with ⟨_,same⟩ | ⟨_,_,_,_,_,same⟩ | ⟨_,_,_,_,_,_,same⟩
    · rw [same]
    · rw [same]
    · rw [same] at failed
      cases failed

theorem sameChunk_ordinal (r : ChunkRecord) (n : Nat) : sameChunk {r with ordinal := n} r = true := by
  simp [sameChunk,Time.equal]

theorem committed_known {s : MemoryStore} (sound : s.Sound) {c : Commit} {r : ChunkRecord} (offered : c.offer = .ok r)
    {result : CommitResult} (ok : (s.commit c).2 = .ok result) :
    ∃ existing, (s.commit c).1.chunkIDs.lookup r.chunkID = some existing ∧ sameChunk existing r = true := by
  rw [commit_ok offered] at ok ⊢
  rcases commitLocked_cases sound c.now r with ⟨_,same⟩ | ⟨existing,_,_,known,alike,same⟩ | ⟨o,g,_,_,_,_,same⟩
  · rw [same] at ok
    cases ok
  · rw [same]
    exact ⟨existing,known,alike⟩
  · rw [same]
    exact ⟨{r with ordinal := g.record.chunkCount+1},by simp only [Table.lookup_insert,if_true],
      sameChunk_ordinal r _⟩

theorem known_replayed {s : MemoryStore} (sound : s.Sound) {c : Commit} {r existing : ChunkRecord}
    (offered : c.offer = .ok r) (known : s.chunkIDs.lookup r.chunkID = some existing)
    (alike : sameChunk existing r = true) : ∃ o g, s.commit c = (s,.ok ⟨o,g,true⟩) := by
  obtain ⟨_,member⟩ := (sound.chunks _ _).mp known
  obtain ⟨o,g,object,generation,_⟩ := mem_chunksAt member
  refine ⟨o.record,g.record,?_⟩
  rw [commit_ok offered,commitLocked]
  simp [known,alike,object,generation]

/-- The chunks that a page is made of: those after the last one read, in their order. -/
def page (g : GenerationState) (afterOrdinal : Int) (limit : Nat) : List ChunkRecord :=
  (g.chunks.drop afterOrdinal.toNat).take limit

theorem ordinal_at {g : GenerationState} {id : String} {n : Int} (known : g.Contiguous id n) {i : Nat}
    (inside : i < g.chunks.length) : g.chunks[i].ordinal = i+1 := by
  have place : (g.chunks.map ChunkRecord.ordinal)[i]? = (List.range' 1 g.chunks.length)[i]? := by
    rw [known.ordinals]
  rw [List.getElem?_map,List.getElem?_eq_getElem inside,List.getElem?_range' inside] at place
  simp only [Option.map_some,Option.some.injEq] at place
  omega

theorem search_isAfter {g : GenerationState} {id : String} {n : Int} (known : g.Contiguous id n)
    (afterOrdinal : Int) : search g.chunks.length (isAfter g.chunks afterOrdinal) =
      min afterOrdinal.toNat g.chunks.length := by
  apply search_eq _ (Nat.min_le_right _ _)
  intro i inside
  simp only [isAfter,List.getElem?_eq_getElem inside,ordinal_at known inside,decide_eq_true_eq]
  omega

theorem drop_min_take {α : Type} (items : List α) (start limit : Nat) :
    (items.take (min (min start items.length+limit) items.length)).drop (min start items.length) =
      (items.drop start).take limit := by
  apply List.ext_getElem?
  intro i
  simp only [List.getElem?_drop,List.getElem?_take]
  by_cases far : start ≤ items.length
  · rw [Nat.min_eq_left far]
    by_cases inside : start+i < items.length
    · by_cases short : i < limit
      · rw [if_pos short,if_pos (by omega)]
      · rw [if_neg short,if_neg (by omega)]
    · rw [List.getElem?_eq_none (by omega)]
      split <;> split <;> rfl
  · rw [List.getElem?_eq_none (show items.length ≤ start+i by omega),if_neg (by omega)]
    split <;> rfl

theorem planContent_ok {before s : MemoryStore} (sound : s.Sound) (facts : String → Option SessionAccessFacts)
    (principal : Principal) (id : String) (n afterOrdinal : Int) (limit : Nat) (plan : ContentPlan) :
    planContent before s facts principal id n afterOrdinal limit = .ok plan ↔
      ∃ seen access o g, before.objects.lookup id = some seen ∧
        authorizeSession (facts seen.record.sessionID) principal .rawObjectRead = .ok access ∧
        s.objects.lookup id = some o ∧
        o.generations.lookup (if n = 0 then o.record.currentGeneration else n) = some g ∧
        plan = ⟨o.record,g.record,page g afterOrdinal limit,afterOrdinal.toNat+limit < g.chunks.length⟩ := by
  have planned : ∀ o g m, s.objects.lookup id = some o → o.generations.lookup m = some g →
      (⟨o.record,g.record,(g.chunks.take (min (search g.chunks.length (isAfter g.chunks afterOrdinal)+limit)
        g.chunks.length)).drop (search g.chunks.length (isAfter g.chunks afterOrdinal)),
        min (search g.chunks.length (isAfter g.chunks afterOrdinal)+limit) g.chunks.length < g.chunks.length⟩ :
        ContentPlan) =
      ⟨o.record,g.record,page g afterOrdinal limit,afterOrdinal.toNat+limit < g.chunks.length⟩ := by
    intro o g m object generation
    rw [search_isAfter ((sound.objects id o object).each m g generation).toContiguous,drop_min_take,page]
    congr 2
    apply propext
    omega
  unfold planContent
  simp only [bind_ok,present_ok,Except.ok.injEq]
  constructor
  · rintro ⟨seen,looked,access,permitted,o,object,g,generation,rfl⟩
    exact ⟨seen,access,o,g,looked,permitted,object,generation,planned o g _ object generation⟩
  · rintro ⟨seen,access,o,g,looked,permitted,object,generation,rfl⟩
    exact ⟨seen,looked,access,permitted,o,object,g,generation,planned o g _ object generation⟩

theorem page_tiled {g : GenerationState} {id : String} {n : Int} (known : g.Contiguous id n) (afterOrdinal : Int)
    (limit : Nat) : Segments.Tiled ChunkRecord.offset ChunkRecord.sizeBytes
      (Segments.length ChunkRecord.sizeBytes (g.chunks.take afterOrdinal.toNat)) (page g afterOrdinal limit) := by
  have split : g.chunks = g.chunks.take afterOrdinal.toNat++(page g afterOrdinal limit++
      (g.chunks.drop afterOrdinal.toNat).drop limit) := by
    rw [page,List.take_append_drop,List.take_append_drop]
  have tiled := known.tiled
  rw [split,Segments.tiled_append,Segments.tiled_append] at tiled
  simpa using tiled.2.1

/-- What holds of the manifest after any commits: its objects are sound, what a call
does to it, and which chunks a page has. -/
structure Archive (s : MemoryStore) : Prop where
  objects : ∀ id o, s.objects.lookup id = some o → o.Sound id
  failed : ∀ c failure, (s.commit c).2 = .error failure → (s.commit c).1 = s
  replayed : ∀ c r result, c.offer = .ok r → (s.commit c).2 = .ok result → ∀ later again, again.offer = .ok r →
    ∃ o g, ((s.commit c).1.performs later).commit again = ((s.commit c).1.performs later,.ok ⟨o,g,true⟩)
  pages : ∀ before facts principal id n afterOrdinal limit plan,
    planContent before s facts principal id n afterOrdinal limit = .ok plan → ∃ o g,
      s.objects.lookup id = some o ∧
      o.generations.lookup (if n = 0 then o.record.currentGeneration else n) = some g ∧
      plan.object = o.record ∧ plan.generation = g.record ∧
      plan.chunks = (g.chunks.drop afterOrdinal.toNat).take limit ∧
      Segments.Tiled ChunkRecord.offset ChunkRecord.sizeBytes
        (Segments.length ChunkRecord.sizeBytes (g.chunks.take afterOrdinal.toNat)) plan.chunks ∧
      (plan.hasMore = true ↔ afterOrdinal.toNat+limit < g.chunks.length)
  ranges : ∀ id o n g, s.objects.lookup id = some o → o.generations.lookup n = some g → ∀ low high,
    ∃ afterOrdinal limit, ∀ before seen facts principal access, before.objects.lookup id = some seen →
      authorizeSession (facts seen.record.sessionID) principal .rawObjectRead = .ok access →
      ∃ plan, planContent before s facts principal id n afterOrdinal limit = .ok plan ∧
        plan.chunks = g.chunks.filter (Segments.meets ChunkRecord.offset ChunkRecord.sizeBytes low high) ∧
        ∀ place, low ≤ place → place < high → 0 ≤ place → place < g.record.sizeBytes →
          ∃! c, c ∈ plan.chunks ∧ Segments.Holds ChunkRecord.offset ChunkRecord.sizeBytes place c

theorem Sound.replayed {s : MemoryStore} (sound : s.Sound) {c again : Commit} {r : ChunkRecord} {result : CommitResult}
    (offered : c.offer = .ok r) (ok : (s.commit c).2 = .ok result) (later : List Commit)
    (offered' : again.offer = .ok r) : ∃ o g,
      ((s.commit c).1.performs later).commit again = ((s.commit c).1.performs later,.ok ⟨o,g,true⟩) := by
  obtain ⟨existing,known,alike⟩ := committed_known sound offered ok
  obtain ⟨sound',keeps⟩ := performs_keep later (commit_step sound c).1
  exact known_replayed sound' offered' (keeps _ _ known) alike

theorem Sound.ranges {s : MemoryStore} (sound : s.Sound) {id : String} {o : ObjectState} {n : Int}
    {g : GenerationState} (object : s.objects.lookup id = some o) (generation : o.generations.lookup n = some g)
    (low high : Int) : ∃ afterOrdinal limit, ∀ before seen facts principal access,
      before.objects.lookup id = some seen →
      authorizeSession (facts seen.record.sessionID) principal .rawObjectRead = .ok access →
      ∃ plan, planContent before s facts principal id n afterOrdinal limit = .ok plan ∧
        plan.chunks = g.chunks.filter (Segments.meets ChunkRecord.offset ChunkRecord.sizeBytes low high) ∧
        ∀ place, low ≤ place → place < high → 0 ≤ place → place < g.record.sizeBytes →
          ∃! c, c ∈ plan.chunks ∧ Segments.Holds ChunkRecord.offset ChunkRecord.sizeBytes place c := by
  have known := ((sound.objects id o object).each n g generation).toContiguous
  have started : n ≠ 0 := by
    have inside := ((sound.objects id o object).generations n).mp (by rw [generation]; rfl)
    omega
  obtain ⟨after,limit,run⟩ := known.tiled.meeting low high
  refine ⟨after,limit,fun before seen facts principal access looked permitted => ?_⟩
  refine ⟨_,(planContent_ok sound facts principal id n after limit _).mpr
    ⟨seen,access,o,g,looked,permitted,object,by rw [if_neg started]; exact generation,rfl⟩,?_,?_⟩
  · simp only [page,Int.toNat_natCast]
    exact run
  · intro place above below start inside
    simp only [page,Int.toNat_natCast,run]
    rw [known.size] at inside
    obtain ⟨c,⟨member,holds⟩,unique⟩ := known.tiled.holds start (by omega)
    refine ⟨c,⟨List.mem_filter.mpr ⟨member,Segments.meets_of_holds above below holds⟩,holds⟩,?_⟩
    rintro other ⟨listed,holds'⟩
    exact unique other ⟨(List.mem_filter.mp listed).1,holds'⟩

/-- The manifest after commits in any order, by any users, with any identities. -/
theorem commits_archive (calls : List Commit) : Archive (new.performs calls) := by
  have sound := (performs_keep calls new_sound).1
  refine ⟨sound.objects,?_,?_,?_,?_⟩
  · intro c failure failed
    exact failed_commit sound failed
  · intro c r result offered ok later again offered'
    exact sound.replayed offered ok later offered'
  · intro before facts principal id n afterOrdinal limit plan planned
    obtain ⟨_,_,o,g,_,_,object,generation,rfl⟩ := (planContent_ok sound _ _ _ _ _ _ _).mp planned
    have known := ((sound.objects id o object).each _ g generation).toContiguous
    exact ⟨o,g,object,generation,rfl,rfl,rfl,page_tiled known afterOrdinal limit,by simp⟩
  · intro id o n g object generation low high
    exact sound.ranges object generation low high

end ATape.RawArchive.MemoryStore
