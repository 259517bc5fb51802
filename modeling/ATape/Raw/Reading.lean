import ATape.Raw.Following
import ATape.Raw.Uploads

/-! The pages of the manifest and of the contents are exact, also while chunks and objects are committed. -/
namespace ATape.RawArchive
open Authorization Foundation Go SourceIdentity
namespace MemoryStore

/-- The first pages of a manifest: each object once, at the end each of the first archive, and an end no later than
there are objects. Without uploads they are the objects of the session. -/
structure ListsEach (stores : ℕ → MemoryStore) (sessionID : String) (page : ℕ) (objects : List ObjectSummary)
    (cursor : Option String) : Prop where
  once : (objects.map ObjectSummary.objectID).Nodup
  known : ∀ o ∈ objects, ∃ k < page, ∃ r ∈ (stores k).sessionObjects sessionID, o = summarize r
  all : cursor = none → ∀ r ∈ (stores 0).sessionObjects sessionID, r.objectID ∈ objects.map ObjectSummary.objectID
  stops : ((stores page).sessionObjects sessionID).length < page → cursor = none
  still : (∀ k, stores k = stores 0) → cursor = none →
    objects = (ordered ObjectRecord.place ((stores 0).sessionObjects sessionID)).map summarize

/-- The first pages of a generation: its chunks with their bytes in their order, at the end all those of the first
archive, and an end no later than there are chunks. -/
structure ReadsEach (stores : ℕ → MemoryStore) (id : String) (generation : ℤ) (page : ℕ) (chunks : List ContentChunk)
    (cursor : Option String) : Prop where
  inOrder : chunks <+: (stores page).contents id generation
  all : cursor = none → (stores 0).contents id generation <+: chunks
  stops : ((stores page).contents id generation).length < page → cursor = none

section Growing
variable {h : Hash} {digest : Bytes → String} {stores : ℕ → MemoryStore} (growing : Growing h digest stores)
  {sessionID : String}
include growing

theorem Growing.later {k n : ℕ} (before : k ≤ n) : (stores k).Grows (stores n) := by
  induction n, before using Nat.le_induction with
  | base => exact .refl _
  | succ n _ ih => exact ih.trans (growing.grows n)

theorem Growing.placed {k n : ℕ} (before : k ≤ n) {r : ObjectRecord} (member : r ∈ (stores k).sessionObjects sessionID) :
    ∃ r' ∈ (stores n).sessionObjects sessionID, r'.objectID = r.objectID ∧ r'.place = r.place := by
  have held := (growing.reached n).1
  obtain ⟨o,found,rfl,own⟩ := (mem_sessionObjects (growing.reached k).1.sound).mp member
  obtain ⟨o',found',created,session⟩ := (growing.later before).objects _ _ found
  have named := (held.sound.objects _ _ found').named
  refine ⟨o'.record,(mem_sessionObjects held.sound).mpr ⟨o',by rwa [named],rfl,session.trans own⟩,named,?_⟩
  rw [ObjectRecord.place,ObjectRecord.place,created,named]

theorem Growing.one_place {k n : ℕ} {a b : ObjectRecord} (first : a ∈ (stores k).sessionObjects sessionID)
    (second : b ∈ (stores n).sessionObjects sessionID) (same : a.objectID = b.objectID) : a.place = b.place := by
  obtain ⟨a',there,id,at_⟩ := growing.placed (le_max_left k n) first
  obtain ⟨b',there',id',at_'⟩ := growing.placed (le_max_right k n) second
  have distinct : (((stores (max k n)).sessionObjects sessionID).map ObjectRecord.objectID).Nodup :=
    sessionObjects_distinct (growing.reached (max k n)).1.sound
  have one : a' = b' := List.inj_on_of_nodup_map distinct there there' (by rw [id,id',same])
  rw [← at_,← at_',one]

variable {page : ℕ} {records : List ObjectRecord} {cursor : Option String}
  (listed : Listed stores sessionID page records cursor)
include listed

theorem Listed.distinct : (records.map ObjectRecord.objectID).Nodup := by
  refine List.pairwise_map.mpr (listed.rising.imp_of_mem ?_)
  intro a b member member' below same
  obtain ⟨k,-,there⟩ := listed.known a member
  obtain ⟨n,-,there'⟩ := listed.known b member'
  exact below.ne (growing.one_place there there' same)

theorem Listed.count : records.length ≤ ((stores page).sessionObjects sessionID).length := by
  have subset : records.map ObjectRecord.objectID ⊆ ((stores page).sessionObjects sessionID).map ObjectRecord.objectID := by
    intro id member
    obtain ⟨r,inside,rfl⟩ := List.mem_map.mp member
    obtain ⟨k,early,there⟩ := listed.known r inside
    obtain ⟨r',there',same,-⟩ := growing.placed early.le there
    exact same ▸ List.mem_map_of_mem there'
  have fewer := (List.subperm_of_subset (listed.distinct growing) subset).length_le
  rwa [List.length_map,List.length_map] at fewer

theorem Listed.still (same : ∀ k, stores k = stores 0)
    (all : ∀ r ∈ (stores 0).sessionObjects sessionID, r.objectID ∈ records.map ObjectRecord.objectID) :
    records = ordered ObjectRecord.place ((stores 0).sessionObjects sessionID) := by
  have distinct : (((stores 0).sessionObjects sessionID).map ObjectRecord.objectID).Nodup :=
    sessionObjects_distinct growing.start.sound
  have known : ∀ r ∈ records, r ∈ (stores 0).sessionObjects sessionID := by
    intro r member
    obtain ⟨k,-,there⟩ := listed.known r member
    rwa [same k] at there
  refine (ordered_unique _ ?_ (listed.rising.imp le_of_lt) (places_distinct distinct)).symm
  refine (List.perm_ext_iff_of_nodup (List.Nodup.of_map _ (listed.distinct growing)) (List.Nodup.of_map _ distinct)).mpr ?_
  intro r
  refine ⟨known r,fun member => ?_⟩
  obtain ⟨r',inside,id⟩ := List.mem_map.mp (all r member)
  rwa [← List.inj_on_of_nodup_map distinct (known r' inside) member id]

theorem Listed.each : ListsEach stores sessionID page (records.map summarize) cursor where
  once := by
    rw [List.map_map]
    exact listed.distinct growing
  known o member := by
    obtain ⟨r,inside,rfl⟩ := List.mem_map.mp member
    obtain ⟨k,early,there⟩ := listed.known r inside
    exact ⟨k,early,r,there,rfl⟩
  all finished r member := by
    rw [List.map_map]
    generalize cursor = status at listed finished
    cases listed.place with
    | first _ _ => cases finished
    | behind _ _ _ _ _ _ _ => cases finished
    | done all => exact all r member
  stops few := by
    have count := listed.count growing
    cases listed.place with
    | first start nothing => omega
    | behind front a last named clock pages upTo => omega
    | done all => rfl
  still same finished := by
    generalize cursor = status at listed finished
    cases listed.place with
    | first _ _ => cases finished
    | behind _ _ _ _ _ _ _ => cases finished
    | done all => rw [← listed.still growing same all]

end Growing

theorem ReadTo.each {stores : ℕ → MemoryStore} {id : String} {generation page : ℕ} {chunks : List ContentChunk}
    {cursor : Option String} (readTo : ReadTo stores id generation page chunks cursor) :
    ReadsEach stores id generation page chunks cursor where
  inOrder := readTo.within
  all finished := by
    generalize cursor = status at readTo finished
    cases readTo.spot with
    | first _ _ => cases finished
    | behind _ _ => cases finished
    | done all => exact all
  stops few := by
    have length := readTo.within.length_le
    cases readTo.spot with
    | first start nothing => omega
    | behind filled pages => omega
    | done all => rfl

def noting : AppendCall :=
  ⟨some writerSession,some writerSession,⟨secondNanos,0⟩,writer,notes "2026-07-01T00:00:00Z"⟩

def notesID : String := rawObjectID notesHash "writer" "session" "laptop" "codex" "notes"

def reader : Principal := ⟨"writer",.webAuthentication,false⟩

/-- The notes are uploaded again before each page. -/
def noted (k : ℕ) : MemoryStore := appends notesHash notesDigest new (List.replicate (k+1) noting)

theorem noted_there : ((noted 0).objects.lookup notesID).any (fun o =>
    (o.generations.lookup (if (0 : ℤ) = 0 then o.record.currentGeneration else 0)).isSome) = true := by
  decide

end MemoryStore
end ATape.RawArchive
