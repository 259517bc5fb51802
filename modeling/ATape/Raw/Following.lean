import ATape.Foundation.Leading
import ATape.Raw.Growth
import ATape.Raw.Paging

/-! Reading page after page while the archive grows: no object and no byte that was there at first is left out, and
none comes twice. -/
namespace ATape.RawArchive
open Authorization Foundation Go SourceIdentity

def ObjectRecord.place (r : ObjectRecord) : ℤᵒᵈ ×ₗ Stringᵒᵈ :=
  toLex (OrderDual.toDual r.createdAt.nanos,OrderDual.toDual r.objectID)

theorem ObjectRecord.less_iff (a b : ObjectRecord) : a.less b = true ↔ a.place < b.place := by
  unfold ObjectRecord.less ObjectRecord.place
  rw [Prod.Lex.toLex_lt_toLex]
  by_cases same : a.createdAt.nanos = b.createdAt.nanos <;> simp [Time.equal,Time.after,same]

theorem ObjectRecord.sorted_less (records : List ObjectRecord) :
    records.insertionSort (fun left right => ¬right.less left = true) = ordered ObjectRecord.place records := by
  have same : (fun left right : ObjectRecord => ¬right.less left = true) = fun left right => left.place ≤ right.place := by
    funext left right
    rw [ObjectRecord.less_iff,not_lt]
  simp only [same]
  rfl

namespace MemoryStore

/-! The manifest of a session. -/

def sessionObjects (s : MemoryStore) (sessionID : String) : List ObjectRecord :=
  (s.objects.rows.map fun row => row.2.record).filter fun record => record.sessionID = sessionID

variable {h : Hash} {digest : Bytes → String} {s : MemoryStore} {sessionID : String}

theorem mem_sessionObjects (sound : s.Sound) {r : ObjectRecord} : r ∈ s.sessionObjects sessionID ↔
    ∃ o, s.objects.lookup r.objectID = some o ∧ o.record = r ∧ r.sessionID = sessionID := by
  simp only [sessionObjects,List.mem_filter,List.mem_map,decide_eq_true_eq]
  constructor
  · rintro ⟨⟨row,member,rfl⟩,session⟩
    have found := (Table.mem_rows s.objects row.1 row.2).mp member
    refine ⟨row.2,?_,rfl,session⟩
    rw [(sound.objects _ _ found).named,found]
  · rintro ⟨o,found,rfl,session⟩
    exact ⟨⟨(o.record.objectID,o),(Table.mem_rows _ _ _).mpr found,rfl⟩,session⟩

theorem sessionObjects_distinct (sound : s.Sound) : ((s.sessionObjects sessionID).map ObjectRecord.objectID).Nodup := by
  have ids : (s.objects.rows.map fun row => row.2.record).map ObjectRecord.objectID = s.objects.rows.map Prod.fst := by
    rw [List.map_map]
    apply List.map_congr_left
    intro row member
    exact (sound.objects _ _ ((Table.mem_rows s.objects row.1 row.2).mp member)).named
  have distinct : ((s.objects.rows.map fun row => row.2.record).map ObjectRecord.objectID).Nodup := by
    rw [ids]
    exact Table.rows_distinct _
  exact distinct.sublist (List.filter_sublist.map _)

theorem places_distinct {records : List ObjectRecord} (distinct : (records.map ObjectRecord.objectID).Nodup) :
    (records.map ObjectRecord.place).Nodup := by
  apply List.Nodup.map_on _ (List.Nodup.of_map _ distinct)
  intro a member b member' same
  apply List.inj_on_of_nodup_map distinct member member'
  exact OrderDual.toDual_inj.mp (Prod.mk.inj (toLex_inj.mp same)).2

def behind (s : MemoryStore) (sessionID : String) (after : ObjectPosition) : List ObjectRecord :=
  ordered ObjectRecord.place ((s.sessionObjects sessionID).filter fun record => !skipped sessionID after record)

theorem listSessionObjects_ok (sound : s.Sound) {found : Option SessionAccessFacts} {principal : Principal}
    {access : SessionAccessFacts} (authorized : authorizeSession found principal .rawSessionList = .ok access)
    (after : ObjectPosition) (limit : ℕ) :
    listSessionObjects s found principal sessionID after limit = .ok ((s.behind sessionID after).take limit) := by
  have keep : keepFirst limit = keepLeading ObjectRecord.place limit := by
    funext objects record
    unfold keepFirst keepLeading
    rw [ObjectRecord.sorted_less]
    dsimp only
    split
    next => rfl
    next room => rw [List.take_of_length_le (not_lt.mp room)]
  have picked : (s.objects.rows.map fun row => row.2.record).filter (fun record => !skipped sessionID after record) =
      (s.sessionObjects sessionID).filter fun record => !skipped sessionID after record := by
    unfold sessionObjects
    rw [List.filter_filter]
    apply List.filter_congr
    intro r _
    rw [Bool.eq_iff_iff]
    simp only [skipped,Bool.and_eq_true,Bool.not_eq_true',Bool.or_eq_false_iff,decide_eq_false_iff_not,not_not,
      decide_eq_true_eq]
    tauto
  have distinct : (((s.sessionObjects sessionID).filter fun record => !skipped sessionID after record).map
      ObjectRecord.place).Nodup :=
    (places_distinct (sessionObjects_distinct sound)).sublist (List.filter_sublist.map _)
  unfold listSessionObjects
  rw [authorized,ok_bind,picked,keep,foldl_keepLeading _ _ _ distinct]
  rfl

theorem skipped_first (r : ObjectRecord) (own : r.sessionID = sessionID) : skipped sessionID ⟨.zero,""⟩ r = false := by
  simp [skipped,own]

theorem skipped_after {a : ObjectRecord} (filled : a.objectID ≠ "") {after : ObjectPosition}
    (time : after.createdAt.nanos = a.createdAt.nanos) (id : after.objectID = a.objectID) (r : ObjectRecord)
    (own : r.sessionID = sessionID) : skipped sessionID after r = false ↔ a.place < r.place := by
  unfold skipped ObjectRecord.place
  rw [Prod.Lex.toLex_lt_toLex,id]
  rcases lt_trichotomy r.createdAt.nanos a.createdAt.nanos with older|same|newer
  · simp [own,filled,Time.after,Time.equal,time,older,older.ne,older.not_gt]
  · simp [own,filled,Time.after,Time.equal,time,same]
  · simp [own,filled,Time.after,Time.equal,time,newer,newer.ne,newer.ne',newer.not_gt]

theorem behind_first : s.behind sessionID ⟨.zero,""⟩ = ordered ObjectRecord.place (s.sessionObjects sessionID) := by
  unfold behind
  congr 1
  apply List.filter_eq_self.mpr
  intro r member
  have own : r.sessionID = sessionID := of_decide_eq_true (List.mem_filter.mp member).2
  rw [skipped_first r own]
  rfl

theorem behind_after {a : ObjectRecord} (filled : a.objectID ≠ "") {after : ObjectPosition}
    (time : after.createdAt.nanos = a.createdAt.nanos) (id : after.objectID = a.objectID) :
    s.behind sessionID after = above ObjectRecord.place a.place (s.sessionObjects sessionID) := by
  unfold behind above
  congr 1
  apply List.filter_congr
  intro r member
  have own : r.sessionID = sessionID := of_decide_eq_true (List.mem_filter.mp member).2
  rw [Bool.eq_iff_iff,Bool.not_eq_true',skipped_after filled time id r own,decide_eq_true_iff]

/-! A page of the manifest. -/

/-- A limit of a page that passes its check. None is the default one. -/
structure Limit (most limit : ℤ) : Prop where
  low : 0 ≤ limit
  high : limit ≤ most

def manifestSize (limit : ℤ) : ℕ := (if limit = 0 then defaultManifestPageSize else limit).toNat

theorem manifestSize_pos {limit : ℤ} (fits : Limit maxManifestPageSize limit) : 0 < manifestSize limit := by
  have low := fits.low
  unfold manifestSize defaultManifestPageSize
  split <;> omega

section ManifestPage
variable {found : Option SessionAccessFacts} {principal : Principal} {access : SessionAccessFacts}
  (authorized : authorizeSession found principal .rawSessionList = .ok access) (session : Identified sessionID) {limit : ℤ}
  (fits : Limit maxManifestPageSize limit) {cursor : String} {after : ObjectPosition}
  (decoded : decodeManifestCursor cursor sessionID = .ok after)
include authorized session fits decoded

theorem openSessionPage_eq (sound : s.Sound) : openSessionPage s found principal sessionID cursor limit =
    if ((s.behind sessionID after).take (manifestSize limit+1)).length > manifestSize limit then
      match (((s.behind sessionID after).take (manifestSize limit+1)).take (manifestSize limit)).getLast? with
      | none => .error (.failed .nilPointer)
      | some last =>
        (present (encodeManifestCursor sessionID last.createdAt last.objectID) ReadFailure.marshal).bind fun encoded =>
          .ok ⟨sessionID,(((s.behind sessionID after).take (manifestSize limit+1)).take (manifestSize limit)).map summarize,
            encoded⟩
    else .ok ⟨sessionID,((s.behind sessionID after).take (manifestSize limit+1)).map summarize,""⟩ := by
  have bounded : ¬(trimSpace sessionID = "" ∨ len sessionID > 512 ∨ '\x00' ∈ sessionID.toList) := by
    rintro (blank|long|null)
    · exact session.trimmed blank
    · exact absurd session.size (not_le.mpr long)
    · exact session.printable null
  have inside : ¬((if limit = 0 then defaultManifestPageSize else limit) < 1 ∨
      (if limit = 0 then defaultManifestPageSize else limit) > maxManifestPageSize) := by
    have low := fits.low
    have high := fits.high
    unfold defaultManifestPageSize maxManifestPageSize at *
    split <;> omega
  have known : (decodeManifestCursor cursor sessionID).mapError ReadFailure.failed = .ok after := by
    rw [decoded]
    rfl
  unfold openSessionPage
  rw [failWhen_neg _ bounded,ok_bind]
  dsimp only
  rw [failWhen_neg _ inside,ok_bind,known,ok_bind,listSessionObjects_ok sound authorized]
  rfl

theorem openSessionPage_last (sound : s.Sound) (few : (s.behind sessionID after).length ≤ manifestSize limit) :
    openSessionPage s found principal sessionID cursor limit =
      .ok ⟨sessionID,(s.behind sessionID after).map summarize,""⟩ := by
  have taken : (s.behind sessionID after).take (manifestSize limit+1) = s.behind sessionID after :=
    List.take_of_length_le (by omega)
  rw [openSessionPage_eq authorized session fits decoded sound,taken,if_neg (not_lt.mpr few)]

theorem openSessionPage_more (held : s.Held digest) {front rest : List ObjectRecord} {a : ObjectRecord}
    (whole : s.behind sessionID after = front++[a]++rest) (size : front.length+1 = manifestSize limit) (more : rest ≠ []) :
    openSessionPage s found principal sessionID cursor limit = .ok ⟨sessionID,(front++[a]).map summarize,
      encodedJSON (manifestJson sessionID a.createdAt a.objectID)⟩ := by
  have length : (front++[a]).length = manifestSize limit := by
    rw [List.length_append,List.length_singleton,size]
  have taken : (front++[a]++rest).take (manifestSize limit+1) = front++[a]++rest.take 1 := by
    rw [← length,List.take_length_add_append]
  have full : (front++[a]++rest.take 1).length > manifestSize limit := by
    have filled := List.length_pos_iff.mpr more
    rw [List.length_append,length,List.length_take]
    omega
  have page : (front++[a]++rest.take 1).take (manifestSize limit) = front++[a] := by
    rw [← length,List.take_left]
  have inside : a ∈ s.sessionObjects sessionID := by
    have member : a ∈ s.behind sessionID after := by
      rw [whole]
      simp
    exact (List.mem_filter.mp ((mem_ordered _).mp member)).1
  obtain ⟨o,found_,rfl,-⟩ := (mem_sessionObjects held.sound).mp inside
  rw [openSessionPage_eq authorized session fits decoded held.sound,whole,taken,if_pos full,page,List.getLast?_concat]
  dsimp only
  rw [encodeManifestCursor_clocked (held.clocked _ _ found_).1]
  rfl

end ManifestPage

/-! Stores that grow. -/

structure Growing (h : Hash) (digest : Bytes → String) (stores : ℕ → MemoryStore) : Prop where
  start : (stores 0).Held digest
  step : ∀ k, ∃ calls : List AppendCall, (∀ c ∈ calls, Clocked c.now.utc) ∧
    stores (k+1) = appends h digest (stores k) calls

section Growing
variable {stores : ℕ → MemoryStore} (growing : Growing h digest stores)
include growing

theorem Growing.reached (k : ℕ) : (stores k).Held digest ∧ (stores 0).Grows (stores k) := by
  induction k with
  | zero => exact ⟨growing.start,.refl _⟩
  | succ k ih =>
    obtain ⟨calls,clocks,next⟩ := growing.step k
    obtain ⟨held,grows⟩ := appends_held (h := h) calls clocks ih.1
    rw [next]
    exact ⟨held,ih.2.trans grows⟩

theorem Growing.grows (k : ℕ) : (stores k).Grows (stores (k+1)) := by
  obtain ⟨calls,clocks,next⟩ := growing.step k
  rw [next]
  exact (appends_held (h := h) calls clocks (growing.reached k).1).2

theorem Growing.kept (k : ℕ) {r : ObjectRecord} (member : r ∈ (stores 0).sessionObjects sessionID) :
    ∃ r' ∈ (stores k).sessionObjects sessionID, r'.objectID = r.objectID ∧ r'.place = r.place := by
  obtain ⟨held,grows⟩ := growing.reached k
  obtain ⟨o,found,rfl,own⟩ := (mem_sessionObjects growing.start.sound).mp member
  obtain ⟨o',found',created,session⟩ := grows.objects _ _ found
  have named := (held.sound.objects _ _ found').named
  refine ⟨o'.record,(mem_sessionObjects held.sound).mpr ⟨o',by rwa [named],rfl,session.trans own⟩,named,?_⟩
  rw [ObjectRecord.place,ObjectRecord.place,created,named]

end Growing

/-! Reading the manifest. -/

section Manifest
variable {stores : ℕ → MemoryStore}

/-- Where a reader of the manifest is: before the first page, behind an object with all those of the first archive
up to it, or at the end with all of them. -/
inductive Place (stores : ℕ → MemoryStore) (sessionID : String) (page : ℕ) (records : List ObjectRecord) :
    Option String → Prop
  | first (start : page = 0) (nothing : records = []) : Place stores sessionID page records (some "")
  | behind (front : List ObjectRecord) (a : ObjectRecord) (last : records = front++[a]) (named : Identified a.objectID)
      (clock : Clocked a.createdAt) (pages : page ≤ records.length)
      (upTo : ∀ r ∈ (stores 0).sessionObjects sessionID, r.place ≤ a.place → r.objectID ∈ records.map ObjectRecord.objectID) :
      Place stores sessionID page records (some (encodedJSON (manifestJson sessionID a.createdAt a.objectID)))
  | done (all : ∀ r ∈ (stores 0).sessionObjects sessionID, r.objectID ∈ records.map ObjectRecord.objectID) :
      Place stores sessionID page records none

structure Listed (stores : ℕ → MemoryStore) (sessionID : String) (page : ℕ) (records : List ObjectRecord)
    (cursor : Option String) : Prop where
  rising : records.Pairwise fun a b => a.place < b.place
  known : ∀ r ∈ records, ∃ k < page, r ∈ (stores k).sessionObjects sessionID
  place : Place stores sessionID page records cursor

/-- What the next page takes from: objects behind those that were read, with every one of the first archive that
was not. -/
structure Pending (stores : ℕ → MemoryStore) (sessionID : String) (page : ℕ) (records docs : List ObjectRecord) :
    Prop where
  rising : docs.Pairwise fun a b => a.place < b.place
  known : ∀ r ∈ docs, r ∈ (stores page).sessionObjects sessionID
  behind : ∀ a ∈ records, ∀ r ∈ docs, a.place < r.place
  rest : ∀ r ∈ (stores 0).sessionObjects sessionID, r.objectID ∈ records.map ObjectRecord.objectID ∨
    ∃ r' ∈ docs, r'.objectID = r.objectID ∧ r'.place = r.place

variable (growing : Growing h digest stores) (session : Identified sessionID)
include growing session

theorem Listed.pending {page : ℕ} {records : List ObjectRecord} {cursor : String}
    (listed : Listed stores sessionID page records (some cursor)) : ∃ after,
      decodeManifestCursor cursor sessionID = .ok after ∧
        Pending stores sessionID page records ((stores page).behind sessionID after) ∧ page ≤ records.length := by
  have held := (growing.reached page).1
  have distinct : (((stores page).sessionObjects sessionID).map ObjectRecord.place).Nodup :=
    places_distinct (sessionObjects_distinct held.sound)
  generalize same : some cursor = status at listed
  obtain ⟨rising,known,place⟩ := listed
  cases place with
  | first start nothing =>
    obtain rfl := Option.some.inj same
    refine ⟨⟨.zero,""⟩,rfl,?_,by omega⟩
    rw [behind_first,nothing]
    refine ⟨ordered_rising _ distinct,fun r member => (mem_ordered _).mp member,List.forall_mem_nil _,?_⟩
    intro r member
    obtain ⟨r',there,id,at_⟩ := growing.kept page member
    exact .inr ⟨r',(mem_ordered _).mpr there,id,at_⟩
  | behind front a last named clock pages upTo =>
    obtain rfl := Option.some.inj same
    refine ⟨_,decode_manifestCursor session named clock,?_,pages⟩
    rw [behind_after (a := a) named.ne_empty rfl rfl]
    refine ⟨?_,fun r member => ((mem_above _).mp member).1,?_,?_⟩
    · exact ordered_rising _ (distinct.sublist (List.filter_sublist.map _))
    · intro x member r there
      have low : x.place ≤ a.place := by
        rw [last] at member rising
        cases List.mem_append.mp member with
        | inl front_ => exact ((List.pairwise_append.mp rising).2.2 x front_ a (List.mem_singleton_self a)).le
        | inr own => rw [List.mem_singleton.mp own]
      exact low.trans_lt ((mem_above _).mp there).2
    · intro r member
      by_cases low : r.place ≤ a.place
      · exact .inl (upTo r member low)
      · obtain ⟨r',there,id,at_⟩ := growing.kept page member
        exact .inr ⟨r',(mem_above _).mpr ⟨there,by rw [at_]; exact not_le.mp low⟩,id,at_⟩
  | done all => cases same

variable {found : Option SessionAccessFacts} {principal : Principal} {access : SessionAccessFacts}
  (authorized : authorizeSession found principal .rawSessionList = .ok access) {limits : ℕ → ℤ}
  (fits : ∀ k, Limit maxManifestPageSize (limits k))
include authorized fits

theorem Listed.step {page : ℕ} {records : List ObjectRecord} {cursor : String}
    (listed : Listed stores sessionID page records (some cursor)) : ∃ records' next,
      openSessionPage (stores page) found principal sessionID cursor (limits page) =
        .ok ⟨sessionID,records'.map summarize,next⟩ ∧
      Listed stores sessionID (page+1) (records++records') (nextCursor next) := by
  have held := (growing.reached page).1
  obtain ⟨after,decoded,pending,pages⟩ := listed.pending growing session
  have known : ∀ docs : List ObjectRecord, (∀ r ∈ docs, r ∈ (stores page).behind sessionID after) →
      ∀ r ∈ records++docs, ∃ k < page+1, r ∈ (stores k).sessionObjects sessionID := by
    intro docs part r member
    cases List.mem_append.mp member with
    | inl old =>
      obtain ⟨k,early,there⟩ := listed.known r old
      exact ⟨k,by omega,there⟩
    | inr new => exact ⟨page,Nat.lt_succ_self page,pending.known r (part r new)⟩
  have rising : ∀ docs : List ObjectRecord, docs.Sublist ((stores page).behind sessionID after) →
      (records++docs).Pairwise fun a b => a.place < b.place := by
    intro docs part
    refine List.pairwise_append.mpr ⟨listed.rising,pending.rising.sublist part,?_⟩
    exact fun a member r new => pending.behind a member r (part.subset new)
  by_cases few : ((stores page).behind sessionID after).length ≤ manifestSize (limits page)
  · refine ⟨_,_,openSessionPage_last authorized session (fits page) decoded held.sound few,?_⟩
    refine ⟨rising _ (List.Sublist.refl _),known _ fun _ member => member,.done ?_⟩
    intro r member
    rw [List.map_append,List.mem_append]
    rcases pending.rest r member with old|⟨r',new,id,-⟩
    · exact .inl old
    · exact .inr (id ▸ List.mem_map_of_mem new)
  · -- the last object of the page, and what is behind it
    have size := manifestSize_pos (fits page)
    obtain ⟨a,rest,cut⟩ : ∃ a rest, ((stores page).behind sessionID after).drop (manifestSize (limits page)-1) = a::rest := by
      cases cut : ((stores page).behind sessionID after).drop (manifestSize (limits page)-1) with
      | nil =>
        have none_ := List.drop_eq_nil_iff.mp cut
        omega
      | cons a rest => exact ⟨a,rest,rfl⟩
    have whole : (stores page).behind sessionID after =
        ((stores page).behind sessionID after).take (manifestSize (limits page)-1)++[a]++rest := by
      rw [List.append_assoc,List.singleton_append,← cut,List.take_append_drop]
    have length : (((stores page).behind sessionID after).take (manifestSize (limits page)-1)).length+1 =
        manifestSize (limits page) := by
      rw [List.length_take]
      omega
    generalize ((stores page).behind sessionID after).take (manifestSize (limits page)-1) = front at whole length
    have more : rest ≠ [] := by
      intro empty
      rw [whole,empty,List.append_nil,List.length_append,List.length_singleton] at few
      omega
    have part : (front++[a]).Sublist ((stores page).behind sessionID after) := by
      rw [whole]
      exact List.sublist_append_left _ _
    obtain ⟨o,there,rfl,-⟩ := (mem_sessionObjects held.sound).mp
      (pending.known a (part.subset (List.mem_append_right _ (List.mem_singleton_self a))))
    have next : nextCursor (encodedJSON (manifestJson sessionID o.record.createdAt o.record.objectID)) =
        some (encodedJSON (manifestJson sessionID o.record.createdAt o.record.objectID)) :=
      if_neg (encodedJSON_filled (manifestJson_integral _ _ _))
    refine ⟨_,_,openSessionPage_more authorized session (fits page) decoded held whole length more,?_⟩
    rw [next]
    refine ⟨rising _ part,known _ fun r member => part.subset member,
      .behind (records++front) o.record (List.append_assoc _ _ _).symm (held.named _ _ there) (held.clocked _ _ there).1 ?_ ?_⟩
    · rw [List.length_append,List.length_append,List.length_singleton]
      omega
    · intro r member low
      rw [List.map_append,List.mem_append]
      rcases pending.rest r member with old|⟨r',new,id,at_⟩
      · exact .inl old
      · refine .inr (id ▸ List.mem_map_of_mem ?_)
        have rising' := pending.rising
        rw [whole] at new rising'
        exact mem_front ObjectRecord.place rising' new (at_.le.trans low)

theorem followObjects_listed (page : ℕ) : ∃ records cursor,
    followObjects stores found principal sessionID limits page = .ok (records.map summarize,cursor) ∧
      Listed stores sessionID page records cursor := by
  induction page with
  | zero =>
    refine ⟨[],some "",rfl,List.Pairwise.nil,List.forall_mem_nil _,.first rfl rfl⟩
  | succ page ih =>
    obtain ⟨records,cursor,read,listed⟩ := ih
    rw [followObjects,read,ok_bind]
    cases cursor with
    | none =>
      refine ⟨records,none,rfl,listed.rising,?_,?_⟩
      · intro r member
        obtain ⟨k,early,there⟩ := listed.known r member
        exact ⟨k,by omega,there⟩
      · cases listed.place with
        | done all => exact .done all
    | some cursor =>
      obtain ⟨records',next,answered,listed'⟩ := listed.step growing session authorized fits
      refine ⟨records++records',nextCursor next,?_,listed'⟩
      dsimp only
      rw [answered,ok_bind,List.map_append]

end Manifest

/-! The content of a generation. -/

/-- A chunk with its bytes. -/
def stored (s : MemoryStore) (c : ChunkRecord) : ContentChunk :=
  ⟨c.offset,c.sizeBytes,c.sha256,(s.chunks.lookup c.storageKey).getD []⟩

def contents (s : MemoryStore) (objectID : String) (generation : ℤ) : List ContentChunk :=
  (s.chunksAt objectID generation).map s.stored

theorem readChunk_held (held : s.Held digest) {id : String} {n : ℤ} {c : ChunkRecord} (member : c ∈ s.chunksAt id n)
    (objectID : String) : readChunk digest s objectID c = .ok (s.stored c) := by
  obtain ⟨content,found,size,same⟩ := held.bytes id n c member
  have right : ¬(content.length ≠ c.sizeBytes ∨ digest content ≠ c.sha256) := by simp [size,same]
  have bytes : (s.read c.storageKey).mapError ReadFailure.failed = .ok content := by
    rw [read,found]
    rfl
  rw [readChunk,bytes,ok_bind,failWhen_neg _ right,ok_bind,stored,found]
  rfl

theorem mapM_each {α β ε : Type} {f : α → Except ε β} {g : α → β} {items : List α} (each : ∀ a ∈ items, f a = .ok (g a)) :
    items.mapM f = .ok (items.map g) := by
  induction items with
  | nil => rfl
  | cons a items ih =>
    obtain ⟨first,rest⟩ := List.forall_mem_cons.mp each
    rw [List.mapM_cons,first,ok_bind,ih rest,ok_bind]
    rfl

theorem contents_grow {s' : MemoryStore} (held : s.Held digest) (grows : s.Grows s') (id : String) (n : ℤ) :
    s.contents id n <+: s'.contents id n := by
  have same : s.contents id n = (s.chunksAt id n).map s'.stored := by
    apply List.map_congr_left
    intro c member
    obtain ⟨content,found,-⟩ := held.bytes id n c member
    rw [stored,stored,found,grows.bytes _ _ found]
  rw [same]
  exact (grows.chunks id n).map _

theorem chunksAt_eq {o : ObjectState} {g : GenerationState} {id : String} {n : ℤ} (object : s.objects.lookup id = some o)
    (generation : o.generations.lookup n = some g) : s.chunksAt id n = g.chunks := by
  simp only [chunksAt,object,ObjectState.chunksAt,generation]

def contentSize (limit : ℤ) : ℕ := (if limit = 0 then defaultPageSize else limit).toNat

theorem contentSize_pos {limit : ℤ} (fits : Limit maxPageSize limit) : 0 < contentSize limit := by
  have low := fits.low
  unfold contentSize defaultPageSize
  split <;> omega

theorem page_last {g : GenerationState} {id : String} {n : ℤ} (known : g.Contiguous id n) {read size : ℕ} (some_ : 0 < size)
    (more : read+size < g.chunks.length) : ∃ c, (page g read size).getLast? = some c ∧ c.ordinal = read+size := by
  have inside : read+size-1 < g.chunks.length := by omega
  refine ⟨g.chunks[read+size-1],?_,?_⟩
  · have length : (page g read size).length = size := by
      rw [page,List.length_take,List.length_drop,Int.toNat_natCast]
      omega
    rw [List.getLast?_eq_getElem?,length,page,Int.toNat_natCast,List.getElem?_take_of_lt (by omega),List.getElem?_drop,
      ← List.getElem?_eq_getElem inside]
    congr 1
    omega
  · rw [ordinal_at known inside]
    omega

section Content
variable {facts : String → Option SessionAccessFacts} {principal : Principal} {access : SessionAccessFacts} {id : String}
  {asked : ℤ} {generation : ℕ} {limit : ℤ}

theorem readContent_page (held : s.Held digest) {o : ObjectState} {g : GenerationState}
    (object : s.objects.lookup id = some o)
    (authorized : authorizeSession (facts o.record.sessionID) principal .rawObjectRead = .ok access)
    (positive : 0 ≤ asked) (fits : Limit maxPageSize limit) {cursor : String} {read : ℕ} {cursorGeneration : ℤ}
    (decoded : decodeCursor cursor id asked = .ok ((read : ℤ),cursorGeneration))
    (number : (if (if asked = 0 ∧ cursorGeneration ≠ 0 then cursorGeneration else asked) = 0 then o.record.currentGeneration
      else if asked = 0 ∧ cursorGeneration ≠ 0 then cursorGeneration else asked) = generation)
    (here : o.generations.lookup (generation : ℤ) = some g) : ∃ answer,
      readContent digest s facts principal id asked cursor limit = .ok answer ∧ answer.generation = generation ∧
        answer.chunks = ((s.contents id generation).drop read).take (contentSize limit) ∧
        answer.nextCursor = if read+contentSize limit < (s.contents id generation).length then
          encodeCursor id generation ((read+contentSize limit : ℕ) : ℤ) else "" := by
  have known := ((held.sound.objects id o object).each _ g here).toContiguous
  have chunks := chunksAt_eq object here
  have plan := (planContent_ok held.sound facts principal id
    (if asked = 0 ∧ cursorGeneration ≠ 0 then cursorGeneration else asked) read (contentSize limit) _).mpr
      ⟨o,access,o,g,object,authorized,object,by rw [number]; exact here,rfl⟩
  have bytes : (page g read (contentSize limit)).mapM (readChunk digest s id) =
      .ok ((page g read (contentSize limit)).map s.stored) := by
    apply mapM_each
    intro c member
    have inside : c ∈ s.chunksAt id generation := by
      rw [chunks]
      exact List.mem_of_mem_drop (List.mem_of_mem_take member)
    exact readChunk_held held inside id
  have named : trimSpace id ≠ "" := (held.named id o object).trimmed
  have inside : ¬((if limit = 0 then defaultPageSize else limit) < 1 ∨
      (if limit = 0 then defaultPageSize else limit) > maxPageSize) := by
    have low := fits.low
    have high := fits.high
    unfold defaultPageSize maxPageSize at *
    split <;> omega
  have cursor_ : (decodeCursor cursor id asked).mapError ReadFailure.failed = .ok ((read : ℤ),cursorGeneration) := by
    rw [decoded]
    rfl
  have planned : (planContent s s facts principal id (if asked = 0 ∧ cursorGeneration ≠ 0 then cursorGeneration else asked)
      read (if limit = 0 then defaultPageSize else limit).toNat).mapError (fun failure =>
        ReadFailure.failed (concealedAsNotFound failure "object" id)) =
      .ok ⟨o.record,g.record,page g read (contentSize limit),(read : ℤ).toNat+contentSize limit < g.chunks.length⟩ := by
    have size : (if limit = 0 then defaultPageSize else limit).toNat = contentSize limit := rfl
    rw [size,plan]
    rfl
  have content : (s.contents id generation).length = g.chunks.length := by rw [contents,List.length_map,chunks]
  have answered : readContent digest s facts principal id asked cursor limit = .ok
      {objectID := o.record.objectID
       generation := g.record.generation
       sizeBytes := g.record.sizeBytes
       finalized := g.record.finalized
       chunks := (page g read (contentSize limit)).map s.stored
       nextCursor := if decide ((read : ℤ).toNat+contentSize limit < g.chunks.length) = true then
         (page g read (contentSize limit)).getLast?.elim "" fun last => encodeCursor id g.record.generation last.ordinal
         else ""} := by
    unfold readContent
    rw [failWhen_neg _ named,ok_bind,failWhen_neg _ (not_lt.mpr positive),ok_bind]
    dsimp only
    rw [failWhen_neg _ inside,ok_bind,cursor_,ok_bind]
    dsimp only
    rw [planned,ok_bind,bytes,ok_bind]
  refine ⟨_,answered,?_,?_,?_⟩
  · exact known.number
  · dsimp only
    rw [contents,chunks,page,Int.toNat_natCast,List.map_take,List.map_drop]
  · dsimp only
    rw [content,Int.toNat_natCast]
    by_cases more : read+contentSize limit < g.chunks.length
    · obtain ⟨c,last,ordinal⟩ := page_last known (contentSize_pos fits) more
      rw [if_pos (by simpa using more),if_pos more,last,Option.elim_some,known.number,ordinal]
    · rw [if_neg (by simpa using more),if_neg more]

/-- Where a reader of a generation is: before the first page, behind the chunks that were read, or at the end with all
those of the first archive. -/
inductive Spot (stores : ℕ → MemoryStore) (id : String) (generation page : ℕ) (chunks : List ContentChunk) :
    Option String → Prop
  | first (start : page = 0) (nothing : chunks = []) : Spot stores id generation page chunks (some "")
  | behind (filled : chunks ≠ []) (pages : page ≤ chunks.length) :
      Spot stores id generation page chunks (some (encodeCursor id generation (chunks.length : ℕ)))
  | done (all : (stores 0).contents id generation <+: chunks) : Spot stores id generation page chunks none

structure ReadTo (stores : ℕ → MemoryStore) (id : String) (generation page : ℕ) (chunks : List ContentChunk)
    (cursor : Option String) : Prop where
  within : chunks <+: (stores page).contents id generation
  spot : Spot stores id generation page chunks cursor

theorem encodeCursor_filled (id : String) (generation ordinal : ℤ) : encodeCursor id generation ordinal ≠ "" := by
  apply encodedJSON_filled
  simp [Json.Integral,Json.IntegralMembers]

theorem generation_kept {s' : MemoryStore} (held : s.Held digest) (grows : s.Grows s')
    {o : ObjectState} (object : s.objects.lookup id = some o) {g : GenerationState} {n : ℤ}
    (here : o.generations.lookup n = some g) : ∃ o' g', s'.objects.lookup id = some o' ∧
      o'.record.sessionID = o.record.sessionID ∧ o'.generations.lookup n = some g' := by
  obtain ⟨o',object',-,session⟩ := grows.objects _ _ object
  obtain ⟨front,last,split,-⟩ := ((held.sound.objects id o object).each _ g here).ends
  have member : last ∈ s.chunksAt id n := by
    rw [chunksAt_eq object here,split]
    exact List.mem_append_right _ (List.mem_singleton_self last)
  obtain ⟨o'',g',found,here',-⟩ := mem_chunksAt ((grows.chunks id n).subset member)
  obtain rfl := Option.some.inj (object'.symm.trans found)
  exact ⟨o',g',object',session,here'⟩

section Run
variable {stores : ℕ → MemoryStore} (growing : Growing h digest stores) {o : ObjectState}
  (object : (stores 0).objects.lookup id = some o)
  (authorized : authorizeSession (facts o.record.sessionID) principal .rawObjectRead = .ok access)
  (number : (if asked = 0 then o.record.currentGeneration else asked) = generation) {g : GenerationState}
  (here : o.generations.lookup (generation : ℤ) = some g) {limits : ℕ → ℤ} (fits : ∀ k, Limit maxPageSize (limits k))
include growing

theorem ReadTo.following {page : ℕ} {chunks rest : List ContentChunk} (size : 0 < contentSize (limits page))
    (whole : chunks++rest = (stores page).contents id generation) (pages : page ≤ chunks.length) :
    Spot stores id generation (page+1) (chunks++rest.take (contentSize (limits page)))
      (nextCursor (if chunks.length+contentSize (limits page) < chunks.length+rest.length then
        encodeCursor id generation ((chunks.length+contentSize (limits page) : ℕ) : ℤ) else "")) := by
  by_cases more : chunks.length+contentSize (limits page) < chunks.length+rest.length
  · have taken : chunks.length+contentSize (limits page) = (chunks++rest.take (contentSize (limits page))).length := by
      rw [List.length_append,List.length_take]
      omega
    have filled : chunks++rest.take (contentSize (limits page)) ≠ [] := by
      apply List.ne_nil_of_length_pos
      omega
    rw [if_pos more,nextCursor,if_neg (encodeCursor_filled _ _ _),taken]
    exact .behind filled (by omega)
  · have all : rest.take (contentSize (limits page)) = rest := List.take_of_length_le (by omega)
    rw [if_neg more,nextCursor,if_pos rfl,all,whole]
    exact .done (contents_grow growing.start (growing.reached page).2 id generation)

include object authorized number here fits

theorem ReadTo.step {page : ℕ} {chunks : List ContentChunk} {cursor : String}
    (readTo : ReadTo stores id generation page chunks (some cursor)) : ∃ answer,
      readContent digest (stores page) facts principal id asked cursor (limits page) = .ok answer ∧
        ReadTo stores id generation (page+1) (chunks++answer.chunks) (nextCursor answer.nextCursor) := by
  have held := (growing.reached page).1
  obtain ⟨o',g',object',session,here'⟩ := generation_kept growing.start (growing.reached page).2 object here
  have authorized' : authorizeSession (facts o'.record.sessionID) principal .rawObjectRead = .ok access := by
    rwa [session]
  have known : 1 ≤ (generation : ℤ) := by
    have inside := ((growing.start.sound.objects id o object).generations generation).mp (by rw [here]; rfl)
    exact inside.1
  have positive : 0 ≤ asked := by
    by_cases latest : asked = 0
    · exact latest.ge
    · rw [if_neg latest] at number
      omega
  have own : asked = 0 ∨ asked = generation := by
    by_cases latest : asked = 0
    · exact .inl latest
    · rw [if_neg latest] at number
      exact .inr number
  -- what is read next, and of which generation
  have decoded : page ≤ chunks.length ∧ ∃ cursorGeneration,
      decodeCursor cursor id asked = .ok ((chunks.length : ℤ),cursorGeneration) ∧
      (if (if asked = 0 ∧ cursorGeneration ≠ 0 then cursorGeneration else asked) = 0 then o'.record.currentGeneration
        else if asked = 0 ∧ cursorGeneration ≠ 0 then cursorGeneration else asked) = generation := by
    generalize same : some cursor = status at readTo
    cases readTo.spot with
    | first start nothing =>
      obtain rfl := Option.some.inj same
      subst start nothing
      obtain rfl := Option.some.inj (object.symm.trans object')
      refine ⟨Nat.zero_le _,asked,rfl,?_⟩
      by_cases latest : asked = 0 <;> simp_all
    | behind filled pages =>
      obtain rfl := Option.some.inj same
      refine ⟨pages,generation,decode_cursor (List.length_pos_iff.mpr filled) own,?_⟩
      have chosen : (if asked = 0 ∧ (generation : ℤ) ≠ 0 then (generation : ℤ) else asked) = generation := by
        split <;> omega
      rw [chosen,if_neg (by omega)]
    | done all => cases same
  obtain ⟨pages,cursorGeneration,decoded,chosen⟩ := decoded
  obtain ⟨answer,answered,-,content,next⟩ :=
    readContent_page held object' authorized' positive (fits page) decoded chosen here'
  obtain ⟨rest,whole⟩ := readTo.within
  have cut : ((stores page).contents id generation).drop chunks.length = rest := by
    rw [← whole,List.drop_left]
  have length : ((stores page).contents id generation).length = chunks.length+rest.length := by
    rw [← whole,List.length_append]
  have joined : chunks++rest.take (contentSize (limits page)) <+: (stores page).contents id generation := by
    rw [← whole]
    exact (List.prefix_append_right_inj chunks).mpr (List.take_prefix _ _)
  have size := contentSize_pos (fits page)
  refine ⟨answer,answered,?_,?_⟩
  · rw [content,cut]
    exact joined.trans (contents_grow held (growing.grows page) id generation)
  · rw [content,cut,next,length]
    exact ReadTo.following growing size whole pages

theorem followContent_read (page : ℕ) : ∃ chunks cursor,
    followContent digest stores facts principal id asked limits page = .ok (chunks,cursor) ∧
      ReadTo stores id generation page chunks cursor := by
  induction page with
  | zero => exact ⟨[],some "",rfl,List.nil_prefix,.first rfl rfl⟩
  | succ page ih =>
    obtain ⟨chunks,cursor,read,readTo⟩ := ih
    rw [followContent,read,ok_bind]
    cases cursor with
    | none =>
      refine ⟨chunks,none,rfl,?_,?_⟩
      · exact readTo.within.trans (contents_grow (growing.reached page).1 (growing.grows page) id generation)
      · cases readTo.spot with
        | done all => exact .done all
    | some cursor =>
      obtain ⟨answer,answered,readTo'⟩ := readTo.step growing object authorized number here fits
      refine ⟨_,_,?_,readTo'⟩
      dsimp only
      rw [answered,ok_bind]

end Run

end Content

end MemoryStore
end ATape.RawArchive
