import ATape.Search.Enumeration

/-! The search index in memory, read page after page with any limits. -/
namespace ATape.ProjectSearch
open Foundation Go SourceIdentity

/-! Keyword search over any index. -/

inductive SearchFailure
  | invalid (query : InvalidQuery)
  | denied
deriving DecidableEq

section Searcher
variable (index : IndexQuery → Except SearchFailure IndexPage) (h : Hash)

/-- `Searcher.Search` -/
def searchIndex (projectID term cursor : String) (limit : ℤ) : Except SearchFailure Page := do
  let term := trimSpace term
  failWhen (term = "") (.invalid ⟨"q","must not be empty"⟩)
  failWhen (len term > maxQuerySize) (.invalid ⟨"q","must be at most 200 UTF-8 bytes"⟩)
  let limit := if limit = 0 then defaultLimit else limit
  failWhen (limit < 1 ∨ limit > maxLimit) (.invalid ⟨"limit","must be between 1 and 50"⟩)
  let after ← present (decodeCursor h cursor projectID term) (.invalid ⟨"cursor","is not valid"⟩)
  let indexed ← index ⟨projectID,term,after,limit.toNat⟩
  pure
    {projectID
     query := term
     results := indexed.documents.map EventProjection.result
     nextCursor := if indexed.hasMore = true then
       indexed.documents.getLast?.elim "" fun last => encodeCursor h ⟨last.occurredAt,last.eventID⟩ projectID term
       else ""}

theorem search_index {γ : Type} [LinearOrder γ] (l : Locale γ) (zone : ℤ → ℤ) (db : Database) (projectID term cursor : String)
    (limit : ℤ) : (search l zone db h projectID term cursor limit).mapError .invalid =
      searchIndex (fun query => .ok (searchProjectionDocuments l zone db query)) h projectID term cursor limit := by
  unfold search searchIndex
  dsimp only
  by_cases empty : trimSpace term = ""
  · rw [failWhen_pos _ empty,failWhen_pos _ empty]
    rfl
  · rw [failWhen_neg _ empty,failWhen_neg _ empty,ok_bind,ok_bind]
    by_cases long : len (trimSpace term) > maxQuerySize
    · rw [failWhen_pos _ long,failWhen_pos _ long]
      rfl
    · rw [failWhen_neg _ long,failWhen_neg _ long,ok_bind,ok_bind]
      by_cases wild : (if limit = 0 then defaultLimit else limit) < 1 ∨ (if limit = 0 then defaultLimit else limit) > maxLimit
      · rw [failWhen_pos _ wild,failWhen_pos _ wild]
        rfl
      · rw [failWhen_neg _ wild,failWhen_neg _ wild,ok_bind,ok_bind]
        cases decodeCursor h cursor projectID (trimSpace term) <;> rfl

/-- Reads page after page, each with the next of the limits, until there is no cursor. -/
def readIndex (projectID term : String) : ℕ → (ℕ → ℤ) → String → Option (List Result)
  | 0,_,_ => none
  | fuel+1,limits,cursor =>
    match searchIndex index h projectID term cursor (limits 0) with
    | .error _ => none
    | .ok page =>
      if page.nextCursor = "" then some page.results
      else (readIndex projectID term fuel (fun k => limits (k+1)) page.nextCursor).map (page.results++·)

end Searcher

/-! The index in memory. -/

structure MemoryDocument extends EventProjection where
  kind : String
  ingestSeq : ℕ
deriving DecidableEq

structure Index where
  documents : List MemoryDocument
  distinct : (documents.map (·.eventID)).Nodup

/-- What the current control plane says of a principal, and of a session of a project. -/
structure ProjectAccess where
  authorizeProject : String → String → Bool
  sessionVisible : String → String → Bool

/-- Only messages keep their texts. -/
def MemoryDocument.stored (document : MemoryDocument) : MemoryDocument :=
  if document.kind = "message" then document else {document with text := ""}

/-- A document takes the place of an older one. -/
def upsertDocument (document : MemoryDocument) : List MemoryDocument → List MemoryDocument
  | [] => [document.stored]
  | current::rest =>
    if current.eventID = document.eventID then
      if current.ingestSeq > document.ingestSeq then current::rest else document.stored::rest
    else current::upsertDocument document rest

@[simp] theorem stored_eventID (document : MemoryDocument) : document.stored.eventID = document.eventID := by
  unfold MemoryDocument.stored
  split <;> rfl

theorem mem_upsertDocument {document : MemoryDocument} {documents : List MemoryDocument} {id : String} :
    id ∈ (upsertDocument document documents).map (·.eventID) ↔
      id ∈ documents.map (·.eventID) ∨ id = document.eventID := by
  induction documents with
  | nil => simp [upsertDocument]
  | cons current rest ih =>
    rw [upsertDocument]
    split
    next same =>
      split
      next =>
        simp only [List.map_cons,List.mem_cons,same]
        tauto
      next =>
        simp only [List.map_cons,List.mem_cons,same,stored_eventID]
        tauto
    next =>
      simp only [List.map_cons,List.mem_cons,ih]
      tauto

theorem upsertDocument_distinct {document : MemoryDocument} {documents : List MemoryDocument}
    (distinct : (documents.map (·.eventID)).Nodup) : ((upsertDocument document documents).map (·.eventID)).Nodup := by
  induction documents with
  | nil => exact List.nodup_singleton _
  | cons current rest ih =>
    obtain ⟨fresh,distinct_⟩ := List.nodup_cons.mp distinct
    rw [upsertDocument]
    split
    next same =>
      split
      next => exact distinct
      next =>
        rw [List.map_cons,stored_eventID,← same]
        exact distinct
    next other =>
      refine List.nodup_cons.mpr ⟨?_,ih distinct_⟩
      rw [mem_upsertDocument]
      exact fun member => member.elim fresh other

def Index.upsertProjectionDocuments (i : Index) (documents : List MemoryDocument) : Index :=
  documents.foldl (fun i document => ⟨upsertDocument document i.documents,upsertDocument_distinct i.distinct⟩) i

/-- `strings.ToLower`, which maps each rune. -/
def lowered (lower : Char → Char) (text : String) : List Char := text.toList.map lower

/-- `strings.Index`, counted in runes. -/
def runeIndex (text sub : List Char) : Option ℕ :=
  match strpos text sub with
  | 0 => none
  | place+1 => some place

def excerpt (lower : Char → Char) (body term : String) : String :=
  let start := match runeIndex (lowered lower body) (lowered lower term) with
    | some index => index-120
    | none => 0
  let text := body.toList
  let start := min start text.length
  String.ofList ((text.drop start).take 640)

namespace MemoryDocument

def skipped (query : IndexQuery) (document : MemoryDocument) : Bool :=
  match query.after with
  | none => false
  | some after =>
    if after.time.isZero = true then !document.occurredAt.isZero || decide (document.eventID ≥ after.eventID)
    else !document.occurredAt.isZero && (document.occurredAt.after after.time ||
      document.occurredAt.equal after.time && decide (document.eventID ≥ after.eventID))

/-- The order of the page. -/
def less (left right : MemoryDocument) : Bool :=
  if left.occurredAt.isZero ≠ right.occurredAt.isZero then !left.occurredAt.isZero
  else if left.occurredAt.equal right.occurredAt = false then left.occurredAt.after right.occurredAt
  else decide (left.eventID > right.eventID)

def excerpted (lower : Char → Char) (term : String) (document : MemoryDocument) : MemoryDocument :=
  {document with text := excerpt lower document.text term}

end MemoryDocument

section Memory
variable (lower : Char → Char) (access : ProjectAccess) (principal : String) (i : Index)

def Index.searchProjectionDocuments (query : IndexQuery) : Except SearchFailure IndexPage :=
  if access.authorizeProject principal query.projectID = false then .error .denied
  else
    let term := lowered lower query.term
    let candidates := (i.documents.filter fun document =>
      !(decide (document.projectID ≠ query.projectID) || decide (document.kind ≠ "message") ||
        !decide (term <:+: lowered lower document.text)) && !document.skipped query).map
          (MemoryDocument.excerpted lower query.term)
    let documents := candidates.filter fun document => access.sessionVisible document.projectID document.sessionID
    let documents := documents.insertionSort fun left right => ¬right.less left = true
    .ok ⟨(documents.take query.limit).map (·.toEventProjection),decide (documents.length > query.limit)⟩

/-! The plain list of matches. -/

def MemoryDocument.shown (projectID term : String) (d : MemoryDocument) : Bool :=
  decide (d.projectID = projectID) && decide (d.kind = "message") && access.sessionVisible d.projectID d.sessionID &&
    decide (lowered lower term <:+: lowered lower d.text)

/-- Later times before earlier ones, known times before unknown ones, and at one time the greater identity
first. -/
def MemoryDocument.Precedes (a b : MemoryDocument) : Prop :=
  a.occurredAt.isZero = false ∧ b.occurredAt.isZero = true ∨
    a.occurredAt.isZero = b.occurredAt.isZero ∧ (b.occurredAt.nanos < a.occurredAt.nanos ∨
      a.occurredAt.nanos = b.occurredAt.nanos ∧ b.eventID < a.eventID)

structure Index.Lists (projectID term : String) (docs : List MemoryDocument) : Prop where
  exact : ∀ d, d ∈ docs ↔ d ∈ i.documents ∧ d.shown lower access projectID term = true
  distinct : docs.Nodup
  order : docs.Pairwise MemoryDocument.Precedes

def MemoryDocument.entry (term : String) (d : MemoryDocument) : Result := (d.excerpted lower term).toEventProjection.result

end Memory

namespace MemoryDocument

def sortKey (d : MemoryDocument) : WithTop ℤᵒᵈ ×ₗ Stringᵒᵈ :=
  toLex (if d.occurredAt.isZero = true then ⊤ else WithTop.some (OrderDual.toDual d.occurredAt.nanos),
    OrderDual.toDual d.eventID)

theorem precedes_key (a b : MemoryDocument) : a.Precedes b ↔ a.sortKey < b.sortKey := by
  unfold Precedes sortKey
  rw [Prod.Lex.toLex_lt_toLex]
  cases left : a.occurredAt.isZero with
  | true =>
    have zero : a.occurredAt.nanos = 0 := by simpa [Time.isZero] using left
    cases right : b.occurredAt.isZero with
    | true =>
      have zero' : b.occurredAt.nanos = 0 := by simpa [Time.isZero] using right
      simp [zero,zero']
    | false => simp
  | false => cases b.occurredAt.isZero <;> simp [WithTop.coe_lt_top]

theorem less_iff (a b : MemoryDocument) : a.less b = true ↔ a.sortKey < b.sortKey := by
  rw [← precedes_key]
  unfold less Precedes
  cases left : a.occurredAt.isZero with
  | true =>
    have zero : a.occurredAt.nanos = 0 := by simpa [Time.isZero] using left
    cases right : b.occurredAt.isZero with
    | true =>
      have zero' : b.occurredAt.nanos = 0 := by simpa [Time.isZero] using right
      simp [Time.equal,zero,zero']
    | false => simp
  | false =>
    cases b.occurredAt.isZero with
    | true => simp
    | false =>
      by_cases same : a.occurredAt.nanos = b.occurredAt.nanos <;> simp [Time.equal,Time.after,same]

theorem skipped_iff {query : IndexQuery} {after : Position} (own : query.after = some after) {a : MemoryDocument}
    (time : after.time.nanos = a.occurredAt.nanos) (id : after.eventID = a.eventID) (d : MemoryDocument) :
    d.skipped query = false ↔ a.sortKey < d.sortKey := by
  rw [← precedes_key]
  unfold skipped Precedes
  rw [own]
  simp only [Time.isZero,Time.after,Time.equal,time,id]
  by_cases zero : a.occurredAt.nanos = 0
  · by_cases zero' : d.occurredAt.nanos = 0 <;> simp [zero,zero']
  · by_cases zero' : d.occurredAt.nanos = 0
    · simp [zero,zero']
    · simp only [zero,zero',decide_false]
      simp
      grind

end MemoryDocument

section Pages
variable (lower : Char → Char) (access : ProjectAccess) (i : Index) (projectID term : String)

def Index.matching : List MemoryDocument := i.documents.filter (MemoryDocument.shown lower access projectID term)

def Index.listing : List MemoryDocument := ordered MemoryDocument.sortKey (i.matching lower access projectID term)

def memoryPage (limit : ℕ) (docs : List MemoryDocument) : IndexPage :=
  ⟨(docs.take limit).map fun d => (d.excerpted lower term).toEventProjection,decide (docs.length > limit)⟩

variable {lower access i projectID term} {principal : String}

theorem sorted_less (docs : List MemoryDocument) :
    docs.insertionSort (fun left right => ¬right.less left = true) = ordered MemoryDocument.sortKey docs := by
  have same : (fun left right : MemoryDocument => ¬right.less left = true) =
      fun left right => left.sortKey ≤ right.sortKey := by
    funext left right
    rw [MemoryDocument.less_iff,not_lt]
  simp only [same]
  rfl

theorem ordered_excerpted (docs : List MemoryDocument) :
    ordered MemoryDocument.sortKey (docs.map (MemoryDocument.excerpted lower term)) =
      (ordered MemoryDocument.sortKey docs).map (MemoryDocument.excerpted lower term) := by
  refine (List.map_insertionSort _ _ _ docs ?_).symm
  intro a _ b _
  rfl

theorem memory_page (authorized : access.authorizeProject principal projectID = true) (after : Option Position) (limit : ℕ) :
    i.searchProjectionDocuments lower access principal ⟨projectID,term,after,limit⟩ =
      .ok (memoryPage lower term limit (ordered MemoryDocument.sortKey
        ((i.matching lower access projectID term).filter fun d => !d.skipped ⟨projectID,term,after,limit⟩))) := by
  unfold Index.searchProjectionDocuments
  rw [if_neg (by simp [authorized])]
  dsimp only
  rw [List.filter_map,List.filter_filter,sorted_less,ordered_excerpted]
  have picked : i.documents.filter (fun d =>
      ((fun document : MemoryDocument => access.sessionVisible document.projectID document.sessionID) ∘
        MemoryDocument.excerpted lower term) d &&
      (!(decide (d.projectID ≠ projectID) || decide (d.kind ≠ "message") ||
        !decide (lowered lower term <:+: lowered lower d.text)) && !d.skipped ⟨projectID,term,after,limit⟩)) =
      (i.matching lower access projectID term).filter fun d => !d.skipped ⟨projectID,term,after,limit⟩ := by
    unfold Index.matching
    rw [List.filter_filter]
    apply List.filter_congr
    intro d _
    have seen : (MemoryDocument.excerpted lower term d).projectID = d.projectID ∧
        (MemoryDocument.excerpted lower term d).sessionID = d.sessionID := ⟨rfl,rfl⟩
    rw [Bool.eq_iff_iff]
    simp only [Function.comp,MemoryDocument.shown,seen,Bool.and_eq_true,Bool.not_eq_true',Bool.or_eq_false_iff,
      decide_eq_true_eq,decide_eq_false_iff_not,not_not,Bool.not_eq_false']
    tauto
  rw [picked,memoryPage,← List.map_take,List.map_map,List.length_map]
  rfl

theorem memory_first (authorized : access.authorizeProject principal projectID = true) (limit : ℕ) :
    i.searchProjectionDocuments lower access principal ⟨projectID,term,none,limit⟩ =
      .ok (memoryPage lower term limit (i.listing lower access projectID term)) := by
  rw [memory_page authorized,Index.listing,List.filter_eq_self.mpr]
  intro d _
  rfl

theorem memory_after (authorized : access.authorizeProject principal projectID = true) (limit : ℕ) {after : Position}
    {a : MemoryDocument} (time : after.time.nanos = a.occurredAt.nanos) (id : after.eventID = a.eventID) :
    i.searchProjectionDocuments lower access principal ⟨projectID,term,some after,limit⟩ =
      .ok (memoryPage lower term limit (above MemoryDocument.sortKey a.sortKey (i.matching lower access projectID term))) := by
  rw [memory_page authorized,above]
  congr 4
  funext d
  have behind := @MemoryDocument.skipped_iff ⟨projectID,term,some after,limit⟩ after rfl a time id d
  rw [Bool.eq_iff_iff,Bool.not_eq_true',behind,decide_eq_true_iff]

theorem memoryKeys_distinct : ((i.matching lower access projectID term).map MemoryDocument.sortKey).Nodup := by
  have ids : ((i.matching lower access projectID term).map (·.eventID)).Nodup :=
    i.distinct.sublist (List.filter_sublist.map _)
  apply List.Nodup.map_on _ (List.Nodup.of_map _ ids)
  intro a member b member' same
  apply List.inj_on_of_nodup_map ids member member'
  exact OrderDual.toDual_inj.mp (Prod.mk.inj (toLex_inj.mp same)).2

theorem memory_lists : i.Lists lower access projectID term (i.listing lower access projectID term) := by
  have whole := ordered_perm MemoryDocument.sortKey (i.matching lower access projectID term)
  have apart := (whole.map MemoryDocument.sortKey).nodup_iff.mpr memoryKeys_distinct
  constructor
  · intro d
    rw [Index.listing,mem_ordered,Index.matching,List.mem_filter]
  · exact List.Nodup.of_map _ apart
  · have sorted := ordered_pairwise MemoryDocument.sortKey (i.matching lower access projectID term)
    apply (sorted.and (List.pairwise_map.mp apart)).imp
    intro a b both
    exact (a.precedes_key b).mpr (lt_of_le_of_ne both.1 both.2)

theorem memoryLists_unique {docs : List MemoryDocument} (lists : i.Lists lower access projectID term docs) :
    docs = i.listing lower access projectID term := by
  have own := @memory_lists lower access i projectID term
  have perm : docs.Perm (i.listing lower access projectID term) := by
    rw [List.perm_ext_iff_of_nodup lists.distinct own.distinct]
    intro d
    rw [lists.exact,own.exact]
  refine List.Perm.eq_of_pairwise ?_ lists.order own.order perm
  intro a b _ _ first second
  rw [MemoryDocument.precedes_key] at first second
  exact absurd first second.not_gt

end Pages

/-! Cursors of any position. -/

section Cursors
variable {h : Hash} {projectID term : String}

/-- A position whose time is unknown, or can be written: its year has four digits and its zone is less than a
day from UTC. -/
def Position.Writable (p : Position) : Prop := p.time.isZero = true ∨ p.time.Strict

/-- The time of a position as the cursor holds it. -/
def Position.known (p : Position) : Option Time := if p.time.isZero = true then none else some p.time

theorem Position.known_strict {p : Position} (writable : p.Writable) : ∀ t ∈ p.known, t.Strict := by
  intro t member
  unfold Position.known at member
  split at member
  next => cases member
  next late =>
    rw [← Option.some.inj member]
    exact writable.resolve_left late

theorem encode_writable {p : Position} (writable : p.Writable) : encodeCursor h p projectID term =
    encodedJSON (cursorJson (cursorScope h projectID term) p.known p.eventID) := by
  have body : cursorBody h p projectID term = some (cursorJson (cursorScope h projectID term) p.known p.eventID) := by
    unfold cursorBody Position.known
    split
    next => rfl
    next late =>
      have marshalled : p.time.marshalText = some (String.ofList p.time.formatRFC3339) := if_pos (writable.resolve_left late)
      simp [marshalled,cursorJson,timeJson]
  rw [encodeCursor,body]

theorem encode_unwritable {p : Position} (unwritable : ¬p.Writable) : encodeCursor h p projectID term = "" := by
  unfold Position.Writable at unwritable
  rw [not_or] at unwritable
  have body : cursorBody h p projectID term = none := by
    simp [cursorBody,unwritable.1,Time.marshalText,unwritable.2]
  rw [encodeCursor,body]
  rfl

theorem encode_filled {p : Position} (writable : p.Writable) : encodeCursor h p projectID term ≠ "" := by
  have read := readCursor_written (cursorScope h projectID term) (Position.known_strict writable) p.eventID
  rw [encode_writable writable]
  intro empty
  have bytes := congrArg decodeRawURL empty
  rw [encodedJSON,decode_encodeRawURL] at bytes
  have none_ : utf8 (marshal (cursorJson (cursorScope h projectID term) p.known p.eventID)).toList = [] := Option.some.inj bytes
  have text := congrArg utf8Decode none_
  rw [utf8Decode_utf8] at text
  have nil : (marshal (cursorJson (cursorScope h projectID term) p.known p.eventID)).toList = [] := Option.some.inj text
  rw [String.toList_eq_nil_iff] at nil
  rw [nil] at read
  cases read

theorem decode_position {p : Position} (writable : p.Writable) {value : String} (named : p.eventID = stableID h "e_" value) :
    decodeCursor h (encodeCursor h p projectID term) projectID term = some (some ⟨p.known.getD .zero,p.eventID⟩) := by
  have read := readCursor_written (cursorScope h projectID term) (Position.known_strict writable) p.eventID
  have short : ¬len (encodeCursor h p projectID term) > 1024 := by
    rw [encode_writable writable,named]
    exact not_lt.mpr (encodedCursor_short projectID term _ value)
  have id := @stableID_plain h "e_" event_plain value
  have filled : p.eventID ≠ "" := by
    rw [named]
    simp [stableID]
  have small : len p.eventID ≤ 200 := by
    have bytes := len_le p.eventID.toList
    have length := id.2
    rw [String.ofList_toList] at bytes
    rw [← named] at length
    have mark : "e_".toList.length = 2 := rfl
    omega
  have accepted : PageCursor.matchesQuery h ⟨2,cursorScope h projectID term,⟨p.known,p.eventID⟩⟩ projectID term = true := by
    unfold PageCursor.matchesQuery Position.known
    split
    next => simp [filled,small]
    next late => simp [filled,small,late]
  unfold decodeCursor
  rw [if_neg (encode_filled writable),if_neg short,encode_writable writable,encodedJSON,decode_encodeRawURL]
  simp only [Option.bind_eq_bind,Option.bind_some,utf8Decode_utf8,String.ofList_toList,read,accepted]
  rfl

theorem idxOf_small {a : Char} (hex : a ∈ hexDigits) : hexDigits.idxOf a < 16 :=
  List.idxOf_lt_length_of_mem hex

theorem hexBytes_inj {digits digits' : List Char} (hex : ∀ c ∈ digits, c ∈ hexDigits) (hex' : ∀ c ∈ digits', c ∈ hexDigits)
    {n : ℕ} (length : digits.length = 2*n) (length' : digits'.length = 2*n) (same : hexBytes digits = hexBytes digits') :
    digits = digits' := by
  induction n generalizing digits digits' with
  | zero =>
    rw [List.length_eq_zero_iff.mp length,List.length_eq_zero_iff.mp length']
  | succ n ih =>
    match digits,digits' with
    | high::low::rest,high'::low'::rest' =>
      simp only [hexBytes,List.cons.injEq] at same
      obtain ⟨byte,rest_⟩ := same
      have small := idxOf_small (hex high List.mem_cons_self)
      have small_ := idxOf_small (hex low (List.mem_cons_of_mem _ List.mem_cons_self))
      have small' := idxOf_small (hex' high' List.mem_cons_self)
      have small_' := idxOf_small (hex' low' (List.mem_cons_of_mem _ List.mem_cons_self))
      have numbers := congrArg UInt8.toNat byte
      simp only [Nat.toUInt8,UInt8.toNat_ofNat'] at numbers
      rw [Nat.mod_eq_of_lt (by omega),Nat.mod_eq_of_lt (by omega)] at numbers
      have first : high = high' := (List.idxOf_inj (hex high List.mem_cons_self)).mp (by omega)
      have second : low = low' := (List.idxOf_inj (hex low (List.mem_cons_of_mem _ List.mem_cons_self))).mp (by omega)
      have tails : rest = rest' := by
        refine ih ?_ ?_ ?_ ?_ rest_
        · exact fun c member => hex c (List.mem_cons_of_mem _ (List.mem_cons_of_mem _ member))
        · exact fun c member => hex' c (List.mem_cons_of_mem _ (List.mem_cons_of_mem _ member))
        · simp only [List.length_cons] at length
          omega
        · simp only [List.length_cons] at length'
          omega
      rw [first,second,tails]

theorem cursorScope_inj {projectID' term' : String} (same : cursorScope h projectID term = cursorScope h projectID' term') :
    h.hex (projectID++"\x00"++term) = h.hex (projectID'++"\x00"++term') := by
  have bytes := congrArg decodeRawURL same
  rw [cursorScope,cursorScope,decode_encodeRawURL,decode_encodeRawURL] at bytes
  have digits := hexBytes_inj (h.digits _) (h.digits _) (n := 32) (h.length _) (h.length _) (Option.some.inj bytes)
  exact String.toList_inj.mp digits

theorem parts_inj {mark : Char} {front front' back back' : List Char} (plain : mark ∉ front) (plain' : mark ∉ front')
    (same : front++mark::back = front'++mark::back') : front = front' ∧ back = back' := by
  induction front generalizing front' with
  | nil =>
    cases front' with
    | nil => exact ⟨rfl,(List.cons.inj same).2⟩
    | cons c front' => exact absurd ((List.cons.inj same).1 ▸ List.mem_cons_self) plain'
  | cons c front ih =>
    cases front' with
    | nil => exact absurd ((List.cons.inj same).1 ▸ List.mem_cons_self) plain
    | cons c' front' =>
      obtain ⟨rfl,rest⟩ := List.cons.inj same
      obtain ⟨rfl,backs⟩ := ih (List.not_mem_of_not_mem_cons plain) (List.not_mem_of_not_mem_cons plain') rest
      exact ⟨rfl,backs⟩

theorem scope_parts {projectID' term' : String} (plain : '\x00' ∉ projectID.toList) (plain' : '\x00' ∉ projectID'.toList)
    (same : projectID++"\x00"++term = projectID'++"\x00"++term') : projectID = projectID' ∧ term = term' := by
  have chars := congrArg String.toList same
  have mark : "\x00".toList = ['\x00'] := rfl
  simp only [String.toList_append,mark,List.append_assoc,List.singleton_append] at chars
  obtain ⟨first,second⟩ := parts_inj plain plain' chars
  exact ⟨String.toList_inj.mp first,String.toList_inj.mp second⟩

theorem decode_foreign {p : Position} (writable : p.Writable) {projectID' term' : String}
    (other : cursorScope h projectID term ≠ cursorScope h projectID' term') :
    decodeCursor h (encodeCursor h p projectID term) projectID' term' = none := by
  have read := readCursor_written (cursorScope h projectID term) (Position.known_strict writable) p.eventID
  unfold decodeCursor
  rw [if_neg (encode_filled writable)]
  split
  next => rfl
  next =>
    rw [encode_writable writable,encodedJSON,decode_encodeRawURL]
    simp only [Option.bind_eq_bind,Option.bind_some,utf8Decode_utf8,String.ofList_toList,read]
    simp [PageCursor.matchesQuery,other]

end Cursors

/-! Excerpts. -/

theorem excerpt_window (lower : Char → Char) (body term : String) : (excerpt lower body term).toList =
    substring body.toList (max 1 (strpos (lowered lower body) (lowered lower term)-120)) 640 := by
  have cut : ∀ start, body.toList.drop (min start body.toList.length) = body.toList.drop start := by
    intro start
    rcases le_total start body.toList.length with inside|beyond
    · rw [min_eq_left inside]
    · rw [min_eq_right beyond,List.drop_length,List.drop_eq_nil_of_le beyond]
  unfold excerpt substring runeIndex
  dsimp only
  rw [String.toList_ofList,cut]
  cases strpos (lowered lower body) (lowered lower term) with
  | zero =>
    have start : max 1 (0-120)-1 = 0 := by omega
    rw [start]
  | succ place =>
    have start : max 1 (place+1-120)-1 = place-120 := by omega
    rw [start]

theorem memory_excerpt {lower : Char → Char} {access : ProjectAccess} {projectID term : String} {limit : ℤ}
    (request : Request term limit) {d : MemoryDocument} (shown : d.shown lower access projectID (trimSpace term) = true) :
    (d.entry lower (trimSpace term)).text.toList.length ≤ 640 ∧
      Shows (⟨lower,id⟩ : Locale String) (lowered lower (trimSpace term)) d.text.toList
        (d.entry lower (trimSpace term)).text.toList := by
  have text : (d.entry lower (trimSpace term)).text = excerpt lower d.text (trimSpace term) := rfl
  unfold MemoryDocument.shown at shown
  simp only [Bool.and_eq_true,decide_eq_true_eq] at shown
  have short : (lowered lower (trimSpace term)).length ≤ 200 := by
    have bytes := request.short
    have chars := length_le_len (trimSpace term).toList
    unfold maxQuerySize at bytes
    rw [String.ofList_toList] at chars
    rw [lowered,List.length_map]
    omega
  rw [text,excerpt_window]
  constructor
  · rw [substring,List.length_take]
    exact min_le_left _ _
  · exact excerpt_shows (⟨lower,id⟩ : Locale String) shown.2 short

/-! Page after page. -/

section Reading
variable {index : IndexQuery → Except SearchFailure IndexPage} {h : Hash} {projectID term cursor : String} {limit : ℤ}

theorem Request.inside (request : Request term limit) :
    ¬((if limit = 0 then defaultLimit else limit) < 1 ∨ (if limit = 0 then defaultLimit else limit) > maxLimit) := by
  have low := request.low
  have high := request.high
  unfold defaultLimit maxLimit at *
  split <;> omega

theorem searchIndex_eq (request : Request term limit) : searchIndex index h projectID term cursor limit = (do
    let after ← present (decodeCursor h cursor projectID (trimSpace term)) (.invalid ⟨"cursor","is not valid"⟩)
    let indexed ← index ⟨projectID,trimSpace term,after,pageSize limit⟩
    pure
      {projectID
       query := trimSpace term
       results := indexed.documents.map EventProjection.result
       nextCursor := if indexed.hasMore = true then
         indexed.documents.getLast?.elim "" fun last =>
           encodeCursor h ⟨last.occurredAt,last.eventID⟩ projectID (trimSpace term) else ""}) := by
  unfold searchIndex
  dsimp only
  rw [failWhen_neg _ request.filled,ok_bind,failWhen_neg _ (not_lt.mpr request.short),ok_bind,
    failWhen_neg _ request.inside,ok_bind]
  rfl

theorem searchIndex_rejected (request : Request term limit)
    (foreign : decodeCursor h cursor projectID (trimSpace term) = none) :
    searchIndex index h projectID term cursor limit = .error (.invalid ⟨"cursor","is not valid"⟩) := by
  rw [searchIndex_eq request,foreign]
  rfl

theorem searchIndex_issued {page : Page} (found : searchIndex index h projectID term cursor limit = .ok page)
    (issued : page.nextCursor ≠ "") :
    ∃ p : Position, p.Writable ∧ page.nextCursor = encodeCursor h p projectID (trimSpace term) := by
  simp only [searchIndex,bind_ok,pure_ok] at found
  obtain ⟨_,-,_,-,_,-,after,-,indexed,-,rfl⟩ := found
  dsimp only at issued ⊢
  split at issued
  next more =>
    rw [if_pos more]
    cases last : indexed.documents.getLast? with
    | none =>
      rw [last] at issued
      exact absurd rfl issued
    | some d =>
      rw [last] at issued
      refine ⟨⟨d.occurredAt,d.eventID⟩,?_,rfl⟩
      by_contra unwritable
      exact issued (encode_unwritable unwritable)
  next => exact absurd rfl issued

end Reading

def MemoryDocument.position (d : MemoryDocument) : Position := ⟨d.occurredAt,d.eventID⟩

def pageEnd (limits : ℕ → ℤ) (page : ℕ) : ℕ := ∑ k ∈ Finset.range (page+1), pageSize (limits k)

/-- Every document that ends a page, with more behind it, has a time that a cursor can hold. -/
def Resumes (limits : ℕ → ℤ) (docs : List MemoryDocument) : Prop :=
  ∀ page d, pageEnd limits page < docs.length → docs[pageEnd limits page-1]? = some d → d.position.Writable

section Ends
variable {limits : ℕ → ℤ}

theorem pageEnd_zero : pageEnd limits 0 = pageSize (limits 0) := by
  rw [pageEnd,Finset.sum_range_one]

theorem pageEnd_succ (page : ℕ) : pageEnd limits (page+1) = pageSize (limits 0)+pageEnd (fun k => limits (k+1)) page := by
  rw [pageEnd,Finset.sum_range_succ',Nat.add_comm]
  rfl

theorem pageEnd_pos (sizes : ∀ k, 0 < pageSize (limits k)) (page : ℕ) : 0 < pageEnd limits page :=
  Finset.sum_pos (fun k _ => sizes k) ⟨0,Finset.mem_range.mpr (Nat.succ_pos page)⟩

theorem resumes_short {docs : List MemoryDocument} (short : docs.length ≤ pageSize (limits 0)) : Resumes limits docs := by
  intro page d more
  have first : pageSize (limits 0) ≤ pageEnd limits page := by
    cases page with
    | zero => exact pageEnd_zero.ge
    | succ page =>
      rw [pageEnd_succ]
      exact Nat.le_add_right _ _
  omega

theorem resumes_split (sizes : ∀ k, 0 < pageSize (limits k)) {before rest : List MemoryDocument} (a : MemoryDocument)
    (size : before.length+1 = pageSize (limits 0)) : Resumes limits (before++a::rest) ↔
      (rest ≠ [] → a.position.Writable) ∧ Resumes (fun k => limits (k+1)) rest := by
  have length : (before++a::rest).length = pageSize (limits 0)+rest.length := by
    rw [List.length_append,List.length_cons]
    omega
  have place : ∀ page, (before++a::rest)[pageEnd limits (page+1)-1]? = rest[pageEnd (fun k => limits (k+1)) page-1]? := by
    intro page
    have some_ := @pageEnd_pos (fun k => limits (k+1)) (fun k => sizes (k+1)) page
    have index : pageEnd limits (page+1)-1 = before.length+(pageEnd (fun k => limits (k+1)) page-1+1) := by
      rw [pageEnd_succ]
      omega
    rw [index,List.getElem?_append_right (Nat.le_add_right _ _),Nat.add_sub_cancel_left,List.getElem?_cons_succ]
  constructor
  · intro all
    constructor
    · intro some_
      have filled := List.length_pos_iff.mpr some_
      apply all 0 a
      · rw [pageEnd_zero]
        omega
      · rw [pageEnd_zero,← size]
        simp
    · intro page d long here
      refine all (page+1) d ?_ ((place page).trans here)
      rw [pageEnd_succ]
      omega
  · intro both page d long here
    obtain ⟨first,later⟩ := both
    cases page with
    | zero =>
      rw [pageEnd_zero,← size] at here
      have own : d = a := by simpa using here.symm
      rw [own]
      apply first
      intro empty
      rw [pageEnd_zero,length,empty,List.length_nil] at long
      omega
    | succ page =>
      refine later page d ?_ ((place page).symm.trans here)
      rw [pageEnd_succ] at long
      omega

end Ends

structure Index.Enumerates (i : Index) (lower : Char → Char) (access : ProjectAccess) (principal : String) (h : Hash)
    (projectID term : String) (limits : ℕ → ℤ) : Prop where
  pages : ∃ docs, i.Lists lower access projectID (trimSpace term) docs ∧
    readIndex (i.searchProjectionDocuments lower access principal) h projectID term (i.documents.length+1) limits "" =
      some (docs.map (MemoryDocument.entry lower (trimSpace term)))
  excerpts : ∀ d : MemoryDocument, d.shown lower access projectID (trimSpace term) = true →
    (d.entry lower (trimSpace term)).text.toList.length ≤ 640 ∧
      Shows (⟨lower,id⟩ : Locale String) (lowered lower (trimSpace term)) d.text.toList
        (d.entry lower (trimSpace term)).text.toList
  guarded : ∀ cursor limit page, searchIndex (i.searchProjectionDocuments lower access principal) h projectID term cursor
      limit = .ok page → page.nextCursor ≠ "" →
    ∀ projectID' term' limit', Request term' limit' → (projectID',trimSpace term') ≠ (projectID,trimSpace term) →
      '\x00' ∉ projectID.toList → '\x00' ∉ projectID'.toList →
      Set.InjOn h.hex {projectID++"\x00"++trimSpace term,projectID'++"\x00"++trimSpace term'} →
      searchIndex (i.searchProjectionDocuments lower access principal) h projectID' term' page.nextCursor limit' =
        .error (.invalid ⟨"cursor","is not valid"⟩)

section Memory
variable {lower : Char → Char} {access : ProjectAccess} {principal : String} {i : Index} {h : Hash} {projectID term : String}

theorem memory_guarded {cursor : String} {limit : ℤ} {page : Page}
    (found : searchIndex (i.searchProjectionDocuments lower access principal) h projectID term cursor limit = .ok page)
    (issued : page.nextCursor ≠ "") {projectID' term' : String} {limit' : ℤ} (request : Request term' limit')
    (other : (projectID',trimSpace term') ≠ (projectID,trimSpace term)) (plain : '\x00' ∉ projectID.toList)
    (plain' : '\x00' ∉ projectID'.toList)
    (apart : Set.InjOn h.hex {projectID++"\x00"++trimSpace term,projectID'++"\x00"++trimSpace term'}) :
    searchIndex (i.searchProjectionDocuments lower access principal) h projectID' term' page.nextCursor limit' =
      .error (.invalid ⟨"cursor","is not valid"⟩) := by
  obtain ⟨p,writable,same⟩ := searchIndex_issued found issued
  apply searchIndex_rejected request
  rw [same]
  apply decode_foreign writable
  intro scopes
  have texts := apart (.inl rfl) (.inr rfl) (cursorScope_inj scopes)
  obtain ⟨projects,terms⟩ := scope_parts plain plain' texts
  exact other (by rw [projects,terms])

variable (authorized : access.authorizeProject principal projectID = true)
  (named : ∀ d ∈ i.documents, ∃ value, d.eventID = stableID h "e_" value)
include authorized named

theorem readIndex_iff {fuel : ℕ} {limits : ℕ → ℤ} (requests : ∀ k, Request term (limits k))
    {before docs : List MemoryDocument} (enough : docs.length < fuel)
    (whole : i.listing lower access projectID (trimSpace term) = before++docs) {cursor : String} {after : Option Position}
    (decoded : decodeCursor h cursor projectID (trimSpace term) = some after)
    (read : ∀ limit, i.searchProjectionDocuments lower access principal ⟨projectID,trimSpace term,after,limit⟩ =
      .ok (memoryPage lower (trimSpace term) limit docs)) :
    readIndex (i.searchProjectionDocuments lower access principal) h projectID term fuel limits cursor =
      some (docs.map (MemoryDocument.entry lower (trimSpace term))) ↔ Resumes limits docs := by
  induction fuel generalizing before docs cursor after limits with
  | zero => omega
  | succ fuel ih =>
    rw [readIndex,searchIndex_eq (requests 0),decoded,present_some,ok_bind,read,ok_bind,memoryPage]
    dsimp only [pure,Except.pure]
    rw [List.map_map,List.getLast?_map]
    by_cases more : docs.length > pageSize (limits 0)
    · rw [if_pos (decide_eq_true more)]
      -- the last document of the page, and what is behind it
      have sizes : ∀ k, 0 < pageSize (limits k) := fun k => (requests k).size
      have size := sizes 0
      obtain ⟨a,rest,tail⟩ : ∃ a rest, docs.drop (pageSize (limits 0)-1) = a::rest := by
        cases cut : docs.drop (pageSize (limits 0)-1) with
        | nil =>
          have none_ := List.drop_eq_nil_iff.mp cut
          omega
        | cons a rest => exact ⟨a,rest,rfl⟩
      have parts : docs = docs.take (pageSize (limits 0)-1)++a::rest := by rw [← tail,List.take_append_drop]
      have length : (docs.take (pageSize (limits 0)-1)).length+1 = pageSize (limits 0) := by
        rw [List.length_take]
        omega
      generalize docs.take (pageSize (limits 0)-1) = front at parts length
      subst parts
      have taken : (front++a::rest).take (pageSize (limits 0)) = front++[a] := by
        rw [← length,List.take_append]
        simp
      have some_ : rest ≠ [] := by
        intro empty
        rw [empty,List.length_append,List.length_singleton] at more
        omega
      have inside : a ∈ i.documents := by
        have member : a ∈ i.listing lower access projectID (trimSpace term) := by
          rw [whole]
          simp
        exact (memory_lists.exact a).mp member |>.1
      rw [taken,List.getLast?_concat,Option.map_some,Option.elim_some,resumes_split sizes a length]
      have cursor_ : encodeCursor h ⟨((a.excerpted lower (trimSpace term)).toEventProjection).occurredAt,
          ((a.excerpted lower (trimSpace term)).toEventProjection).eventID⟩ projectID (trimSpace term) =
          encodeCursor h a.position projectID (trimSpace term) := rfl
      rw [cursor_]
      by_cases writable : a.position.Writable
      · obtain ⟨value,name⟩ := named a inside
        have next := @decode_position h projectID (trimSpace term) a.position writable value name
        have split_ : i.listing lower access projectID (trimSpace term) = (before++front)++a::rest := by
          rw [whole,List.append_assoc]
        have time : (a.position.known.getD .zero).nanos = a.occurredAt.nanos := by
          unfold Position.known
          split
          next zero => exact (of_decide_eq_true zero).symm
          next => rfl
        have page : ∀ limit, i.searchProjectionDocuments lower access principal
            ⟨projectID,trimSpace term,some ⟨a.position.known.getD .zero,a.position.eventID⟩,limit⟩ =
              .ok (memoryPage lower (trimSpace term) limit rest) := by
          intro limit
          have behind := @memory_after lower access i projectID (trimSpace term) principal authorized limit
            ⟨a.position.known.getD .zero,a.position.eventID⟩ a time rfl
          rwa [above_split _ split_ memoryKeys_distinct] at behind
        have shorter : rest.length < fuel := by
          rw [List.length_append,List.length_cons] at enough
          omega
        have later := ih (fun k => requests (k+1)) shorter (split_.trans (List.append_assoc _ [a] rest).symm) next page
        rw [if_neg (encode_filled writable),← later]
        have shown : (front++[a]).map (EventProjection.result ∘ fun d => (d.excerpted lower (trimSpace term)).toEventProjection) =
            (front++[a]).map (MemoryDocument.entry lower (trimSpace term)) := rfl
        rw [shown]
        constructor
        · intro all
          obtain ⟨results,found,same⟩ := Option.map_eq_some_iff.mp all
          refine ⟨fun _ => writable,?_⟩
          rw [found]
          have cut : (front++[a]).map (MemoryDocument.entry lower (trimSpace term))++results =
              (front++[a]).map (MemoryDocument.entry lower (trimSpace term))++
                rest.map (MemoryDocument.entry lower (trimSpace term)) := by
            rw [same,← List.map_append,List.append_assoc,List.singleton_append]
          rw [List.append_cancel_left cut]
        · intro both
          rw [both.2,Option.map_some,← List.map_append,List.append_assoc,List.singleton_append]
      · rw [if_pos (encode_unwritable writable)]
        constructor
        · intro all
          have lengths := congrArg List.length (Option.some.inj all)
          rw [List.length_map,List.length_map,List.length_append,List.length_append,List.length_singleton,
            List.length_cons] at lengths
          have filled := List.length_pos_iff.mpr some_
          omega
        · intro both
          exact absurd (both.1 some_) writable
    · rw [if_neg (by simpa using more : ¬decide (docs.length > pageSize (limits 0)) = true),if_pos rfl,List.take_of_length_le (not_lt.mp more)]
      exact iff_of_true rfl (resumes_short (not_lt.mp more))

end Memory

section Far

def memoryMessage (value occurredAt text : String) : MemoryDocument where
  projectID := "p_1"
  sessionID := "s_1"
  sessionTitle := "Notes"
  threadID := "root"
  threadPath := [("root","Main")]
  eventID := stableID lateHash "e_" value
  author := "codex"
  harness := "codex"
  occurredAt := (parseRFC3339 occurredAt).getD .zero
  text := text
  kind := "message"
  ingestSeq := 1

/-- A zone of a whole day is read but not written. -/
def farMessage : MemoryDocument := memoryMessage "evt-1" "2026-01-02T00:00:00+24:00" "Hello tomorrow"

def nearMessage : MemoryDocument := memoryMessage "evt-2" "2025-12-31T00:00:00Z" "Hello today"

def farIndex : Index := ⟨[farMessage,nearMessage],by decide⟩

def openAccess : ProjectAccess := ⟨fun _ _ => true,fun _ _ => true⟩

theorem farIndex_named : ∀ d ∈ farIndex.documents, ∃ value, d.eventID = stableID lateHash "e_" value := by
  intro d member
  cases List.mem_cons.mp member with
  | inl first => exact ⟨"evt-1",by rw [first]; rfl⟩
  | inr rest => exact ⟨"evt-2",by rw [List.mem_singleton.mp rest]; rfl⟩

end Far

end ATape.ProjectSearch
