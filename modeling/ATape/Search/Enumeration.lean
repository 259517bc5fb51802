import ATape.Search.Paging
import Mathlib.Data.String.Basic

/-! A search that is read page after page gives the plain list of matches, unless a page ends with a time that
its cursor cannot hold. -/
namespace ATape.ProjectSearch
open Foundation Go SourceIdentity

/-- The documents as the index keeps them: the identity is the key of the table and a digest, and a known time
is never the zero time. -/
structure Database.Indexed (h : Hash) (db : Database) : Prop where
  distinct : (db.documents.map (·.eventID)).Nodup
  named : ∀ d ∈ db.documents, ∃ value, d.eventID = stableID h "e_" value
  times : ∀ d ∈ db.documents, d.occurredAt ≠ some 0

/-- A request that passes the checks of the search. No limit is the default limit. -/
structure Request (term : String) (limit : ℤ) : Prop where
  filled : trimSpace term ≠ ""
  short : len (trimSpace term) ≤ maxQuerySize
  low : 0 ≤ limit
  high : limit ≤ maxLimit

def pageSize (limit : ℤ) : ℕ := (if limit = 0 then defaultLimit else limit).toNat

theorem Request.size {term : String} {limit : ℤ} (request : Request term limit) : 0 < pageSize limit := by
  have low := request.low
  unfold pageSize defaultLimit
  split
  · decide
  · omega

section Listings
variable {γ : Type} [LinearOrder γ] (l : Locale γ)

/-- Later times before earlier ones, known times before unknown ones, and at one time the greater identity
first. -/
def Document.Precedes (a b : Document) : Prop :=
  match a.occurredAt,b.occurredAt with
  | some t,some u => u < t ∨ t = u ∧ l.collate b.eventID < l.collate a.eventID
  | some _,none => True
  | none,some _ => False
  | none,none => l.collate b.eventID < l.collate a.eventID

theorem precedes_iff (a b : Document) : a.Precedes l b ↔ a.sortKey l < b.sortKey l := by
  unfold Document.Precedes Document.sortKey
  rw [Prod.Lex.toLex_lt_toLex]
  cases a.occurredAt with
  | none => cases b.occurredAt <;> simp
  | some t => cases b.occurredAt <;> simp [WithTop.coe_lt_top]

/-- The matches of a project, each once and in order. -/
structure Lists (db : Database) (projectID term : String) (docs : List Document) : Prop where
  exact : ∀ d, d ∈ docs ↔ d ∈ db.documents ∧ db.shows l projectID term d = true
  distinct : docs.Nodup
  order : docs.Pairwise (Document.Precedes l)

variable {l} {db : Database} {h : Hash} (indexed : db.Indexed h) (collates : Function.Injective l.collate)
include indexed collates

omit [LinearOrder γ] in
theorem sortKeys_distinct (projectID term : String) :
    ((db.matching l projectID term).map (Document.sortKey l)).Nodup := by
  have ids : ((db.matching l projectID term).map (·.eventID)).Nodup :=
    indexed.distinct.sublist (List.filter_sublist.map _)
  apply List.Nodup.map_on _ (List.Nodup.of_map _ ids)
  intro a member b member' same
  apply List.inj_on_of_nodup_map ids member member'
  exact collates (OrderDual.toDual_inj.mp (Prod.mk.inj (toLex_inj.mp same)).2)

theorem listing_lists (projectID term : String) : Lists l db projectID term (listing l db projectID term) := by
  have keys := sortKeys_distinct indexed collates projectID term
  have whole := ordered_perm (Document.sortKey l) (db.matching l projectID term)
  have apart := (whole.map (Document.sortKey l)).nodup_iff.mpr keys
  constructor
  · intro d
    rw [listing,mem_ordered,Database.matching,List.mem_filter]
  · exact List.Nodup.of_map _ apart
  · have sorted := ordered_pairwise (Document.sortKey l) (db.matching l projectID term)
    have differ := List.pairwise_map.mp apart
    apply (sorted.and differ).imp
    intro a b both
    exact (precedes_iff l a b).mpr (lt_of_le_of_ne both.1 both.2)

theorem lists_unique {projectID term : String} {docs : List Document} (lists : Lists l db projectID term docs) :
    docs = listing l db projectID term := by
  have own := listing_lists indexed collates projectID term
  have perm : docs.Perm (listing l db projectID term) := by
    rw [List.perm_ext_iff_of_nodup lists.distinct own.distinct]
    intro d
    rw [lists.exact,own.exact]
  refine List.Perm.eq_of_pairwise ?_ lists.order own.order perm
  intro a b _ _ first second
  rw [precedes_iff] at first second
  exact absurd first second.not_gt

end Listings

section Pages
variable {γ : Type} [LinearOrder γ] {l : Locale γ} {zone : ℤ → ℤ} {db : Database} {h : Hash} {projectID term : String}
  {limit : ℤ}

def entry (l : Locale γ) (zone : ℤ → ℤ) (term : String) (d : Document) : Result :=
  (projection zone (searchRow l (l.literal term) d)).result

/-- Every document that ends a page, with more behind it, has a time that a cursor can hold. -/
def Resumable (zone : ℤ → ℤ) (size : ℕ) (docs : List Document) : Prop :=
  ∀ page d, (page+1)*size < docs.length → docs[(page+1)*size-1]? = some d → d.Writable zone

theorem resumable_short {size : ℕ} {docs : List Document} (short : docs.length ≤ size) : Resumable zone size docs := by
  intro page d more
  have first : size ≤ (page+1)*size := Nat.le_mul_of_pos_left size (Nat.succ_pos page)
  omega

theorem resumable_split {before rest : List Document} (a : Document) :
    Resumable zone (before.length+1) (before++a::rest) ↔
      (rest ≠ [] → a.Writable zone) ∧ Resumable zone (before.length+1) rest := by
  have place : ∀ page d, (before++a::rest)[(page+1+1)*(before.length+1)-1]? = some d ↔
      rest[(page+1)*(before.length+1)-1]? = some d := by
    intro page d
    have index : (page+1+1)*(before.length+1)-1 = before.length+((page+1)*(before.length+1)-1+1) := by
      rw [Nat.succ_mul (page+1)]
      have some_ : 1 ≤ (page+1)*(before.length+1) := Nat.mul_pos (Nat.succ_pos _) (Nat.succ_pos _)
      omega
    rw [index,List.getElem?_append_right (Nat.le_add_right _ _),Nat.add_sub_cancel_left,List.getElem?_cons_succ]
  have more : ∀ page, (page+1+1)*(before.length+1) < (before++a::rest).length ↔
      (page+1)*(before.length+1) < rest.length := by
    intro page
    rw [Nat.succ_mul (page+1),List.length_append,List.length_cons]
    omega
  constructor
  · intro all
    constructor
    · intro some_
      have filled := List.length_pos_iff.mpr some_
      apply all 0 a
      · rw [List.length_append,List.length_cons]
        omega
      · simp
    · intro page d long here
      exact all (page+1) d ((more page).mpr long) ((place page d).mpr here)
  · intro both page d long here
    obtain ⟨first,rest_⟩ := both
    cases page with
    | zero =>
      have own : d = a := by simpa using here.symm
      rw [own]
      apply first
      intro empty
      rw [empty,List.length_append] at long
      simp at long
    | succ page => exact rest_ page d ((more page).mp long) ((place page d).mp here)

theorem search_page (request : Request term limit) {cursor : String} {after : Option Position}
    {docs : List Document} (decoded : decodeCursor h cursor projectID (trimSpace term) = some after)
    (read : searchProjectionDocuments l zone db ⟨projectID,trimSpace term,after,pageSize limit⟩ =
      pageOf l zone (trimSpace term) (pageSize limit) docs) :
    search l zone db h projectID term cursor limit = .ok
      {projectID
       query := trimSpace term
       results := (docs.take (pageSize limit)).map (entry l zone (trimSpace term))
       nextCursor := if docs.length > pageSize limit then (docs.take (pageSize limit)).getLast?.elim "" fun d =>
         encodeCursor h (d.position zone) projectID (trimSpace term) else ""} := by
  have long : ¬len (trimSpace term) > maxQuerySize := not_lt.mpr request.short
  have bounds : ¬((if limit = 0 then defaultLimit else limit) < 1 ∨ (if limit = 0 then defaultLimit else limit) > maxLimit) := by
    have low := request.low
    have high := request.high
    unfold defaultLimit maxLimit at *
    split <;> omega
  unfold search
  dsimp only
  rw [failWhen_neg _ request.filled,ok_bind,failWhen_neg _ long,ok_bind,failWhen_neg _ bounds,ok_bind,decoded,present_some,
    ok_bind]
  have size : (if limit = 0 then defaultLimit else limit).toNat = pageSize limit := rfl
  have last : ((docs.take (pageSize limit)).map fun d => projection zone (searchRow l (l.literal (trimSpace term)) d)).getLast?.elim
      "" (fun last => encodeCursor h ⟨last.occurredAt,last.eventID⟩ projectID (trimSpace term)) =
      (docs.take (pageSize limit)).getLast?.elim "" fun d => encodeCursor h (d.position zone) projectID (trimSpace term) := by
    rw [List.getLast?_map]
    cases (docs.take (pageSize limit)).getLast? <;> rfl
  rw [size,read,pageOf]
  dsimp only
  rw [last,List.map_map]
  simp only [decide_eq_true_eq]
  rfl

variable (indexed : db.Indexed h) (collates : Function.Injective l.collate) (request : Request term limit)
include indexed collates request

theorem readPages_iff {fuel : ℕ} {before docs : List Document} (enough : docs.length < fuel)
    (whole : listing l db projectID (trimSpace term) = before++docs) {cursor : String} {after : Option Position}
    (decoded : decodeCursor h cursor projectID (trimSpace term) = some after)
    (read : searchProjectionDocuments l zone db ⟨projectID,trimSpace term,after,pageSize limit⟩ =
      pageOf l zone (trimSpace term) (pageSize limit) docs) :
    readPages l zone db h projectID term limit fuel cursor = some (docs.map (entry l zone (trimSpace term))) ↔
      Resumable zone (pageSize limit) docs := by
  induction fuel generalizing before docs cursor after with
  | zero => omega
  | succ fuel ih =>
    rw [readPages,search_page request decoded read]
    dsimp only
    by_cases more : docs.length > pageSize limit
    · rw [if_pos more]
      -- the last document of the page, and what is behind it
      obtain ⟨a,rest,tail⟩ : ∃ a rest, docs.drop (pageSize limit-1) = a::rest := by
        cases cut : docs.drop (pageSize limit-1) with
        | nil =>
          have none_ := List.drop_eq_nil_iff.mp cut
          omega
        | cons a rest => exact ⟨a,rest,rfl⟩
      have size := request.size
      have parts : docs = docs.take (pageSize limit-1)++a::rest := by rw [← tail,List.take_append_drop]
      have length : (docs.take (pageSize limit-1)).length+1 = pageSize limit := by
        rw [List.length_take]
        omega
      generalize docs.take (pageSize limit-1) = front at parts length
      subst parts
      have taken : (front++a::rest).take (pageSize limit) = front++[a] := by
        rw [← length,List.take_append]
        simp
      have some_ : rest ≠ [] := by
        intro empty
        rw [empty,List.length_append,List.length_singleton] at more
        omega
      have inside : a ∈ db.documents := by
        have member : a ∈ listing l db projectID (trimSpace term) := by
          rw [whole]
          simp
        exact ((listing_lists indexed collates projectID (trimSpace term)).exact a).mp member |>.1
      have known := indexed.times a inside
      rw [taken,List.getLast?_concat,Option.elim_some,← length,resumable_split,length]
      by_cases writable : a.Writable zone
      · obtain ⟨value,named⟩ := indexed.named a inside
        have next := @decodeCursor_encoded h zone a projectID (trimSpace term) writable known value named
        have filled : encodeCursor h (a.position zone) projectID (trimSpace term) ≠ "" := by
          intro empty
          rw [empty] at next
          cases next
        have split_ : listing l db projectID (trimSpace term) = (before++front)++a::rest := by
          rw [whole,List.append_assoc]
        have page := @page_after γ _ l db zone projectID (trimSpace term) (pageSize limit) a known
        rw [above_split _ split_ (sortKeys_distinct indexed collates _ _)] at page
        have shorter : rest.length < fuel := by
          rw [List.length_append,List.length_cons] at enough
          omega
        have later := ih shorter (split_.trans (List.append_assoc _ [a] rest).symm) next page
        rw [if_neg filled,← later]
        constructor
        · intro all
          obtain ⟨results,found,same⟩ := Option.map_eq_some_iff.mp all
          refine ⟨fun _ => writable,?_⟩
          rw [found]
          have cut : (front++[a]).map (entry l zone (trimSpace term))++results =
              (front++[a]).map (entry l zone (trimSpace term))++rest.map (entry l zone (trimSpace term)) := by
            rw [same,← List.map_append,List.append_assoc,List.singleton_append]
          rw [List.append_cancel_left cut]
        · intro both
          rw [both.2,Option.map_some,← List.map_append,List.append_assoc,List.singleton_append]
      · rw [if_pos (encodeCursor_blank writable known)]
        constructor
        · intro all
          have lengths := congrArg List.length (Option.some.inj all)
          rw [List.length_map,List.length_map,List.length_append,List.length_append,List.length_singleton,
            List.length_cons] at lengths
          have filled := List.length_pos_iff.mpr some_
          omega
        · intro both
          exact absurd (both.1 some_) writable
    · rw [if_neg more,if_pos rfl,List.take_of_length_le (not_lt.mp more)]
      exact iff_of_true rfl (resumable_short (not_lt.mp more))

/-- Reading page after page lists the matches of the trimmed term, the grams exclude no match and every excerpt
shows the first match, exactly when every page that is followed by another ends with a time of a four-digit
year. -/
theorem search_enumerates : ((∃ docs, Lists l db projectID (trimSpace term) docs ∧
      readPages l zone db h projectID term limit (db.documents.length+1) "" =
        some (docs.map (entry l zone (trimSpace term)))) ∧
      (∀ body literal : List Char, literal <:+: body →
        ∀ gram ∈ searchBodyGrams literal (min 3 literal.length) 3, gram ∈ searchBodyGrams body 1 3) ∧
      ∀ d, db.shows l projectID (trimSpace term) d = true →
        Shows l (l.literal (trimSpace term)) d.text.toList (entry l zone (trimSpace term) d).text.toList) ↔
    Resumable zone (pageSize limit) (listing l db projectID (trimSpace term)) := by
  have small : (listing l db projectID (trimSpace term)).length < db.documents.length+1 := by
    rw [listing,(ordered_perm _ _).length_eq]
    exact Nat.lt_succ_of_le (List.length_filter_le _ _)
  have pages := @readPages_iff γ _ l zone db h projectID term limit indexed collates request _ [] _ small rfl "" none rfl
    (page_first _)
  constructor
  · intro all
    obtain ⟨⟨docs,lists,read⟩,-⟩ := all
    rw [lists_unique indexed collates lists] at read
    exact pages.mp read
  · intro resumable
    refine ⟨⟨_,listing_lists indexed collates _ _,pages.mpr resumable⟩,fun body literal part => grams_within part,?_⟩
    intro d shown
    unfold Database.shows at shown
    simp only [Bool.and_eq_true,decide_eq_true_eq] at shown
    have short : (l.literal (trimSpace term)).length ≤ 200 := by
      have bytes := request.short
      have chars := length_le_len (trimSpace term).toList
      unfold maxQuerySize at bytes
      rw [String.ofList_toList] at chars
      rw [Locale.literal,List.length_map]
      omega
    have excerpt := excerpt_shows l shown.2 short
    rw [← searchText_message shown.1.1.1.2] at excerpt
    unfold entry EventProjection.result projection searchRow
    dsimp only
    rw [String.toList_ofList]
    exact excerpt

end Pages

section Late

/-- Texts compare by their characters, and the letters of ASCII have lower cases. -/
def plainLocale : Locale String := ⟨Char.toLower,id⟩

def messageAt (h : Hash) (value : String) (occurredAt : ℤ) (text : String) : Document :=
  ⟨stableID h "e_" value,"p_1","s_1","Notes","root",[("root","Main")],"codex","codex",some occurredAt,text,"message",""⟩

def lateHash : Hash := .table ["evt-1","evt-2"]

/-- The last minute of the year 9999 in a zone west of UTC is in the year 10000. -/
def lateMessage : Document := messageAt lateHash "evt-1" 315537983939000000 "Hello tomorrow"

def earlyMessage : Document := messageAt lateHash "evt-2" 63918460800000000 "Hello today"

def lateDatabase : Database := ⟨[lateMessage,earlyMessage],[⟨"s_1","active"⟩],[],[]⟩

theorem lateDatabase_indexed : lateDatabase.Indexed lateHash where
  distinct := by decide
  named := by
    intro d member
    simp only [lateDatabase,List.mem_cons,List.not_mem_nil,or_false] at member
    obtain rfl|rfl := member
    · exact ⟨"evt-1",rfl⟩
    · exact ⟨"evt-2",rfl⟩
  times := by decide

theorem hello_request (limit : ℤ) (low : 0 ≤ limit) (high : limit ≤ maxLimit) : Request "hello" limit :=
  ⟨by decide,by decide,low,high⟩

theorem lateDatabase_listing : listing plainLocale lateDatabase "p_1" "hello" = [lateMessage,earlyMessage] := by
  decide

theorem search_enumerates_late : ((∃ docs, Lists plainLocale lateDatabase "p_1" (trimSpace "hello") docs ∧
      readPages plainLocale (fun _ => 0) lateDatabase lateHash "p_1" "hello" 20 (lateDatabase.documents.length+1) "" =
        some (docs.map (entry plainLocale (fun _ => 0) (trimSpace "hello")))) ∧
      (∀ body literal : List Char, literal <:+: body →
        ∀ gram ∈ searchBodyGrams literal (min 3 literal.length) 3, gram ∈ searchBodyGrams body 1 3) ∧
      ∀ d, lateDatabase.shows plainLocale "p_1" (trimSpace "hello") d = true →
        Shows plainLocale (plainLocale.literal (trimSpace "hello")) d.text.toList
          (entry plainLocale (fun _ => 0) (trimSpace "hello") d).text.toList) ↔
    Resumable (fun _ => 0) (pageSize 20) (listing plainLocale lateDatabase "p_1" (trimSpace "hello")) :=
  search_enumerates lateDatabase_indexed (fun _ _ same => same) (hello_request 20 (by decide) (by decide))

/-- With pages of one message the first page ends with the late message, and nothing follows it. -/
theorem late_lost : lateDatabase.Indexed lateHash ∧ Request "hello" 1 ∧
    readPages plainLocale (fun _ => 0) lateDatabase lateHash "p_1" "hello" 1 3 "" =
      some [entry plainLocale (fun _ => 0) "hello" lateMessage] ∧
    ¬∃ docs, Lists plainLocale lateDatabase "p_1" "hello" docs ∧
      readPages plainLocale (fun _ => 0) lateDatabase lateHash "p_1" "hello" 1 3 "" =
        some (docs.map (entry plainLocale (fun _ => 0) "hello")) := by
  have read : readPages plainLocale (fun _ => 0) lateDatabase lateHash "p_1" "hello" 1 3 "" =
      some [entry plainLocale (fun _ => 0) "hello" lateMessage] := by decide
  refine ⟨lateDatabase_indexed,hello_request 1 (by decide) (by decide),read,?_⟩
  intro all
  obtain ⟨docs,lists,whole⟩ := all
  have both := lists_unique lateDatabase_indexed (fun _ _ same => same) lists
  rw [both,lateDatabase_listing,read] at whole
  have lengths := congrArg List.length (Option.some.inj whole)
  simp at lengths

end Late
end ATape.ProjectSearch
