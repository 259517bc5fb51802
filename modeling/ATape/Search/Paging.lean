import ATape.Go.Plain
import ATape.Search.Matches
import ATape.Search.Searcher

/-! The pages of a search are pages of the plain list of matches. -/
namespace ATape.ProjectSearch
open Foundation Go SourceIdentity

section Listing
variable {γ : Type} [LinearOrder γ] (l : Locale γ) (db : Database) (projectID term : String)

def Database.shows (d : Document) : Bool :=
  decide (d.projectID = projectID) && decide (d.eventKind = "message") && db.active d.sessionID && db.current d &&
    decide (l.literal term <:+: d.text.toList.map l.lower)

def Database.matching : List Document := db.documents.filter (db.shows l projectID term)

def listing : List Document := ordered (Document.sortKey l) (db.matching l projectID term)

variable {l db projectID term}

omit [LinearOrder γ] in
theorem searchText_message {d : Document} (kind : d.eventKind = "message") :
    d.searchText l = d.text.toList.map l.lower := if_pos kind

theorem searchDocuments_eq (p : SearchDocumentsParams) : searchDocuments l db p =
    ((ordered (Document.sortKey l) ((db.matching l p.projectID p.term).filter fun d => (d.after l p).holds)).take
      p.resultLimit).map (searchRow l (l.literal p.term)) := by
  have chosen : (db.documents.filter fun d =>
      decide (d.projectID = p.projectID) && decide (d.eventKind = "message") &&
        (searchBodyGrams (l.literal p.term) (min 3 (l.literal p.term).length) 3).all
          (fun gram => decide (gram ∈ d.bodyGrams l)) && decide (strpos (d.searchText l) (l.literal p.term) > 0) &&
        (d.after l p).holds && db.active d.sessionID && db.current d) =
      (db.matching l p.projectID p.term).filter fun d => (d.after l p).holds := by
    rw [Database.matching,List.filter_filter]
    apply List.filter_congr
    intro d _
    rw [Bool.eq_iff_iff]
    simp only [Database.shows,Bool.and_eq_true,decide_eq_true_eq,List.all_eq_true,strpos_pos]
    constructor
    · intro selected
      obtain ⟨⟨⟨⟨⟨⟨project,kind⟩,-⟩,part⟩,after⟩,active⟩,current⟩ := selected
      rw [searchText_message kind] at part
      exact ⟨after,⟨⟨⟨project,kind⟩,active⟩,current⟩,part⟩
    · intro wanted
      obtain ⟨after,⟨⟨⟨project,kind⟩,active⟩,current⟩,part⟩ := wanted
      rw [← searchText_message kind] at part
      exact ⟨⟨⟨⟨⟨⟨project,kind⟩,grams_within part⟩,part⟩,after⟩,active⟩,current⟩
  have sorted : ∀ docs : List Document, ordered (Document.sortKey l) ((ordered (Document.sortKey l) docs).take
      p.resultLimit) = (ordered (Document.sortKey l) docs).take p.resultLimit := by
    intro docs
    apply ordered_eq
    exact (ordered_pairwise _ docs).sublist (List.take_sublist _ _)
  unfold searchDocuments
  dsimp only
  rw [chosen,sorted]

end Listing

section Positions
variable {γ : Type} [LinearOrder γ] {l : Locale γ}

theorem after_iff {p : SearchDocumentsParams} {a : Document} (some_ : p.hasAfter = true)
    (unknown : p.afterUnknown = a.occurredAt.isNone) (time : ∀ t, a.occurredAt = some t → p.afterTime = t)
    (id : p.afterID = a.eventID) (d : Document) : (d.after l p).holds = decide (a.sortKey l < d.sortKey l) := by
  rw [Bool.eq_iff_iff,decide_eq_true_eq]
  unfold Document.after Document.sortKey Truth.pairLess
  rw [some_,unknown,id,Prod.Lex.toLex_lt_toLex]
  cases known : a.occurredAt with
  | none =>
    cases d.occurredAt with
    | none => simp
    | some t => simp
  | some t =>
    rw [time t known]
    cases d.occurredAt with
    | none => simp [WithTop.coe_lt_top]
    | some t' => simp [@eq_comm _ t t']

variable {db : Database} {zone : ℤ → ℤ} {projectID term : String}

def pageOf (l : Locale γ) (zone : ℤ → ℤ) (term : String) (limit : ℕ) (docs : List Document) : IndexPage :=
  ⟨(docs.take limit).map fun d => projection zone (searchRow l (l.literal term) d),decide (docs.length > limit)⟩

omit [LinearOrder γ] in
theorem pageOf_rows (limit : ℕ) (docs : List Document) {rows : List SearchDocumentsRow}
    (read : rows = (docs.take (limit+1)).map (searchRow l (l.literal term))) :
    (⟨(if decide (rows.length > limit) = true then rows.take limit else rows).map (projection zone),
      decide (rows.length > limit)⟩ : IndexPage) = pageOf l zone term limit docs := by
  have more : rows.length > limit ↔ docs.length > limit := by
    rw [read,List.length_map,List.length_take]
    omega
  have taken : (if decide (rows.length > limit) = true then rows.take limit else rows) =
      (docs.take limit).map (searchRow l (l.literal term)) := by
    rw [read]
    split
    next full =>
      rw [← List.map_take,List.take_take,min_eq_left (Nat.le_succ limit)]
    next room =>
      have small : ¬docs.length > limit := by
        rw [← more,read]
        simpa using room
      rw [List.take_of_length_le (by omega),List.take_of_length_le (by omega)]
  rw [pageOf,taken,List.map_map]
  congr 1
  exact decide_eq_decide.mpr more

theorem page_first (limit : ℕ) : searchProjectionDocuments l zone db ⟨projectID,term,none,limit⟩ =
    pageOf l zone term limit (listing l db projectID term) := by
  apply pageOf_rows
  rw [searchDocuments_eq]
  have all : (db.matching l projectID term).filter (fun d => (d.after l
      {projectID := projectID,term := term,hasAfter := false,afterUnknown := (Time.zero).isZero,
       afterTime := (Time.zero).nanos/1000,afterID := "",resultLimit := limit+1}).holds) =
      db.matching l projectID term := by
    apply List.filter_eq_self.mpr
    intro d _
    rfl
  exact congrArg (fun docs => ((ordered (Document.sortKey l) docs).take (limit+1)).map (searchRow l (l.literal term))) all

theorem page_after (limit : ℕ) {a : Document} (known : a.occurredAt ≠ some 0) :
    searchProjectionDocuments l zone db ⟨projectID,term,some ⟨domainTime zone a.occurredAt,a.eventID⟩,limit⟩ =
      pageOf l zone term limit (above (Document.sortKey l) (a.sortKey l) (db.matching l projectID term)) := by
  apply pageOf_rows
  rw [searchDocuments_eq]
  congr 2
  unfold above
  congr 1
  apply List.filter_congr
  intro d _
  apply after_iff rfl
  · cases time : a.occurredAt with
    | none => rfl
    | some t =>
      have some_ : t ≠ 0 := fun zero => known (by rw [time,zero])
      simp [domainTime,scanned,Time.isZero,some_]
  · intro t time
    simp [domainTime,scanned,time]
  · rfl

end Positions

section Cursors
variable {h : Hash} {zone : ℤ → ℤ}

/-- RFC 3339 can write the time in the zone of the server: its year has four digits. An unknown time is
written as null. -/
def Document.Writable (zone : ℤ → ℤ) (d : Document) : Prop := ∀ t, d.occurredAt = some t → (scanned zone t).Strict

def Document.position (zone : ℤ → ℤ) (d : Document) : Position := ⟨domainTime zone d.occurredAt,d.eventID⟩

theorem hexBytes_length (digits : List Char) : 2*(hexBytes digits).length ≤ digits.length := by
  induction digits using hexBytes.induct with
  | case1 high low rest ih =>
    simp only [hexBytes,List.length_cons]
    omega
  | case2 digits short => exact (by rw [hexBytes]; exact Nat.zero_le _; exact short)

theorem cursorScope_length (projectID term : String) : (cursorScope h projectID term).toList.length ≤ 43 := by
  have bytes := hexBytes_length (h.hex (projectID++"\x00"++term)).toList
  have text := encodeRawURL_length (hexBytes (h.hex (projectID++"\x00"++term)).toList)
  rw [h.length] at bytes
  unfold cursorScope
  omega

theorem event_plain : ∀ c ∈ "e_".toList, c ∈ plainChars := by
  have mark : "e_".toList = ['e','_'] := rfl
  have all : ['e','_'].all (· ∈ plainChars) = true := by decide
  rw [mark]
  exact fun c member => of_decide_eq_true (List.all_eq_true.mp all c member)

def timeJson (time : Option Time) : Json := time.elim .null fun t => .str (String.ofList t.formatRFC3339)

def cursorJson (scope : String) (time : Option Time) (eventID : String) : Json :=
  .obj [("v",.int 2),("s",.str scope),("p",.obj [("t",timeJson time),("e",.str eventID)])]

theorem readCursor_written (scope : String) {time : Option Time} (strict : ∀ t ∈ time, t.Strict) (eventID : String) :
    readCursor (marshal (cursorJson scope time eventID)) = some ⟨2,scope,⟨time,eventID⟩⟩ := by
  have integral : (cursorJson scope time eventID).Integral := by
    cases time <;> simp [cursorJson,timeJson,Json.Integral,Json.IntegralMembers]
  have read := @Json.parse_written escaping _ integral [] (.inl rfl)
  rw [List.append_nil] at read
  unfold readCursor marshal
  rw [read]
  have two : atoi (Int.repr 2).toList = some 2 := by decide
  cases time with
  | none => simp [cursorJson,timeJson,PageCursor.read,positionField,CursorPosition.read,intField,textField,timeField,
      Json.int,two]
  | some t =>
    have time := parse_format t (strict t rfl)
    simp [cursorJson,timeJson,PageCursor.read,positionField,CursorPosition.read,intField,textField,timeField,Json.int,
      two,time]

theorem encodedCursor_short (projectID term : String) (time : Option Time) (value : String) :
    len (encodedJSON (cursorJson (cursorScope h projectID term) time (stableID h "e_" value))) ≤ 1024 := by
  have id := @stableID_plain h "e_" event_plain value
  have scope := quoted_plain (encodeRawURL_plain (hexBytes (h.hex (projectID++"\x00"++term)).toList))
  have event := quoted_plain id.1
  have scopeLength := @cursorScope_length h projectID term
  have timeLength : (Json.write escaping (timeJson time)).length ≤ 37 := by
    cases time with
    | none => decide
    | some t =>
      obtain ⟨plain,short⟩ := formatRFC3339_plain t
      have text := @quoted_plain (String.ofList t.formatRFC3339) (by rwa [String.toList_ofList])
      rw [String.toList_ofList] at text
      have written : Json.write escaping (timeJson (some t)) =
          Json.quoted escaping (String.ofList t.formatRFC3339) := rfl
      rw [written,text]
      omega
  have names : ∀ name ∈ ["v","s","p","t","e"], (Json.quoted escaping name).length = 3 := by decide
  have two : (toString (2 : ℤ)).toList.length = 1 := by decide
  have size : (marshal (cursorJson (cursorScope h projectID term) time (stableID h "e_" value))).toList.length ≤ 160 := by
    have v := names "v" (by decide)
    have s := names "s" (by decide)
    have p := names "p" (by decide)
    have t := names "t" (by decide)
    have e := names "e" (by decide)
    have mark : "e_".toList.length = 2 := rfl
    have idLength := id.2
    unfold cursorScope at scopeLength
    simp only [marshal,cursorJson,cursorScope,String.toList_ofList,Json.write,Json.writeMembers,Json.int,
      List.length_append,List.length_cons,List.length_nil,scope,event,v,s,p,t,e,two]
    omega
  have bytes : (utf8 (marshal (cursorJson (cursorScope h projectID term) time (stableID h "e_" value))).toList).length ≤
      4*160 := (utf8_length_le _).trans (Nat.mul_le_mul_left 4 size)
  have text := encodeRawURL_short (utf8
    (marshal (cursorJson (cursorScope h projectID term) time (stableID h "e_" value))).toList)
  unfold encodedJSON
  omega

section Documents
variable {d : Document} {projectID term : String}

theorem encodeCursor_blank (unwritable : ¬d.Writable zone) (known : d.occurredAt ≠ some 0) :
    encodeCursor h (d.position zone) projectID term = "" := by
  unfold Document.Writable at unwritable
  push Not at unwritable
  obtain ⟨t,time,wild⟩ := unwritable
  have some_ : t ≠ 0 := fun zero => known (by rw [time,zero])
  have body : cursorBody h (d.position zone) projectID term = none := by
    simp [cursorBody,Document.position,domainTime,time,scanned,Time.isZero,some_,Time.marshalText]
    exact wild
  rw [encodeCursor,body]
  rfl

theorem cursorBody_writable (writable : d.Writable zone) (known : d.occurredAt ≠ some 0) :
    cursorBody h (d.position zone) projectID term =
      some (cursorJson (cursorScope h projectID term) (d.occurredAt.map (scanned zone)) d.eventID) := by
  unfold cursorBody Document.position domainTime
  cases time : d.occurredAt with
  | none => rfl
  | some t =>
    have some_ : t ≠ 0 := fun zero => known (by rw [time,zero])
    have strict := writable t time
    have marshalled : (scanned zone t).marshalText = some (String.ofList (scanned zone t).formatRFC3339) :=
      if_pos strict
    have late : (scanned zone t).isZero = false := by simp [scanned,Time.isZero,some_]
    simp [late,marshalled,cursorJson,timeJson]

theorem decodeCursor_encoded (writable : d.Writable zone) (known : d.occurredAt ≠ some 0) {value : String}
    (named : d.eventID = stableID h "e_" value) :
    decodeCursor h (encodeCursor h (d.position zone) projectID term) projectID term = some (some (d.position zone)) := by
  have written : encodeCursor h (d.position zone) projectID term =
      encodedJSON (cursorJson (cursorScope h projectID term) (d.occurredAt.map (scanned zone)) d.eventID) := by
    rw [encodeCursor,cursorBody_writable writable known]
  have strict : ∀ t ∈ d.occurredAt.map (scanned zone), t.Strict := by
    intro t member
    obtain ⟨micros,time,rfl⟩ := Option.map_eq_some_iff.mp member
    exact writable micros time
  have read := readCursor_written (cursorScope h projectID term) strict d.eventID
  have short : ¬len (encodeCursor h (d.position zone) projectID term) > 1024 := by
    rw [written,named]
    exact not_lt.mpr (encodedCursor_short projectID term _ value)
  have id := @stableID_plain h "e_" event_plain value
  have filled : d.eventID ≠ "" := by
    rw [named]
    simp [stableID]
  have small : len d.eventID ≤ 200 := by
    have bytes := len_le d.eventID.toList
    have length := id.2
    rw [String.ofList_toList] at bytes
    rw [← named] at length
    have mark : "e_".toList.length = 2 := rfl
    omega
  have known_ : ∀ micros, d.occurredAt = some micros → (scanned zone micros).isZero = false := by
    intro micros time
    have some_ : micros ≠ 0 := fun zero => known (by rw [time,zero])
    simp [scanned,Time.isZero,some_]
  have accepted : PageCursor.matchesQuery h
      ⟨2,cursorScope h projectID term,⟨d.occurredAt.map (scanned zone),d.eventID⟩⟩ projectID term = true := by
    unfold PageCursor.matchesQuery
    cases time : d.occurredAt with
    | none => simp [filled,small]
    | some micros => simp [filled,small,known_ micros time]
  have blank : encodeCursor h (d.position zone) projectID term ≠ "" := by
    rw [written]
    intro empty
    have bytes := congrArg decodeRawURL empty
    rw [encodedJSON,decode_encodeRawURL] at bytes
    have none_ : utf8 (marshal (cursorJson (cursorScope h projectID term) (d.occurredAt.map (scanned zone))
      d.eventID)).toList = [] := Option.some.inj bytes
    have text := congrArg utf8Decode none_
    rw [utf8Decode_utf8] at text
    have nil : (marshal (cursorJson (cursorScope h projectID term) (d.occurredAt.map (scanned zone))
      d.eventID)).toList = [] := Option.some.inj text
    rw [String.toList_eq_nil_iff] at nil
    rw [nil] at read
    cases read
  unfold decodeCursor
  rw [if_neg blank,if_neg short,written,encodedJSON,decode_encodeRawURL]
  simp only [Option.bind_eq_bind,Option.bind_some,utf8Decode_utf8,String.ofList_toList,read,accepted]
  unfold Document.position domainTime
  cases d.occurredAt <;> rfl

end Documents
end Cursors
end ATape.ProjectSearch
