import ATape.Go.Plain
import ATape.Raw.Memory
import ATape.Search.Searcher

/-! The cursors of the manifest of a session and of the contents of an object. Each is read back as what it
was written for. -/
namespace ATape.RawArchive
open Foundation Go SourceIdentity
open ProjectSearch (intField textField)

/-! Cursors of the manifest. -/

/-- Behind the objects that were received first. No identity is the first page. -/
structure ObjectPosition where
  createdAt : Time
  objectID : String
deriving DecidableEq

structure ManifestCursor where
  version : ℤ := 0
  sessionID : String := ""
  createdAt : Time := .zero
  objectID : String := ""

/-- A time that cannot be marshalled is an error. -/
def encodeManifestCursor (sessionID : String) (createdAt : Time) (objectID : String) : Option String := do
  let at_ ← createdAt.utc.marshalText
  pure (encodedJSON (.obj [("v",.int 1),("s",.str sessionID),("t",.str at_),("o",.str objectID)]))

/-- Reads a member. Names are compared without case, null leaves a field as it is, and no other name is
allowed. -/
def ManifestCursor.read (c : ManifestCursor) (m : String × Json) : Option ManifestCursor :=
  if m.1 ∈ ["v","V"] then (intField m.2 c.version).map fun version => {c with version}
  else if m.1 ∈ ["s","S","ſ"] then (textField m.2 c.sessionID).map fun sessionID => {c with sessionID}
  else if m.1 ∈ ["t","T"] then
    match m.2 with
    | .null => some c
    | .str text => (parseRFC3339 text).map fun createdAt => {c with createdAt}
    | _ => none
  else if m.1 ∈ ["o","O"] then (textField m.2 c.objectID).map fun objectID => {c with objectID}
  else none

/-- One JSON value with nothing behind it, decoded into an empty cursor. -/
def readManifestCursor (text : String) : Option ManifestCursor := do
  match ← Json.parse text with
  | .null => some {}
  | .obj members => members.foldlM ManifestCursor.read {}
  | _ => none

/-- `base64.RawURLEncoding.Strict()`, where the bits that are left over have to be zero. -/
def decodeStrictURL (text : String) : Option (List UInt8) :=
  (decodeRawURL text).filter fun bytes =>
    decide ((encodeRawURL bytes).toList = text.toList.filter fun c => c ≠ '\r' && c ≠ '\n')

def ManifestCursor.valid (cursor : ManifestCursor) (sessionID : String) : Bool :=
  !(decide (trimSpace cursor.objectID = "") || decide (len cursor.objectID > 512) || cursor.objectID.toList.contains '\x00' ||
    decide (cursor.version ≠ 1) || decide (cursor.sessionID ≠ sessionID) || cursor.createdAt.isZero ||
    decide (cursor.createdAt.date.year < 1) || decide (cursor.createdAt.date.year > 9999))

def decodeManifestCursor (value sessionID : String) : Except Failure ObjectPosition :=
  if value = "" then .ok ⟨.zero,""⟩
  else present
    (do
      if len value > 2048 then none
      else
        let bytes ← decodeStrictURL value
        let chars ← utf8Decode bytes
        let cursor ← readManifestCursor (String.ofList chars)
        if cursor.valid sessionID = false then none else some ⟨cursor.createdAt.utc,cursor.objectID⟩)
    (.validation "cursor" "is invalid for this Raw Session")

/-! Cursors of a generation. -/

structure PageCursor where
  objectID : String := ""
  generation : ℤ := 0
  ordinal : ℤ := 0

def encodeCursor (objectID : String) (generation ordinal : ℤ) : String :=
  encodedJSON (.obj [("o",.str objectID),("g",.int generation),("n",.int ordinal)])

def PageCursor.read (c : PageCursor) (m : String × Json) : Option PageCursor :=
  if m.1 ∈ ["o","O"] then (textField m.2 c.objectID).map fun objectID => {c with objectID}
  else if m.1 ∈ ["g","G"] then (intField m.2 c.generation).map fun generation => {c with generation}
  else if m.1 ∈ ["n","N"] then (intField m.2 c.ordinal).map fun ordinal => {c with ordinal}
  else some c

def readPageCursor (text : String) : Option PageCursor := do
  match ← Json.parse text with
  | .null => some {}
  | .obj members => members.foldlM PageCursor.read {}
  | _ => none

def decodeCursor (value objectID : String) (generation : ℤ) : Except Failure (ℤ × ℤ) :=
  if value = "" then .ok (0,generation)
  else do
    let bytes ← present (decodeRawURL value) (.validation "cursor" "is invalid")
    let cursor ← present ((utf8Decode bytes).bind fun chars => readPageCursor (String.ofList chars))
      (.validation "cursor" "is invalid for this Raw object")
    failWhen (cursor.ordinal < 1 ∨ cursor.objectID ≠ objectID) (.validation "cursor" "is invalid for this Raw object")
    failWhen (generation ≠ 0 ∧ cursor.generation ≠ generation) (.validation "cursor" "is invalid for this generation")
    .ok (cursor.ordinal,cursor.generation)

/-! What is written is read back. -/

theorem decodeStrict_encode (bytes : List UInt8) : decodeStrictURL (encodeRawURL bytes) = some bytes := by
  have own : decide ((encodeRawURL bytes).toList = (encodeRawURL bytes).toList.filter fun c => c ≠ '\r' && c ≠ '\n') = true := by
    rw [decide_eq_true_iff]
    refine (List.filter_eq_self.mpr ?_).symm
    intro c member
    rw [encodeRawURL,String.toList_ofList] at member
    obtain ⟨n,rfl⟩ := encodeQuanta_digits bytes c member
    exact urlDigit_visible n
  rw [decodeStrictURL,decode_encodeRawURL]
  exact Option.filter_eq_some_iff.mpr ⟨rfl,own⟩

theorem trimSpace_filled {s : String} {c : Char} (member : c ∈ s.toList) (solid : isSpace c = false) : trimSpace s ≠ "" := by
  intro empty
  have chars := congrArg String.toList empty
  rw [trimSpace,trimFunc,String.toList_ofList,trimRight] at chars
  have run : (s.toList.dropWhile isSpace).reverse.dropWhile isSpace = [] := List.reverse_eq_nil_iff.mp chars
  have spaces := List.dropWhile_eq_nil_iff.mp run
  have parts := List.takeWhile_append_dropWhile (p := isSpace) (l := s.toList)
  rw [← parts] at member
  cases List.mem_append.mp member with
  | inl front =>
    have space := List.mem_takeWhile_imp front
    rw [solid] at space
    cases space
  | inr back =>
    have space := spaces c (List.mem_reverse.mpr back)
    rw [solid] at space
    cases space

/-- An identity of the server, which a cursor can hold. -/
structure Identified (id : String) : Prop where
  plain : ∀ c ∈ id.toList, c ∈ plainChars
  short : id.toList.length ≤ 26
  filled : '_' ∈ id.toList

theorem stableID_identified (h : Hash) {mark : Char} (known : mark ∈ ['r','s']) (value : String) :
    Identified (stableID h (String.ofList [mark,'_']) value) := by
  have marks : ['r','s','_'].all (· ∈ plainChars) = true := by decide
  have plain : ∀ c ∈ (String.ofList [mark,'_']).toList, c ∈ plainChars := by
    intro c member
    rw [String.toList_ofList] at member
    refine of_decide_eq_true (List.all_eq_true.mp marks c ?_)
    simp only [List.mem_cons,List.not_mem_nil,or_false] at member known ⊢
    rcases member with rfl|rfl
    · exact known.imp id .inl
    · exact .inr (.inr rfl)
  have id := @stableID_plain h _ plain value
  refine ⟨id.1,?_,?_⟩
  · have length := id.2
    rwa [String.toList_ofList] at length
  · simp [stableID]

namespace Identified
variable {id : String}

theorem trimmed (named : Identified id) : trimSpace id ≠ "" := trimSpace_filled named.filled (by decide)

theorem size (named : Identified id) : len id ≤ 512 := by
  have bytes := len_le id.toList
  have length := named.short
  rw [String.ofList_toList] at bytes
  omega

theorem printable (named : Identified id) : '\x00' ∉ id.toList := by
  intro member
  have plain := named.plain _ member
  revert plain
  decide

theorem ne_empty (named : Identified id) : id ≠ "" := by
  rintro rfl
  exact absurd named.filled (by decide)

end Identified

theorem encodedJSON_filled {j : Json} (integral : j.Integral) : encodedJSON j ≠ "" := by
  intro empty
  have bytes := congrArg decodeRawURL empty
  rw [encodedJSON,decode_encodeRawURL] at bytes
  have none_ : utf8 (marshal j).toList = [] := Option.some.inj bytes
  have text := congrArg utf8Decode none_
  rw [utf8Decode_utf8] at text
  have nil : (marshal j).toList = [] := Option.some.inj text
  obtain ⟨c,rest,written,-⟩ := Json.write_head escaping j integral
  rw [marshal,String.toList_ofList,written] at nil
  cases nil

theorem parse_encoded {j : Json} (integral : j.Integral) : Json.parse (marshal j) = some j := by
  have read := @Json.parse_written escaping j integral [] (.inl rfl)
  rwa [List.append_nil] at read

def manifestJson (sessionID : String) (createdAt : Time) (objectID : String) : Json :=
  .obj [("v",.int 1),("s",.str sessionID),("t",.str (String.ofList createdAt.utc.formatRFC3339)),("o",.str objectID)]

theorem manifestJson_integral (sessionID : String) (createdAt : Time) (objectID : String) :
    (manifestJson sessionID createdAt objectID).Integral := by
  simp [manifestJson,Json.Integral,Json.IntegralMembers]

/-- A time that the clock of a server shows, and that a cursor can hold. -/
structure Clocked (t : Time) : Prop where
  known : t.isZero = false
  after : 1 ≤ t.utc.date.year
  before : t.utc.date.year ≤ 9999

theorem Clocked.strict {t : Time} (clock : Clocked t) : t.utc.Strict := by
  have low := clock.after
  have high := clock.before
  have zone : t.utc.offset.natAbs < 1440 := Nat.zero_lt_succ 1439
  exact ⟨by omega,high,zone⟩

section Manifest
variable {sessionID objectID : String} {createdAt : Time}

theorem encodeManifestCursor_clocked (clock : Clocked createdAt) :
    encodeManifestCursor sessionID createdAt objectID = some (encodedJSON (manifestJson sessionID createdAt objectID)) := by
  have marshalled : createdAt.utc.marshalText = some (String.ofList createdAt.utc.formatRFC3339) := if_pos clock.strict
  simp [encodeManifestCursor,marshalled,manifestJson]

theorem readManifestCursor_written (clock : Clocked createdAt) :
    readManifestCursor (marshal (manifestJson sessionID createdAt objectID)) = some ⟨1,sessionID,createdAt.utc,objectID⟩ := by
  have one : atoi (Int.repr 1).toList = some 1 := by decide
  have time := parse_format createdAt.utc clock.strict
  unfold readManifestCursor
  rw [parse_encoded (manifestJson_integral sessionID createdAt objectID)]
  simp [manifestJson,ManifestCursor.read,intField,textField,Json.int,one,time]

theorem manifestCursor_short (session : Identified sessionID) (object : Identified objectID) :
    len (encodedJSON (manifestJson sessionID createdAt objectID)) ≤ 2048 := by
  have sessionText := quoted_plain session.plain
  have objectText := quoted_plain object.plain
  obtain ⟨plain,short⟩ := formatRFC3339_plain createdAt.utc
  have timeText := @quoted_plain (String.ofList createdAt.utc.formatRFC3339) (by rwa [String.toList_ofList])
  rw [String.toList_ofList] at timeText
  have names : ∀ name ∈ ["v","s","t","o"], (Json.quoted escaping name).length = 3 := by decide
  have v := names "v" (by decide)
  have s := names "s" (by decide)
  have t := names "t" (by decide)
  have o := names "o" (by decide)
  have one : (toString (1 : ℤ)).toList.length = 1 := by decide
  have size : (marshal (manifestJson sessionID createdAt objectID)).toList.length ≤ 130 := by
    have sessionShort := session.short
    have objectShort := object.short
    simp only [marshal,manifestJson,String.toList_ofList,Json.write,Json.writeMembers,Json.int,List.length_append,
      List.length_cons,List.length_nil,sessionText,objectText,timeText,v,s,t,o,one]
    omega
  have bytes : (utf8 (marshal (manifestJson sessionID createdAt objectID)).toList).length ≤ 4*130 :=
    (utf8_length_le _).trans (Nat.mul_le_mul_left 4 size)
  have text := encodeRawURL_short (utf8 (marshal (manifestJson sessionID createdAt objectID)).toList)
  unfold encodedJSON
  omega

theorem decode_manifestCursor (session : Identified sessionID) (object : Identified objectID) (clock : Clocked createdAt) :
    decodeManifestCursor (encodedJSON (manifestJson sessionID createdAt objectID)) sessionID =
      .ok ⟨createdAt.utc,objectID⟩ := by
  have filled := encodedJSON_filled (manifestJson_integral sessionID createdAt objectID)
  have short : ¬len (encodedJSON (manifestJson sessionID createdAt objectID)) > 2048 :=
    not_lt.mpr (manifestCursor_short session object)
  have solid : createdAt.utc.isZero = false := clock.known
  have low := clock.after
  have high := clock.before
  have valid : (⟨1,sessionID,createdAt.utc,objectID⟩ : ManifestCursor).valid sessionID = true := by
    simp [ManifestCursor.valid,object.trimmed,object.size,object.printable,solid,not_lt.mpr low,not_lt.mpr high]
  unfold decodeManifestCursor
  rw [if_neg filled,if_neg short,encodedJSON,decodeStrict_encode]
  simp only [Option.bind_eq_bind,Option.bind_some,utf8Decode_utf8,String.ofList_toList,readManifestCursor_written clock,valid]
  rfl

end Manifest

section Content
variable {objectID : String}

theorem decode_cursor {generation ordinal : ℕ} (numbered : 0 < ordinal) {asked : ℤ}
    (own : asked = 0 ∨ asked = generation) :
    decodeCursor (encodeCursor objectID generation ordinal) objectID asked = .ok ((ordinal : ℤ),(generation : ℤ)) := by
  have integral : (Json.obj [("o",.str objectID),("g",.int generation),("n",.int ordinal)]).Integral := by
    simp [Json.Integral,Json.IntegralMembers]
  have first := atoi_int generation
  have second := atoi_int ordinal
  rw [Int.toString_eq_repr] at first second
  have read : readPageCursor (marshal (.obj [("o",.str objectID),("g",.int generation),("n",.int ordinal)])) =
      some ⟨objectID,generation,ordinal⟩ := by
    unfold readPageCursor
    rw [parse_encoded integral]
    simp [PageCursor.read,intField,textField,Json.int,first,second]
  have late : ¬((ordinal : ℤ) < 1 ∨ objectID ≠ objectID) := by
    simp only [ne_eq,not_true_eq_false,or_false]
    omega
  have same : ¬(asked ≠ 0 ∧ (generation : ℤ) ≠ asked) := by
    rcases own with zero|same
    · exact fun both => both.1 zero
    · exact fun both => both.2 same.symm
  unfold decodeCursor encodeCursor
  rw [if_neg (encodedJSON_filled integral),encodedJSON,decode_encodeRawURL,present_some,ok_bind,utf8Decode_utf8,
    Option.bind_some,String.ofList_toList,read,present_some,ok_bind,failWhen_neg _ late,ok_bind,failWhen_neg _ same,ok_bind]

end Content

end ATape.RawArchive
