import ATape.Go.Text
import Mathlib.Data.List.Basic
import Mathlib.Data.Set.Function

/-! Identifiers derived from the authenticated capture scope and the untrusted
names of a source. A key frames each of its parts with the part's length, so
that no two lists of parts share a key. -/
namespace ATape.SourceIdentity
open Go

def hexDigits : List Char := "0123456789abcdef".toList

/-- SHA-256 of the bytes of a text, in hexadecimal. -/
structure Hash where
  hex : String → String
  length : ∀ s, (hex s).toList.length = 64
  digits : ∀ s, ∀ c ∈ (hex s).toList, c ∈ hexDigits

namespace Hash

/-- The digits of the first twelve bytes. -/
def short (h : Hash) (s : String) : List Char := (h.hex s).toList.take 24

/-- No two of the texts share a digest, whole or shortened. -/
structure CollisionFree (h : Hash) (texts : Set String) : Prop where
  hex : Set.InjOn h.hex texts
  short : Set.InjOn h.short texts

theorem CollisionFree.mono {h : Hash} {texts fewer : Set String} (free : h.CollisionFree texts)
    (part : fewer ⊆ texts) : h.CollisionFree fewer :=
  ⟨free.hex.mono part,free.short.mono part⟩

end Hash

def frame (part : String) : String := toString (len part)++":"++part

def key (parts : List String) : String := (parts.map frame).foldr (·++·) ""

def stableID (h : Hash) (mark value : String) : String := mark++String.ofList (h.short value)

def rawObjectID (h : Hash) (userID sessionID installationID adapterID sourceObjectID : String) : String :=
  stableID h "r_" (key [userID,sessionID,installationID,adapterID,sourceObjectID])

def rawChunkID (h : Hash) (objectID sourceChunkID : String) : String := stableID h "c_" (key [objectID,sourceChunkID])

def sessionID (h : Hash) (projectID userID installationID adapterID sourceSessionID : String) : String :=
  stableID h "s_" (key [projectID,userID,installationID,adapterID,sourceSessionID])

def sessionSourceKey (projectID userID installationID adapterID sourceSessionID : String) : String :=
  key [key [projectID,userID,installationID,adapterID,sourceSessionID],"session"]

/-- The parts of a key. A part takes at least two characters of its text. -/
def keyPartsFrom : Nat → List Char → Option (List String)
  | _,[] => some []
  | 0,_::_ => none
  | fuel+1,c::text => do
    let (number,after) := (c::text).span (· ≠ ':')
    let size ← atoi number
    if size < 0 || after = [] then none
    else do
      let (part,rest) ← takeBytes size.toNat after.tail
      (keyPartsFrom fuel rest).map (String.ofList part::·)

def keyParts (value : String) : Option (List String) := keyPartsFrom value.toList.length value.toList

/-- The source's own name of a thread, from a key of the scope of the session. -/
def sourceThreadID (sessionSourceKey threadSourceKey : String) : Option String :=
  match keyParts sessionSourceKey,keyParts threadSourceKey with
  | some [scope,"session"],some [inner,"thread",name] => if inner = scope ∧ name ≠ "" then some name else none
  | _,_ => none

@[simp] theorem key_nil : key [] = "" := rfl

@[simp] theorem key_cons (part : String) (parts : List String) : key (part::parts) = frame part++key parts :=
  rfl

theorem append_inj_of_len {s s' t t' : String} (same : s++t = s'++t') (size : len s = len s') :
    s = s' ∧ t = t' := by
  have lists : s.toList++t.toList = s'.toList++t'.toList := by
    rw [← String.toList_append,← String.toList_append,same]
  have empty : ∀ (u v : String) (extra : List Char), u.toList = v.toList++extra → len u = len v →
      extra = [] := by
    intro u v extra longer equal
    have joined : u = v++String.ofList extra := by
      rw [← String.toList_inj,String.toList_append,String.toList_ofList,longer]
    rw [joined,len,len,String.utf8ByteSize_append] at equal
    have none : (String.ofList extra).utf8ByteSize = 0 := by omega
    simpa using String.utf8ByteSize_eq_zero_iff.mp none
  rcases List.append_eq_append_iff.mp lists with ⟨extra,longer,tail⟩ | ⟨extra,longer,tail⟩
  · have nothing := empty s' s extra longer size.symm
    subst nothing
    exact ⟨String.toList_inj.mp (by simpa using longer.symm),String.toList_inj.mp (by simpa using tail)⟩
  · have nothing := empty s s' extra longer size
    subst nothing
    exact ⟨String.toList_inj.mp (by simpa using longer),String.toList_inj.mp (by simpa using tail.symm)⟩

theorem digits_inj {n n' : Nat} {rest rest' : List Char}
    (same : Nat.toDigits 10 n++ ':'::rest = Nat.toDigits 10 n'++ ':'::rest') : n = n' ∧ rest = rest' := by
  have split : ∀ m (rest : List Char),
      (Nat.toDigits 10 m++ ':'::rest).takeWhile Char.isDigit = Nat.toDigits 10 m := by
    intro m rest
    have digits : ∀ c ∈ Nat.toDigits 10 m, c.isDigit = true :=
      fun c member => Nat.isDigit_of_mem_toDigits (by decide) (by decide) member
    rw [List.takeWhile_append_of_pos digits]
    simp [show Char.isDigit ':' = false by decide]
  have numbers := congrArg (List.takeWhile Char.isDigit) same
  rw [split,split] at numbers
  refine ⟨?_,?_⟩
  · rw [← Nat.ofDigitChars_ten_toDigits (n := n),numbers,Nat.ofDigitChars_ten_toDigits]
  · rw [numbers] at same
    simpa using List.append_cancel_left same

theorem frame_inj {part part' rest rest' : String} (same : frame part++rest = frame part'++rest') :
    part = part' ∧ rest = rest' := by
  have lists : Nat.toDigits 10 (len part)++ ':'::(part++rest).toList =
      Nat.toDigits 10 (len part')++ ':'::(part'++rest').toList := by
    simpa [frame,Nat.toString_eq_repr,Nat.toList_repr] using congrArg String.toList same
  obtain ⟨size,text⟩ := digits_inj lists
  exact append_inj_of_len (String.toList_inj.mp text) size

theorem frame_ne_empty (part rest : String) : frame part++rest ≠ "" := by
  intro empty
  have size := congrArg String.utf8ByteSize empty
  simp [frame,String.utf8ByteSize_append] at size

theorem key_injective {parts parts' : List String} (same : key parts = key parts') : parts = parts' := by
  induction parts generalizing parts' with
  | nil =>
    cases parts' with
    | nil => rfl
    | cons part' parts' => exact absurd same.symm (frame_ne_empty part' _)
  | cons part parts ih =>
    cases parts' with
    | nil => exact absurd same (frame_ne_empty part _)
    | cons part' parts' =>
      obtain ⟨rfl,rest⟩ := frame_inj same
      rw [ih rest]

theorem stableID_inj {h : Hash} {texts : Set String} (free : h.CollisionFree texts) {mark s s' : String}
    (known : s ∈ texts) (known' : s' ∈ texts) (same : stableID h mark s = stableID h mark s') :
    s = s' := by
  apply free.short known known'
  have lists := congrArg String.toList same
  simpa [stableID] using lists

def Scoped (h : Hash) (sessionID sourceKey : String) : Prop :=
  ∃ scope rest, sessionID = stableID h "s_" scope ∧ sourceKey = key (scope::rest)

theorem Scoped.unique {h : Hash} {sessionID sessionID' sourceKey : String}
    (left : Scoped h sessionID sourceKey) (right : Scoped h sessionID' sourceKey) :
    sessionID = sessionID' := by
  obtain ⟨scope,rest,rfl,rfl⟩ := left
  obtain ⟨scope',rest',rfl,same⟩ := right
  rw [(List.cons.inj (key_injective same)).1]

/-! A digest that tells the texts of a short list apart, by their places in it. -/

theorem hexDigits_inj : ∀ n < 16, ∀ m < 16, hexDigits.getD n '0' = hexDigits.getD m '0' → n = m := by decide

theorem hexDigits_mem (n : Nat) : hexDigits.getD n '0' ∈ hexDigits := by
  rw [List.getD_eq_getElem?_getD]
  cases place : hexDigits[n]? with
  | none => decide
  | some c => exact List.mem_of_getElem? place

namespace Hash

def table (texts : List String) : Hash where
  hex s := String.ofList (List.replicate 64 (hexDigits.getD (texts.idxOf s) '0'))
  length s := by simp
  digits s c member := by
    rw [String.toList_ofList] at member
    rw [List.eq_of_mem_replicate member]
    exact hexDigits_mem _

theorem table_short (texts : List String) (s : String) :
    (table texts).short s = List.replicate 24 (hexDigits.getD (texts.idxOf s) '0') := by
  rw [short,table,String.toList_ofList,List.take_replicate]
  rfl

theorem table_collisionFree {texts : List String} (few : texts.length ≤ 16) :
    (table texts).CollisionFree {s | s ∈ texts} := by
  have place : ∀ s ∈ texts, texts.idxOf s < 16 := fun s member =>
    (List.idxOf_lt_length_of_mem member).trans_le few
  have apart : ∀ s ∈ texts, ∀ t ∈ texts,
      hexDigits.getD (texts.idxOf s) '0' = hexDigits.getD (texts.idxOf t) '0' → s = t := by
    intro s member t member' same
    exact (List.idxOf_inj member).mp (hexDigits_inj _ (place s member) _ (place t member') same)
  refine ⟨?_,?_⟩
  · intro s member t member' same
    apply apart s member t member'
    have lists := String.ofList_inj.mp same
    exact (List.replicate_inj.mp lists).2.resolve_left (by decide)
  · intro s member t member' same
    apply apart s member t member'
    have lists : List.replicate 24 _ = List.replicate 24 _ :=
      ((table_short texts s).symm.trans same).trans (table_short texts t)
    exact (List.replicate_inj.mp lists).2.resolve_left (by decide)

end Hash

end ATape.SourceIdentity
