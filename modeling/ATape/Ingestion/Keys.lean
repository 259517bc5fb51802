import ATape.Go.Plain
import ATape.Ingestion.Prepared

/-! The keys of the records of a session, read back: a key decodes to its components, and the decoder takes no text but
one that spells some components with their lengths. -/
namespace ATape.SourceIdentity
open Go

/-! Bytes and numerals. -/

theorem len_cons (c : Char) (text : List Char) :
    len (String.ofList (c::text)) = c.utf8Size+len (String.ofList text) := by
  have one : String.ofList (c::text) = String.ofList [c]++String.ofList text := by
    rw [← String.ofList_append]
    rfl
  rw [len,one,String.utf8ByteSize_append]
  simp [len]

theorem takeBytes_append (text rest : List Char) :
    takeBytes (len (String.ofList text)) (text++rest) = some (text,rest) := by
  induction text with
  | nil => simp [len,takeBytes]
  | cons c text ih =>
    have wide := c.utf8Size_pos
    obtain ⟨n,size⟩ : ∃ n, len (String.ofList (c::text)) = n+1 := ⟨_,(Nat.succ_pred (by rw [len_cons]; omega)).symm⟩
    have left : n+1-c.utf8Size = len (String.ofList text) := by
      rw [← size,len_cons]
      omega
    have enough : ¬n+1 < c.utf8Size := by
      rw [← size,len_cons]
      omega
    rw [size,List.cons_append,takeBytes,if_neg enough,left,ih]
    rfl

theorem takeBytes_some {n : Nat} {text part rest : List Char} (taken : takeBytes n text = some (part,rest)) :
    text = part++rest ∧ len (String.ofList part) = n := by
  induction text generalizing n part with
  | nil =>
    cases n with
    | zero =>
      cases taken
      simp [len]
    | succ n => cases taken
  | cons c text ih =>
    cases n with
    | zero =>
      cases taken
      simp [len]
    | succ n =>
      rw [takeBytes] at taken
      split at taken
      next => cases taken
      next enough =>
        obtain ⟨⟨part',rest'⟩,before,same⟩ := Option.map_eq_some_iff.mp taken
        cases same
        obtain ⟨rfl,size⟩ := ih before
        refine ⟨rfl,?_⟩
        rw [len_cons,size]
        omega

theorem unsigned_digits {digits : List Char} {n : Nat} (read : unsigned digits = some n) :
    digits ≠ [] ∧ ∀ c ∈ digits, c.isDigit = true := by
  unfold unsigned at read
  split at read
  next both => exact ⟨both.1,List.all_eq_true.mp both.2⟩
  next => cases read

theorem atoi_plain {numeral : List Char} {n : Int} (read : atoi numeral = some n) :
    numeral ≠ [] ∧ ∀ c ∈ numeral, c ≠ ':' := by
  have digits : ∀ {text : List Char} {m : Nat}, unsigned text = some m → ∀ c ∈ text, c ≠ ':' := by
    intro text m known c member colon
    have digit := (unsigned_digits known).2 c member
    rw [colon] at digit
    exact absurd digit (by decide)
  unfold atoi at read
  split at read
  next text =>
    obtain ⟨m,known,_⟩ := Option.map_eq_some_iff.mp read
    refine ⟨List.cons_ne_nil _ _,?_⟩
    intro c member
    rcases List.mem_cons.mp member with rfl | later
    · decide
    · exact digits known c later
  next text =>
    obtain ⟨m,known,_⟩ := Option.map_eq_some_iff.mp read
    refine ⟨List.cons_ne_nil _ _,?_⟩
    intro c member
    rcases List.mem_cons.mp member with rfl | later
    · decide
    · exact digits known c later
  next =>
    obtain ⟨m,known,_⟩ := Option.map_eq_some_iff.mp read
    exact ⟨(unsigned_digits known).1,digits known⟩

theorem atoi_nat (n : Nat) : atoi (toString n).toList = some (n : Int) := atoi_int n

/-! The decoder. -/

/-- A text that spells parts: for each a numeral that reads as its length, a colon and the part. -/
inductive Spelled : List Char → List String → Prop
  | nil : Spelled [] []
  | cons (numeral part rest parts) (size : atoi numeral = some (len (String.ofList part) : Int)) (later : Spelled rest parts) :
      Spelled (numeral++ ':'::(part++rest)) (String.ofList part::parts)

theorem keyPartsFrom_step {fuel : Nat} {text : List Char} {parts : List String} (more : text ≠ []) :
    keyPartsFrom (fuel+1) text = some parts ↔ ∃ numeral part rest parts', text = numeral++ ':'::(part++rest) ∧
      atoi numeral = some (len (String.ofList part) : Int) ∧ keyPartsFrom fuel rest = some parts' ∧
      parts = String.ofList part::parts' := by
  obtain ⟨c,text,rfl⟩ := List.exists_cons_of_ne_nil more
  simp only [keyPartsFrom,List.span_eq_takeWhile_dropWhile]
  constructor
  · intro decoded
    obtain ⟨size,read,decoded⟩ := Option.bind_eq_some_iff.mp decoded
    split at decoded
    next => cases decoded
    next fits =>
      obtain ⟨⟨part,rest⟩,taken,decoded⟩ := Option.bind_eq_some_iff.mp decoded
      obtain ⟨parts',later,rfl⟩ := Option.map_eq_some_iff.mp decoded
      simp only [Bool.or_eq_true,decide_eq_true_eq,not_or] at fits
      obtain ⟨d,after,found⟩ := List.exists_cons_of_ne_nil fits.2
      have colon : d = ':' := by
        have first := List.head?_dropWhile_not (fun c => decide (c ≠ ':')) (c::text)
        rw [found] at first
        simpa using first
      rw [found,List.tail_cons] at taken
      obtain ⟨rfl,bytes⟩ := takeBytes_some taken
      refine ⟨(c::text).takeWhile (fun c => decide (c ≠ ':')),part,rest,parts',?_,?_,later,rfl⟩
      · rw [colon] at found
        rw [← found]
        exact List.takeWhile_append_dropWhile.symm
      · rw [read,bytes,Int.toNat_of_nonneg (by omega)]
  · intro framed
    obtain ⟨numeral,part,rest,parts',same,read,later,spelled⟩ := framed
    have plain : ∀ c ∈ numeral, decide (c ≠ ':') = true := by
      intro c member
      exact decide_eq_true ((atoi_plain read).2 c member)
    have before : (c::text).takeWhile (fun c => decide (c ≠ ':')) = numeral := by
      rw [same,List.takeWhile_append_of_pos plain]
      simp
    have after : (c::text).dropWhile (fun c => decide (c ≠ ':')) = ':'::(part++rest) := by
      rw [same,List.dropWhile_append_of_pos plain]
      simp
    rw [before,after,spelled]
    simp [read,takeBytes_append,later]

theorem keyPartsFrom_iff {fuel : Nat} {text : List Char} {parts : List String} (enough : text.length ≤ fuel) :
    keyPartsFrom fuel text = some parts ↔ Spelled text parts := by
  induction fuel generalizing text parts with
  | zero =>
    have empty : text = [] := List.length_eq_zero_iff.mp (Nat.le_zero.mp enough)
    subst empty
    constructor
    · intro decoded
      cases decoded
      exact .nil
    · intro spelled
      generalize nothing : ([] : List Char) = text at spelled
      cases spelled with
      | nil => rfl
      | cons => simp at nothing
  | succ fuel ih =>
    cases text with
    | nil =>
      constructor
      · intro decoded
        cases decoded
        exact .nil
      · intro spelled
        generalize nothing : ([] : List Char) = text at spelled
        cases spelled with
        | nil => rfl
        | cons => simp at nothing
    | cons c text =>
      rw [keyPartsFrom_step (List.cons_ne_nil c text)]
      constructor
      · intro framed
        obtain ⟨numeral,part,rest,parts',same,read,later,spelled⟩ := framed
        rw [same,spelled]
        refine .cons numeral part rest parts' read ((ih ?_).mp later)
        have sizes := congrArg List.length same
        simp only [List.length_cons,List.length_append] at sizes enough
        omega
      · intro spelled
        generalize same : c::text = whole at spelled
        cases spelled with
        | nil => cases same
        | cons numeral part rest parts' read later =>
          refine ⟨numeral,part,rest,parts',rfl,read,(ih ?_).mpr later,rfl⟩
          have sizes := congrArg List.length same
          simp only [List.length_cons,List.length_append] at sizes enough
          omega

theorem keyParts_iff (value : String) (parts : List String) :
    keyParts value = some parts ↔ Spelled value.toList parts := keyPartsFrom_iff (Nat.le_refl _)

theorem key_spelled (parts : List String) : Spelled (key parts).toList parts := by
  induction parts with
  | nil => exact .nil
  | cons part parts ih =>
    have text : (key (part::parts)).toList = (toString (len part)).toList++ ':'::(part.toList++(key parts).toList) := by
      simp [frame]
    have spelled := Spelled.cons (toString (len part)).toList part.toList _ parts
      (by rw [String.ofList_toList]; exact atoi_nat (len part)) ih
    rw [String.ofList_toList] at spelled
    rw [text]
    exact spelled

@[simp] theorem keyParts_key (parts : List String) : keyParts (key parts) = some parts :=
  (keyParts_iff _ _).mpr (key_spelled parts)

end ATape.SourceIdentity

namespace ATape.Ingestion
open SourceIdentity

/-- What the key of a record names, behind the scope of its session. -/
inductive Identity
  | session (scope : List String)
  | thread (scope : List String) (name : String)
  | event (scope : List String) (threadName name : String)
  | usage (scope : List String) (threadName name : String)

namespace Identity

def components : Identity → List String
  | .session scope => [sourceKey scope,"session"]
  | .thread scope name => [sourceKey scope,"thread",name]
  | .event scope threadName name => [sourceKey scope,"event",threadName,name]
  | .usage scope threadName name => [sourceKey scope,"usage",threadName,name]

def key (identity : Identity) : String := sourceKey identity.components

theorem key_injective : Function.Injective Identity.key := by
  intro left right same
  have parts : left.components = right.components := SourceIdentity.key_injective same
  cases left <;> cases right <;> simp [components] at parts
  next => rw [SourceIdentity.key_injective parts]
  next => rw [SourceIdentity.key_injective parts.1,parts.2]
  next => rw [SourceIdentity.key_injective parts.1,parts.2.1,parts.2.2]
  next => rw [SourceIdentity.key_injective parts.1,parts.2.1,parts.2.2]

end Identity

theorem sourceThreadID_iff (scope scope' : List String) (name found : String) :
    sourceThreadID (Identity.session scope).key (Identity.thread scope' name).key = some found ↔
      scope = scope' ∧ found = name ∧ name ≠ "" := by
  simp only [sourceThreadID,Identity.key,sourceKey,Identity.components,keyParts_key,Option.ite_none_right_eq_some,
    Option.some.injEq]
  constructor
  · intro both
    obtain ⟨⟨inner,named⟩,same⟩ := both
    exact ⟨(key_injective inner).symm,same.symm,named⟩
  · intro all
    obtain ⟨inner,same,named⟩ := all
    exact ⟨⟨by rw [inner],named⟩,same.symm⟩

/-- Keys of different components differ and decode to them; a thread comes back behind its own session, unless its name
is empty; and what decodes is spelled by the parts with numerals of their lengths. -/
theorem source_keys :
    Function.Injective Identity.key ∧
    (∀ identity : Identity, keyParts identity.key = some identity.components) ∧
    (∀ scope, keyParts (sourceKey scope) = some scope) ∧
    (∀ scope scope' name, sourceThreadID (Identity.session scope).key (Identity.thread scope' name).key =
      some name ↔ scope = scope' ∧ name ≠ "") ∧
    ∀ value parts, keyParts value = some parts ↔ Spelled value.toList parts := by
  refine ⟨Identity.key_injective,?_,keyParts_key,?_,keyParts_iff⟩
  · intro identity
    exact keyParts_key _
  · intro scope scope' name
    rw [sourceThreadID_iff]
    simp

/-- An empty thread name does not come back, and a length may be written with a zero in front. -/
theorem source_keys_loose :
    sourceThreadID (Identity.session ["p"]).key (Identity.thread ["p"] "").key = none ∧
    keyParts "01:a" = some ["a"] ∧ ¬∃ parts, sourceKey parts = "01:a" := by
  have read : keyParts "01:a" = some ["a"] := by decide
  refine ⟨?_,read,?_⟩
  · cases found : sourceThreadID (Identity.session ["p"]).key (Identity.thread ["p"] "").key with
    | none => rfl
    | some name => exact absurd rfl ((sourceThreadID_iff ["p"] ["p"] "" name).mp found).2.2
  intro spelled
  obtain ⟨parts,same⟩ := spelled
  have decoded := keyParts_key parts
  rw [← sourceKey,same] at decoded
  rw [read] at decoded
  cases decoded
  exact absurd same (by decide)

end ATape.Ingestion
