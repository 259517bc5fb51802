import ATape.Foundation.Utf8
import ATape.Go.Json
import ATape.Go.Text

/-! Base64 texts without padding in the alphabet of URLs, as `base64.RawURLEncoding` writes and reads
them. What is written reads back. -/
namespace ATape.Go
open Foundation

def urlAlphabet : List Char := "ABCDEFGHIJKLMNOPQRSTUVWXYZabcdefghijklmnopqrstuvwxyz0123456789-_".toList

def urlDigit (n : ℕ) : Char := urlAlphabet.getD n 'A'

def urlValue (c : Char) : Option ℕ :=
  if urlAlphabet.idxOf c < 64 then some (urlAlphabet.idxOf c) else none

def encodeQuanta : List UInt8 → List Char
  | [] => []
  | [a] => [urlDigit (a.toNat/4),urlDigit (a.toNat%4*16)]
  | [a,b] => [urlDigit (a.toNat/4),urlDigit (a.toNat%4*16+b.toNat/16),urlDigit (b.toNat%16*4)]
  | a::b::c::rest =>
    urlDigit (a.toNat/4)::urlDigit (a.toNat%4*16+b.toNat/16)::urlDigit (b.toNat%16*4+c.toNat/64)::
      urlDigit (c.toNat%64)::encodeQuanta rest

/-- Bits that are left over are not looked at. -/
def decodeURLQuanta : List Char → Option (List UInt8)
  | [] => some []
  | [_] => none
  | [a,b] => do
    let a ← urlValue a
    let b ← urlValue b
    pure [(a*4+b/16).toUInt8]
  | [a,b,c] => do
    let a ← urlValue a
    let b ← urlValue b
    let c ← urlValue c
    pure [(a*4+b/16).toUInt8,(b%16*16+c/4).toUInt8]
  | a::b::c::d::rest => do
    let a ← urlValue a
    let b ← urlValue b
    let c ← urlValue c
    let d ← urlValue d
    let bytes ← decodeURLQuanta rest
    pure ((a*4+b/16).toUInt8::(b%16*16+c/4).toUInt8::(c%4*64+d).toUInt8::bytes)

/-- `base64.RawURLEncoding.EncodeToString` -/
def encodeRawURL (bytes : List UInt8) : String := String.ofList (encodeQuanta bytes)

/-- `base64.RawURLEncoding.DecodeString`, which skips line ends. -/
def decodeRawURL (text : String) : Option (List UInt8) :=
  decodeURLQuanta (text.toList.filter fun c => c ≠ '\r' && c ≠ '\n')

theorem urlValue_digit {n : ℕ} (small : n < 64) : urlValue (urlDigit n) = some n := by
  have all : ∀ n < 64, urlValue (urlDigit n) = some n := by decide +kernel
  exact all n small

theorem urlDigit_visible (n : ℕ) : (urlDigit n ≠ '\r' && urlDigit n ≠ '\n') = true := by
  have all : ('A'::urlAlphabet).all (fun c => c ≠ '\r' && c ≠ '\n') = true := by decide
  apply List.all_eq_true.mp all
  unfold urlDigit
  rw [List.getD_eq_getElem?_getD]
  cases digit : urlAlphabet[n]? with
  | none => exact List.mem_cons_self
  | some c => exact List.mem_cons_of_mem _ (List.mem_of_getElem? digit)

theorem byte_eq {a : UInt8} {n : ℕ} (same : n = a.toNat) : n.toUInt8 = a := by
  rw [same]
  exact UInt8.ofNat_toNat

theorem decode_encodeQuanta (bytes : List UInt8) : decodeURLQuanta (encodeQuanta bytes) = some bytes := by
  induction bytes using encodeQuanta.induct with
  | case1 => rfl
  | case2 a =>
    have small := a.toNat_lt
    simp only [encodeQuanta,decodeURLQuanta]
    rw [urlValue_digit (by omega),urlValue_digit (by omega)]
    simp only [Option.bind_eq_bind,Option.bind_some,Option.pure_def,Option.some.injEq,List.cons.injEq,and_true]
    exact byte_eq (by omega)
  | case3 a b =>
    have small := a.toNat_lt
    have small' := b.toNat_lt
    simp only [encodeQuanta,decodeURLQuanta]
    rw [urlValue_digit (by omega),urlValue_digit (by omega),urlValue_digit (by omega)]
    simp only [Option.bind_eq_bind,Option.bind_some,Option.pure_def,Option.some.injEq,List.cons.injEq,and_true]
    exact ⟨byte_eq (by omega),byte_eq (by omega)⟩
  | case4 a b c rest ih =>
    have small := a.toNat_lt
    have small' := b.toNat_lt
    have small'' := c.toNat_lt
    simp only [encodeQuanta,decodeURLQuanta]
    rw [urlValue_digit (by omega),urlValue_digit (by omega),urlValue_digit (by omega),urlValue_digit (by omega),ih]
    simp only [Option.bind_eq_bind,Option.bind_some,Option.pure_def,Option.some.injEq,List.cons.injEq,and_true]
    exact ⟨byte_eq (by omega),byte_eq (by omega),byte_eq (by omega)⟩

theorem encodeQuanta_digits (bytes : List UInt8) : ∀ c ∈ encodeQuanta bytes, ∃ n, urlDigit n = c := by
  induction bytes using encodeQuanta.induct with
  | case1 => exact List.forall_mem_nil _
  | case2 a =>
    simp only [encodeQuanta,List.forall_mem_cons,exists_apply_eq_apply,true_and]
    exact List.forall_mem_nil _
  | case3 a b =>
    simp only [encodeQuanta,List.forall_mem_cons,exists_apply_eq_apply,true_and]
    exact List.forall_mem_nil _
  | case4 a b c rest ih => simpa only [encodeQuanta,List.forall_mem_cons,exists_apply_eq_apply,true_and] using ih

theorem encodeQuanta_visible (bytes : List UInt8) :
    ∀ c ∈ encodeQuanta bytes, (c ≠ '\r' && c ≠ '\n') = true := by
  intro c member
  obtain ⟨n,rfl⟩ := encodeQuanta_digits bytes c member
  exact urlDigit_visible n

theorem encodeQuanta_length (bytes : List UInt8) : 3*(encodeQuanta bytes).length ≤ 4*bytes.length+2 := by
  induction bytes using encodeQuanta.induct with
  | case1 => exact Nat.zero_le _
  | case2 a => exact Nat.le_refl _
  | case3 a b => exact Nat.le_succ 9
  | case4 a b c rest ih =>
    simp only [encodeQuanta,List.length_cons]
    omega

theorem decode_encodeRawURL (bytes : List UInt8) : decodeRawURL (encodeRawURL bytes) = some bytes := by
  rw [decodeRawURL,encodeRawURL,String.toList_ofList,List.filter_eq_self.mpr (encodeQuanta_visible bytes),
    decode_encodeQuanta]

theorem urlDigit_size (n : ℕ) : (urlDigit n).utf8Size = 1 := by
  have all : ('A'::urlAlphabet).all (fun c => c.utf8Size = 1) = true := by decide
  apply of_decide_eq_true
  apply List.all_eq_true.mp all
  unfold urlDigit
  rw [List.getD_eq_getElem?_getD]
  cases digit : urlAlphabet[n]? with
  | none => exact List.mem_cons_self
  | some c => exact List.mem_cons_of_mem _ (List.mem_of_getElem? digit)

theorem encodeRawURL_short (bytes : List UInt8) : 3*len (encodeRawURL bytes) ≤ 4*bytes.length+2 := by
  have single : ∀ run : List Char, (∀ c ∈ run, ∃ n, urlDigit n = c) → len (String.ofList run) = run.length := by
    intro run digits
    induction run with
    | nil => rfl
    | cons c run ih =>
      obtain ⟨⟨n,rfl⟩,rest⟩ := List.forall_mem_cons.mp digits
      have joined : String.ofList (urlDigit n::run) = String.ofList [urlDigit n]++String.ofList run :=
        (String.ofList_append).symm ▸ rfl
      have tail := ih rest
      unfold len at tail ⊢
      rw [joined,String.utf8ByteSize_append,tail,List.length_cons]
      simp [urlDigit_size]
      omega
  rw [encodeRawURL,single _ (encodeQuanta_digits bytes)]
  exact encodeQuanta_length bytes

/-- The base64 text of a JSON text. -/
def encodedJSON (j : Json) : String := encodeRawURL (utf8 (marshal j).toList)

theorem encodedJSON_injective {j j' : Json} (integral : j.Integral) (integral' : j'.Integral)
    (alike : encodedJSON j = encodedJSON j') : j = j' := by
  have bytes := congrArg decodeRawURL alike
  simp only [encodedJSON,decode_encodeRawURL,Option.some.injEq] at bytes
  have text := congrArg utf8Decode bytes
  simp only [utf8Decode_utf8,Option.some.injEq] at text
  exact marshal_injective integral integral' (String.toList_injective text)

end ATape.Go
