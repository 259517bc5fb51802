import ATape.Go.Text

/-! Base64 and hexadecimal texts as packages `base64` and `uuid` read them, and the
search of package `sort`. -/
namespace ATape.Go

abbrev Bytes := List UInt8

def base64Value (c : Char) : Option Nat :=
  if 'A' ≤ c && c ≤ 'Z' then some (c.toNat-65)
  else if 'a' ≤ c && c ≤ 'z' then some (c.toNat-71)
  else if c.isDigit then some (c.toNat+4)
  else if c = '+' then some 62
  else if c = '/' then some 63
  else none

/-- Four characters stand for three bytes; a strict text has no bits left over in
front of its padding. -/
def decodeQuanta : List Char → Option Bytes
  | [] => some []
  | [a,b, '=', '='] => do
    let a ← base64Value a
    let b ← base64Value b
    if b%16 = 0 then some [(a*4+b/16).toUInt8] else none
  | [a,b,c, '='] => do
    let a ← base64Value a
    let b ← base64Value b
    let c ← base64Value c
    if c%4 = 0 then some [(a*4+b/16).toUInt8,(b%16*16+c/4).toUInt8] else none
  | a::b::c::d::rest => do
    let a ← base64Value a
    let b ← base64Value b
    let c ← base64Value c
    let d ← base64Value d
    let bytes ← decodeQuanta rest
    some ((a*4+b/16).toUInt8::(b%16*16+c/4).toUInt8::(c%4*64+d).toUInt8::bytes)
  | _ => none

/-- `base64.StdEncoding.Strict().DecodeString`, which skips line ends. -/
def decodeBase64 (text : String) : Option Bytes :=
  decodeQuanta (text.toList.filter fun c => c ≠ '\r' && c ≠ '\n')

/-- `base64.StdEncoding.EncodedLen` -/
def encodedLen (n : Nat) : Nat := (n+2)/3*4

def isLowerHex (c : Char) : Bool := c.isDigit || ('a' ≤ c && c ≤ 'f')

/-- Whether `uuid.Parse` reads the text, as an identifier that is not nil and whose
canonical text it is. -/
def isCanonicalUUID (text : String) : Bool :=
  let parts := text.toList.splitOn '-'
  (parts.map List.length == [8,4,4,4,12]) && parts.all (fun part => part.all isLowerHex) &&
    parts.any fun part => part.any fun c => c ≠ '0'

/-- The loop of `sort.Search`, between two bounds. -/
def searchBetween (f : Nat → Bool) : Nat → Nat → Nat → Nat
  | 0,low,_ => low
  | fuel+1,low,high =>
    if low < high then
      let middle := (low+high)/2
      if f middle then searchBetween f fuel low middle else searchBetween f fuel (middle+1) high
    else low

/-- `sort.Search`; each round shortens the interval. -/
def search (n : Nat) (f : Nat → Bool) : Nat := searchBetween f n 0 n

theorem searchBetween_spec {f : Nat → Bool} {n place : Nat} (rises : ∀ i < n, f i = true ↔ place ≤ i) :
    ∀ fuel low high, low ≤ place → place ≤ high → high ≤ n → high ≤ low+fuel →
      searchBetween f fuel low high = place := by
  intro fuel
  induction fuel with
  | zero =>
    intro low high above below _ short
    rw [searchBetween]
    omega
  | succ fuel ih =>
    intro low high above below inside short
    rw [searchBetween]
    by_cases order : low < high
    · rw [if_pos order]
      have middle := rises ((low+high)/2) (by omega)
      by_cases here : place ≤ (low+high)/2
      · rw [if_pos (middle.mpr here)]
        exact ih low _ above here (by omega) (by omega)
      · rw [if_neg (mt middle.mp here)]
        exact ih _ high (by omega) below inside (by omega)
    · rw [if_neg order]
      omega

theorem search_eq {f : Nat → Bool} {n place : Nat} (rises : ∀ i < n, f i = true ↔ place ≤ i)
    (inside : place ≤ n) : search n f = place :=
  searchBetween_spec rises n 0 n (Nat.zero_le _) inside (Nat.le_refl _) (by omega)

end ATape.Go
