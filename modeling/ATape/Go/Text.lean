import Mathlib.Algebra.Order.Ring.Int
import Mathlib.Data.List.Sort
import Mathlib.Data.Prod.Lex
import Mathlib.Tactic.Ring

/-! The string functions of Go that the server relies on. A string stands for a
valid UTF-8 one; lengths count its bytes. -/
namespace ATape.Go

def len (s : String) : Nat := s.utf8ByteSize

theorem len_le (run : List Char) : len (String.ofList run) ≤ 4*run.length := by
  induction run with
  | nil => simp [len]
  | cons c run ih =>
    have one : String.ofList (c::run) = String.ofList [c]++String.ofList run := by
      rw [← String.ofList_append]
      rfl
    have first : (String.ofList [c]).utf8ByteSize = c.utf8Size := by
      simp
    have small := c.utf8Size_le_four
    rw [len,one,String.utf8ByteSize_append,first,List.length_cons]
    unfold len at ih
    omega

/-- `unicode.IsSpace` -/
def isSpace (c : Char) : Bool :=
  c = ' ' || c = '\t' || c = '\n' || c = '\x0b' || c = '\x0c' || c = '\r' || c = '\u0085' ||
    c = '\u00a0' || c = '\u1680' || ('\u2000' ≤ c && c ≤ '\u200a') || c = '\u2028' ||
    c = '\u2029' || c = '\u202f' || c = '\u205f' || c = '\u3000'

/-- `unicode.IsControl` -/
def isControl (c : Char) : Bool := c.toNat < 0x20 || (0x7f ≤ c.toNat && c.toNat < 0xa0)

def trimRight (p : Char → Bool) (text : List Char) : List Char := (text.reverse.dropWhile p).reverse

/-- `strings.TrimFunc` -/
def trimFunc (p : Char → Bool) (s : String) : String :=
  String.ofList (trimRight p (s.toList.dropWhile p))

/-- `strings.TrimSpace` -/
def trimSpace (s : String) : String := trimFunc isSpace s

/-- The characters of the first bytes of a text and the rest of it, where these bytes
end with a character. -/
def takeBytes : Nat → List Char → Option (List Char × List Char)
  | 0,text => some ([],text)
  | _+1,[] => none
  | n+1,c::text =>
    if n+1 < c.utf8Size then none
    else (takeBytes (n+1-c.utf8Size) text).map fun (taken,rest) => (c::taken,rest)

def unsigned (digits : List Char) : Option Nat :=
  if digits ≠ [] ∧ digits.all Char.isDigit then some (Nat.ofDigitChars 10 digits 0) else none

/-- `strconv.Atoi`, without its bound on the size of the number. -/
def atoi : List Char → Option Int
  | '+'::digits => (unsigned digits).map Int.ofNat
  | '-'::digits => (unsigned digits).map fun n => -Int.ofNat n
  | digits => (unsigned digits).map Int.ofNat

end ATape.Go
