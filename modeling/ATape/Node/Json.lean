import ATape.Foundation.JsonText
import Mathlib.Data.List.Lex

/-! How `JSON.stringify` writes a string, and the files that hold one value. Only
quotes, backslashes and control characters are escaped. -/
namespace ATape.Node
open Foundation

def escapeChar (c : Char) : List Char :=
  match c with
  | '"' => ['\\','"']
  | '\\' => ['\\','\\']
  | '\x08' => ['\\','b']
  | '\x0c' => ['\\','f']
  | '\n' => ['\\','n']
  | '\r' => ['\\','r']
  | '\t' => ['\\','t']
  | c => if c.toNat < 0x20 then Json.hexEscape c.toNat else [c]

theorem escapeChar_reads (fuel : Nat) (c : Char) (rest : List Char) :
    Json.chars (fuel+1) (escapeChar c++rest) =
      (Json.chars fuel rest).map fun (tail,rest) => (c::tail,rest) := by
  unfold escapeChar
  split
  case h_8 _ quote backslash _ _ _ _ _ =>
    split
    next small =>
      apply Json.chars_hex
      omega
    next visible => exact Json.chars_plain fuel rest quote backslash (by omega)
  all_goals exact Json.chars_escape fuel rfl

theorem escapeChar_nonempty (c : Char) : escapeChar c ≠ [] := by
  unfold escapeChar
  repeat' split
  all_goals simp [Json.hexEscape]

def escaping : Json.Escaping := ⟨escapeChar,escapeChar_nonempty,escapeChar_reads⟩

/-- The text of a value and a new line. -/
def fileText (j : Json) : String := String.ofList (Json.write escaping j++['\n'])

theorem parse_fileText {j : Json} (integral : j.Integral) : Json.parse (fileText j) = some j :=
  Json.parse_written escaping integral (.inr rfl)

theorem fileText_injective {j j' : Json} (integral : j.Integral) (integral' : j'.Integral)
    (alike : fileText j = fileText j') : j = j' := by
  have read := parse_fileText integral
  rw [alike,parse_fileText integral'] at read
  exact (Option.some.inj read).symm

/-- `JSON.stringify` -/
def stringify (j : Json) : String := String.ofList (Json.write escaping j)

theorem stringify_injective {j j' : Json} (integral : j.Integral) (integral' : j'.Integral)
    (alike : stringify j = stringify j') : j = j' := by
  have read : ∀ {j : Json}, j.Integral → Json.parse (stringify j) = some j := by
    intro j integral
    have written := Json.parse_written escaping integral (.inl rfl)
    rwa [List.append_nil] at written
  have same := read integral
  rw [alike,read integral'] at same
  exact (Option.some.inj same).symm

/-- The code units of a string, by which strings are measured and compared. -/
def units (text : String) : List Nat :=
  text.toList.flatMap fun c =>
    if c.toNat < 0x10000 then [c.toNat]
    else [0xd800+(c.toNat-0x10000)/0x400,0xdc00+(c.toNat-0x10000)%0x400]

/-- `sort` of an array of strings -/
def sortTexts (texts : List String) : List String := texts.insertionSort fun a b => units a ≤ units b

end ATape.Node
