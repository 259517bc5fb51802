import ATape.Foundation.JsonText

/-! How `encoding/json` writes a string: control characters, quotes and
backslashes are escaped, and so are the characters that HTML or JavaScript
would misread. -/
namespace ATape.Go
open Foundation

def isUnsafe (c : Char) : Bool :=
  c.toNat < 0x20 || c = '<' || c = '>' || c = '&' || c = '\u2028' || c = '\u2029'

def escapeChar (c : Char) : List Char :=
  match c with
  | '"' => ['\\','"']
  | '\\' => ['\\','\\']
  | '\x08' => ['\\','b']
  | '\x0c' => ['\\','f']
  | '\n' => ['\\','n']
  | '\r' => ['\\','r']
  | '\t' => ['\\','t']
  | c => if isUnsafe c then Json.hexEscape c.toNat else [c]

theorem escapeChar_reads (fuel : Nat) (c : Char) (rest : List Char) :
    Json.chars (fuel+1) (escapeChar c++rest) =
      (Json.chars fuel rest).map fun (tail,rest) => (c::tail,rest) := by
  unfold escapeChar
  split
  case h_8 _ quote backslash _ _ _ _ _ =>
    split
    next special =>
      apply Json.chars_hex
      simp only [isUnsafe,Bool.or_eq_true,decide_eq_true_eq] at special
      rcases special with ((((small | rfl) | rfl) | rfl) | rfl) | rfl
      · omega
      all_goals decide
    next plain =>
      have visible : 0x20 ≤ c.toNat := by
        simp only [isUnsafe,Bool.or_eq_true,decide_eq_true_eq,not_or,not_lt] at plain
        exact plain.1.1.1.1.1
      exact Json.chars_plain fuel rest quote backslash visible
  all_goals exact Json.chars_escape fuel rfl

theorem escapeChar_nonempty (c : Char) : escapeChar c ≠ [] := by
  unfold escapeChar
  repeat' split
  all_goals simp [Json.hexEscape]

def escaping : Json.Escaping := ⟨escapeChar,escapeChar_nonempty,escapeChar_reads⟩

/-- The text that `json.Marshal` gives for a value. -/
def marshal (j : Json) : String := String.ofList (Json.write escaping j)

theorem marshal_injective {j j' : Json} (integral : j.Integral) (integral' : j'.Integral)
    (alike : marshal j = marshal j') : j = j' :=
  Json.write_injective escaping integral integral' (String.ofList_inj.mp alike)

end ATape.Go
