import Mathlib.Algebra.Order.Ring.Int
import Mathlib.Data.List.Sort
import Mathlib.Data.Prod.Lex
import Mathlib.Tactic.Ring

/-! Concrete JSON texts. The reader follows the grammar of RFC 8259; a number
keeps its literal, members keep their order and their duplicates, and an
escape of half a surrogate pair reads as the replacement character. -/
namespace ATape.Foundation

inductive Json
  | null
  | bool (value : Bool)
  | num (literal : String)
  | str (text : String)
  | arr (items : List Json)
  | obj (members : List (String × Json))

namespace Json

def isBlank (c : Char) : Bool := c = ' ' || c = '\t' || c = '\n' || c = '\r'

def skip (text : List Char) : List Char := text.dropWhile isBlank

/-- What follows a fixed word. -/
def expect (word text : List Char) : Option (List Char) :=
  if word.isPrefixOf text then some (text.drop word.length) else none

def isDigit (c : Char) : Bool := '0' ≤ c && c ≤ '9'

def digits (text : List Char) : Option (List Char × List Char) :=
  match text.takeWhile isDigit with
  | [] => none
  | run => some (run,text.dropWhile isDigit)

def sign (allowed text : List Char) : List Char × List Char :=
  match text with
  | c::rest => if c ∈ allowed then ([c],rest) else ([],text)
  | [] => ([],text)

def fraction (text : List Char) : Option (List Char × List Char) :=
  match text with
  | '.'::rest => (digits rest).map fun (run,rest) => ('.'::run,rest)
  | _ => some ([],text)

def exponent (text : List Char) : Option (List Char × List Char) :=
  match text with
  | c::rest =>
    if c = 'e' || c = 'E' then
      let (mark,rest) := sign [ '+', '-'] rest
      (digits rest).map fun (run,rest) => (c::mark++run,rest)
    else some ([],text)
  | [] => some ([],text)

/-- The integer part has no leading zero. -/
def number (text : List Char) : Option (List Char × List Char) := do
  let (minus,rest) := sign [ '-'] text
  let (whole,rest) ← digits rest
  if whole.head? = some '0' && whole.length ≠ 1 then none
  let (decimals,rest) ← fraction rest
  let (power,rest) ← exponent rest
  pure (minus++whole++decimals++power,rest)

def hexValue (c : Char) : Option Nat :=
  if isDigit c then some (c.toNat - '0'.toNat)
  else if 'a' ≤ c && c ≤ 'f' then some (c.toNat - 'a'.toNat + 10)
  else if 'A' ≤ c && c ≤ 'F' then some (c.toNat - 'A'.toNat + 10)
  else none

/-- The code unit of a four-digit escape. -/
def codeUnit (text : List Char) : Option (Nat × List Char) :=
  match text with
  | a::b::c::d::rest => do
    let a ← hexValue a
    let b ← hexValue b
    let c ← hexValue c
    let d ← hexValue d
    pure (((a*16+b)*16+c)*16+d,rest)
  | _ => none

def replacement : Char := '\uFFFD'

def isHigh (unit : Nat) : Bool := 0xD800 ≤ unit && unit < 0xDC00

def isLow (unit : Nat) : Bool := 0xDC00 ≤ unit && unit < 0xE000

/-- The character of an escape, taking a second escape when the two are a
surrogate pair. -/
def unicode (text : List Char) : Option (Char × List Char) := do
  let (unit,rest) ← codeUnit text
  if isHigh unit then
    match (expect ['\\','u'] rest).bind codeUnit with
    | some (next,after) =>
      if isLow next then pure (Char.ofNat (0x10000+(unit-0xD800)*0x400+(next-0xDC00)),after)
      else pure (replacement,rest)
    | none => pure (replacement,rest)
  else if isLow unit then pure (replacement,rest)
  else pure (Char.ofNat unit,rest)

def escape (text : List Char) : Option (Char × List Char) :=
  match text with
  | '"'::rest => some ('"',rest)
  | '\\'::rest => some ('\\',rest)
  | '/'::rest => some ('/',rest)
  | 'b'::rest => some ('\x08',rest)
  | 'f'::rest => some ('\x0c',rest)
  | 'n'::rest => some ('\n',rest)
  | 'r'::rest => some ('\r',rest)
  | 't'::rest => some ('\t',rest)
  | 'u'::rest => unicode rest
  | _ => none

def chars : Nat → List Char → Option (List Char × List Char)
  | 0,_ => none
  | _+1,[] => none
  | fuel+1,c::rest =>
    if c = '"' then some ([],rest)
    else if c = '\\' then do
      let (c,rest) ← escape rest
      let (tail,rest) ← chars fuel rest
      pure (c::tail,rest)
    else if c.toNat < 0x20 then none
    else do
      let (tail,rest) ← chars fuel rest
      pure (c::tail,rest)

mutual

/-- Reads one value and gives back the text after it. -/
def value : Nat → List Char → Option (Json × List Char)
  | 0,_ => none
  | fuel+1,text =>
    match skip text with
    | '"'::rest => (chars fuel rest).map fun (run,rest) => (.str (String.ofList run),rest)
    | '['::rest =>
      match expect [']'] (skip rest) with
      | some rest => some (.arr [],rest)
      | none => (items fuel rest).map fun (values,rest) => (.arr values,rest)
    | '{'::rest =>
      match expect ['}'] (skip rest) with
      | some rest => some (.obj [],rest)
      | none => (members fuel rest).map fun (values,rest) => (.obj values,rest)
    | 'n'::rest => (expect ['u','l','l'] rest).map fun rest => (.null,rest)
    | 't'::rest => (expect ['r','u','e'] rest).map fun rest => (.bool true,rest)
    | 'f'::rest => (expect ['a','l','s','e'] rest).map fun rest => (.bool false,rest)
    | text => (number text).map fun (literal,rest) => (.num (String.ofList literal),rest)

def items : Nat → List Char → Option (List Json × List Char)
  | 0,_ => none
  | fuel+1,text => do
    let (first,rest) ← value fuel text
    match skip rest with
    | ']'::rest => pure ([first],rest)
    | ','::rest => do
      let (others,rest) ← items fuel rest
      pure (first::others,rest)
    | _ => none

def members : Nat → List Char → Option (List (String × Json) × List Char)
  | 0,_ => none
  | fuel+1,text => do
    let rest ← expect ['"'] (skip text)
    let (name,rest) ← chars fuel rest
    let rest ← expect [':'] (skip rest)
    let (first,rest) ← value fuel rest
    match skip rest with
    | '}'::rest => pure ([(String.ofList name,first)],rest)
    | ','::rest => do
      let (others,rest) ← members fuel rest
      pure ((String.ofList name,first)::others,rest)
    | _ => none

end

/-- Reads a whole text as one value between blanks. Every nested call consumes
a character, so the fuel never runs out. -/
def parse (text : String) : Option Json :=
  match value (2*text.toList.length+2) text.toList with
  | some (result,rest) => if (skip rest).isEmpty then some result else none
  | none => none

/-- A member of an object, with the text of its value. -/
structure Field where
  name : String
  raw : String
  value : Json

def fieldsFrom : Nat → List Char → Option (List Field)
  | 0,_ => none
  | fuel+1,text => do
    let rest ← expect ['"'] (skip text)
    let (name,rest) ← chars fuel rest
    let start ← (expect [':'] (skip rest)).map skip
    let (first,rest) ← value fuel start
    let raw := start.take (start.length-rest.length)
    match skip rest with
    | '}'::_ => pure [⟨String.ofList name,String.ofList raw,first⟩]
    | ','::rest => do
      let others ← fieldsFrom fuel rest
      pure (⟨String.ofList name,String.ofList raw,first⟩::others)
    | _ => none

def fields (text : String) : Option (List Field) := do
  match ← parse text with
  | .obj [] => pure []
  | .obj _ =>
    let body ← expect ['{'] (skip text.toList)
    fieldsFrom (2*text.toList.length+2) body
  | _ => none

/-- The texts of the values of a non-empty array up to its closing bracket. -/
def elementsFrom : Nat → List Char → Option (List String)
  | 0,_ => none
  | fuel+1,text => do
    let start := skip text
    let (_,rest) ← value fuel start
    let raw := start.take (start.length-rest.length)
    match skip rest with
    | ']'::_ => pure [String.ofList raw]
    | ','::rest => do
      let others ← elementsFrom fuel rest
      pure (String.ofList raw::others)
    | _ => none

def elements (text : String) : Option (List String) := do
  match ← parse text with
  | .arr [] => pure []
  | .arr _ =>
    let body ← expect ['['] (skip text.toList)
    elementsFrom (2*text.toList.length+2) body
  | _ => none

def valid (text : String) : Bool := (parse text).isSome

end Json
end ATape.Foundation
