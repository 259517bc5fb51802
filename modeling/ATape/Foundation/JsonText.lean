import ATape.Foundation.Json
import Mathlib.Data.List.TakeWhile

/-! Writing JSON values without blanks. Writers differ in how they escape the
characters of a string; whatever the escapes, the reader takes a written value
back, and so no two values are written alike. -/
namespace ATape.Foundation
namespace Json

structure Escaping where
  write : Char → List Char
  nonempty : ∀ c, write c ≠ []
  reads : ∀ fuel c rest, chars (fuel+1) (write c++rest) =
    (chars fuel rest).map fun (tail,rest) => (c::tail,rest)

def hexEscape (unit : Nat) : List Char :=
  ['\\','u',(unit/0x1000%16).digitChar,(unit/0x100%16).digitChar,(unit/0x10%16).digitChar,(unit%16).digitChar]

theorem hexValue_digitChar : ∀ d < 16, hexValue d.digitChar = some d := by decide

theorem chars_plain (fuel : Nat) {c : Char} (rest : List Char) (quote : c ≠ '"') (backslash : c ≠ '\\')
    (visible : 0x20 ≤ c.toNat) :
    chars (fuel+1) ([c]++rest) = (chars fuel rest).map fun (tail,rest) => (c::tail,rest) := by
  have shown : ¬c.toNat < 0x20 := by omega
  simp only [List.singleton_append,chars,if_neg quote,if_neg backslash,if_neg shown]
  cases chars fuel rest <;> rfl

theorem chars_escape (fuel : Nat) {c : Char} {body rest : List Char} (read : escape body = some (c,rest)) :
    chars (fuel+1) ('\\'::body) = (chars fuel rest).map fun (tail,rest) => (c::tail,rest) := by
  simp only [chars,if_neg (show ¬('\\' = '"') by decide),read,if_true]
  cases run : chars fuel rest <;> simp [run]

theorem chars_hex (fuel : Nat) (c : Char) (rest : List Char) (basic : c.toNat < 0xD800) :
    chars (fuel+1) (hexEscape c.toNat++rest) =
      (chars fuel rest).map fun (tail,rest) => (c::tail,rest) := by
  have unit : codeUnit ((c.toNat/0x1000%16).digitChar::(c.toNat/0x100%16).digitChar::
      (c.toNat/0x10%16).digitChar::(c.toNat%16).digitChar::rest) = some (c.toNat,rest) := by
    have value : ((c.toNat/0x1000%16*16+c.toNat/0x100%16)*16+c.toNat/0x10%16)*16+c.toNat%16 = c.toNat := by
      omega
    simp [codeUnit,hexValue_digitChar _ (Nat.mod_lt _ (by decide : 16 > 0)),value]
  apply chars_escape
  have high : isHigh c.toNat = false := by simp [isHigh]; omega
  have low : isLow c.toNat = false := by simp [isLow]; omega
  simp [escape,unicode,unit,high,low]

def int (n : Int) : Json := .num (toString n)

variable (e : Escaping)

def quoted (text : String) : List Char := '"'::text.toList.flatMap e.write++['"']

mutual

def write : Json → List Char
  | .null => ['n','u','l','l']
  | .bool true => ['t','r','u','e']
  | .bool false => ['f','a','l','s','e']
  | .num literal => literal.toList
  | .str text => quoted e text
  | .arr [] => ['[',']']
  | .arr (first::others) => '['::write first++writeItems others
  | .obj [] => ['\x7b','\x7d']
  | .obj ((name,first)::others) => '\x7b'::quoted e name++ ':'::write first++writeMembers others

def writeItems : List Json → List Char
  | [] => [']']
  | first::others => ','::write first++writeItems others

def writeMembers : List (String × Json) → List Char
  | [] => ['\x7d']
  | (name,first)::others => ','::quoted e name++ ':'::write first++writeMembers others

end

mutual

/-- Every number of the value is a written integer. -/
def Integral : Json → Prop
  | .num literal => ∃ n : Int, literal = toString n
  | .arr values => IntegralItems values
  | .obj members => IntegralMembers members
  | _ => True

def IntegralItems : List Json → Prop
  | [] => True
  | first::others => Integral first ∧ IntegralItems others

def IntegralMembers : List (String × Json) → Prop
  | [] => True
  | (_,first)::others => Integral first ∧ IntegralMembers others

end

/-- The text after a number does not continue it. -/
def Stops (rest : List Char) : Prop :=
  ∀ c, rest.head? = some c → isDigit c = false ∧ c ≠ '.' ∧ c ≠ 'e' ∧ c ≠ 'E'

theorem stops_nil : Stops [] := by
  intro c impossible
  cases impossible

theorem stops_cons {c : Char} {rest : List Char}
    (other : isDigit c = false ∧ c ≠ '.' ∧ c ≠ 'e' ∧ c ≠ 'E') : Stops (c::rest) := by
  intro c' head
  cases head
  exact other

theorem digits_append {run rest : List Char} (nonempty : run ≠ []) (decimal : ∀ c ∈ run, isDigit c = true)
    (stops : Stops rest) : digits (run++rest) = some (run,rest) := by
  have taken : (run++rest).takeWhile isDigit = run := by
    rw [List.takeWhile_append_of_pos decimal]
    cases rest with
    | nil => simp
    | cons c rest => simp [(stops c rfl).1]
  have dropped : (run++rest).dropWhile isDigit = rest := by
    rw [List.dropWhile_append_of_pos decimal]
    cases rest with
    | nil => simp
    | cons c rest => simp [(stops c rfl).1]
  unfold digits
  rw [taken,dropped]
  cases run with
  | nil => exact absurd rfl nonempty
  | cons => rfl

theorem isDigit_of_isDigit {c : Char} (decimal : c.isDigit = true) : isDigit c = true := by
  unfold isDigit
  simp only [Char.isDigit,Bool.and_eq_true,decide_eq_true_eq] at decimal ⊢
  exact decimal

theorem toDigits_isDigit (n : Nat) : ∀ c ∈ Nat.toDigits 10 n, isDigit c = true := by
  intro c member
  exact isDigit_of_isDigit (Nat.isDigit_of_mem_toDigits (by decide) (by decide) member)

theorem toDigits_head (n : Nat) (zero : (Nat.toDigits 10 n).head? = some '0') :
    (Nat.toDigits 10 n).length = 1 := by
  induction n using Nat.strongRecOn with
  | ind n ih =>
    rcases Nat.lt_or_ge n 10 with small | large
    · simp [Nat.toDigits_of_lt_base small]
    · rw [Nat.toDigits_of_base_le (by decide) large] at zero ⊢
      have nonempty : Nat.toDigits 10 (n/10) ≠ [] := Nat.toDigits_ne_nil
      have upper : (Nat.toDigits 10 (n/10)).head? = some '0' := by
        cases run : Nat.toDigits 10 (n/10) with
        | nil => exact absurd run nonempty
        | cons c others => simpa [run] using zero
      have one := ih (n/10) (by omega) upper
      exfalso
      obtain ⟨c,single⟩ := List.length_eq_one_iff.mp one
      rw [single] at upper
      cases upper
      have reread := Nat.ofDigitChars_ten_toDigits (n := n/10)
      rw [single] at reread
      have : n/10 = 0 := by simpa [Nat.ofDigitChars] using reread.symm
      omega

theorem number_toDigits {rest minus : List Char} (n : Nat) (stops : Stops rest)
    (signed : minus = [] ∨ minus = ['-']) :
    number (minus++Nat.toDigits 10 n++rest) = some (minus++Nat.toDigits 10 n,rest) := by
  have decimal := toDigits_isDigit n
  have nonempty : Nat.toDigits 10 n ≠ [] := Nat.toDigits_ne_nil
  have marked : sign ['-'] (minus++Nat.toDigits 10 n++rest) = (minus,Nat.toDigits 10 n++rest) := by
    rcases signed with rfl | rfl
    · cases run : Nat.toDigits 10 n with
      | nil => exact absurd run nonempty
      | cons c others =>
        have digit : isDigit c = true := decimal c (by simp [run])
        have plain : c ≠ '-' := by
          rintro rfl
          revert digit
          decide
        simp [sign,plain]
    · simp [sign]
  have whole := digits_append nonempty decimal stops
  have leading : ¬((Nat.toDigits 10 n).head? = some '0' ∧ (Nat.toDigits 10 n).length ≠ 1) :=
    fun ⟨zero,long⟩ => long (toDigits_head n zero)
  have noFraction : fraction rest = some ([],rest) := by
    unfold fraction
    split
    next c others => exact absurd rfl (stops '.' rfl).2.1
    next => rfl
  have noExponent : exponent rest = some ([],rest) := by
    unfold exponent
    split
    next c others =>
      have other := stops c rfl
      simp [other.2.2]
    next => rfl
  unfold number
  rw [marked]
  simp only [whole,Option.bind_eq_bind,Option.bind_some]
  simp only [noFraction,noExponent,Option.bind_some,Bool.and_eq_true,decide_eq_true_eq]
  rw [if_neg (by simpa using leading)]
  simp

theorem toString_int (n : Int) : ∃ minus, (minus = [] ∨ minus = ['-']) ∧
    (toString n).toList = minus++Nat.toDigits 10 n.natAbs := by
  cases n with
  | ofNat m => exact ⟨[],.inl rfl,by simp [Int.toString_eq_repr,Int.repr_eq_if]⟩
  | negSucc m => exact ⟨['-'],.inr rfl,by simp [Int.toString_eq_repr,Int.repr_eq_if]⟩

@[simp] theorem int_inj {n m : Int} : int n = int m ↔ n = m := by
  constructor
  · intro same
    have texts := congrArg String.toList (Json.num.inj same)
    rw [Int.toString_eq_repr,Int.toString_eq_repr] at texts
    have unsigned : ∀ k : Nat, '-' ∉ Nat.toDigits 10 k := by
      intro k member
      exact absurd (toDigits_isDigit k _ member) (by decide)
    have digits : ∀ k l : Nat, Nat.toDigits 10 k = Nat.toDigits 10 l → k = l := by
      intro k l equal
      rw [← Nat.ofDigitChars_ten_toDigits (n := k),equal,Nat.ofDigitChars_ten_toDigits]
    rw [Int.repr_eq_if,Int.repr_eq_if] at texts
    split at texts <;> split at texts
    · have := digits _ _ (by simpa [Nat.toList_repr] using texts)
      omega
    · simp only [String.toList_append,Nat.toList_repr] at texts
      exact absurd (by rw [texts]; simp) (unsigned n.toNat)
    · simp only [String.toList_append,Nat.toList_repr] at texts
      exact absurd (by rw [← texts]; simp) (unsigned m.toNat)
    · have := digits _ _ (by simpa [Nat.toList_repr] using texts)
      omega
  · exact congrArg int

@[simp] theorem integral_int (n : Int) : Integral (int n) := by
  rw [int,Integral]
  exact ⟨n,rfl⟩

/-- The value of the first member with a name. -/
def member (name : String) : List (String × Json) → Option Json
  | [] => none
  | (other,first)::others => if other = name then some first else member name others

@[simp] theorem member_nil (name : String) : member name [] = none := rfl

@[simp] theorem member_cons (name other : String) (first : Json) (others : List (String × Json)) :
    member name ((other,first)::others) = if other = name then some first else member name others := rfl

@[simp] theorem member_same (name : String) (first : Json) (others : List (String × Json)) :
    member name ((name,first)::others) = some first := if_pos rfl

theorem member_other {name other : String} (apart : other ≠ name) (first : Json) (others : List (String × Json)) :
    member name ((other,first)::others) = member name others := if_neg apart

@[simp] theorem member_append (name : String) (left right : List (String × Json)) :
    member name (left++right) = (member name left).or (member name right) := by
  induction left with
  | nil => rfl
  | cons entry left ih =>
    obtain ⟨other,first⟩ := entry
    rw [List.cons_append,member_cons,member_cons,ih]
    split <;> rfl

@[simp] theorem integralMembers_append (left right : List (String × Json)) :
    IntegralMembers (left++right) ↔ IntegralMembers left ∧ IntegralMembers right := by
  induction left with
  | nil => simp [IntegralMembers]
  | cons entry left ih =>
    obtain ⟨other,first⟩ := entry
    simp [IntegralMembers,ih,and_assoc]

/-- A member that is left out when it is empty. -/
def textMember (name text : String) : List (String × Json) :=
  if text = "" then [] else [(name,.str text)]

/-- A member that is left out when there is no value. -/
def presentMember {α : Type} (name : String) (json : α → Json) : Option α → List (String × Json)
  | none => []
  | some a => [(name,json a)]

@[simp] theorem member_textMember (name other text : String) : member name (textMember other text) =
    if other = name then (if text = "" then none else some (.str text)) else none := by
  unfold textMember
  split <;> simp

@[simp] theorem member_presentMember {α : Type} (name other : String) (json : α → Json) (a : Option α) :
    member name (presentMember other json a) = if other = name then a.map json else none := by
  cases a <;> simp [presentMember]

@[simp] theorem integral_textMember (name text : String) : IntegralMembers (textMember name text) := by
  unfold textMember
  split <;> simp [IntegralMembers,Integral]

theorem integral_presentMember {α : Type} (name : String) (json : α → Json) (a : Option α)
    (integral : ∀ a, Integral (json a)) : IntegralMembers (presentMember name json a) := by
  cases a <;> simp [presentMember,IntegralMembers,integral]

@[simp] theorem left_out_inj {text text' : String} :
    ((if text = "" then none else some (Json.str text)) =
      if text' = "" then none else some (Json.str text')) ↔ text = text' := by
  split <;> split <;> simp_all [eq_comm]

@[simp] theorem map_str_inj {a b : Option String} : a.map str = b.map str ↔ a = b := by
  cases a <;> cases b <;> simp

@[simp] theorem map_int_inj {a b : Option Int} : a.map int = b.map int ↔ a = b := by
  cases a <;> cases b <;> simp

/-- The fuel that reading a written value takes. -/
def reading (text : String) : Nat := text.toList.length+2

mutual

def size : Json → Nat
  | .str text => reading text
  | .arr values => 1+sizeItems values
  | .obj members => 1+sizeMembers members
  | _ => 1

def sizeItems : List Json → Nat
  | [] => 0
  | first::others => 1+size first+sizeItems others

def sizeMembers : List (String × Json) → Nat
  | [] => 0
  | (name,first)::others => 1+reading name+size first+sizeMembers others

end

theorem chars_written (run rest : List Char) (fuel : Nat) (enough : run.length < fuel) :
    chars fuel (run.flatMap e.write++ '"'::rest) = some (run,rest) := by
  induction run generalizing fuel with
  | nil =>
    cases fuel with
    | zero => simp at enough
    | succ fuel => simp [chars]
  | cons c run ih =>
    cases fuel with
    | zero => simp at enough
    | succ fuel =>
      rw [List.flatMap_cons,List.append_assoc,e.reads,ih fuel (by simpa using enough)]
      rfl

theorem chars_text (text : String) (rest : List Char) (fuel : Nat) (enough : reading text ≤ fuel+1) :
    chars fuel (text.toList.flatMap e.write++ '"'::rest) = some (text.toList,rest) :=
  chars_written e _ _ _ (by unfold reading at enough; omega)

theorem value_literal (n : Int) (rest : List Char) (stops : Stops rest) (fuel : Nat) :
    value (fuel+1) ((toString n).toList++rest) = some (.num (toString n),rest) := by
  obtain ⟨minus,signed,literal⟩ := toString_int n
  have readback := number_toDigits n.natAbs stops signed
  rw [← literal] at readback
  have nonempty : Nat.toDigits 10 n.natAbs ≠ [] := Nat.toDigits_ne_nil
  obtain ⟨c,others,first,plain⟩ : ∃ c others, (toString n).toList++rest = c::others ∧
      (isDigit c = true ∨ c = '-') := by
    rcases signed with rfl | rfl
    · cases run : Nat.toDigits 10 n.natAbs with
      | nil => exact absurd run nonempty
      | cons c others =>
        refine ⟨c,others++rest,by rw [literal,run]; rfl,.inl ?_⟩
        exact toDigits_isDigit n.natAbs c (by simp [run])
    · exact ⟨'-',Nat.toDigits 10 n.natAbs++rest,by rw [literal]; rfl,.inr rfl⟩
  have other : ∀ special, isDigit special = false → special ≠ '-' → c ≠ special := by
    rintro special letter unsigned rfl
    rcases plain with digit | minus
    · simp [letter] at digit
    · exact unsigned minus
  have unskipped : skip (c::others) = c::others := by
    simp [skip,isBlank,other ' ' (by decide) (by decide),other '\t' (by decide) (by decide),
      other '\n' (by decide) (by decide),other '\r' (by decide) (by decide)]
  rw [first] at readback ⊢
  unfold value
  rw [unskipped]
  split
  next heq => exact absurd (List.cons.inj heq).1 (other '"' (by decide) (by decide))
  next heq => exact absurd (List.cons.inj heq).1 (other '[' (by decide) (by decide))
  next heq => exact absurd (List.cons.inj heq).1 (other '\x7b' (by decide) (by decide))
  next heq => exact absurd (List.cons.inj heq).1 (other 'n' (by decide) (by decide))
  next heq => exact absurd (List.cons.inj heq).1 (other 't' (by decide) (by decide))
  next heq => exact absurd (List.cons.inj heq).1 (other 'f' (by decide) (by decide))
  next =>
    rw [readback]
    simp

theorem skip_cons {c : Char} (visible : isBlank c = false) (rest : List Char) :
    skip (c::rest) = c::rest := by
  simp [skip,visible]

theorem write_head (j : Json) (integral : Integral j) :
    ∃ c tail, write e j = c::tail ∧ isBlank c = false ∧ c ≠ ']' ∧ c ≠ '\x7d' := by
  cases j with
  | null => exact ⟨'n',_,by rw [write],by decide⟩
  | bool value => cases value <;> exact ⟨_,_,by rw [write],by decide⟩
  | num literal =>
    obtain ⟨n,rfl⟩ := integral
    obtain ⟨minus,signed,written⟩ := toString_int n
    rcases signed with rfl | rfl
    · cases run : Nat.toDigits 10 n.natAbs with
      | nil => exact absurd run Nat.toDigits_ne_nil
      | cons c others =>
        have digit := toDigits_isDigit n.natAbs c (by simp [run])
        refine ⟨c,others,by rw [write,written,run]; rfl,?_⟩
        have other : ∀ special, isDigit special = false → c ≠ special := by
          rintro special letter rfl
          simp [letter] at digit
        simp [isBlank,other ' ' (by decide),other '\t' (by decide),other '\n' (by decide),
          other '\r' (by decide),other ']' (by decide),other '\x7d' (by decide)]
    · exact ⟨'-',_,by rw [write,written]; rfl,by decide⟩
  | str text => exact ⟨'"',_,by rw [write,quoted]; rfl,by decide⟩
  | arr values =>
    cases values with
    | nil => exact ⟨'[',_,by rw [write],by decide⟩
    | cons => exact ⟨'[',_,by rw [write,List.cons_append],by decide⟩
  | obj members =>
    rcases members with _ | ⟨⟨name,first⟩,others⟩
    · exact ⟨'\x7b',_,by rw [write],by decide⟩
    · exact ⟨'\x7b',_,by rw [write,List.cons_append,List.cons_append],by decide⟩

theorem stops_items (values : List Json) (rest : List Char) : Stops (writeItems e values++rest) := by
  cases values with
  | nil => exact stops_cons (by decide)
  | cons => simpa [writeItems] using stops_cons (by decide)

theorem stops_members (members : List (String × Json)) (rest : List Char) :
    Stops (writeMembers e members++rest) := by
  rcases members with _ | ⟨⟨name,first⟩,others⟩
  · exact stops_cons (by decide)
  · simpa [writeMembers] using stops_cons (by decide)

mutual

theorem value_written : ∀ (j : Json) (fuel : Nat) (rest : List Char), Integral j → Stops rest →
    size j ≤ fuel → value fuel (write e j++rest) = some (j,rest)
  | .null,0,_,_,_,enough => absurd enough (by simp [size])
  | .null,fuel+1,rest,_,_,_ => by
    rw [write,value,List.cons_append,skip_cons (by decide)]
    simp [expect]
  | .bool b,0,_,_,_,enough => absurd enough (by simp [size])
  | .bool true,fuel+1,rest,_,_,_ => by
    rw [write,value,List.cons_append,skip_cons (by decide)]
    simp [expect]
  | .bool false,fuel+1,rest,_,_,_ => by
    rw [write,value,List.cons_append,skip_cons (by decide)]
    simp [expect]
  | .num literal,0,_,_,_,enough => absurd enough (by simp [size])
  | .num literal,fuel+1,rest,integral,stops,_ => by
    obtain ⟨n,rfl⟩ := integral
    rw [write]
    exact value_literal n rest stops fuel
  | .str text,0,_,_,_,enough => absurd enough (by simp [size,reading])
  | .str text,fuel+1,rest,_,_,enough => by
    have read := chars_text e text rest fuel (by simpa [size] using enough)
    rw [write,quoted,value,List.append_assoc,List.cons_append,skip_cons (by decide)]
    simp [read]
  | .arr [],0,_,_,_,enough => absurd enough (by simp [size])
  | .arr [],fuel+1,rest,_,_,_ => by
    rw [write,value,List.cons_append,skip_cons (by decide)]
    simp [expect,skip_cons (show isBlank ']' = false by decide)]
  | .arr (first::others),0,_,_,_,enough => absurd enough (by simp [size])
  | .arr (first::others),fuel+1,rest,integral,_,enough => by
    have read := items_written first others fuel rest integral (by simp [size] at enough; omega)
    obtain ⟨c,tail,head,visible,open_,_⟩ := write_head e first integral.1
    have unclosed : expect [']'] (skip (write e first++writeItems e others++rest)) = none := by
      rw [head,List.cons_append,List.cons_append,skip_cons visible]
      simp [expect,Ne.symm open_]
    rw [List.append_assoc] at read unclosed
    rw [write,value,List.cons_append,List.cons_append,skip_cons (by decide)]
    simp [unclosed,read]
  | .obj [],0,_,_,_,enough => absurd enough (by simp [size])
  | .obj [],fuel+1,rest,_,_,_ => by
    rw [write,value,List.cons_append,skip_cons (by decide)]
    simp [expect,skip_cons (show isBlank '\x7d' = false by decide)]
  | .obj ((name,first)::others),0,_,_,_,enough => absurd enough (by simp [size])
  | .obj ((name,first)::others),fuel+1,rest,integral,_,enough => by
    have read := members_written name first others fuel rest integral (by simp [size] at enough; omega)
    rw [write,value]
    simp only [List.cons_append,List.append_assoc] at read ⊢
    rw [skip_cons (by decide)]
    have unclosed : expect ['\x7d'] (skip (quoted e name++ ':'::(write e first++
        (writeMembers e others++rest)))) = none := by
      rw [quoted,List.append_assoc,List.cons_append,skip_cons (by decide)]
      simp [expect]
    simp [unclosed,read]

theorem items_written : ∀ (first : Json) (others : List Json) (fuel : Nat) (rest : List Char),
    IntegralItems (first::others) → sizeItems (first::others) ≤ fuel →
    items fuel (write e first++writeItems e others++rest) = some (first::others,rest)
  | _,_,0,_,_,enough => absurd enough (by simp [sizeItems])
  | first,[],fuel+1,rest,integral,enough => by
    have read := value_written first fuel (writeItems e []++rest) integral.1 (stops_items e [] rest)
      (by simp [sizeItems] at enough; omega)
    rw [items,List.append_assoc,read]
    simp [writeItems,skip_cons (show isBlank ']' = false by decide)]
  | first,second::others,fuel+1,rest,integral,enough => by
    have read := value_written first fuel (writeItems e (second::others)++rest) integral.1
      (stops_items e (second::others) rest) (by simp [sizeItems] at enough; omega)
    have more := items_written second others fuel rest integral.2
      (by simp [sizeItems] at enough ⊢; omega)
    rw [items,List.append_assoc,read]
    rw [List.append_assoc] at more
    simp [writeItems,skip_cons (show isBlank ',' = false by decide),more]

theorem members_written : ∀ (name : String) (first : Json) (others : List (String × Json))
    (fuel : Nat) (rest : List Char), IntegralMembers ((name,first)::others) →
    sizeMembers ((name,first)::others) ≤ fuel →
    members fuel (quoted e name++ ':'::write e first++writeMembers e others++rest) =
      some ((name,first)::others,rest)
  | _,_,_,0,_,_,enough => absurd enough (by simp [sizeMembers])
  | name,first,[],fuel+1,rest,integral,enough => by
    have named := chars_text e name (':'::(write e first++(writeMembers e []++rest))) fuel
      (by simp [sizeMembers] at enough; omega)
    have read := value_written first fuel (writeMembers e []++rest) integral.1 (stops_members e [] rest)
      (by simp [sizeMembers] at enough; omega)
    simp [members,quoted,expect,skip_cons (show isBlank '"' = false by decide),named,
      skip_cons (show isBlank ':' = false by decide),read]
    simp [writeMembers,skip_cons (show isBlank '\x7d' = false by decide)]
  | name,first,(name',second)::others,fuel+1,rest,integral,enough => by
    have named := chars_text e name
      (':'::(write e first++(writeMembers e ((name',second)::others)++rest))) fuel
      (by simp [sizeMembers] at enough; omega)
    have read := value_written first fuel (writeMembers e ((name',second)::others)++rest) integral.1
      (stops_members e _ rest) (by simp [sizeMembers] at enough; omega)
    have more := members_written name' second others fuel rest integral.2
      (by simp [sizeMembers] at enough ⊢; omega)
    simp only [List.cons_append,List.append_assoc] at more
    simp [members,quoted,expect,skip_cons (show isBlank '"' = false by decide),named,
      skip_cons (show isBlank ':' = false by decide),read]
    simp [writeMembers,skip_cons (show isBlank ',' = false by decide),more]

end

theorem reading_le (text : String) : reading text ≤ (quoted e text).length := by
  have each : ∀ run : List Char, run.length ≤ (run.flatMap e.write).length := by
    intro run
    induction run with
    | nil => simp
    | cons c run ih =>
      have some := List.length_pos_iff.mpr (e.nonempty c)
      simp only [List.flatMap_cons,List.length_append,List.length_cons]
      omega
  have all := each text.toList
  simp only [reading,quoted,List.length_append,List.length_cons,List.length_nil]
  omega

mutual

theorem size_le : ∀ j : Json, Integral j → size j ≤ (write e j).length
  | .null,_ => by simp [size,write]
  | .bool true,_ => by simp [size,write]
  | .bool false,_ => by simp [size,write]
  | .num literal,integral => by
    obtain ⟨c,tail,head,_⟩ := write_head e (.num literal) integral
    rw [head]
    simp [size]
  | .str text,_ => by
    simp only [size,write]
    exact reading_le e text
  | .arr [],_ => by simp [size,sizeItems,write]
  | .arr (first::others),integral => by
    have head := size_le first integral.1
    have tail := sizeItems_le others integral.2
    simp only [size,sizeItems,write,List.length_append,List.length_cons]
    omega
  | .obj [],_ => by simp [size,sizeMembers,write]
  | .obj ((name,first)::others),integral => by
    have named := reading_le e name
    have head := size_le first integral.1
    have tail := sizeMembers_le others integral.2
    simp only [size,sizeMembers,write,List.length_append,List.length_cons]
    omega

theorem sizeItems_le : ∀ values : List Json, IntegralItems values →
    sizeItems values+1 ≤ (writeItems e values).length
  | [],_ => by simp [sizeItems,writeItems]
  | first::others,integral => by
    have head := size_le first integral.1
    have tail := sizeItems_le others integral.2
    simp only [sizeItems,writeItems,List.length_append,List.length_cons]
    omega

theorem sizeMembers_le : ∀ members : List (String × Json), IntegralMembers members →
    sizeMembers members+1 ≤ (writeMembers e members).length
  | [],_ => by simp [sizeMembers,writeMembers]
  | (name,first)::others,integral => by
    have named := reading_le e name
    have head := size_le first integral.1
    have tail := sizeMembers_le others integral.2
    simp only [sizeMembers,writeMembers,List.length_append,List.length_cons]
    omega

end

theorem parse_written {j : Json} (integral : Integral j) {after : List Char} (blank : after = [] ∨ after = ['\n']) :
    parse (String.ofList (write e j++after)) = some j := by
  have enough := size_le e j integral
  have stops : Stops after := by
    rcases blank with rfl | rfl
    · exact stops_nil
    · exact stops_cons (by decide)
  have read := value_written e j (2*(write e j++after).length+2) after integral stops
    (by rw [List.length_append]; omega)
  have skipped : skip after = [] := by
    rcases blank with rfl | rfl
    · rfl
    · rfl
  rw [parse,String.toList_ofList,read]
  simp [skipped]

theorem write_injective {j j' : Json} (integral : Integral j) (integral' : Integral j')
    (alike : write e j = write e j') : j = j' := by
  have left := value_written e j (size j+size j') [] integral stops_nil (by omega)
  have right := value_written e j' (size j+size j') [] integral' stops_nil (by omega)
  rw [alike,right] at left
  exact (congrArg Prod.fst (Option.some.inj left)).symm

end Json
end ATape.Foundation
