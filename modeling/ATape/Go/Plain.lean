import ATape.Go.Base64
import ATape.Go.Time
import ATape.SourceIdentity

/-! Texts that JSON writes as they are: digests, base64 texts and times. -/
namespace ATape.Go
open Foundation SourceIdentity

def plainChars : List Char := urlAlphabet++[':','.','+']

theorem escape_plain {c : Char} (plain : c ∈ plainChars) : escapeChar c = [c] := by
  have all : plainChars.all (fun c => escapeChar c = [c]) = true := by decide
  exact of_decide_eq_true (List.all_eq_true.mp all c plain)

theorem quoted_plain {text : String} (plain : ∀ c ∈ text.toList, c ∈ plainChars) :
    (Json.quoted escaping text).length = text.toList.length+2 := by
  have same : text.toList.flatMap escaping.write = text.toList := by
    revert plain
    induction text.toList with
    | nil => exact fun _ => rfl
    | cons c cs ih =>
      intro plain
      obtain ⟨first,rest⟩ := List.forall_mem_cons.mp plain
      rw [List.flatMap_cons,ih rest]
      exact congrArg (·++cs) (escape_plain first)
  rw [Json.quoted,same,List.length_append,List.length_cons]
  rfl

theorem plain_of_hex {c : Char} (hex : c ∈ hexDigits) : c ∈ plainChars := by
  have all : hexDigits.all (· ∈ plainChars) = true := by decide
  exact of_decide_eq_true (List.all_eq_true.mp all c hex)

theorem plain_of_url (n : ℕ) : urlDigit n ∈ plainChars := by
  have all : ('A'::urlAlphabet).all (· ∈ plainChars) = true := by decide
  apply of_decide_eq_true
  apply List.all_eq_true.mp all
  unfold urlDigit
  rw [List.getD_eq_getElem?_getD]
  cases digit : urlAlphabet[n]? with
  | none => exact List.mem_cons_self
  | some c => exact List.mem_cons_of_mem _ (List.mem_of_getElem? digit)

theorem encodeRawURL_plain (bytes : List UInt8) : ∀ c ∈ (encodeRawURL bytes).toList, c ∈ plainChars := by
  intro c member
  rw [encodeRawURL,String.toList_ofList] at member
  obtain ⟨n,rfl⟩ := encodeQuanta_digits bytes c member
  exact plain_of_url n

theorem encodeRawURL_length (bytes : List UInt8) : 3*(encodeRawURL bytes).toList.length ≤ 4*bytes.length+2 := by
  rw [encodeRawURL,String.toList_ofList]
  exact encodeQuanta_length bytes

theorem length_le_len (run : List Char) : run.length ≤ len (String.ofList run) := by
  induction run with
  | nil => exact Nat.zero_le _
  | cons c run ih =>
    have one : String.ofList (c::run) = String.ofList [c]++String.ofList run := by
      rw [← String.ofList_append]
      rfl
    have first : (String.ofList [c]).utf8ByteSize = c.utf8Size := by simp
    have size := c.utf8Size_pos
    rw [len,one,String.utf8ByteSize_append,first,List.length_cons]
    unfold len at ih
    omega

section Times

theorem padded_plain (width n : ℕ) : ∀ c ∈ padded width n, c ∈ plainChars := by
  have digits : ∀ d < 10, d.digitChar ∈ plainChars := by decide
  induction width generalizing n with
  | zero => exact List.forall_mem_nil _
  | succ width ih =>
    intro c member
    cases List.mem_append.mp member with
    | inl before => exact ih _ c before
    | inr last =>
      rw [List.mem_singleton.mp last]
      exact digits _ (Nat.mod_lt _ (by decide))

theorem trimRight_sublist (p : Char → Bool) (text : List Char) : (trimRight p text).Sublist text := by
  have cut := (List.dropWhile_sublist p (l := text.reverse)).reverse
  rwa [List.reverse_reverse] at cut

theorem marks_plain : ∀ c ∈ ['-','T',':','.','Z','+'], c ∈ plainChars := by
  have all : ['-','T',':','.','Z','+'].all (· ∈ plainChars) = true := by decide
  intro c member
  exact of_decide_eq_true (List.all_eq_true.mp all c member)

theorem appendNano_plain (nanos : ℕ) : (∀ c ∈ appendNano nanos, c ∈ plainChars) ∧ (appendNano nanos).length ≤ 10 := by
  unfold appendNano
  split
  · exact ⟨List.forall_mem_nil _,Nat.zero_le _⟩
  · have cut := trimRight_sublist (fun c => c = '0') (padded 9 nanos)
    constructor
    · intro c member
      cases List.mem_cons.mp member with
      | inl point =>
        rw [point]
        exact marks_plain _ (by decide)
      | inr digits => exact padded_plain 9 nanos c (cut.subset digits)
    · have width := cut.length_le
      rw [padded_length] at width
      rw [List.length_cons]
      omega

theorem appendZone_plain (offset : Int) : (∀ c ∈ appendZone offset, c ∈ plainChars) ∧ (appendZone offset).length ≤ 6 := by
  unfold appendZone
  split
  · constructor
    · intro c member
      rw [List.mem_singleton.mp member]
      exact marks_plain _ (by decide)
    · decide
  · constructor
    · intro c member
      rw [List.mem_append,List.mem_cons,List.mem_cons] at member
      obtain (rfl|digits)|rfl|digits := member
      · split
        · exact marks_plain _ (by decide)
        · exact marks_plain _ (by decide)
      · exact padded_plain _ _ c digits
      · exact marks_plain _ (by decide)
      · exact padded_plain _ _ c digits
    · rw [List.length_append,List.length_cons,List.length_cons,padded_length,padded_length]

theorem formatRFC3339_plain (t : Time) : (∀ c ∈ t.formatRFC3339, c ∈ plainChars) ∧ t.formatRFC3339.length ≤ 35 := by
  have fraction := appendNano_plain ((t.wall%dayNanos).toNat%1000000000)
  have zone := appendZone_plain t.offset
  unfold Time.formatRFC3339
  dsimp only
  constructor
  · intro c member
    simp only [List.mem_append,List.mem_cons] at member
    have mark : ∀ m ∈ ['-','T',':','.','Z','+'], c = m → c ∈ plainChars := by
      intro m known same
      rw [same]
      exact marks_plain m known
    obtain ((((((digits|here|digits)|here|digits)|here|digits)|here|digits)|here|digits)|digits)|digits := member
    · exact padded_plain _ _ c digits
    · exact mark _ (by decide) here
    · exact padded_plain _ _ c digits
    · exact mark _ (by decide) here
    · exact padded_plain _ _ c digits
    · exact mark _ (by decide) here
    · exact padded_plain _ _ c digits
    · exact mark _ (by decide) here
    · exact padded_plain _ _ c digits
    · exact mark _ (by decide) here
    · exact padded_plain _ _ c digits
    · exact fraction.1 c digits
    · exact zone.1 c digits
  · have short := fraction.2
    have short' := zone.2
    simp only [List.length_append,List.length_cons,padded_length]
    omega

end Times

/-! Identities and numbers. -/

theorem stableID_plain {h : Hash} {mark : String} (plain : ∀ c ∈ mark.toList, c ∈ plainChars) (value : String) :
    (∀ c ∈ (stableID h mark value).toList, c ∈ plainChars) ∧
      (stableID h mark value).toList.length ≤ mark.toList.length+24 := by
  have text : (stableID h mark value).toList = mark.toList++(h.hex value).toList.take 24 := by
    simp [stableID,Hash.short]
  rw [text]
  constructor
  · intro c member
    cases List.mem_append.mp member with
    | inl first => exact plain c first
    | inr rest => exact plain_of_hex (h.digits value c (List.mem_of_mem_take rest))
  · rw [List.length_append,List.length_take]
    omega

theorem atoi_int (n : ℕ) : atoi (toString (n : ℤ)).toList = some (n : ℤ) := by
  have text : (toString (n : ℤ)).toList = Nat.toDigits 10 n := by simp [Int.toString_eq_repr,Int.repr_eq_if]
  have filled : Nat.toDigits 10 n ≠ [] := Nat.toDigits_ne_nil
  have digits : (Nat.toDigits 10 n).all Char.isDigit = true := List.all_eq_true.mpr fun c member =>
    Nat.isDigit_of_mem_toDigits (by decide) (by decide) member
  have read : unsigned (Nat.toDigits 10 n) = some n := by
    rw [unsigned,if_pos ⟨filled,digits⟩,Nat.ofDigitChars_ten_toDigits]
  rw [text]
  unfold atoi
  split
  next rest starts =>
    rw [starts] at digits
    simp at digits
  next rest starts =>
    rw [starts] at digits
    simp at digits
  next => rw [read]; rfl

end ATape.Go
