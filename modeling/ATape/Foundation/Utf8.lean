import Mathlib.Algebra.Order.Ring.Int
import Mathlib.Data.List.Sort
import Mathlib.Data.Prod.Lex
import Mathlib.Tactic.Ring

/-! Texts as bytes in UTF-8, and the greedy cut of a text into runs of whole characters. -/
namespace ATape.Foundation

def utf8 (text : List Char) : List UInt8 := text.flatMap String.utf8EncodeChar

/-- Bytes that are no text in UTF-8 are not decoded. -/
def utf8Decode (bytes : List UInt8) : Option (List Char) := bytes.toByteArray.utf8Decode?.map Array.toList

def continuation (byte : UInt8) : Bool := byte &&& 0xc0 == 0x80

theorem utf8Decode_utf8 (text : List Char) : utf8Decode (utf8 text) = some text := by
  have encoded : (utf8 text).toByteArray = text.utf8Encode := rfl
  rw [utf8Decode,encoded,List.utf8Decode?_utf8Encode,Option.map_some]

theorem utf8_append (first second : List Char) : utf8 (first++second) = utf8 first++utf8 second :=
  List.flatMap_append

theorem utf8_length (text : List Char) : (utf8 text).length = (text.map Char.utf8Size).sum := by
  rw [utf8,List.length_flatMap]
  congr 1
  exact List.map_congr_left fun c _ => String.length_utf8EncodeChar c

theorem utf8_length_le (text : List Char) : (utf8 text).length ≤ 4*text.length := by
  rw [utf8_length]
  induction text with
  | nil => exact Nat.le_refl _
  | cons c text ih =>
    have one := c.utf8Size_le_four
    rw [List.map_cons,List.sum_cons,List.length_cons]
    omega

theorem continuation_iff (byte : UInt8) : continuation byte = true ↔ 128 ≤ byte.toNat ∧ byte.toNat < 192 := by
  have all : ∀ n : Fin 256, continuation (UInt8.ofNat n) = true ↔ 128 ≤ n.val ∧ n.val < 192 := by decide +kernel
  have one := all ⟨byte.toNat,byte.toNat_lt⟩
  rwa [UInt8.ofNat_toNat] at one

theorem continuation_ofNat {n : ℕ} (small : n < 256) : continuation (UInt8.ofNat n) = true ↔ 128 ≤ n ∧ n < 192 := by
  rw [continuation_iff,UInt8.toNat_ofNat',Nat.mod_eq_of_lt small]

theorem utf8EncodeChar_shape (c : Char) : ∃ first rest, String.utf8EncodeChar c = first::rest ∧
    continuation first = false ∧ ∀ byte ∈ rest, continuation byte = true := by
  have tail : ∀ n : ℕ, continuation (UInt8.ofNat (n%64+128)) = true := by
    intro n
    rw [continuation_ofNat (by omega)]
    omega
  have head : ∀ n : ℕ, n < 128 ∨ 192 ≤ n → n < 256 → continuation (UInt8.ofNat n) = false := by
    intro n outside small
    rw [← Bool.not_eq_true,continuation_ofNat small]
    omega
  unfold String.utf8EncodeChar
  dsimp only
  split
  next => exact ⟨_,_,rfl,head _ (by omega) (by omega),List.forall_mem_nil _⟩
  next =>
    split
    next => exact ⟨_,_,rfl,head _ (by omega) (by omega),List.forall_mem_singleton.mpr (tail _)⟩
    next =>
      split
      next =>
        exact ⟨_,_,rfl,head _ (by omega) (by omega),
          List.forall_mem_cons.mpr ⟨tail _,List.forall_mem_singleton.mpr (tail _)⟩⟩
      next =>
        exact ⟨_,_,rfl,head _ (by omega) (by omega),List.forall_mem_cons.mpr ⟨tail _,
          List.forall_mem_cons.mpr ⟨tail _,List.forall_mem_singleton.mpr (tail _)⟩⟩⟩

/-! The greedy cut. -/

/-- What is left of the current run, and the runs behind it. A run has as many whole characters as
there is room for. -/
def cut (limit : ℕ) : ℕ → List Char → List Char × List (List Char)
  | _,[] => ([],[])
  | room,c::text =>
    if c.utf8Size ≤ room then ((c::(cut limit (room-c.utf8Size) text).1),(cut limit (room-c.utf8Size) text).2)
    else ([],(c::(cut limit (limit-c.utf8Size) text).1)::(cut limit (limit-c.utf8Size) text).2)

/-- The runs of a text. -/
def runs (limit : ℕ) (text : List Char) : List (List Char) :=
  if text = [] then [] else (cut limit limit text).1::(cut limit limit text).2

theorem cut_whole (limit room : ℕ) (text : List Char) : (cut limit room text).1++(cut limit room text).2.flatten = text := by
  induction text generalizing room with
  | nil => rfl
  | cons c text ih =>
    unfold cut
    split
    next => rw [List.cons_append,ih]
    next => rw [List.nil_append,List.flatten_cons,List.cons_append,ih]

theorem cut_spec {limit : ℕ} (four : 4 ≤ limit) (room : ℕ) (text : List Char) :
    (utf8 (cut limit room text).1).length ≤ room ∧ ((cut limit room text).2 = [] ∨
      ∃ c run later, (cut limit room text).2 = (c::run)::later ∧ room < (utf8 (cut limit room text).1).length+c.utf8Size ∧
        cut limit limit ((c::run)++later.flatten) = (c::run,later)) := by
  induction text generalizing room with
  | nil => exact ⟨Nat.zero_le _,.inl rfl⟩
  | cons c text ih =>
    unfold cut
    split
    next room_ =>
      obtain ⟨small,next⟩ := ih (room-c.utf8Size)
      have size : (utf8 (c::(cut limit (room-c.utf8Size) text).1)).length =
          c.utf8Size+(utf8 (cut limit (room-c.utf8Size) text).1).length := by simp [utf8_length]
      dsimp only
      refine ⟨by omega,next.imp id ?_⟩
      rintro ⟨d,run,later,same,none_,again⟩
      exact ⟨d,run,later,same,by omega,again⟩
    next none_ =>
      refine ⟨Nat.zero_le _,.inr ⟨c,_,_,rfl,?_,?_⟩⟩
      · simpa [utf8] using Nat.not_le.mp none_
      · have room_ : c.utf8Size ≤ limit := c.utf8Size_le_four.trans four
        rw [List.cons_append,cut_whole]
        simp only [if_pos room_]

theorem runs_flatten (limit : ℕ) (text : List Char) : (runs limit text).flatten = text := by
  unfold runs
  split
  next none_ => rw [none_,List.flatten_nil]
  next => rw [List.flatten_cons,cut_whole]

theorem runs_cons {limit : ℕ} (four : 4 ≤ limit) {text : List Char} (some_ : text ≠ []) :
    (cut limit limit text).1 ≠ [] ∧ runs limit (cut limit limit text).2.flatten = (cut limit limit text).2 := by
  obtain ⟨-,next⟩ := cut_spec four limit text
  constructor
  · obtain ⟨c,text,rfl⟩ := List.exists_cons_of_ne_nil some_
    have room_ : c.utf8Size ≤ limit := c.utf8Size_le_four.trans four
    simp [cut,room_]
  · rcases next with all|⟨c,run,later,behind,-,again⟩
    · rw [all]
      rfl
    · rw [behind,List.flatten_cons,runs,again,if_neg (by simp)]

theorem runs_small {limit : ℕ} (four : 4 ≤ limit) {text run : List Char} (inside : run ∈ runs limit text) :
    run ≠ [] ∧ (utf8 run).length ≤ limit := by
  generalize size : text.length = n
  induction n using Nat.strong_induction_on generalizing text with
  | _ n ih =>
    by_cases nothing : text = []
    · subst nothing
      cases inside
    · obtain ⟨first,behind⟩ := runs_cons four nothing
      rw [runs,if_neg nothing] at inside
      rcases List.mem_cons.mp inside with rfl|later
      · exact ⟨first,(cut_spec four limit text).1⟩
      · have lengths := congrArg List.length (cut_whole limit limit text)
        have positive := List.length_pos_of_ne_nil first
        rw [List.length_append] at lengths
        rw [← behind] at later
        exact ih _ (by omega) later rfl

end ATape.Foundation
