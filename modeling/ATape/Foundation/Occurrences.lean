import Mathlib.Algebra.Order.Ring.Int
import Mathlib.Data.List.Infix
import Mathlib.Data.List.Sort
import Mathlib.Data.Prod.Lex
import Mathlib.Tactic.Ring

/-! Counting the places of a text where a pattern is found, from left to right and none within another. Patterns that
begin with a character of their own are found in a text where they are found in its parts. -/
namespace ATape.Foundation

/-- How many characters at the beginning of a text are taken. -/
abbrev Pattern := List Char → Option ℕ

def word (letters : List Char) : Pattern := fun text => if letters <+: text then some letters.length else none

/-- The places of a pattern, behind some characters that are skipped. -/
def occurrences (p : Pattern) : ℕ → List Char → ℕ
  | _,[] => 0
  | skip+1,_::rest => occurrences p skip rest
  | 0,c::rest =>
    match p (c::rest) with
    | some n => 1+occurrences p (n-1) rest
    | none => occurrences p 0 rest

def firstPlace (letters : List Char) : List Char → Option ℕ
  | [] => none
  | c::rest => if letters <+: c::rest then some 0 else (firstPlace letters rest).map (·+1)

/-- A pattern that begins with one character, which is not found again in what it takes, and takes nothing but
characters of a kind. -/
structure Headed (p : Pattern) (head : Char) (inside : Char → Prop) : Prop where
  begins : ∀ c text n, p (c::text) = some n → c = head
  size : ∀ text n, p text = some n → 0 < n
  once : ∀ c text n, p (c::text) = some n → head ∉ text.take (n-1)
  parts : ∀ c text d rest, ¬inside d → p (c::(text++d::rest)) = p (c::text)

section Headed
variable {p : Pattern} {head : Char} {inside : Char → Prop} (headed : Headed p head inside)

theorem occurrences_skip (skip : ℕ) (text : List Char) : occurrences p skip text = occurrences p 0 (text.drop skip) := by
  induction skip generalizing text with
  | zero => rfl
  | succ skip ih =>
    cases text with
    | nil => rfl
    | cons c rest => rw [occurrences,ih,List.drop_succ_cons]

include headed

theorem occurrences_pass {run : List Char} (absent : head ∉ run) (text : List Char) :
    occurrences p 0 (run++text) = occurrences p 0 text := by
  induction run with
  | nil => rfl
  | cons c run ih =>
    obtain ⟨other,rest⟩ := not_or.mp (List.mem_cons.not.mp absent)
    rw [List.cons_append,occurrences]
    cases found : p (c::(run++text)) with
    | none => exact ih rest
    | some n => exact absurd (headed.begins _ _ _ found).symm other

theorem occurrences_none {run : List Char} (absent : head ∉ run) : occurrences p 0 run = 0 := by
  have passed := occurrences_pass headed absent []
  rwa [List.append_nil] at passed

theorem occurrences_cons (c : Char) (rest : List Char) :
    occurrences p 0 (c::rest) = (if (p (c::rest)).isSome then 1 else 0)+occurrences p 0 rest := by
  rw [occurrences]
  cases found : p (c::rest) with
  | none => simp
  | some n =>
    have passed := occurrences_pass headed (headed.once _ _ _ found) (rest.drop (n-1))
    rw [List.take_append_drop] at passed
    simp [occurrences_skip (n-1) rest,passed]

theorem occurrences_append (a : List Char) {d : Char} (other : ¬inside d) (b : List Char) :
    occurrences p 0 (a++d::b) = occurrences p 0 a+occurrences p 0 (d::b) := by
  induction a with
  | nil => simp [occurrences]
  | cons c a ih =>
    rw [List.cons_append,occurrences_cons headed,occurrences_cons headed,ih,headed.parts c a d b other,Nat.add_assoc]

theorem occurrences_apart (a : List Char) {d : Char} (other : ¬inside d) (plain : d ≠ head) (b : List Char) :
    occurrences p 0 (a++d::b) = occurrences p 0 a+occurrences p 0 b := by
  have single : head ∉ [d] := fun member => plain (List.mem_singleton.mp member).symm
  have passed := occurrences_pass headed single b
  rw [occurrences_append headed a other b,← passed]
  rfl

theorem tails_pass {q : List Char → Bool} (only : ∀ text, q text = true → (p text).isSome) {a : List Char}
    (absent : occurrences p 0 a = 0) {d : Char} (other : ¬inside d) (b : List Char) :
    (a++d::b).tails.any q = (d::b).tails.any q := by
  induction a with
  | nil => rfl
  | cons c a ih =>
    rw [occurrences_cons headed] at absent
    have here : q (c::(a++d::b)) = false := by
      rw [← Bool.not_eq_true]
      intro true_
      have found := only _ true_
      rw [headed.parts c a d b other] at found
      rw [if_pos found] at absent
      omega
    rw [List.cons_append,List.tails_cons,List.any_cons,here,Bool.false_or,ih (by omega)]

theorem tails_none {q : List Char → Bool} (only : ∀ text, q text = true → (p text).isSome) {a : List Char}
    (absent : occurrences p 0 a = 0) (empty : q [] = false) : a.tails.any q = false := by
  induction a with
  | nil => simp [empty]
  | cons c a ih =>
    rw [occurrences_cons headed] at absent
    have here : q (c::a) = false := by
      rw [← Bool.not_eq_true]
      intro true_
      rw [if_pos (only _ true_)] at absent
      omega
    rw [List.tails_cons,List.any_cons,here,Bool.false_or,ih (by omega)]

end Headed

/-! Words. -/

theorem prefix_apart {letters text rest : List Char} {d : Char} (other : d ∉ letters) :
    letters <+: text++d::rest ↔ letters <+: text := by
  refine ⟨fun front => ?_,fun front => front.trans (List.prefix_append _ _)⟩
  by_cases short : letters.length ≤ text.length
  · exact List.prefix_of_prefix_length_le front (List.prefix_append _ _) short
  · -- a longer word takes the character behind the text
    obtain ⟨after,whole⟩ := front
    refine absurd ?_ other
    have inside : text++[d] <+: letters++after := ⟨rest,by rw [whole,List.append_assoc,List.singleton_append]⟩
    have taken : text++[d] <+: letters := by
      apply List.prefix_of_prefix_length_le inside (List.prefix_append _ _)
      rw [List.length_append,List.length_singleton]
      omega
    exact taken.subset (List.mem_append_right _ (List.mem_singleton_self d))

theorem word_found (letters rest : List Char) : word letters (letters++rest) = some letters.length :=
  if_pos (List.prefix_append _ _)

theorem word_headed {head : Char} {letters : List Char} (once : head ∉ letters) :
    Headed (word (head::letters)) head (· ∈ letters) where
  begins c text n found := by
    unfold word at found
    split at found
    next front => exact (List.cons_prefix_cons.mp front).1.symm
    next => cases found
  size text n found := by
    unfold word at found
    split at found
    next =>
      cases found
      exact Nat.succ_pos _
    next => cases found
  once c text n found := by
    unfold word at found
    split at found
    next front =>
      cases found
      obtain ⟨rest,rfl⟩ := (List.cons_prefix_cons.mp front).2
      simpa using once
    next => cases found
  parts c text d rest other := by
    unfold word
    have same : head::letters <+: c::(text++d::rest) ↔ head::letters <+: c::text := by
      rw [List.cons_prefix_cons,List.cons_prefix_cons,prefix_apart other]
    simp only [same]

theorem firstPlace_append {head : Char} {letters a : List Char} (once : head ∉ letters)
    (absent : occurrences (word (head::letters)) 0 a = 0) (b : List Char) :
    firstPlace (head::letters) (a++(head::letters)++b) = some a.length := by
  have headed := word_headed once
  induction a with
  | nil =>
    have front : head::letters <+: head::(letters++b) := List.prefix_append (head::letters) b
    rw [List.nil_append,List.cons_append,firstPlace,if_pos front]
    rfl
  | cons c a ih =>
    rw [occurrences_cons headed] at absent
    have here : ¬head::letters <+: c::(a++head::(letters++b)) := by
      intro front
      have found : word (head::letters) (c::(a++head::(letters++b))) = some (head::letters).length := if_pos front
      rw [headed.parts c a head _ once] at found
      rw [found] at absent
      simp at absent
    have text : c::a++(head::letters)++b = c::(a++head::(letters++b)) := by simp
    have rest : a++(head::letters)++b = a++head::(letters++b) := by simp
    rw [rest] at ih
    rw [text,firstPlace,if_neg here,ih (by omega)]
    rfl

end ATape.Foundation
