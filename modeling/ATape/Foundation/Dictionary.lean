import Mathlib.Algebra.Order.Ring.Int
import Mathlib.Data.List.Infix
import Mathlib.Data.List.Sort
import Mathlib.Data.Prod.Lex
import Mathlib.Tactic.Ring

/-! Suffixes of a text that belong to a set of words closed under prefixes. The
longest such suffix is all that a reader has to remember of the text: it can be
carried from one character to the next, and every known suffix is a suffix of it. -/
namespace ATape.Foundation
namespace Dictionary
variable {α : Type} {known : List α → Prop} [DecidablePred known]

/-- The longest known suffix of a text. -/
def longest (known : List α → Prop) [DecidablePred known] : List α → List α
  | [] => []
  | c::text => if known (c::text) then c::text else longest known text

theorem longest_suffix (text : List α) : longest known text <:+ text := by
  induction text with
  | nil => exact List.suffix_rfl
  | cons c text ih =>
    unfold longest
    split
    · exact List.suffix_rfl
    · exact ih.trans (List.suffix_cons c text)

theorem longest_known (root : known []) (text : List α) : known (longest known text) := by
  induction text with
  | nil => exact root
  | cons c text ih =>
    unfold longest
    split
    next here => exact here
    next => exact ih

theorem longest_of_known {text : List α} (here : known text) : longest known text = text := by
  cases text with
  | nil => rfl
  | cons c text => rw [longest,if_pos here]

theorem suffix_longest {word text : List α} (suffix : word <:+ text) (here : known word) :
    word <:+ longest known text := by
  induction text with
  | nil => exact suffix
  | cons c text ih =>
    unfold longest
    split
    · exact suffix
    next unknown =>
      rcases List.suffix_cons_iff.mp suffix with rfl | later
      · exact absurd here unknown
      · exact ih later

theorem suffix_append_one {word text : List α} {c : α} (suffix : word <:+ text++[c]) :
    word = [] ∨ ∃ front, word = front++[c] ∧ front <:+ text := by
  rcases List.eq_nil_or_concat' word with rfl | ⟨front,last,rfl⟩
  · exact .inl rfl
  · obtain ⟨start,same⟩ := suffix
    rw [← List.append_assoc] at same
    obtain ⟨rest,tail⟩ := List.append_inj' same rfl
    cases tail
    exact .inr ⟨front,rfl,start,rest⟩

theorem longest_append (root : known []) (closed : ∀ word c, known (word++[c]) → known word) (text : List α)
    (c : α) : longest known (text++[c]) = longest known (longest known text++[c]) := by
  have suffix : longest known (text++[c]) <:+ text++[c] := longest_suffix _
  have here := longest_known root (text++[c])
  have below : longest known (text++[c]) <:+ longest known (longest known text++[c]) := by
    rcases suffix_append_one suffix with empty | ⟨front,split,inside⟩
    · rw [empty]
      exact List.nil_suffix
    · apply suffix_longest _ here
      rw [split] at here ⊢
      obtain ⟨start,same⟩ := suffix_longest inside (closed front c here)
      exact ⟨start,by rw [← List.append_assoc,same]⟩
  have above : longest known (longest known text++[c]) <:+ longest known (text++[c]) := by
    apply suffix_longest _ (longest_known root _)
    apply (longest_suffix _).trans
    obtain ⟨start,same⟩ : longest known text <:+ text := longest_suffix text
    exact ⟨start,by rw [← List.append_assoc,same]⟩
  exact below.eq_of_length (le_antisymm below.length_le above.length_le)

theorem longest_extend (root : known []) (closed : ∀ word c, known (word++[c]) → known word) {first c : α}
    {word : List α} (stuck : ¬ known (first::word++[c])) :
    longest known (first::word++[c]) = longest known (longest known word++[c]) := by
  rw [← longest_append root closed]
  exact if_neg stuck

end Dictionary
end ATape.Foundation
