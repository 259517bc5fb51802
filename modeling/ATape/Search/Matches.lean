import ATape.Search.Documents

/-! The windows of a text contain those of every part of it, and an excerpt contains the first match. -/
namespace ATape.ProjectSearch
open Foundation

section Grams

theorem mem_characters {body : List Char} {c : Char × Option Char × Option Char} :
    c ∈ characters body ↔ ∃ before ch rest, body = before++ch::rest ∧ c = (ch,rest[0]?,rest[1]?) := by
  induction body with
  | nil =>
    constructor
    · intro member
      cases member
    · intro found
      obtain ⟨before,ch,rest,whole,-⟩ := found
      cases before <;> cases whole
  | cons first body ih =>
    rw [characters,List.mem_cons,ih]
    constructor
    · intro found
      cases found with
      | inl here => exact ⟨[],first,body,rfl,here⟩
      | inr later =>
        obtain ⟨before,ch,rest,whole,same⟩ := later
        exact ⟨first::before,ch,rest,by rw [whole,List.cons_append],same⟩
    · intro found
      obtain ⟨before,ch,rest,whole,same⟩ := found
      cases before with
      | nil =>
        cases whole
        exact .inl same
      | cons _ before =>
        cases whole
        exact .inr ⟨before,ch,rest,rfl,same⟩

theorem window_eq {width : ℕ} (known : width ∈ [1,2,3]) (ch : Char) (rest : List Char) :
    window width (ch,rest[0]?,rest[1]?) =
      if width ≤ (ch::rest).length then some ((ch::rest).take width) else none := by
  simp only [List.mem_cons,List.not_mem_nil,or_false] at known
  obtain rfl|rfl|rfl := known
  · rfl
  · cases rest <;> simp [window]
  · cases rest with
    | nil => simp [window]
    | cons next rest => cases rest <;> simp [window]

theorem mem_searchBodyGrams {body gram : List Char} {minimum maximum : ℕ} :
    gram ∈ searchBodyGrams body minimum maximum ↔
      gram <:+: body ∧ gram.length ∈ [1,2,3] ∧ minimum ≤ gram.length ∧ gram.length ≤ maximum := by
  rw [searchBodyGrams,List.mem_dedup,List.mem_flatMap]
  constructor
  · intro found
    obtain ⟨width,known,member⟩ := found
    split at member
    next wide =>
      obtain ⟨c,own,part⟩ := List.mem_filterMap.mp member
      obtain ⟨before,ch,rest,whole,rfl⟩ := mem_characters.mp own
      rw [window_eq known] at part
      split at part
      next room =>
        cases part
        have width_ : ((ch::rest).take width).length = width := List.length_take_of_le room
        rw [width_]
        refine ⟨?_,known,wide⟩
        rw [whole]
        exact (List.take_prefix _ _).isInfix.trans (List.suffix_append _ _).isInfix
      next => cases part
    next => cases member
  · intro found
    obtain ⟨⟨before,after,whole⟩,known,wide⟩ := found
    refine ⟨gram.length,known,?_⟩
    rw [if_pos wide,List.mem_filterMap]
    cases gram with
    | nil => simp at known
    | cons ch gram =>
      refine ⟨(ch,(gram++after)[0]?,(gram++after)[1]?),mem_characters.mpr ⟨before,ch,gram++after,?_,rfl⟩,?_⟩
      · rw [← whole,List.append_assoc,List.cons_append]
      · rw [window_eq known,if_pos]
        · rw [← List.cons_append,List.take_left]
        · rw [← List.cons_append,List.length_append]
          omega

theorem grams_within {body literal : List Char} (part : literal <:+: body) :
    ∀ gram ∈ searchBodyGrams literal (min 3 literal.length) 3, gram ∈ searchBodyGrams body 1 3 := by
  intro gram member
  obtain ⟨inside,known,-,short⟩ := mem_searchBodyGrams.mp member
  apply mem_searchBodyGrams.mpr
  refine ⟨inside.trans part,known,?_,short⟩
  simp only [List.mem_cons,List.not_mem_nil,or_false] at known
  omega

end Grams

section Places

theorem strposFrom_spec (sub : List Char) {place : ℕ} (some_ : 0 < place) (text : List Char) :
    ¬sub <:+: text ∧ strposFrom sub place text = 0 ∨
      ∃ before after, text = before++sub++after ∧ strposFrom sub place text = place+before.length ∧
        ∀ i < before.length, ¬sub <+: text.drop i := by
  induction text generalizing place with
  | nil =>
    rw [strposFrom]
    by_cases here : sub.isPrefixOf [] = true
    · rw [if_pos here]
      obtain ⟨after,whole⟩ := List.isPrefixOf_iff_prefix.mp here
      exact .inr ⟨[],after,whole.symm,rfl,fun i none_ => absurd none_ (Nat.not_lt_zero i)⟩
    · rw [if_neg here]
      left
      constructor
      · intro part
        rw [List.infix_nil] at part
        exact here (by rw [part]; rfl)
      · rfl
  | cons c text ih =>
    rw [strposFrom]
    by_cases here : sub.isPrefixOf (c::text) = true
    · rw [if_pos here]
      obtain ⟨after,whole⟩ := List.isPrefixOf_iff_prefix.mp here
      exact .inr ⟨[],after,whole.symm,rfl,fun i none_ => absurd none_ (Nat.not_lt_zero i)⟩
    · rw [if_neg here]
      have later : ¬sub <+: c::text := fun first => here (List.isPrefixOf_iff_prefix.mpr first)
      cases ih (Nat.succ_pos place) with
      | inl absent =>
        left
        constructor
        · intro part
          cases List.infix_cons_iff.mp part with
          | inl first => exact later first
          | inr rest => exact absent.1 rest
        · exact absent.2
      | inr found =>
        right
        obtain ⟨before,after,whole,place_,first⟩ := found
        refine ⟨c::before,after,by rw [whole]; rfl,by rw [place_,List.length_cons]; omega,?_⟩
        intro i earlier
        cases i with
        | zero => exact later
        | succ i => exact first i (by simpa using earlier)

theorem strpos_pos {text sub : List Char} : strpos text sub > 0 ↔ sub <:+: text := by
  cases strposFrom_spec sub Nat.one_pos text with
  | inl absent =>
    rw [strpos,absent.2]
    exact iff_of_false (Nat.lt_irrefl 0) absent.1
  | inr found =>
    obtain ⟨before,after,whole,place,-⟩ := found
    rw [strpos,place]
    exact iff_of_true (by omega) ⟨before,after,whole.symm⟩

end Places

section Excerpts
variable {γ : Type} (l : Locale γ)

/-- A part of a text that the term matches, and no earlier one. -/
structure FirstMatch (text literal before found after : List Char) : Prop where
  whole : text = before++found++after
  matched : found.map l.lower = literal
  first : ∀ i < before.length, ¬literal <+: (text.map l.lower).drop i

/-- An excerpt that shows the whole match, between parts of what stands around it. -/
def Shows (literal text excerpt : List Char) : Prop :=
  ∃ before found after, FirstMatch l text literal before found after ∧
    ∃ left right, excerpt = left++found++right ∧ left <:+ before ∧ right <+: after

theorem excerpt_shows {text literal : List Char} (part : literal <:+: text.map l.lower) (short : literal.length ≤ 200) :
    Shows l literal text (substring text (max 1 (strpos (text.map l.lower) literal-120)) 640) := by
  cases strposFrom_spec literal Nat.one_pos (text.map l.lower) with
  | inl absent => exact absurd part absent.1
  | inr found =>
    obtain ⟨before,after,whole,place,first⟩ := found
    obtain ⟨front,tail,rfl,fronts,tails⟩ := List.map_eq_append_iff.mp whole
    obtain ⟨lead,match_,rfl,leads,matches_⟩ := List.map_eq_append_iff.mp fronts
    have leadLength : lead.length = before.length := by rw [← leads,List.length_map]
    have matchLength : match_.length = literal.length := by rw [← matches_,List.length_map]
    refine ⟨lead,match_,tail,⟨rfl,matches_,?_⟩,lead.drop (before.length-120),
      tail.take (640-(lead.drop (before.length-120)++match_).length),?_,List.drop_suffix _ _,List.take_prefix _ _⟩
    · rw [leadLength]
      exact first
    · have start : max 1 (strpos ((lead++match_++tail).map l.lower) literal-120)-1 = before.length-120 := by
        rw [strpos,place]
        omega
      have shown : (lead.drop (before.length-120)++match_).take 640 = lead.drop (before.length-120)++match_ := by
        apply List.take_of_length_le
        rw [List.length_append,List.length_drop]
        omega
      rw [substring,start,List.append_assoc,List.drop_append_of_le_length (by omega),← List.append_assoc,
        List.take_append,shown]

end Excerpts
end ATape.ProjectSearch
