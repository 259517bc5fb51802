import ATape.Foundation.Tags
import ATape.Go.Text

/-! The preview of a message in the overview: wrappers are cut out, the lines that are left are trimmed and joined. -/
namespace ATape.TeamOverview
open Foundation.Tags Go

inductive Wrapper
  | environmentContext
  | systemReminder
  | system
deriving DecidableEq

instance : Fintype Wrapper where
  elems := {.environmentContext,.systemReminder,.system}
  complete tag := by cases tag <;> decide

def Wrapper.name : Wrapper → List Char
  | .environmentContext => "environment_context".toList
  | .systemReminder => "system-reminder".toList
  | .system => "system".toList

def spell : Tag Wrapper → List Char
  | .opening tag => '<'::(tag.name++['>'])
  | .closing tag => '<':: '/'::(tag.name++['>'])

def wrappers : List Wrapper := [.environmentContext,.systemReminder,.system]

def filesMentioned : List Char := "# Files mentioned by the user:".toList

def myRequest : List Char := "## My request:".toList

section Steps
variable {α : Type} (char : α → Char)

def cutWrappers (text : List α) : List α :=
  wrappers.foldl (fun text tag => cutBlocks char (spell (.opening tag)) '<' ('/'::(tag.name++['>'])) text) text

/-- `strings.TrimSpace` -/
def trimLine (line : List α) : List α :=
  ((line.dropWhile fun a => isSpace (char a)).reverse.dropWhile fun a => isSpace (char a)).reverse

def keepLines : Bool → List (List α) → List (List α)
  | _,[] => []
  | skip,line::rest =>
    let t := trimLine char line
    if filesMentioned <+: t.map char then keepLines true rest
    else if myRequest <+: t.map char then keepLines false rest
    else if skip = true ∨ "<environment_context>".toList <+: t.map char ∨ "<system".toList <+: t.map char then
      keepLines skip rest
    else t::keepLines skip rest

/-- `strings.Fields` -/
def fields (text : List α) : List (List α) :=
  (text.splitOnP fun a => isSpace (char a)).filter fun word => !word.isEmpty

/-- `preview` for characters that carry something along. -/
def previewOf (blank ellipsis : α) (text : List α) : List α :=
  let lines := keepLines char false ((cutWrappers char text).splitOnP fun a => decide (char a = '\n'))
  let value := [blank].intercalate (fields char ([blank].intercalate lines))
  if 360 < value.length then value.take 360++[ellipsis] else value

end Steps

def preview (text : String) : String := String.ofList (previewOf id ' ' '…' text.toList)

/-! What the characters carry along does not matter. -/

section Map
variable {α β : Type} {char : β → Char} (f : α → β)

theorem trimLine_map (line : List α) : trimLine char (line.map f) = (trimLine (char ∘ f) line).map f := by
  simp only [trimLine,List.dropWhile_map,← List.map_reverse]
  rfl

theorem keepLines_map (skip : Bool) (lines : List (List α)) :
    keepLines char skip (lines.map (List.map f)) = (keepLines (char ∘ f) skip lines).map (List.map f) := by
  induction lines generalizing skip with
  | nil => rfl
  | cons line rest ih =>
    simp only [List.map_cons,keepLines,trimLine_map,List.map_map,ih]
    split_ifs <;> rfl

theorem splitOnP_map (p : β → Bool) (text : List α) :
    (text.map f).splitOnP p = (text.splitOnP (p ∘ f)).map (List.map f) := by
  induction text with
  | nil => rfl
  | cons a text ih =>
    rw [List.map_cons,List.splitOnP_cons_eq_if_modifyHead,List.splitOnP_cons_eq_if_modifyHead,ih]
    cases h : text.splitOnP (p ∘ f) with
    | nil => split_ifs <;> simp_all
    | cons word words => split_ifs <;> simp_all

theorem fields_map (text : List α) : fields char (text.map f) = (fields (char ∘ f) text).map (List.map f) := by
  rw [fields,splitOnP_map,List.filter_map,fields]
  congr 2
  funext word
  simp

theorem intercalate_map (blank : α) (words : List (List α)) :
    [f blank].intercalate (words.map (List.map f)) = ([blank].intercalate words).map f := by
  induction words with
  | nil => rfl
  | cons word words ih =>
    cases words with
    | nil => simp [List.intercalate_singleton]
    | cons next words =>
      rw [List.map_cons] at ih ⊢
      rw [List.map_cons,List.intercalate_cons_cons,ih,List.intercalate_cons_cons,List.map_append,List.map_append]
      rfl

variable (char) in
theorem place_map (word : List Char) (text : List α) :
    place char word (text.map f) = (place (char ∘ f) word text).map fun (before,found) => (before.map f,found.map f) := by
  induction text with
  | nil => rfl
  | cons a rest ih =>
    have same : ((a::rest).map f).map char = (a::rest).map (char ∘ f) := List.map_map
    rw [List.map_cons] at same ⊢
    rw [place,place,ih,same]
    split
    next => simp
    next => cases place (char ∘ f) word rest <;> rfl

theorem cutBlocks_map (opening : List Char) (c : Char) (closing : List Char) (text : List α) :
    cutBlocks char opening c closing (text.map f) = (cutBlocks (char ∘ f) opening c closing text).map f := by
  induction length : text.length using Nat.strong_induction_on generalizing text with
  | _ n ih =>
    subst length
    have placed' := place_map char f opening text
    cases placed : place (char ∘ f) opening text with
    | none =>
      rw [placed] at placed'
      rw [cutBlocks_none placed,cutBlocks_none placed']
    | some parts =>
      obtain ⟨before,found⟩ := parts
      rw [placed] at placed'
      have ended' := place_map char f (c::closing) found
      cases ended : place (char ∘ f) (c::closing) found with
      | none =>
        rw [ended] at ended'
        rw [cutBlocks_open placed ended,cutBlocks_open placed' ended']
      | some parts =>
        obtain ⟨inside,behind⟩ := parts
        rw [ended] at ended'
        rw [cutBlocks_block placed ended,cutBlocks_block placed' ended',← ih _ _ _ rfl,List.map_append,List.map_drop]
        obtain ⟨rfl,_,_⟩ := place_some placed
        obtain ⟨rfl,_,some⟩ := place_some ended
        have positive := List.length_pos_iff.mpr some
        simp only [List.length_append,List.length_drop]
        omega

theorem cutWrappers_map (text : List α) : cutWrappers char (text.map f) = (cutWrappers (char ∘ f) text).map f := by
  simp only [cutWrappers,wrappers,List.foldl_cons,List.foldl_nil,cutBlocks_map]

variable (char) in
theorem previewOf_map (blank ellipsis : α) (text : List α) :
    previewOf char (f blank) (f ellipsis) (text.map f) = (previewOf (char ∘ f) blank ellipsis text).map f := by
  have ends : (fun a => decide (char a = '\n')) ∘ f = fun a => decide ((char ∘ f) a = '\n') := rfl
  simp only [previewOf,cutWrappers_map,splitOnP_map,keepLines_map,intercalate_map,fields_map,List.length_map,ends]
  split
  next => rw [List.map_append,List.map_take,List.map_singleton]
  next => rfl

end Map

/-! What a preview is made of: runs of the text that is left, blanks and the ellipsis. -/

section Parts
variable {α : Type} {char : α → Char}

/-- A property of texts that their runs have, and texts joined by one of some characters. -/
structure Tidy (joint : α → Prop) (P : List α → Prop) : Prop where
  empty : P []
  run : ∀ {part text}, part <:+: text → P text → P part
  join : ∀ {a first second}, joint a → P first → P second → P (first++a::second)

variable {joint : α → Prop} {P : List α → Prop} (tidy : Tidy joint P)

theorem splitOnP_parts {p : α → Bool} {text first : List α} {parts : List (List α)}
    (split : text.splitOnP p = first::parts) : first <+: text ∧ ∀ part ∈ parts, part <:+: text := by
  induction text generalizing first parts with
  | nil =>
    cases split
    exact ⟨List.nil_prefix,by simp⟩
  | cons a text ih =>
    rw [List.splitOnP_cons_eq_if_modifyHead] at split
    cases shape : text.splitOnP p with
    | nil => exact absurd shape (List.splitOnP_ne_nil _ _)
    | cons word words =>
      obtain ⟨begins,inside⟩ := ih shape
      have extended : ∀ part ∈ words, part <:+: a::text := fun part member => (inside part member).trans
        (List.suffix_cons a text).isInfix
      rw [shape] at split
      split at split
      next =>
        cases split
        refine ⟨List.nil_prefix,?_⟩
        intro part member
        rcases List.mem_cons.mp member with rfl | member
        · exact begins.isInfix.trans (List.suffix_cons a text).isInfix
        · exact extended part member
      next =>
        cases split
        exact ⟨List.cons_prefix_cons.mpr ⟨rfl,begins⟩,extended⟩

theorem mem_splitOnP {p : α → Bool} {text part : List α} (member : part ∈ text.splitOnP p) : part <:+: text := by
  cases shape : text.splitOnP p with
  | nil => exact absurd shape (List.splitOnP_ne_nil _ _)
  | cons first parts =>
    obtain ⟨begins,inside⟩ := splitOnP_parts shape
    rw [shape] at member
    rcases List.mem_cons.mp member with rfl | member
    · exact begins.isInfix
    · exact inside part member

include tidy

theorem trimLine_tidy {line : List α} (tidied : P line) : P (trimLine char line) := by
  apply tidy.run _ tidied
  have back := List.dropWhile_suffix (l := (line.dropWhile fun a => isSpace (char a)).reverse) fun a => isSpace (char a)
  have front := List.dropWhile_suffix (l := line) fun a => isSpace (char a)
  have begins : trimLine char line <+: line.dropWhile fun a => isSpace (char a) := by
    rw [trimLine,← List.reverse_suffix,List.reverse_reverse]
    exact back
  exact begins.isInfix.trans front.isInfix

theorem keepLines_tidy {skip : Bool} {lines : List (List α)} (each : ∀ line ∈ lines, P line) :
    ∀ line ∈ keepLines char skip lines, P line := by
  induction lines generalizing skip with
  | nil => simp [keepLines]
  | cons line rest ih =>
    have later : ∀ skip, ∀ other ∈ keepLines char skip rest, P other := by
      intro skip
      exact ih fun other member => each other (List.mem_cons_of_mem _ member)
    rw [keepLines]
    split_ifs
    · exact later true
    · exact later false
    · exact later skip
    · intro other member
      rcases List.mem_cons.mp member with rfl | member
      · exact trimLine_tidy tidy (each line List.mem_cons_self)
      · exact later skip other member

theorem intercalate_tidy {blank : α} (joins : joint blank) {words : List (List α)} (each : ∀ word ∈ words, P word) :
    P ([blank].intercalate words) := by
  induction words with
  | nil => exact tidy.empty
  | cons word words ih =>
    have later := ih fun other member => each other (List.mem_cons_of_mem _ member)
    cases words with
    | nil => simpa [List.intercalate_singleton] using each word List.mem_cons_self
    | cons next words =>
      rw [List.intercalate_cons_cons]
      simpa using tidy.join joins (each word List.mem_cons_self) later

theorem previewOf_tidy {blank ellipsis : α} (joins : joint blank) (ends : joint ellipsis) {text : List α}
    (tidied : P (cutWrappers char text)) : P (previewOf char blank ellipsis text) := by
  have lines : P ([blank].intercalate (keepLines char false
      ((cutWrappers char text).splitOnP fun a => decide (char a = '\n')))) := by
    apply intercalate_tidy tidy joins
    apply keepLines_tidy tidy
    intro line member
    exact tidy.run (mem_splitOnP member) tidied
  have value : P ([blank].intercalate (fields char ([blank].intercalate (keepLines char false
      ((cutWrappers char text).splitOnP fun a => decide (char a = '\n')))))) := by
    apply intercalate_tidy tidy joins
    intro word member
    exact tidy.run (mem_splitOnP (List.mem_of_mem_filter member)) lines
  rw [previewOf]
  split_ifs
  · exact tidy.join ends (tidy.run (List.take_prefix _ _).isInfix value) tidy.empty
  · exact value

end Parts
end ATape.TeamOverview
