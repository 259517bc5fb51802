import ATape.Overview.Preview

/-! What a preview shows of a text with wrappers. -/
namespace ATape.TeamOverview
open Foundation.Tags Go

def tags : List (Tag Wrapper) := wrappers.map .opening++wrappers.map .closing

def tokens (text : String) : List (Token Wrapper Char) := tokenize spell tags id 0 text.toList

def inside (text : String) : List (Char × Bool) := flatten (enclosed (fun _ => 0) (tokens text))

/-- The preview of a text with the marks of its characters. -/
def shown (text : String) : List (Char × Bool) := previewOf Prod.fst (' ',false) ('…',false) (inside text)

/-- A preview with no character that stood inside a wrapper and with no opening tag. -/
def Hides (text : String) : Prop :=
  (∀ a ∈ shown text, a.2 = false) ∧ ∀ tag, ¬spell (.opening tag) <:+: (preview text).toList

theorem spelling : Spelling spell '<' where
  begins t := by
    cases t with
    | opening tag =>
      refine ⟨_,rfl,?_⟩
      cases tag <;> decide
    | closing tag =>
      refine ⟨_,rfl,?_⟩
      cases tag <;> decide
  apart t t' := by
    cases t with
    | opening tag => cases t' with
      | opening tag' => cases tag <;> cases tag' <;> decide
      | closing tag' => cases tag <;> cases tag' <;> decide
    | closing tag => cases t' with
      | opening tag' => cases tag <;> cases tag' <;> decide
      | closing tag' => cases tag <;> cases tag' <;> decide

theorem mem_tags (t : Tag Wrapper) : t ∈ tags := by
  cases t with
  | opening tag => cases tag <;> decide
  | closing tag => cases tag <;> decide

theorem inside_chars (text : String) : (inside text).map Prod.fst = text.toList := by
  rw [inside,← flatten_map,enclosed_erased,tokens,flatten_tokenize spelling]

theorem shown_chars (text : String) : (shown text).map Prod.fst = (preview text).toList := by
  have marked := previewOf_map id Prod.fst (' ',false) ('…',false) (inside text)
  rw [inside_chars] at marked
  rw [preview,String.toList_ofList,marked]
  rfl

theorem cutWrappers_calm {marked : List (Token Wrapper (Char × Bool))} (calm : Calm spell id marked) :
    (∀ a ∈ cutWrappers Prod.fst (flatten marked), a.2 = false) ∧
      ∀ tag, ¬spell (.opening tag) <:+: (cutWrappers Prod.fst (flatten marked)).map Prod.fst := by
  obtain ⟨first,cut,calm,none,_⟩ := calm.cut spelling (k := .environmentContext) rfl
  obtain ⟨second,cut',calm,none',kept'⟩ := calm.cut spelling (k := .systemReminder) rfl
  obtain ⟨third,cut'',calm,none'',kept''⟩ := calm.cut spelling (k := .system) rfl
  have left : cutWrappers Prod.fst (flatten marked) = flatten third := by
    simp only [cutWrappers,wrappers,List.foldl_cons,List.foldl_nil]
    exact (congrArg _ ((congrArg _ cut).trans cut')).trans cut''
  have unopened : ∀ tag, ¬Has (.opening tag) third := by
    intro tag has
    cases tag with
    | environmentContext => exact none (kept' _ (kept'' _ has))
    | systemReminder => exact none' (kept'' _ has)
    | system => exact none'' has
  rw [left]
  exact calm.unmarked spelling unopened

theorem marks_tidy : Tidy (fun a : Char × Bool => a.2 = false) fun text => ∀ a ∈ text, a.2 = false where
  empty := by simp
  run part whole a member := whole a (part.subset member)
  join joins first second a member := by
    rcases List.mem_append.mp member with here | member
    · exact first a here
    · rcases List.mem_cons.mp member with rfl | later
      · exact joins
      · exact second a later

theorem word_beside {word first second : List Char} {c : Char} (other : c ∉ word) (found : word <:+: first++c::second) :
    word <:+: first ∨ word <:+: second := by
  rcases List.infix_append_iff_ne_nil.mp found with here | later | ⟨front,back,_,some,rfl,_,begins⟩
  · exact .inl here
  · rcases List.infix_cons_iff.mp later with begins | later
    · cases word with
      | nil => exact .inl List.nil_infix
      | cons d word => exact absurd ((List.cons_prefix_cons.mp begins).1 ▸ List.mem_cons_self) other
    · exact .inr later
  · cases back with
    | nil => exact absurd rfl some
    | cons d back =>
      have same := (List.cons_prefix_cons.mp begins).1
      exact absurd (same ▸ List.mem_append_right _ List.mem_cons_self) other

theorem tags_tidy : Tidy (fun a : Char × Bool => ∀ tag, a.1 ∉ spell (.opening tag))
    fun text => ∀ tag, ¬spell (.opening tag) <:+: text.map Prod.fst where
  empty tag found := by cases tag <;> exact absurd found (by decide)
  run part whole tag found := whole tag (found.trans (part.map _))
  join joins first second tag found := by
    rw [List.map_append,List.map_cons] at found
    exact (word_beside (joins tag) found).elim (first tag) (second tag)

def wrapped : String := "<environment_context>a<system>b</system></environment_context>hi<system>c"

/-- A wrapper within one of its kind. -/
def nestedTwice : String := "<system>a<system></system>b</system>"

end ATape.TeamOverview
