import Mathlib.Algebra.Order.Ring.Int
import Mathlib.Data.Fintype.Basic
import Mathlib.Data.List.Infix
import Mathlib.Data.List.Sort
import Mathlib.Data.Prod.Lex
import Mathlib.Tactic.Ring

/-! Texts with opening and closing tags of several kinds. A text is read as tags and what stands between them; cutting
a block, from an opening tag to the next closing tag of its kind, leaves a text that is read as what was left, unless
what stood in front of the block and what stood behind it make up a tag. -/
namespace ATape.Foundation.Tags

inductive Tag (κ : Type)
  | opening (kind : κ)
  | closing (kind : κ)
deriving DecidableEq

inductive Token (κ α : Type)
  | plain (a : α)
  | tag (t : Tag κ) (text : List α)
deriving DecidableEq

variable {κ α : Type}

def Token.text : Token κ α → List α
  | .plain a => [a]
  | .tag _ text => text

def flatten (tokens : List (Token κ α)) : List α := tokens.flatMap Token.text

@[simp] theorem flatten_nil : flatten ([] : List (Token κ α)) = [] := rfl

@[simp] theorem flatten_plain (a : α) (rest : List (Token κ α)) : flatten (.plain a::rest) = a::flatten rest := rfl

@[simp] theorem flatten_tag (t : Tag κ) (text : List α) (rest : List (Token κ α)) :
    flatten (.tag t text::rest) = text++flatten rest := rfl

@[simp] theorem flatten_append (first second : List (Token κ α)) : flatten (first++second) = flatten first++flatten second :=
  List.flatMap_append

/-- How tags are written: each begins with a character that it does not have again, and none is the beginning of another. -/
structure Spelling (spell : Tag κ → List Char) (head : Char) : Prop where
  begins : ∀ t, ∃ rest, spell t = head::rest ∧ head ∉ rest
  apart : ∀ t t', spell t <+: spell t' → t = t'

def Has (t : Tag κ) (tokens : List (Token κ α)) : Prop := ∃ text, .tag t text ∈ tokens

@[simp] theorem has_nil (t : Tag κ) : ¬Has t ([] : List (Token κ α)) := by simp [Has]

@[simp] theorem has_append (t : Tag κ) (first second : List (Token κ α)) :
    Has t (first++second) ↔ Has t first ∨ Has t second := by
  simp only [Has,List.mem_append,exists_or]

@[simp] theorem has_plain (t : Tag κ) (a : α) (rest : List (Token κ α)) : Has t (.plain a::rest) ↔ Has t rest := by
  simp [Has]

@[simp] theorem has_tag (t t' : Tag κ) (text : List α) (rest : List (Token κ α)) :
    Has t (.tag t' text::rest) ↔ t = t' ∨ Has t rest := by
  simp only [Has,List.mem_cons,Token.tag.injEq]
  constructor
  · rintro ⟨_,⟨same,_⟩ | later⟩
    · exact .inl same
    · exact .inr ⟨_,later⟩
  · rintro (rfl | ⟨_,later⟩)
    · exact ⟨text,.inl ⟨rfl,rfl⟩⟩
    · exact ⟨_,.inr later⟩

theorem has_split {t : Tag κ} {tokens : List (Token κ α)} (has : Has t tokens) :
    ∃ before text after, tokens = before++.tag t text::after ∧ ¬Has t before := by
  induction tokens with
  | nil => exact absurd has (has_nil t)
  | cons token tokens ih =>
    cases token with
    | plain a =>
      obtain ⟨before,text,after,rfl,fresh⟩ := ih ((has_plain t a tokens).mp has)
      exact ⟨.plain a::before,text,after,rfl,by simpa using fresh⟩
    | tag t' text =>
      by_cases same : t = t'
      · subst same
        exact ⟨[],text,tokens,rfl,has_nil t⟩
      · obtain ⟨before,text',after,rfl,fresh⟩ := ih (by simpa [same] using has)
        exact ⟨.tag t' text::before,text',after,rfl,by simp [same,fresh]⟩

section Solid
variable (spell : Tag κ → List Char) (char : α → Char)

/-- Tokens that are what their text is read as. -/
def Solid : List (Token κ α) → Prop
  | [] => True
  | .plain a::rest => (∀ t, ¬spell t <+: (a::flatten rest).map char) ∧ Solid rest
  | .tag t text::rest => text.map char = spell t ∧ Solid rest

/-- What stands in front of an opening tag. -/
def Front (tokens : List (Token κ α)) (run : List α) : Prop :=
  ∃ k text, (run.map Token.plain++[.tag (.opening k) text]) <:+: tokens

/-- What stands behind a closing tag. -/
def Behind (tokens : List (Token κ α)) (a : α) : Prop := ∃ k text, [.tag (.closing k) text,.plain a] <:+: tokens

/-- Nothing in front of an opening tag is the beginning of a tag that the character behind a closing tag goes on with. -/
def Apart (tokens : List (Token κ α)) : Prop :=
  ∀ run a t, Front tokens run → Behind tokens a → run.map char++[char a] <+: spell t → run = []

variable {spell char}

theorem solid_right {first second : List (Token κ α)} (solid : Solid spell char (first++second)) :
    Solid spell char second := by
  induction first with
  | nil => exact solid
  | cons token first ih =>
    cases token with
    | plain a => exact ih solid.2
    | tag t text => exact ih solid.2

theorem solid_left {first second : List (Token κ α)} (solid : Solid spell char (first++second)) :
    Solid spell char first := by
  induction first with
  | nil => trivial
  | cons token first ih =>
    cases token with
    | plain a =>
      refine ⟨?_,ih solid.2⟩
      intro t found
      apply solid.1 t
      refine found.trans ?_
      simp
    | tag t text => exact ⟨solid.1,ih solid.2⟩

theorem word_splits {head : Char} (spelling : Spelling spell head) {word : List Char} (plain : head ∉ word)
    {first second : List (Token κ α)} (solid : Solid spell char (first++second))
    (found : word <+: (flatten (first++second)).map char) :
    (∀ third : List (Token κ α), word <+: (flatten (first++third)).map char) ∨
      ∃ (run : List α) (rest : List Char), first = run.map Token.plain ∧ word = run.map char++rest ∧ rest ≠ [] := by
  induction first generalizing word with
  | nil =>
    cases word with
    | nil => exact .inl fun _ => List.nil_prefix
    | cons c word => exact .inr ⟨[],c::word,rfl,rfl,by simp⟩
  | cons token first ih =>
    cases word with
    | nil => exact .inl fun _ => List.nil_prefix
    | cons c word =>
      cases token with
      | plain a =>
        simp only [List.cons_append,flatten_plain,List.map_cons,List.cons_prefix_cons] at found
        obtain ⟨rfl,found⟩ := found
        rcases ih (fun member => plain (List.mem_cons_of_mem _ member)) solid.2 found with whole | ⟨run,rest,rfl,rfl,more⟩
        · left
          intro third
          simpa using whole third
        · exact .inr ⟨a::run,rest,rfl,rfl,more⟩
      | tag t text =>
        obtain ⟨body,spelt,_⟩ := spelling.begins t
        simp only [List.cons_append,flatten_tag,List.map_append] at found
        rw [solid.1,spelt,List.cons_append,List.cons_prefix_cons] at found
        exact absurd (found.1 ▸ List.mem_cons_self) plain

theorem front_run (run : List α) (k : κ) (text : List α) (rest : List (Token κ α)) :
    Front (run.map Token.plain++.tag (.opening k) text::rest) run := by
  refine ⟨k,text,[],rest,?_⟩
  simp

theorem Front.extend {tokens : List (Token κ α)} {run : List α} (front : Front tokens run) {others : List (Token κ α)}
    (inside : tokens <:+: others) : Front others run := by
  obtain ⟨k,text,found⟩ := front
  exact ⟨k,text,found.trans inside⟩

theorem Behind.extend {tokens : List (Token κ α)} {a : α} (behind : Behind tokens a) {others : List (Token κ α)}
    (inside : tokens <:+: others) : Behind others a := by
  obtain ⟨k,text,found⟩ := behind
  exact ⟨k,text,found.trans inside⟩

variable {head : Char}

theorem solid_block (spelling : Spelling spell head) {before middle after : List (Token κ α)} {k k' : κ} {x y : List α}
    (solid : Solid spell char (before++.tag (.opening k) x::(middle++.tag (.closing k') y::after)))
    (apart : Apart spell char (before++.tag (.opening k) x::(middle++.tag (.closing k') y::after))) :
    Solid spell char (before++after) := by
  have rest : Solid spell char after := by
    have later := solid_right solid
    exact (solid_right later.2).2
  induction before with
  | nil => exact rest
  | cons token before ih =>
    have inner : Apart spell char (before++.tag (.opening k) x::(middle++.tag (.closing k') y::after)) := by
      intro run a t front behind
      exact apart run a t (front.extend (List.suffix_cons _ _).isInfix) (behind.extend (List.suffix_cons _ _).isInfix)
    cases token with
    | tag t text => exact ⟨solid.1,ih solid.2 inner⟩
    | plain a =>
      refine ⟨?_,ih solid.2 inner⟩
      intro t found
      obtain ⟨body,spelt,plain⟩ := spelling.begins t
      simp only [List.map_cons] at found
      rw [spelt,List.cons_prefix_cons] at found
      obtain ⟨same,found⟩ := found
      rcases word_splits spelling plain (ih solid.2 inner) found with whole | ⟨run,others,rfl,rfl,more⟩
      · apply solid.1 t
        simp only [List.map_cons]
        rw [spelt,List.cons_prefix_cons]
        exact ⟨same,whole _⟩
      · -- the tag begins in front of the block and goes on behind it
        cases others with
        | nil => exact more rfl
        | cons c others =>
          simp only [List.append_eq,flatten_append,List.map_append] at found
          have flat : flatten (run.map Token.plain : List (Token κ α)) = run := by
            simp [flatten,List.flatMap_map,Token.text]
          rw [flat,List.prefix_append_right_inj] at found
          cases after with
          | nil => simp at found
          | cons token after =>
            cases token with
            | tag t' text =>
              obtain ⟨body',spelt',_⟩ := spelling.begins t'
              simp only [flatten_tag,List.map_append] at found
              rw [rest.1,spelt',List.cons_append,List.cons_prefix_cons] at found
              exact plain (List.mem_append_right _ (found.1 ▸ List.mem_cons_self))
            | plain b =>
              simp only [flatten_plain,List.map_cons,List.cons_prefix_cons] at found
              obtain ⟨rfl,_⟩ := found
              have front : Front (Token.plain a::((run.map Token.plain)++
                  .tag (.opening k) x::(middle++.tag (.closing k') y::.plain b::after))) (a::run) := front_run (a::run) k x _
              have behind : Behind (Token.plain a::((run.map Token.plain)++
                  .tag (.opening k) x::(middle++.tag (.closing k') y::.plain b::after))) b :=
                ⟨k',y,.plain a::((run.map Token.plain)++.tag (.opening k) x::middle),after,by simp⟩
              have none := apart (a::run) b t front behind (by
                rw [spelt,same]
                simp)
              cases none

theorem apart_block {before middle after : List (Token κ α)} {k k' : κ} {x y : List α}
    (apart : Apart spell char (before++.tag (.opening k) x::(middle++.tag (.closing k') y::after))) :
    Apart spell char (before++after) := by
  have left : before <:+: before++.tag (.opening k) x::(middle++.tag (.closing k') y::after) :=
    List.infix_append_left
  have right : after <:+: before++.tag (.opening k) x::(middle++.tag (.closing k') y::after) :=
    ⟨before++.tag (.opening k) x::(middle++[.tag (.closing k') y]),[],by simp⟩
  have closes : ∀ a, Behind (before++after) a →
      Behind (before++.tag (.opening k) x::(middle++.tag (.closing k') y::after)) a := by
    rintro a ⟨j,z,found⟩
    rcases List.infix_append_iff_ne_nil.mp found with inside | inside | ⟨l₁,l₂,some₁,some₂,parts,_,front⟩
    · exact Behind.extend ⟨j,z,inside⟩ left
    · exact Behind.extend ⟨j,z,inside⟩ right
    · obtain ⟨rest,rfl⟩ : ∃ rest, after = Token.plain a::rest := by
        rcases List.append_eq_cons_iff.mp parts.symm with ⟨none,_⟩ | ⟨l,rfl,rest⟩
        · exact absurd none some₁
        · rcases List.append_eq_singleton_iff.mp rest.symm with ⟨rfl,rfl⟩ | ⟨_,none⟩
          · obtain ⟨rest,rfl⟩ := front
            exact ⟨rest,rfl⟩
          · exact absurd none some₂
      exact ⟨k',y,before++.tag (.opening k) x::middle,rest,by simp⟩
  intro run a t ⟨j,z,found⟩ behind follows
  have behind' := closes a behind
  rcases List.infix_append_iff_ne_nil.mp found with inside | inside | ⟨l₁,l₂,some₁,some₂,parts,back,front⟩
  · exact apart run a t (Front.extend ⟨j,z,inside⟩ left) behind' follows
  · exact apart run a t (Front.extend ⟨j,z,inside⟩ right) behind' follows
  · -- a front that the block stood within
    have pieces : ∃ first second : List α, run = first++second ∧ l₁ = first.map Token.plain ∧
        l₂ = second.map Token.plain++[.tag (.opening j) z] := by
      rcases List.append_eq_append_iff.mp parts with ⟨rest,equal,tail⟩ | ⟨rest,equal,tail⟩
      · rcases List.append_eq_singleton_iff.mp tail.symm with ⟨none,last⟩ | ⟨_,none⟩
        · exact ⟨run,[],by simp,by rw [equal,none,List.append_nil],by simpa using last⟩
        · exact absurd none some₂
      · obtain ⟨first,second,same,one,two⟩ := List.map_eq_append_iff.mp equal
        exact ⟨first,second,same,one.symm,by rw [tail,two]⟩
    obtain ⟨first,second,rfl,rfl,rfl⟩ := pieces
    have fronted : Front (before++.tag (.opening k) x::(middle++.tag (.closing k') y::after)) first := by
      obtain ⟨prior,rfl⟩ := back
      exact ⟨k,x,prior,middle++.tag (.closing k') y::after,by simp⟩
    have none : first = [] := by
      cases second with
      | nil => exact apart first a t fronted behind' (by simpa using follows)
      | cons b second =>
        obtain ⟨rest,rfl⟩ := front
        apply apart first b t fronted
        · exact ⟨k',y,before++.tag (.opening k) x::middle,second.map Token.plain++[.tag (.opening j) z]++rest,by simp⟩
        · refine List.IsPrefix.trans ?_ follows
          exact ⟨second.map char++[char a],by simp⟩
    subst none
    exact absurd rfl some₁

theorem apart_left {first second : List (Token κ α)} (apart : Apart spell char (first++second)) :
    Apart spell char first := by
  intro run a t front behind
  exact apart run a t (front.extend List.infix_append_left) (behind.extend List.infix_append_left)

end Solid

/-! Blocks that close what they open. -/

def Closes (tokens : List (Token κ α)) : Prop :=
  ∀ k before x middle y after, tokens = before++.tag (.opening k) x::(middle++.tag (.closing k) y::after) →
    ¬Has (.closing k) middle → ∀ k' inner z outer, middle = inner++.tag (.opening k') z::outer → Has (.closing k') outer

theorem closes_left {first second : List (Token κ α)} (closes : Closes (first++second)) : Closes first := by
  intro k before x middle y after split
  exact closes k before x middle y (after++second) (by rw [split]; simp)

theorem not_has_within {prior front middle rest : List (Token κ α)} {j k : κ} {u x y : List α}
    (closes : Closes (prior++.tag (.opening j) u::(front++.tag (.opening k) x::(middle++.tag (.closing k) y::rest))))
    (open_ : ¬Has (.closing j) front) (fresh : ¬Has (.closing k) middle) :
    ¬Has (.closing j) (middle++[.tag (.closing k) y]) := by
  intro has
  obtain ⟨first,v,last,split,unclosed⟩ := has_split has
  have before : ∃ more, middle = first++more := by
    rcases List.append_eq_append_iff.mp split with ⟨more,rfl,ended⟩ | ⟨more,rfl,_⟩
    · rcases List.append_eq_cons_iff.mp ended.symm with ⟨rfl,_⟩ | ⟨l,rfl,none⟩
      · exact ⟨[],by simp⟩
      · simp at none
    · exact ⟨more,rfl⟩
  obtain ⟨more,rfl⟩ := before
  have closed := closes j prior u (front++.tag (.opening k) x::first) v (last++rest)
    (by
      have whole : first++more++.tag (.closing k) y::rest = (first++more++[.tag (.closing k) y])++rest := by simp
      rw [whole,split]
      simp)
    (by simp [open_,unclosed]) k front x first rfl
  exact fresh ((has_append _ _ _).mpr (.inl closed))

theorem closes_around {prior front middle after rest : List (Token κ α)} {j k : κ} {u v x y : List α}
    (closes : Closes (prior++.tag (.opening j) u::(front++.tag (.opening k) x::(middle++.tag (.closing k) y::
      (after++.tag (.closing j) v::rest)))))
    (fresh : ¬Has (.closing k) middle) (unclosed : ¬Has (.closing j) (front++after)) {j' : κ} {z : List α}
    {inner outer : List (Token κ α)} (within : front++after = inner++.tag (.opening j') z::outer) :
    Has (.closing j') outer := by
  simp only [has_append,not_or] at unclosed
  have none := not_has_within closes unclosed.1 fresh
  have whole := closes j prior u (front++.tag (.opening k) x::(middle++.tag (.closing k) y::after)) v rest (by simp)
    (by
      simp only [has_append,has_tag,not_or,has_nil] at none ⊢
      refine ⟨unclosed.1,by simp,none.1,none.2.1,unclosed.2⟩)
  rcases List.append_eq_append_iff.mp within with ⟨more,rfl,later⟩ | ⟨more,rfl,later⟩
  · exact whole j' (front++.tag (.opening k) x::(middle++.tag (.closing k) y::more)) z outer (by rw [later]; simp)
  · rcases List.cons_eq_append_iff.mp later with ⟨rfl,same⟩ | ⟨behind,rfl,same⟩
    · exact whole j' (inner++.tag (.opening k) x::(middle++[.tag (.closing k) y])) z outer (by rw [same]; simp)
    · have closed := whole j' inner z (behind++.tag (.opening k) x::(middle++.tag (.closing k) y::after)) (by simp)
      subst same
      by_cases early : Has (.closing j') behind
      · exact (has_append _ _ _).mpr (.inl early)
      · have moved : Closes ((prior++.tag (.opening j) u::inner)++.tag (.opening j') z::(behind++.tag (.opening k) x::
            (middle++.tag (.closing k) y::(after++.tag (.closing j) v::rest)))) := by simpa using closes
        have none' := not_has_within moved early fresh
        simp only [has_append,has_tag,has_nil,or_false,not_or] at none' closed ⊢
        tauto

theorem closes_block {before middle after : List (Token κ α)} {k : κ} {x y : List α}
    (fresh : ¬Has (.closing k) middle)
    (closes : Closes (before++.tag (.opening k) x::(middle++.tag (.closing k) y::after))) : Closes (before++after) := by
  intro j prior u inside v rest split unclosed j' inner z outer within
  -- where the block that is left begins and ends
  rcases List.append_eq_append_iff.mp split with ⟨more,rfl,later⟩ | ⟨more,rfl,later⟩
  · -- it begins behind the block that was taken out
    exact closes j (before++.tag (.opening k) x::(middle++.tag (.closing k) y::more)) u inside v rest
      (by rw [later]; simp) unclosed j' inner z outer within
  · rcases List.cons_eq_append_iff.mp later with ⟨rfl,rfl⟩ | ⟨front,rfl,ended⟩
    · exact closes j (prior++.tag (.opening k) x::(middle++[.tag (.closing k) y])) u inside v rest (by simp)
        unclosed j' inner z outer within
    · rcases List.append_eq_append_iff.mp ended with ⟨last,rfl,closed⟩ | ⟨last,rfl,closed⟩
      · rcases List.cons_eq_append_iff.mp closed with ⟨rfl,rfl⟩ | ⟨last,rfl,rfl⟩
        · have moved : Closes (prior++.tag (.opening j) u::(inside++.tag (.opening k) x::(middle++.tag (.closing k) y::
              ([]++.tag (.closing j) v::rest)))) := by simpa using closes
          exact closes_around moved fresh (by simpa using unclosed) (by simpa using within)
        · exact closes j prior u inside v (last++.tag (.opening k) x::(middle++.tag (.closing k) y::after)) (by simp)
            unclosed j' inner z outer within
      · subst closed
        exact closes_around (by simpa using closes) fresh unclosed within

/-! Marks that say what stands within blocks. -/

section Marks
variable [DecidableEq κ]

/-- Every marked character stands behind an opening tag whose kind is open, from a state in which some kinds are. -/
def Covers : (κ → Bool) → List (Token κ (α × Bool)) → Prop
  | _,[] => True
  | st,.plain a::rest => (a.2 = true → ∃ k, st k = true) ∧ Covers st rest
  | st,.tag (.opening k) text::rest =>
    (∀ a ∈ text, a.2 = true → ∃ k, st k = true) ∧ Covers (Function.update st k true) rest
  | st,.tag (.closing k) text::rest =>
    (∀ a ∈ text, a.2 = true → ∃ j, Function.update st k false j = true) ∧ Covers (Function.update st k false) rest

/-- The kinds that are open behind some tokens. -/
def stateAfter (st : κ → Bool) (tokens : List (Token κ α)) : κ → Bool :=
  tokens.foldl (fun st token => match token with
    | .plain _ => st
    | .tag (.opening k) _ => Function.update st k true
    | .tag (.closing k) _ => Function.update st k false) st

theorem covers_append (st : κ → Bool) (first second : List (Token κ (α × Bool))) :
    Covers st (first++second) ↔ Covers st first ∧ Covers (stateAfter st first) second := by
  induction first generalizing st with
  | nil => simp [Covers,stateAfter]
  | cons token first ih =>
    cases token with
    | plain a =>
      rw [List.cons_append,Covers,Covers,ih,and_assoc]
      rfl
    | tag t text =>
      cases t with
      | opening k =>
        rw [List.cons_append,Covers,Covers,ih,and_assoc]
        rfl
      | closing k =>
        rw [List.cons_append,Covers,Covers,ih,and_assoc]
        rfl

theorem covers_mono {st st' : κ → Bool} (more : ∀ k, st k = true → st' k = true) {tokens : List (Token κ (α × Bool))}
    (covers : Covers st tokens) : Covers st' tokens := by
  have updated (k : κ) (b : Bool) {s s' : κ → Bool} (more : ∀ k, s k = true → s' k = true) (j : κ)
      (open_ : Function.update s k b j = true) : Function.update s' k b j = true := by
    rw [Function.update_apply] at open_ ⊢
    split
    next same => rwa [if_pos same] at open_
    next other =>
      rw [if_neg other] at open_
      exact more j open_
  induction tokens generalizing st st' with
  | nil => trivial
  | cons token tokens ih =>
    cases token with
    | plain a =>
      refine ⟨?_,ih more covers.2⟩
      intro marked
      obtain ⟨k,open_⟩ := covers.1 marked
      exact ⟨k,more k open_⟩
    | tag t text =>
      cases t with
      | opening k =>
        refine ⟨?_,ih (updated k true more) covers.2⟩
        intro a member marked
        obtain ⟨k,open_⟩ := covers.1 a member marked
        exact ⟨k,more k open_⟩
      | closing k =>
        refine ⟨?_,ih (updated k false more) covers.2⟩
        intro a member marked
        obtain ⟨j,open_⟩ := covers.1 a member marked
        exact ⟨j,updated k false more j open_⟩

theorem stateAfter_other {tokens : List (Token κ α)} {k : κ} (st : κ → Bool) (opening : ¬Has (.opening k) tokens)
    (closing : ¬Has (.closing k) tokens) : stateAfter st tokens k = st k := by
  induction tokens generalizing st with
  | nil => rfl
  | cons token tokens ih =>
    cases token with
    | plain a => exact ih st (by simpa using opening) (by simpa using closing)
    | tag t text =>
      simp only [has_tag,not_or] at opening closing
      cases t with
      | opening j =>
        have other : k ≠ j := by
          rintro rfl
          exact opening.1 rfl
        exact (ih _ opening.2 closing.2).trans (Function.update_of_ne other _ _)
      | closing j =>
        have other : k ≠ j := by
          rintro rfl
          exact closing.1 rfl
        exact (ih _ opening.2 closing.2).trans (Function.update_of_ne other _ _)

def Closed (k : κ) (tokens : List (Token κ α)) : Prop :=
  ∀ inner z outer, tokens = inner++.tag (.opening k) z::outer → Has (.closing k) outer

omit [DecidableEq κ] in
theorem Closed.tail {k : κ} {token : Token κ α} {tokens : List (Token κ α)} (closed : Closed k (token::tokens)) :
    Closed k tokens := by
  intro inner z outer split
  exact closed (token::inner) z outer (by rw [split]; rfl)

theorem stateAfter_closing {tokens : List (Token κ α)} {k : κ} (st : κ → Bool) (closed : Closed k tokens)
    (has : Has (.closing k) tokens) : stateAfter st tokens k = false := by
  induction tokens generalizing st with
  | nil => exact absurd has (has_nil _)
  | cons token tokens ih =>
    cases token with
    | plain a => exact ih st closed.tail (by simpa using has)
    | tag t text =>
      cases t with
      | opening j => exact ih _ closed.tail (by simpa using has)
      | closing j =>
        by_cases later : Has (.closing k) tokens
        · exact ih _ closed.tail later
        · have same : k = j := by simpa [later] using has
          subst same
          have none : ¬Has (.opening k) tokens := by
            intro opened
            obtain ⟨before,z,after,split,_⟩ := has_split opened
            apply later
            rw [split]
            exact (has_append _ _ _).mpr (.inr ((has_tag _ _ _ _).mpr (.inr (closed.tail before z after split))))
          exact (stateAfter_other _ none later).trans (Function.update_self _ _ _)

theorem stateAfter_closed {tokens : List (Token κ α)} {k : κ} (st : κ → Bool) (closed : Closed k tokens)
    (open_ : stateAfter st tokens k = true) : st k = true := by
  by_cases has : Has (.closing k) tokens
  · rw [stateAfter_closing st closed has] at open_
    cases open_
  · rw [stateAfter_other st ?_ has] at open_
    · exact open_
    · intro opened
      obtain ⟨before,z,after,split,_⟩ := has_split opened
      apply has
      rw [split]
      exact (has_append _ _ _).mpr (.inr ((has_tag _ _ _ _).mpr (.inr (closed before z after split))))

theorem covers_block {before middle after : List (Token κ (α × Bool))} {k : κ} {x y : List (α × Bool)} (st : κ → Bool)
    (closes : Closes (before++.tag (.opening k) x::(middle++.tag (.closing k) y::after)))
    (fresh : ¬Has (.closing k) middle)
    (covers : Covers st (before++.tag (.opening k) x::(middle++.tag (.closing k) y::after))) :
    Covers st (before++after) := by
  have whole : before++.tag (.opening k) x::(middle++.tag (.closing k) y::after) =
      (before++.tag (.opening k) x::(middle++[.tag (.closing k) y]))++after := by simp
  rw [whole,covers_append,covers_append] at covers
  rw [covers_append]
  refine ⟨covers.1.1,covers_mono ?_ covers.2⟩
  intro j open_
  have state : stateAfter st (before++.tag (.opening k) x::(middle++[.tag (.closing k) y])) =
      Function.update (stateAfter (Function.update (stateAfter st before) k true) middle) k false := by
    simp [stateAfter,List.foldl_append]
  rw [state,Function.update_apply] at open_
  split at open_
  next => cases open_
  next other =>
    have earlier := stateAfter_closed _ (closes k before x middle y after rfl fresh j) open_
    rwa [Function.update_of_ne other] at earlier

theorem covers_unopened {tokens : List (Token κ (α × Bool))} (none : ∀ k, ¬Has (.opening k) tokens) {st : κ → Bool}
    (closed : ∀ k, st k = false) (covers : Covers st tokens) : ∀ a ∈ flatten tokens, a.2 = false := by
  induction tokens generalizing st with
  | nil => simp
  | cons token tokens ih =>
    cases token with
    | plain a =>
      have rest := ih (fun k has => none k (by simpa using has)) closed covers.2
      intro b member
      rcases List.mem_cons.mp member with rfl | later
      · by_contra marked
        obtain ⟨k,open_⟩ := covers.1 (by simpa using marked)
        rw [closed k] at open_
        cases open_
      · exact rest b later
    | tag t text =>
      cases t with
      | opening k => exact absurd (by simp) (none k)
      | closing k =>
        have still : ∀ j, Function.update st k false j = false := by
          intro j
          rw [Function.update_apply]
          split
          · rfl
          · exact closed j
        have rest := ih (fun j has => none j (by simp [has])) still covers.2
        intro b member
        rcases List.mem_append.mp member with here | later
        · by_contra marked
          obtain ⟨j,open_⟩ := covers.1 b here (by simpa using marked)
          rw [still j] at open_
          cases open_
        · exact rest b later

/-! Marking what stands within blocks, where a closing tag closes one opening tag. -/

variable [Fintype κ]

/-- Whether some block is open. -/
def within (depth : κ → ℕ) : Bool := decide (∃ k, 0 < depth k)

def enclosed : (κ → ℕ) → List (Token κ α) → List (Token κ (α × Bool))
  | _,[] => []
  | depth,.plain a::rest => .plain (a,within depth)::enclosed depth rest
  | depth,.tag (.opening k) text::rest =>
    .tag (.opening k) (text.map fun a => (a,within depth))::enclosed (Function.update depth k (depth k+1)) rest
  | depth,.tag (.closing k) text::rest =>
    let after := Function.update depth k (depth k-1)
    .tag (.closing k) (text.map fun a => (a,within after))::enclosed after rest

/-- How deep a kind is open behind some tokens: a second opening tag has no closing tag behind it any more. -/
def Depth (past : List (Token κ α)) (depth : κ → ℕ) (st : κ → Bool) (k : κ) : Prop :=
  depth k = 0 ∨ st k = true ∧ depth k = 1 ∧ (∃ before x after, past = before++.tag (.opening k) x::after ∧
      ¬Has (.closing k) after) ∨
    st k = true ∧ ∃ before x middle y after, past = before++.tag (.opening k) x::(middle++.tag (.opening k) y::after) ∧
      ¬Has (.closing k) middle ∧ ¬Has (.closing k) after

omit [DecidableEq κ] [Fintype κ] in
theorem Depth.other {past : List (Token κ α)} {depth depth' : κ → ℕ} {st st' : κ → Bool} {k : κ}
    (held : Depth past depth st k) (token : Token κ α) (same : depth' k = depth k) (same' : st' k = st k)
    (unclosed : ¬Has (.closing k) [token]) : Depth (past++[token]) depth' st' k := by
  rcases held with none | ⟨open_,one,before,x,after,rfl,fresh⟩ | ⟨open_,before,x,middle,y,after,rfl,fresh,fresh'⟩
  · exact .inl (same.trans none)
  · exact .inr (.inl ⟨same'.trans open_,same.trans one,before,x,after++[token],by simp,by simp [fresh,unclosed]⟩)
  · exact .inr (.inr ⟨same'.trans open_,before,x,middle,y,after++[token],by simp,fresh,by simp [fresh',unclosed]⟩)

omit [DecidableEq κ] in
theorem within_open {past : List (Token κ α)} {depth : κ → ℕ} {st : κ → Bool} (held : ∀ k, Depth past depth st k)
    (inside : within depth = true) : ∃ k, st k = true := by
  obtain ⟨k,deep⟩ := of_decide_eq_true inside
  rcases held k with none | ⟨open_,_⟩ | ⟨open_,_⟩
  · omega
  · exact ⟨k,open_⟩
  · exact ⟨k,open_⟩

theorem enclosed_covered {past rest : List (Token κ α)} {depth : κ → ℕ} {st : κ → Bool} (closes : Closes (past++rest))
    (held : ∀ k, Depth past depth st k) : Covers st (enclosed depth rest) := by
  induction rest generalizing past depth st with
  | nil => trivial
  | cons token rest ih =>
    have moved : past++token::rest = (past++[token])++rest := by simp
    rw [moved] at closes
    cases token with
    | plain a => exact ⟨within_open held,ih closes fun k => (held k).other _ rfl rfl (by simp)⟩
    | tag t text =>
      cases t with
      | opening k =>
        refine ⟨?_,ih closes ?_⟩
        · intro a member marked
          obtain ⟨_,_,rfl⟩ := List.mem_map.mp member
          exact within_open held marked
        · intro j
          by_cases same : j = k
          · subst same
            rcases held j with none | ⟨open_,one,before,x,after,rfl,fresh⟩ | ⟨open_,before,x,middle,y,after,rfl,fresh,fresh'⟩
            · exact .inr (.inl ⟨by simp,by simp [none],past,text,[],rfl,has_nil _⟩)
            · exact .inr (.inr ⟨by simp,before,x,after,text,[],by simp,fresh,has_nil _⟩)
            · exact .inr (.inr ⟨by simp,before,x,middle,y,after++[.tag (.opening j) text],by simp,fresh,by simp [fresh']⟩)
          · exact (held j).other _ (Function.update_of_ne same _ _) (Function.update_of_ne same _ _) (by simp)
      | closing k =>
        have next : ∀ j, Depth (past++[.tag (.closing k) text]) (Function.update depth k (depth k-1))
            (Function.update st k false) j := by
          intro j
          by_cases same : j = k
          · subst same
            rcases held j with none | ⟨_,one,_⟩ | ⟨_,before,x,middle,y,after,rfl,fresh,fresh'⟩
            · exact .inl (by simp [none])
            · exact .inl (by simp [one])
            · exact absurd (closes j before x (middle++.tag (.opening j) y::after) text rest (by simp)
                (by simp [fresh,fresh']) j middle y after rfl) fresh'
          · exact (held j).other _ (Function.update_of_ne same _ _) (Function.update_of_ne same _ _) (by simpa using same)
        refine ⟨?_,ih closes next⟩
        intro a member marked
        obtain ⟨_,_,rfl⟩ := List.mem_map.mp member
        exact within_open next marked

end Marks
/-! Reading a text as tokens. -/

section Read
variable (spell : Tag κ → List Char) (tags : List (Tag κ)) (char : α → Char)

def tokenize : ℕ → List α → List (Token κ α)
  | _,[] => []
  | skip+1,_::rest => tokenize skip rest
  | 0,a::rest =>
    match tags.find? fun t => decide (spell t <+: (a::rest).map char) with
    | some t => .tag t ((a::rest).take (spell t).length)::tokenize ((spell t).length-1) rest
    | none => .plain a::tokenize 0 rest

theorem tokenize_skip (skip : ℕ) (text : List α) :
    tokenize spell tags char skip text = tokenize spell tags char 0 (text.drop skip) := by
  induction skip generalizing text with
  | zero => rfl
  | succ skip ih =>
    cases text with
    | nil => rfl
    | cons a rest => rw [tokenize,ih,List.drop_succ_cons]

variable {spell tags char} {head : Char}

variable (tags char) in
theorem tokenize_cons (spelling : Spelling spell head) (a : α) (rest : List α) :
    (∃ t word behind, a::rest = word++behind ∧ word.map char = spell t ∧ behind.length ≤ rest.length ∧
        tokenize spell tags char 0 (a::rest) = .tag t word::tokenize spell tags char 0 behind) ∨
      (∀ t ∈ tags, ¬spell t <+: (a::rest).map char) ∧
        tokenize spell tags char 0 (a::rest) = .plain a::tokenize spell tags char 0 rest := by
  rw [tokenize]
  split
  next t found =>
    have here := of_decide_eq_true (List.find?_some (p := fun t => decide (spell t <+: (a::rest).map char)) found)
    obtain ⟨body,spelt,_⟩ := spelling.begins t
    refine .inl ⟨t,(a::rest).take (spell t).length,(a::rest).drop (spell t).length,(List.take_append_drop _ _).symm,?_,?_,?_⟩
    · rw [List.map_take]
      exact (List.prefix_iff_eq_take.mp here).symm
    · rw [spelt]
      simp
    · rw [tokenize_skip,spelt]
      simp
  next absent =>
    refine .inr ⟨?_,rfl⟩
    intro t member
    have none := List.find?_eq_none.mp absent t member
    simpa using none

theorem flatten_tokenize (spelling : Spelling spell head) (text : List α) :
    flatten (tokenize spell tags char 0 text) = text := by
  induction length : text.length using Nat.strong_induction_on generalizing text with
  | _ n ih =>
    cases text with
    | nil => rfl
    | cons a rest =>
      subst length
      rcases tokenize_cons tags char spelling a rest with ⟨t,word,behind,split,_,shorter,read⟩ | ⟨_,read⟩
      · rw [read,flatten_tag,ih behind.length (by simp; omega) behind rfl,split]
      · rw [read,flatten_plain,ih rest.length (by simp) rest rfl]

theorem solid_tokenize (spelling : Spelling spell head) (all : ∀ t, t ∈ tags) (text : List α) :
    Solid spell char (tokenize spell tags char 0 text) := by
  induction length : text.length using Nat.strong_induction_on generalizing text with
  | _ n ih =>
    cases text with
    | nil => trivial
    | cons a rest =>
      subst length
      rcases tokenize_cons tags char spelling a rest with ⟨t,word,behind,_,spelt,shorter,read⟩ | ⟨none,read⟩
      · rw [read]
        exact ⟨spelt,ih behind.length (by simp; omega) behind rfl⟩
      · rw [read]
        refine ⟨?_,ih rest.length (by simp) rest rfl⟩
        intro t
        rw [flatten_tokenize spelling]
        exact none t (all t)

end Read

/-! Looking for a word, and cutting blocks out. -/

section Cut
variable (char : α → Char)

/-- What stands in front of the first place of a word, and what stands from there on. -/
def place (word : List Char) : List α → Option (List α × List α)
  | [] => none
  | a::rest =>
    if word <+: (a::rest).map char then some ([],a::rest)
    else (place word rest).map fun (before,found) => (a::before,found)

variable {char}

theorem place_some {word : List Char} {text before found : List α} (placed : place char word text = some (before,found)) :
    text = before++found ∧ word <+: found.map char ∧ found ≠ [] := by
  induction text generalizing before with
  | nil => cases placed
  | cons a rest ih =>
    rw [place] at placed
    split at placed
    next here =>
      cases placed
      exact ⟨rfl,here,by simp⟩
    next =>
      obtain ⟨⟨front,_⟩,later,same⟩ := Option.map_eq_some_iff.mp placed
      cases same
      obtain ⟨rfl,rest⟩ := ih later
      exact ⟨rfl,rest⟩

theorem place_pass {word : List Char} {run : List α} (rest : List α)
    (none : ∀ front a behind, run = front++a::behind → ¬word <+: (a::(behind++rest)).map char) :
    place char word (run++rest) = (place char word rest).map fun (before,found) => (run++before,found) := by
  induction run with
  | nil => simp
  | cons a run ih =>
    rw [List.cons_append,place,if_neg (none [] a run rfl),ih fun front b behind split => none (a::front) b behind (by rw [split]; rfl)]
    simp [Option.map_map,Function.comp_def]

theorem place_none {word : List Char} {text : List α} (some : word ≠ []) (absent : place char word text = none) :
    ¬word <:+: text.map char := by
  induction text with
  | nil => simpa using some
  | cons a rest ih =>
    rw [place] at absent
    split at absent
    next => cases absent
    next here =>
      rw [List.map_cons,List.infix_cons_iff,not_or]
      refine ⟨by simpa using here,ih (Option.map_eq_none_iff.mp absent)⟩

variable (char)

/-- Blocks are cut out as long as there is one; a block that is not closed ends with the text. -/
def cutBlocks (opening : List Char) (c : Char) (closing : List Char) (text : List α) : List α :=
  match _placed : place char opening text with
  | none => text
  | some (before,found) =>
    match _ended : place char (c::closing) found with
    | none => before
    | some (_,behind) => cutBlocks opening c closing (before++behind.drop (closing.length+1))
termination_by text.length
decreasing_by
  obtain ⟨rfl,_,_⟩ := place_some _placed
  obtain ⟨rfl,_,some⟩ := place_some _ended
  have positive := List.length_pos_iff.mpr some
  simp only [List.length_append,List.length_drop]
  omega

variable {char}

theorem cutBlocks_none {opening closing : List Char} {c : Char} {text : List α} (absent : place char opening text = none) :
    cutBlocks char opening c closing text = text := by
  rw [cutBlocks]
  split
  next => rfl
  next placed =>
    rw [absent] at placed
    cases placed

theorem cutBlocks_open {opening closing : List Char} {c : Char} {text before found : List α}
    (placed : place char opening text = some (before,found)) (absent : place char (c::closing) found = none) :
    cutBlocks char opening c closing text = before := by
  rw [cutBlocks]
  split
  next none =>
    rw [placed] at none
    cases none
  next same =>
    rw [placed] at same
    cases same
    split
    next => rfl
    next ended =>
      rw [absent] at ended
      cases ended

theorem cutBlocks_block {opening closing : List Char} {c : Char} {text before found inside behind : List α}
    (placed : place char opening text = some (before,found)) (ended : place char (c::closing) found = some (inside,behind)) :
    cutBlocks char opening c closing text = cutBlocks char opening c closing (before++behind.drop (closing.length+1)) := by
  rw [cutBlocks]
  split
  next none =>
    rw [placed] at none
    cases none
  next same =>
    rw [placed] at same
    cases same
    split
    next none =>
      rw [ended] at none
      cases none
    next same =>
      rw [ended] at same
      cases same
      rfl

variable {spell : Tag κ → List Char} {head : Char} (spelling : Spelling spell head)
include spelling

theorem tag_pass {t t' : Tag κ} (other : t ≠ t') {text : List α} (spelt : text.map char = spell t') (rest : List α) :
    place char (spell t) (text++rest) = (place char (spell t) rest).map fun (before,found) => (text++before,found) := by
  apply place_pass
  rintro front a behind rfl here
  obtain ⟨body,begins,_⟩ := spelling.begins t
  obtain ⟨body',begins',once⟩ := spelling.begins t'
  cases front with
  | nil =>
    rw [List.nil_append] at spelt
    have whole : spell t <+: spell t'++rest.map char := by
      rw [← spelt]
      simpa using here
    rcases List.prefix_or_prefix_of_prefix whole (List.prefix_append _ _) with shorter | longer
    · exact other (spelling.apart t t' shorter)
    · exact other (spelling.apart t' t longer).symm
  | cons b front =>
    rw [begins',List.cons_append,List.map_cons,List.cons.injEq] at spelt
    rw [begins,List.map_cons,List.cons_prefix_cons] at here
    apply once
    rw [← spelt.2,here.1]
    simp

theorem place_absent {t : Tag κ} {tokens : List (Token κ α)} (solid : Solid spell char tokens) (absent : ¬Has t tokens) :
    place char (spell t) (flatten tokens) = none := by
  induction tokens with
  | nil => rfl
  | cons token tokens ih =>
    cases token with
    | plain a =>
      rw [flatten_plain,place,if_neg (solid.1 t),ih solid.2 (by simpa using absent)]
      rfl
    | tag t' text =>
      simp only [has_tag,not_or] at absent
      rw [flatten_tag,tag_pass spelling absent.1 solid.1,ih solid.2 absent.2]
      rfl

theorem place_tag {t : Tag κ} {before after : List (Token κ α)} {text : List α}
    (solid : Solid spell char (before++.tag t text::after)) (first : ¬Has t before) :
    place char (spell t) (flatten (before++.tag t text::after)) = some (flatten before,flatten (.tag t text::after)) := by
  induction before with
  | nil =>
    obtain ⟨body,begins,_⟩ := spelling.begins t
    have spelt : text.map char = spell t := solid.1
    cases text with
    | nil =>
      rw [begins] at spelt
      cases spelt
    | cons a text =>
      rw [List.nil_append,flatten_tag,List.cons_append,place,if_pos]
      · rfl
      · rw [← spelt]
        exact ⟨(flatten after).map char,by simp⟩
  | cons token before ih =>
    cases token with
    | plain a =>
      have none : ¬spell t <+: (a::flatten (before++.tag t text::after)).map char := solid.1 t
      rw [List.cons_append,flatten_plain,place,if_neg none,ih solid.2 (by simpa using first)]
      rfl
    | tag t' text' =>
      simp only [has_tag,not_or] at first
      rw [List.cons_append,flatten_tag,tag_pass spelling first.1 solid.1,ih solid.2 first.2]
      rfl

end Cut

section Calm
variable [DecidableEq κ] (spell : Tag κ → List Char) (char : α → Char)

/-- Marked tokens that are read as they stand, after any block was taken out as well, and in which blocks close what
they open and every mark stands behind an opening tag. -/
structure Calm (tokens : List (Token κ (α × Bool))) : Prop where
  solid : Solid spell (fun a => char a.1) tokens
  apart : Apart spell (fun a => char a.1) tokens
  closes : Closes tokens
  covers : Covers (fun _ => false) tokens

variable {spell char} {head : Char} (spelling : Spelling spell head)

theorem Calm.left {first second : List (Token κ (α × Bool))} (calm : Calm spell char (first++second)) :
    Calm spell char first where
  solid := solid_left calm.solid
  apart := apart_left calm.apart
  closes := closes_left calm.closes
  covers := ((covers_append _ _ _).mp calm.covers).1

include spelling

theorem Calm.block {before middle after : List (Token κ (α × Bool))} {k : κ} {x y : List (α × Bool)}
    (fresh : ¬Has (.closing k) middle)
    (calm : Calm spell char (before++.tag (.opening k) x::(middle++.tag (.closing k) y::after))) :
    Calm spell char (before++after) where
  solid := solid_block spelling calm.solid calm.apart
  apart := apart_block calm.apart
  closes := closes_block fresh calm.closes
  covers := covers_block _ calm.closes fresh calm.covers

theorem Calm.cut {tokens : List (Token κ (α × Bool))} {k : κ} {c : Char} {closing : List Char}
    (spelt : spell (.closing k) = c::closing) (calm : Calm spell char tokens) :
    ∃ left, cutBlocks (fun a => char a.1) (spell (.opening k)) c closing (flatten tokens) = flatten left ∧
      Calm spell char left ∧ ¬Has (.opening k) left ∧ ∀ t, Has t left → Has t tokens := by
  induction length : tokens.length using Nat.strong_induction_on generalizing tokens with
  | _ n ih =>
    subst length
    by_cases opened : Has (.opening k) tokens
    · obtain ⟨before,x,rest,rfl,first⟩ := has_split opened
      have placed := place_tag spelling calm.solid first
      by_cases closed : Has (.closing k) rest
      · obtain ⟨middle,y,after,rfl,fresh⟩ := has_split closed
        have later := solid_right calm.solid
        have unended : ¬Has (.closing k) (.tag (.opening k) x::middle) := by simp [fresh]
        have ended := place_tag spelling (by simpa using later) unended
        have word : y.length = closing.length+1 := by
          have same := congrArg List.length (solid_right later.2).1
          simpa [spelt] using same
        rw [spelt] at ended
        obtain ⟨left,cut,calm',none,kept⟩ := ih (before++after).length (by simp; omega) (calm.block spelling fresh) rfl
        refine ⟨left,?_,calm',none,?_⟩
        · rw [cutBlocks_block placed ended,← cut,flatten_append,flatten_tag,← word,List.drop_left]
        · intro t has
          have there := kept t has
          simp only [has_append,has_tag] at there ⊢
          tauto
      · have ended := place_absent spelling (t := .closing k) (solid_right calm.solid) (by simp [closed])
        rw [spelt] at ended
        refine ⟨before,?_,calm.left,first,fun t has => (has_append _ _ _).mpr (.inl has)⟩
        exact cutBlocks_open placed ended
    · refine ⟨tokens,?_,calm,opened,fun _ => id⟩
      exact cutBlocks_none (place_absent spelling calm.solid opened)

theorem Calm.unmarked {tokens : List (Token κ (α × Bool))} (calm : Calm spell char tokens)
    (none : ∀ k, ¬Has (.opening k) tokens) :
    (∀ a ∈ flatten tokens, a.2 = false) ∧ ∀ k, ¬spell (.opening k) <:+: (flatten tokens).map fun a => char a.1 := by
  refine ⟨covers_unopened none (fun _ => rfl) calm.covers,?_⟩
  intro k
  obtain ⟨body,begins,_⟩ := spelling.begins (.opening k)
  exact place_none (by rw [begins]; simp) (place_absent spelling calm.solid (none k))

end Calm

/-! Tokens of characters that carry something along. -/

section Map
variable {β : Type} (f : α → β)

def Token.map : Token κ α → Token κ β
  | .plain a => .plain (f a)
  | .tag t text => .tag t (text.map f)

theorem flatten_map (tokens : List (Token κ α)) : flatten (tokens.map (Token.map f)) = (flatten tokens).map f := by
  induction tokens with
  | nil => rfl
  | cons token tokens ih =>
    cases token with
    | plain a => simp [Token.map,ih]
    | tag t text => simp [Token.map,ih]

@[simp] theorem has_map (t : Tag κ) (tokens : List (Token κ α)) : Has t (tokens.map (Token.map f)) ↔ Has t tokens := by
  induction tokens with
  | nil => simp
  | cons token tokens ih =>
    cases token with
    | plain a => simp [Token.map,ih]
    | tag t' text => simp [Token.map,ih]

variable {f} {spell : Tag κ → List Char} {char : β → Char} {tokens : List (Token κ α)}

theorem solid_map (solid : Solid spell char (tokens.map (Token.map f))) : Solid spell (fun a => char (f a)) tokens := by
  induction tokens with
  | nil => trivial
  | cons token tokens ih =>
    cases token with
    | plain a =>
      refine ⟨?_,ih solid.2⟩
      intro t begins
      apply solid.1 t
      rw [flatten_map]
      simpa [Function.comp_def] using begins
    | tag t text => exact ⟨by simpa [Function.comp_def] using solid.1,ih solid.2⟩

theorem apart_map (apart : Apart spell char (tokens.map (Token.map f))) : Apart spell (fun a => char (f a)) tokens := by
  rintro run a t ⟨k,x,front⟩ ⟨j,y,behind⟩ begins
  have front' : Front (tokens.map (Token.map f)) (run.map f) :=
    ⟨k,x.map f,by simpa [Token.map,Function.comp_def] using front.map (Token.map f)⟩
  have behind' : Behind (tokens.map (Token.map f)) (f a) := ⟨j,y.map f,behind.map (Token.map f)⟩
  have none := apart (run.map f) (f a) t front' behind' (by simpa [Function.comp_def] using begins)
  exact List.map_eq_nil_iff.mp none

theorem closes_map (closes : Closes (tokens.map (Token.map f))) : Closes tokens := by
  rintro k before x middle y after rfl fresh j inner z outer rfl
  have closed := closes k (before.map (Token.map f)) (x.map f)
    ((inner++.tag (.opening j) z::outer).map (Token.map f)) (y.map f) (after.map (Token.map f)) (by simp [Token.map])
    (by rwa [has_map]) j (inner.map (Token.map f)) (z.map f) (outer.map (Token.map f)) (by simp [Token.map])
  rwa [has_map] at closed

end Map

theorem enclosed_erased [DecidableEq κ] [Fintype κ] (depth : κ → ℕ) (tokens : List (Token κ α)) :
    (enclosed depth tokens).map (Token.map Prod.fst) = tokens := by
  induction tokens generalizing depth with
  | nil => rfl
  | cons token tokens ih =>
    cases token with
    | plain a => rw [enclosed,List.map_cons,ih]; rfl
    | tag t text =>
      cases t with
      | opening k => rw [enclosed,List.map_cons,ih]; simp [Token.map,Function.comp_def]
      | closing k => rw [enclosed]; simp only [List.map_cons,ih]; simp [Token.map,Function.comp_def]

theorem calm_enclosed [DecidableEq κ] [Fintype κ] {spell : Tag κ → List Char} {char : α → Char}
    {tokens : List (Token κ α)} (solid : Solid spell char tokens) (apart : Apart spell char tokens)
    (closes : Closes tokens) : Calm spell char (enclosed (fun _ => 0) tokens) where
  solid := solid_map (by rwa [enclosed_erased])
  apart := apart_map (by rwa [enclosed_erased])
  closes := closes_map (by rwa [enclosed_erased])
  covers := by
    have whole : Closes ([]++tokens) := closes
    exact enclosed_covered whole fun _ => .inl rfl

/-! Whether blocks close what they open and nothing that is left when they are taken out is a tag, for tokens that are not
marked yet. -/

section Decide
variable [DecidableEq κ]

def Token.isTag (t : Tag κ) : Token κ α → Bool
  | .plain _ => false
  | .tag t' _ => decide (t = t')

theorem any_isTag (t : Tag κ) (tokens : List (Token κ α)) : tokens.any (Token.isTag t) = true ↔ Has t tokens := by
  rw [List.any_eq_true]
  constructor
  · rintro ⟨token,member,same⟩
    cases token with
    | plain a => cases same
    | tag t' text =>
      cases of_decide_eq_true same
      exact ⟨text,member⟩
  · rintro ⟨text,member⟩
    exact ⟨_,member,by simp [Token.isTag]⟩

/-- Whether every opening tag among some tokens has a closing one behind it. -/
def closed (tokens : List (Token κ α)) : Bool :=
  tokens.tails.all fun
    | .tag (.opening k) _::outer => outer.any (Token.isTag (.closing k))
    | _ => true

def closes (tokens : List (Token κ α)) : Bool :=
  tokens.tails.all fun
    | .tag (.opening k) _::rest => !rest.any (Token.isTag (.closing k)) ||
        closed (rest.takeWhile fun token => !token.isTag (.closing k))
    | _ => true

theorem closes_sound {tokens : List (Token κ α)} (sound : closes tokens = true) : Closes tokens := by
  rintro k before x middle y after rfl fresh j inner z outer rfl
  have here := List.all_eq_true.mp sound (.tag (.opening k) x::(inner++.tag (.opening j) z::outer++.tag (.closing k) y::after))
    ((List.mem_tails _ _).mpr (List.suffix_append _ _))
  have has : (inner++.tag (.opening j) z::outer++.tag (.closing k) y::after).any (Token.isTag (.closing k)) = true := by
    rw [any_isTag]
    simp
  have plain : ∀ token ∈ inner++.tag (.opening j) z::outer, (!token.isTag (.closing k)) = true := by
    intro token member
    cases token with
    | plain a => rfl
    | tag t text =>
      rw [Bool.not_eq_true',Token.isTag,decide_eq_false_iff_not]
      rintro rfl
      exact fresh ⟨text,member⟩
  have block : (inner++.tag (.opening j) z::outer++.tag (.closing k) y::after).takeWhile
      (fun token => !token.isTag (.closing k)) = inner++.tag (.opening j) z::outer := by
    rw [List.takeWhile_append_of_pos plain,List.takeWhile_cons_of_neg (by simp [Token.isTag]),List.append_nil]
  dsimp only at here
  rw [has,block,Bool.not_true,Bool.false_or] at here
  have last := List.all_eq_true.mp here (.tag (.opening j) z::outer) ((List.mem_tails _ _).mpr (List.suffix_append _ _))
  exact (any_isTag _ _).mp last

/-- The runs of characters in front of opening tags. -/
def fronts : List α → List (Token κ α) → List (List α)
  | _,[] => []
  | run,.plain a::rest => fronts (run++[a]) rest
  | run,.tag (.opening _) _::rest => run::fronts [] rest
  | _,.tag (.closing _) _::rest => fronts [] rest

/-- The characters behind closing tags. -/
def behinds (tokens : List (Token κ α)) : List α :=
  tokens.tails.filterMap fun
    | .tag (.closing _) _::.plain a::_ => some a
    | _ => none

omit [DecidableEq κ] in
theorem behinds_sound {tokens : List (Token κ α)} {a : α} (behind : Behind tokens a) : a ∈ behinds tokens := by
  obtain ⟨k,text,before,after,rfl⟩ := behind
  refine List.mem_filterMap.mpr ⟨.tag (.closing k) text::.plain a::after,(List.mem_tails _ _).mpr ⟨before,by simp⟩,rfl⟩

omit [DecidableEq κ] in
theorem front_exact (run : List α) {found : List α} {k : κ} {t : Tag κ} {x y : List α} {rest : List (Token κ α)}
    (begins : found.map Token.plain++[.tag (.opening k) x] <+: run.map Token.plain++.tag t y::rest) :
    t = .opening k ∧ found = run := by
  induction run generalizing found with
  | nil =>
    cases found with
    | nil =>
      obtain ⟨same,_⟩ := List.cons_prefix_cons.mp begins
      cases same
      exact ⟨rfl,rfl⟩
    | cons b found => cases (List.cons_prefix_cons.mp begins).1
  | cons a run ih =>
    cases found with
    | nil => cases (List.cons_prefix_cons.mp begins).1
    | cons b found =>
      obtain ⟨same,later⟩ := List.cons_prefix_cons.mp begins
      cases same
      obtain ⟨opened,rfl⟩ := ih later
      exact ⟨opened,rfl⟩

omit [DecidableEq κ] in
theorem front_splits {run found : List α} {k : κ} {t : Tag κ} {x y : List α} {rest : List (Token κ α)}
    (inside : found.map Token.plain++[.tag (.opening k) x] <:+: run.map Token.plain++.tag t y::rest) :
    (t = .opening k ∧ found <:+ run) ∨ found.map Token.plain++[.tag (.opening k) x] <:+: rest := by
  induction run with
  | nil =>
    rcases List.infix_cons_iff.mp inside with here | later
    · obtain ⟨opened,rfl⟩ := front_exact [] here
      exact .inl ⟨opened,List.suffix_refl _⟩
    · exact .inr later
  | cons a run ih =>
    rcases List.infix_cons_iff.mp inside with here | later
    · obtain ⟨opened,rfl⟩ := front_exact (a::run) here
      exact .inl ⟨opened,List.suffix_refl _⟩
    · rcases ih later with ⟨opened,within⟩ | rest
      · exact .inl ⟨opened,within.trans (List.suffix_cons a run)⟩
      · exact .inr rest

omit [DecidableEq κ] in
theorem fronts_sound (run : List α) {found : List α} {k : κ} {x : List α} {tokens : List (Token κ α)}
    (inside : found.map Token.plain++[.tag (.opening k) x] <:+: run.map Token.plain++tokens) :
    ∃ front ∈ fronts run tokens, found <:+ front := by
  induction tokens generalizing run with
  | nil =>
    have member := inside.subset (List.mem_append_right _ (List.mem_singleton_self _))
    simp at member
  | cons token tokens ih =>
    cases token with
    | plain a => exact ih (run++[a]) (by simpa using inside)
    | tag t y =>
      rcases front_splits inside with ⟨rfl,within⟩ | later
      · exact ⟨run,List.mem_cons_self,within⟩
      · obtain ⟨front,member,within⟩ := ih [] (by simpa using later)
        refine ⟨front,?_,within⟩
        cases t with
        | opening j => exact List.mem_cons_of_mem _ member
        | closing j => exact member

variable (spell : Tag κ → List Char) (tags : List (Tag κ)) (char : α → Char)

/-- Whether nothing in front of an opening tag is the beginning of a tag that the character behind a closing tag goes on
with. -/
def apart (tokens : List (Token κ α)) : Bool :=
  (fronts [] tokens).all fun front => front.tails.all fun run => (behinds tokens).all fun a => tags.all fun t =>
    run.isEmpty || !decide (run.map char++[char a] <+: spell t)

variable {spell tags char}

omit [DecidableEq κ] in
theorem apart_sound (all : ∀ t, t ∈ tags) {tokens : List (Token κ α)} (sound : apart spell tags char tokens = true) :
    Apart spell char tokens := by
  intro run a t standing behind begins
  obtain ⟨k,text,inside⟩ := standing
  obtain ⟨front,member,ends⟩ := fronts_sound [] (by simpa using inside)
  have there := List.all_eq_true.mp sound front member
  have here := List.all_eq_true.mp there run ((List.mem_tails _ _).mpr ends)
  have char' := List.all_eq_true.mp here a (behinds_sound behind)
  have tag := List.all_eq_true.mp char' t (all t)
  simpa [begins] using tag

end Decide
end ATape.Foundation.Tags
