import Mathlib.Algebra.Order.Ring.Int
import Mathlib.Data.List.Basic
import Mathlib.Data.List.Sort
import Mathlib.Data.Prod.Lex
import Mathlib.Tactic.Ring

/-! Half-open spans of a text: the first of an ordered list that ends after a place,
the union of overlapping ones, and the replacement of some of them in a text. -/
namespace ATape.Foundation

structure Span (π : Type) where
  start : Nat
  finish : Nat
  mark : π

namespace Span
variable {π π' : Type}

def Inside (s : Span π) (r : Span π') : Prop := r.start ≤ s.start ∧ s.finish ≤ r.finish

/-- One after the other. -/
def Before (s : Span π) (r : Span π') : Prop := s.finish ≤ r.start

/-- The number of spans, between two bounds, that end no later than a place. -/
def search (spans : List (Span π)) (place : Nat) : Nat → Nat → Nat → Nat
  | 0,low,_ => low
  | fuel+1,low,high =>
    if low < high then
      if (spans[(low+high)/2]?).any fun s => s.finish ≤ place then search spans place fuel ((low+high)/2+1) high
      else search spans place fuel low ((low+high)/2)
    else low

theorem search_spec {spans : List (Span π)} {place : Nat} (ordered : spans.Pairwise fun a b => a.finish ≤ b.finish)
    (fuel low high : Nat) (enough : high-low < fuel) (bounded : high ≤ spans.length) (order : low ≤ high)
    (before : ∀ i s, i < low → spans[i]? = some s → s.finish ≤ place)
    (after : ∀ i s, high ≤ i → spans[i]? = some s → place < s.finish) :
    (∀ i s, i < search spans place fuel low high → spans[i]? = some s → s.finish ≤ place) ∧
      ∀ i s, search spans place fuel low high ≤ i → spans[i]? = some s → place < s.finish := by
  have monotone : ∀ (i j : Nat) (s r : Span π), i ≤ j → spans[i]? = some s → spans[j]? = some r → s.finish ≤ r.finish := by
    intro i j s r below at_i at_j
    obtain ⟨inside,rfl⟩ := List.getElem?_eq_some_iff.mp at_i
    obtain ⟨inside',rfl⟩ := List.getElem?_eq_some_iff.mp at_j
    rcases Nat.lt_or_eq_of_le below with strict | same
    · exact List.pairwise_iff_getElem.mp ordered i j inside inside' strict
    · subst same
      exact Nat.le_refl _
  induction fuel generalizing low high with
  | zero => omega
  | succ fuel ih =>
    unfold search
    split
    next open_ =>
      have inside : (low+high)/2 < spans.length := by omega
      have here : spans[(low+high)/2]? = some (spans[(low+high)/2]) := List.getElem?_eq_getElem inside
      split
      next early =>
        rw [here,Option.any_some,decide_eq_true_eq] at early
        apply ih _ _ (by omega) bounded (by omega) _ after
        intro i s below found
        have := monotone i ((low+high)/2) s _ (by omega) found here
        omega
      next late =>
        rw [here,Option.any_some,decide_eq_true_eq] at late
        apply ih _ _ (by omega) (by omega) (by omega) before
        intro i s above found
        have := monotone ((low+high)/2) i _ s above here found
        omega
    next closed =>
      have same : low = high := by omega
      subst same
      exact ⟨before,after⟩

theorem search_parts {spans : List (Span π)} (place : Nat) (ordered : spans.Pairwise fun a b => a.finish ≤ b.finish) :
    (∀ s ∈ spans.take (search spans place (spans.length+1) 0 spans.length), s.finish ≤ place) ∧
      ∀ s ∈ spans.drop (search spans place (spans.length+1) 0 spans.length), place < s.finish := by
  obtain ⟨early,late⟩ := search_spec ordered (spans.length+1) 0 spans.length (by omega)
    (Nat.le_refl _) (Nat.zero_le _) (fun i s none => absurd none (Nat.not_lt_zero i))
    (by
      intro i s past found
      rw [List.getElem?_eq_none past] at found
      cases found)
  refine ⟨?_,?_⟩
  · intro s member
    obtain ⟨i,found⟩ := List.getElem?_of_mem member
    rw [List.getElem?_take] at found
    split at found
    next below => exact early i s below found
    next => cases found
  · intro s member
    obtain ⟨i,found⟩ := List.getElem?_of_mem member
    rw [List.getElem?_drop] at found
    exact late _ s (Nat.le_add_right _ _) found

/-! Unions of overlapping spans -/

def absorb (join : π → π → π) : List (Span π) → Span π → List (Span π)
  | [],span => [span]
  | prior::others,span =>
    if span.start < prior.finish then
      {prior with finish := max prior.finish span.finish, mark := join prior.mark span.mark}::others
    else span::prior::others

theorem absorb_cons (join : π → π → π) (prior span : Span π) (others : List (Span π)) :
    absorb join (prior::others) span = if span.start < prior.finish then
      {prior with finish := max prior.finish span.finish, mark := join prior.mark span.mark}::others
    else span::prior::others := rfl

def merge (join : π → π → π) (spans : List (Span π)) : List (Span π) := (spans.foldl (absorb join) []).reverse

/-- A region is the union of spans that overlap: it starts and ends where one does,
and no place within it separates them. -/
structure Joined (spans : List (Span π)) (region : Span π') : Prop where
  starts : ∃ s ∈ spans, s.start = region.start ∧ s.Inside region
  finishes : ∃ s ∈ spans, s.finish = region.finish ∧ s.Inside region
  linked : ∀ p, region.start < p → p < region.finish → ∃ s ∈ spans, s.Inside region ∧ s.start < p ∧ p < s.finish

theorem Joined.mono {spans others : List (Span π)} {region : Span π'} (joined : Joined spans region)
    (part : spans ⊆ others) : Joined others region := by
  obtain ⟨⟨s,member,starts⟩,⟨s',member',finishes⟩,linked⟩ := joined
  refine ⟨⟨s,part member,starts⟩,⟨s',part member',finishes⟩,?_⟩
  intro p above below
  obtain ⟨s,member,place⟩ := linked p above below
  exact ⟨s,part member,place⟩

theorem Joined.covers {spans : List (Span π)} {region : Span π'} (joined : Joined spans region)
    (filled : ∀ s ∈ spans, s.start < s.finish) {p : Nat} (above : region.start ≤ p) (below : p < region.finish) :
    ∃ s ∈ spans, s.Inside region ∧ s.start ≤ p ∧ p < s.finish := by
  by_cases first : p = region.start
  · obtain ⟨s,member,starts,inside⟩ := joined.starts
    have := filled s member
    exact ⟨s,member,inside,by omega,by omega⟩
  · obtain ⟨s,member,inside,after,before⟩ := joined.linked p (by omega) below
    exact ⟨s,member,inside,by omega,before⟩

structure Merged (spans regions : List (Span π)) : Prop where
  apart : regions.Pairwise fun later earlier => earlier.Before later
  inside : ∀ s ∈ spans, ∃ r ∈ regions, s.Inside r
  joined : ∀ r ∈ regions, Joined spans r

theorem Joined.single {spans : List (Span π)} {span : Span π} (member : span ∈ spans) : Joined spans span :=
  ⟨⟨span,member,rfl,Nat.le_refl _,Nat.le_refl _⟩,⟨span,member,rfl,Nat.le_refl _,Nat.le_refl _⟩,
    fun _ above below => ⟨span,member,⟨Nat.le_refl _,Nat.le_refl _⟩,above,below⟩⟩

theorem Merged.absorb (join : π → π → π) {spans regions : List (Span π)} {span : Span π}
    (merged : Merged spans regions) (ordered : ∀ s ∈ spans, s.start ≤ span.start) :
    Merged (spans++[span]) (absorb join regions span) := by
  have old : spans ⊆ spans++[span] := List.subset_append_left _ _
  have last : span ∈ spans++[span] := by simp
  cases regions with
  | nil =>
    refine ⟨List.pairwise_singleton _ _,?_,?_⟩
    · intro s member
      rcases List.mem_append.mp member with before | new
      · obtain ⟨r,none,_⟩ := merged.inside s before
        cases none
      · exact ⟨span,List.mem_singleton_self _,by rw [List.mem_singleton.mp new]; exact ⟨Nat.le_refl _,Nat.le_refl _⟩⟩
    · intro r member
      rw [List.mem_singleton.mp member]
      exact .single last
  | cons prior others =>
    obtain ⟨⟨s,member,starts,_⟩,_,_⟩ := merged.joined prior List.mem_cons_self
    have first := ordered s member
    obtain ⟨below,rest⟩ := List.pairwise_cons.mp merged.apart
    rw [absorb_cons]
    split
    next meets =>
      refine ⟨List.pairwise_cons.mpr ⟨fun r earlier => below r earlier,rest⟩,?_,?_⟩
      · intro s member
        rcases List.mem_append.mp member with before | new
        · obtain ⟨r,known,inside⟩ := merged.inside s before
          rcases List.mem_cons.mp known with rfl | earlier
          · exact ⟨_,List.mem_cons_self,inside.1,inside.2.trans (Nat.le_max_left _ _)⟩
          · exact ⟨r,List.mem_cons_of_mem _ earlier,inside⟩
        · rw [List.mem_singleton.mp new]
          refine ⟨_,List.mem_cons_self,?_,Nat.le_max_right _ _⟩
          change prior.start ≤ span.start
          omega
      · intro r member
        rcases List.mem_cons.mp member with rfl | earlier
        · obtain ⟨⟨a,known,first',inside⟩,⟨b,known',final,inside'⟩,linked⟩ := merged.joined prior List.mem_cons_self
          have wider : ∀ s : Span π, s.Inside prior → s.Inside
              {prior with finish := max prior.finish span.finish, mark := join prior.mark span.mark} :=
            fun s inside => ⟨inside.1,inside.2.trans (Nat.le_max_left _ _)⟩
          have within : span.Inside
              {prior with finish := max prior.finish span.finish, mark := join prior.mark span.mark} := by
            refine ⟨?_,Nat.le_max_right _ _⟩
            change prior.start ≤ span.start
            omega
          refine ⟨⟨a,old known,first',wider a inside⟩,?_,?_⟩
          · by_cases longer : prior.finish ≤ span.finish
            · exact ⟨span,last,(Nat.max_eq_right longer).symm,within⟩
            · exact ⟨b,old known',final.trans (Nat.max_eq_left (by omega)).symm,wider b inside'⟩
          · intro p above before
            change prior.start < p at above
            change p < max prior.finish span.finish at before
            by_cases early : p < prior.finish
            · obtain ⟨s,known,inside,place⟩ := linked p above early
              exact ⟨s,old known,wider s inside,place⟩
            · exact ⟨span,last,within,by omega,by omega⟩
        · exact (merged.joined r (List.mem_cons_of_mem _ earlier)).mono old
    next apart =>
      refine ⟨List.pairwise_cons.mpr ⟨?_,merged.apart⟩,?_,?_⟩
      · intro r member
        change r.finish ≤ span.start
        rcases List.mem_cons.mp member with rfl | earlier
        · omega
        · have gap : r.finish ≤ prior.start := below r earlier
          omega
      · intro s member
        rcases List.mem_append.mp member with before | new
        · obtain ⟨r,known,inside⟩ := merged.inside s before
          exact ⟨r,List.mem_cons_of_mem _ known,inside⟩
        · rw [List.mem_singleton.mp new]
          exact ⟨span,List.mem_cons_self,Nat.le_refl _,Nat.le_refl _⟩
      · intro r member
        rcases List.mem_cons.mp member with rfl | earlier
        · exact .single last
        · exact (merged.joined r earlier).mono old

/-- Spans in the order of their starts are merged into regions one after the other,
which hold every span and are each a union of overlapping ones. -/
theorem merge_spec (join : π → π → π) {spans : List (Span π)}
    (ordered : spans.Pairwise fun a b => a.start ≤ b.start) :
    (merge join spans).Pairwise Before ∧ (∀ s ∈ spans, ∃ r ∈ merge join spans, s.Inside r) ∧
      ∀ r ∈ merge join spans, Joined spans r := by
  have folded : ∀ (later earlier regions : List (Span π)), Merged earlier regions →
      (earlier++later).Pairwise (fun a b => a.start ≤ b.start) →
      Merged (earlier++later) (later.foldl (Span.absorb join) regions) := by
    intro later
    induction later with
    | nil =>
      intro earlier regions merged _
      rwa [List.append_nil]
    | cons span later ih =>
      intro earlier regions merged order
      have regroup : earlier++span::later = (earlier++[span])++later := by simp
      rw [regroup] at order ⊢
      apply ih _ _ (merged.absorb join _) order
      intro s member
      exact (List.pairwise_append.mp (List.pairwise_append.mp order).1).2.2 s member span (List.mem_singleton_self _)
  have start : Merged ([] : List (Span π)) [] := by
    constructor <;> simp
  have done := folded spans [] [] start ordered
  refine ⟨List.pairwise_reverse.mpr done.apart,?_,?_⟩
  · intro s member
    obtain ⟨r,known,inside⟩ := done.inside s member
    exact ⟨r,List.mem_reverse.mpr known,inside⟩
  · intro r member
    exact done.joined r (List.mem_reverse.mp member)

theorem Joined.remark {ρ ρ' : Type} {spans : List (Span π)} {region : Span π'} (joined : Joined spans region)
    (f : Span π → ρ) (mark : ρ') :
    Joined (spans.map fun s => ⟨s.start,s.finish,f s⟩) (⟨region.start,region.finish,mark⟩ : Span ρ') := by
  obtain ⟨⟨a,first,starts,inside⟩,⟨b,last,finishes,inside'⟩,linked⟩ := joined
  refine ⟨⟨_,List.mem_map.mpr ⟨a,first,rfl⟩,starts,inside⟩,⟨_,List.mem_map.mpr ⟨b,last,rfl⟩,finishes,inside'⟩,?_⟩
  intro p above below
  obtain ⟨s,member,within,place⟩ := linked p above below
  exact ⟨_,List.mem_map.mpr ⟨s,member,rfl⟩,within,place⟩

theorem merge_mark {join : π → π → π} {P : π → Prop} (keep : ∀ a b, P a → P b → P (join a b)) {spans : List (Span π)}
    (each : ∀ s ∈ spans, P s.mark) : ∀ r ∈ merge join spans, P r.mark := by
  have folded : ∀ (later regions : List (Span π)), (∀ s ∈ later, P s.mark) → (∀ r ∈ regions, P r.mark) →
      ∀ r ∈ later.foldl (absorb join) regions, P r.mark := by
    intro later
    induction later with
    | nil => exact fun regions _ kept => kept
    | cons span later ih =>
      intro regions marks kept
      have own := marks span List.mem_cons_self
      apply ih _ fun s member => marks s (List.mem_cons_of_mem _ member)
      cases regions with
      | nil =>
        intro r member
        rw [List.mem_singleton.mp member]
        exact own
      | cons prior others =>
        have first := kept prior List.mem_cons_self
        rw [absorb_cons]
        split
        · intro r member
          rcases List.mem_cons.mp member with rfl | earlier
          · exact keep _ _ first own
          · exact kept r (List.mem_cons_of_mem _ earlier)
        · intro r member
          rcases List.mem_cons.mp member with rfl | earlier
          · exact own
          · exact kept r earlier
  intro r member
  exact folded spans [] each (fun r none => absurd none List.not_mem_nil) r (List.mem_reverse.mp member)

/-! Replacement -/

/-- A text from a place on, with some spans cut out of it, each replaced by its
mark; the runs that are kept come with their places. -/
inductive Replaced {α : Type} :
    Nat → List α → List (Span (List α)) → List (Nat × List α) → List α → Prop
  | done (place rest) : Replaced place rest [] [(place,rest)] rest
  | cut (place kept lost rest region regions runs output) (starts : region.start = place+kept.length)
      (finishes : region.finish = region.start+lost.length) (later : Replaced region.finish rest regions runs output) :
      Replaced place (kept++(lost++rest)) (region::regions) ((place,kept)::runs) (kept++(region.mark++output))

theorem Replaced.whole {α : Type} {place : Nat} {input output : List α} {runs : List (Nat × List α)}
    (replaced : Replaced place input [] runs output) : (place,input) ∈ runs := by
  cases replaced with
  | done => exact List.mem_singleton_self _

theorem Replaced.apart {α : Type} {place : Nat} {input output : List α} {regions : List (Span (List α))}
    {runs : List (Nat × List α)} (replaced : Replaced place input regions runs output) :
    (∀ r ∈ regions, place ≤ r.start ∧ r.start ≤ r.finish) ∧ ∀ run ∈ runs, place ≤ run.1 ∧
      ∀ r ∈ regions, r.finish ≤ run.1 ∨ run.1+run.2.length ≤ r.start := by
  induction replaced with
  | done place rest =>
    refine ⟨fun r none => absurd none List.not_mem_nil,?_⟩
    intro run member
    rw [List.mem_singleton.mp member]
    exact ⟨Nat.le_refl _,fun r none => absurd none List.not_mem_nil⟩
  | cut place kept lost rest region regions runs output starts finishes _ ih =>
    obtain ⟨bounds,apart⟩ := ih
    refine ⟨?_,?_⟩
    · intro r member
      rcases List.mem_cons.mp member with rfl | later
      · omega
      · have := bounds r later
        omega
    · intro run member
      rcases List.mem_cons.mp member with rfl | later
      · refine ⟨Nat.le_refl _,?_⟩
        intro r member
        rcases List.mem_cons.mp member with rfl | later
        · exact .inr (by rw [starts])
        · have := bounds r later
          exact .inr (by change place+kept.length ≤ r.start; omega)
      · obtain ⟨above,others⟩ := apart run later
        refine ⟨by omega,?_⟩
        intro r member
        rcases List.mem_cons.mp member with rfl | later'
        · exact .inl above
        · exact others r later'

theorem Replaced.run {α : Type} {place : Nat} {input output : List α} {regions : List (Span (List α))}
    {runs : List (Nat × List α)} (replaced : Replaced place input regions runs output) {run : Nat × List α}
    (member : run ∈ runs) : run.2 <+: input.drop (run.1-place) := by
  induction replaced with
  | done place rest =>
    rw [List.mem_singleton.mp member,Nat.sub_self]
    exact List.prefix_rfl
  | cut place kept lost rest region regions runs output starts finishes later ih =>
    rcases List.mem_cons.mp member with rfl | inside
    · rw [Nat.sub_self]
      exact List.prefix_append _ _
    · have above := (later.apart.2 run inside).1
      have size : (kept++lost).length = region.finish-place := by
        rw [List.length_append]
        omega
      have split : run.1-place = (kept++lost).length+(run.1-region.finish) := by omega
      rw [split,← List.append_assoc,List.drop_append,List.drop_of_length_le (by omega),List.nil_append]
      have rest' : (kept++lost).length+(run.1-region.finish)-(kept++lost).length = run.1-region.finish := by omega
      rw [rest']
      exact ih inside

end Span
end ATape.Foundation
