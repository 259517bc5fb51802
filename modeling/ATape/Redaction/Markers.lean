import ATape.Redaction.Engine
import ATape.Redaction.Links

/-! The markers that a text holds already. A marker is bracketed and has no bracket
inside, so that two of them never overlap. -/
namespace ATape.Redaction
open Foundation

/-- The form of every marker of an engine. -/
def IsMarker (marker : Text) : Prop :=
  units "[REDACTED" <+: marker ∧ ∃ body : Text, marker = 91::(body++[93]) ∧ ∀ c ∈ body, c ≠ 91 ∧ c ≠ 93

theorem IsMarker.filled {marker : Text} (form : IsMarker marker) : 2 ≤ marker.length := by
  obtain ⟨_,body,rfl,_⟩ := form
  simp

theorem IsMarker.units {marker : Text} (form : IsMarker marker) {k : Nat} {c : UInt16} (here : marker[k]? = some c) :
    (c = 91 ↔ k = 0) ∧ (c = 93 ↔ k+1 = marker.length) := by
  obtain ⟨_,body,rfl,plain⟩ := form
  cases k with
  | zero =>
    simp only [List.getElem?_cons_zero,Option.some.injEq] at here
    subst here
    simp
  | succ k =>
    rw [List.getElem?_cons_succ] at here
    rcases Nat.lt_trichotomy k body.length with inside | last | past
    · rw [List.getElem?_append_left inside] at here
      obtain ⟨open_,close⟩ := plain c (List.mem_of_getElem? here)
      simp [open_,close]
      omega
    · subst last
      rw [List.getElem?_append_right (Nat.le_refl _)] at here
      simp at here
      subst here
      simp
    · rw [List.getElem?_append_right (by omega),List.getElem?_eq_none (by rw [List.length_singleton]; omega)] at here
      cases here

theorem Occurs.getElem? {value text : Text} {start k : Nat} (occurs : Occurs value text start)
    (inside : k < value.length) : text[start+k]? = value[k]? := by
  obtain ⟨rest,split⟩ := occurs
  rw [← List.getElem?_drop,← split,List.getElem?_append_left inside]

theorem markers_apart {marker marker' text : Text} {a b : Nat} (form : IsMarker marker) (form' : IsMarker marker')
    (here : Occurs marker text a) (there : Occurs marker' text b) (order : a < b) : a+marker.length ≤ b := by
  by_contra overlap
  have inside : b-a < marker.length := by omega
  have first : 0 < marker'.length := by have := form'.filled; omega
  have opened : text[b]? = some marker'[0] := by
    have unit := there.getElem? first
    rwa [Nat.add_zero,List.getElem?_eq_getElem first] at unit
  have same := here.getElem? inside
  rw [show a+(b-a) = b by omega,opened] at same
  have bracket := (form'.units (List.getElem?_eq_getElem first)).1.mpr rfl
  have start := (form.units same.symm).1.mp bracket
  omega

theorem markers_same {marker marker' text : Text} {a : Nat} (form : IsMarker marker) (form' : IsMarker marker')
    (here : Occurs marker text a) (there : Occurs marker' text a) : marker = marker' := by
  have shorter : ∀ {m m' : Text}, IsMarker m → IsMarker m' → Occurs m text a → Occurs m' text a →
      m.length ≤ m'.length := by
    intro m m' form form' here there
    by_contra longer
    have size := form'.filled
    have last : m'.length-1 < m'.length := by omega
    have closed : m'[m'.length-1]? = some m'[m'.length-1] := List.getElem?_eq_getElem last
    have bracket := (form'.units closed).2.mpr (by omega)
    have same := (here.getElem? (show m'.length-1 < m.length by omega)).symm.trans (there.getElem? last)
    rw [closed] at same
    have finish := (form.units same).2.mp bracket
    omega
  have size : marker.length = marker'.length :=
    Nat.le_antisymm (shorter form form' here there) (shorter form' form there here)
  exact List.prefix_of_prefix_length_le here there (by omega) |>.eq_of_length size

/-! Searching a text -/

theorem indexOf_some {needle : Text} (text : Text) (position : Nat) {found : Nat}
    (here : indexOf needle text position = some found) :
    position ≤ found ∧ Occurs needle text (found-position) ∧ ∀ k < found-position, ¬ Occurs needle text k := by
  induction text generalizing position with
  | nil =>
    unfold indexOf at here
    split at here
    next empty =>
      cases here
      subst empty
      exact ⟨Nat.le_refl _,List.nil_prefix,by intro k below; omega⟩
    next => cases here
  | cons char rest ih =>
    unfold indexOf at here
    split at here
    next start =>
      cases here
      rw [Nat.sub_self]
      exact ⟨Nat.le_refl _,start,by intro k below; omega⟩
    next apart =>
      obtain ⟨after,occurs,first⟩ := ih (position+1) here
      refine ⟨by omega,?_,?_⟩
      · rw [show found-position = found-(position+1)+1 by omega]
        exact occurs
      · intro k below occurs'
        cases k with
        | zero => exact apart occurs'
        | succ k => exact first k (by omega) occurs'

theorem indexOf_none {needle : Text} (text : Text) (position : Nat) (here : indexOf needle text position = none)
    (k : Nat) : ¬ Occurs needle text k := by
  induction text generalizing position k with
  | nil =>
    unfold indexOf at here
    split at here
    next => cases here
    next filled =>
      intro occurs
      rw [Occurs,List.drop_nil,List.prefix_nil] at occurs
      exact filled occurs
  | cons char rest ih =>
    unfold indexOf at here
    split at here
    next => cases here
    next apart =>
      cases k with
      | zero => exact apart
      | succ k => exact ih (position+1) here k

theorem includes_of_occurs {needle text : Text} {k : Nat} (occurs : Occurs needle text k) :
    includes text needle = true := by
  unfold includes
  cases found : indexOf needle text 0 with
  | some place => rfl
  | none => exact absurd occurs (indexOf_none text 0 found k)

theorem Occurs.drop {needle text : Text} {offset k : Nat} :
    Occurs needle (text.drop offset) k ↔ Occurs needle text (offset+k) := by
  rw [Occurs,Occurs,List.drop_drop]

theorem markerSpans_spec {marker input : Text} (form : IsMarker marker) (fuel offset : Nat)
    (enough : input.length < fuel+offset) :
    (∀ x, x ∈ markerSpans input marker fuel offset ↔
      offset ≤ x.start ∧ Occurs marker input x.start ∧ x.finish = x.start+marker.length) ∧
      (markerSpans input marker fuel offset).Nodup := by
  have size := form.filled
  have filled : marker ≠ [] := List.length_pos_iff.mp (by omega)
  induction fuel generalizing offset with
  | zero =>
    refine ⟨?_,List.nodup_nil⟩
    intro x
    constructor
    · intro none
      cases none
    · rintro ⟨after,occurs,_⟩
      have := occurs.bounded filled
      omega
  | succ fuel ih =>
    unfold markerSpans
    cases found : indexOf marker (input.drop offset) offset with
    | none =>
      refine ⟨?_,List.nodup_nil⟩
      intro x
      constructor
      · intro none
        cases none
      · rintro ⟨after,occurs,_⟩
        exfalso
        apply indexOf_none _ _ found (x.start-offset)
        rwa [Occurs.drop,show offset+(x.start-offset) = x.start by omega]
    | some place =>
      obtain ⟨after,occurs,first⟩ := indexOf_some _ _ found
      rw [Occurs.drop,show offset+(place-offset) = place by omega] at occurs
      have bounded := occurs.bounded filled
      obtain ⟨members,distinct⟩ := ih (place+marker.length) (by omega)
      refine ⟨?_,?_⟩
      · intro x
        rw [List.mem_cons,members]
        constructor
        · rintro (rfl | ⟨later,rest⟩)
          · exact ⟨after,occurs,rfl⟩
          · exact ⟨by omega,rest⟩
        · rintro ⟨from_,here,ends⟩
          rcases Nat.lt_trichotomy x.start place with earlier | same | later
          · exfalso
            apply first (x.start-offset) (by omega)
            rwa [Occurs.drop,show offset+(x.start-offset) = x.start by omega]
          · left
            cases x
            simp_all
          · exact .inr ⟨markers_apart form form occurs here later,here,ends⟩
      · refine List.nodup_cons.mpr ⟨?_,distinct⟩
        intro member
        have := ((members _).mp member).1
        change place+marker.length ≤ place at this
        omega

def Engine.MarkerAt (engine : Engine) (input : Text) (start finish : Nat) : Prop :=
  ∃ marker ∈ engine.markers, Occurs marker input start ∧ finish = start+marker.length

/-- The markers of an engine have the form of markers. -/
def Engine.Marked (engine : Engine) : Prop := ∀ marker ∈ engine.markers, IsMarker marker

variable {engine : Engine} {input : Text}

theorem Engine.MarkerAt.filled (marked : engine.Marked) {start finish : Nat}
    (here : engine.MarkerAt input start finish) : start < finish ∧ finish ≤ input.length := by
  obtain ⟨marker,member,occurs,rfl⟩ := here
  have size := (marked marker member).filled
  have bounded := occurs.bounded (List.length_pos_iff.mp (by omega))
  omega

theorem Engine.MarkerAt.apart (marked : engine.Marked) {a b a' b' : Nat} (here : engine.MarkerAt input a b)
    (there : engine.MarkerAt input a' b') : b ≤ a' ∨ b' ≤ a ∨ (a = a' ∧ b = b') := by
  obtain ⟨marker,member,occurs,rfl⟩ := here
  obtain ⟨marker',member',occurs',rfl⟩ := there
  rcases Nat.lt_trichotomy a a' with before | same | after
  · exact .inl (markers_apart (marked _ member) (marked _ member') occurs occurs' before)
  · subst same
    rw [markers_same (marked _ member) (marked _ member') occurs occurs']
    exact .inr (.inr ⟨rfl,rfl⟩)
  · exact .inr (.inl (markers_apart (marked _ member') (marked _ member) occurs' occurs after))

theorem protectedSpans_spec (marked : engine.Marked) :
    (∀ x, x ∈ engine.protectedSpans input ↔ engine.MarkerAt input x.start x.finish) ∧
      (engine.protectedSpans input).Pairwise Span.Before := by
  have spans : ∀ marker ∈ engine.markers, (∀ x, x ∈ markerSpans input marker (input.length+1) 0 ↔
      0 ≤ x.start ∧ Occurs marker input x.start ∧ x.finish = x.start+marker.length) ∧
      (markerSpans input marker (input.length+1) 0).Nodup :=
    fun marker member => markerSpans_spec (marked marker member) (input.length+1) 0 (by omega)
  have members : ∀ x, x ∈ engine.markers.flatMap (fun marker => markerSpans input marker (input.length+1) 0) ↔
      engine.MarkerAt input x.start x.finish := by
    intro x
    rw [List.mem_flatMap]
    constructor
    · rintro ⟨marker,member,listed⟩
      obtain ⟨_,occurs,ends⟩ := ((spans marker member).1 x).mp listed
      exact ⟨marker,member,occurs,ends⟩
    · rintro ⟨marker,member,occurs,ends⟩
      exact ⟨marker,member,((spans marker member).1 x).mpr ⟨Nat.zero_le _,occurs,ends⟩⟩
  unfold Engine.protectedSpans
  split
  next present =>
    refine ⟨?_,?_⟩
    · intro x
      rw [List.mem_mergeSort,members]
    · have distinct : (engine.markers.flatMap fun marker =>
          markerSpans input marker (input.length+1) 0).Nodup := by
        rw [List.nodup_flatMap]
        refine ⟨fun marker member => (spans marker member).2,?_⟩
        have unique : engine.markers.Nodup := List.nodup_reverse.mpr (List.nodup_dedup _)
        apply unique.imp_of_mem
        intro marker marker' member member' different x first second
        obtain ⟨_,occurs,_⟩ := ((spans marker member).1 x).mp first
        obtain ⟨_,occurs',_⟩ := ((spans marker' member').1 x).mp second
        exact different (markers_same (marked _ member) (marked _ member') occurs occurs')
      generalize engine.markers.flatMap (fun marker => markerSpans input marker (input.length+1) 0) = found
        at members distinct ⊢
      have sorted : (found.mergeSort fun left right => left.start ≤ right.start).Pairwise
          fun left right => decide (left.start ≤ right.start) = true := by
        apply List.pairwise_mergeSort
        · intro a b c first second
          rw [decide_eq_true_eq] at first second ⊢
          exact first.trans second
        · intro a b
          rw [Bool.or_eq_true,decide_eq_true_eq,decide_eq_true_eq]
          exact Nat.le_total _ _
      have unique := (List.mergeSort_perm found fun left right => left.start ≤ right.start).nodup_iff.mpr distinct
      apply (sorted.and unique).imp_of_mem
      intro a b member member' both
      rw [List.mem_mergeSort,members] at member member'
      have order : a.start ≤ b.start := by simpa using both.1
      have filled := member.filled marked
      have filled' := member'.filled marked
      rcases member.apart marked member' with before | after | ⟨same,same'⟩
      · exact before
      · exact absurd after (by omega)
      · exact absurd (by cases a; cases b; simp_all) both.2
  next absent =>
    refine ⟨?_,List.Pairwise.nil⟩
    intro x
    constructor
    · intro none
      cases none
    · rintro ⟨marker,member,occurs,_⟩
      exact absurd (includes_of_occurs ((marked marker member).1.trans occurs)) absent

end ATape.Redaction
