import ATape.Foundation.Entries
import ATape.Foundation.Grouping
import Mathlib.Data.Prod.Lex

/-! What a loop computes when its input comes in no fixed order. A fold does not see the order when its
steps commute, a sort does not see it when no two elements tie. -/
namespace ATape.Foundation

/-- The order in which the loops over a map visit its entries. Every loop has an order of its own. -/
structure MapOrder where
  visit : ℕ → {α : Type} → List α → List α
  perm : ∀ (loop : ℕ) {α : Type} (entries : List α), (visit loop entries).Perm entries

namespace MapOrder

/-- Every loop visits the entries in the order of the table. -/
def same : MapOrder := ⟨fun _ _ entries => entries,fun _ _ _ => List.Perm.refl _⟩

def reverse : MapOrder := ⟨fun _ _ entries => entries.reverse,fun _ _ entries => List.reverse_perm entries⟩

end MapOrder

section Folds
variable {α β γ σ : Type} (view : σ → β) {step : σ → α → σ}

theorem foldl_pick {pick : α → Option γ} (put : β → γ → β)
    (one : ∀ s a, view (step s a) = (pick a).elim (view s) (put (view s))) (as : List α) (s : σ) :
    view (as.foldl step s) = (as.filterMap pick).foldl put (view s) := by
  induction as generalizing s with
  | nil => rfl
  | cons a as ih =>
    rw [List.foldl_cons,ih,one,List.filterMap_cons]
    cases pick a <;> rfl

theorem foldl_keeps (keeps : ∀ s a, view (step s a) = view s) (as : List α) (s : σ) : view (as.foldl step s) = view s := by
  induction as generalizing s with
  | nil => rfl
  | cons a as ih => exact (ih (step s a)).trans (keeps s a)

variable (alike : ∀ s s' a, view s = view s' → view (step s a) = view (step s' a))
include alike

theorem foldl_alike (as : List α) {s s' : σ} (same : view s = view s') :
    view (as.foldl step s) = view (as.foldl step s') := by
  induction as generalizing s s' with
  | nil => exact same
  | cons a as ih => exact ih (alike s s' a same)

theorem foldl_perm_view {as as' : List α} (perm : as.Perm as')
    (swap : ∀ a ∈ as, ∀ b ∈ as, ∀ s, view (step (step s a) b) = view (step (step s b) a)) (s : σ) :
    view (as.foldl step s) = view (as'.foldl step s) := by
  induction perm generalizing s with
  | nil => rfl
  | cons a _ ih =>
    apply ih
    intro b member c member'
    exact swap b (List.mem_cons_of_mem _ member) c (List.mem_cons_of_mem _ member')
  | swap a b as =>
    simp only [List.foldl_cons]
    exact foldl_alike view alike as (swap b (by simp) a (by simp) s)
  | trans first _ ih ih' =>
    rw [ih swap]
    apply ih'
    intro a member b member'
    exact swap a (first.mem_iff.mpr member) b (first.mem_iff.mpr member')

end Folds

section Rows
variable {κ ρ ρ' β : Type} [DecidableEq κ]

theorem Table.rows_view_perm {t : Table κ ρ} {t' : Table κ ρ'} (view : κ → ρ → β) (view' : κ → ρ' → β)
    (alike : ∀ k, (t.lookup k).map (view k) = (t'.lookup k).map (view' k)) :
    (t.rows.map fun row => (row.1,view row.1 row.2)).Perm (t'.rows.map fun row => (row.1,view' row.1 row.2)) := by
  have distinct : ∀ {ρ : Type} (t : Table κ ρ) (view : κ → ρ → β),
      (t.rows.map fun row => (row.1,view row.1 row.2)).Nodup := by
    intro ρ t view
    apply List.Nodup.of_map Prod.fst
    rw [List.map_map]
    exact Table.rows_distinct t
  have member : ∀ {ρ : Type} (t : Table κ ρ) (view : κ → ρ → β) (k : κ) (b : β),
      (k,b) ∈ (t.rows.map fun row => (row.1,view row.1 row.2)) ↔ (t.lookup k).map (view k) = some b := by
    intro ρ t view k b
    rw [List.mem_map,Option.map_eq_some_iff]
    constructor
    · intro found
      obtain ⟨⟨k',r⟩,held,same⟩ := found
      cases same
      exact ⟨r,(Table.mem_rows _ _ _).mp held,rfl⟩
    · intro found
      obtain ⟨r,held,same⟩ := found
      exact ⟨(k,r),(Table.mem_rows _ _ _).mpr held,by rw [same]⟩
  rw [List.perm_ext_iff_of_nodup (distinct t view) (distinct t' view')]
  intro row
  obtain ⟨k,b⟩ := row
  rw [member,member,alike]

end Rows

section Groups
variable {κ ρ γ β : Type} [DecidableEq κ] {key : ρ → κ} {start : γ} {add : γ → ρ → γ}

theorem grouped_perm {rs rs' : List ρ} (perm : rs.Perm rs') {view : γ → β}
    (alike : ∀ k, view ((rs.filter fun r => key r = k).foldl add start) =
      view ((rs'.filter fun r => key r = k).foldl add start)) (k : κ) :
    ((grouped key start add rs).lookup k).map view = ((grouped key start add rs').lookup k).map view := by
  have same : (rs.filter fun r => key r = k).Perm (rs'.filter fun r => key r = k) := perm.filter _
  rw [lookup_grouped,lookup_grouped]
  by_cases none_ : (rs.filter fun r => key r = k) = []
  · rw [if_pos none_,if_pos (List.nil_perm.mp (none_ ▸ same))]
  · have some_ : (rs'.filter fun r => key r = k) ≠ [] := by
      intro empty
      rw [empty] at same
      exact none_ (List.perm_nil.mp same)
    rw [if_neg none_,if_neg some_,Option.map_some,Option.map_some,alike]

end Groups

section Sorting
variable {α γ : Type} [LinearOrder γ] {less : α → α → Bool} {rank : α → γ}
  (ranks : ∀ a b, less a b = true ↔ rank a < rank b)
include ranks

theorem notLess_iff (a b : α) : (!less b a) = true ↔ rank a ≤ rank b := by
  rw [Bool.not_eq_true',← Bool.not_eq_true,ranks,not_lt]

theorem notLess_trans (a b c : α) (first : (!less b a) = true) (second : (!less c b) = true) : (!less c a) = true := by
  rw [notLess_iff ranks] at *
  exact first.trans second

theorem notLess_total (a b : α) : ((!less b a) || (!less a b)) = true := by
  rw [Bool.or_eq_true,notLess_iff ranks,notLess_iff ranks]
  exact le_total _ _

theorem mergeSort_perm_eq {as as' : List α} (perm : as.Perm as')
    (apart : ∀ a ∈ as, ∀ b ∈ as, rank a = rank b → a = b) :
    (as.mergeSort fun a b => !less b a) = as'.mergeSort fun a b => !less b a := by
  have sorted : ∀ as : List α, (as.mergeSort fun a b => !less b a).Pairwise fun a b => (!less b a) = true :=
    fun as => List.pairwise_mergeSort (notLess_trans ranks) (notLess_total ranks) as
  have same := (List.mergeSort_perm as fun a b => !less b a).trans
    (perm.trans (List.mergeSort_perm as' fun a b => !less b a).symm)
  refine List.Perm.eq_of_pairwise ?_ (sorted as) (sorted as') same
  intro a b member member' first second
  rw [notLess_iff ranks] at first second
  exact apart a (List.mem_mergeSort.mp member) b (perm.mem_iff.mpr (List.mem_mergeSort.mp member'))
    (le_antisymm first second)

theorem mergeSort_keeps {as : List α} {a b : α} (tie : rank a = rank b) (comes : [a,b].Sublist as) :
    [a,b].Sublist (as.mergeSort fun a b => !less b a) :=
  List.pair_sublist_mergeSort (notLess_trans ranks) (notLess_total ranks) ((notLess_iff ranks a b).mpr tie.le) comes

end Sorting

section Pairs
variable {α : Type}

theorem pair_sublist {as : List α} {a b : α} (apart : a ≠ b) (member : a ∈ as) (member' : b ∈ as) :
    [a,b].Sublist as ∨ [b,a].Sublist as := by
  induction as with
  | nil => cases member
  | cons c as ih =>
    rw [List.mem_cons] at member member'
    by_cases first : a = c
    · subst first
      have later := member'.resolve_left (Ne.symm apart)
      exact .inl ((List.singleton_sublist.mpr later).cons_cons _)
    · by_cases second : b = c
      · subst second
        exact .inr ((List.singleton_sublist.mpr (member.resolve_left first)).cons_cons _)
      · exact (ih (member.resolve_left first) (member'.resolve_left second)).imp (·.cons _) (·.cons _)

theorem pair_once {as : List α} {a b : α} (distinct : as.Nodup) (first : [a,b].Sublist as) : ¬[b,a].Sublist as := by
  induction as with
  | nil => cases first
  | cons c as ih =>
    obtain ⟨fresh,distinct⟩ := List.nodup_cons.mp distinct
    intro second
    cases first with
    | cons _ first =>
      cases second with
      | cons _ second => exact ih distinct first second
      | cons_cons _ second => exact fresh (first.subset (by simp))
    | cons_cons _ first =>
      cases second with
      | cons _ second => exact fresh (second.subset (by simp))
      | cons_cons _ second => exact fresh (first.subset (by simp))

theorem mergeSort_ties {γ : Type} [LinearOrder γ] {less : α → α → Bool} {rank : α → γ}
    (ranks : ∀ a b, less a b = true ↔ rank a < rank b) {as : List α} (distinct : as.Nodup) {a b : α} (apart : a ≠ b)
    (member : a ∈ as) (member' : b ∈ as) (tie : rank a = rank b) :
    (as.mergeSort fun a b => !less b a) ≠ as.reverse.mergeSort fun a b => !less b a := by
  intro same
  have once : (as.mergeSort fun a b => !less b a).Nodup := (List.mergeSort_perm as _).nodup_iff.mpr distinct
  have turned : ∀ {a b : α}, rank a = rank b → [a,b].Sublist as → False := by
    intro a b tie comes
    have back : [b,a].Sublist as.reverse := by
      have := comes.reverse
      simpa using this
    have first := mergeSort_keeps ranks tie comes
    have second := mergeSort_keeps ranks tie.symm back
    rw [← same] at second
    exact pair_once once first second
  cases pair_sublist apart member member' with
  | inl comes => exact turned tie comes
  | inr comes => exact turned tie.symm comes

end Pairs
end ATape.Foundation
