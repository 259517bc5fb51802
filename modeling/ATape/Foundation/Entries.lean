import ATape.Foundation.Outcome
import ATape.Foundation.Table
import Mathlib.Data.List.Perm.Basic

/-! Entries that are put into a table, one after the other. When their keys differ, their order does not
count. A loop with a guard ends when what it has put together fits. -/
namespace ATape.Foundation

section Guarded
variable {α ε σ : Type}

def foldGuarded (bad : σ → α → Prop) [∀ s a, Decidable (bad s a)] (failure : ε) (step : σ → α → σ) :
    σ → List α → Except ε σ
  | s,[] => .ok s
  | s,a::as => do
    failWhen (bad s a) failure
    foldGuarded bad failure step (step s a) as

variable {bad : σ → α → Prop} [∀ s a, Decidable (bad s a)] {failure : ε} {step : σ → α → σ} (fits : σ → Prop)

theorem fits_before (back : ∀ s a, fits (step s a) → fits s) {as : List α} {s : σ} (fit : fits (as.foldl step s)) :
    fits s := by
  induction as generalizing s with
  | nil => exact fit
  | cons a as ih => exact back s a (ih fit)

theorem foldGuarded_ok (guard : ∀ s a, fits s → (bad s a ↔ ¬fits (step s a))) (back : ∀ s a, fits (step s a) → fits s)
    {as : List α} {s s' : σ} (start : fits s) :
    foldGuarded bad failure step s as = .ok s' ↔ as.foldl step s = s' ∧ fits s' := by
  induction as generalizing s with
  | nil =>
    rw [foldGuarded,List.foldl_nil,Except.ok.injEq]
    constructor
    · rintro rfl
      exact ⟨rfl,start⟩
    · exact And.left
  | cons a as ih =>
    rw [foldGuarded,List.foldl_cons]
    by_cases full : bad s a
    · rw [failWhen_pos _ full,error_bind]
      constructor
      · intro failed
        cases failed
      · rintro ⟨rfl,fit⟩
        exact absurd (fits_before fits back fit) ((guard s a start).mp full)
    · rw [failWhen_neg _ full,ok_bind]
      exact ih (not_not.mp fun beyond => full ((guard s a start).mpr beyond))

end Guarded

namespace Table
variable {α κ ρ : Type} [DecidableEq κ]

def insertAll (entries : List (κ × ρ)) (t : Table κ ρ) : Table κ ρ := entries.foldl (fun t e => t.insert e.1 e.2) t

theorem insertAll_cons (entry : κ × ρ) (entries : List (κ × ρ)) (t : Table κ ρ) :
    insertAll (entry::entries) t = insertAll entries (t.insert entry.1 entry.2) := rfl

theorem insertAll_append (entries later : List (κ × ρ)) (t : Table κ ρ) :
    insertAll (entries++later) t = insertAll later (insertAll entries t) := List.foldl_append

theorem lookup_insertAll {entries : List (κ × ρ)} (distinct : (entries.map Prod.fst).Nodup) (t : Table κ ρ) (k : κ)
    (r : ρ) : (insertAll entries t).lookup k = some r ↔
      (k,r) ∈ entries ∨ k ∉ entries.map Prod.fst ∧ t.lookup k = some r := by
  induction entries generalizing t with
  | nil => simp [insertAll]
  | cons entry entries ih =>
    obtain ⟨fresh,distinct⟩ := List.nodup_cons.mp distinct
    rw [insertAll_cons,ih distinct,lookup_insert,List.mem_cons,List.map_cons,List.mem_cons]
    by_cases own : k = entry.1
    · subst own
      have apart : (entry.1,r) ∉ entries := fun member => fresh (List.mem_map.mpr ⟨_,member,rfl⟩)
      simp only [apart,fresh,if_true,false_or,or_false,not_false_eq_true,true_and,not_true_eq_false,false_and,
        Option.some.injEq]
      constructor
      · intro same
        exact Prod.ext rfl same.symm
      · intro same
        exact (congrArg Prod.snd same).symm
    · have other : (k,r) ≠ entry := fun same => own (congrArg Prod.fst same)
      simp only [own,other,if_false,false_or]

theorem insertAll_perm {entries entries' : List (κ × ρ)} (distinct : (entries.map Prod.fst).Nodup)
    (perm : entries.Perm entries') {t t' : Table κ ρ} (alike : ∀ k, t.lookup k = t'.lookup k) (k : κ) :
    (insertAll entries t).lookup k = (insertAll entries' t').lookup k := by
  have distinct' : (entries'.map Prod.fst).Nodup := (perm.map Prod.fst).nodup_iff.mp distinct
  apply Option.ext
  intro r
  rw [lookup_insertAll distinct,lookup_insertAll distinct',perm.mem_iff,(perm.map Prod.fst).mem_iff,alike]

theorem lookup_insertAll_isSome (entries : List (κ × ρ)) (t : Table κ ρ) (k : κ) :
    ((insertAll entries t).lookup k).isSome = true ↔ k ∈ entries.map Prod.fst ∨ (t.lookup k).isSome = true := by
  induction entries generalizing t with
  | nil => simp [insertAll]
  | cons entry entries ih =>
    rw [insertAll_cons,ih,lookup_insert,List.map_cons,List.mem_cons]
    by_cases own : k = entry.1
    · simp [own]
    · simp [own]

theorem size_insertAll {entries : List (κ × ρ)} (distinct : (entries.map Prod.fst).Nodup) {t : Table κ ρ}
    (fresh : ∀ e ∈ entries, t.lookup e.1 = none) : size (insertAll entries t) = size t+entries.length := by
  induction entries generalizing t with
  | nil => rfl
  | cons entry entries ih =>
    obtain ⟨apart,distinct⟩ := List.nodup_cons.mp distinct
    have free : ∀ e ∈ entries, (t.insert entry.1 entry.2).lookup e.1 = none := by
      intro e member
      have other : e.1 ≠ entry.1 := fun same => apart (same ▸ List.mem_map.mpr ⟨e,member,rfl⟩)
      rw [lookup_insert,if_neg other]
      exact fresh e (List.mem_cons_of_mem _ member)
    rw [insertAll_cons,ih distinct free,size_insert_new (fresh entry List.mem_cons_self),List.length_cons]
    omega

theorem mem_keys_rows (t : Table κ ρ) (k : κ) : k ∈ t.rows.map Prod.fst ↔ (t.lookup k).isSome = true := by
  rw [Option.isSome_iff_exists,List.mem_map]
  constructor
  · rintro ⟨⟨_,r⟩,member,rfl⟩
    exact ⟨r,(mem_rows _ _ _).mp member⟩
  · rintro ⟨r,held⟩
    exact ⟨(k,r),(mem_rows _ _ _).mpr held,rfl⟩

theorem size_of_keys {ρ' : Type} {t : Table κ ρ} {t' : Table κ ρ'}
    (keys : ∀ k, (t.lookup k).isSome = true ↔ (t'.lookup k).isSome = true) : size t = size t' := by
  have perm : (t.rows.map Prod.fst).Perm (t'.rows.map Prod.fst) := by
    rw [List.perm_ext_iff_of_nodup (rows_distinct t) (rows_distinct t')]
    intro k
    rw [mem_keys_rows,mem_keys_rows,keys]
  rw [size_rows,size_rows,← List.length_map Prod.fst,perm.length_eq,List.length_map]

theorem size_countP {key : α → κ} {as : List α} (distinct : (as.map key).Nodup) {t : Table κ ρ}
    (covers : ∀ k, (t.lookup k).isSome = true → k ∈ as.map key) :
    size t = as.countP fun a => (t.lookup (key a)).isSome := by
  have perm : (t.rows.map Prod.fst).Perm ((as.filter fun a => (t.lookup (key a)).isSome).map key) := by
    have distinct' : ((as.filter fun a => (t.lookup (key a)).isSome).map key).Nodup :=
      distinct.sublist (List.filter_sublist.map key)
    rw [List.perm_ext_iff_of_nodup (rows_distinct t) distinct']
    intro k
    rw [mem_keys_rows,List.mem_map]
    constructor
    · intro held
      obtain ⟨a,member,rfl⟩ := List.mem_map.mp (covers k held)
      exact ⟨a,List.mem_filter.mpr ⟨member,held⟩,rfl⟩
    · rintro ⟨a,member,rfl⟩
      exact (List.mem_filter.mp member).2
  rw [size_rows,← List.length_map Prod.fst,perm.length_eq,List.length_map,List.countP_eq_length_filter]

theorem size_insert_le (t : Table κ ρ) (k : κ) (r : ρ) : size t ≤ size (t.insert k r) := by
  cases held : t.lookup k with
  | none =>
    rw [size_insert_new held]
    omega
  | some old => rw [size_insert_old held]

theorem size_insert_fits {t : Table κ ρ} {others room : ℕ} (small : size t+others ≤ room) (k : κ) (r : ρ) :
    size (t.insert k r)+others ≤ room ↔ (t.lookup k).isSome = true ∨ size t+others < room := by
  cases held : t.lookup k with
  | none =>
    rw [size_insert_new held]
    simp only [Option.isSome_none,Bool.false_eq_true,false_or]
    omega
  | some old =>
    rw [size_insert_old held]
    simp only [Option.isSome_some,true_or,iff_true]
    exact small

omit [DecidableEq κ] in
theorem offers_distinct {key : α → κ} {offer : α → Option (κ × ρ)} (own : ∀ a e, offer a = some e → e.1 = key a)
    {as : List α} (distinct : (as.map key).Nodup) : ((as.filterMap offer).map Prod.fst).Nodup := by
  apply List.Nodup.sublist _ distinct
  clear distinct
  induction as with
  | nil => exact List.Sublist.refl _
  | cons a as rest =>
    cases offered : offer a with
    | none =>
      rw [List.filterMap_cons_none offered]
      exact rest.cons _
    | some e =>
      rw [List.filterMap_cons_some offered,List.map_cons,List.map_cons,own a e offered]
      exact rest.cons_cons _

end Table

end ATape.Foundation
