import Mathlib.Algebra.BigOperators.Group.List.Basic
import Mathlib.Algebra.Order.Ring.Int
import Mathlib.Data.List.AList
import Mathlib.Data.List.Sort
import Mathlib.Data.Prod.Lex
import Mathlib.Tactic.Ring

/-! Keyed tables observed through lookup: the rows of a relation under its
primary key, or the contents of a dictionary. Every operation below has one
lookup equation, so that clients never inspect the list of rows. -/
namespace ATape.Foundation

/-- At most one row for each key; distinctness of the keys is a field. -/
abbrev Table (κ ρ : Type) := AList (fun _ : κ => ρ)

namespace Table
variable {κ ρ : Type}

/-- Rewrites every row in place, keeping its key. -/
def updateAll (f : κ → ρ → ρ) (t : Table κ ρ) : Table κ ρ :=
  ⟨t.entries.map (fun e => ⟨e.1,f e.1 e.2⟩),List.NodupKeys.map₂ f _ t.nodupKeys⟩

/-- Keeps the rows on which the predicate holds. -/
def keep (p : κ → ρ → Bool) (t : Table κ ρ) : Table κ ρ :=
  ⟨t.entries.filter (fun e => p e.1 e.2),t.nodupKeys.sublist List.filter_sublist⟩

/-- Whether some row satisfies the predicate. -/
def any (p : κ → ρ → Bool) (t : Table κ ρ) : Bool := t.entries.any (fun e => p e.1 e.2)

/-- The rows with their keys, in table order. -/
def rows (t : Table κ ρ) : List (κ × ρ) := t.entries.map (fun e => (e.1,e.2))

/-- The sum of a weight over all rows. -/
def total (w : κ → ρ → Nat) (t : Table κ ρ) : Nat := (t.entries.map (fun e => w e.1 e.2)).sum

theorem total_updateAll (w : κ → ρ → Nat) (f : κ → ρ → ρ) (t : Table κ ρ) :
    total w (updateAll f t) = total (fun k r => w k (f k r)) t := by
  simp [total,updateAll,List.map_map,Function.comp_def]

theorem total_keep (w : κ → ρ → Nat) (p : κ → ρ → Bool) (t : Table κ ρ) :
    total w (keep p t) = total (fun k r => if p k r then w k r else 0) t := by
  have sums : ∀ entries : List (Sigma fun _ : κ => ρ),
      ((entries.filter fun e => p e.1 e.2).map fun e => w e.1 e.2).sum =
        (entries.map fun e => if p e.1 e.2 then w e.1 e.2 else 0).sum := by
    intro entries
    induction entries with
    | nil => rfl
    | cons e entries ih =>
      rw [List.filter_cons,List.map_cons,List.sum_cons]
      by_cases kept : p e.1 e.2
      · rw [if_pos kept,if_pos kept,List.map_cons,List.sum_cons,ih]
      · rw [if_neg kept,if_neg kept,ih,Nat.zero_add]
  exact sums t.entries

/-- The number of rows. -/
def size (t : Table κ ρ) : Nat := total (fun _ _ => 1) t

theorem size_rows (t : Table κ ρ) : size t = t.rows.length := by
  simp [size,total,rows]

@[simp] theorem size_empty : size (∅ : Table κ ρ) = 0 := rfl

@[simp] theorem size_updateAll (f : κ → ρ → ρ) (t : Table κ ρ) : size (updateAll f t) = size t :=
  total_updateAll _ f t

theorem total_add (w w' : κ → ρ → Nat) (t : Table κ ρ) :
    total (fun k r => w k r+w' k r) t = total w t+total w' t := List.sum_map_add

theorem rows_distinct (t : Table κ ρ) : (t.rows.map Prod.fst).Nodup := by
  have keys : t.rows.map Prod.fst = t.entries.keys := by
    simp [rows,List.keys,List.map_map,Function.comp_def]
  rw [keys]
  exact t.nodupKeys

variable [DecidableEq κ]

/-- Rewrites the row of one key, if there is one. -/
def modify (k : κ) (f : ρ → ρ) (t : Table κ ρ) : Table κ ρ :=
  updateAll (fun k' r => if k' = k then f r else r) t

@[simp] theorem lookup_insert (t : Table κ ρ) (k k' : κ) (r : ρ) :
    (t.insert k r).lookup k' = if k' = k then some r else t.lookup k' := by
  by_cases same : k' = k
  · subst same
    simp
  · simp [same,AList.lookup_insert_ne same]

@[simp] theorem lookup_erase (t : Table κ ρ) (k k' : κ) :
    (t.erase k).lookup k' = if k' = k then none else t.lookup k' := by
  by_cases same : k' = k
  · subst same
    simp
  · simp [same,AList.lookup_erase_ne same]

@[simp] theorem lookup_updateAll (t : Table κ ρ) (f : κ → ρ → ρ) (k : κ) :
    (updateAll f t).lookup k = (t.lookup k).map (f k) := by
  unfold updateAll AList.lookup
  exact List.dlookup_map₂ k

@[simp] theorem lookup_modify (t : Table κ ρ) (f : ρ → ρ) (k k' : κ) :
    (modify k f t).lookup k' = if k' = k then (t.lookup k').map f else t.lookup k' := by
  rw [modify,lookup_updateAll]
  split <;> simp

theorem mem_entries (t : Table κ ρ) (k : κ) (r : ρ) :
    (⟨k,r⟩ : Sigma fun _ : κ => ρ) ∈ t.entries ↔ t.lookup k = some r :=
  (AList.mem_lookup_iff (a := k) (b := r) (s := t)).symm

@[simp] theorem mem_rows (t : Table κ ρ) (k : κ) (r : ρ) :
    (k,r) ∈ t.rows ↔ t.lookup k = some r := by
  rw [← mem_entries,rows,List.mem_map]
  constructor
  · rintro ⟨⟨k',r'⟩,member,same⟩
    cases same
    exact member
  · intro member
    exact ⟨_,member,rfl⟩

@[simp] theorem lookup_keep (t : Table κ ρ) (p : κ → ρ → Bool) (k : κ) :
    (keep p t).lookup k = (t.lookup k).filter (p k) := by
  ext r
  have kept := mem_entries (keep p t) k r
  rw [← kept]
  simp [keep,mem_entries,Option.filter_eq_some_iff]

theorem any_iff (t : Table κ ρ) (p : κ → ρ → Bool) :
    t.any p = true ↔ ∃ k r, t.lookup k = some r ∧ p k r = true := by
  simp only [any,List.any_eq_true]
  constructor
  · rintro ⟨⟨k,r⟩,member,holds⟩
    exact ⟨k,r,(mem_entries t k r).mp member,holds⟩
  · rintro ⟨k,r,found,holds⟩
    exact ⟨⟨k,r⟩,(mem_entries t k r).mpr found,holds⟩

theorem any_eq_false_iff (t : Table κ ρ) (p : κ → ρ → Bool) :
    t.any p = false ↔ ∀ k r, t.lookup k = some r → p k r = false := by
  rw [← Bool.not_eq_true,any_iff]
  simp

theorem map_lookup_updateAll {α : Type} (t : Table κ ρ) (f : κ → ρ → ρ) (g : ρ → α)
    (same : ∀ k r, g (f k r) = g r) (k : κ) :
    ((updateAll f t).lookup k).map g = (t.lookup k).map g := by
  rw [lookup_updateAll,Option.map_map]
  congr 1
  exact funext (same k)

theorem map_lookup_modify {α : Type} (t : Table κ ρ) (k : κ) (f : ρ → ρ) (g : ρ → α)
    (same : ∀ r, g (f r) = g r) (k' : κ) :
    ((modify k f t).lookup k').map g = (t.lookup k').map g := by
  apply map_lookup_updateAll
  intro other r
  split
  · exact same r
  · rfl

/-! Totals. A write to one key moves the total by that row alone. -/

theorem total_congr {w w' : κ → ρ → Nat} {t : Table κ ρ}
    (same : ∀ k r, t.lookup k = some r → w k r = w' k r) : total w t = total w' t := by
  unfold total
  congr 1
  apply List.map_congr_left
  rintro ⟨k,r⟩ member
  exact same k r ((mem_entries t k r).mp member)

theorem total_eq_zero {w : κ → ρ → Nat} {t : Table κ ρ} (none : ∀ k r, t.lookup k = some r → w k r = 0) :
    total w t = 0 := by
  rw [total_congr none]
  simp [total]

theorem total_erase {t : Table κ ρ} {k : κ} {r : ρ} (w : κ → ρ → Nat) (held : t.lookup k = some r) :
    total w (t.erase k)+w k r = total w t := by
  have member : (⟨k,r⟩ : Sigma fun _ : κ => ρ) ∈ t.entries := (mem_entries t k r).mpr held
  have keys : k ∈ t.entries.keys := List.mem_keys_of_mem member
  obtain ⟨r',before,after,_,split,rest⟩ := List.exists_of_kerase keys
  have same : r' = r := by
    have other : (⟨k,r'⟩ : Sigma fun _ : κ => ρ) ∈ t.entries := by
      rw [split]
      simp
    have found := (mem_entries t k r').mp other
    rw [held] at found
    exact (Option.some.inj found).symm
  subst same
  have kept : (t.erase k).entries = before++after := rest
  unfold total
  rw [kept,split]
  simp only [List.map_append,List.map_cons,List.sum_append,List.sum_cons]
  omega

theorem erase_of_none {t : Table κ ρ} {k : κ} (fresh : t.lookup k = none) : t.erase k = t := by
  apply AList.ext
  apply List.kerase_of_notMem_keys
  intro member
  have present := AList.lookup_isSome.mpr (AList.mem_keys.mpr member)
  rw [fresh] at present
  cases present

theorem total_insert_erase (w : κ → ρ → Nat) (t : Table κ ρ) (k : κ) (r : ρ) :
    total w (t.insert k r) = w k r+total w (t.erase k) := by
  have entries : (t.insert k r).entries = ⟨k,r⟩::(t.erase k).entries := rfl
  unfold total
  rw [entries,List.map_cons,List.sum_cons]

theorem total_insert_new {t : Table κ ρ} {k : κ} (w : κ → ρ → Nat) (fresh : t.lookup k = none) (r : ρ) :
    total w (t.insert k r) = total w t+w k r := by
  rw [total_insert_erase,erase_of_none fresh]
  omega

theorem total_insert_old {t : Table κ ρ} {k : κ} {old : ρ} (w : κ → ρ → Nat) (held : t.lookup k = some old)
    (r : ρ) : total w (t.insert k r)+w k old = total w t+w k r := by
  have moved := total_erase w held
  rw [total_insert_erase]
  omega

theorem total_modify {t : Table κ ρ} {k : κ} {old : ρ} (w : κ → ρ → Nat) (f : ρ → ρ)
    (held : t.lookup k = some old) : total w (modify k f t)+w k old = total w t+w k (f old) := by
  have before := total_erase w held
  have after := total_erase (fun k' r => w k' (if k' = k then f r else r)) held
  have others : total (fun k' r => w k' (if k' = k then f r else r)) (t.erase k) = total w (t.erase k) := by
    apply total_congr
    intro k' r found
    rw [lookup_erase] at found
    split at found
    next => cases found
    next apart => rw [if_neg apart]
  rw [modify,total_updateAll]
  simp only [if_true] at after
  omega

theorem le_total {t : Table κ ρ} {k : κ} {r : ρ} (w : κ → ρ → Nat) (held : t.lookup k = some r) :
    w k r ≤ total w t := by
  have parted := total_erase w held
  omega

@[simp] theorem size_modify (k : κ) (f : ρ → ρ) (t : Table κ ρ) : size (modify k f t) = size t :=
  size_updateAll _ t

theorem size_insert_new {t : Table κ ρ} {k : κ} (fresh : t.lookup k = none) (r : ρ) :
    size (t.insert k r) = size t+1 := total_insert_new _ fresh r

theorem size_insert_old {t : Table κ ρ} {k : κ} {old : ρ} (held : t.lookup k = some old) (r : ρ) :
    size (t.insert k r) = size t := by
  have moved := total_insert_old (fun _ _ => 1) held r
  exact Nat.add_right_cancel moved

theorem total_updateAll_same {w : κ → ρ → Nat} {f : κ → ρ → ρ} {t : Table κ ρ}
    (same : ∀ k r, t.lookup k = some r → w k (f k r) = w k r) : total w (updateAll f t) = total w t := by
  rw [total_updateAll]
  exact total_congr same

theorem total_modify_same {w : κ → ρ → Nat} {k : κ} {f : ρ → ρ} {t : Table κ ρ}
    (same : ∀ r, w k (f r) = w k r) : total w (modify k f t) = total w t := by
  apply total_updateAll_same
  intro other r _
  split
  next here =>
    subst here
    exact same r
  next => rfl

theorem total_view {α : Type} (w : κ → α → Nat) (g : ρ → α) {t t' : Table κ ρ}
    (same : ∀ k, (t.lookup k).map g = (t'.lookup k).map g) :
    total (fun k r => w k (g r)) t = total (fun k r => w k (g r)) t' := by
  let image : Table κ ρ → List (Sigma fun _ : κ => α) := fun t => t.entries.map fun e => ⟨e.1,g e.2⟩
  have distinct : ∀ t, (image t).NodupKeys := fun t => List.NodupKeys.map₂ (fun _ => g) _ t.nodupKeys
  have reads : ∀ t k, (image t).dlookup k = (t.lookup k).map g := by
    intro t k
    exact List.dlookup_map₂ (f := fun _ => g) k
  have perm : (image t).Perm (image t') := by
    apply List.lookup_ext (distinct t) (distinct t')
    intro k a
    rw [reads,reads,same]
  have sums := (perm.map fun e => w e.1 e.2).sum_eq
  simpa [image,total,List.map_map,Function.comp_def] using sums

theorem total_single (w : κ → ρ → Nat) (a : κ) (t : Table κ ρ) :
    total (fun k r => if k = a then w k r else 0) t = ((t.lookup a).map (w a)).getD 0 := by
  cases found : t.lookup a with
  | none =>
    apply total_eq_zero
    intro k r held
    rw [if_neg]
    rintro rfl
    rw [found] at held
    cases held
  | some r =>
    have parted := total_erase (fun k r => if k = a then w k r else 0) found
    have rest : total (fun k r => if k = a then w k r else 0) (t.erase a) = 0 := by
      apply total_eq_zero
      intro k r held
      rw [lookup_erase] at held
      split at held
      next => cases held
      next apart => exact if_neg apart
    simp only [if_true] at parted
    simp only [Option.map_some,Option.getD_some]
    omega

theorem total_chosen (w : κ → ρ → Nat) {ks : List κ} (distinct : ks.Nodup) (t : Table κ ρ) :
    total (fun k r => if k ∈ ks then w k r else 0) t =
      (ks.map fun k => ((t.lookup k).map (w k)).getD 0).sum := by
  induction ks with
  | nil =>
    apply total_eq_zero
    intro k r _
    rfl
  | cons a ks ih =>
    rw [List.nodup_cons] at distinct
    rw [List.map_cons,List.sum_cons,← ih distinct.2,← total_single w a t,← total_add]
    apply total_congr
    intro k r _
    by_cases here : k = a
    · subst here
      simp [distinct.1]
    · simp [here]

theorem size_keep_notMem {ks : List κ} {t : Table κ ρ} (distinct : ks.Nodup)
    (held : ∀ k ∈ ks, ∃ r, t.lookup k = some r) :
    size (keep (fun k _ => k ∉ ks) t)+ks.length = size t := by
  have chosen := total_chosen (fun _ _ => 1) distinct t
  have each : (ks.map fun k => ((t.lookup k).map fun _ => 1).getD 0) = ks.map fun _ => 1 := by
    apply List.map_congr_left
    intro k member
    obtain ⟨r,found⟩ := held k member
    simp [found]
  have count : (ks.map fun _ => 1).sum = ks.length := by simp
  have rest : size (keep (fun k _ => k ∉ ks) t) = total (fun k _ => if k ∈ ks then 0 else 1) t := by
    rw [size,total_keep]
    apply total_congr
    intro k _ _
    by_cases gone : k ∈ ks
    · simp [gone]
    · simp [gone]
  have parts : size t = total (fun k _ => if k ∈ ks then 1 else 0) t+total (fun k _ => if k ∈ ks then 0 else 1) t := by
    rw [← total_add]
    apply total_congr
    intro k _ _
    split <;> rfl
  rw [parts,rest,chosen,each,count,Nat.add_comm]

end Table
end ATape.Foundation
