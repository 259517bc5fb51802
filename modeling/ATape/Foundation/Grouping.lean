import ATape.Foundation.Table
import Mathlib.Data.List.Perm.Basic

/-! Records that are folded into the group of their key. A group is the fold of its own records, and
what the groups add up to is what all records add up to. -/
namespace ATape.Foundation
variable {κ ρ γ : Type} [DecidableEq κ]

/-- Adds a record to the group of its key. -/
def intoGroup (key : ρ → κ) (start : γ) (add : γ → ρ → γ) (groups : Table κ γ) (r : ρ) : Table κ γ :=
  groups.insert (key r) (add ((groups.lookup (key r)).getD start) r)

def grouped (key : ρ → κ) (start : γ) (add : γ → ρ → γ) (rs : List ρ) : Table κ γ :=
  rs.foldl (intoGroup key start add) ∅

section Groups
variable (key : ρ → κ) (start : γ) (add : γ → ρ → γ)

theorem lookup_intoGroups (rs : List ρ) (groups : Table κ γ) (k : κ) :
    (rs.foldl (intoGroup key start add) groups).lookup k =
      if rs.filter (fun r => key r = k) = [] then groups.lookup k
      else some ((rs.filter fun r => key r = k).foldl add ((groups.lookup k).getD start)) := by
  induction rs generalizing groups with
  | nil => rfl
  | cons r rs ih =>
    rw [List.foldl_cons,ih,intoGroup,Table.lookup_insert,List.filter_cons]
    by_cases own : key r = k
    · subst own
      simp only [if_true,decide_true,List.cons_ne_nil,if_false,Option.getD_some,List.foldl_cons]
      split
      next none_ => rw [none_,List.foldl_nil]
      next => rfl
    · simp only [own,Ne.symm own,if_false,decide_false,Bool.false_eq_true]

theorem lookup_grouped (rs : List ρ) (k : κ) : (grouped key start add rs).lookup k =
    if rs.filter (fun r => key r = k) = [] then none
    else some ((rs.filter fun r => key r = k).foldl add start) :=
  lookup_intoGroups key start add rs ∅ k

theorem grouped_own {rs : List ρ} {k : κ} {g : γ} (held : (grouped key start add rs).lookup k = some g) :
    rs.filter (fun r => key r = k) ≠ [] ∧ g = (rs.filter fun r => key r = k).foldl add start := by
  rw [lookup_grouped] at held
  split at held
  next => cases held
  next some_ => exact ⟨some_,(Option.some.inj held).symm⟩

theorem grouped_mem {rs : List ρ} {r : ρ} (member : r ∈ rs) :
    ((grouped key start add rs).lookup (key r)).isSome = true := by
  rw [lookup_grouped,if_neg]
  · rfl
  · exact List.ne_nil_of_mem (List.mem_filter.mpr ⟨member,by simp⟩)

end Groups

theorem parts_perm {key : ρ → κ} {keys : List κ} (distinct : keys.Nodup) {rs : List ρ}
    (covers : ∀ r ∈ rs, key r ∈ keys) : (keys.map fun k => rs.filter fun r => key r = k).flatten.Perm rs := by
  induction keys generalizing rs with
  | nil =>
    cases rs with
    | nil => exact .nil
    | cons r rs => exact absurd (covers r List.mem_cons_self) (by simp)
  | cons k keys ih =>
    obtain ⟨fresh,distinct⟩ := List.nodup_cons.mp distinct
    have others : ∀ r ∈ rs.filter (fun r => !decide (key r = k)), key r ∈ keys := by
      intro r member
      obtain ⟨inside,apart⟩ := List.mem_filter.mp member
      exact (List.mem_cons.mp (covers r inside)).resolve_left (by simpa using apart)
    have same : (keys.map fun k' => rs.filter fun r => key r = k') =
        keys.map fun k' => (rs.filter fun r => !decide (key r = k)).filter fun r => key r = k' := by
      apply List.map_congr_left
      intro k' member
      rw [List.filter_filter]
      apply List.filter_congr
      intro r _
      by_cases own : key r = k'
      · have apart : key r ≠ k := by
          intro first
          exact fresh ((first.symm.trans own) ▸ member)
        rw [decide_eq_true own,decide_eq_false apart]
        rfl
      · simp [own]
    rw [List.map_cons,List.flatten_cons,same]
    exact ((ih distinct others).append_left _).trans (List.filter_append_perm _ rs)

theorem grouped_parts (key : ρ → κ) (start : γ) (add : γ → ρ → γ) (rs : List ρ) :
    ((grouped key start add rs).rows.map fun row => rs.filter fun r => key r = row.1).flatten.Perm rs := by
  have keys : (grouped key start add rs).rows.map (fun row => rs.filter fun r => key r = row.1) =
      ((grouped key start add rs).rows.map Prod.fst).map fun k => rs.filter fun r => key r = k := by
    rw [List.map_map]
    rfl
  rw [keys]
  apply parts_perm (Table.rows_distinct _)
  intro r member
  obtain ⟨g,held⟩ := Option.isSome_iff_exists.mp (grouped_mem key start add member)
  exact List.mem_map.mpr ⟨(key r,g),(Table.mem_rows _ _ _).mpr held,rfl⟩

end ATape.Foundation
