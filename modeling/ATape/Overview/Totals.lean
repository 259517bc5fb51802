import ATape.Overview.Aggregate

/-! What the loops over the facts of an overview find, as a function of the facts and not of their order. -/
namespace ATape.TeamOverview
open Foundation Go

namespace Column

/-- The value as long as the column is complete. An incomplete column never becomes complete again. -/
def seen (c : Column) : Option (Option ℤ) := if c.complete = true then some c.value else none

theorem get_seen (c : Column) : c.get = c.seen.join := by
  unfold get seen
  split <;> rfl

theorem seen_add (c : Column) (src : Option ℤ) : (c.add src).seen = c.seen.bind fun value =>
    src.bind fun n => if value.getD 0 > maxSafeInteger-n then none else some (some (value.getD 0+n)) := by
  obtain ⟨value,complete⟩ := c
  cases src with
  | none => cases complete <;> rfl
  | some n =>
    unfold add
    cases complete with
    | false =>
      dsimp only
      split <;> rfl
    | true =>
      by_cases large : value.getD 0 > maxSafeInteger-n
      · simp [seen,large]
      · simp [seen,large]

theorem add_alike (c c' : Column) (src : Option ℤ) (same : c.seen = c'.seen) : (c.add src).seen = (c'.add src).seen := by
  rw [seen_add,seen_add,same]

theorem add_swap (c : Column) {x y : Option ℤ} (first : ∀ n ∈ x, 0 ≤ n) (second : ∀ n ∈ y, 0 ≤ n) :
    ((c.add x).add y).seen = ((c.add y).add x).seen := by
  rw [seen_add,seen_add,seen_add,seen_add]
  cases c.seen with
  | none => rfl
  | some value =>
    cases x with
    | none => cases y <;> simp
    | some m =>
      cases y with
      | none => simp
      | some n =>
        have low := first m rfl
        have low' := second n rfl
        simp only [Option.bind_some]
        by_cases left : value.getD 0 > maxSafeInteger-m
        · rw [if_pos left]
          by_cases right : value.getD 0 > maxSafeInteger-n
          · rw [if_pos right,Option.bind_none,Option.bind_none]
          · rw [if_neg right,Option.bind_none,Option.bind_some,Option.getD_some,if_pos (by omega)]
        · rw [if_neg left,Option.bind_some,Option.getD_some]
          by_cases right : value.getD 0 > maxSafeInteger-n
          · rw [if_pos right,Option.bind_none,if_pos (by omega)]
          · rw [if_neg right,Option.bind_some,Option.getD_some,Int.add_right_comm]
            by_cases both : value.getD 0+m > maxSafeInteger-n
            · rw [if_pos both,if_pos (by omega)]
            · rw [if_neg both,if_neg (by omega)]

end Column

/-- The sum of one component of the records. -/
def columnOf (xs : List (Option ℤ)) : Column := xs.foldl Column.add ⟨none,true⟩

theorem columnOf_concat (xs : List (Option ℤ)) (x : Option ℤ) : columnOf (xs++[x]) = (columnOf xs).add x := by
  rw [columnOf,List.foldl_append]
  rfl

theorem columnOf_perm {xs xs' : List (Option ℤ)} (perm : xs.Perm xs') (low : ∀ x ∈ xs, ∀ n ∈ x, 0 ≤ n) :
    (columnOf xs).get = (columnOf xs').get := by
  rw [Column.get_seen,Column.get_seen]
  congr 1
  apply foldl_perm_view Column.seen Column.add_alike perm
  intro x member y member' c
  exact Column.add_swap c (low x member) (low y member')

def sumOf (us : List OverviewUsage) : TokenSum := us.foldl TokenSum.add {}

theorem sumOf_concat (us : List OverviewUsage) (u : OverviewUsage) : sumOf (us++[u]) = (sumOf us).add u := by
  rw [sumOf,List.foldl_append]
  rfl

theorem sumOf_eq {us : List OverviewUsage} (some_ : us ≠ []) : sumOf us =
    ⟨us.length,(us.map (·.sessionID)).toFinset,columnOf (us.map (·.inputTokens)),columnOf (us.map (·.outputTokens)),
      columnOf (us.map (·.cacheReadTokens)),columnOf (us.map (·.cacheWriteTokens))⟩ := by
  induction us using List.reverseRecOn with
  | nil => exact absurd rfl some_
  | append_singleton us u ih =>
    have sessions : ((us++[u]).map (·.sessionID)).toFinset = insert u.sessionID (us.map (·.sessionID)).toFinset := by
      ext id
      simp
    by_cases first : us = []
    · subst first
      rfl
    · have begun : (us.map (·.sessionID)).toFinset ≠ ∅ := by
        rw [Ne,List.toFinset_eq_empty_iff,List.map_eq_nil_iff]
        exact first
      rw [sumOf_concat,ih first,TokenSum.add,sessions]
      simp only [List.map_append,List.map_cons,List.map_nil,columnOf_concat,List.length_append,List.length_singleton,
        TokenSum.begin,if_neg begun]

/-- A component of a usage record is never negative. -/
structure OverviewUsage.Natural (u : OverviewUsage) : Prop where
  input : ∀ n ∈ u.inputTokens, 0 ≤ n
  output : ∀ n ∈ u.outputTokens, 0 ≤ n
  read : ∀ n ∈ u.cacheReadTokens, 0 ≤ n
  write : ∀ n ∈ u.cacheWriteTokens, 0 ≤ n

theorem sumOf_perm {us us' : List OverviewUsage} (perm : us.Perm us') (natural : ∀ u ∈ us, u.Natural) :
    (sumOf us).get = (sumOf us').get := by
  have column : ∀ component : OverviewUsage → Option ℤ, (∀ u, u.Natural → ∀ n ∈ component u, 0 ≤ n) →
      (columnOf (us.map component)).get = (columnOf (us'.map component)).get := by
    intro component low
    apply columnOf_perm (perm.map component)
    intro x member
    obtain ⟨u,own,rfl⟩ := List.mem_map.mp member
    exact low u (natural u own)
  by_cases none_ : us = []
  · subst none_
    rw [List.nil_perm.mp perm]
  · have some_ : us' ≠ [] := by
      intro empty
      subst empty
      exact none_ (List.perm_nil.mp perm)
    rw [sumOf_eq none_,sumOf_eq some_]
    unfold TokenSum.get
    dsimp only
    rw [column _ fun u own => own.input,column _ fun u own => own.output,column _ fun u own => own.read,
      column _ fun u own => own.write,perm.length_eq,List.toFinset_eq_of_perm _ _ (perm.map _)]

/-- Facts of one session show the same session. -/
def Coherent (fs : List Fact) : Prop := ∀ a ∈ fs, ∀ b ∈ fs, a.session.id = b.session.id → a.session = b.session

def groupOf (fs : List Fact) : Group := fs.foldl Group.touch {}

theorem groupOf_concat (fs : List Fact) (fact : Fact) : groupOf (fs++[fact]) = (groupOf fs).touch fact := by
  rw [groupOf,List.foldl_append]
  rfl

theorem touch_eq (g : Group) (fact : Fact) : g.touch fact = {g.mark fact.session with
    tokens := fact.usage.elim g.tokens g.tokens.add} := by
  have tokens : (g.mark fact.session).tokens = g.tokens := by
    unfold Group.mark
    split <;> rfl
  unfold Group.touch
  cases fact.usage with
  | none => rw [Option.elim_none,← tokens]
  | some u => rw [Option.elim_some,← tokens]

theorem groupOf_eq {fs : List Fact} (coherent : Coherent fs) : groupOf fs =
    ⟨(fs.map Frame.sessionKey).toFinset,(fs.map Frame.projectKey).toFinset,(fs.map Frame.memberKey).toFinset,
      sumOf (fs.filterMap (·.usage))⟩ := by
  induction fs using List.reverseRecOn with
  | nil => rfl
  | append_singleton fs fact ih =>
    have tokens : sumOf ((fs++[fact]).filterMap (·.usage)) =
        fact.usage.elim (sumOf (fs.filterMap (·.usage))) (sumOf (fs.filterMap (·.usage))).add := by
      rw [List.filterMap_append]
      cases usage : fact.usage with
      | none => simp [usage]
      | some u => simp [usage,sumOf_concat]
    have keys : ∀ key : Fact → String, ((fs++[fact]).map key).toFinset = insert (key fact) (fs.map key).toFinset := by
      intro key
      ext id
      simp
    have before : Coherent fs := fun a member b member' =>
      coherent a (List.mem_append_left _ member) b (List.mem_append_left _ member')
    rw [groupOf_concat,ih before,touch_eq,tokens,keys,keys,keys]
    unfold Group.mark
    by_cases known : fact.session.id ∈ (fs.map Frame.sessionKey).toFinset
    · -- the session was marked by a fact that shows the same project and member
      obtain ⟨a,member,same⟩ := List.mem_map.mp (List.mem_toFinset.mp known)
      have own := coherent a (List.mem_append_left _ member) fact (by simp) same
      have has : ∀ key : OverviewSession → String, key fact.session ∈ (fs.map fun fact => key fact.session).toFinset :=
        fun key => List.mem_toFinset.mpr (List.mem_map.mpr ⟨a,member,by rw [own]⟩)
      have sessions := Finset.insert_eq_of_mem known
      have projects := Finset.insert_eq_of_mem (has (·.projectID))
      have members := Finset.insert_eq_of_mem (has (·.capturedByUserID))
      rw [if_pos known]
      unfold Frame.sessionKey Frame.projectKey Frame.memberKey at *
      rw [sessions,projects,members]
    · rw [if_neg known]
      rfl

/-- What a report shows of a group. -/
def Group.shown (g : Group) : Finset String × Finset String × Finset String × Tokens :=
  (g.sessions,g.projects,g.members,g.tokens.get)

def Natural (fs : List Fact) : Prop := ∀ fact ∈ fs, ∀ u ∈ fact.usage, u.Natural

theorem groupOf_perm {fs fs' : List Fact} (perm : fs.Perm fs') (coherent : Coherent fs) (natural : Natural fs) :
    (groupOf fs).shown = (groupOf fs').shown := by
  have coherent' : Coherent fs' := fun a member b member' =>
    coherent a (perm.mem_iff.mpr member) b (perm.mem_iff.mpr member')
  have sums : (sumOf (fs.filterMap (·.usage))).get = (sumOf (fs'.filterMap (·.usage))).get := by
    apply sumOf_perm (perm.filterMap _)
    intro u member
    obtain ⟨fact,own,usage⟩ := List.mem_filterMap.mp member
    exact natural fact own u usage
  have keys : ∀ key : Fact → String, (fs.map key).toFinset = (fs'.map key).toFinset :=
    fun key => List.toFinset_eq_of_perm _ _ (perm.map key)
  rw [groupOf_eq coherent,groupOf_eq coherent']
  unfold Group.shown
  dsimp only
  rw [sums,keys,keys,keys]

theorem groups_perm (key : Fact → String) {fs fs' : List Fact} (perm : fs.Perm fs') (coherent : Coherent fs)
    (natural : Natural fs) (k : String) : ((grouped key {} Group.touch fs).lookup k).map Group.shown =
      ((grouped key {} Group.touch fs').lookup k).map Group.shown := by
  apply grouped_perm perm
  intro k
  apply groupOf_perm (perm.filter _)
  · intro a member b member'
    exact coherent a (List.mem_filter.mp member).1 b (List.mem_filter.mp member').1
  · intro fact member
    exact natural fact (List.mem_filter.mp member).1

end ATape.TeamOverview
