import ATape.Overview.Scans

/-! The aggregation does not depend on the order of the facts, unless two members, projects or models have
one name and equally many sessions. -/
namespace ATape.TeamOverview
open Foundation Go

/-- A snapshot as the stores read it: rows with distinct identities and amounts that are not negative. -/
structure OverviewSnapshot.Formed (s : OverviewSnapshot) : Prop where
  members : (s.members.map (·.id)).Nodup
  projects : (s.projects.map (·.id)).Nodup
  sessions : (s.sessions.map (·.id)).Nodup
  events : (s.events.map (·.id)).Nodup
  usage : ∀ u ∈ s.usage, u.Natural

structure OverviewSnapshot.Permuted (s s' : OverviewSnapshot) : Prop where
  members : s.members.Perm s'.members
  projects : s.projects.Perm s'.projects
  sessions : s.sessions.Perm s'.sessions
  events : s.events.Perm s'.events
  usage : s.usage.Perm s'.usage

theorem OverviewSnapshot.Permuted.refl (s : OverviewSnapshot) : s.Permuted s :=
  ⟨List.Perm.refl _,List.Perm.refl _,List.Perm.refl _,List.Perm.refl _,List.Perm.refl _⟩

section Lookups
variable {α ρ : Type} {entry : α → String × ρ} {as as' : List α}

theorem directory_perm (distinct : (as.map fun a => (entry a).1).Nodup) (perm : as.Perm as') (id : String) :
    (Table.insertAll (as.map entry) ∅).lookup id = (Table.insertAll (as'.map entry) ∅).lookup id := by
  apply Table.insertAll_perm _ (perm.map entry) fun _ => rfl
  rw [List.map_map]
  exact distinct

end Lookups

namespace OverviewSnapshot
variable {s s' : OverviewSnapshot} {q : Query} {start stop : Time} {day : Time → String} {mode : AggregationMode}

theorem selects_perm (same : s.Permuted s') : s.selects q start stop = s'.selects q start stop := by
  have models : s.modelsForSession q start stop = s'.modelsForSession q start stop :=
    List.toFinset_eq_of_perm _ _ ((same.usage.filter _).map _)
  funext v
  rw [selects,selects,models]

theorem frame_perm (formed : s.Formed) (same : s.Permuted s') :
    s.frame q start stop day mode = s'.frame q start stop day mode := by
  have members : s.memberNames = s'.memberNames := by
    funext id
    rw [memberNames,memberNames,directory_perm formed.members same.members]
  have projects : s.projectNames = s'.projectNames := by
    funext id
    rw [projectNames,projectNames,directory_perm formed.projects same.projects]
  have chosen : ((s.sessions.filter (s.selects q start stop)).map (·.id)).Nodup :=
    formed.sessions.sublist (List.filter_sublist.map _)
  unfold frame
  rw [members,projects]
  congr 1
  funext id
  rw [← selects_perm same]
  exact directory_perm chosen (same.sessions.filter _) id

theorem frame_sessions (formed : s.Formed) {id : String} {v : OverviewSession}
    (found : (s.frame q start stop day mode).sessions id = some v) : v.id = id := by
  have chosen : (((s.sessions.filter (s.selects q start stop)).map fun v => (v.id,v)).map Prod.fst).Nodup := by
    rw [List.map_map]
    exact formed.sessions.sublist (List.filter_sublist.map _)
  cases (Table.lookup_insertAll chosen ∅ id v).mp found with
  | inl member =>
    obtain ⟨v',_,own⟩ := List.mem_map.mp member
    cases own
    rfl
  | inr none_ => cases none_.2

end OverviewSnapshot

namespace Frame
variable {f : Frame} {s s' : OverviewSnapshot}

theorem eventFact_session {e : OverviewEvent} {fact : Fact} (found : f.eventFact e = some fact) :
    f.sessions e.sessionID = some fact.session ∧ fact.usage = none := by
  obtain ⟨v,held,chosen⟩ := Option.bind_eq_some_iff.mp found
  split at chosen
  next =>
    cases chosen
    exact ⟨held,rfl⟩
  next => cases chosen

theorem usageFact_session {u : OverviewUsage} {fact : Fact} (found : f.usageFact u = some fact) :
    f.sessions u.sessionID = some fact.session ∧ fact.usage = some u := by
  obtain ⟨v,held,chosen⟩ := Option.bind_eq_some_iff.mp found
  split at chosen
  next =>
    cases chosen
    exact ⟨held,rfl⟩
  next => cases chosen

theorem facts_perm (same : s.Permuted s') : (f.facts s).Perm (f.facts s') :=
  (same.events.filterMap _).append (same.usage.filterMap _)

theorem facts_coherent (own : ∀ id v, f.sessions id = some v → v.id = id) (s : OverviewSnapshot) :
    Coherent (f.facts s) := by
  have held : ∀ fact ∈ f.facts s, f.sessions fact.session.id = some fact.session := by
    intro fact member
    rw [facts,List.mem_append,List.mem_filterMap,List.mem_filterMap] at member
    cases member with
    | inl event =>
      obtain ⟨e,_,found⟩ := event
      have session := (eventFact_session found).1
      rw [own _ _ session]
      exact session
    | inr usage =>
      obtain ⟨u,_,found⟩ := usage
      have session := (usageFact_session found).1
      rw [own _ _ session]
      exact session
  intro a member b member' same
  have first := held a member
  rw [same,held b member'] at first
  exact (Option.some.inj first).symm

theorem facts_natural (formed : s.Formed) : Natural (f.facts s) := by
  intro fact member u usage
  rw [facts,List.mem_append,List.mem_filterMap,List.mem_filterMap] at member
  cases member with
  | inl event =>
    obtain ⟨e,_,found⟩ := event
    rw [(eventFact_session found).2] at usage
    cases usage
  | inr recorded =>
    obtain ⟨u',held,found⟩ := recorded
    rw [(usageFact_session found).2] at usage
    cases usage
    exact formed.usage u held

theorem usageFacts_of_facts {fact : Fact} (member : fact ∈ s.usage.filterMap f.usageFact) : fact ∈ f.facts s :=
  List.mem_append_right _ member

theorem rootMessages_perm (own : Bool) (same : s.Permuted s') : (f.rootMessages s own).Perm (f.rootMessages s' own) :=
  same.events.filterMap _

theorem rootMessages_apart (formed : s.Formed) (own : Bool) : ∀ a ∈ f.rootMessages s own, ∀ b ∈ f.rootMessages s own,
    a.2.id = b.2.id → a.2 = b.2 := by
  intro a member b member' same
  obtain ⟨e,held,found⟩ := List.mem_filterMap.mp member
  obtain ⟨e',held',found'⟩ := List.mem_filterMap.mp member'
  rw [f.rootMessage_own found,f.rootMessage_own found'] at same ⊢
  exact List.inj_on_of_nodup_map formed.events held held' same

end Frame

section Rows
variable {t t' : Table String Group}
  (alike : ∀ k, (t.lookup k).map Group.shown = (t'.lookup k).map Group.shown)
include alike

theorem visited_perm {β : Type} {row : String × Group → β}
    (reads : ∀ k g g', g.shown = g'.shown → row (k,g) = row (k,g')) (order order' : MapOrder) (loop : ℕ) :
    ((order.visit loop t.rows).map row).Perm ((order'.visit loop t'.rows).map row) := by
  have shown : ∀ k, (t.lookup k).map (fun g => row (k,g)) = (t'.lookup k).map fun g => row (k,g) := by
    intro k
    have same := alike k
    cases held : t.lookup k with
    | none =>
      rw [held,Option.map_none] at same
      rw [Option.map_eq_none_iff.mp same.symm]
    | some g =>
      rw [held,Option.map_some] at same
      obtain ⟨g',held',same⟩ := Option.map_eq_some_iff.mp same.symm
      rw [held',Option.map_some,Option.map_some,reads k g g' same.symm]
  have rows := (Table.rows_view_perm (fun k g => row (k,g)) (fun k g => row (k,g)) shown).map Prod.snd
  rw [List.map_map,List.map_map] at rows
  exact ((order.perm loop t.rows).map row).trans (rows.trans ((order'.perm loop t'.rows).map row).symm)

end Rows

section Details

def sessionCount (key : Fact → String) (fs : List Fact) (k : String) : ℕ :=
  ((fs.filter fun fact => key fact = k).map Frame.sessionKey).toFinset.card

def Apart (key : Fact → String) (name : String → String) (fs : List Fact) : Prop :=
  ∀ a ∈ fs, ∀ b ∈ fs, name (key a) = name (key b) → sessionCount key fs (key a) = sessionCount key fs (key b) →
    key a = key b

def Detail.rank (d : Detail) : ℕᵒᵈ ×ₗ String := toLex (OrderDual.toDual d.sessions,d.name)

theorem detailLess_iff (a b : Detail) : a.less b = true ↔ a.rank < b.rank := by
  simp only [Detail.less,Detail.rank,Prod.Lex.toLex_lt_toLex,OrderDual.toDual_lt_toDual,OrderDual.toDual_inj,
    Bool.or_eq_true,Bool.and_eq_true,decide_eq_true_eq,gt_iff_lt]

theorem detailRank_eq {a b : Detail} : a.rank = b.rank ↔ a.sessions = b.sessions ∧ a.name = b.name := by
  rw [Detail.rank,Detail.rank,toLex_inj,Prod.mk.injEq,OrderDual.toDual_inj]

/-- A row of a detail table: it shows the name of its key and counts the sessions of its group. -/
structure DetailRow (name : String → String) (row : String × Group → Detail) : Prop where
  name : ∀ r, (row r).name = name r.1
  sessions : ∀ r, (row r).sessions = r.2.sessions.card
  key : ∀ r r', row r = row r' → r.1 = r'.1
  reads : ∀ k g g', g.shown = g'.shown → row (k,g) = row (k,g')

variable {key : Fact → String} {name : String → String} {row : String × Group → Detail} {fs fs' : List Fact}

theorem row_sessions (coherent : Coherent fs) {k : String} {g : Group}
    (held : (grouped key {} Group.touch fs).lookup k = some g) : g.sessions.card = sessionCount key fs k := by
  have own : Coherent (fs.filter fun fact => key fact = k) := fun a member b member' =>
    coherent a (List.mem_filter.mp member).1 b (List.mem_filter.mp member').1
  obtain ⟨_,group⟩ := grouped_own _ _ _ held
  rw [group.trans (groupOf_eq own),sessionCount]

theorem row_fact {k : String} {g : Group} (held : (grouped key {} Group.touch fs).lookup k = some g) :
    ∃ fact ∈ fs, key fact = k := by
  obtain ⟨some_,_⟩ := grouped_own _ _ _ held
  obtain ⟨fact,member⟩ := List.exists_mem_of_ne_nil _ some_
  exact ⟨fact,(List.mem_filter.mp member).1,by simpa using (List.mem_filter.mp member).2⟩

theorem details_perm (shows : DetailRow name row) (apart : Apart key name fs) (coherent : Coherent fs)
    (natural : Natural fs) (perm : fs.Perm fs') (order order' : MapOrder) (loop : ℕ) :
    sortDetails ((order.visit loop (grouped key {} Group.touch fs).rows).map row) =
      sortDetails ((order'.visit loop (grouped key {} Group.touch fs').rows).map row) := by
  apply mergeSort_perm_eq detailLess_iff
  · exact visited_perm (groups_perm key perm coherent natural) shows.reads order order' loop
  · intro a member b member' tie
    obtain ⟨⟨k,g⟩,held,rfl⟩ := List.mem_map.mp member
    obtain ⟨⟨k',g'⟩,held',rfl⟩ := List.mem_map.mp member'
    rw [(order.perm loop _).mem_iff,Table.mem_rows] at held held'
    obtain ⟨fact,own,first⟩ := row_fact held
    obtain ⟨fact',own',second⟩ := row_fact held'
    obtain ⟨sessions,names⟩ := detailRank_eq.mp tie
    rw [shows.sessions,shows.sessions,row_sessions coherent held,row_sessions coherent held',← first,← second]
      at sessions
    rw [shows.name,shows.name,← first,← second] at names
    have same : k = k' := first.symm.trans ((apart fact own fact' own' names sessions).trans second)
    subst same
    rw [held] at held'
    rw [Option.some.inj held']

theorem details_tie (shows : DetailRow name row) (coherent : Coherent fs)
    (fixed : sortDetails ((grouped key {} Group.touch fs).rows.map row) =
      sortDetails ((grouped key {} Group.touch fs).rows.reverse.map row)) : Apart key name fs := by
  intro a member b member' names sessions
  by_contra differ
  obtain ⟨g,held⟩ := Option.isSome_iff_exists.mp (grouped_mem key {} Group.touch member)
  obtain ⟨g',held'⟩ := Option.isSome_iff_exists.mp (grouped_mem key {} Group.touch member')
  have distinct : ((grouped key {} Group.touch fs).rows.map row).Nodup := by
    apply List.Nodup.map_on _ (List.Nodup.of_map Prod.fst (Table.rows_distinct _))
    intro r member r' member' same
    exact List.inj_on_of_nodup_map (Table.rows_distinct _) member member' (shows.key r r' same)
  have tie : (row (key a,g)).rank = (row (key b,g')).rank := by
    rw [detailRank_eq,shows.sessions,shows.sessions,row_sessions coherent held,row_sessions coherent held',
      shows.name,shows.name]
    exact ⟨sessions,names⟩
  have shown := List.mem_map_of_mem (f := row) ((Table.mem_rows _ _ _).mpr held)
  have shown' := List.mem_map_of_mem (f := row) ((Table.mem_rows _ _ _).mpr held')
  apply mergeSort_ties detailLess_iff distinct _ shown shown' tie
  · rw [← List.map_reverse]
    exact fixed
  · intro same
    exact differ (shows.key _ _ same)

theorem shown_fields {g g' : Group} (same : g.shown = g'.shown) : g.sessions = g'.sessions ∧ g.projects = g'.projects ∧
    g.members = g'.members ∧ g.tokens.get = g'.tokens.get := by
  simpa only [Group.shown,Prod.mk.injEq] using same

theorem memberRow_shows (f : Frame) : DetailRow (fun id => memberName (f.memberNames id)) f.memberRow where
  name := fun _ => rfl
  sessions := fun _ => rfl
  key := fun _ _ same => congrArg Detail.id same
  reads := by
    intro k g g' same
    obtain ⟨sessions,projects,-,tokens⟩ := shown_fields same
    unfold Frame.memberRow
    rw [sessions,projects,tokens]

theorem projectRow_shows (f : Frame) : DetailRow f.projectNames f.projectRow where
  name := fun _ => rfl
  sessions := fun _ => rfl
  key := fun _ _ same => congrArg Detail.id same
  reads := by
    intro k g g' same
    obtain ⟨sessions,projects,-,tokens⟩ := shown_fields same
    unfold Frame.projectRow
    rw [sessions,projects,tokens]

theorem modelRow_shows : DetailRow modelName Frame.modelRow where
  name := fun _ => rfl
  sessions := fun _ => rfl
  key := by
    intro r r' same
    have ids := congrArg Detail.id same
    have names := congrArg Detail.name same
    simp only [Frame.modelRow,modelName] at ids names
    split_ifs at ids names with first second second
    · rw [first,second]
    · rw [← ids] at names
      exact absurd names (by decide)
    · rw [ids] at names
      exact absurd names (by decide)
    · exact ids
  reads := by
    intro k g g' same
    obtain ⟨sessions,projects,-,tokens⟩ := shown_fields same
    unfold Frame.modelRow
    rw [sessions,projects,tokens]

end Details
end ATape.TeamOverview
