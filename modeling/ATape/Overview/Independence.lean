import ATape.Overview.Order

/-! The whole answer of an aggregation is the same for every order of its facts and of its maps, unless the
rows of a detail table tie. -/
namespace ATape.TeamOverview
open Foundation Go

section Trend

theorem splitDay_join {key : String} (has : '\x00' ∈ key.toList) :
    key.toList = (splitDay key).1.toList++ '\x00' ::(splitDay key).2.toList := by
  have rest : key.toList.dropWhile (· ≠ '\x00') ≠ [] := by
    intro empty
    have all := List.dropWhile_eq_nil_iff.mp empty '\x00' has
    simp at all
  have separator := List.head_dropWhile_not (· ≠ '\x00') rest
  have head : (key.toList.dropWhile (· ≠ '\x00')).head rest = '\x00' := by simpa using separator
  have parts := List.takeWhile_append_dropWhile (p := (· ≠ '\x00')) (l := key.toList)
  rw [← List.cons_head_tail rest,head] at parts
  simpa [splitDay] using parts.symm

theorem splitDay_inj {key key' : String} (has : '\x00' ∈ key.toList) (has' : '\x00' ∈ key'.toList)
    (same : splitDay key = splitDay key') : key = key' := by
  apply String.toList_inj.mp
  rw [splitDay_join has,splitDay_join has',same]

def Bucket.rank (b : Bucket) : String ×ₗ String := toLex (b.date,b.agent)

theorem bucketLess_iff (a b : Bucket) : a.less b = true ↔ a.rank < b.rank := by
  simp only [Bucket.less,Bucket.rank,Prod.Lex.toLex_lt_toLex,Bool.or_eq_true,Bool.and_eq_true,decide_eq_true_eq]

theorem trend_perm (f : Frame) {fs fs' : List Fact} (coherent : Coherent fs) (natural : Natural fs)
    (perm : fs.Perm fs') (order order' : MapOrder) :
    (((order.visit 0 (grouped f.dayKey {} Group.touch fs).rows).map Frame.bucketRow).mergeSort fun a b => !b.less a) =
      ((order'.visit 0 (grouped f.dayKey {} Group.touch fs').rows).map Frame.bucketRow).mergeSort
        fun a b => !b.less a := by
  apply mergeSort_perm_eq bucketLess_iff
  · apply visited_perm (groups_perm f.dayKey perm coherent natural)
    intro k g g' same
    obtain ⟨sessions,-,members,tokens⟩ := shown_fields same
    unfold Frame.bucketRow
    rw [sessions,members,tokens]
  · intro a member b member' tie
    obtain ⟨⟨k,g⟩,held,rfl⟩ := List.mem_map.mp member
    obtain ⟨⟨k',g'⟩,held',rfl⟩ := List.mem_map.mp member'
    rw [(order.perm 0 _).mem_iff,Table.mem_rows] at held held'
    obtain ⟨fact,_,first⟩ := row_fact held
    obtain ⟨fact',_,second⟩ := row_fact held'
    have has : ∀ fact, '\x00' ∈ (f.dayKey fact).toList := by
      intro fact
      simp [Frame.dayKey]
    have same : k = k' := splitDay_inj (first ▸ has fact) (second ▸ has fact') (toLex_inj.mp tie)
    subst same
    rw [held] at held'
    rw [Option.some.inj held']

end Trend

namespace Frame
variable {f : Frame} {s s' : OverviewSnapshot}

/-- The rows of the detail tables have an order of their own. -/
def Told (f : Frame) (s : OverviewSnapshot) : Prop :=
  Apart memberKey (fun id => memberName (f.memberNames id)) (f.facts s) ∧
    Apart projectKey f.projectNames (f.facts s) ∧ Apart modelKey modelName (s.usage.filterMap f.usageFact)

structure Stable (f : Frame) (s s' : OverviewSnapshot) : Prop where
  formed : s.Formed
  same : s.Permuted s'
  own : ∀ id v, f.sessions id = some v → v.id = id

namespace Stable
variable (stable : f.Stable s s')
include stable

theorem coherent : Coherent (f.facts s) := facts_coherent stable.own s

theorem natural : Natural (f.facts s) := facts_natural stable.formed

theorem perm : (f.facts s).Perm (f.facts s') := facts_perm stable.same

theorem metricsOf_eq : metricsOf s (f.scan s) = metricsOf s' (f.scan s') := by
  obtain ⟨sessions,projects,members,tokens⟩ := shown_fields (groupOf_perm stable.perm stable.coherent stable.natural)
  unfold metricsOf
  rw [f.scan_all,f.scan_all,f.scan_messages,f.scan_messages,sessions,projects,members,tokens,
    stable.same.members.countP_eq,messages_perm (rootMessages_perm true stable.same)]

section Details
variable (details : f.details = true)
include details

theorem latestOf_eq (id : String) : (latestOf (f.scan s) id).nanos = (latestOf (f.scan s') id).nanos := by
  have instants := congrFun (raises_perm stable.perm) id
  unfold latestOf
  rw [f.scan_latest s details,f.scan_latest s' details]
  exact instants

theorem previewOf_eq (id : String) : previewOf (f.scan s) id = previewOf (f.scan s') id := by
  have messages : ∀ own, ((f.rootMessages s own).foldl keepMessage ∅).lookup id =
      ((f.rootMessages s' own).foldl keepMessage ∅).lookup id := fun own =>
    congrFun (keepsLater_perm (rootMessages_perm own stable.same) (rootMessages_apart stable.formed own)) id
  unfold previewOf
  rw [f.scan_input s details,f.scan_input s' details,f.scan_output s details,f.scan_output s' details,messages,messages]

theorem previews_eq (id : String) : ((f.scan s).bySession.lookup id).map (fun _ => previewOf (f.scan s) id) =
    ((f.scan s').bySession.lookup id).map fun _ => previewOf (f.scan s') id := by
  have groups := congrArg (Option.map fun _ => previewOf (f.scan s) id)
    (groups_perm sessionKey stable.perm stable.coherent stable.natural id)
  rw [Option.map_map,Option.map_map] at groups
  rw [f.scan_bySession s details,f.scan_bySession s' details,← stable.previewOf_eq details]
  exact groups

/-- The last activity of a session, then its identity. -/
def sessionRank (scan : Scan) (a : Session) : ℤᵒᵈ ×ₗ String :=
  toLex (OrderDual.toDual (latestOf scan a.id).nanos,a.id)

omit stable details in
theorem sessionLess_iff (scan : Scan) (a b : Session) :
    sessionLess scan a b = true ↔ sessionRank scan a < sessionRank scan b := by
  simp only [sessionLess,sessionRank,Time.after,Time.equal,Prod.Lex.toLex_lt_toLex,OrderDual.toDual_lt_toDual,
    OrderDual.toDual_inj,Bool.or_eq_true,Bool.and_eq_true,decide_eq_true_eq]

theorem sessions_eq (order order' : MapOrder) :
    (((order.visit 4 (f.scan s).bySession.rows).map (f.sessionRow (f.scan s))).mergeSort fun a b =>
        !sessionLess (f.scan s) b a) =
      ((order'.visit 4 (f.scan s').bySession.rows).map (f.sessionRow (f.scan s'))).mergeSort fun a b =>
        !sessionLess (f.scan s') b a := by
  have less : sessionLess (f.scan s') = sessionLess (f.scan s) := by
    funext a b
    unfold sessionLess Time.after Time.equal
    rw [stable.latestOf_eq details,stable.latestOf_eq details]
  have rows : f.sessionRow (f.scan s') = f.sessionRow (f.scan s) := by
    funext row
    unfold sessionRow Time.utc
    rw [stable.latestOf_eq details]
  rw [less,rows,f.scan_bySession s details,f.scan_bySession s' details]
  apply mergeSort_perm_eq (sessionLess_iff (f.scan s))
  · apply visited_perm (groups_perm sessionKey stable.perm stable.coherent stable.natural)
    intro k g g' same
    unfold sessionRow
    rw [(shown_fields same).2.2.2]
  · intro a member b member' tie
    obtain ⟨⟨k,g⟩,held,rfl⟩ := List.mem_map.mp member
    obtain ⟨⟨k',g'⟩,held',rfl⟩ := List.mem_map.mp member'
    rw [(order.perm 4 _).mem_iff,Table.mem_rows] at held held'
    have same : k = k' := (Prod.mk.inj (toLex_inj.mp tie)).2
    subst same
    rw [held] at held'
    rw [Option.some.inj held']

end Details

theorem usage_coherent : Coherent (s.usage.filterMap f.usageFact) := fun a member b member' =>
  stable.coherent a (usageFacts_of_facts member) b (usageFacts_of_facts member')

theorem usage_natural : Natural (s.usage.filterMap f.usageFact) := fun fact member =>
  stable.natural fact (usageFacts_of_facts member)

theorem report_eq (told : f.mode = .overview → Told f s) (order order' : MapOrder) :
    f.report order s (f.scan s) = f.report order' s' (f.scan s') := by
  unfold report
  rw [stable.metricsOf_eq]
  by_cases plain : f.details = false
  · rw [if_pos plain,if_pos plain]
  · have details : f.details = true := by simpa using plain
    rw [if_neg plain,if_neg plain,stable.sessions_eq details order order',f.scan_byDay,f.scan_byDay,f.scan_byMember,
      f.scan_byMember,f.scan_byProject,f.scan_byProject,f.scan_byModel,f.scan_byModel]
    simp only [stable.previews_eq details]
    by_cases overview : f.mode = .overview
    · obtain ⟨members,projects,models⟩ := told overview
      simp only [if_pos overview]
      rw [trend_perm f stable.coherent stable.natural stable.perm order order',
        details_perm (memberRow_shows f) members stable.coherent stable.natural stable.perm order order',
        details_perm (projectRow_shows f) projects stable.coherent stable.natural stable.perm order order',
        details_perm modelRow_shows models stable.usage_coherent stable.usage_natural
          (stable.same.usage.filterMap _) order order']
    · simp only [if_neg overview]
      have none_ : ∀ (order : MapOrder) (loop : ℕ), order.visit loop (∅ : Table String Group).rows = [] :=
        fun order loop => List.perm_nil.mp (order.perm loop [])
      simp only [none_]

theorem told_of_report (overview : f.mode = .overview)
    (fixed : f.report .same s (f.scan s) = f.report .reverse s (f.scan s)) : Told f s := by
  have details : ¬f.details = false := by
    simp [Frame.details,overview]
  unfold report at fixed
  rw [if_neg details,if_neg details] at fixed
  have members := congrArg Aggregation.members fixed
  have projects := congrArg Aggregation.projects fixed
  have models := congrArg Aggregation.models fixed
  dsimp only at members projects models
  rw [f.scan_byMember,if_pos overview] at members
  rw [f.scan_byProject,if_pos overview] at projects
  rw [f.scan_byModel,if_pos overview] at models
  exact ⟨details_tie (memberRow_shows f) stable.coherent members,
    details_tie (projectRow_shows f) stable.coherent projects,
    details_tie modelRow_shows stable.usage_coherent models⟩

end Stable
end Frame

section Aggregate
variable {s : OverviewSnapshot} (formed : s.Formed) (q : Query) (start stop : Time) (day : Time → String)
  (mode : AggregationMode)
include formed

theorem frame_stable {s' : OverviewSnapshot} (same : s.Permuted s') : (s.frame q start stop day mode).Stable s s' :=
  ⟨formed,same,fun _ _ found => OverviewSnapshot.frame_sessions formed found⟩

/-- The overview of a set of facts is the same in every order exactly when it has no detail tables or no two
of their rows have one name and equally many sessions. -/
theorem aggregate_order : (∀ s', s.Permuted s' → ∀ order order' : MapOrder,
      aggregate order s q start stop day mode = aggregate order' s' q start stop day mode) ↔
    (mode = .overview → (s.frame q start stop day mode).Told s) := by
  constructor
  · intro fixed overview
    exact (frame_stable formed q start stop day mode (.refl s)).told_of_report overview
      (fixed s (.refl s) .same .reverse)
  · intro told s' same order order'
    unfold aggregate
    rw [← OverviewSnapshot.frame_perm formed same]
    exact (frame_stable formed q start stop day mode same).report_eq told order order'

end Aggregate

section Namesakes

def julyFirst : Time := ⟨63918460800000000000,0⟩

/-- The date of an instant eight hours east of UTC. -/
def singaporeDay (t : Time) : String := String.ofList ((Time.formatRFC3339 ⟨t.nanos,480⟩).take 10)

def namesakes : OverviewSnapshot where
  members := [⟨"u_1","Ada",true⟩]
  projects := [⟨"p_1","t_1","Atlas","git","active"⟩,⟨"p_2","t_1","Atlas","git","active"⟩]
  sessions := [⟨"s_1","p_1","u_1","First",⟨"codex","codex"⟩⟩,⟨"s_2","p_2","u_1","Second",⟨"codex","codex"⟩⟩]
  events := [⟨"e_1","s_1","codex",julyFirst,1,0,true⟩,⟨"e_2","s_2","codex",julyFirst,1,0,true⟩]
  usage := []

theorem namesakes_formed : namesakes.Formed where
  members := by decide
  projects := by decide
  sessions := by decide
  events := by decide
  usage := by
    intro u member
    cases member

theorem namesakes_order : namesakes.Formed ∧ ((∀ s', namesakes.Permuted s' → ∀ order order' : MapOrder,
      aggregate order namesakes {} julyFirst ⟨julyFirst.nanos+dayNanos,0⟩ singaporeDay .session =
        aggregate order' s' {} julyFirst ⟨julyFirst.nanos+dayNanos,0⟩ singaporeDay .session) ↔
    (AggregationMode.session = .overview →
      (namesakes.frame {} julyFirst ⟨julyFirst.nanos+dayNanos,0⟩ singaporeDay .session).Told namesakes)) :=
  ⟨namesakes_formed,aggregate_order namesakes_formed {} julyFirst _ singaporeDay .session⟩

/-- The same facts, read twice, list the two projects in either order. -/
theorem namesakes_swapped : namesakes.Formed ∧
    aggregate .same namesakes {} julyFirst ⟨julyFirst.nanos+dayNanos,0⟩ singaporeDay .overview ≠
      aggregate .reverse namesakes {} julyFirst ⟨julyFirst.nanos+dayNanos,0⟩ singaporeDay .overview := by
  refine ⟨namesakes_formed,fun fixed => ?_⟩
  let f := namesakes.frame {} julyFirst ⟨julyFirst.nanos+dayNanos,0⟩ singaporeDay .overview
  have told : f.Told namesakes :=
    (frame_stable namesakes_formed _ _ _ _ _ (.refl namesakes)).told_of_report rfl fixed
  have facts : f.facts namesakes = [⟨⟨"s_1","p_1","u_1","First",⟨"codex","codex"⟩⟩,julyFirst,none⟩,
      ⟨⟨"s_2","p_2","u_1","Second",⟨"codex","codex"⟩⟩,julyFirst,none⟩] := by decide
  have projects := told.2.1
  rw [Apart,facts] at projects
  have same := projects _ List.mem_cons_self _ (List.mem_cons_of_mem _ List.mem_cons_self) (by decide)
    (by decide)
  exact absurd same (by decide)

end Namesakes
end ATape.TeamOverview
