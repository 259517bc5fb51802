import ATape.Foundation.Outcome
import ATape.Foundation.Ranks
import ATape.Foundation.Table

/-! The retained ranks of the files of each session of a Codex archive. -/
namespace ATape.Codex
open Foundation Ranks

def sourceOrderStride : Nat := 2^39

def sourceOrderBase : Nat := 2^48

def maxSourceRanksPerSession : Nat := 10000

/-- `Number.MAX_SAFE_INTEGER` -/
def maxSafeInteger : Nat := 2^53-1

inductive Reason
  | configuration
  | io
  | format
  | cursor
  | limit
deriving DecidableEq

structure CodexArchiveError where
  reason : Reason
  message : String
deriving DecidableEq

abbrev Result := Except CodexArchiveError

structure CursorFile where
  sourceObjectID : String
  sourceName : String
  generation : String
  size : Nat
  threadID : String
  startOffset : Option Nat
  sourceRank : Option Nat
deriving DecidableEq

structure Source where
  sourceObjectID : String
  generation : String
  rank : Nat
deriving DecidableEq

abbrev SourceRanks := Table String (List Source)

structure Snapshot where
  sessionID : String
  files : List CursorFile

/-- The source writes these two as a JSON text. -/
structure SourceRankKey where
  sourceObjectID : String
  generation : String
deriving DecidableEq

def Source.key (source : Source) : SourceRankKey := ⟨source.sourceObjectID,source.generation⟩

def CursorFile.key (file : CursorFile) : SourceRankKey := ⟨file.sourceObjectID,file.generation⟩

/-- A file of a session, with the next rank to give. -/
def assignFile (sessionID : String) (sources : List Source) (nextRank : Nat) (file : CursorFile) :
    Result (List Source × Nat) :=
  if file.key ∈ sources.map Source.key then pure (sources,nextRank)
  else do
    failWhen (nextRank > maxSourceRanksPerSession)
      ⟨.limit,"Codex Session "++sessionID++" exceeds the retained source order namespace limit."⟩
    pure (sources++[⟨file.sourceObjectID,file.generation,nextRank⟩],nextRank+1)

def assignFiles (sessionID : String) : List Source → Nat → List CursorFile → Result (List Source × Nat)
  | sources,nextRank,[] => pure (sources,nextRank)
  | sources,nextRank,file::files => do
    let (sources,nextRank) ← assignFile sessionID sources nextRank file
    assignFiles sessionID sources nextRank files

def assignSnapshots : SourceRanks → List Snapshot → Result SourceRanks
  | sessions,[] => pure sessions
  | sessions,snapshot::snapshots => do
    let sources := (sessions.lookup snapshot.sessionID).getD []
    let (sources,_) ← assignFiles snapshot.sessionID sources (top Source.rank sources+1) snapshot.files
    let sessions := sessions.insert snapshot.sessionID sources
    failWhen (Table.size sessions > 10000)
      ⟨.limit,"The Codex retained Session order registry exceeds its Session limit."⟩
    assignSnapshots sessions snapshots

def assignSourceRanks (prior : Option SourceRanks) (snapshots : List Snapshot) : Result SourceRanks :=
  assignSnapshots (prior.getD ∅) snapshots

def rankOf (registry : SourceRanks) (sessionID : String) (key : SourceRankKey) : Option Nat :=
  (((registry.lookup sessionID).getD []).reverse.find? fun source => source.key = key).map Source.rank

/-! What the registry keeps. -/

abbrev Kept : List Source → Prop := Ranked Source.key Source.rank maxSourceRanksPerSession

def Registered (registry : SourceRanks) : Prop := ∀ sessionID sources, registry.lookup sessionID = some sources → Kept sources

def Extends (registry later : SourceRanks) : Prop :=
  ∀ sessionID, (registry.lookup sessionID).getD [] <+: (later.lookup sessionID).getD []

theorem Extends.refl (registry : SourceRanks) : Extends registry registry := fun _ => List.prefix_rfl

theorem Extends.trans {first second third : SourceRanks} (left : Extends first second) (right : Extends second third) :
    Extends first third :=
  fun sessionID => (left sessionID).trans (right sessionID)

theorem Registered.kept {registry : SourceRanks} (registered : Registered registry) (sessionID : String) :
    Kept ((registry.lookup sessionID).getD []) := by
  cases found : registry.lookup sessionID with
  | none => exact Ranked.nil _
  | some sources => exact registered sessionID sources found

theorem rankOf_iff {registry : SourceRanks} (registered : Registered registry) (sessionID : String) (key : SourceRankKey)
    (rank : Nat) : rankOf registry sessionID key = some rank ↔
      ⟨key.sourceObjectID,key.generation,rank⟩ ∈ (registry.lookup sessionID).getD [] := by
  have kept := registered.kept sessionID
  unfold rankOf
  constructor
  · intro found
    obtain ⟨source,first,rfl⟩ := Option.map_eq_some_iff.mp found
    have same : source.key = key := by simpa using List.find?_some first
    rw [← same]
    exact List.mem_reverse.mp (List.mem_of_find?_eq_some first)
  · intro member
    cases found : ((registry.lookup sessionID).getD []).reverse.find? (fun source => source.key = key) with
    | none =>
      exact absurd (List.find?_eq_none.mp found _ (List.mem_reverse.mpr member)) (by simp [Source.key])
    | some source =>
      have same : source.key = key := by simpa using List.find?_some found
      have listed := List.mem_reverse.mp (List.mem_of_find?_eq_some found)
      have one := (kept.rank_iff listed member).mpr same
      rw [Option.map_some,one]

theorem rankOf_extends {registry later : SourceRanks} (registered : Registered registry) (registered' : Registered later)
    (longer : Extends registry later) {sessionID : String} {key : SourceRankKey} {rank : Nat}
    (known : rankOf registry sessionID key = some rank) : rankOf later sessionID key = some rank := by
  rw [rankOf_iff registered] at known
  rw [rankOf_iff registered']
  exact (longer sessionID).subset known

theorem rankOf_bounds {registry : SourceRanks} (registered : Registered registry) {sessionID : String}
    {key : SourceRankKey} {rank : Nat} (known : rankOf registry sessionID key = some rank) :
    1 ≤ rank ∧ rank ≤ maxSourceRanksPerSession := by
  rw [rankOf_iff registered] at known
  exact (registered.kept sessionID).bounded _ known

theorem rankOf_inj {registry : SourceRanks} (registered : Registered registry) {sessionID : String}
    {key key' : SourceRankKey} {rank rank' : Nat} (known : rankOf registry sessionID key = some rank)
    (known' : rankOf registry sessionID key' = some rank') : rank = rank' ↔ key = key' := by
  rw [rankOf_iff registered] at known known'
  exact (registered.kept sessionID).rank_iff known known'

/-! Assignment. -/

theorem assignFile_ok {sessionID : String} {sources sources' : List Source} {nextRank nextRank' : Nat} {file : CursorFile}
    (ok : assignFile sessionID sources nextRank file = .ok (sources',nextRank')) (kept : Kept sources)
    (next : nextRank = top Source.rank sources+1) :
    Kept sources' ∧ nextRank' = top Source.rank sources'+1 ∧ sources <+: sources' ∧
      file.key ∈ sources'.map Source.key := by
  unfold assignFile at ok
  split at ok
  next known =>
    cases ok
    exact ⟨kept,next,List.prefix_rfl,known⟩
  next fresh =>
    simp only [bind_ok,failWhen_ok,pure_ok,exists_const] at ok
    obtain ⟨fits,same⟩ := ok
    cases same
    refine ⟨kept.append fresh ?_ ?_,?_,List.prefix_append _ _,by simp [Source.key,CursorFile.key]⟩
    · rw [next]
      exact Nat.lt_succ_self _
    · exact Nat.le_of_not_gt fits
    · rw [top_append,next,Nat.max_eq_right (Nat.le_succ _)]

theorem assignFiles_ok {sessionID : String} {sources sources' : List Source} {nextRank nextRank' : Nat}
    {files : List CursorFile} (ok : assignFiles sessionID sources nextRank files = .ok (sources',nextRank'))
    (kept : Kept sources) (next : nextRank = top Source.rank sources+1) :
    Kept sources' ∧ sources <+: sources' ∧ ∀ file ∈ files, file.key ∈ sources'.map Source.key := by
  induction files generalizing sources nextRank with
  | nil =>
    cases ok
    exact ⟨kept,List.prefix_rfl,by simp⟩
  | cons file files ih =>
    simp only [assignFiles,bind_ok] at ok
    obtain ⟨⟨middle,middleRank⟩,first,ok⟩ := ok
    obtain ⟨kept',next',longer,known⟩ := assignFile_ok first kept next
    obtain ⟨kept'',longer',later⟩ := ih ok kept' next'
    refine ⟨kept'',longer.trans longer',?_⟩
    intro f member
    rcases List.mem_cons.mp member with rfl | others
    · exact (longer'.map Source.key).subset known
    · exact later f others

theorem assignSnapshots_ok {sessions sessions' : SourceRanks} {snapshots : List Snapshot}
    (ok : assignSnapshots sessions snapshots = .ok sessions') (registered : Registered sessions) :
    Registered sessions' ∧ Extends sessions sessions' ∧ ∀ snapshot ∈ snapshots, ∀ file ∈ snapshot.files,
      file.key ∈ ((sessions'.lookup snapshot.sessionID).getD []).map Source.key := by
  induction snapshots generalizing sessions with
  | nil =>
    cases ok
    exact ⟨registered,.refl _,by simp⟩
  | cons snapshot snapshots ih =>
    simp only [assignSnapshots,bind_ok,failWhen_ok,exists_const] at ok
    obtain ⟨⟨sources,nextRank⟩,assigned,_,ok⟩ := ok
    obtain ⟨kept,longer,known⟩ := assignFiles_ok assigned (registered.kept _) rfl
    have registered' : Registered (sessions.insert snapshot.sessionID sources) := by
      intro sessionID sources' found
      rw [Table.lookup_insert] at found
      split at found
      next =>
        cases found
        exact kept
      next => exact registered sessionID sources' found
    have extended : Extends sessions (sessions.insert snapshot.sessionID sources) := by
      intro sessionID
      rw [Table.lookup_insert]
      split
      next same =>
        rw [same]
        exact longer
      next => exact List.prefix_rfl
    obtain ⟨registered'',extended',later⟩ := ih ok registered'
    refine ⟨registered'',extended.trans extended',?_⟩
    intro other member file listed
    rcases List.mem_cons.mp member with rfl | others
    · have prefixed := extended' other.sessionID
      rw [Table.lookup_insert,if_pos rfl,Option.getD_some] at prefixed
      exact (prefixed.map Source.key).subset (known file listed)
    · exact later other others file listed

theorem registered_empty : Registered ∅ := by
  intro sessionID sources found
  simp at found

/-! The order of an event. -/

def sourceOrder (rank offset : Nat) : Nat := sourceOrderBase+rank*sourceOrderStride+offset

theorem sourceOrder_inj {rank rank' offset offset' : Nat} (inside : offset < sourceOrderStride)
    (inside' : offset' < sourceOrderStride) :
    sourceOrder rank offset = sourceOrder rank' offset' ↔ rank = rank' ∧ offset = offset' := by
  constructor
  · exact coordinate_inj inside inside'
  · rintro ⟨rfl,rfl⟩
    rfl

theorem sourceOrder_lt {rank offset offset' : Nat} (before : offset < offset') :
    sourceOrder rank offset < sourceOrder rank offset' := Nat.add_lt_add_left before _

theorem sourceOrder_safe {rank offset : Nat} (known : rank ≤ maxSourceRanksPerSession) (inside : offset < sourceOrderStride) :
    sourceOrder rank offset ≤ maxSafeInteger := by
  unfold sourceOrder sourceOrderBase sourceOrderStride maxSafeInteger at *
  unfold maxSourceRanksPerSession at known
  have ranks := Nat.mul_le_mul_right (2^39) known
  omega

end ATape.Codex
