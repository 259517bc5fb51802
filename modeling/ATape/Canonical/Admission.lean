import ATape.Canonical.Formed
import ATape.Canonical.Rows
import Mathlib.Data.Prod.Lex

/-! What an accepted batch passed, and what it leaves: the old store when its
receipt is known, else the store with the batch written. -/
namespace ATape.Canonical
open Foundation Go Authorization SourceIdentity

/-- Versions of an event: by projection revision, then by revision. -/
def EventRecord.version (e : EventRecord) : Int ×ₗ Int := toLex (e.projectionRevision,e.revision)

theorem version_lt {a b : EventRecord} : a.version < b.version ↔
    a.projectionRevision < b.projectionRevision ∨
      a.projectionRevision = b.projectionRevision ∧ a.revision < b.revision := by
  simp [EventRecord.version,Prod.Lex.toLex_lt_toLex]

theorem version_eq {a b : EventRecord} : a.version = b.version ↔
    a.projectionRevision = b.projectionRevision ∧ a.revision = b.revision := by
  simp [EventRecord.version]

namespace MemoryStore

def eventOf (s : MemoryStore) (source : String) : Option EventRecord :=
  (s.eventBySource.lookup source).bind s.events.lookup

/-- What the verdict on an event says about the store. -/
inductive Classified (s : MemoryStore) (e : EventRecord) : Verdict → Prop
  | inserted (fresh : s.eventBySource.lookup e.sourceKey = none)
      (apart : ∀ old, s.events.lookup e.id = some old → old.sourceKey = e.sourceKey) :
      Classified s e .inserted
  | stale (id) (known : s.eventBySource.lookup e.sourceKey = some id)
      (older : e.version < ((s.events.lookup id).getD .absent).version) : Classified s e .stale
  | unchanged (id) (known : s.eventBySource.lookup e.sourceKey = some id)
      (equal : e.version = ((s.events.lookup id).getD .absent).version)
      (same : e.digest = ((s.events.lookup id).getD .absent).digest ∨
        sameEventContent e ((s.events.lookup id).getD .absent) = true) : Classified s e .unchanged
  | updated (id) (known : s.eventBySource.lookup e.sourceKey = some id)
      (newer : ((s.events.lookup id).getD .absent).version < e.version)
      (session : ((s.events.lookup id).getD .absent).sessionID = e.sessionID)
      (thread : ((s.events.lookup id).getD .absent).threadID = e.threadID) : Classified s e .updated

theorem classify_ok {s : MemoryStore} {e : EventRecord} {v : Verdict} (ok : s.classify e = .ok v) :
    s.Classified e v := by
  unfold classify at ok
  split at ok
  next fresh =>
    simp only [bind_ok,failWhen_ok,pure_ok,exists_const] at ok
    obtain ⟨apart,rfl⟩ := ok
    refine .inserted fresh ?_
    intro old held
    simpa [held] using apart
  next id known =>
    simp only [bind_ok,failWhen_ok,exists_const,not_or,not_not] at ok
    obtain ⟨⟨session,thread⟩,ok⟩ := ok
    split at ok
    next older =>
      cases ok
      exact .stale id known (version_lt.mpr (.inl older))
    next projection =>
      split at ok
      next older =>
        cases ok
        exact .stale id known (version_lt.mpr (.inr older))
      next revision =>
        split at ok
        next equal =>
          cases ok
          exact .unchanged id known (version_eq.mpr ⟨equal.1,equal.2.1⟩) equal.2.2
        next =>
          split at ok
          next => cases ok
          next different =>
            cases ok
            refine .updated id known (version_lt.mpr ?_) session thread
            omega

structure Accepted (s : MemoryStore) (principal : Principal) (w : WriteBatch) (verdicts : List Verdict) :
    Prop where
  session : ∀ old, s.sessions.lookup w.session.id = some old → old.sourceKey = w.session.sourceKey ∧
    old.projectID = w.session.projectID ∧ old.capturedByUserID = principal.userID ∧
    (old.revision = w.session.revision → old.digest = w.session.digest)
  threads : ∀ t ∈ w.threads, ∀ old, s.threads.lookup (threadKey t) = some old →
    old.sourceKey = t.sourceKey ∧ old.parentThreadID = t.parentThreadID ∧
    (old.revision = t.revision → old.digest = t.digest)
  events : List.Forall₂ s.Classified w.events verdicts
  usage : ∀ u ∈ w.usage, ∀ old, s.usage.lookup u.sourceKey = some old →
    old.revision = u.revision → old.digest = u.digest

theorem check_ok {s : MemoryStore} {principal : Principal} {w : WriteBatch} {verdicts : List Verdict}
    (ok : s.check principal w = .ok verdicts) : s.Accepted principal w verdicts := by
  simp only [check,bind_ok,forM_ok,mapM_ok,pure_ok,exists_const] at ok
  obtain ⟨_,session,threads,_,events,usage,rfl⟩ := ok
  refine ⟨?_,?_,events.imp fun _ _ => classify_ok,?_⟩
  · intro old held
    simp only [checkSession,held,bind_ok,failWhen_ok,exists_const,not_not,not_and] at session
    exact session
  · intro t member old held
    have checked := threads t member
    unfold threadKey at held
    simp only [checkThread,held,bind_ok,failWhen_ok,exists_const,not_not,not_and] at checked
    exact checked
  · intro u member old held equal
    have checked := usage u member
    simp only [checkUsage,held,failWhen_ok] at checked
    simpa [equal] using checked

structure Admitted (s : MemoryStore) (principal : Principal) (w : WriteBatch) : Prop where
  alive : s.deletedSessions.lookup w.session.id = none
  project : w.session.projectID = w.projectID
  user : w.session.capturedByUserID = principal.userID

theorem admission_ok {s : MemoryStore} {principal : Principal} {w : WriteBatch} {u : Unit}
    (ok : s.admission principal w = .ok u) : s.Admitted principal w := by
  simp only [admission,bind_ok,failWhen_ok,exists_const,not_or,not_not] at ok
  obtain ⟨_,_,_,⟨project,user⟩,alive⟩ := ok
  exact ⟨by simpa using alive,project,user⟩

theorem applyBatch_ok {s s' : MemoryStore} {received : Nat → Time} {order : Order} {principal : Principal}
    {w : WriteBatch} {result : ApplyResult}
    (ok : s.applyBatch received order principal w = .ok (result,s')) :
    s.Admitted principal w ∧
      ((∃ receipt, s.batchReceipts.lookup w.key = some receipt ∧ receipt.digest = w.digest ∧ s' = s) ∨
        (s.batchReceipts.lookup w.key = none ∧ ∃ verdicts, s.Accepted principal w verdicts ∧
          result = s.summarize w verdicts ∧
          s' = s.write received order w (applied w verdicts) result)) := by
  simp only [applyBatch,bind_ok] at ok
  obtain ⟨_,admitted,ok⟩ := ok
  refine ⟨admission_ok admitted,?_⟩
  split at ok
  next receipt known =>
    simp only [bind_ok,failWhen_ok,pure_ok,exists_const,not_not,Prod.mk.injEq] at ok
    exact .inl ⟨receipt,known,ok.1,ok.2.2.symm⟩
  next unknown =>
    simp only [bind_ok,pure_ok,Prod.mk.injEq] at ok
    obtain ⟨verdicts,checked,rfl,rfl⟩ := ok
    exact .inr ⟨unknown,verdicts,check_ok checked,rfl,rfl⟩

/-! The written events of a batch -/

theorem zip_sublist {α β : Type} (as : List α) (bs : List β) : ((as.zip bs).map Prod.fst).Sublist as := by
  induction as generalizing bs with
  | nil => simp
  | cons a as ih =>
    cases bs with
    | nil => simp
    | cons b bs => exact (ih bs).cons_cons a

theorem applied_sublist {w : WriteBatch} {verdicts : List Verdict} : (applied w verdicts).Sublist w.events :=
  (List.filter_sublist.map Prod.fst).trans (zip_sublist _ _)

theorem mem_applied {s : MemoryStore} {w : WriteBatch} {verdicts : List Verdict}
    (classified : List.Forall₂ s.Classified w.events verdicts) {e : EventRecord}
    (member : e ∈ applied w verdicts) : s.Classified e .inserted ∨ s.Classified e .updated := by
  unfold applied at member
  obtain ⟨⟨e',v⟩,kept,rfl⟩ := List.mem_map.mp member
  obtain ⟨zipped,apply⟩ := List.mem_filter.mp kept
  have known := (List.forall₂_iff_zip.mp classified).2 zipped
  cases v with
  | inserted => exact .inl known
  | updated => exact .inr known
  | stale => simp [Verdict.apply] at apply
  | unchanged => simp [Verdict.apply] at apply

theorem not_mem_applied {s : MemoryStore} {w : WriteBatch} {verdicts : List Verdict}
    (classified : List.Forall₂ s.Classified w.events verdicts) {e : EventRecord} (member : e ∈ w.events)
    (skipped : e ∉ applied w verdicts) : s.Classified e .stale ∨ s.Classified e .unchanged := by
  obtain ⟨size,each⟩ := List.forall₂_iff_zip.mp classified
  obtain ⟨v,zipped⟩ : ∃ v, (e,v) ∈ w.events.zip verdicts := by
    have firsts : (w.events.zip verdicts).map Prod.fst = w.events := List.map_fst_zip size.le
    rw [← firsts] at member
    obtain ⟨⟨e',v⟩,zipped,rfl⟩ := List.mem_map.mp member
    exact ⟨v,zipped⟩
  have known := each zipped
  have idle : v.apply ≠ true := by
    intro apply
    exact skipped (List.mem_map.mpr ⟨(e,v),List.mem_filter.mpr ⟨zipped,apply⟩,rfl⟩)
  cases v with
  | inserted => simp [Verdict.apply] at idle
  | updated => simp [Verdict.apply] at idle
  | stale => exact .inl known
  | unchanged => exact .inr known

end MemoryStore
end ATape.Canonical
