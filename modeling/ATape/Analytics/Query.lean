import ATape.Analytics.Buckets
import ATape.Canonical.Model
import ATape.Foundation.Outcome
import ATape.Go.Base64

/-! What an analysis of one session is asked, and the snapshot that it is made of. -/
namespace ATape.SessionAnalytics
open Foundation Go SourceIdentity
open Canonical (SessionRecord ThreadRecord EventRecord UsageRecord)

def version : ℕ := 2

def activityVersion : ℕ := 3

def stableToolVersion : ℕ := 4

def tokenActivityVersion : ℕ := 5

structure Query where
  snapshot : String := ""
  metric : String := ""
  thread : String := ""
  tool : String := ""
  capability : String := ""
  server : String := ""
  cursor : String := ""
  range : String := ""
  file : String := ""
  operation : String := ""
  model : String := ""
  tokenRange : String := ""
  limit : ℤ := 0
  analyticsVersion : ℕ := 0
deriving DecidableEq

inductive Failure
  | invalidQuery (field reason : String)
  | capacity
  | outside (what : String)
deriving DecidableEq

structure AnalyticsSnapshot where
  snapshotToken : String
  head : String
  session : SessionRecord
  threads : List ThreadRecord
  events : List EventRecord
  usage : List UsageRecord

def Query.inThread (q : Query) (thread : String) : Bool := q.thread = "" || thread = q.thread

inductive ClockQuality
  | unknown
  | recorded
  | legacy
deriving DecidableEq

def clockQuality (event : EventRecord) : ClockQuality :=
  if event.occurredAt.isZero = true then .unknown
  else if event.schemaVersion ∈ ["atape.acp-centered.v3","atape.acp-centered.v4","atape.acp-centered.v5"] then .recorded
  else .legacy

structure Recorded where
  count : ℕ := 0
  first : Time := .zero
  last : Time := .zero
deriving DecidableEq

def Recorded.add (r : Recorded) (at_ : Time) : Recorded where
  count := r.count+1
  first := if r.count = 0 ∨ at_.before r.first = true then at_ else r.first
  last := if r.count = 0 ∨ at_.after r.last = true then at_ else r.last

def recordedOf (instants : List Time) : Recorded := instants.foldl Recorded.add {}

structure Recorded.Spans (r : Recorded) (instants : List Time) : Prop where
  count : r.count = instants.length
  first : instants ≠ [] → r.first ∈ instants
  last : instants ≠ [] → r.last ∈ instants
  inside : ∀ at_ ∈ instants, r.first.nanos ≤ at_.nanos ∧ at_.nanos ≤ r.last.nanos

theorem Recorded.Spans.add {r : Recorded} {instants : List Time} (spans : r.Spans instants) (at_ : Time) :
    (r.add at_).Spans (instants++[at_]) := by
  by_cases none_ : r.count = 0
  · have nothing : instants = [] := List.length_eq_zero_iff.mp (spans.count.symm.trans none_)
    subst nothing
    simp only [Recorded.add,none_,true_or,if_true,List.nil_append]
    exact ⟨rfl,fun _ => List.mem_singleton_self _,fun _ => List.mem_singleton_self _,
      fun at' member => by rw [List.mem_singleton.mp member]; exact ⟨le_rfl,le_rfl⟩⟩
  · have some_ : instants ≠ [] := by
      rintro rfl
      exact none_ spans.count
    have bounds := spans.inside
    have firstIn := bounds _ (spans.first some_)
    have lastIn := bounds _ (spans.last some_)
    simp only [Recorded.add,none_,false_or]
    refine ⟨?_,fun _ => ?_,fun _ => ?_,?_⟩
    · rw [List.length_append,spans.count]
      rfl
    · dsimp only
      split
      next => exact List.mem_append_right _ (List.mem_singleton_self _)
      next => exact List.mem_append_left _ (spans.first some_)
    · dsimp only
      split
      next => exact List.mem_append_right _ (List.mem_singleton_self _)
      next => exact List.mem_append_left _ (spans.last some_)
    · intro at' member
      simp only [Time.before,Time.after,decide_eq_true_eq]
      rcases List.mem_append.mp member with old|new
      · have inside := bounds at' old
        constructor
        · split <;> omega
        · split <;> omega
      · obtain rfl := List.mem_singleton.mp new
        constructor
        · split <;> omega
        · split <;> omega

theorem recordedOf_spans (instants : List Time) : (recordedOf instants).Spans instants := by
  have run : ∀ (later before : List Time) (r : Recorded), r.Spans before →
      (later.foldl Recorded.add r).Spans (before++later) := by
    intro later
    induction later with
    | nil =>
      intro before r spans
      rw [List.append_nil]
      exact spans
    | cons at_ later ih =>
      intro before r spans
      rw [List.append_cons]
      exact ih _ _ (spans.add at_)
  have start : ({} : Recorded).Spans [] := by
    refine ⟨rfl,fun some_ => absurd rfl some_,fun some_ => absurd rfl some_,?_⟩
    exact List.forall_mem_nil _
  exact run instants [] {} start

theorem recordedOf_ordered (instants : List Time) : (recordedOf instants).first.nanos ≤ (recordedOf instants).last.nanos := by
  have spans := recordedOf_spans instants
  cases instants with
  | nil => exact le_rfl
  | cons at_ instants =>
    have inside := spans.inside at_ List.mem_cons_self
    omega

end ATape.SessionAnalytics
