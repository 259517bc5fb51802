import ATape.Overview.Totals
import Mathlib.Tactic.Order

/-! Each field of the scan, as a fold over the facts that count. -/
namespace ATape.TeamOverview
open Foundation Go

namespace Frame
variable (f : Frame) (s : OverviewSnapshot)

/-- The events and usage records that count, in the order in which the loops meet them. -/
def facts : List Fact := s.events.filterMap f.eventFact++s.usage.filterMap f.usageFact

section Views
variable {β : Type}

theorem scan_view (view : Scan → β) (put : β → Fact → β) (one : ∀ scan fact, view (f.mark scan fact) = put (view scan) fact)
    (input : ∀ scan messages held, view {scan with messages := messages,input := held} = view scan)
    (output : ∀ scan held, view {scan with output := held} = view scan)
    (model : ∀ scan groups, view {scan with byModel := groups} = view scan) :
    view (f.scan s) = (f.facts s).foldl put (view {}) := by
  have event : ∀ scan e, view (f.takeEvent scan e) = (f.eventFact e).elim (view scan) (put (view scan)) := by
    intro scan e
    unfold takeEvent
    cases f.eventFact e with
    | none => rfl
    | some fact =>
      dsimp only
      rw [Option.elim_some,← one]
      split
      · rfl
      · split
        · apply input
        · apply output
  have usage : ∀ scan u, view (f.takeUsage scan u) = (f.usageFact u).elim (view scan) (put (view scan)) := by
    intro scan u
    unfold takeUsage
    cases f.usageFact u with
    | none => rfl
    | some fact =>
      dsimp only
      rw [Option.elim_some,← one]
      apply model
  rw [scan,facts,List.foldl_append,foldl_pick view put usage,foldl_pick view put event]

theorem scan_groups (view : Scan → Table String Group) (key : Fact → String)
    (one : ∀ scan fact, view (f.mark scan fact) = if f.mode = .overview then pick key (view scan) fact else view scan)
    (input : ∀ scan messages held, view {scan with messages := messages,input := held} = view scan)
    (output : ∀ scan held, view {scan with output := held} = view scan)
    (model : ∀ scan groups, view {scan with byModel := groups} = view scan) (start : view {} = ∅) :
    view (f.scan s) = if f.mode = .overview then grouped key {} Group.touch (f.facts s) else ∅ := by
  rw [f.scan_view s view (fun groups fact => if f.mode = .overview then pick key groups fact else groups) one input output
    model,start]
  by_cases overview : f.mode = .overview
  · simp only [if_pos overview]
    rfl
  · simp only [if_neg overview]
    exact List.foldl_fixed _

end Views

theorem scan_all : (f.scan s).all = groupOf (f.facts s) :=
  f.scan_view s Scan.all Group.touch (fun _ _ => rfl) (fun _ _ _ => rfl) (fun _ _ => rfl) fun _ _ => rfl

theorem scan_byMember : (f.scan s).byMember =
    if f.mode = .overview then grouped memberKey {} Group.touch (f.facts s) else ∅ :=
  f.scan_groups s Scan.byMember memberKey (fun _ _ => rfl) (fun _ _ _ => rfl) (fun _ _ => rfl) (fun _ _ => rfl) rfl

theorem scan_byProject : (f.scan s).byProject =
    if f.mode = .overview then grouped projectKey {} Group.touch (f.facts s) else ∅ :=
  f.scan_groups s Scan.byProject projectKey (fun _ _ => rfl) (fun _ _ _ => rfl) (fun _ _ => rfl) (fun _ _ => rfl) rfl

theorem scan_byDay : (f.scan s).byDay =
    if f.mode = .overview then grouped f.dayKey {} Group.touch (f.facts s) else ∅ :=
  f.scan_groups s Scan.byDay f.dayKey (fun _ _ => rfl) (fun _ _ _ => rfl) (fun _ _ => rfl) (fun _ _ => rfl) rfl

section Details
variable (details : f.details = true)
include details

theorem scan_bySession : (f.scan s).bySession = grouped sessionKey {} Group.touch (f.facts s) :=
  f.scan_view s Scan.bySession (pick sessionKey) (fun _ _ => if_pos details) (fun _ _ _ => rfl) (fun _ _ => rfl) fun _ _ => rfl

theorem scan_latest : (f.scan s).latest = (f.facts s).foldl raise ∅ :=
  f.scan_view s Scan.latest raise (fun _ _ => if_pos details) (fun _ _ _ => rfl) (fun _ _ => rfl) fun _ _ => rfl

end Details

theorem usage_keeps {β : Type} (view : Scan → β) (marked : ∀ scan fact, view (f.mark scan fact) = view scan)
    (model : ∀ scan groups, view {scan with byModel := groups} = view scan) (us : List OverviewUsage) (scan : Scan) :
    view (us.foldl f.takeUsage scan) = view scan := by
  apply foldl_keeps
  intro scan u
  unfold takeUsage
  cases f.usageFact u with
  | none => rfl
  | some fact => exact (model _ _).trans (marked _ _)

/-- A root message with its session, when the session's actor wrote it or when another author did. -/
def rootMessage (own : Bool) (e : OverviewEvent) : Option (String × OverviewEvent) :=
  (f.eventFact e).bind fun fact =>
    if e.root = true ∧ decide (e.author = fact.session.actor.name) = own then some (fact.session.id,e) else none

theorem rootMessage_own {own : Bool} {e : OverviewEvent} {message : String × OverviewEvent}
    (found : f.rootMessage own e = some message) : message.2 = e := by
  obtain ⟨fact,-,chosen⟩ := Option.bind_eq_some_iff.mp found
  split at chosen
  next =>
    cases chosen
    rfl
  next => cases chosen

def rootMessages (own : Bool) : List (String × OverviewEvent) := s.events.filterMap (f.rootMessage own)

def noteMessage (messages : Finset (String × ℤ)) (message : String × OverviewEvent) : Finset (String × ℤ) :=
  insert (message.1,message.2.order) messages

def keepMessage (held : Table String OverviewEvent) (message : String × OverviewEvent) : Table String OverviewEvent :=
  keepLater held message.1 message.2

theorem scan_messages : (f.scan s).messages =
    (f.rootMessages s true).foldl noteMessage ∅ := by
  rw [scan,f.usage_keeps Scan.messages (fun _ _ => rfl) (fun _ _ => rfl)]
  apply foldl_pick Scan.messages noteMessage
  intro scan e
  unfold takeEvent rootMessage
  cases f.eventFact e with
  | none => rfl
  | some fact => cases root : e.root <;> by_cases own : e.author = fact.session.actor.name <;> simp [own,mark,noteMessage]

section Details
variable (details : f.details = true)
include details

theorem scan_input : (f.scan s).input =
    (f.rootMessages s true).foldl keepMessage ∅ := by
  rw [scan,f.usage_keeps Scan.input (fun _ _ => rfl) (fun _ _ => rfl)]
  apply foldl_pick Scan.input keepMessage
  intro scan e
  unfold takeEvent rootMessage
  cases f.eventFact e with
  | none => rfl
  | some fact => cases root : e.root <;> by_cases own : e.author = fact.session.actor.name <;> simp [own,mark,details,keepMessage]

theorem scan_output : (f.scan s).output =
    (f.rootMessages s false).foldl keepMessage ∅ := by
  rw [scan,f.usage_keeps Scan.output (fun _ _ => rfl) (fun _ _ => rfl)]
  apply foldl_pick Scan.output keepMessage
  intro scan e
  unfold takeEvent rootMessage
  cases f.eventFact e with
  | none => rfl
  | some fact => cases root : e.root <;> by_cases own : e.author = fact.session.actor.name <;> simp [own,mark,details,keepMessage]

end Details

theorem scan_byModel : (f.scan s).byModel =
    if f.mode = .overview then grouped modelKey {} Group.touch (s.usage.filterMap f.usageFact) else ∅ := by
  have events : (s.events.foldl f.takeEvent {}).byModel = ∅ := by
    have kept : ∀ scan e, (f.takeEvent scan e).byModel = scan.byModel := by
      intro scan e
      unfold takeEvent
      cases f.eventFact e with
      | none => rfl
      | some fact =>
        dsimp only
        split
        · rfl
        · split <;> rfl
    exact foldl_keeps Scan.byModel kept s.events {}
  have usage : ∀ scan u, (f.takeUsage scan u).byModel = (f.usageFact u).elim scan.byModel fun fact =>
      if f.mode = .overview then pick modelKey scan.byModel fact else scan.byModel := by
    intro scan u
    unfold takeUsage
    cases f.usageFact u <;> rfl
  rw [scan,foldl_pick Scan.byModel (fun groups fact => if f.mode = .overview then pick modelKey groups fact else groups) usage,
    events]
  by_cases overview : f.mode = .overview
  · simp only [if_pos overview]
    rfl
  · simp only [if_neg overview]
    exact List.foldl_fixed _

end Frame

section Latest

/-- The instant up to which a session is known. -/
def reached (latest : Table String Time) (id : String) : ℤ := ((latest.lookup id).getD .zero).nanos

theorem reached_raise (latest : Table String Time) (fact : Fact) (id : String) : reached (raise latest fact) id =
    if id = fact.session.id then max (reached latest id) fact.at_.nanos else reached latest id := by
  unfold raise reached Time.after
  by_cases own : id = fact.session.id
  · subst own
    by_cases later : ((latest.lookup fact.session.id).getD .zero).nanos < fact.at_.nanos
    · rw [if_pos (decide_eq_true later),if_pos rfl,Table.lookup_insert,if_pos rfl,Option.getD_some,
        max_eq_right later.le]
    · rw [if_neg (by simpa using later),if_pos rfl,max_eq_left (not_lt.mp later)]
  · rw [if_neg own]
    split
    · rw [Table.lookup_insert,if_neg own]
    · rfl

theorem raises_perm {fs fs' : List Fact} (perm : fs.Perm fs') :
    reached (fs.foldl raise ∅) = reached (fs'.foldl raise ∅) := by
  apply foldl_perm_view reached _ perm
  · intro a _ b _ latest
    funext id
    simp only [reached_raise]
    split
    · split
      · exact max_right_comm _ _ _
      · rfl
    · rfl
  · intro latest latest' fact same
    funext id
    rw [reached_raise,reached_raise,same]

end Latest

section Later

/-- Later events have a higher rank. -/
def OverviewEvent.rank (e : OverviewEvent) : ℤ ×ₗ ℤ ×ₗ Stringᵒᵈ :=
  toLex (e.order,toLex (e.index,OrderDual.toDual e.id))

theorem laterEvent_iff (a b : OverviewEvent) : laterEvent a b = true ↔ b.rank < a.rank := by
  simp only [laterEvent,OverviewEvent.rank,Prod.Lex.toLex_lt_toLex,OrderDual.toDual_lt_toDual,Bool.or_eq_true,
    Bool.and_eq_true,decide_eq_true_eq,gt_iff_lt,@eq_comm _ a.order,@eq_comm _ a.index]

/-- What `keepLater` holds for the session of the event. -/
def later : Option OverviewEvent → OverviewEvent → OverviewEvent
  | none,e => e
  | some old,e => if laterEvent e old = true then e else old

theorem later_some (old e : OverviewEvent) : later (some old) e = if old.rank < e.rank then e else old := by
  rw [later]
  simp only [laterEvent_iff]

theorem lookup_keepLater (held : Table String OverviewEvent) (session : String) (e : OverviewEvent) (k : String) :
    (keepLater held session e).lookup k = if k = session then some (later (held.lookup k) e) else held.lookup k := by
  unfold keepLater
  by_cases own : k = session
  · subst own
    rw [if_pos rfl]
    cases found : held.lookup k with
    | none => simp [later]
    | some old =>
      dsimp only [later]
      split
      · simp
      · exact found
  · rw [if_neg own]
    cases held.lookup session with
    | none => exact (Table.lookup_insert _ _ _ _).trans (if_neg own)
    | some old =>
      dsimp only
      split
      · exact (Table.lookup_insert _ _ _ _).trans (if_neg own)
      · rfl

theorem later_swap (held : Option OverviewEvent) {a b : OverviewEvent} (apart : a.id = b.id → a = b) :
    later (some (later held a)) b = later (some (later held b)) a := by
  have ranks : a.rank = b.rank → a = b := fun same => apart (congrArg (fun r => (ofLex (ofLex r).2).2) same)
  cases held with
  | none =>
    rw [later,later,later_some,later_some]
    cases lt_trichotomy a.rank b.rank with
    | inl below => rw [if_pos below,if_neg below.not_gt]
    | inr rest =>
      cases rest with
      | inl tie => rw [ranks tie]
      | inr above => rw [if_neg above.not_gt,if_pos above]
  | some old =>
    simp only [later_some]
    by_cases same : a = b
    · rw [same]
    · have differ : a.rank ≠ b.rank := fun tie => same (ranks tie)
      split_ifs <;> first | rfl | (exfalso; order)

theorem keepsLater_perm {messages messages' : List (String × OverviewEvent)} (perm : messages.Perm messages')
    (apart : ∀ a ∈ messages, ∀ b ∈ messages, a.2.id = b.2.id → a.2 = b.2) :
    (messages.foldl Frame.keepMessage ∅).lookup =
      (messages'.foldl Frame.keepMessage ∅).lookup := by
  apply foldl_perm_view (fun held : Table String OverviewEvent => held.lookup) _ perm
  · intro a member b member' held
    funext k
    simp only [Frame.keepMessage,lookup_keepLater]
    split
    · split
      · rw [later_swap _ (apart a member b member')]
      · rfl
    · rfl
  · intro held held' message same
    funext k
    rw [Frame.keepMessage,Frame.keepMessage,lookup_keepLater,lookup_keepLater,congrFun same k]

theorem messages_perm {messages messages' : List (String × OverviewEvent)} (perm : messages.Perm messages') :
    messages.foldl Frame.noteMessage ∅ = messages'.foldl Frame.noteMessage ∅ := by
  apply perm.foldl_eq'
  intro a _ b _ held
  exact Finset.insert_comm _ _ _

end Later
end ATape.TeamOverview
