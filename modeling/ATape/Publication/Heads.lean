import ATape.Publication.Runs
import Mathlib.Logic.Function.Basic

/-! The heads of a session, the newest first. They are the attempts that were activated, each
on the one below it, and only an activation adds to them. -/
namespace ATape.Publication
open Authorization Canonical Foundation Go SourceIdentity
variable {id : String} {a : AttemptRow} {r : ReservationRow} {s : SourceRow} {now : Int}
namespace Tables

structure Linear (t : Tables) (heads : String → List String) : Prop where
  current : ∀ sessionID s, t.sources.lookup sessionID = some s → s.currentHead = (heads sessionID).head?
  unbound : ∀ sessionID, t.sources.lookup sessionID = none → heads sessionID = []
  members : ∀ sessionID id, id ∈ heads sessionID ↔
    ∃ a, t.attempts.lookup id = some a ∧ a.sessionID = sessionID ∧ a.state = .activated
  once : ∀ sessionID, (heads sessionID).Nodup
  bases : ∀ sessionID newer id older, heads sessionID = newer++id::older →
    ∀ a, t.attempts.lookup id = some a → a.baseHead = older.head?
  known : ∀ id a head, t.attempts.lookup id = some a → a.baseHead = some head → head ∈ heads a.sessionID
  fences : ∀ id a s, t.attempts.lookup id = some a → t.sources.lookup a.sessionID = some s → a.fence ≤ s.writerFence

theorem Linear.new : Linear new fun _ => [] where
  current sessionID s held := by simp [Tables.new] at held
  unbound sessionID _ := rfl
  members sessionID id := by simp [Tables.new]
  once sessionID := List.nodup_nil
  bases sessionID newer id older same := by simp at same
  known id a head held := by simp [Tables.new] at held
  fences id a s held := by simp [Tables.new] at held

/-- What no effect rewrites of an attempt. -/
structure SameAttempt (a a' : AttemptRow) : Prop where
  session : a'.sessionID = a.sessionID
  base : a'.baseHead = a.baseHead
  fence : a'.fence = a.fence
  active : a'.state = .activated ↔ a.state = .activated
  receipt : a.activationJson.isSome → a'.activationJson = a.activationJson

theorem SameAttempt.refl (a : AttemptRow) : SameAttempt a a := ⟨rfl,rfl,rfl,Iff.rfl,fun _ => rfl⟩

section
variable {limits : Limits} {pk : Packages} {c : Context} {t t' : Tables} {heads : String → List String}

/-- The rows after an effect: the attempts are those before it or begin on the current
head, and the sources keep their heads. -/
structure Steady (t t' : Tables) : Prop where
  attempts : ∀ id a', t'.attempts.lookup id = some a' →
    (∃ a, t.attempts.lookup id = some a ∧ SameAttempt a a') ∨
    t.attempts.lookup id = none ∧ a'.state ≠ .activated ∧ ∃ s s', t.sources.lookup a'.sessionID = some s ∧
      t'.sources.lookup a'.sessionID = some s' ∧ a'.baseHead = s.currentHead ∧ a'.fence = s'.writerFence
  kept : ∀ id a, t.attempts.lookup id = some a → a.state = .activated → ∃ a', t'.attempts.lookup id = some a'
  sources : ∀ name s', t'.sources.lookup name = some s' →
    (∃ s, t.sources.lookup name = some s ∧ s'.currentHead = s.currentHead ∧ s.writerFence ≤ s'.writerFence) ∨
    t.sources.lookup name = none ∧ s'.currentHead = none
  bound : ∀ name s, t.sources.lookup name = some s → ∃ s', t'.sources.lookup name = some s'

theorem Steady.linear (steady : Steady t t') (wired : Wired pk t) (linear : Linear t heads) : Linear t' heads := by
  have old {id : String} {a' : AttemptRow} (row : t'.attempts.lookup id = some a') (active : a'.state = .activated) :
      ∃ a, t.attempts.lookup id = some a ∧ SameAttempt a a' := by
    rcases steady.attempts id a' row with same | ⟨_,inactive,_⟩
    · exact same
    · exact absurd active inactive
  constructor
  case current =>
    intro name s' source
    rcases steady.sources name s' source with ⟨s,known,head,_⟩ | ⟨absent,head⟩
    · rw [head]
      exact linear.current name s known
    · rw [head,linear.unbound name absent]
      rfl
  case unbound =>
    intro name absent
    apply linear.unbound name
    cases known : t.sources.lookup name with
    | none => rfl
    | some s =>
      obtain ⟨s',known'⟩ := steady.bound name s known
      rw [absent] at known'
      cases known'
  case members =>
    intro name id
    rw [linear.members]
    constructor
    · rintro ⟨a,row,session,active⟩
      obtain ⟨a',row'⟩ := steady.kept id a row active
      rcases steady.attempts id a' row' with ⟨b,row'',same⟩ | ⟨fresh,_⟩
      · cases row.symm.trans row''
        exact ⟨a',row',same.session.trans session,same.active.mpr active⟩
      · rw [row] at fresh
        cases fresh
    · rintro ⟨a',row',session,active⟩
      obtain ⟨a,row,same⟩ := old row' active
      exact ⟨a,row,same.session.symm.trans session,same.active.mp active⟩
  case once => exact linear.once
  case bases =>
    intro name newer id older split a' row'
    have member : id ∈ heads name := by
      rw [split]
      simp
    obtain ⟨a,row,_,active⟩ := (linear.members name id).mp member
    rcases steady.attempts id a' row' with ⟨b,row'',same⟩ | ⟨fresh,_⟩
    · cases row.symm.trans row''
      rw [same.base]
      exact linear.bases name newer id older split a row
    · rw [row] at fresh
      cases fresh
  case known =>
    intro id a' head row' base
    rcases steady.attempts id a' row' with ⟨a,row,same⟩ | ⟨_,_,s,s',source,_,begun,_⟩
    · rw [same.session]
      exact linear.known id a head row (same.base.symm.trans base)
    · have top := linear.current _ s source
      rw [← begun,base] at top
      exact List.mem_of_mem_head? top.symm
  case fences =>
    intro id a' s' row' source'
    rcases steady.attempts id a' row' with ⟨a,row,same⟩ | ⟨_,_,s,s'',_,source'',_,fence⟩
    · obtain ⟨r,s,rows,_⟩ := wired.rows row
      have source := (attemptRows_some.mp rows).2.2
      rw [same.session] at source'
      rcases steady.sources _ s' source' with ⟨s₀,known,_,grown⟩ | ⟨absent,_⟩
      · cases source.symm.trans known
        rw [same.fence]
        exact (linear.fences id a s row source).trans grown
      · rw [source] at absent
        cases absent
    · cases source'.symm.trans source''
      exact fence.le

theorem sources_same (same : t'.sources = t.sources) (name : String) (s' : SourceRow)
    (source : t'.sources.lookup name = some s') :
    (∃ s, t.sources.lookup name = some s ∧ s'.currentHead = s.currentHead ∧ s.writerFence ≤ s'.writerFence) ∨
      t.sources.lookup name = none ∧ s'.currentHead = none :=
  .inl ⟨s',same ▸ source,rfl,le_rfl⟩

theorem Steady.modified {f : AttemptRow → AttemptRow} {parts : Table (String × Nat) PartRow}
    (held : t'.Holds t.sources t.reservations (t.attempts.modify id f) parts)
    (same : ∀ a, t.attempts.lookup id = some a → SameAttempt a (f a)) : Steady t t' := by
  constructor
  case attempts =>
    intro id' a' row
    left
    rw [held.attempts,Table.lookup_modify] at row
    split at row
    next here =>
      obtain ⟨a,old,rfl⟩ := Option.map_eq_some_iff.mp row
      exact ⟨a,old,same a (here ▸ old)⟩
    next => exact ⟨a',row,.refl a'⟩
  case kept =>
    intro id' a row _
    rw [held.attempts,Table.lookup_modify,row]
    split
    next => exact ⟨f a,rfl⟩
    next => exact ⟨a,rfl⟩
  case sources => exact sources_same held.sources
  case bound => exact fun name s known => ⟨s,held.sources ▸ known⟩

theorem Live.same (wired : Wired pk t)
    (live : t.Live id a r s now) {f : AttemptRow → AttemptRow} (session : (f a).sessionID = a.sessionID)
    (base : (f a).baseHead = a.baseHead) (fence : (f a).fence = a.fence) (state : (f a).state ≠ .activated)
    (a' : AttemptRow) (held : t.attempts.lookup id = some a') : SameAttempt a' (f a') := by
  cases (attemptRows_some.mp live.rows).1.symm.trans held
  obtain ⟨inactive,unreceipted⟩ := live.unreceipted wired
  refine ⟨session,base,fence,?_,fun receipt => ?_⟩
  · simp [state,inactive]
  · rw [unreceipted] at receipt
    cases receipt

theorem Steady.of_effect (wired : Wired pk t) (effect : Effect limits pk c t t') : Steady t t' := by
  cases effect with
  | alike alike =>
    refine ⟨fun id a' row => .inl ⟨a',alike.attempts ▸ row,.refl a'⟩,fun id a row _ => ⟨a,alike.attempts ▸ row⟩,
      sources_same alike.sources,fun name s known => ⟨s,alike.sources ▸ known⟩⟩
  | @bound sessionID source fresh headless user held =>
    refine ⟨fun id a' row => .inl ⟨a',held.attempts ▸ row,.refl a'⟩,fun id a row _ => ⟨a,held.attempts ▸ row⟩,
      fun name s' known => ?_,fun name s known => ?_⟩
    · rw [held.sources,Table.lookup_insert] at known
      split at known
      next here =>
        cases known
        exact .inr ⟨here ▸ fresh,headless⟩
      next => exact .inl ⟨s',known,rfl,le_rfl⟩
    · rw [held.sources,Table.lookup_insert]
      split
      next => exact ⟨source,rfl⟩
      next => exact ⟨s,known⟩
  | reserved _ _ held =>
    exact ⟨fun id a' row => .inl ⟨a',held.attempts ▸ row,.refl a'⟩,fun id a row _ => ⟨a,held.attempts ▸ row⟩,
      sources_same held.sources,fun name s known => ⟨s,held.sources ▸ known⟩⟩
  | @began id r s input leaseUntil reservation source fresh held =>
    have absent := wired.fresh fresh
    have fenceUp : t'.sources.lookup r.sessionID = some (fenced s) := by
      rw [held.sources,Table.lookup_modify,if_pos rfl,source]
      rfl
    refine ⟨fun id' a' row => ?_,fun id' a row _ => ?_,fun name s' known => ?_,fun name s' known => ?_⟩
    · rw [held.attempts,Table.lookup_insert] at row
      split at row
      next here =>
        cases row
        exact .inr ⟨here ▸ absent,by simp [newAttempt],s,fenced s,source,fenceUp,rfl,rfl⟩
      next => exact .inl ⟨a',row,.refl a'⟩
    · rw [held.attempts,Table.lookup_insert]
      split
      next => exact ⟨_,rfl⟩
      next => exact ⟨a,row⟩
    · left
      rw [held.sources,Table.lookup_modify] at known
      split at known
      next =>
        obtain ⟨s₀,old,rfl⟩ := Option.map_eq_some_iff.mp known
        exact ⟨s₀,old,rfl,Nat.le_succ _⟩
      next => exact ⟨s',known,rfl,le_rfl⟩
    · rw [held.sources,Table.lookup_modify,known]
      split
      next => exact ⟨fenced s',rfl⟩
      next => exact ⟨s',rfl⟩
  | stored live open_ _ _ _ _ _ held =>
    exact .modified held (live.same wired rfl rfl rfl (live.unreceipted wired).1)
  | sealed live _ _ _ held => exact .modified held (live.same wired rfl rfl rfl (by simp [sealedWith]))
  | renewed live _ held => exact .modified held (live.same wired rfl rfl rfl (live.unreceipted wired).1)
  | rejected rows inactive held =>
    refine .modified held fun a row => ?_
    cases (attemptRows_some.mp rows).1.symm.trans row
    have receipt := wired.receipts _ _ row
    rw [inactive] at receipt
    refine ⟨rfl,rfl,rfl,?_,fun _ => rfl⟩
    simp only [rejected,receipt]
    simp
  | validated live _ _ _ _ _ _ _ next held =>
    refine .modified held (live.same wired rfl rfl rfl ?_)
    rcases next with rfl | ⟨rfl,_⟩ <;> simp [advanced]
  | kept live _ _ next held =>
    refine .modified held (live.same wired rfl rfl rfl ?_)
    rcases next with rfl | rfl <;> simp [inherited]
  | inherited live _ _ _ _ _ _ _ _ next held =>
    refine .modified held (live.same wired rfl rfl rfl ?_)
    rcases next with rfl | rfl <;> simp [inherited]
  | reclaimed _ _ held => exact .modified held fun a _ => ⟨rfl,rfl,rfl,Iff.rfl,fun _ => rfl⟩
  | @dropped ids spent held =>
    refine ⟨fun id a' row => ?_,fun id a row active => ?_,sources_same held.sources,
      fun name s known => ⟨s,held.sources ▸ known⟩⟩
    · rw [held.attempts,Table.lookup_keep] at row
      exact .inl ⟨a',(Option.filter_eq_some_iff.mp row).1,.refl a'⟩
    · rw [held.attempts,Table.lookup_keep]
      refine ⟨a,Option.filter_eq_some_iff.mpr ⟨row,?_⟩⟩
      simp only [decide_eq_true_eq]
      intro gone
      exact (spent id gone a row).2.2 active

/-- The heads with one more. -/
def withHead (heads : String → List String) (sessionID id : String) : String → List String :=
  Function.update heads sessionID (id::heads sessionID)

theorem Activates.base {manifest : Manifest}
    {observedAt : Time} (activates : Activates c t t' id a r s manifest observedAt) (linear : Linear t heads) :
    a.baseHead = (heads a.sessionID).head? := by
  rw [activates.live.base]
  exact linear.current _ s (attemptRows_some.mp activates.live.rows).2.2

theorem Linear.activates (wired : Wired pk t) (linear : Linear t heads) {manifest : Manifest} {observedAt : Time}
    (activates : Activates c t t' id a r s manifest observedAt) : Linear t' (withHead heads a.sessionID id) := by
  obtain ⟨held,_,source⟩ := attemptRows_some.mp activates.live.rows
  have here : withHead heads a.sessionID id a.sessionID = id::heads a.sessionID := Function.update_self _ _ _
  have elsewhere {name : String} (apart : name ≠ a.sessionID) : withHead heads a.sessionID id name = heads name :=
    Function.update_of_ne apart _ _
  have fresh (name : String) : id ∉ heads name := by
    intro member
    obtain ⟨b,row,_,active⟩ := (linear.members name id).mp member
    cases held.symm.trans row
    exact (activates.live.unreceipted wired).1 active
  have rows {id' : String} {a' : AttemptRow} (row : t'.attempts.lookup id' = some a') :
      ∃ b, t.attempts.lookup id' = some b ∧ a'.sessionID = b.sessionID ∧ a'.baseHead = b.baseHead ∧
        a'.fence = b.fence ∧ (a'.state = .activated ↔ id' = id ∨ b.state = .activated) := by
    rw [activates.held.attempts,Table.lookup_modify] at row
    split at row
    next same =>
      obtain ⟨b,old,rfl⟩ := Option.map_eq_some_iff.mp row
      exact ⟨b,old,rfl,rfl,rfl,by simp [same,activated]⟩
    next apart => exact ⟨a',row,rfl,rfl,rfl,by simp [apart]⟩
  have stays {id' : String} {b : AttemptRow} (row : t.attempts.lookup id' = some b) :
      ∃ a', t'.attempts.lookup id' = some a' := by
    rw [activates.held.attempts,Table.lookup_modify,row]
    split
    next => exact ⟨_,rfl⟩
    next => exact ⟨b,rfl⟩
  have sources {name : String} {s' : SourceRow} (known : t'.sources.lookup name = some s') :
      ∃ s₀, t.sources.lookup name = some s₀ ∧ s'.writerFence = s₀.writerFence ∧
        s'.currentHead = if name = a.sessionID then some id else s₀.currentHead := by
    rw [activates.held.sources,Table.lookup_modify] at known
    split at known
    next same =>
      obtain ⟨s₀,old,rfl⟩ := Option.map_eq_some_iff.mp known
      exact ⟨s₀,old,rfl,by simp [same,selected]⟩
    next apart => exact ⟨s',known,rfl,by rw [if_neg apart]⟩
  constructor
  case current =>
    intro name s' known
    obtain ⟨s₀,old,_,head⟩ := sources known
    rw [head]
    by_cases same : name = a.sessionID
    · rw [if_pos same,same,here]
      rfl
    · rw [if_neg same,elsewhere same]
      exact linear.current name s₀ old
  case unbound =>
    intro name absent
    have old : t.sources.lookup name = none := by
      rw [activates.held.sources,Table.lookup_modify] at absent
      split at absent
      next => simpa using absent
      next => exact absent
    have apart : name ≠ a.sessionID := by
      rintro rfl
      rw [source] at old
      cases old
    rw [elsewhere apart]
    exact linear.unbound name old
  case members =>
    intro name id'
    constructor
    · intro member
      have cases : id' = id ∧ name = a.sessionID ∨ id' ∈ heads name := by
        by_cases same : name = a.sessionID
        · rw [same,here,List.mem_cons] at member
          rw [same]
          exact member.imp (fun first => ⟨first,rfl⟩) fun later => later
        · rw [elsewhere same] at member
          exact .inr member
      obtain ⟨b,row,session,active⟩ : ∃ b, t.attempts.lookup id' = some b ∧ b.sessionID = name ∧
          (id' = id ∨ b.state = .activated) := by
        rcases cases with ⟨first,same⟩ | later
        · exact ⟨a,first ▸ held,same.symm,.inl first⟩
        · obtain ⟨b,row,session,active⟩ := (linear.members name id').mp later
          exact ⟨b,row,session,.inr active⟩
      obtain ⟨a',row'⟩ := stays row
      obtain ⟨b',row'',session',_,_,active'⟩ := rows row'
      cases row.symm.trans row''
      exact ⟨a',row',session'.trans session,active'.mpr active⟩
    · rintro ⟨a',row',session',active'⟩
      obtain ⟨b,row,session,_,_,active⟩ := rows row'
      rcases active.mp active' with first | old
      · subst first
        cases held.symm.trans row
        rw [← session',session,here]
        exact List.mem_cons_self
      · have member := (linear.members name id').mpr ⟨b,row,session.symm.trans session',old⟩
        by_cases same : name = a.sessionID
        · rw [same,here]
          exact List.mem_cons_of_mem _ (same ▸ member)
        · rw [elsewhere same]
          exact member
  case once =>
    intro name
    by_cases same : name = a.sessionID
    · rw [same,here]
      exact List.nodup_cons.mpr ⟨fresh _,linear.once _⟩
    · rw [elsewhere same]
      exact linear.once name
  case bases =>
    intro name newer id' older split a' row'
    obtain ⟨b,row,_,base,_⟩ := rows row'
    rw [base]
    by_cases same : name = a.sessionID
    · rw [same,here] at split
      cases newer with
      | nil =>
        obtain ⟨rfl,rfl⟩ := List.cons.inj split
        cases held.symm.trans row
        exact activates.base linear
      | cons first newer => exact linear.bases _ newer id' older (List.cons.inj split).2 b row
    · rw [elsewhere same] at split
      exact linear.bases name newer id' older split b row
  case known =>
    intro id' a' head row' base'
    obtain ⟨b,row,session,base,_⟩ := rows row'
    have member := linear.known id' b head row (base.symm.trans base')
    rw [session]
    by_cases same : b.sessionID = a.sessionID
    · rw [same,here]
      exact List.mem_cons_of_mem _ (same ▸ member)
    · rw [elsewhere same]
      exact member
  case fences =>
    intro id' a' s' row' known
    obtain ⟨b,row,session,_,fence,_⟩ := rows row'
    rw [session] at known
    obtain ⟨s₀,old,same,_⟩ := sources known
    rw [fence,same]
    exact linear.fences id' b s₀ row old

/-! Attempts that have ended -/

/-- An attempt that was rejected, superseded or has expired, or whose reservation is gone. -/
def Ended (t : Tables) (id : String) (now : Int) : Prop :=
  (∃ a r s, t.attemptRows id = some (a,r,s) ∧ a.state ≠ .activated ∧
    (a.state = .rejected ∨ a.fence ≠ s.writerFence ∨ a.baseHead ≠ s.currentHead ∨ a.leaseUntil ≤ now ∨
      r.expiresAt ≤ now)) ∨
  t.reservations.lookup id = none

theorem ended_of_state (rows : t.attemptRows id = some (a,r,s))
    (shown : effectiveState a r s now = .rejected ∨ effectiveState a r s now = .superseded ∨
      effectiveState a r s now = .expired) (stored : a.state ≠ .superseded ∧ a.state ≠ .expired) : t.Ended id now := by
  left
  refine ⟨a,r,s,rows,?_⟩
  unfold effectiveState at shown
  split at shown
  next => simp at shown
  next inactive =>
    refine ⟨inactive,?_⟩
    split at shown
    next rejected => exact .inl rejected
    next =>
      split at shown
      next superseded =>
        simp only [Bool.or_eq_true,decide_eq_true_eq] at superseded
        rcases superseded with fence | base
        · exact .inr (.inl fence)
        · exact .inr (.inr (.inl base))
      next =>
        split at shown
        next expired =>
          simp only [Bool.or_eq_true,decide_eq_true_eq] at expired
          exact .inr (.inr (.inr expired))
        next live =>
          rcases shown with rejected | superseded | expired
          · exact .inl rejected
          · exact absurd superseded stored.1
          · exact absurd expired stored.2

theorem Ended.mono {later : Int} (ended : t.Ended id now) (passed : now ≤ later) : t.Ended id later := by
  rcases ended with ⟨a,r,s,rows,inactive,why⟩ | gone
  · refine .inl ⟨a,r,s,rows,inactive,?_⟩
    rcases why with rejected | fence | base | lease | reservation
    · exact .inl rejected
    · exact .inr (.inl fence)
    · exact .inr (.inr (.inl base))
    · exact .inr (.inr (.inr (.inl (lease.trans passed))))
    · exact .inr (.inr (.inr (.inr (reservation.trans passed))))
  · exact .inr gone

theorem Ended.inactive (wired : Wired pk t) (ended : t.Ended id now)
    (held : t.attempts.lookup id = some a) : a.state ≠ .activated := by
  rcases ended with ⟨b,r,s,rows,inactive,_⟩ | gone
  · cases held.symm.trans (attemptRows_some.mp rows).1
    exact inactive
  · obtain ⟨r,reserved,_⟩ := wired.attempts id a held
    rw [gone] at reserved
    cases reserved

theorem Ended.dead {later : Int} (ended : t.Ended id now) (passed : now ≤ later) : ¬t.Live id a r s later := by
  intro live
  obtain ⟨_,reserved,_⟩ := attemptRows_some.mp live.rows
  rcases ended with ⟨b,r',s',rows,_,why⟩ | gone
  · cases live.rows.symm.trans rows
    rcases why with rejected | fence | base | lease | reservation
    · have active := live.active
      rw [rejected] at active
      cases active
    · exact fence live.fence
    · exact base live.base
    · exact absurd live.lease (not_lt.mpr (lease.trans passed))
    · exact absurd live.reservation (not_lt.mpr (reservation.trans passed))
  · rw [gone] at reserved
    cases reserved

end
end Tables
end ATape.Publication
