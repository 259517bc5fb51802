import ATape.Publication.Accounts
import ATape.Publication.Heads

/-! What a head needs stays stored. An attempt that may still be read, because it is the head
or may become it, has all the parts of its manifest and all that it inherited. -/
namespace ATape.Publication
open Authorization Canonical Foundation Go SourceIdentity
variable {id id' : String} {now : Int} {a : AttemptRow} {r : ReservationRow} {s : SourceRow} {receipt : Activation}
namespace Tables
section
variable {limits : Limits} {pk : Packages} {c : Context} {t t' : Tables} {heads : String → List String}

/-! Ended attempts stay so -/

theorem Ended.same (ended : t.Ended id now) (rows : t'.attemptRows id = t.attemptRows id)
    (reservations : t'.reservations.lookup id = t.reservations.lookup id) : t'.Ended id now := by
  unfold Ended
  rw [rows,reservations]
  exact ended

theorem Ended.apart {f : AttemptRow → AttemptRow} {parts : Table (String × Nat) PartRow}
    (ended : t.Ended id now) (apart : id ≠ id') (held : t'.Holds t.sources t.reservations (t.attempts.modify id' f) parts)
    (session : ∀ a, (f a).sessionID = a.sessionID) : t'.Ended id now := by
  apply ended.same
  · rw [attemptRows_modify session held,if_neg apart]
  · rw [held.reservations]

theorem Ended.not_live
    (clock : Forward c.clock) (ended : t.Ended id (c.clock 0)) (live : t.Live id' a r s (c.clock 1)) : id ≠ id' := by
  rintro rfl
  exact ended.dead (clock (Nat.zero_le 1)) live

theorem Ended.effect (linear : Linear t heads) (other : id ≠ c.token)
    (clock : Forward c.clock) (ended : t.Ended id (c.clock 0)) (effect : Effect limits pk c t t') :
    t'.Ended id (c.clock 0) := by
  cases effect with
  | alike alike => exact ended.same (alike.attemptRows id) (by rw [alike.reservations])
  | @bound sessionID source fresh headless user held =>
    rcases ended with ⟨a,r,s,rows,why⟩ | gone
    · obtain ⟨row,reserved,known⟩ := attemptRows_some.mp rows
      have apart : a.sessionID ≠ sessionID := by
        intro same
        rw [same,fresh] at known
        cases known
      refine .inl ⟨a,r,s,attemptRows_some.mpr ⟨held.attempts ▸ row,held.reservations ▸ reserved,?_⟩,why⟩
      rw [held.sources,Table.lookup_insert,if_neg apart]
      exact known
    · exact .inr (held.reservations ▸ gone)
  | reserved fresh source held =>
    apply ended.same
    · unfold Tables.attemptRows
      rw [held.attempts,held.reservations,held.sources,Table.lookup_insert,if_neg other]
    · rw [held.reservations,Table.lookup_insert,if_neg other]
  | @began id' r s input leaseUntil reservation source fresh held =>
    rcases ended with ⟨a,r',s',rows,inactive,why⟩ | gone
    · obtain ⟨row,reserved,known⟩ := attemptRows_some.mp rows
      have apart : id ≠ id' := by
        rintro rfl
        rw [fresh] at rows
        cases rows
      have row' : t'.attempts.lookup id = some a := by
        rw [held.attempts,Table.lookup_insert,if_neg apart]
        exact row
      by_cases same : a.sessionID = r.sessionID
      · refine .inl ⟨a,r',fenced s',attemptRows_some.mpr ⟨row',held.reservations ▸ reserved,?_⟩,inactive,?_⟩
        · rw [held.sources,Table.lookup_modify,if_pos same,known]
          rfl
        · have bound := linear.fences id a s' row known
          refine .inr (.inl ?_)
          simp only [fenced]
          omega
      · refine .inl ⟨a,r',s',attemptRows_some.mpr ⟨row',held.reservations ▸ reserved,?_⟩,inactive,why⟩
        rw [held.sources,Table.lookup_modify,if_neg same]
        exact known
    · exact .inr (held.reservations ▸ gone)
  | stored live _ _ _ _ _ _ held => exact ended.apart (ended.not_live clock live) held fun _ => rfl
  | sealed live _ _ _ held => exact ended.apart (ended.not_live clock live) held fun _ => rfl
  | renewed live _ held => exact ended.apart (ended.not_live clock live) held fun _ => rfl
  | @rejected id' a r s rows inactive held =>
    by_cases same : id = id'
    · subst same
      refine .inl ⟨rejected a,r,s,?_,by simp [rejected],.inl rfl⟩
      have session : ∀ a, (rejected a).sessionID = a.sessionID := fun _ => rfl
      rw [attemptRows_modify session held,if_pos rfl,rows]
      rfl
    · exact ended.apart same held fun _ => rfl
  | validated live _ _ _ _ _ _ _ _ held => exact ended.apart (ended.not_live clock live) held fun _ => rfl
  | kept live _ _ _ held => exact ended.apart (ended.not_live clock live) held fun _ => rfl
  | inherited live _ _ _ _ _ _ _ _ _ held => exact ended.apart (ended.not_live clock live) held fun _ => rfl
  | @reclaimed id' userID ordinal part unreachable place held =>
    by_cases same : id = id'
    · subst same
      rcases ended with ⟨a,r,s,rows,why⟩ | gone
      · refine .inl ⟨reclaimed part a,r,s,?_,why⟩
        have session : ∀ a, (reclaimed part a).sessionID = a.sessionID := fun _ => rfl
        rw [attemptRows_modify session held,if_pos rfl,rows]
        rfl
      · exact .inr (held.reservations ▸ gone)
    · exact ended.apart same held fun _ => rfl
  | @dropped ids spent held =>
    by_cases gone : id ∈ ids
    · right
      rw [held.reservations,Table.lookup_keep]
      simp [gone]
    · have stays {ρ : Type} (rows : Table String ρ) : (rows.keep fun id _ => id ∉ ids).lookup id = rows.lookup id := by
        rw [Table.lookup_keep]
        cases rows.lookup id <;> simp [gone]
      apply ended.same
      · unfold Tables.attemptRows
        rw [held.attempts,held.reservations,held.sources,stays,stays]
      · rw [held.reservations,stays]

theorem Ended.activates (wired : Wired pk t) (linear : Linear t heads)
    {manifest : Manifest} {observedAt : Time} (clock : Forward c.clock)
    (ended : t.Ended id (c.clock 0)) (activates : Activates c t t' id' a r s manifest observedAt) :
    t'.Ended id (c.clock 0) := by
  have apart := ended.not_live clock activates.live
  have held := activates.held
  rcases ended with ⟨b,r',s',rows,inactive,why⟩ | gone
  · obtain ⟨row,reserved,known⟩ := attemptRows_some.mp rows
    have row' : t'.attempts.lookup id = some b := by
      rw [held.attempts,Table.lookup_modify,if_neg apart]
      exact row
    by_cases same : b.sessionID = a.sessionID
    · refine .inl ⟨b,r',selected id' s',attemptRows_some.mpr ⟨row',held.reservations ▸ reserved,?_⟩,inactive,?_⟩
      · rw [held.sources,Table.lookup_modify,if_pos same,known]
        rfl
      · refine .inr (.inr (.inl fun base => ?_))
        -- The new head was no attempt's base before it was the head.
        obtain ⟨b',row'',_,active⟩ := (linear.members _ id').mp (linear.known id b id' row base)
        cases (attemptRows_some.mp activates.live.rows).1.symm.trans row''
        exact (activates.live.unreceipted wired).1 active
    · refine .inl ⟨b,r',s',attemptRows_some.mpr ⟨row',held.reservations ▸ reserved,?_⟩,inactive,why⟩
      rw [held.sources,Table.lookup_modify,if_neg same]
      exact known
  · exact .inr (held.reservations ▸ gone)

/-! The stages of an attempt -/

structure Staged (id : String) (a : AttemptRow) : Prop where
  stored : a.state ≠ .superseded ∧ a.state ≠ .expired
  opened : a.state = .open_ → a.sealJson = none
  unsealed : a.sealJson = none → a.validatedParts = 0 ∧ a.derivedParts = 0
  within : ∀ manifest, a.sealJson = some manifest → (a.validatedParts : Int) ≤ manifest.parts
  finished : a.state = .validated ∨ a.state = .activated →
    ∃ manifest, a.sealJson = some manifest ∧ (a.validatedParts : Int) = manifest.parts
  receipt : ∀ receipt, a.activationJson = some receipt →
    receipt.head = id ∧ a.sealJson = some receipt.manifest ∧ receipt.baseHead = a.baseHead.getD ""

/-- The parts of the manifest and the inherited ones, as far as they were validated. -/
structure Whole (t : Tables) (id : String) (a : AttemptRow) : Prop where
  inputs : ∀ manifest, a.sealJson = some manifest → ∀ n : Nat, (n : Int) < manifest.parts →
    ∃ part, t.parts.lookup (id,n) = some part ∧ part.derived = false ∧
      (n < a.validatedParts → ∃ unit size, part.payload = .fixed unit size)
  derived : ∀ manifest, a.sealJson = some manifest → ∀ n < a.derivedParts,
    ∃ part, t.parts.lookup (id,manifest.parts.toNat+n) = some part ∧ part.derived = true ∧
      ∃ unit size, part.payload = .fixed unit size

/-- An attempt that is the head, or could still become it. -/
def Reached (id : String) (a : AttemptRow) (r : ReservationRow) (s : SourceRow) (now : Int) : Prop :=
  a.state = .activated ∧ s.currentHead = some id ∨
  a.state ≠ .activated ∧ a.state ≠ .rejected ∧ a.fence = s.writerFence ∧ a.baseHead = s.currentHead ∧
    now < a.leaseUntil ∧ now < r.expiresAt

structure Intact (t : Tables) (now : Int) : Prop where
  staged : ∀ id a, t.attempts.lookup id = some a → Staged id a
  whole : ∀ id a r s, t.attemptRows id = some (a,r,s) → Reached id a r s now → t.Whole id a

theorem Reached.mono {later : Int}
    (reached : Reached id a r s later) (passed : now ≤ later) : Reached id a r s now := by
  rcases reached with head | ⟨inactive,open_,fence,base,lease,reservation⟩
  · exact .inl head
  · exact .inr ⟨inactive,open_,fence,base,passed.trans_lt lease,passed.trans_lt reservation⟩

theorem Intact.mono {later : Int} (intact : t.Intact now) (passed : now ≤ later) : t.Intact later :=
  ⟨intact.staged,fun id a r s rows reached => intact.whole id a r s rows (reached.mono passed)⟩

theorem Intact.new (now : Int) : new.Intact now where
  staged id a held := by simp [Tables.new] at held
  whole id a r s rows := by simp [Tables.attemptRows,Tables.new] at rows

theorem Live.reached (wired : Wired pk t) (clock : Forward c.clock)
    (live : t.Live id a r s (c.clock 1)) : Reached id a r s (c.clock 0) := by
  have passed : c.clock 0 ≤ c.clock 1 := clock (Nat.zero_le 1)
  refine .inr ⟨(live.unreceipted wired).1,?_,live.fence,live.base,passed.trans_lt live.lease,
    passed.trans_lt live.reservation⟩
  intro rejected
  have active := live.active
  rw [rejected] at active
  cases active

theorem Whole.same {a' : AttemptRow} (whole : t.Whole id a)
    (parts : ∀ n, t'.parts.lookup (id,n) = t.parts.lookup (id,n)) (manifest : a'.sealJson = a.sealJson)
    (validated : a'.validatedParts = a.validatedParts) (derived : a'.derivedParts = a.derivedParts) :
    t'.Whole id a' := by
  constructor
  · intro m sealed n bound
    rw [parts,validated]
    exact whole.inputs m (manifest.symm.trans sealed) n bound
  · intro m sealed n bound
    rw [parts]
    exact whole.derived m (manifest.symm.trans sealed) n (derived ▸ bound)

theorem Intact.modified (intact : t.Intact (c.clock 0)) {f : AttemptRow → AttemptRow}
    {parts : Table (String × Nat) PartRow}
    (held : t'.Holds t.sources t.reservations (t.attempts.modify id f) parts) (known : t.attempts.lookup id = some a)
    (session : ∀ a, (f a).sessionID = a.sessionID)
    (others : ∀ id' n, id' ≠ id → parts.lookup (id',n) = t.parts.lookup (id',n))
    (staged : Staged id a → Staged id (f a))
    (whole : ∀ r s, t.attemptRows id = some (a,r,s) → Reached id (f a) r s (c.clock 0) → t'.Whole id (f a)) :
    t'.Intact (c.clock 0) := by
  constructor
  · intro id' a' row
    rw [held.attempts,Table.lookup_modify] at row
    split at row
    next here =>
      subst here
      rw [known] at row
      cases row
      exact staged (intact.staged id' a known)
    next => exact intact.staged id' a' row
  · intro id' a' r s rows reached
    rw [attemptRows_modify session held] at rows
    split at rows
    next here =>
      subst here
      obtain ⟨⟨b,r',s'⟩,old,same⟩ := Option.map_eq_some_iff.mp rows
      cases same
      cases known.symm.trans (attemptRows_some.mp old).1
      exact whole r s old reached
    next apart =>
      exact (intact.whole id' a' r s rows reached).same (fun n => by rw [held.parts,others id' n apart]) rfl rfl rfl

theorem Intact.steady (intact : t.Intact (c.clock 0)) (attempts : t'.attempts = t.attempts) (parts : t'.parts = t.parts)
    (rows : ∀ id a r s, t'.attemptRows id = some (a,r,s) → t.attemptRows id = some (a,r,s)) :
    t'.Intact (c.clock 0) := by
  constructor
  · intro id a row
    exact intact.staged id a (attempts ▸ row)
  · intro id a r s rows' reached
    exact (intact.whole id a r s (rows id a r s rows') reached).same (fun n => by rw [parts]) rfl rfl rfl

theorem Intact.effect (wired : Wired pk t) (linear : Linear t heads) (clock : Forward c.clock)
    (intact : t.Intact (c.clock 0)) (effect : Effect limits pk c t t') : t'.Intact (c.clock 0) := by
  cases effect with
  | alike alike => exact intact.steady alike.attempts alike.parts fun id a r s rows => (alike.attemptRows id) ▸ rows
  | @bound sessionID source fresh headless user held =>
    refine intact.steady held.attempts held.parts fun id a r s rows => ?_
    obtain ⟨row,reserved,known⟩ := attemptRows_some.mp rows
    obtain ⟨r',s',old,_⟩ := wired.rows (held.attempts ▸ row)
    obtain ⟨_,reserved',known'⟩ := attemptRows_some.mp old
    have apart : a.sessionID ≠ sessionID := by
      intro same
      rw [same,fresh] at known'
      cases known'
    rw [held.sources,Table.lookup_insert,if_neg apart] at known
    exact attemptRows_some.mpr ⟨held.attempts ▸ row,held.reservations ▸ reserved,known⟩
  | @reserved r' fresh source held =>
    refine intact.steady held.attempts held.parts fun id a r s rows => ?_
    obtain ⟨row,reserved,known⟩ := attemptRows_some.mp rows
    obtain ⟨r₀,reserved',_⟩ := wired.attempts id a (held.attempts ▸ row)
    have apart : id ≠ c.token := by
      rintro rfl
      rw [fresh] at reserved'
      cases reserved'
    rw [held.reservations,Table.lookup_insert,if_neg apart] at reserved
    exact attemptRows_some.mpr ⟨held.attempts ▸ row,reserved,held.sources ▸ known⟩
  | @began id r s input leaseUntil reservation source fresh held =>
    constructor
    · intro id' a row
      rw [held.attempts,Table.lookup_insert] at row
      split at row
      next =>
        cases row
        exact ⟨by simp [newAttempt],fun _ => rfl,fun _ => ⟨rfl,rfl⟩,by simp [newAttempt],by simp [newAttempt],
          by simp [newAttempt]⟩
      next => exact intact.staged id' a row
    · intro id' a r' s' rows reached
      obtain ⟨row,reserved,known⟩ := attemptRows_some.mp rows
      rw [held.attempts,Table.lookup_insert] at row
      split at row
      next =>
        cases row
        exact ⟨by simp [newAttempt],by simp [newAttempt]⟩
      next =>
        rw [held.reservations] at reserved
        rw [held.sources,Table.lookup_modify] at known
        have parts (n : Nat) : t'.parts.lookup (id',n) = t.parts.lookup (id',n) := by rw [held.parts]
        split at known
        next =>
          obtain ⟨s₀,old,rfl⟩ := Option.map_eq_some_iff.mp known
          have before : t.attemptRows id' = some (a,r',s₀) := attemptRows_some.mpr ⟨row,reserved,old⟩
          rcases reached with head | ⟨_,_,fence,_⟩
          · exact (intact.whole id' a r' s₀ before (.inl head)).same parts rfl rfl rfl
          · have bound := linear.fences id' a s₀ row old
            simp only [fenced] at fence
            omega
        next =>
          exact (intact.whole id' a r' s' (attemptRows_some.mpr ⟨row,reserved,known⟩) reached).same parts rfl rfl rfl
  | @stored id userID a r s ordinal part live open_ owned fresh input target pending held =>
    have known := (attemptRows_some.mp live.rows).1
    have unsealed := (intact.staged id a known).opened open_
    refine intact.modified held known (fun _ => rfl) (fun id' n apart => ?_) (fun staged => ?_) fun r' s' rows _ => ?_
    · rw [Table.lookup_insert,if_neg]
      intro same
      exact apart (Prod.mk.inj same).1
    · exact ⟨staged.stored,staged.opened,staged.unsealed,staged.within,staged.finished,staged.receipt⟩
    · constructor <;> intro manifest sealed <;> simp [putInto,unsealed] at sealed
  | @sealed id a r s manifest live unsealed count parts held =>
    have known := (attemptRows_some.mp live.rows).1
    have stage := intact.staged id a known
    obtain ⟨none,derived⟩ := stage.unsealed unsealed
    refine intact.modified held known (fun _ => rfl) (fun _ _ _ => rfl) (fun staged => ?_) fun r' s' rows _ => ?_
    · refine ⟨by simp [sealedWith],by simp [sealedWith],by simp [sealedWith],fun m same => ?_,by simp [sealedWith],
        fun receipt known => ?_⟩
      · simp only [sealedWith,Option.some.injEq] at same ⊢
        rw [← same,none]
        omega
      · simp only [sealedWith] at known
        rw [(live.unreceipted wired).2] at known
        cases known
    · constructor
      · intro m same n bound
        simp only [sealedWith,Option.some.injEq] at same ⊢
        rw [← same] at bound
        obtain ⟨part,stored,input⟩ := parts n bound
        exact ⟨part,held.parts ▸ stored,input,fun below => by omega⟩
      · intro m same n bound
        simp only [sealedWith,derived] at bound
        omega
  | @renewed id a r s leaseUntil live timely held =>
    have known := (attemptRows_some.mp live.rows).1
    refine intact.modified held known (fun _ => rfl) (fun _ _ _ => rfl) (fun staged => ?_) fun r' s' rows _ => ?_
    · exact ⟨staged.stored,staged.opened,staged.unsealed,staged.within,staged.finished,staged.receipt⟩
    · exact (intact.whole id a r s live.rows (live.reached wired clock)).same (fun n => by rw [held.parts]) rfl rfl rfl
  | @rejected id a r s rows inactive held =>
    refine intact.modified held (attemptRows_some.mp rows).1 (fun _ => rfl) (fun _ _ _ => rfl) (fun staged => ?_)
      fun r' s' _ reached => ?_
    · exact ⟨by simp [rejected],by simp [rejected],staged.unsealed,staged.within,by simp [rejected],staged.receipt⟩
    · simp [Reached,rejected] at reached
  | @validated id userID a r s manifest part body unit size header declared state live fixed unfinished owned place payload
      target pending next held =>
    have known := (attemptRows_some.mp live.rows).1
    have whole := intact.whole id a r s live.rows (live.reached wired clock)
    have stage := intact.staged id a known
    have within := stage.within manifest fixed
    refine intact.modified held known (fun _ => rfl) (fun id' n apart => ?_) (fun staged => ?_) fun r' s' rows _ => ?_
    · rw [Table.lookup_modify,if_neg]
      intro same
      exact apart (Prod.mk.inj same).1
    · refine ⟨?_,?_,?_,fun m same => ?_,fun final => ?_,fun receipt known => ?_⟩
      · rcases next with rfl | ⟨rfl,_⟩ <;> simp [advanced]
      · rcases next with rfl | ⟨rfl,_⟩ <;> simp [advanced]
      · simp [advanced,fixed]
      · simp only [advanced] at same ⊢
        cases fixed.symm.trans same
        push_cast
        omega
      · rcases next with rfl | ⟨rfl,last⟩
        · simp [advanced] at final
        · exact ⟨manifest,fixed,by simp only [advanced]; push_cast; exact last⟩
      · simp only [advanced] at known
        rw [(live.unreceipted wired).2] at known
        cases known
    · constructor
      · intro m same n bound
        simp only [advanced] at same ⊢
        cases fixed.symm.trans same
        obtain ⟨old,stored,input,done⟩ := whole.inputs manifest fixed n bound
        rw [held.parts,Table.lookup_modify]
        by_cases here : n = a.validatedParts
        · subst here
          rw [if_pos rfl,stored]
          exact ⟨_,rfl,input,fun _ => ⟨unit,size,rfl⟩⟩
        · rw [if_neg (fun same => here (Prod.mk.inj same).2)]
          exact ⟨old,stored,input,fun below => done (by omega)⟩
      · intro m same n bound
        simp only [advanced] at same bound
        cases fixed.symm.trans same
        obtain ⟨old,stored,derived,done⟩ := whole.derived manifest fixed n bound
        rw [held.parts,Table.lookup_modify]
        have apart : (id,manifest.parts.toNat+n) ≠ (id,a.validatedParts) := by
          intro same
          have := (Prod.mk.inj same).2
          omega
        rw [if_neg apart]
        exact ⟨old,stored,derived,done⟩
  | @kept id a r s manifest cursor state live fixed finished next held =>
    have known := (attemptRows_some.mp live.rows).1
    have whole := intact.whole id a r s live.rows (live.reached wired clock)
    refine intact.modified held known (fun _ => rfl) (fun _ _ _ => rfl) (fun staged => ?_) fun r' s' rows _ => ?_
    · refine ⟨?_,?_,?_,staged.within,fun _ => ⟨manifest,fixed,finished⟩,staged.receipt⟩
      · rcases next with rfl | rfl <;> simp [inherited]
      · rcases next with rfl | rfl <;> simp [inherited]
      · simp [inherited,fixed]
    · exact whole.same (fun n => by rw [held.parts]) rfl rfl rfl
  | @inherited id userID a r s manifest part cursor state live fixed finished owned fresh derived payload target pending
      next held =>
    have known := (attemptRows_some.mp live.rows).1
    have whole := intact.whole id a r s live.rows (live.reached wired clock)
    refine intact.modified held known (fun _ => rfl) (fun id' n apart => ?_) (fun staged => ?_) fun r' s' rows _ => ?_
    · rw [Table.lookup_insert,if_neg]
      intro same
      exact apart (Prod.mk.inj same).1
    · refine ⟨?_,?_,?_,staged.within,fun _ => ⟨manifest,fixed,finished⟩,staged.receipt⟩
      · rcases next with rfl | rfl <;> simp [inherited]
      · rcases next with rfl | rfl <;> simp [inherited]
      · simp [inherited,fixed]
    · constructor
      · intro m same n bound
        simp only [inherited] at same ⊢
        cases fixed.symm.trans same
        obtain ⟨old,stored,input,done⟩ := whole.inputs manifest fixed n bound
        rw [held.parts,Table.lookup_insert,if_neg]
        · exact ⟨old,stored,input,done⟩
        · intro same
          have := (Prod.mk.inj same).2
          omega
      · intro m same n bound
        simp only [inherited] at same bound
        cases fixed.symm.trans same
        rw [held.parts,Table.lookup_insert]
        by_cases here : n = a.derivedParts
        · subst here
          rw [if_pos rfl]
          exact ⟨part,rfl,derived,payload⟩
        · rw [if_neg]
          · exact whole.derived manifest fixed n (by omega)
          · intro same
            have := (Prod.mk.inj same).2
            omega
  | @reclaimed id userID ordinal part unreachable place held =>
    obtain ⟨a,known⟩ := wired.parts id ordinal part place
    refine intact.modified held known (fun _ => rfl) (fun id' n apart => ?_) (fun staged => ?_) fun r' s' rows reached => ?_
    · rw [Table.lookup_erase,if_neg]
      intro same
      exact apart (Prod.mk.inj same).1
    · refine ⟨staged.stored,staged.opened,fun unsealed => ?_,staged.within,staged.finished,staged.receipt⟩
      obtain ⟨none,derived⟩ := staged.unsealed unsealed
      exact ⟨none,by simp [reclaimed,derived]⟩
    · -- What is reclaimed can be read no more.
      exfalso
      unfold reclaimable at unreachable
      rw [rows] at unreachable
      rcases reached with ⟨active,head⟩ | ⟨inactive,open_,fence,base,lease,reservation⟩
      · simp only [reclaimed] at active
        simp [active,head] at unreachable
      · simp only [reclaimed] at inactive open_ fence base lease
        simp [inactive,open_,fence,base,not_le.mpr lease,not_le.mpr reservation] at unreachable
  | @dropped ids spent held =>
    constructor
    · intro id a row
      rw [held.attempts,Table.lookup_keep] at row
      exact intact.staged id a (Option.filter_eq_some_iff.mp row).1
    · intro id a r s rows reached
      obtain ⟨row,reserved,known⟩ := attemptRows_some.mp rows
      rw [held.attempts,Table.lookup_keep] at row
      rw [held.reservations,Table.lookup_keep] at reserved
      rw [held.sources] at known
      obtain ⟨row,stays⟩ := Option.filter_eq_some_iff.mp row
      have before : t.attemptRows id = some (a,r,s) :=
        attemptRows_some.mpr ⟨row,(Option.filter_eq_some_iff.mp reserved).1,known⟩
      refine (intact.whole id a r s before reached).same (fun n => ?_) rfl rfl rfl
      rw [held.parts,Table.lookup_keep]
      cases t.parts.lookup (id,n) with
      | none => rfl
      | some part => exact Option.filter_eq_some_iff.mpr ⟨rfl,stays⟩

theorem Intact.activates (wired : Wired pk t) (linear : Linear t heads) (clock : Forward c.clock)
    (intact : t.Intact (c.clock 0))
    {manifest : Manifest} {observedAt : Time} (activates : Activates c t t' id a r s manifest observedAt) :
    t'.Intact (c.clock 0) := by
  have held := activates.held
  obtain ⟨known,_,source⟩ := attemptRows_some.mp activates.live.rows
  have whole := intact.whole id a r s activates.live.rows (activates.live.reached wired clock)
  have parts (id' : String) (n : Nat) : t'.parts.lookup (id',n) = t.parts.lookup (id',n) := by rw [held.parts]
  constructor
  · intro id' a' row
    rw [held.attempts,Table.lookup_modify] at row
    split at row
    next here =>
      subst here
      rw [known] at row
      cases row
      have staged := intact.staged id' a known
      refine ⟨by simp [activated],by simp [activated],by simp [activated,activates.fixed],staged.within,
        fun _ => ⟨manifest,activates.fixed,activates.finished⟩,fun receipt made => ?_⟩
      simp only [activated,Option.some.injEq] at made
      subst made
      exact ⟨rfl,activates.fixed,rfl⟩
    next => exact intact.staged id' a' row
  · intro id' a' r' s' rows reached
    obtain ⟨row,reserved,bound⟩ := attemptRows_some.mp rows
    rw [held.attempts,Table.lookup_modify] at row
    rw [held.reservations] at reserved
    rw [held.sources,Table.lookup_modify] at bound
    split at row
    next here =>
      subst here
      rw [known] at row
      cases row
      exact whole.same (parts id') rfl rfl rfl
    next apart =>
      split at bound
      next same =>
        obtain ⟨s₀,old,rfl⟩ := Option.map_eq_some_iff.mp bound
        exfalso
        rcases reached with ⟨_,head⟩ | ⟨_,_,_,base,_⟩
        · exact apart (Option.some.inj head).symm
        · obtain ⟨b,row',_,active⟩ := (linear.members _ id).mp (linear.known id' a' id row base)
          cases known.symm.trans row'
          exact (activates.live.unreceipted wired).1 active
      next =>
        exact (intact.whole id' a' r' s' (attemptRows_some.mpr ⟨row,reserved,bound⟩) reached).same (parts id') rfl rfl rfl

/-! Identifiers are issued once -/

theorem issued_effect (effect : Effect limits pk c t t')
    (held : t'.reservations.lookup id = some r) : (t.reservations.lookup id).isSome ∨ id = c.token := by
  have same (kept : t'.reservations = t.reservations) : (t.reservations.lookup id).isSome ∨ id = c.token := by
    rw [kept] at held
    exact .inl (by rw [held]; rfl)
  cases effect with
  | alike alike => exact same alike.reservations
  | bound _ _ _ held' => exact same held'.reservations
  | reserved _ _ held' =>
    rw [held'.reservations,Table.lookup_insert] at held
    split at held
    next here => exact .inr here
    next => exact .inl (by rw [held]; rfl)
  | began _ _ _ held' => exact same held'.reservations
  | stored _ _ _ _ _ _ _ held' => exact same held'.reservations
  | sealed _ _ _ _ held' => exact same held'.reservations
  | renewed _ _ held' => exact same held'.reservations
  | rejected _ _ held' => exact same held'.reservations
  | validated _ _ _ _ _ _ _ _ _ held' => exact same held'.reservations
  | kept _ _ _ _ held' => exact same held'.reservations
  | inherited _ _ _ _ _ _ _ _ _ _ held' => exact same held'.reservations
  | reclaimed _ _ held' => exact same held'.reservations
  | dropped _ held' =>
    rw [held'.reservations,Table.lookup_keep] at held
    exact .inl (by rw [(Option.filter_eq_some_iff.mp held).1]; rfl)

end
end Tables

/-- What every run keeps of the heads. -/
structure Coherent (pk : Packages) (m : Moment) (heads : String → List String) : Prop where
  wired : Tables.Wired pk m.tables
  linear : m.tables.Linear heads
  intact : m.tables.Intact m.now
  issued : ∀ id r, m.tables.reservations.lookup id = some r → id ∈ m.issued

section
variable {limits : Limits} {pk : Packages} {m m' : Moment} {heads : String → List String}

theorem Coherent.effects {c : Context} {t t' : Tables} (clock : Forward c.clock) (wired : Tables.Wired pk t)
    (linear : t.Linear heads) (intact : t.Intact (c.clock 0)) (effects : Tables.Effects limits pk c t t') :
    Tables.Wired pk t' ∧ t'.Linear heads ∧ t'.Intact (c.clock 0) := by
  induction effects with
  | refl => exact ⟨wired,linear,intact⟩
  | tail _ effect ih =>
    obtain ⟨wired,linear,intact⟩ := ih
    exact ⟨wired.effect effect,(Tables.Steady.of_effect wired effect).linear wired linear,
      intact.effect wired linear clock effect⟩

theorem Coherent.ended {c : Context} {t t' : Tables} (clock : Forward c.clock) (other : id ≠ c.token)
    (wired : Tables.Wired pk t) (linear : t.Linear heads) (ended : t.Ended id (c.clock 0))
    (effects : Tables.Effects limits pk c t t') : t'.Ended id (c.clock 0) := by
  have all : Tables.Wired pk t' ∧ t'.Linear heads ∧ t'.Ended id (c.clock 0) := by
    induction effects with
    | refl => exact ⟨wired,linear,ended⟩
    | tail _ effect ih =>
      obtain ⟨wired,linear,ended⟩ := ih
      exact ⟨wired.effect effect,(Tables.Steady.of_effect wired effect).linear wired linear,
        ended.effect linear other clock effect⟩
  exact all.2.2

theorem Coherent.reservations {c : Context} {t t' : Tables}
    (effects : Tables.Effects limits pk c t t') (held : t'.reservations.lookup id = some r) :
    (t.reservations.lookup id).isSome ∨ id = c.token := by
  induction effects generalizing r with
  | refl => exact .inl (by rw [held]; rfl)
  | tail _ effect ih =>
    rcases Tables.issued_effect effect held with before | token
    · obtain ⟨r',before⟩ := Option.isSome_iff_exists.mp before
      exact ih before
    · exact .inr token

theorem Coherent.started (now : Int) : Coherent pk (started now) fun _ => [] where
  wired := .new pk
  linear := .new
  intact := .new now
  issued id r held := by simp [ATape.Publication.started,Tables.new] at held

/-- A turn leaves the heads as they are, or puts an attempt on the current one. -/
def Extends (m m' : Moment) (heads heads' : String → List String) : Prop :=
  heads' = heads ∨ ∃ sessionID id a, heads' = Tables.withHead heads sessionID id ∧ id ∉ heads sessionID ∧
    m'.tables.attempts.lookup id = some a ∧ a.sessionID = sessionID ∧ a.baseHead = m.tables.currentHead sessionID

theorem Coherent.turn (coherent : Coherent pk m heads) (turn : Turn limits pk m m') :
    ∃ heads', Coherent pk m' heads' ∧ Extends m m' heads heads' := by
  obtain ⟨passed,grown,alike | ⟨c,clock,start,finish,fresh,token,effects | ⟨id,a,r,s,manifest,observedAt,activates⟩⟩⟩ :=
    turn.effects
  · have effect : Tables.Effect limits pk ⟨fun _ => m.now,.zero,fun _ => none,"",fun _ => (0,.zero)⟩ m.tables m'.tables :=
      .alike alike
    refine ⟨heads,⟨coherent.wired.effect effect,
      (Tables.Steady.of_effect coherent.wired effect).linear coherent.wired coherent.linear,
      (coherent.intact.effect coherent.wired coherent.linear forward_const effect).mono passed,fun id r held => ?_⟩,.inl rfl⟩
    rw [alike.reservations] at held
    exact grown (coherent.issued id r held)
  · obtain ⟨wired,linear,intact⟩ := Coherent.effects clock coherent.wired coherent.linear (coherent.intact.mono start) effects
    refine ⟨heads,⟨wired,linear,intact.mono (finish 0),fun id r held => ?_⟩,.inl rfl⟩
    rcases Coherent.reservations effects held with before | same
    · obtain ⟨r',before⟩ := Option.isSome_iff_exists.mp before
      exact grown (coherent.issued id r' before)
    · exact same ▸ token
  · obtain ⟨known,_,source⟩ := Tables.attemptRows_some.mp activates.live.rows
    have linear := coherent.linear.activates coherent.wired activates
    refine ⟨_,⟨coherent.wired.activates activates,linear,
      ((coherent.intact.mono start).activates coherent.wired coherent.linear clock activates).mono (finish 0),
      fun id' r' held => ?_⟩,.inr ⟨a.sessionID,id,
        Tables.activated (Tables.activationReceipt (Tables.attemptValue id a r s (c.clock 1)) manifest c.now) observedAt a,
        rfl,?_,?_,rfl,?_⟩⟩
    · rw [activates.held.reservations] at held
      exact grown (coherent.issued id' r' held)
    · intro member
      obtain ⟨b,row,_,active⟩ := (coherent.linear.members _ id).mp member
      cases known.symm.trans row
      exact (activates.live.unreceipted coherent.wired).1 active
    · rw [activates.held.attempts,Table.lookup_modify,if_pos rfl,known]
      rfl
    · unfold Tables.currentHead
      rw [source]
      exact activates.live.base

theorem Run.coherent (run : Run limits pk (ATape.Publication.started now) m) : ∃ heads, Coherent pk m heads := by
  induction run with
  | refl => exact ⟨_,.started now⟩
  | tail _ turn ih =>
    obtain ⟨heads,coherent⟩ := ih
    obtain ⟨heads',coherent',_⟩ := coherent.turn turn
    exact ⟨heads',coherent'⟩

theorem Coherent.later (coherent : Coherent pk m heads) (run : Run limits pk m m') : ∃ heads', Coherent pk m' heads' := by
  induction run with
  | refl => exact ⟨heads,coherent⟩
  | tail _ turn ih =>
    obtain ⟨_,coherent'⟩ := ih
    obtain ⟨heads'',coherent'',_⟩ := coherent'.turn turn
    exact ⟨heads'',coherent''⟩

theorem Coherent.receipt_turn (coherent : Coherent pk m heads) (turn : Turn limits pk m m')
    (held : m.tables.attempts.lookup id = some a) (made : a.activationJson = some receipt) :
    ∃ a', m'.tables.attempts.lookup id = some a' ∧ a'.activationJson = some receipt := by
  have steady {t t' : Tables} (wired : Tables.Wired pk t) (steady : Tables.Steady t t')
      (before : ∃ a, t.attempts.lookup id = some a ∧ a.activationJson = some receipt) :
      ∃ a', t'.attempts.lookup id = some a' ∧ a'.activationJson = some receipt := by
    obtain ⟨a,held,made⟩ := before
    have active := (wired.receipts id a held).mpr (by rw [made]; rfl)
    obtain ⟨a',held'⟩ := steady.kept id a held active
    rcases steady.attempts id a' held' with ⟨b,row,same⟩ | ⟨fresh,_⟩
    · cases held.symm.trans row
      exact ⟨a',held',(same.receipt (by rw [made]; rfl)).trans made⟩
    · rw [held] at fresh
      cases fresh
  obtain ⟨_,_,alike | ⟨c,clock,start,_,_,_,effects | ⟨id',a',r,s,manifest,observedAt,activates⟩⟩⟩ := turn.effects
  · exact ⟨a,alike.attempts ▸ held,made⟩
  · have both : Tables.Wired pk m'.tables ∧
        ∃ a', m'.tables.attempts.lookup id = some a' ∧ a'.activationJson = some receipt :=
      Tables.effects_keep effects
        (fun t t' effect (both : Tables.Wired pk t ∧ ∃ a, t.attempts.lookup id = some a ∧ a.activationJson = some receipt) =>
          (⟨both.1.effect effect,steady both.1 (.of_effect both.1 effect) both.2⟩ : Tables.Wired pk t' ∧
            ∃ a, t'.attempts.lookup id = some a ∧ a.activationJson = some receipt)) ⟨coherent.wired,a,held,made⟩
    exact both.2
  · have apart : id ≠ id' := by
      rintro rfl
      cases held.symm.trans (Tables.attemptRows_some.mp activates.live.rows).1
      have none := (activates.live.unreceipted coherent.wired).2
      rw [made] at none
      cases none
    refine ⟨a,?_,made⟩
    rw [activates.held.attempts,Table.lookup_modify,if_neg apart]
    exact held

theorem Coherent.receipt_run (coherent : Coherent pk m heads) (run : Run limits pk m m')
    (held : m.tables.attempts.lookup id = some a) (made : a.activationJson = some receipt) :
    ∃ a', m'.tables.attempts.lookup id = some a' ∧ a'.activationJson = some receipt := by
  induction run with
  | refl => exact ⟨a,held,made⟩
  | tail before turn ih =>
    obtain ⟨a',held',made'⟩ := ih
    obtain ⟨_,coherent'⟩ := coherent.later before
    exact coherent'.receipt_turn turn held' made'

theorem Coherent.ended_turn (coherent : Coherent pk m heads) (turn : Turn limits pk m m')
    (known : id ∈ m.issued) (ended : m.tables.Ended id m.now) : id ∈ m'.issued ∧ m'.tables.Ended id m'.now := by
  obtain ⟨passed,grown,alike | ⟨c,clock,start,finish,fresh,_,moved⟩⟩ := turn.effects
  · refine ⟨grown known,(ended.same (alike.attemptRows id) ?_).mono passed⟩
    rw [alike.reservations]
  · have other : id ≠ c.token := by
      rintro rfl
      exact fresh known
    refine ⟨grown known,?_⟩
    rcases moved with effects | ⟨id',a,r,s,manifest,observedAt,activates⟩
    · exact (Coherent.ended clock other coherent.wired coherent.linear (ended.mono start) effects).mono (finish 0)
    · exact ((ended.mono start).activates coherent.wired coherent.linear clock activates).mono (finish 0)

theorem Coherent.ended_run (coherent : Coherent pk m heads) (run : Run limits pk m m')
    (known : id ∈ m.issued) (ended : m.tables.Ended id m.now) : id ∈ m'.issued ∧ m'.tables.Ended id m'.now := by
  induction run with
  | refl => exact ⟨known,ended⟩
  | tail before turn ih =>
    obtain ⟨known',ended'⟩ := ih
    obtain ⟨_,coherent'⟩ := coherent.later before
    exact coherent'.ended_turn turn known' ended'

end

/-! The guarantees -/

def Refused (pk : Packages) (t : Tables) (c : Context) (p : Principal) (id : String) (failure : Failure) : Prop :=
  publicationUser pk p = .error failure ∨ t.reservation c p id = .error failure

theorem Tables.activate_again {pk : Packages} {t : Tables} {c : Context} {p : Principal} {attemptID : String}
    (wired : Tables.Wired pk t) (named : pk.uuid attemptID = some id)
    (held : t.attempts.lookup id = some a) (made : a.activationJson = some receipt) :
    t.activate pk c p attemptID = .ok (t,receipt) ∨
      ∃ failure, t.activate pk c p attemptID = .error failure ∧ Refused pk t c p id failure := by
  obtain ⟨r,s,rows,_⟩ := wired.rows held
  unfold Tables.activate publicationID
  rw [named,present_some,ok_bind]
  cases user : publicationUser pk p with
  | error failure => exact .inr ⟨failure,rfl,.inl user⟩
  | ok userID =>
    rw [ok_bind]
    cases read : t.reservation c p id with
    | error failure => exact .inr ⟨failure,rfl,.inr read⟩
    | ok value =>
      left
      unfold Tables.publicationAttempt Tables.getPublicationAttempt
      rw [ok_bind,rows,Option.map_some,present_some,ok_bind]
      simp only [Tables.attemptValue,made]

/-- What the store holds of a head: the parts of its manifest, each validated, and those it
inherited. -/
structure HeadStored (t : Tables) (head : String) (a : AttemptRow) (receipt : Activation) : Prop where
  row : t.attempts.lookup head = some a
  state : a.state = .activated
  made : a.activationJson = some receipt
  names : receipt.head = head
  manifest : a.sealJson = some receipt.manifest
  validated : (a.validatedParts : Int) = receipt.manifest.parts
  inputs : ∀ n : Nat, (n : Int) < receipt.manifest.parts → ∃ part unit size,
    t.parts.lookup (head,n) = some part ∧ part.derived = false ∧ part.payload = .fixed unit size
  inherited : ∀ n < a.derivedParts, ∃ part unit size,
    t.parts.lookup (head,receipt.manifest.parts.toNat+n) = some part ∧ part.derived = true ∧
      part.payload = .fixed unit size

structure HeadsSafe (limits : Limits) (pk : Packages) (m : Moment) : Prop where
  /-- The activated attempts of each session are one chain, to which a turn adds at most one
  attempt, on the head that is current. -/
  chain : ∃ heads, m.tables.Linear heads ∧
    ∀ m', Turn limits pk m m' → ∃ heads', m'.tables.Linear heads' ∧ Extends m m' heads heads'
  /-- A receipt stays, and every later `Activate` gives it. -/
  once : ∀ id a, m.tables.attempts.lookup id = some a → a.state = .activated → ∃ receipt,
    a.activationJson = some receipt ∧ ∀ m', Run limits pk m m' →
      (∃ a', m'.tables.attempts.lookup id = some a' ∧ a'.state = .activated ∧ a'.activationJson = some receipt) ∧
      ∀ c p attemptID, pk.uuid attemptID = some id →
        m'.tables.activate pk c p attemptID = .ok (m'.tables,receipt) ∨
          ∃ failure, m'.tables.activate pk c p attemptID = .error failure ∧ Refused pk m'.tables c p id failure
  /-- What was seen rejected, superseded or expired is never activated. -/
  final : ∀ id row a seen, seen ≤ m.now → m.tables.getPublicationAttempt id seen = some (row,a) →
    a.state = .rejected ∨ a.state = .superseded ∨ a.state = .expired → ∀ m', Run limits pk m m' →
      ∀ a', m'.tables.attempts.lookup id = some a' → a'.state ≠ .activated
  /-- All parts of a current head are stored. -/
  stored : ∀ sessionID s head, m.tables.sources.lookup sessionID = some s → s.currentHead = some head →
    ∃ a receipt, HeadStored m.tables head a receipt ∧ a.sessionID = sessionID

theorem heads_safe {limits : Limits} {pk : Packages} {now : Int} {m : Moment} (run : Run limits pk (started now) m) :
    HeadsSafe limits pk m := by
  obtain ⟨heads,coherent⟩ := run.coherent
  constructor
  case chain =>
    refine ⟨heads,coherent.linear,fun m' turn => ?_⟩
    obtain ⟨heads',coherent',extends_⟩ := coherent.turn turn
    exact ⟨heads',coherent'.linear,extends_⟩
  case once =>
    intro id a held active
    obtain ⟨receipt,made⟩ := Option.isSome_iff_exists.mp ((coherent.wired.receipts id a held).mp active)
    refine ⟨receipt,made,fun m' later => ?_⟩
    obtain ⟨_,coherent'⟩ := coherent.later later
    obtain ⟨a',held',made'⟩ := coherent.receipt_run later held made
    have active' := (coherent'.wired.receipts id a' held').mpr (by rw [made']; rfl)
    exact ⟨⟨a',held',active',made'⟩,fun c p attemptID named => Tables.activate_again coherent'.wired named held' made'⟩
  case final =>
    intro id row a seen passed read shown m' later a' held'
    unfold Tables.getPublicationAttempt at read
    obtain ⟨⟨b,r,s⟩,rows,same⟩ := Option.map_eq_some_iff.mp read
    simp only [Prod.mk.injEq] at same
    obtain ⟨rfl,rfl⟩ := same
    obtain ⟨held,reserved,_⟩ := Tables.attemptRows_some.mp rows
    have ended := (Tables.ended_of_state rows shown (coherent.intact.staged id b held).stored).mono passed
    obtain ⟨_,coherent'⟩ := coherent.later later
    exact (coherent.ended_run later (coherent.issued id r reserved) ended).2.inactive coherent'.wired held'
  case stored =>
    intro sessionID s head source current
    have top := coherent.linear.current sessionID s source
    rw [current] at top
    obtain ⟨a,held,session,active⟩ := (coherent.linear.members sessionID head).mp (List.mem_of_mem_head? top.symm)
    obtain ⟨receipt,made⟩ := Option.isSome_iff_exists.mp ((coherent.wired.receipts head a held).mp active)
    obtain ⟨r,s',rows,_⟩ := coherent.wired.rows held
    have same := (Tables.attemptRows_some.mp rows).2.2
    rw [session] at same
    cases source.symm.trans same
    have staged := coherent.intact.staged head a held
    have whole := coherent.intact.whole head a r s rows (.inl ⟨active,current⟩)
    obtain ⟨manifest,sealed,finished⟩ := staged.finished (.inr active)
    obtain ⟨names,fixed,_⟩ := staged.receipt receipt made
    cases sealed.symm.trans fixed
    refine ⟨a,receipt,⟨held,active,made,names,fixed,finished,fun n bound => ?_,fun n bound => ?_⟩,session⟩
    · obtain ⟨part,stored,input,done⟩ := whole.inputs _ fixed n bound
      obtain ⟨unit,size,payload⟩ := done (by omega)
      exact ⟨part,unit,size,stored,input,payload⟩
    · obtain ⟨part,stored,derived,unit,size,payload⟩ := whole.derived _ fixed n bound
      exact ⟨part,unit,size,stored,derived,payload⟩

theorem heads_safe_put : HeadsSafe smallLimits plainPackages ⟨runCalls .new firstCalls,2,["put","begin",candidate]⟩ :=
  heads_safe firstRun

end ATape.Publication
