import ATape.Update.Ledger

/-! What an operation can leave behind, at its end or cut off after any of its writes,
with all that it checked before. -/
namespace ATape.Update
open Foundation Node Work

/-- The ledger was written, and then perhaps the pointer. -/
def Written (home : Home) (control : Control) (pointer : Option UpdateRuntimeSelection) (d : Home) : Prop :=
  d = home.withControl control ∨ d = (home.withControl control).withPointer pointer

/-- The pointer was written, and then perhaps the ledger. -/
def Restored (home : Home) (control : Control) (pointer : Option UpdateRuntimeSelection) (d : Home) : Prop :=
  d = home.withPointer pointer ∨ d = (home.withPointer pointer).withControl control

def Quiet (prior : Option Control) : Prop := ∀ c, prior = some c → c.phase.settled = true

/-- The runtime that a recovery returns satisfies the floor and is there. -/
def Restorable (c : Control) (disk : Disk) : Prop :=
  ¬c.unselected ∧ ∀ r, c.restore = some r →
    accepts c.floor r.admission = .ok true ∧ validateGeneration disk r c.forwardOnly = .ok ()

inductive Effect (h : Home) : Home → Prop
  | copied (version : String) (bootstrap : Bootstrap) :
      Effect h {h with disk := copyGeneration h.disk version bootstrap}
  | prepared {key : String} {prior : Option Control} {target : UpdateRuntimeSelection}
      {baseline previous : Option UpdateRuntimeSelection} (ledger : h.ledger = .ok prior) (quiet : Quiet prior)
      (selected : h.selection = .ok baseline) (given : previous = baseline ∨ previous.isSome)
      (admitted : Admitted prior target baseline previous h.disk)
      (sound : (⟨key,.prepared,baseline,previous,target,prior.bind (·.floor),false⟩ : Control).Sound) :
      Effect h (h.withControl ⟨key,.prepared,baseline,previous,target,prior.bind (·.floor),false⟩)
  | begun {c : Control} {p : Option UpdateRuntimeSelection} {d : Home} (ledger : h.ledger = .ok (some c))
      (phase : c.phase = .prepared ∨ c.phase = .begun) (selected : h.selection = .ok p)
      (allowed : p = c.baseline ∨ p = some c.target) (capable : validateGeneration h.disk c.target true = .ok ())
      (sound : {c with phase := .begun}.Sound) (written : Written h {c with phase := .begun} (some c.target) d) :
      Effect h d
  | fenced {c : Control} {p : Option UpdateRuntimeSelection} {d : Home} (ledger : h.ledger = .ok (some c))
      (phase : c.phase = .begun ∨ c.phase = .fenced) (selected : h.selection = .ok p)
      (allowed : p = c.baseline ∨ p = some c.target) (capable : validateGeneration h.disk c.target true = .ok ())
      (sound : {c with phase := .fenced, forwardOnly := true, floor := some c.target.floor}.Sound)
      (written : Written h {c with phase := .fenced, forwardOnly := true, floor := some c.target.floor}
        (some c.target) d) : Effect h d
  | completed {c : Control} (ledger : h.ledger = .ok (some c))
      (phase : c.phase = .begun ∨ c.phase = .fenced ∨ c.phase = .completed)
      (accepted : accepts c.floor c.target.admission = .ok true) (selected : h.selection = .ok (some c.target))
      (capable : validateGeneration h.disk c.target true = .ok ()) (sound : {c with phase := .completed}.Sound) :
      Effect h (h.withControl {c with phase := .completed})
  | handed {key : String} {prior : Option Control} {target : UpdateRuntimeSelection}
      {baseline previous : Option UpdateRuntimeSelection} {d : Home} (ledger : h.ledger = .ok prior)
      (quiet : Quiet prior) (selected : h.selection = .ok baseline)
      (admitted : Admitted prior target baseline previous h.disk)
      (sound : (forward key .completed baseline previous target).Sound)
      (written : Written h (forward key .completed baseline previous target) (some target) d) : Effect h d
  | repaired {c : Control} {p : Option UpdateRuntimeSelection} (ledger : h.ledger = .ok (some c))
      (phase : c.phase = .completed) (bound : c.forwardOnly = true) (selected : h.selection = .ok p)
      (allowed : p = c.baseline ∨ p = some c.target) (sound : c.target.Sound) :
      Effect h (h.withPointer (some c.target))
  | rebound {key : String} {prior : Option Control} {previous target : UpdateRuntimeSelection} {disk : Disk}
      {bootstrap : Bootstrap} {d : Home} (ledger : h.ledger = .ok prior) (quiet : Quiet prior)
      (selected : h.selection = .ok (some previous)) (copied : disk = copyGeneration h.disk target.version bootstrap)
      (upgrade : older target.version previous.version = .ok false)
      (accepted : accepts (prior.bind (·.floor)) target.admission = .ok true)
      (capable : validateGeneration disk target true = .ok ()) (phase : Phase)
      (which : phase = .fenced ∨ phase = .recovering ∨ phase = .completed)
      (sound : (forward key phase (some previous) (some previous) target).Sound)
      (written : d = {h with disk}.withControl (forward key phase (some previous) (some previous) target) ∧
        phase = .fenced ∨ d = ({h with disk}.withControl (forward key phase (some previous) (some previous) target)).withPointer
          (some target)) : Effect h d
  | restored {c : Control} {p : Option UpdateRuntimeSelection} {d : Home} (ledger : h.ledger = .ok (some c))
      (pending : c.phase.settled = false) (selected : h.selection = .ok p)
      (allowed : p = c.baseline ∨ p = some c.target ∨ p = c.previous) (restorable : Restorable c h.disk)
      (given : ∀ s, c.restored = some s → s.Sound)
      (written : Restored h {c with phase := .recovering} c.restored d) : Effect h d
  | recovered {c : Control} (ledger : h.ledger = .ok (some c)) (phase : c.phase = .recovering)
      (selected : h.selection = .ok c.restored) (restorable : Restorable c h.disk)
      (sound : {c with phase := .recovered}.Sound) : Effect h (h.withControl {c with phase := .recovered})

theorem quiet_iff {prior : Option Control} :
    (¬ (prior.any fun control => !control.phase.settled) = true) ↔ Quiet prior := by
  cases prior with
  | none => simp [Quiet]
  | some c => simp [Quiet]

variable {h h' d : Home} {key : String} {locks : Locks}

theorem prepare_leaves {next : UpdateRuntimeSelection} {given : Option UpdateRuntimeSelection}
    (left : Leaves (prepare key next given) h d) : Effect h d := by
  simp only [prepare,leaves_bind,leaves_lift,yields_lift,leaves_readControl,yields_readControl,
    leaves_failWhen,yields_failWhen,leaves_readSelection,yields_readSelection,leaves_previousOf,yields_previousOf,
    leaves_admitTarget,yields_admitTarget,leaves_writeControl,leaves_pure,decodeUpdateRuntimeSelection_ok,
    false_or,quiet_iff,and_false,exists_false,or_false] at left
  obtain ⟨_,_,⟨⟨_,rfl⟩,rfl⟩,prior,_,⟨ledger,rfl⟩,_,_,⟨quiet,rfl⟩,baseline,_,⟨selected,rfl⟩,previous,_,⟨_,rfl,rfl⟩,_,_,
    ⟨admitted,rfl⟩,sound,rfl⟩ := left
  refine .prepared ledger quiet selected ?_ admitted sound
  cases given with
  | none => exact .inl rfl
  | some s => exact .inr rfl

theorem begin_leaves (left : Leaves (begin_ key) h d) : Effect h d := by
  simp only [begin_,leaves_bind,leaves_transaction,yields_transaction,leaves_failWhen,yields_failWhen,
    leaves_unchanged,yields_unchanged,leaves_validated,yields_validated,leaves_writeControl,yields_writeControl,
    leaves_writeSelection,false_or] at left
  obtain ⟨c,_,⟨ledger,_,rfl⟩,_,_,⟨phase,rfl⟩,p,_,⟨selected,allowed,rfl⟩,_,_,⟨capable,rfl⟩,written⟩ := left
  have phase : c.phase = .prepared ∨ c.phase = .begun := by
    simpa [or_iff_not_imp_left] using phase
  have allowed : p = c.baseline ∨ p = some c.target := by
    split at allowed
    next => exact .inl (by simpa using allowed)
    next => simpa using allowed
  rcases written with ⟨sound,rfl⟩ | ⟨_,_,⟨sound,rfl⟩,_,rfl⟩
  · exact .begun ledger phase selected allowed capable sound (.inl rfl)
  · exact .begun ledger phase selected allowed capable sound (.inr rfl)

theorem fence_leaves (left : Leaves (fence key locks) h d) : Effect h d := by
  simp only [fence,leaves_bind,leaves_transaction,yields_transaction,leaves_failWhen,yields_failWhen,
    leaves_unchanged,yields_unchanged,leaves_validated,yields_validated,leaves_barrier,yields_barrier,leaves_fence,
    yields_fence,leaves_writeControl,yields_writeControl,leaves_writeSelection,false_or] at left
  obtain ⟨c,_,⟨ledger,_,rfl⟩,_,_,⟨phase,rfl⟩,_,_,⟨capable,rfl⟩,_,_,⟨_,rfl⟩,_,_,⟨_,_,rfl⟩,_,_,⟨_,rfl⟩,p,_,
    ⟨selected,allowed,rfl⟩,_,_,⟨_,rfl⟩,written⟩ := left
  have phase : c.phase = .begun ∨ c.phase = .fenced := by
    simpa [or_iff_not_imp_left] using phase
  have allowed : p = c.baseline ∨ p = some c.target := by
    simpa using allowed
  rcases written with ⟨sound,rfl⟩ | ⟨_,_,⟨sound,rfl⟩,_,rfl⟩
  · exact .fenced ledger phase selected allowed capable sound (.inl rfl)
  · exact .fenced ledger phase selected allowed capable sound (.inr rfl)

theorem complete_leaves (left : Leaves (complete key) h d) : Effect h d := by
  simp only [complete,leaves_bind,leaves_transaction,yields_transaction,leaves_failWhen,yields_failWhen,leaves_lift,
    yields_lift,leaves_unchanged,yields_unchanged,leaves_validated,yields_validated,leaves_writeControl,
    false_or] at left
  obtain ⟨c,_,⟨ledger,_,rfl⟩,_,_,⟨phase,rfl⟩,_,_,⟨_,rfl⟩,accepted,_,⟨accepts,rfl⟩,_,_,⟨fine,rfl⟩,p,_,
    ⟨selected,allowed,rfl⟩,_,_,⟨capable,rfl⟩,sound,rfl⟩ := left
  have phase : c.phase = .begun ∨ c.phase = .fenced ∨ c.phase = .completed := by
    simpa [or_iff_not_imp_left] using phase
  simp only [List.mem_singleton] at allowed
  simp only [not_not] at fine
  subst allowed fine
  exact .completed ledger phase accepts selected capable sound

theorem repair_leaves (left : Leaves (repairTargetPointer key locks) h d) : Effect h d := by
  simp only [repairTargetPointer,leaves_bind,leaves_transaction,yields_transaction,leaves_failWhen,yields_failWhen,
    leaves_unchanged,yields_unchanged,leaves_validated,yields_validated,leaves_barrier,yields_barrier,
    false_or] at left
  obtain ⟨c,_,⟨ledger,_,rfl⟩,_,_,⟨bound,rfl⟩,_,_,⟨_,rfl⟩,_,_,⟨_,rfl⟩,_,_,⟨_,_,rfl⟩,_,_,⟨_,rfl⟩,p,_,
    ⟨selected,allowed,rfl⟩,written⟩ := left
  simp only [not_or,not_not] at bound
  split at written
  next =>
    simp only [leaves_bind,leaves_writeSelection,leaves_pure,and_false,exists_false,or_false] at written
    obtain ⟨sound,rfl⟩ := written
    exact .repaired ledger bound.1 bound.2 selected (by simpa using allowed) (sound _ rfl)
  next => exact absurd written (leaves_pure _ _ _)

theorem startHandoff_leaves {prior : Option Control} {target : UpdateRuntimeSelection}
    {given : Option UpdateRuntimeSelection} (ledger : h.ledger = .ok prior)
    (left : Leaves (startHandoff prior key target given locks) h d) : Effect h d := by
  simp only [startHandoff,leaves_bind,leaves_readControl,yields_readControl,leaves_failWhen,
    yields_failWhen,leaves_readSelection,yields_readSelection,leaves_previousOf,yields_previousOf,leaves_admitTarget,
    yields_admitTarget,leaves_barrier,yields_barrier,leaves_unchanged,yields_unchanged,leaves_fence,yields_fence,
    leaves_writeControl,yields_writeControl,leaves_writeSelection,leaves_pure,false_or,quiet_iff,and_false,
    exists_false,or_false] at left
  obtain ⟨_,_,⟨quiet,rfl⟩,baseline,_,⟨selected,rfl⟩,previous,_,⟨_,rfl,rfl⟩,_,_,⟨admitted,rfl⟩,_,_,⟨_,rfl⟩,_,_,
    ⟨_,rfl⟩,_,_,⟨_,rfl⟩,_,_,⟨_,_,rfl⟩,_,_,⟨_,rfl⟩,_,_,⟨_,rfl⟩,_,_,⟨_,rfl⟩,_,_,⟨_,_,rfl⟩,written⟩ := left
  rcases written with ⟨sound,rfl⟩ | ⟨_,_,⟨sound,rfl⟩,_,rfl⟩
  · exact .handed ledger quiet selected admitted sound (.inl rfl)
  · exact .handed ledger quiet selected admitted sound (.inr rfl)

theorem resumeHandoff_leaves {prior : Control} {target : UpdateRuntimeSelection}
    {given : Option UpdateRuntimeSelection} (left : Leaves (resumeHandoff prior target given locks) h d) :
    Effect h d := by
  simp only [resumeHandoff,leaves_bind,leaves_failWhen,yields_failWhen,leaves_previousOf,yields_previousOf,
    leaves_pure,and_false,exists_false,or_false,false_or] at left
  obtain ⟨_,_,⟨_,rfl⟩,_,_,⟨_,_,rfl⟩,_,_,⟨_,rfl⟩,written⟩ := left
  exact repair_leaves written

theorem handoff_leaves {next : UpdateRuntimeSelection} {given : Option UpdateRuntimeSelection}
    (left : Leaves (handoffTarget key next given locks) h d) : Effect h d := by
  simp only [handoffTarget,leaves_bind,leaves_failWhen,yields_failWhen,leaves_lift,yields_lift,
    decodeUpdateRuntimeSelection_ok,leaves_readControl,yields_readControl,false_or] at left
  obtain ⟨_,_,⟨_,rfl⟩,_,_,⟨⟨_,rfl⟩,rfl⟩,prior,_,⟨ledger,rfl⟩,written⟩ := left
  split at written
  next => exact resumeHandoff_leaves written
  next => exact startHandoff_leaves ledger written

theorem replacement_yields {previous target : UpdateRuntimeSelection} {floor : Option Floor}
    (done : Yields (replacementSelection previous floor) h target h') :
    older target.version previous.version = .ok false ∧ accepts floor target.admission = .ok true ∧
      validateGeneration h'.disk target true = .ok () ∧
        ∃ bootstrap, h' = {h with disk := copyGeneration h.disk target.version bootstrap} := by
  simp only [replacementSelection,yields_bind,yields_read,yields_failWhen,yields_lift,decodeUpdateRuntimeSelection_ok,
    yields_write,yields_validated,yields_pure] at done
  obtain ⟨bootstrap,_,⟨_,rfl⟩,_,_,⟨_,rfl⟩,_,_,⟨⟨_,rfl⟩,rfl⟩,below,_,⟨upgrade,rfl⟩,accepted,_,⟨accepts,rfl⟩,_,_,
    ⟨fine,rfl⟩,_,_,⟨_,rfl⟩,_,_,rfl,_,_,⟨capable,rfl⟩,_,_,⟨_,rfl⟩,_,_,⟨_,rfl⟩,rfl,rfl⟩ := done
  simp only [not_or,Bool.not_eq_true,Bool.not_eq_false] at fine
  obtain ⟨rfl,rfl⟩ := fine
  exact ⟨upgrade,accepts,capable,bootstrap,rfl⟩

theorem replacement_leaves {previous : UpdateRuntimeSelection} {floor : Option Floor}
    (left : Leaves (replacementSelection previous floor) h d) :
    ∃ version bootstrap, d = {h with disk := copyGeneration h.disk version bootstrap} := by
  simp only [replacementSelection,leaves_bind,leaves_read,yields_read,leaves_failWhen,yields_failWhen,leaves_lift,
    yields_lift,leaves_write,yields_write,leaves_validated,leaves_pure,false_or,and_false,exists_false,
    or_false] at left
  obtain ⟨bootstrap,_,⟨_,rfl⟩,_,_,⟨_,rfl⟩,target,_,⟨_,rfl⟩,_,_,⟨_,rfl⟩,_,_,⟨_,rfl⟩,_,_,⟨_,rfl⟩,_,_,⟨_,rfl⟩,
    rfl⟩ := left
  exact ⟨_,_,rfl⟩

theorem bind_leaves {recovering : Bool} (left : Leaves (bindReplacement key locks recovering) h d) : Effect h d := by
  simp only [bindReplacement,leaves_bind,leaves_readControl,yields_readControl,leaves_failWhen,
    yields_failWhen,leaves_readSelection,yields_readSelection,false_or,quiet_iff] at left
  obtain ⟨prior,_,⟨ledger,rfl⟩,_,_,⟨quiet,rfl⟩,selection,_,⟨selected,rfl⟩,left⟩ := left
  cases selection with
  | none => exact absurd left (leaves_fail _ _ _)
  | some previous =>
    simp only [leaves_bind,leaves_barrier,yields_barrier,leaves_readControl,yields_readControl,leaves_failWhen,
      yields_failWhen,leaves_unchanged,yields_unchanged,leaves_fence,yields_fence,leaves_writeControl,
      yields_writeControl,leaves_writeSelection,yields_writeSelection,leaves_pure,false_or,and_false,exists_false,
      or_false] at left
    rcases left with copied | ⟨target,h₁,replaced,_,_,⟨_,rfl⟩,_,_,⟨_,rfl⟩,_,_,⟨_,rfl⟩,_,_,⟨_,_,rfl⟩,_,_,⟨_,rfl⟩,written⟩
    · obtain ⟨version,bootstrap,rfl⟩ := replacement_leaves copied
      exact .copied version bootstrap
    · obtain ⟨upgrade,accepted,capable,bootstrap,rfl⟩ := replacement_yields replaced
      rcases written with ⟨sound,rfl⟩ | ⟨_,_,⟨sound,rfl⟩,written⟩
      · exact .rebound ledger quiet selected rfl upgrade accepted capable .fenced (.inl rfl) sound (.inl ⟨rfl,rfl⟩)
      · rcases written with ⟨_,rfl⟩ | ⟨_,_,⟨_,rfl⟩,_,_,⟨_,_,rfl⟩,last,rfl⟩
        · exact .rebound ledger quiet selected rfl upgrade accepted capable .fenced (.inl rfl) sound (.inr rfl)
        · refine .rebound ledger quiet selected rfl upgrade accepted capable _ ?_ last (.inr rfl)
          cases recovering
          · exact .inr (.inr rfl)
          · exact .inr (.inl rfl)

theorem recover_cut {c : Control} (ledger : h.ledger = .ok (some c)) (pending : c.phase.settled = false)
    (left : Leaves (recoverSelection key locks) h d) :
    (∃ p, h.selection = .ok p ∧ (p = c.baseline ∨ p = some c.target ∨ p = c.previous)) ∧ Restorable c h.disk ∧
      (∀ s, c.restored = some s → s.Sound) ∧ Restored h {c with phase := .recovering} c.restored d := by
  have filtered : (some c).filter (fun control => !control.phase.settled) = some c := by
    simp [pending]
  simp only [recoverSelection,leaves_bind,leaves_readControl,yields_readControl,false_or] at left
  obtain ⟨found,_,⟨read,rfl⟩,left⟩ := left
  rw [ledger] at read
  cases read
  rw [filtered] at left
  simp only [leaves_bind,leaves_unchanged,yields_unchanged,leaves_failWhen,yields_failWhen,false_or] at left
  obtain ⟨p,_,⟨selected,allowed,rfl⟩,_,home,⟨chosen,rfl⟩,left⟩ := left
  have allowed : p = c.baseline ∨ p = some c.target ∨ p = c.previous := by
    simpa using allowed
  have finish : Leaves (writeSelection c.restored >>= fun _ =>
      writeControl {c with phase := .recovering} >>= fun _ => (pure c.restore : Job _)) home d →
        (∀ s, c.restored = some s → s.Sound) ∧ Restored home {c with phase := .recovering} c.restored d := by
    intro written
    simp only [leaves_bind,leaves_writeSelection,yields_writeSelection,leaves_writeControl,leaves_pure,and_false,
      exists_false,or_false] at written
    rcases written with ⟨given,rfl⟩ | ⟨_,_,⟨given,rfl⟩,_,rfl⟩
    · exact ⟨given,.inl rfl⟩
    · exact ⟨given,.inr rfl⟩
  cases restore : c.restore with
  | none =>
    simp only [restore,leaves_bind,leaves_failWhen,yields_failWhen,false_or] at left finish
    obtain ⟨_,_,⟨_,rfl⟩,written⟩ := left
    exact ⟨⟨p,selected,allowed⟩,⟨chosen,by simp [restore]⟩,finish written⟩
  | some r =>
    simp only [restore,leaves_bind,leaves_lift,yields_lift,leaves_failWhen,yields_failWhen,leaves_validated,
      yields_validated,not_not,false_or] at left finish
    obtain ⟨accepted,_,⟨accepts,rfl⟩,_,_,⟨rfl,rfl⟩,_,_,⟨intact,rfl⟩,written⟩ := left
    refine ⟨⟨p,selected,allowed⟩,⟨chosen,?_⟩,finish written⟩
    intro r' same
    rw [restore] at same
    cases same
    exact ⟨accepts,intact⟩

theorem recover_leaves (left : Leaves (recoverSelection key locks) h d) : Effect h d := by
  have parts := left
  simp only [recoverSelection,leaves_bind,leaves_readControl,yields_readControl,false_or] at parts
  obtain ⟨found,home,⟨ledger,same⟩,parts⟩ := parts
  subst same
  split at parts
  next =>
    simp only [leaves_bind,leaves_readSelection,yields_readSelection,false_or] at parts
    obtain ⟨selection,_,⟨selected,rfl⟩,parts⟩ := parts
    cases selection with
    | none => exact absurd parts (leaves_pure _ _ _)
    | some s =>
      simp only [leaves_bind,leaves_read,yields_read,false_or] at parts
      obtain ⟨changed,_,⟨_,rfl⟩,parts⟩ := parts
      split at parts
      next =>
        simp only [leaves_bind,leaves_pure,and_false,exists_false,or_false] at parts
        exact bind_leaves parts
      next => exact absurd parts (leaves_pure _ _ _)
  next c filtered =>
    rw [Option.filter_eq_some_iff] at filtered
    obtain ⟨rfl,pending⟩ := filtered
    have pending : c.phase.settled = false := by simpa using pending
    obtain ⟨⟨p,selected,allowed⟩,restorable,given,written⟩ := recover_cut ledger pending left
    exact .restored ledger pending selected allowed restorable given written

theorem completeRecovery_leaves (left : Leaves completeRecovery h d) : Effect h d := by
  simp only [completeRecovery,leaves_bind,leaves_readControl,yields_readControl,false_or] at left
  obtain ⟨found,_,⟨ledger,rfl⟩,left⟩ := left
  split at left
  next => exact absurd left (leaves_pure _ _ _)
  next c filtered =>
    rw [Option.filter_eq_some_iff] at filtered
    obtain ⟨rfl,_⟩ := filtered
    simp only [leaves_bind,leaves_unchanged,yields_unchanged,leaves_failWhen,yields_failWhen,false_or,
      List.mem_singleton] at left
    obtain ⟨_,_,⟨phase,rfl⟩,p,_,⟨selected,rfl,rfl⟩,_,_,⟨chosen,rfl⟩,left⟩ := left
    have phase : c.phase = .recovering := by simpa using phase
    cases restore : c.restore with
    | none =>
      simp only [restore,leaves_writeControl] at left
      obtain ⟨sound,rfl⟩ := left
      exact .recovered ledger phase selected ⟨chosen,by simp [restore]⟩ sound
    | some r =>
      simp only [restore,leaves_bind,leaves_lift,yields_lift,leaves_failWhen,yields_failWhen,leaves_validated,
        yields_validated,leaves_writeControl,not_not,false_or] at left
      obtain ⟨accepted,_,⟨accepts,rfl⟩,_,_,⟨rfl,rfl⟩,_,_,⟨intact,rfl⟩,sound,rfl⟩ := left
      refine .recovered ledger phase selected ⟨chosen,?_⟩ sound
      intro r' same
      rw [restore] at same
      cases same
      exact ⟨accepts,intact⟩

end ATape.Update
