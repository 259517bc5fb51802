import ATape.Update.Floor

/-! What a run of update control promises of the floor. -/
namespace ATape.Update
open Foundation Node Work

inductive Call
  | prepare (key : String) (next : UpdateRuntimeSelection) (given : Option UpdateRuntimeSelection)
  | begin_ (key : String)
  | fence (key : String) (locks : Locks)
  | complete (key : String)
  | handoffTarget (key : String) (next : UpdateRuntimeSelection) (given : Option UpdateRuntimeSelection) (locks : Locks)
  | repairTargetPointer (key : String) (locks : Locks)
  | rebindBootstrap (key : String) (locks : Locks)
  | recoverSelection (key : String) (locks : Locks)
  | completeRecovery

/-- The homes after the writes of a call. -/
def Call.Leaves (h : Home) (call : Call) (d : Home) : Prop :=
  match call with
  | .prepare key next given => Work.Leaves (Update.prepare key next given) h d
  | .begin_ key => Work.Leaves (Update.begin_ key) h d
  | .fence key locks => Work.Leaves (Update.fence key locks) h d
  | .complete key => Work.Leaves (Update.complete key) h d
  | .handoffTarget key next given locks => Work.Leaves (Update.handoffTarget key next given locks) h d
  | .repairTargetPointer key locks => Work.Leaves (Update.repairTargetPointer key locks) h d
  | .rebindBootstrap key locks => Work.Leaves (Update.rebindBootstrap key locks) h d
  | .recoverSelection key locks => Work.Leaves (Update.recoverSelection key locks) h d
  | .completeRecovery => Work.Leaves Update.completeRecovery h d

theorem Call.effect {h d : Home} {call : Call} (left : call.Leaves h d) : Effect h d := by
  cases call with
  | prepare key next given => exact prepare_leaves left
  | begin_ key => exact begin_leaves left
  | fence key locks => exact fence_leaves left
  | complete key => exact complete_leaves left
  | handoffTarget key next given locks => exact handoff_leaves left
  | repairTargetPointer key locks => exact repair_leaves left
  | rebindBootstrap key locks => exact bind_leaves left
  | recoverSelection key locks => exact recover_leaves left
  | completeRecovery => exact completeRecovery_leaves left

inductive Label
  | call (call : Call)
  | change (disk : Disk)

/-- One owner calls, and each call ends or is cut off after one of its writes; between
the calls the releases and the npm packages may change. -/
def Moves (h : Home) (label : Label) (d : Home) : Prop :=
  match label with
  | .call call => call.Leaves h d
  | .change disk => d = {h with disk}

theorem moves_advance {h d : Home} {label : Label} (agrees : h.Agrees) (move : Moves h label d) : Advance h d := by
  cases label with
  | call call => exact advance_of_effect agrees (Call.effect move)
  | change disk =>
    subst move
    exact ⟨agrees,fun n bounded => bounded,fun moved => absurd rfl moved⟩

variable {h h' d : Home} {key : String} {locks : Locks}

/-- Whether the floor of a home accepts a runtime. -/
def Home.Accepts (home : Home) (runtime : UpdateRuntimeAdmission) : Prop :=
  ∀ c, home.Holds c → accepts c.floor runtime = .ok true

/-- A hand-off that was cut off between its writes: the ledger is that of the target and
the pointer is still the one before. -/
def Home.Interrupted (home : Home) (r : UpdateRuntimeSelection) : Prop :=
  ∃ c, home.Holds c ∧ c.phase = .completed ∧ c.forwardOnly = true ∧ c.baseline = some r ∧ c.target ≠ r ∧
    home.Points (some r)

theorem admission_yields {runtime : UpdateRuntimeAdmission} (agrees : h.Agrees)
    (done : Yields (assertRuntimeAdmission runtime) h () h') : h.Accepts runtime := by
  simp only [assertRuntimeAdmission,yields_bind,yields_lift,yields_failWhen,yields_readControl] at done
  obtain ⟨_,_,⟨_,rfl⟩,_,_,⟨_,rfl⟩,found,_,⟨ledger,rfl⟩,done⟩ := done
  intro c holds
  rw [holds.read ledger] at done
  simp only [yields_bind,yields_lift,yields_failWhen] at done
  obtain ⟨accepted,_,⟨ok,rfl⟩,_,_,⟨fine,rfl⟩,_⟩ := done
  rw [ok,not_not.mp fine]

theorem bind_yields {recovering : Bool} {target : UpdateRuntimeSelection}
    (done : Yields (bindReplacement key locks recovering) h target h') : h'.Accepts target.admission := by
  simp only [bindReplacement,yields_bind,yields_readControl,yields_failWhen,yields_readSelection] at done
  obtain ⟨prior,_,⟨_,rfl⟩,_,_,⟨_,rfl⟩,selection,_,⟨_,rfl⟩,done⟩ := done
  cases selection with
  | none => exact absurd done (yields_fail _ _ _ _)
  | some previous =>
    simp only [yields_bind,yields_barrier,yields_readControl,yields_failWhen,yields_unchanged,yields_fence,
      yields_writeControl,yields_writeSelection,yields_pure] at done
    obtain ⟨target,h₁,_,_,_,⟨_,rfl⟩,_,_,⟨_,rfl⟩,_,_,⟨_,rfl⟩,_,_,⟨_,_,rfl⟩,_,_,⟨_,rfl⟩,_,_,⟨sound,rfl⟩,_,_,⟨_,rfl⟩,_,_,
      ⟨_,_,rfl⟩,_,_,⟨last,rfl⟩,rfl,rfl⟩ := done
    intro c holds
    rw [holds.same (Home.holds_withControl last)]
    obtain ⟨v,versioned⟩ := sound.facts.target.versioned
    exact accepts_floor versioned

theorem repair_yields {target : UpdateRuntimeSelection} (agrees : h.Agrees)
    (done : Yields (repairTargetPointer key locks) h target h') : h'.Accepts target.admission := by
  simp only [repairTargetPointer,yields_bind,yields_transaction,yields_failWhen,yields_unchanged,yields_validated,
    yields_barrier] at done
  obtain ⟨c,_,⟨ledger,_,rfl⟩,_,_,⟨bound,rfl⟩,_,_,⟨_,rfl⟩,_,_,⟨_,rfl⟩,_,_,⟨_,_,rfl⟩,_,_,⟨_,rfl⟩,_,home,⟨_,_,rfl⟩,done⟩ :=
    done
  simp only [not_or,not_not] at bound
  obtain ⟨holds,kept,_⟩ := agrees.owner ledger
  have files : h'.control = home.control ∧ target = c.target := by
    split at done
    next =>
      simp only [yields_bind,yields_writeSelection,yields_pure] at done
      obtain ⟨_,_,⟨_,rfl⟩,rfl,rfl⟩ := done
      exact ⟨rfl,rfl⟩
    next =>
      rw [yields_pure] at done
      exact ⟨by rw [done.2],done.1.symm⟩
  intro c' other
  have same : c' = c := (show home.Holds c' from ⟨files.1 ▸ other.1,other.2⟩).same holds
  rw [same,files.2]
  exact kept.reached bound.1

theorem handoffRuntime_yields {r : UpdateRuntimeSelection} (done : Yields handoffRuntime h (some r) h') :
    h'.Accepts r.admission := by
  simp only [handoffRuntime,yields_bind,yields_readControl] at done
  obtain ⟨found,_,⟨ledger,rfl⟩,done⟩ := done
  cases found with
  | none => simp at done
  | some c =>
    simp only at done
    split at done
    next => simp at done
    next =>
      simp only [yields_bind,yields_unchanged] at done
      obtain ⟨_,home,⟨_,_,rfl⟩,done⟩ := done
      generalize (if c.phase = .prepared ∨ c.phase = .recovering ∧ ¬c.forwardOnly then c.previous else some c.target) =
        chosen at done
      cases chosen with
      | none => simp at done
      | some selection =>
        simp only [yields_bind,yields_lift,yields_failWhen,yields_validated,yields_pure,Option.some.injEq] at done
        obtain ⟨accepted,_,⟨ok,rfl⟩,_,_,⟨fine,rfl⟩,_,_,⟨_,rfl⟩,rfl,rfl⟩ := done
        intro c' holds
        have same := holds.read ledger
        cases same
        rw [ok,not_not.mp fine]

theorem Home.Agrees.selected {r : UpdateRuntimeSelection} (agrees : h.Agrees) (quiet : ∀ c, h.Holds c → c.phase.settled)
    (points : h.Points (some r)) : h.Accepts r.admission ∨ h.Interrupted r := by
  rcases agrees with absent | ⟨c,holds,kept,placed⟩
  · left
    intro c holds
    rw [holds.1] at absent
    cases absent
  · have only : accepts c.floor r.admission = .ok true → h.Accepts r.admission := by
      intro accepted c' other
      rw [other.same holds]
      exact accepted
    have facts := holds.2.facts
    have settled := quiet c holds
    unfold Home.Placed at placed
    split at placed
    next =>
      left
      apply only
      have same := placed.same points
      unfold Control.restored at same
      split at same
      next forward =>
        cases same
        obtain ⟨v,versioned⟩ := facts.target.versioned
        rw [(facts.boundary forward).1]
        exact accepts_floor versioned
      next backward =>
        apply kept.fallback (by simpa using backward)
        rw [← facts.fallback (by simp [same])]
        exact same
    next completed =>
      rcases placed with there | ⟨forward,before⟩
      · left
        cases there.same points
        exact only (kept.reached completed)
      · by_cases same : c.target = r
        · left
          subst same
          exact only (kept.reached completed)
        · exact .inr ⟨c,holds,completed,forward,before.same points,same,points⟩
    next unsettled =>
      cases phase : c.phase <;> simp_all [Phase.settled]

theorem recover_yields {r : UpdateRuntimeSelection} (agrees : h.Agrees)
    (done : Yields (recoverSelection key locks) h (some r) h') : h'.Accepts r.admission ∨ h' = h ∧ h.Interrupted r := by
  simp only [recoverSelection,yields_bind,yields_readControl] at done
  obtain ⟨found,home,⟨ledger,same⟩,done⟩ := done
  subst same
  split at done
  next settled =>
    simp only [yields_bind,yields_readSelection] at done
    obtain ⟨selection,_,⟨selected,rfl⟩,done⟩ := done
    cases selection with
    | none => simp at done
    | some s =>
      simp only [yields_bind,yields_read] at done
      obtain ⟨changed,_,⟨_,rfl⟩,done⟩ := done
      split at done
      next =>
        simp only [yields_bind,yields_pure] at done
        obtain ⟨target,_,bound,same,rfl⟩ := done
        cases same
        exact .inl (bind_yields bound)
      next =>
        simp only [yields_pure,Option.some.injEq] at done
        obtain ⟨rfl,rfl⟩ := done
        have quiet : ∀ c, h'.Holds c → c.phase.settled = true := by
          intro c holds
          rw [holds.read ledger] at settled
          simpa using settled
        rcases agrees.selected quiet (Home.points_of_selection selected) with accepted | interrupted
        · exact .inl accepted
        · exact .inr ⟨rfl,interrupted⟩
  next c filtered =>
    rw [Option.filter_eq_some_iff] at filtered
    obtain ⟨rfl,pending⟩ := filtered
    obtain ⟨holds,_,_⟩ := agrees.owner ledger
    simp only [yields_bind,yields_unchanged,yields_failWhen] at done
    obtain ⟨_,_,⟨_,_,rfl⟩,_,_,⟨_,rfl⟩,done⟩ := done
    cases restore : c.restore with
    | none =>
      simp only [restore,yields_bind,yields_failWhen,yields_writeSelection,yields_writeControl,yields_pure] at done
      obtain ⟨_,_,_,_,_,_,_,_,_,same,_⟩ := done
      cases same
    | some s =>
      simp only [restore,yields_bind,yields_lift,yields_failWhen,yields_validated,yields_writeSelection,
        yields_writeControl,yields_pure,Option.some.injEq] at done
      obtain ⟨accepted,_,⟨ok,rfl⟩,_,_,⟨fine,rfl⟩,_,_,⟨_,rfl⟩,_,_,⟨_,rfl⟩,_,_,⟨sound,rfl⟩,rfl,rfl⟩ := done
      left
      intro c' other
      rw [other.same (Home.holds_withControl sound)]
      rw [ok,not_not.mp fine]

/-- What a home promises of its floor, and what every home does that is reached from it. -/
structure FloorKept (h : Home) : Prop where
  decodes : h.control = none ∨ ∃ c, h.control = some (fileText c.json) ∧
    Json.parse (fileText c.json) = some c.json ∧ controlOf c.json = .ok c ∧
      (Go.len (fileText c.json) ≤ readLimit → h.ledger = .ok (some c))
  rises : ∀ labels h', Run Moves h labels h' → ∀ n, h.Bounded n → h'.Bounded n
  admits : ∀ runtime h', Yields (assertRuntimeAdmission runtime) h () h' → ∀ n, h.Bounded n →
    ∃ v, version runtime.version = .ok v ∧ ¬before v n
  recovers : ∀ key locks r h', Yields (recoverSelection key locks) h (some r) h' →
    h'.Accepts r.admission ∨ h' = h ∧ h.Interrupted r
  rebinds : ∀ key locks r h', Yields (rebindBootstrap key locks) h r h' → h'.Accepts r.admission
  repairs : ∀ key locks r h', Yields (repairTargetPointer key locks) h r h' → h'.Accepts r.admission
  hands : ∀ r h', Yields handoffRuntime h (some r) h' → h'.Accepts r.admission
  owns : ∀ call d, Call.Leaves h call d → d.pointer ≠ h.pointer →
    ∃ c p, d.Holds c ∧ h.Points p ∧ (p = c.baseline ∨ p = c.previous ∨ p = some c.target)

theorem run_agrees {labels : List Label} (agrees : h.Agrees) (run : Run Moves h labels h') : h'.Agrees := by
  refine run.invariant ?_ agrees
  intro s label s' agrees move
  exact (moves_advance agrees move).agrees

theorem run_rises {labels : List Label} (agrees : h.Agrees) (run : Run Moves h labels h') (n : Nat × Nat × Nat)
    (bounded : h.Bounded n) : h'.Bounded n := by
  induction run with
  | nil => exact bounded
  | cons s label middle labels final head _ ih =>
    have advance := moves_advance agrees head
    exact ih advance.agrees (advance.rises n bounded)

/-- The floor of an update is never loosened. -/
theorem floor_kept {start : Home} {labels : List Label} (fresh : start.control = none)
    (run : Run Moves start labels h) : FloorKept h := by
  have agrees := run_agrees (.inl fresh) run
  refine ⟨?_,fun labels h' later n bounded => run_rises agrees later n bounded,?_,?_,?_,?_,?_,?_⟩
  · rcases agrees with absent | ⟨c,holds,_,_⟩
    · exact .inl absent
    · exact .inr ⟨c,holds.1,holds.parsed.2.1,holds.parsed.2.2,holds.ledger⟩
  · intro runtime h' done n ⟨c,f,v,holds,floored,versioned,above⟩
    have accepted := admission_yields agrees done c holds
    rw [floored] at accepted
    obtain ⟨w,v',runs,same,below⟩ := older_ok (accepts_ok accepted).1
    rw [versioned] at same
    cases same
    exact ⟨w,runs,before_trans (by simpa using below.symm) above⟩
  · intro key locks r h' done
    exact recover_yields agrees done
  · intro key locks r h' done
    exact bind_yields done
  · intro key locks r h' done
    exact repair_yields agrees done
  · intro r h' done
    exact handoffRuntime_yields done
  · intro call d left
    exact (advance_of_effect agrees (Call.effect left)).own

/-! A hand-off that is cut off between its writes. -/

theorem startHandoff_cut {prior : Option Control} {target : UpdateRuntimeSelection}
    {baseline : Option UpdateRuntimeSelection} (ledger : h.ledger = .ok prior) (quiet : Quiet prior)
    (selected : h.selection = .ok baseline) (admitted : Admitted prior target baseline baseline h.disk)
    (advances : ∃ a, advancesFloor (prior.bind (·.floor)) target.admission = .ok a)
    (sound : (forward key .completed baseline baseline target).Sound) :
    Work.Leaves (startHandoff prior key target none ⟨true,true⟩) h
      (h.withControl (forward key .completed baseline baseline target)) := by
  obtain ⟨a,advances⟩ := advances
  have unmoved : ¬ prior ≠ prior := not_not.mpr rfl
  have listed : baseline ∈ [baseline] := List.mem_singleton_self _
  simp only [startHandoff,leaves_bind,yields_readControl,yields_failWhen,yields_readSelection,yields_previousOf,
    yields_admitTarget,yields_barrier,yields_unchanged,yields_fence,leaves_writeControl,quiet_iff]
  exact .inr ⟨(),h,⟨quiet,rfl⟩,.inr ⟨baseline,h,⟨selected,rfl⟩,.inr ⟨baseline,h,⟨none_sound,rfl,rfl⟩,.inr
    ⟨(),h,⟨admitted,rfl⟩,.inr ⟨(),h,⟨trivial,rfl⟩,.inr ⟨prior,h,⟨ledger,rfl⟩,.inr ⟨(),h,⟨unmoved,rfl⟩,.inr
    ⟨baseline,h,⟨selected,listed,rfl⟩,.inr ⟨(),h,⟨⟨a,advances,fun _ => trivial⟩,rfl⟩,.inr ⟨prior,h,⟨ledger,rfl⟩,.inr
    ⟨(),h,⟨unmoved,rfl⟩,.inr ⟨baseline,h,⟨selected,listed,rfl⟩,.inl ⟨sound,rfl⟩⟩⟩⟩⟩⟩⟩⟩⟩⟩⟩⟩⟩

theorem recover_selected {c : Control} {r : UpdateRuntimeSelection} (ledger : h.ledger = .ok (some c))
    (settled : c.phase.settled = true) (selected : h.selection = .ok (some r))
    (intact : bootstrapChanged h.disk r = false) : Yields (recoverSelection key locks) h (some r) h := by
  have filtered : (some c).filter (fun control => !control.phase.settled) = none := by
    simp [settled]
  unfold recoverSelection
  rw [yields_bind]
  refine ⟨some c,h,(yields_readControl _).mpr ⟨ledger,rfl⟩,?_⟩
  rw [filtered]
  simp only [yields_bind,yields_readSelection]
  refine ⟨some r,h,⟨selected,rfl⟩,?_⟩
  simp only [yields_bind,yields_read,intact]
  exact ⟨false,h,⟨rfl,rfl⟩,by simp⟩

def zeros : String := "0000000000000000000000000000000000000000000000000000000000000000"

def oldRuntime : UpdateRuntimeSelection := ⟨"0.5.4","capture.v2","/atape.js",zeros,[]⟩

def newRuntime : UpdateRuntimeSelection := ⟨"0.6.0","capture.v3","/atape.js",zeros,[]⟩

def manifestOf (s : UpdateRuntimeSelection) : Manifest :=
  ⟨"@atape/cli",s.version,none,some s.captureStateContract,some updateControlProtocol⟩

def twoReleases : Disk where
  generations := (AList.singleton "0.5.4" ⟨true,manifestOf oldRuntime,zeros⟩).insert "0.6.0"
    ⟨true,manifestOf newRuntime,zeros⟩
  bootstraps := AList.singleton "/atape.js" ⟨zeros,manifestOf oldRuntime,"ATape 0.5.4"⟩

def handoffKey : String := "00000000-0000-0000-0000-000000000000"

/-- The old runtime is selected and no update was made. -/
def installed : Home := ⟨none,some (fileText oldRuntime.json),twoReleases⟩

def handedControl : Control := forward handoffKey .completed (some oldRuntime) (some oldRuntime) newRuntime

theorem sound_of_decoded {s : UpdateRuntimeSelection} (ok : (decodeUpdateRuntimeSelection s).isOk = true) :
    s.Sound :=
  ((decodeUpdateRuntimeSelection_ok _ _).mp (ok_after s _ ok)).1

theorem oldRuntime_sound : oldRuntime.Sound := sound_of_decoded (by decide)

theorem handedControl_sound : handedControl.Sound :=
  ((decodeControl_ok _ _).mp (ok_after handedControl _ (by decide))).1

theorem short_text {j : Json} (few : 4*(Json.write escaping j++['\n']).length ≤ readLimit) :
    Go.len (fileText j) ≤ readLimit := (Go.len_le _).trans few

theorem selection_of_pointer {s : UpdateRuntimeSelection} (file : h.pointer = some (fileText s.json)) (sound : s.Sound)
    (short : Go.len (fileText s.json) ≤ readLimit) : h.selection = .ok (some s) :=
  optionalJSON_ok.mpr (.inr ⟨_,_,s,file,short,parse_fileText (integral_selection s),selectionOf_json sound,rfl⟩)

theorem installed_selection : installed.selection = .ok (some oldRuntime) :=
  selection_of_pointer rfl oldRuntime_sound (short_text (by decide +kernel))

theorem installed_admits :
    Admitted none newRuntime (some oldRuntime) (some oldRuntime) twoReleases where
  same _ _ := rfl
  upgrade p same := Option.some.inj same ▸ by decide
  above f floored := nomatch floored
  accepted p same := Option.some.inj same ▸ rfl
  capable := by decide
  intact p same := Option.some.inj same ▸ by decide

theorem handoff_moves {target : UpdateRuntimeSelection} {baseline : Option UpdateRuntimeSelection}
    (keyed : isUUID key = true) (absent : h.control = none) (selected : h.selection = .ok baseline)
    (admitted : Admitted none target baseline baseline h.disk) (advances : ∃ a, advancesFloor none target.admission = .ok a)
    (sound : (forward key .completed baseline baseline target).Sound) :
    Moves h (.call (.handoffTarget key target none ⟨true,true⟩))
      (h.withControl (forward key .completed baseline baseline target)) := by
  have ledger : h.ledger = .ok none := optionalJSON_ok.mpr (.inl ⟨absent,rfl⟩)
  have left := startHandoff_cut ledger nofun selected admitted advances sound
  have known : ¬ ¬ isUUID key = true := not_not.mpr keyed
  simp only [Moves,Call.Leaves,handoffTarget,leaves_bind]
  exact .inr ⟨(),h,(yields_failWhen _ _ _ _ _).mpr ⟨known,rfl⟩,.inr ⟨target,h,
    (yields_lift _ _ _ _).mpr ⟨(decodeUpdateRuntimeSelection_ok _ _).mpr ⟨sound.facts.target,rfl⟩,rfl⟩,
    .inr ⟨none,h,(yields_readControl _).mpr ⟨ledger,rfl⟩,left⟩⟩⟩

theorem handoff_cut : Run Moves installed
    [.call (.handoffTarget handoffKey newRuntime none ⟨true,true⟩)] (installed.withControl handedControl) :=
  Run.one (handoff_moves (by decide) rfl installed_selection installed_admits ⟨true,rfl⟩ handedControl_sound)

theorem floor_kept_handoff : ∃ labels h, Run Moves installed labels h ∧ h.Holds handedControl ∧ FloorKept h :=
  ⟨_,_,handoff_cut,Home.holds_withControl handedControl_sound,floor_kept rfl handoff_cut⟩

/-- Recovery after the first write of a hand-off returns the runtime before it, which the
floor rejects. -/
theorem recovery_below_floor : ∃ labels h c key locks r, Run Moves installed labels h ∧ h.Holds c ∧
    c.forwardOnly = true ∧ Yields (recoverSelection key locks) h (some r) h ∧ ¬ h.Accepts r.admission := by
  have holds : (installed.withControl handedControl).Holds handedControl := Home.holds_withControl handedControl_sound
  have ledger := holds.ledger (short_text (by decide +kernel))
  refine ⟨_,_,handedControl,handoffKey,⟨true,true⟩,oldRuntime,handoff_cut,holds,rfl,?_,?_⟩
  · exact recover_selected ledger rfl installed_selection (by decide)
  · intro accepted
    have refused : accepts handedControl.floor oldRuntime.admission = .ok false := by decide
    have allowed := accepted handedControl holds
    rw [refused] at allowed
    cases allowed

end ATape.Update
