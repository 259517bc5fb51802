import ATape.Update.Boundary

/-! Recovery while the releases stay. Every pending update that has a selection to go back
to recovers, and every settled one can be followed by another. -/
namespace ATape.Update
open Foundation Node Work

/-- What was checked of the runtimes of a ledger, which holds while the releases stay. -/
structure Control.Ready (c : Control) (disk : Disk) : Prop where
  capable : validateGeneration disk c.target true = .ok ()
  upgrade : ∀ p, c.previous = some p → older c.target.version p.version = .ok false
  intact : c.forwardOnly = false → ∀ p, c.previous = some p → validateGeneration disk p false = .ok ()

def Home.Pointed (home : Home) : Prop :=
  (∃ p, home.selection = .ok p) ∨ ∃ s : UpdateRuntimeSelection, s.Sound ∧ home.pointer = some (fileText s.json)

structure Home.Stands (home : Home) : Prop where
  agrees : home.Agrees
  ready : ∀ c, home.Holds c → c.Ready home.disk
  pointed : home.Pointed

/-- The releases and packages of the runtimes of the ledger stay as they are. -/
def Preserves (h : Home) (disk : Disk) : Prop :=
  ∀ c, h.Holds c → ∀ s, (s = c.target ∨ c.previous = some s) → ∀ capable,
    validateGeneration h.disk s capable = .ok () → validateGeneration disk s capable = .ok ()

def IntactMoves (h : Home) (label : Label) (d : Home) : Prop :=
  Moves h label d ∧ ∀ disk, label = .change disk → Preserves h disk

variable {h h' d : Home} {key : String} {locks : Locks}

theorem valid_weaken {disk : Disk} {s : UpdateRuntimeSelection} (valid : validateGeneration disk s true = .ok ()) :
    validateGeneration disk s false = .ok () := by
  simp only [validateGeneration,bind_ok,failWhen_ok,present_ok] at valid ⊢
  obtain ⟨release,found,_,contained,_,declared,_,_,rest⟩ := valid
  exact ⟨release,found,(),contained,(),declared,(),by simp,rest⟩

theorem valid_copy {disk : Disk} {s : UpdateRuntimeSelection} {capable : Bool}
    (valid : validateGeneration disk s capable = .ok ()) (version : String) (bootstrap : Bootstrap) :
    validateGeneration (copyGeneration disk version bootstrap) s capable = .ok () := by
  unfold copyGeneration
  split
  next => exact valid
  next absent =>
    simp only [validateGeneration,bind_ok,failWhen_ok,present_ok] at valid ⊢
    obtain ⟨release,found,rest⟩ := valid
    refine ⟨release,?_,rest⟩
    rw [Table.lookup_insert]
    split
    next same =>
      rw [same] at found
      simp [found] at absent
    next => exact found

theorem Control.Ready.copy {c : Control} {disk : Disk} (ready : c.Ready disk) (version : String)
    (bootstrap : Bootstrap) : c.Ready (copyGeneration disk version bootstrap) where
  capable := valid_copy ready.capable version bootstrap
  upgrade := ready.upgrade
  intact backward p same := valid_copy (ready.intact backward p same) version bootstrap

theorem pointed_withPointer {p : Option UpdateRuntimeSelection} (sound : ∀ s, p = some s → s.Sound) :
    (h.withPointer p).Pointed := by
  cases p with
  | none => exact .inl ⟨none,rfl⟩
  | some s => exact .inr ⟨s,sound s rfl,rfl⟩

theorem Stands.written {c : Control} {p : Option UpdateRuntimeSelection} (stands : h.Stands)
    (sound : c.Sound) (ready : c.Ready h.disk) (given : ∀ s, p = some s → s.Sound)
    (agrees : d.Agrees) (written : Written h c p d) : d.Stands := by
  rcases written with rfl | rfl
  · refine ⟨agrees,?_,stands.pointed⟩
    intro c' holds
    rw [holds.same (Home.holds_withControl sound)]
    exact ready
  · refine ⟨agrees,?_,pointed_withPointer given⟩
    intro c' holds
    rw [holds.same ((Home.holds_withPointer _ _).mpr (Home.holds_withControl sound))]
    exact ready

theorem target_sound {c : Control} (sound : c.Sound) : ∀ s, some c.target = some s → s.Sound := by
  intro s same
  exact Option.some.inj same ▸ sound.facts.target

theorem stands_of_effect (stands : h.Stands) (effect : Effect h d) : d.Stands := by
  have agrees := (advance_of_effect stands.agrees effect).agrees
  cases effect with
  | copied version bootstrap =>
    exact ⟨agrees,fun c holds => (stands.ready c holds).copy version bootstrap,stands.pointed⟩
  | prepared ledger quiet selected given admitted sound =>
    exact Stands.written (p := none) stands sound ⟨admitted.capable,admitted.upgrade,fun _ => admitted.intact⟩
      nofun agrees (.inl rfl)
  | @begun c p _ ledger phase selected allowed capable sound written =>
    have ready := stands.ready c (stands.agrees.owner ledger).1
    exact Stands.written stands sound ⟨capable,ready.upgrade,ready.intact⟩ (target_sound sound) agrees written
  | @fenced c p _ ledger phase selected allowed capable sound written =>
    have ready := stands.ready c (stands.agrees.owner ledger).1
    exact Stands.written stands sound ⟨capable,ready.upgrade,nofun⟩ (target_sound sound) agrees written
  | @completed c ledger phase accepted selected capable sound =>
    have ready := stands.ready c (stands.agrees.owner ledger).1
    exact Stands.written (p := none) stands sound ⟨capable,ready.upgrade,ready.intact⟩ nofun agrees (.inl rfl)
  | @handed key prior target baseline previous _ ledger quiet selected admitted sound written =>
    exact Stands.written stands sound ⟨admitted.capable,admitted.upgrade,nofun⟩ (target_sound sound) agrees written
  | @repaired c p ledger phase bound selected allowed sound =>
    exact ⟨agrees,fun c holds => stands.ready c holds,pointed_withPointer fun s same => Option.some.inj same ▸ sound⟩
  | @rebound key prior previous target disk bootstrap _ ledger quiet selected copied upgrade accepted capable phase which
      sound written =>
    have ready : (forward key phase (some previous) (some previous) target).Ready disk :=
      ⟨capable,fun p same => Option.some.inj same ▸ upgrade,nofun⟩
    rcases written with ⟨rfl,_⟩ | rfl
    · refine ⟨agrees,?_,stands.pointed⟩
      intro c' holds
      rw [holds.same (Home.holds_withControl sound)]
      exact ready
    · refine ⟨agrees,?_,pointed_withPointer (target_sound sound)⟩
      intro c' holds
      rw [holds.same ((Home.holds_withPointer _ _).mpr (Home.holds_withControl sound))]
      exact ready
  | @restored c p _ ledger pending selected allowed restorable given written =>
    have holds := (stands.agrees.owner ledger).1
    have ready := stands.ready c holds
    have pointed : (h.withPointer c.restored).Pointed := pointed_withPointer given
    rcases written with rfl | rfl
    · exact ⟨agrees,fun c holds => stands.ready c holds,pointed⟩
    · refine ⟨agrees,?_,pointed⟩
      intro c' other
      rw [other.same (Home.holds_withControl (holds.2.recover (.inl rfl)))]
      exact ⟨ready.capable,ready.upgrade,ready.intact⟩
  | @recovered c ledger phase selected restorable sound =>
    have ready := stands.ready c (stands.agrees.owner ledger).1
    exact Stands.written (p := none) stands sound ⟨ready.capable,ready.upgrade,ready.intact⟩ nofun agrees (.inl rfl)

/-! The text of a ledger contains those of its selections. -/

theorem len_infix {run whole : List Char} (inside : run <:+: whole) :
    Go.len (String.ofList run) ≤ Go.len (String.ofList whole) := by
  obtain ⟨first,last,rfl⟩ := inside
  simp only [Go.len,String.ofList_append,String.utf8ByteSize_append]
  omega

theorem infix_members {name : String} {j : Json} {members : List (String × Json)} (member : (name,j) ∈ members) :
    Json.write escaping j <:+: Json.writeMembers escaping members := by
  induction members with
  | nil => cases member
  | cons entry members ih =>
    obtain ⟨other,first⟩ := entry
    rw [Json.writeMembers]
    rcases List.mem_cons.mp member with same | later
    · cases same
      exact ⟨','::Json.quoted escaping name++[':'],Json.writeMembers escaping members,by simp⟩
    · obtain ⟨before,after,whole⟩ := ih later
      exact ⟨','::Json.quoted escaping other++ ':'::Json.write escaping first++before,after,by simp [← whole]⟩

theorem infix_object {name : String} {j : Json} {members : List (String × Json)} (member : (name,j) ∈ members) :
    Json.write escaping j <:+: Json.write escaping (.obj members) := by
  rcases members with _ | ⟨⟨other,first⟩,members⟩
  · cases member
  · rw [Json.write]
    rcases List.mem_cons.mp member with same | later
    · cases same
      exact ⟨'\x7b'::Json.quoted escaping name++[':'],Json.writeMembers escaping members,by simp⟩
    · obtain ⟨before,after,whole⟩ := infix_members later
      exact ⟨'\x7b'::Json.quoted escaping other++ ':'::Json.write escaping first++before,after,by simp [← whole]⟩

theorem len_member {name : String} {j : Json} {members : List (String × Json)} (member : (name,j) ∈ members) :
    Go.len (fileText j) ≤ Go.len (fileText (.obj members)) := by
  have inside := len_infix (infix_object member)
  simp only [fileText,Go.len,String.ofList_append,String.utf8ByteSize_append]
  unfold Go.len at inside
  omega

/-- The ledger is read in each of its phases. -/
def Control.Short (c : Control) : Prop := ∀ phase, Go.len (fileText {c with phase}.json) ≤ readLimit

theorem Control.Short.target {c : Control} (short : c.Short) : Go.len (fileText c.target.json) ≤ readLimit := by
  have member : ("target",c.target.json) ∈ c.members := by
    simp [Control.members]
  exact (len_member member).trans (short c.phase)

theorem Control.Short.baseline {c : Control} (short : c.Short) {s : UpdateRuntimeSelection}
    (based : c.baseline = some s) : Go.len (fileText s.json) ≤ readLimit := by
  have member : ("baseline",s.json) ∈ c.members := by
    simp [Control.members,based,Json.presentMember]
  exact (len_member member).trans (short c.phase)

theorem Stands.reads {c : Control} {p : Option UpdateRuntimeSelection} (stands : h.Stands) (short : c.Short)
    (named : p = c.baseline ∨ p = some c.target) (points : h.Points p) : h.selection = .ok p := by
  rcases stands.pointed with ⟨p',selected⟩ | ⟨s,sound,file⟩
  · rw [selected,(Home.points_of_selection selected).same points]
  · have same : p = some s := points.same ⟨_,_,file,parse_fileText (integral_selection s),selectionOf_json sound⟩
    subst same
    apply selection_of_pointer file sound
    rcases named with based | aimed
    · exact short.baseline based.symm
    · rw [Option.some.inj aimed]
      exact short.target

/-! What goes through. -/

theorem restored_named (c : Control) : c.restored = c.baseline ∨ c.restored = some c.target := by
  unfold Control.restored
  split
  · exact .inr rfl
  · exact .inl rfl

theorem Stands.restorable {c : Control} (stands : h.Stands) (holds : h.Holds c) (chosen : ¬c.unselected) :
    Restorable c h.disk := by
  have ready := stands.ready c holds
  obtain ⟨c',holds',kept,_⟩ : ∃ c', h.Holds c' ∧ c'.Kept ∧ h.Placed c' := by
    rcases stands.agrees with absent | found
    · rw [holds.1] at absent
      cases absent
    · exact found
  have same := holds'.same holds
  subst same
  refine ⟨chosen,?_⟩
  intro r restore
  unfold Control.restore at restore
  split at restore
  next forward =>
    cases restore
    obtain ⟨v,versioned⟩ := holds.2.facts.target.versioned
    rw [(holds.2.facts.boundary forward).1,forward]
    exact ⟨accepts_floor versioned,ready.capable⟩
  next backward =>
    have backward : c'.forwardOnly = false := by simpa using backward
    rw [backward]
    exact ⟨kept.fallback backward r restore,ready.intact backward r restore⟩

theorem Control.restored_sound {c : Control} (sound : c.Sound) : ∀ s, c.restored = some s → s.Sound := by
  intro s same
  unfold Control.restored at same
  split at same
  next => exact target_sound sound s same
  next => exact sound.facts.baseline s same

theorem recover_pending {c : Control} {p : Option UpdateRuntimeSelection} (ledger : h.ledger = .ok (some c))
    (sound : c.Sound) (pending : c.phase.settled = false) (selected : h.selection = .ok p)
    (allowed : p = c.baseline ∨ p = some c.target) (restorable : Restorable c h.disk) :
    Yields (recoverSelection key locks) h c.restore
      ((h.withPointer c.restored).withControl {c with phase := .recovering}) := by
  obtain ⟨chosen,back⟩ := restorable
  have filtered : (some c).filter (fun control => !control.phase.settled) = some c := by
    simp [pending]
  unfold recoverSelection
  rw [yields_bind]
  refine ⟨some c,h,(yields_readControl _).mpr ⟨ledger,rfl⟩,?_⟩
  rw [filtered]
  simp only [yields_bind,yields_unchanged,yields_failWhen]
  refine ⟨p,h,⟨selected,?_,rfl⟩,(),h,⟨chosen,rfl⟩,?_⟩
  · rcases allowed with rfl | rfl <;> simp
  · have given := Control.restored_sound sound
    have written := sound.recover (.inl rfl : Phase.recovering = .recovering ∨ Phase.recovering = .recovered)
    cases restore : c.restore with
    | none =>
      have unfloored : ¬ c.floor.isSome = true := by
        intro floored
        unfold Control.restore at restore
        split at restore
        next => cases restore
        next backward =>
          have based : c.baseline = none := by
            cases baseline : c.baseline with
            | none => rfl
            | some s =>
              have same := sound.facts.fallback (by simp [baseline])
              rw [baseline,restore] at same
              cases same
          exact chosen ⟨by simpa using backward,floored,based⟩
      simp only [yields_bind,yields_failWhen,yields_writeSelection,yields_writeControl,yields_pure]
      exact ⟨(),h,⟨unfloored,rfl⟩,(),_,⟨given,rfl⟩,(),_,⟨written,rfl⟩,trivial,rfl⟩
    | some r =>
      obtain ⟨accepted,intact⟩ := back r restore
      simp only [yields_bind,yields_lift,yields_failWhen,yields_validated,yields_writeSelection,yields_writeControl,
        yields_pure]
      exact ⟨true,h,⟨accepted,rfl⟩,(),h,⟨by simp,rfl⟩,(),h,⟨intact,rfl⟩,(),_,⟨given,rfl⟩,(),_,⟨written,rfl⟩,
        trivial,rfl⟩

theorem complete_recovering {c : Control} (ledger : h.ledger = .ok (some c)) (sound : c.Sound)
    (recovering : c.phase = .recovering) (selected : h.selection = .ok c.restored)
    (restorable : Restorable c h.disk) :
    Yields completeRecovery h () (h.withControl {c with phase := .recovered}) := by
  obtain ⟨chosen,back⟩ := restorable
  have filtered : (some c).filter (fun control => control.phase ≠ .recovered) = some c := by
    simp [recovering]
  have written := sound.recover (.inr rfl : Phase.recovered = .recovering ∨ Phase.recovered = .recovered)
  unfold completeRecovery
  rw [yields_bind]
  refine ⟨some c,h,(yields_readControl _).mpr ⟨ledger,rfl⟩,?_⟩
  rw [filtered]
  simp only [yields_bind,yields_unchanged,yields_failWhen]
  refine ⟨(),h,⟨not_not.mpr recovering,rfl⟩,c.restored,h,⟨selected,by simp,rfl⟩,(),h,⟨chosen,rfl⟩,?_⟩
  cases restore : c.restore with
  | none => exact (yields_writeControl _ _).mpr ⟨written,rfl⟩
  | some r =>
    obtain ⟨accepted,intact⟩ := back r restore
    simp only [yields_bind,yields_lift,yields_failWhen,yields_validated,yields_writeControl]
    exact ⟨true,h,⟨accepted,rfl⟩,(),h,⟨by simp,rfl⟩,(),h,⟨intact,rfl⟩,written,rfl⟩

/-- The runtimes that an update of a settled ledger to its own target goes from. -/
def Replaceable (c : Control) (p : Option UpdateRuntimeSelection) (disk : Disk) : Prop :=
  ∀ s, p = some s → s.Sound ∧ older c.target.version s.version = .ok false ∧
    accepts c.floor s.admission = .ok true ∧ validateGeneration disk s false = .ok ()

/-- The ledger of a new update to the same target. -/
def preparedAgain (key : String) (c : Control) (p : Option UpdateRuntimeSelection) : Control :=
  ⟨key,.prepared,p,p,c.target,c.floor,false⟩

theorem preparedAgain_sound {c : Control} {p : Option UpdateRuntimeSelection} {disk : Disk} (sound : c.Sound)
    (keyed : isKey key = true) (replaceable : Replaceable c p disk) : (preparedAgain key c p).Sound := by
  obtain ⟨fits,target,_,_,_,above,_,_,_⟩ := sound.facts
  have given : ∀ s, p = some s → s.Sound := fun s same => (replaceable s same).1
  apply (Control.sound_iff _).mpr
  refine ⟨?_,target,given,given,fun _ => rfl,above,nofun,nofun,nofun⟩
  have fit : ∀ s, p = some s → s.fits = true := by
    intro s same
    have decoded := given s same
    simp only [UpdateRuntimeSelection.Sound,decodeUpdateRuntimeSelection,bind_ok,failWhen_ok,not_not] at decoded
    obtain ⟨_,fits,_⟩ := decoded
    exact fits
  simp only [Control.fits,Bool.and_eq_true] at fits ⊢
  obtain ⟨⟨⟨⟨_,_⟩,_⟩,aimed⟩,floored⟩ := fits
  have pointed : p.all (·.fits) = true := by
    cases p with
    | none => rfl
    | some s => exact fit s rfl
  exact ⟨⟨⟨⟨keyed,pointed⟩,pointed⟩,aimed⟩,floored⟩

theorem replaceable_target {c : Control} {disk : Disk} (sound : c.Sound) (ready : c.Ready disk)
    (accepted : accepts c.floor c.target.admission = .ok true) : Replaceable c (some c.target) disk := by
  rintro s same
  cases same
  obtain ⟨v,versioned⟩ := sound.facts.target.versioned
  exact ⟨sound.facts.target,older_same versioned,accepted,valid_weaken ready.capable⟩

theorem replaceable_restored {c : Control} {disk : Disk} (sound : c.Sound) (kept : c.Kept) (ready : c.Ready disk) :
    Replaceable c c.restored disk := by
  unfold Control.restored
  split
  next forward =>
    obtain ⟨v,versioned⟩ := sound.facts.target.versioned
    apply replaceable_target sound ready
    rw [(sound.facts.boundary forward).1]
    exact accepts_floor versioned
  next backward =>
    have backward : c.forwardOnly = false := by simpa using backward
    intro s based
    have before : c.previous = some s := by
      rw [← sound.facts.fallback (by simp [based])]
      exact based
    exact ⟨sound.facts.baseline s based,ready.upgrade s before,kept.fallback backward s before,
      ready.intact backward s before⟩

theorem prepare_again {c : Control} {p : Option UpdateRuntimeSelection} (ledger : h.ledger = .ok (some c))
    (sound : c.Sound) (settled : c.phase.settled = true) (selected : h.selection = .ok p)
    (capable : validateGeneration h.disk c.target true = .ok ()) (keyed : isKey key = true)
    (replaceable : Replaceable c p h.disk) :
    Yields (prepare key c.target none) h key (h.withControl (preparedAgain key c p)) := by
  have quiet : Quiet (some c) := by
    intro c' same
    cases same
    exact settled
  have admitted : Admitted (some c) c.target p p h.disk :=
    ⟨fun _ _ => rfl,fun s same => (replaceable s same).2.1,sound.facts.above,fun s same => (replaceable s same).2.2.1,
      capable,fun s same => (replaceable s same).2.2.2⟩
  simp only [prepare,yields_bind,yields_lift,decodeUpdateRuntimeSelection_ok,yields_readControl,yields_failWhen,
    yields_readSelection,yields_previousOf,yields_admitTarget,yields_writeControl,yields_pure,quiet_iff]
  exact ⟨c.target,h,⟨⟨sound.facts.target,rfl⟩,rfl⟩,some c,h,⟨ledger,rfl⟩,(),h,⟨quiet,rfl⟩,p,h,⟨selected,rfl⟩,p,h,
    ⟨none_sound,rfl,rfl⟩,(),h,⟨admitted,rfl⟩,(),_,⟨preparedAgain_sound sound keyed replaceable,rfl⟩,trivial,rfl⟩

theorem repair_reads {c : Control} (ledger : h.ledger = .ok (some c)) (sound : c.Sound)
    (completed : c.phase = .completed) (forward : c.forwardOnly = true) (selected : h.selection = .ok c.baseline)
    (apart : c.baseline ≠ some c.target) (capable : validateGeneration h.disk c.target true = .ok ()) :
    Yields (repairTargetPointer c.key ⟨true,true⟩) h c.target (h.withPointer (some c.target)) := by
  simp only [repairTargetPointer,yields_bind,yields_transaction,yields_failWhen,yields_unchanged,yields_validated,
    yields_barrier]
  refine ⟨c,h,⟨ledger,rfl,rfl⟩,(),h,⟨by simp [completed,forward],rfl⟩,(),h,⟨capable,rfl⟩,(),h,⟨trivial,rfl⟩,c,h,
    ⟨ledger,rfl,rfl⟩,(),h,⟨not_not.mpr rfl,rfl⟩,c.baseline,h,⟨selected,by simp,rfl⟩,?_⟩
  rw [if_pos apart]
  simp only [yields_bind,yields_writeSelection,yields_pure]
  exact ⟨(),_,⟨target_sound sound,rfl⟩,trivial,rfl⟩

theorem selection_withPointer {p : Option UpdateRuntimeSelection} (sound : ∀ s, p = some s → s.Sound)
    (short : ∀ s, p = some s → Go.len (fileText s.json) ≤ readLimit) : (h.withPointer p).selection = .ok p := by
  cases p with
  | none => rfl
  | some s => exact selection_of_pointer rfl (sound s rfl) (short s rfl)

theorem Control.Short.restored {c : Control} (short : c.Short) : ∀ s, c.restored = some s →
    Go.len (fileText s.json) ≤ readLimit := by
  intro s same
  unfold Control.restored at same
  split at same
  next =>
    cases same
    exact short.target
  next => exact short.baseline same

def Home.recovering (h : Home) (c : Control) : Home :=
  (h.withPointer c.restored).withControl {c with phase := .recovering}

def Home.recovered (h : Home) (c : Control) : Home :=
  (h.withPointer c.restored).withControl {c with phase := .recovered}

/-- What can be done with a home that a ledger describes. -/
structure Recoverable (h : Home) (c : Control) : Prop where
  recovers : c.phase.settled = false → ¬c.unselected → ∀ key locks,
    Yields (recoverSelection key locks) h c.restore (h.recovering c)
  repeats : c.phase.settled = false → ¬c.unselected → ∀ key locks d, Leaves (recoverSelection key locks) h d →
    ∀ key' locks', Yields (recoverSelection key' locks') d c.restore (h.recovering c)
  confirms : c.phase.settled = false → ¬c.unselected →
    Yields completeRecovery (h.recovering c) () (h.recovered c) ∧ (h.recovered c).Points c.restored
  prepares : c.phase.settled = false → ¬c.unselected → ∀ key, isKey key = true →
    ∃ h', Yields (prepare key c.target none) (h.recovered c) key h'
  refuses : c.phase.settled = false → c.unselected → ∀ key locks r h',
    ¬ Yields (recoverSelection key locks) h r h'
  continues : c.phase.settled = true → ∀ key, isKey key = true →
    (∃ h', Yields (prepare key c.target none) h key h') ∨
      Yields (repairTargetPointer c.key ⟨true,true⟩) h c.target (h.withPointer (some c.target)) ∧
        ∃ h', Yields (prepare key c.target none) (h.withPointer (some c.target)) key h'

theorem refuse_unselected {c : Control} (holds : h.Holds c) (pending : c.phase.settled = false) (chosen : c.unselected)
    (r : Option UpdateRuntimeSelection) : ¬ Yields (recoverSelection key locks) h r h' := by
  intro done
  have filtered : (some c).filter (fun control => !control.phase.settled) = some c := by
    simp [pending]
  unfold recoverSelection at done
  rw [yields_bind] at done
  obtain ⟨found,home,read,done⟩ := done
  obtain ⟨ledger,rfl⟩ := (yields_readControl _).mp read
  rw [holds.read ledger,filtered] at done
  simp only [yields_bind,yields_failWhen] at done
  obtain ⟨_,_,_,_,_,⟨other,_⟩,_⟩ := done
  exact other chosen

section Standing
variable {c : Control} (stands : h.Stands) (holds : h.Holds c) (short : c.Short)
include stands holds short

theorem stands_reads_pending (pending : c.phase.settled = false) :
    ∃ p, h.selection = .ok p ∧ (p = c.baseline ∨ p = some c.target) := by
  obtain ⟨_,_,placed⟩ := stands.agrees.owner (holds.ledger (short c.phase))
  have points : h.Points c.baseline ∨ h.Points (some c.target) := by
    unfold Home.Placed at placed
    cases phase : c.phase <;> simp_all [Phase.settled]
  rcases points with points | points
  · exact ⟨_,Stands.reads stands short (.inl rfl) points,.inl rfl⟩
  · exact ⟨_,Stands.reads stands short (.inr rfl) points,.inr rfl⟩

theorem recover_yields_pending (pending : c.phase.settled = false) (chosen : ¬c.unselected) :
    Yields (recoverSelection key locks) h c.restore (h.recovering c) := by
  obtain ⟨p,selected,allowed⟩ := stands_reads_pending stands holds short pending
  exact recover_pending (holds.ledger (short c.phase)) holds.2 pending selected allowed
    (Stands.restorable stands holds chosen)

theorem recover_again (pending : c.phase.settled = false) (chosen : ¬c.unselected)
    (left : Leaves (recoverSelection key locks) h d) {key' : String} {locks' : Locks} :
    Yields (recoverSelection key' locks') d c.restore (h.recovering c) := by
  have ledger := holds.ledger (short c.phase)
  have restorable := Stands.restorable stands holds chosen
  obtain ⟨_,_,given,written⟩ := recover_cut ledger pending left
  have selected : (h.withPointer c.restored).selection = .ok c.restored := selection_withPointer given short.restored
  rcases written with rfl | rfl
  · exact recover_pending (h := h.withPointer c.restored) ledger holds.2 pending selected (restored_named c) restorable
  · have again := holds.2.recover (.inl rfl : Phase.recovering = .recovering ∨ Phase.recovering = .recovered)
    have holds' : (h.recovering c).Holds {c with phase := .recovering} := Home.holds_withControl again
    have ledger' := holds'.ledger (short .recovering)
    exact recover_pending (c := {c with phase := .recovering}) ledger' again rfl selected (restored_named c) restorable

theorem confirm_recovering (chosen : ¬c.unselected) :
    Yields completeRecovery (h.recovering c) () (h.recovered c) := by
  have again := holds.2.recover (.inl rfl : Phase.recovering = .recovering ∨ Phase.recovering = .recovered)
  have holds' : (h.recovering c).Holds {c with phase := .recovering} := Home.holds_withControl again
  have ledger := holds'.ledger (short .recovering)
  have selected : (h.withPointer c.restored).selection = .ok c.restored :=
    selection_withPointer (Control.restored_sound holds.2) short.restored
  have back : Restorable c h.disk := Stands.restorable stands holds chosen
  exact complete_recovering (c := {c with phase := .recovering}) ledger again rfl selected back

theorem prepare_recovered (keyed : isKey key = true) :
    ∃ h', Yields (prepare key c.target none) (h.recovered c) key h' := by
  have again := holds.2.recover (.inr rfl : Phase.recovered = .recovering ∨ Phase.recovered = .recovered)
  have holds' : (h.recovered c).Holds {c with phase := .recovered} := Home.holds_withControl again
  have ledger := holds'.ledger (short .recovered)
  have selected : (h.withPointer c.restored).selection = .ok c.restored :=
    selection_withPointer (Control.restored_sound holds.2) short.restored
  obtain ⟨_,kept,_⟩ := stands.agrees.owner (holds.ledger (short c.phase))
  have ready := stands.ready c holds
  have back : Replaceable c c.restored h.disk := replaceable_restored holds.2 kept ready
  exact ⟨_,prepare_again (c := {c with phase := .recovered}) ledger again rfl selected ready.capable keyed back⟩

theorem continue_settled (settled : c.phase.settled = true) (keyed : isKey key = true) :
    (∃ h', Yields (prepare key c.target none) h key h') ∨
      Yields (repairTargetPointer c.key ⟨true,true⟩) h c.target (h.withPointer (some c.target)) ∧
        ∃ h', Yields (prepare key c.target none) (h.withPointer (some c.target)) key h' := by
  have ledger := holds.ledger (short c.phase)
  have ready := stands.ready c holds
  obtain ⟨_,kept,placed⟩ := stands.agrees.owner ledger
  unfold Home.Placed at placed
  split at placed
  next recovered =>
    have selected := Stands.reads stands short (restored_named c) placed
    exact .inl ⟨_,prepare_again ledger holds.2 settled selected ready.capable keyed
      (replaceable_restored holds.2 kept ready)⟩
  next completed =>
    have replaceable := replaceable_target holds.2 ready (kept.reached completed)
    rcases placed with there | ⟨forward,before⟩
    · have selected := Stands.reads stands short (.inr rfl) there
      exact .inl ⟨_,prepare_again ledger holds.2 settled selected ready.capable keyed replaceable⟩
    · have selected := Stands.reads stands short (.inl rfl) before
      by_cases same : c.baseline = some c.target
      · rw [same] at selected
        exact .inl ⟨_,prepare_again ledger holds.2 settled selected ready.capable keyed replaceable⟩
      · right
        refine ⟨repair_reads ledger holds.2 completed forward selected same ready.capable,?_⟩
        have moved : (h.withPointer (some c.target)).selection = .ok (some c.target) :=
          selection_withPointer (target_sound holds.2) fun s same => Option.some.inj same ▸ short.target
        exact ⟨_,prepare_again (h := h.withPointer (some c.target)) ledger holds.2 settled moved ready.capable keyed
          replaceable⟩
  next unsettled =>
    cases phase : c.phase <;> simp_all [Phase.settled]

theorem recoverable_of_stands : Recoverable h c where
  recovers pending chosen key locks := recover_yields_pending stands holds short pending chosen
  repeats pending chosen key locks d left key' locks' := recover_again stands holds short pending chosen left
  confirms _ chosen := by
    have points : (h.withPointer c.restored).Points c.restored :=
      Home.points_withPointer (Control.restored_sound holds.2)
    exact ⟨confirm_recovering stands holds short chosen,(Home.points_withControl _ _).mpr points⟩
  prepares _ _ key keyed := prepare_recovered stands holds short keyed
  refuses pending chosen key locks r h' := refuse_unselected holds pending chosen r
  continues settled key keyed := continue_settled stands holds short settled keyed

end Standing

theorem run_stands {start : Home} {labels : List Label} (stands : start.Stands)
    (run : Run IntactMoves start labels h) : h.Stands := by
  refine run.invariant ?_ stands
  intro s label s' stands move
  obtain ⟨move,preserves⟩ := move
  cases label with
  | call call => exact stands_of_effect stands (Call.effect move)
  | change disk =>
    subst move
    refine ⟨stands.agrees,?_,stands.pointed⟩
    intro c holds
    have ready := stands.ready c holds
    have kept := preserves disk rfl c holds
    exact ⟨kept _ (.inl rfl) true ready.capable,ready.upgrade,
      fun backward p same => kept p (.inr same) false (ready.intact backward p same)⟩

theorem recover_absent {p : Option UpdateRuntimeSelection} (absent : h.control = none)
    (selected : h.selection = .ok p) (intact : ∀ s, p = some s → bootstrapChanged h.disk s = false) :
    Yields (recoverSelection key locks) h p h ∧ Yields completeRecovery h () h := by
  have ledger : h.ledger = .ok none := optionalJSON_ok.mpr (.inl ⟨absent,rfl⟩)
  constructor
  · unfold recoverSelection
    rw [yields_bind]
    refine ⟨none,h,(yields_readControl _).mpr ⟨ledger,rfl⟩,?_⟩
    simp only [Option.filter_none,yields_bind,yields_readSelection]
    refine ⟨p,h,⟨selected,rfl⟩,?_⟩
    cases p with
    | none => exact (yields_pure _ _ _ _).mpr ⟨rfl,rfl⟩
    | some s =>
      simp only [yields_bind,yields_read,intact s rfl]
      exact ⟨false,h,⟨rfl,rfl⟩,by simp⟩
  · unfold completeRecovery
    rw [yields_bind]
    exact ⟨none,h,(yields_readControl _).mpr ⟨ledger,rfl⟩,by simp⟩

/-- While the runtimes of its ledger stay, a pending update is recovered, again after each
cut, unless it was prepared over a floor with no runtime selected; and then, as after each
settled update, the next one may be prepared, for which the pointer of a hand-off that was
cut off is repaired first. -/
theorem recoverable {start : Home} {labels : List Label} (fresh : start.control = none)
    (readable : ∃ p, start.selection = .ok p) (run : Run IntactMoves start labels h) :
    (h.control = none → ∀ p, h.selection = .ok p → (∀ s, p = some s → bootstrapChanged h.disk s = false) →
      ∀ key locks, Yields (recoverSelection key locks) h p h ∧ Yields completeRecovery h () h) ∧
      ∀ c, h.Holds c → c.Short → Recoverable h c := by
  have stands : start.Stands := by
    refine ⟨.inl fresh,?_,.inl readable⟩
    intro c holds
    rw [holds.1] at fresh
    cases fresh
  constructor
  · intro absent p selected intact key locks
    exact recover_absent absent selected intact
  · intro c holds short
    exact recoverable_of_stands (run_stands stands run) holds short

/-! An update of a home with no runtime selected. -/

theorem prepare_moves {prior : Option Control} {target : UpdateRuntimeSelection} (ledger : h.ledger = .ok prior)
    (quiet : Quiet prior) (selected : h.selection = .ok none) (admitted : Admitted prior target none none h.disk)
    (sound : (⟨key,.prepared,none,none,target,prior.bind (·.floor),false⟩ : Control).Sound) :
    Run IntactMoves h [.call (.prepare key target none)]
      (h.withControl ⟨key,.prepared,none,none,target,prior.bind (·.floor),false⟩) := by
  refine Run.one ⟨?_,nofun⟩
  simp only [Moves,Call.Leaves,prepare,leaves_bind,yields_lift,decodeUpdateRuntimeSelection_ok,yields_readControl,
    yields_failWhen,yields_readSelection,yields_previousOf,yields_admitTarget,leaves_writeControl,quiet_iff]
  exact .inr ⟨target,h,⟨⟨sound.facts.target,rfl⟩,rfl⟩,.inr ⟨prior,h,⟨ledger,rfl⟩,.inr ⟨(),h,⟨quiet,rfl⟩,.inr
    ⟨none,h,⟨selected,rfl⟩,.inr ⟨none,h,⟨none_sound,rfl,rfl⟩,.inr ⟨(),h,⟨admitted,rfl⟩,.inl ⟨sound,rfl⟩⟩⟩⟩⟩⟩⟩

def bare : Home := ⟨none,none,twoReleases⟩

def firstControl : Control := ⟨handoffKey,.prepared,none,none,newRuntime,none,false⟩

def bareControl : Control := forward handoffKey .completed none none newRuntime

def overFloor : Control := ⟨handoffKey,.prepared,none,none,newRuntime,some newRuntime.floor,false⟩

theorem bare_admits {prior : Option Control}
    (above : ∀ f, prior.bind (·.floor) = some f → older newRuntime.version f.minimumRuntimeVersion = .ok false) :
    Admitted prior newRuntime none none twoReleases where
  same based := nomatch based
  upgrade p same := nomatch same
  above := above
  accepted p same := nomatch same
  capable := by decide
  intact p same := nomatch same

theorem firstControl_sound : firstControl.Sound :=
  ((decodeControl_ok _ _).mp (ok_after firstControl _ (by decide))).1

theorem recoverable_first : ∃ labels h, Run IntactMoves bare labels h ∧ h.Holds firstControl ∧
    Recoverable h firstControl := by
  have ledger : bare.ledger = .ok none := rfl
  have run := prepare_moves ledger nofun rfl (bare_admits nofun) firstControl_sound
  have holds : (bare.withControl firstControl).Holds firstControl := Home.holds_withControl firstControl_sound
  have short : firstControl.Short := by
    intro phase
    apply short_text
    cases phase <;> decide +kernel
  exact ⟨_,_,run,holds,(recoverable rfl ⟨none,rfl⟩ run).2 _ holds short⟩

/-- A hand-off with no runtime selected that is cut off, and then an update: it can be
neither recovered nor followed by another. -/
theorem unrecoverable : ∃ labels h c, Run IntactMoves bare labels h ∧ h.Holds c ∧ c.phase.settled = false ∧
    (∀ key locks r h', ¬ Yields (recoverSelection key locks) h r h') ∧
      ∀ key next given h', ¬ Yields (prepare key next given) h key h' := by
  have bareSound : bareControl.Sound := ((decodeControl_ok _ _).mp (ok_after bareControl _ (by decide))).1
  have overSound : overFloor.Sound := ((decodeControl_ok _ _).mp (ok_after overFloor _ (by decide))).1
  have selected : bare.selection = .ok none := rfl
  have moved : Moves bare (.call (.handoffTarget handoffKey newRuntime none ⟨true,true⟩)) (bare.withControl bareControl) :=
    handoff_moves (by decide) rfl selected (bare_admits nofun) ⟨true,rfl⟩ bareSound
  have handed : Run IntactMoves bare _ _ := Run.one ⟨moved,nofun⟩
  have ledger : (bare.withControl bareControl).ledger = .ok (some bareControl) :=
    (Home.holds_withControl bareSound).ledger (short_text (by decide +kernel))
  have quiet : Quiet (some bareControl) := by
    intro c same
    cases same
    rfl
  have admitted : Admitted (some bareControl) newRuntime none none twoReleases := by
    refine bare_admits ?_
    intro f same
    cases same
    decide
  have prepared := prepare_moves ledger quiet rfl admitted overSound
  have holds : ((bare.withControl bareControl).withControl overFloor).Holds overFloor :=
    Home.holds_withControl overSound
  refine ⟨_,_,overFloor,handed.append prepared,holds,rfl,?_,?_⟩
  · intro key locks r h'
    exact refuse_unselected holds rfl ⟨rfl,rfl,rfl⟩ r
  · intro key next given h' done
    simp only [prepare,yields_bind,yields_readControl,yields_failWhen] at done
    obtain ⟨_,_,same,found,_,⟨read,_⟩,_,_,⟨quiet,_⟩,_⟩ := done
    rw [yields_lift] at same
    rw [same.2] at read
    rw [holds.read read] at quiet
    exact quiet rfl

end ATape.Update
