import ATape.Update.Operations

/-! What each part of an operation reads, requires and writes. -/
namespace ATape.Update
open Foundation Node Work

namespace Home

def ledger (home : Home) : Except Failure (Option Control) := optionalJSON home.control controlOf

def selection (home : Home) : Except Failure (Option UpdateRuntimeSelection) := optionalJSON home.pointer selectionOf

def withControl (home : Home) (control : Control) : Home := {home with control := some (fileText control.json)}

def withPointer (home : Home) (selection : Option UpdateRuntimeSelection) : Home :=
  {home with pointer := selection.map fun selected => fileText selected.json}

@[simp] theorem control_withControl (home : Home) (control : Control) :
    (home.withControl control).control = some (fileText control.json) := rfl

@[simp] theorem pointer_withControl (home : Home) (control : Control) :
    (home.withControl control).pointer = home.pointer := rfl

@[simp] theorem selection_withControl (home : Home) (control : Control) :
    (home.withControl control).selection = home.selection := rfl

@[simp] theorem disk_withControl (home : Home) (control : Control) : (home.withControl control).disk = home.disk := rfl

@[simp] theorem control_withPointer (home : Home) (selection : Option UpdateRuntimeSelection) :
    (home.withPointer selection).control = home.control := rfl

@[simp] theorem ledger_withPointer (home : Home) (selection : Option UpdateRuntimeSelection) :
    (home.withPointer selection).ledger = home.ledger := rfl

@[simp] theorem disk_withPointer (home : Home) (selection : Option UpdateRuntimeSelection) :
    (home.withPointer selection).disk = home.disk := rfl

@[simp] theorem withPointer_withControl (home : Home) (control control' : Control)
    (selection : Option UpdateRuntimeSelection) :
    ((home.withControl control).withPointer selection).withControl control' =
      (home.withControl control').withPointer selection := rfl

end Home

theorem decodeUpdateRuntimeSelection_same {selected selected' : UpdateRuntimeSelection}
    (ok : decodeUpdateRuntimeSelection selected = .ok selected') : selected' = selected := by
  simp only [decodeUpdateRuntimeSelection,bind_ok,failWhen_ok,pure_ok] at ok
  obtain ⟨_,_,_,_,_,_,_,_,same⟩ := ok
  exact same.symm

theorem decodeControl_same {control control' : Control} (ok : decodeControl control = .ok control') :
    control' = control := by
  simp only [decodeControl,bind_ok,failWhen_ok,pure_ok] at ok
  obtain ⟨_,_,_,_,same⟩ := ok
  exact same.symm

def UpdateRuntimeSelection.Sound (s : UpdateRuntimeSelection) : Prop := decodeUpdateRuntimeSelection s = .ok s

def Control.Sound (c : Control) : Prop := decodeControl c = .ok c

@[simp] theorem decodeUpdateRuntimeSelection_ok (s s' : UpdateRuntimeSelection) :
    decodeUpdateRuntimeSelection s = .ok s' ↔ s.Sound ∧ s' = s := by
  constructor
  · intro ok
    have same := decodeUpdateRuntimeSelection_same ok
    subst same
    exact ⟨ok,rfl⟩
  · rintro ⟨sound,rfl⟩
    exact sound

@[simp] theorem decodeControl_ok (c c' : Control) : decodeControl c = .ok c' ↔ c.Sound ∧ c' = c := by
  constructor
  · intro ok
    have same := decodeControl_same ok
    subst same
    exact ⟨ok,rfl⟩
  · rintro ⟨sound,rfl⟩
    exact sound

variable {home home' d : Home} {key : String} {locks : Locks}

@[simp] theorem yields_readControl (control : Option Control) :
    Yields readControl home control home' ↔ home.ledger = .ok control ∧ home' = home := yields_read _ _ _ _

@[simp] theorem leaves_readControl : ¬ Leaves readControl home d := leaves_read _ _ _

@[simp] theorem yields_readSelection (selection : Option UpdateRuntimeSelection) :
    Yields readSelection home selection home' ↔ home.selection = .ok selection ∧ home' = home := yields_read _ _ _ _

@[simp] theorem leaves_readSelection : ¬ Leaves readSelection home d := leaves_read _ _ _

@[simp] theorem yields_transaction (control : Control) : Yields (transaction key) home control home' ↔
    home.ledger = .ok (some control) ∧ control.key = key ∧ home' = home := by
  simp only [transaction,yields_bind,yields_readControl]
  constructor
  · rintro ⟨found,s,⟨read,rfl⟩,rest⟩
    cases found with
    | none => simp at rest
    | some c =>
      simp only [yields_bind,yields_failWhen,yields_pure,not_not] at rest
      obtain ⟨_,_,⟨owned,rfl⟩,rfl,rfl⟩ := rest
      exact ⟨read,owned,rfl⟩
  · rintro ⟨read,owned,rfl⟩
    exact ⟨some control,_,⟨read,rfl⟩,by simp [owned]⟩

@[simp] theorem leaves_transaction : ¬ Leaves (transaction key) home d := by
  simp only [transaction,leaves_bind,leaves_readControl,false_or]
  rintro ⟨found,s,_,rest⟩
  cases found <;> simp at rest

@[simp] theorem yields_unchanged (allowed : List (Option UpdateRuntimeSelection))
    (selection : Option UpdateRuntimeSelection) : Yields (unchanged allowed) home selection home' ↔
      home.selection = .ok selection ∧ selection ∈ allowed ∧ home' = home := by
  simp only [unchanged,yields_bind,yields_readSelection,yields_failWhen,yields_pure,not_not]
  constructor
  · rintro ⟨current,_,⟨read,rfl⟩,_,_,⟨member,rfl⟩,rfl,rfl⟩
    exact ⟨read,member,rfl⟩
  · rintro ⟨read,member,rfl⟩
    exact ⟨_,_,⟨read,rfl⟩,(),_,⟨member,rfl⟩,rfl,rfl⟩

@[simp] theorem leaves_unchanged (allowed : List (Option UpdateRuntimeSelection)) :
    ¬ Leaves (unchanged allowed) home d := by
  simp [unchanged]

@[simp] theorem yields_validated (selected : UpdateRuntimeSelection) (capable : Bool) (u : Unit) :
    Yields (validated selected capable) home u home' ↔
      validateGeneration home.disk selected capable = .ok () ∧ home' = home := yields_read _ _ _ _

@[simp] theorem leaves_validated (selected : UpdateRuntimeSelection) (capable : Bool) :
    ¬ Leaves (validated selected capable) home d := leaves_read _ _ _

@[simp] theorem yields_barrier (u : Unit) :
    Yields (acquireRuntimeWriteBarrier locks) home u home' ↔ locks.barrier = true ∧ home' = home := by
  simp [acquireRuntimeWriteBarrier]

@[simp] theorem leaves_barrier : ¬ Leaves (acquireRuntimeWriteBarrier locks) home d := leaves_failWhen _ _ _ _

@[simp] theorem yields_fence (floor : Option Floor) (target : UpdateRuntimeSelection) (u : Unit) :
    Yields (tryAcquireFence locks floor target) home u home' ↔
      (∃ advances, advancesFloor floor target.admission = .ok advances ∧ (advances = true → locks.proofs = true)) ∧
        home' = home := by
  simp only [tryAcquireFence,yields_bind,yields_lift,yields_failWhen,not_and,Bool.not_eq_true,Bool.not_eq_false]
  constructor
  · rintro ⟨advances,_,⟨ok,rfl⟩,allowed,rfl⟩
    exact ⟨⟨advances,ok,allowed⟩,rfl⟩
  · rintro ⟨⟨advances,ok,allowed⟩,rfl⟩
    exact ⟨advances,_,⟨ok,rfl⟩,allowed,rfl⟩

@[simp] theorem leaves_fence (floor : Option Floor) (target : UpdateRuntimeSelection) :
    ¬ Leaves (tryAcquireFence locks floor target) home d := by
  simp [tryAcquireFence]

@[simp] theorem yields_writeControl (control : Control) (u : Unit) :
    Yields (writeControl control) home u home' ↔ control.Sound ∧ home' = home.withControl control := by
  simp only [writeControl,yields_bind,yields_lift,decodeControl_ok,yields_write]
  constructor
  · rintro ⟨_,_,⟨⟨sound,rfl⟩,rfl⟩,rfl⟩
    exact ⟨sound,rfl⟩
  · rintro ⟨sound,rfl⟩
    exact ⟨_,_,⟨⟨sound,rfl⟩,rfl⟩,rfl⟩

@[simp] theorem leaves_writeControl (control : Control) :
    Leaves (writeControl control) home d ↔ control.Sound ∧ d = home.withControl control := by
  simp only [writeControl,leaves_bind,leaves_lift,false_or,yields_lift,decodeControl_ok,leaves_write]
  constructor
  · rintro ⟨_,_,⟨⟨sound,rfl⟩,rfl⟩,rfl⟩
    exact ⟨sound,rfl⟩
  · rintro ⟨sound,rfl⟩
    exact ⟨_,_,⟨⟨sound,rfl⟩,rfl⟩,rfl⟩

@[simp] theorem yields_writeSelection (selection : Option UpdateRuntimeSelection) (u : Unit) :
    Yields (writeSelection selection) home u home' ↔
      (∀ selected, selection = some selected → selected.Sound) ∧ home' = home.withPointer selection := by
  cases selection with
  | none => simp [writeSelection,Home.withPointer]
  | some selected =>
    simp only [writeSelection,yields_bind,yields_lift,decodeUpdateRuntimeSelection_ok,yields_write]
    constructor
    · rintro ⟨_,_,⟨⟨sound,rfl⟩,rfl⟩,rfl⟩
      exact ⟨fun _ same => Option.some.inj same ▸ sound,rfl⟩
    · rintro ⟨sound,rfl⟩
      exact ⟨_,_,⟨⟨sound _ rfl,rfl⟩,rfl⟩,rfl⟩

@[simp] theorem leaves_writeSelection (selection : Option UpdateRuntimeSelection) :
    Leaves (writeSelection selection) home d ↔
      (∀ selected, selection = some selected → selected.Sound) ∧ d = home.withPointer selection := by
  cases selection with
  | none => simp [writeSelection,Home.withPointer]
  | some selected =>
    simp only [writeSelection,leaves_bind,leaves_lift,false_or,yields_lift,decodeUpdateRuntimeSelection_ok,leaves_write]
    constructor
    · rintro ⟨_,_,⟨⟨sound,rfl⟩,rfl⟩,rfl⟩
      exact ⟨fun _ same => Option.some.inj same ▸ sound,rfl⟩
    · rintro ⟨sound,rfl⟩
      exact ⟨_,_,⟨⟨sound _ rfl,rfl⟩,rfl⟩,rfl⟩

theorem none_sound : ∀ selected, (none : Option UpdateRuntimeSelection) = some selected → selected.Sound := nofun

@[simp] theorem yields_previousOf (given baseline previous : Option UpdateRuntimeSelection) :
    Yields (previousOf given baseline) home previous home' ↔
      (∀ selected, given = some selected → selected.Sound) ∧ previous = (given <|> baseline) ∧ home' = home := by
  cases given with
  | none => simp [previousOf,eq_comm]
  | some given =>
    simp only [previousOf,yields_bind,yields_lift,decodeUpdateRuntimeSelection_ok,yields_pure]
    constructor
    · rintro ⟨_,_,⟨⟨sound,rfl⟩,rfl⟩,rfl,rfl⟩
      exact ⟨fun _ same => Option.some.inj same ▸ sound,rfl,rfl⟩
    · rintro ⟨sound,rfl,rfl⟩
      exact ⟨_,_,⟨⟨sound _ rfl,rfl⟩,rfl⟩,rfl,rfl⟩

@[simp] theorem leaves_previousOf (given baseline : Option UpdateRuntimeSelection) :
    ¬ Leaves (previousOf given baseline) home d := by
  cases given <;> simp [previousOf]

/-- What an update has to meet before it is written down. -/
structure Admitted (prior : Option Control) (target : UpdateRuntimeSelection)
    (baseline previous : Option UpdateRuntimeSelection) (disk : Disk) : Prop where
  same : baseline.isSome → previous.isSome → baseline = previous
  upgrade : ∀ p, previous = some p → older target.version p.version = .ok false
  above : ∀ f, prior.bind (·.floor) = some f → older target.version f.minimumRuntimeVersion = .ok false
  accepted : ∀ p, previous = some p → accepts (prior.bind (·.floor)) p.admission = .ok true
  capable : validateGeneration disk target true = .ok ()
  intact : ∀ p, previous = some p → validateGeneration disk p false = .ok ()

@[simp] theorem yields_admitTarget (prior : Option Control) (target : UpdateRuntimeSelection)
    (baseline previous : Option UpdateRuntimeSelection) (u : Unit) :
    Yields (admitTarget prior target baseline previous) home u home' ↔
      Admitted prior target baseline previous home.disk ∧ home' = home := by
  unfold admitTarget
  constructor
  · intro done
    cases previous with
    | none =>
      cases floored : prior.bind (·.floor) with
      | none =>
        simp [floored] at done
        exact ⟨⟨nofun,nofun,by simp [floored],nofun,done.1,nofun⟩,done.2⟩
      | some floor =>
        simp [floored] at done
        obtain ⟨below,rfl,capable⟩ := done
        exact ⟨⟨nofun,nofun,by simpa [floored] using below,nofun,capable,nofun⟩,rfl⟩
    | some p =>
      cases floored : prior.bind (·.floor) with
      | none =>
        simp [floored] at done
        obtain ⟨same,upgrade,accepted,⟨capable,rfl⟩,intact⟩ := done
        exact ⟨⟨by simpa using same,by simpa using upgrade,by simp [floored],by simpa [floored] using accepted,capable,
          by simpa using intact⟩,rfl⟩
      | some floor =>
        simp [floored] at done
        obtain ⟨same,upgrade,below,accepted,⟨capable,rfl⟩,intact⟩ := done
        exact ⟨⟨by simpa using same,by simpa using upgrade,by simpa [floored] using below,
          by simpa [floored] using accepted,capable,by simpa using intact⟩,rfl⟩
  · rintro ⟨admitted,rfl⟩
    obtain ⟨same,upgrade,below,accepted,capable,intact⟩ := admitted
    cases previous with
    | none =>
      cases floored : prior.bind (·.floor) with
      | none => simp [capable]
      | some floor => simp [capable,below floor floored]
    | some p =>
      cases floored : prior.bind (·.floor) with
      | none => simpa [capable,upgrade,intact] using ⟨by simpa using same,by simpa [floored] using accepted p rfl⟩
      | some floor =>
        simpa [capable,upgrade,intact,below floor floored] using
          ⟨by simpa using same,by simpa [floored] using accepted p rfl⟩

@[simp] theorem leaves_admitTarget (prior : Option Control) (target : UpdateRuntimeSelection)
    (baseline previous : Option UpdateRuntimeSelection) :
    ¬ Leaves (admitTarget prior target baseline previous) home d := by
  unfold admitTarget
  cases previous <;> cases prior.bind (·.floor) <;> simp

end ATape.Update
