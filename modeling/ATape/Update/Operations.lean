import ATape.Update.Control

/-! The operations of update control, write by write. One owner runs them one after
another, and any of them may be cut off between its writes. -/
namespace ATape.Update
open Foundation Node

structure Manifest where
  name : String
  version : String
  stateContract : Option String
  captureStateContract : Option String
  updateControlProtocol : Option String
deriving DecidableEq

/-- A release. It is contained when it is a real directory with its executable inside. -/
structure Generation where
  contained : Bool
  manifest : Manifest
  identity : String
deriving DecidableEq

/-- An npm package, by the path of its executable: the digest of that, and the version
that it prints when it is run. -/
structure Bootstrap where
  identity : String
  manifest : Manifest
  prints : String
deriving DecidableEq

structure Disk where
  generations : Table String Generation
  bootstraps : Table String Bootstrap

structure Home where
  control : Option String
  pointer : Option String
  disk : Disk

/-- Whether the barrier of runtime writes and the probe of creation proofs are had. -/
structure Locks where
  barrier : Bool
  proofs : Bool

structure UpdateRuntimeAdmission where
  version : String
  captureStateContract : String

def UpdateRuntimeSelection.admission (s : UpdateRuntimeSelection) : UpdateRuntimeAdmission :=
  ⟨s.version,s.captureStateContract⟩

abbrev Job (α : Type) := Work Home Failure α

def Manifest.contract (m : Manifest) : Option String := m.captureStateContract <|> m.stateContract

def accepts (floor : Option Floor) (runtime : UpdateRuntimeAdmission) : Except Failure Bool :=
  match floor with
  | none => pure true
  | some floor => do
    let below ← older runtime.version floor.minimumRuntimeVersion
    pure (!below && runtime.captureStateContract = floor.captureStateContract)

def advancesFloor (floor : Option Floor) (target : UpdateRuntimeAdmission) : Except Failure Bool :=
  match floor with
  | none => pure true
  | some floor => do
    let above ← older floor.minimumRuntimeVersion target.version
    pure (above || floor.captureStateContract ≠ target.captureStateContract)

def validateGeneration (disk : Disk) (selected : UpdateRuntimeSelection) (capable : Bool) : Except Failure Unit := do
  let unavailable := generation "The recovery runtime is unavailable or invalid."
  let release ← present (disk.generations.lookup selected.version) unavailable
  failWhen (¬release.contained) (generation "The recovery generation must be a real directory.")
  failWhen (release.manifest.name ≠ "@atape/cli" ∨ release.manifest.version ≠ selected.version ∨
    release.manifest.contract ≠ some selected.captureStateContract)
    (generation "The recovery package does not declare its selected capture contract.")
  failWhen (capable ∧ release.manifest.updateControlProtocol ≠ some updateControlProtocol)
    (generation "The target package does not support independent update control.")
  let bootstrap ← present (disk.bootstraps.lookup selected.bootstrapEntry) unavailable
  failWhen (bootstrap.identity ≠ selected.bootstrapIdentity) (generation "The update bootstrap identity changed.")

def bootstrapChanged (disk : Disk) (selected : UpdateRuntimeSelection) : Bool :=
  (disk.bootstraps.lookup selected.bootstrapEntry).all fun bootstrap => bootstrap.identity ≠ selected.bootstrapIdentity

def readSelection : Job (Option UpdateRuntimeSelection) := .read fun home => optionalJSON home.pointer selectionOf

def readControl : Job (Option Control) := .read fun home => optionalJSON home.control controlOf

def writeControl (control : Control) : Job Unit := do
  let control ← Work.lift (decodeControl control)
  Work.write fun home => {home with control := some (fileText control.json)}

def writeSelection (selection : Option UpdateRuntimeSelection) : Job Unit :=
  match selection with
  | some selected => do
    let selected ← Work.lift (decodeUpdateRuntimeSelection selected)
    Work.write fun home => {home with pointer := some (fileText selected.json)}
  | none => Work.write fun home => {home with pointer := none}

def acquireRuntimeWriteBarrier (locks : Locks) : Job Unit :=
  .failWhen (¬locks.barrier) (conflict "Another local runtime write or reader-floor change is in progress.")

/-- The exclusive probe that an advance of the floor takes. -/
def tryAcquireFence (locks : Locks) (floor : Option Floor) (target : UpdateRuntimeSelection) : Job Unit := do
  let advances ← Work.lift (advancesFloor floor target.admission)
  .failWhen (advances ∧ ¬locks.proofs)
    (conflict "A controlled session is still confirming its creation proof; retry the update after confirmation.")

def assertRuntimeAdmission (runtime : UpdateRuntimeAdmission) : Job Unit := do
  let _ ← Work.lift (version runtime.version)
  .failWhen (¬isContract runtime.captureStateContract) (admission "Invalid runtime capture contract.")
  match ← readControl with
  | none => pure ()
  | some control => do
    let accepted ← Work.lift (accepts control.floor runtime)
    .failWhen (¬accepted) (admission "This runtime is below the durable recovery boundary.")
    let previous := if !control.forwardOnly && control.phase ≠ .completed then control.previous else none
    let contract := (previous.map (·.captureStateContract)).getD control.target.captureStateContract
    .failWhen (runtime.captureStateContract ≠ contract)
      (admission "This runtime does not support the admitted capture contract.")

def transaction (key : String) : Job Control := do
  match ← readControl with
  | none => .fail (conflict "The prepared update no longer owns this transaction.")
  | some control => do
    .failWhen (control.key ≠ key) (conflict "The prepared update no longer owns this transaction.")
    pure control

def unchanged (allowed : List (Option UpdateRuntimeSelection)) : Job (Option UpdateRuntimeSelection) := do
  let current ← readSelection
  .failWhen (current ∉ allowed) (conflict "A later runtime selection superseded this update.")
  pure current

def validated (selected : UpdateRuntimeSelection) (capable : Bool) : Job Unit :=
  .read fun home => validateGeneration home.disk selected capable

/-- The immutable copy of a replacement, which stays when there is one. -/
def copyGeneration (disk : Disk) (version : String) (bootstrap : Bootstrap) : Disk :=
  if (disk.generations.lookup version).isSome then disk
  else {disk with generations := disk.generations.insert version ⟨true,bootstrap.manifest,bootstrap.identity⟩}

def replacementSelection (previous : UpdateRuntimeSelection) (floor : Option Floor) : Job UpdateRuntimeSelection := do
  let bootstrap ← Work.read fun home => present (home.disk.bootstraps.lookup previous.bootstrapEntry) .system
  .failWhen (bootstrap.manifest.name ≠ "@atape/cli" ∨
    bootstrap.manifest.updateControlProtocol ≠ some updateControlProtocol ∨
    bootstrap.manifest.contract ≠ some previous.captureStateContract)
    (admission "The replacement npm package does not support the selected capture contract and update protocol.")
  let target ← Work.lift (decodeUpdateRuntimeSelection
    {previous with version := bootstrap.manifest.version, adapters := [], bootstrapIdentity := bootstrap.identity})
  let downgrades ← Work.lift (older target.version previous.version)
  let accepted ← Work.lift (accepts floor target.admission)
  .failWhen (downgrades ∨ ¬accepted)
    (admission "Manual bootstrap replacement cannot downgrade the selected runtime or its reader floor.")
  .failWhen (Go.trimSpace bootstrap.prints ≠ "ATape "++target.version)
    (generation "The replacement npm bootstrap failed direct version verification.")
  Work.write fun home => {home with disk := copyGeneration home.disk target.version bootstrap}
  validated target true
  let entry ← Work.read fun home => present (home.disk.generations.lookup target.version) .system
  .failWhen (entry.identity ≠ target.bootstrapIdentity)
    (generation "The immutable recovery generation differs from the replacement npm bundle.")
  pure target

/-- The ledger of a step that goes forward only. -/
def forward (key : String) (phase : Phase) (baseline previous : Option UpdateRuntimeSelection)
    (target : UpdateRuntimeSelection) : Control := ⟨key,phase,baseline,previous,target,some target.floor,true⟩

def bindReplacement (key : String) (locks : Locks) (recovering : Bool) : Job UpdateRuntimeSelection := do
  let prior ← readControl
  .failWhen (prior.any fun control => !control.phase.settled)
    (conflict "An unfinished update must recover before replacing its bootstrap.")
  match ← readSelection with
  | none => .fail (conflict "Bootstrap replacement requires an existing independent runtime selection.")
  | some previous => do
    let target ← replacementSelection previous (prior.bind (·.floor))
    acquireRuntimeWriteBarrier locks
    let now ← readControl
    .failWhen (now ≠ prior) (conflict "The update reader floor changed before bootstrap replacement committed.")
    let _ ← unchanged [some previous]
    tryAcquireFence locks (prior.bind (·.floor)) target
    writeControl (forward key .fenced (some previous) (some previous) target)
    writeSelection (some target)
    let _ ← unchanged [some target]
    writeControl (forward key (if recovering then .recovering else .completed) (some previous) (some previous) target)
    pure target

def rebindBootstrap (key : String) (locks : Locks) : Job UpdateRuntimeSelection := bindReplacement key locks false

def repairTargetPointer (key : String) (locks : Locks) : Job UpdateRuntimeSelection := do
  let control ← transaction key
  .failWhen (control.phase ≠ .completed ∨ ¬control.forwardOnly)
    (conflict "This update has no completed target execution boundary.")
  validated control.target true
  acquireRuntimeWriteBarrier locks
  let again ← transaction key
  .failWhen (again ≠ control) (conflict "The target execution boundary changed before pointer repair.")
  let selected ← unchanged [control.baseline,some control.target]
  if selected ≠ some control.target then
    writeSelection (some control.target)
    pure control.target
  else pure control.target

/-- What `prepare` and `handoffTarget` check of the runtimes that they are given. -/
def admitTarget (prior : Option Control) (target : UpdateRuntimeSelection)
    (baseline previous : Option UpdateRuntimeSelection) : Job Unit := do
  .failWhen (baseline.isSome ∧ previous.isSome ∧ baseline ≠ previous)
    (conflict "The previous runtime differs from the selected runtime.")
  match previous with
  | some previous => do
    let downgrades ← Work.lift (older target.version previous.version)
    .failWhen downgrades (admission "Automatic updates cannot downgrade the selected runtime.")
  | none => pure ()
  match prior.bind (·.floor) with
  | some floor => do
    let below ← Work.lift (older target.version floor.minimumRuntimeVersion)
    .failWhen below (admission "The update is below the durable runtime reader floor.")
  | none => pure ()
  match previous with
  | some previous => do
    let accepted ← Work.lift (accepts (prior.bind (·.floor)) previous.admission)
    .failWhen (¬accepted) (admission "The previous runtime does not satisfy the durable reader floor.")
  | none => pure ()
  validated target true
  match previous with
  | some previous => validated previous false
  | none => pure ()

/-- The runtime before an update: the one given, or else the selected one. -/
def previousOf (given baseline : Option UpdateRuntimeSelection) : Job (Option UpdateRuntimeSelection) :=
  match given with
  | none => pure baseline
  | some given => do
    let given ← Work.lift (decodeUpdateRuntimeSelection given)
    pure (some given)

/-- A handoff whose key is that of the ledger. -/
def resumeHandoff (prior : Control) (target : UpdateRuntimeSelection) (given : Option UpdateRuntimeSelection)
    (locks : Locks) : Job String := do
  .failWhen (prior.phase ≠ .completed ∨ ¬prior.forwardOnly ∨ prior.target ≠ target)
    (conflict "The target execution key belongs to another boundary.")
  let given ← previousOf given none
  .failWhen (given.isSome ∧ prior.previous ≠ given) (conflict "The target execution key belongs to another boundary.")
  let _ ← repairTargetPointer prior.key locks
  pure prior.key

def startHandoff (prior : Option Control) (key : String) (target : UpdateRuntimeSelection)
    (given : Option UpdateRuntimeSelection) (locks : Locks) : Job String := do
  .failWhen (prior.any fun control => !control.phase.settled)
    (conflict "An unfinished update must recover before handing off execution.")
  let baseline ← readSelection
  let previous ← previousOf given baseline
  admitTarget prior target baseline previous
  acquireRuntimeWriteBarrier locks
  let now ← readControl
  .failWhen (now ≠ prior) (conflict "The update reader floor changed before target execution committed.")
  let _ ← unchanged [baseline]
  tryAcquireFence locks (prior.bind (·.floor)) target
  let now ← readControl
  .failWhen (now ≠ prior) (conflict "The target execution boundary was superseded before commit.")
  let _ ← unchanged [baseline]
  -- cut off after this write, the old pointer is repaired by the same handoff
  writeControl (forward key .completed baseline previous target)
  writeSelection (some target)
  pure key

def handoffTarget (key : String) (next : UpdateRuntimeSelection) (given : Option UpdateRuntimeSelection)
    (locks : Locks) : Job String := do
  .failWhen (¬isUUID key) (metadata "Invalid target execution key.")
  let target ← Work.lift (decodeUpdateRuntimeSelection next)
  let prior ← readControl
  match prior.filter fun control => control.key = key with
  | some control => resumeHandoff control target given locks
  | none => startHandoff prior key target given locks

def handoffRuntime : Job (Option UpdateRuntimeSelection) := do
  match ← readControl with
  | none => pure none
  | some control =>
    if control.phase.settled then pure none
    else do
      let _ ← unchanged [control.baseline,some control.target,control.previous]
      let earlier := control.phase = .prepared ∨ control.phase = .recovering ∧ ¬control.forwardOnly
      match if earlier then control.previous else some control.target with
      | none => pure none
      | some selection => do
        let accepted ← Work.lift (accepts control.floor selection.admission)
        .failWhen (¬accepted) (admission "The handoff runtime does not satisfy the durable reader floor.")
        validated selection (!(control.baseline.isNone && earlier))
        pure (some selection)

def prepare (key : String) (next : UpdateRuntimeSelection) (given : Option UpdateRuntimeSelection) : Job String := do
  let target ← Work.lift (decodeUpdateRuntimeSelection next)
  let prior ← readControl
  .failWhen (prior.any fun control => !control.phase.settled)
    (conflict "An unfinished update must recover before preparing another.")
  let baseline ← readSelection
  let previous ← previousOf given baseline
  admitTarget prior target baseline previous
  writeControl ⟨key,.prepared,baseline,previous,target,prior.bind (·.floor),false⟩
  pure key

def begin_ (key : String) : Job Unit := do
  let control ← transaction key
  .failWhen (control.phase ≠ .prepared ∧ control.phase ≠ .begun)
    (conflict "This update cannot begin in its current phase.")
  let _ ← unchanged (if control.phase = .prepared then [control.baseline] else [control.baseline,some control.target])
  validated control.target true
  writeControl {control with phase := .begun}
  writeSelection (some control.target)

def fence (key : String) (locks : Locks) : Job Unit := do
  let control ← transaction key
  .failWhen (control.phase ≠ .begun ∧ control.phase ≠ .fenced)
    (conflict "This update cannot cross its recovery boundary.")
  validated control.target true
  acquireRuntimeWriteBarrier locks
  let again ← transaction key
  .failWhen (again ≠ control) (conflict "The update changed before its reader-floor boundary committed.")
  let _ ← unchanged [control.baseline,some control.target]
  tryAcquireFence locks control.floor control.target
  writeControl {control with phase := .fenced, forwardOnly := true, floor := some control.target.floor}
  writeSelection (some control.target)

def complete (key : String) : Job Unit := do
  let control ← transaction key
  .failWhen (control.phase ≠ .begun ∧ control.phase ≠ .fenced ∧ control.phase ≠ .completed)
    (conflict "This update cannot complete in its current phase.")
  .failWhen (¬control.forwardOnly ∧ control.previous.any fun previous =>
    previous.captureStateContract ≠ control.target.captureStateContract)
    (admission "A capture contract transition requires a durable forward-only boundary.")
  let accepted ← Work.lift (accepts control.floor control.target.admission)
  .failWhen (¬accepted) (admission "The target runtime does not satisfy the durable reader floor.")
  let _ ← unchanged [some control.target]
  validated control.target true
  writeControl {control with phase := .completed}

/-- The runtime that a pending update recovers to, and the pointer that it leaves. -/
def Control.restore (control : Control) : Option UpdateRuntimeSelection :=
  if control.forwardOnly then some control.target else control.previous

def Control.restored (control : Control) : Option UpdateRuntimeSelection :=
  if control.forwardOnly then some control.target else control.baseline

def Control.unselected (control : Control) : Prop :=
  control.forwardOnly = false ∧ control.floor.isSome ∧ control.baseline = none

instance (control : Control) : Decidable control.unselected := inferInstanceAs (Decidable (_ ∧ _))

def recoverSelection (key : String) (locks : Locks) : Job (Option UpdateRuntimeSelection) := do
  match (← readControl).filter fun control => !control.phase.settled with
  | none => do
    match ← readSelection with
    | none => pure none
    | some selected => do
      let changed ← Work.read fun home => .ok (bootstrapChanged home.disk selected)
      if changed then do
        let target ← bindReplacement key locks true
        pure (some target)
      else pure (some selected)
  | some control => do
    let _ ← unchanged [control.baseline,some control.target,control.previous]
    .failWhen control.unselected (admission "A fenced installation cannot recover to an unselected bootstrap.")
    match control.restore with
    | some restore => do
      let accepted ← Work.lift (accepts control.floor restore.admission)
      .failWhen (¬accepted) (admission "The recovery runtime does not satisfy the durable reader floor.")
      validated restore control.forwardOnly
    | none =>
      .failWhen control.floor.isSome (admission "A fenced installation cannot recover to an unselected bootstrap.")
    writeSelection control.restored
    writeControl {control with phase := .recovering}
    pure control.restore

def completeRecovery : Job Unit := do
  match (← readControl).filter fun control => control.phase ≠ .recovered with
  | none => pure ()
  | some control => do
    .failWhen (control.phase ≠ .recovering) (conflict "Runtime recovery has not selected a generation.")
    let _ ← unchanged [control.restored]
    .failWhen control.unselected (admission "A fenced installation cannot recover to an unselected bootstrap.")
    match control.restore with
    | some restore => do
      let accepted ← Work.lift (accepts control.floor restore.admission)
      .failWhen (¬accepted) (admission "The recovered runtime does not satisfy the durable reader floor.")
      validated restore control.forwardOnly
    | none => pure ()
    writeControl {control with phase := .recovered}

end ATape.Update
