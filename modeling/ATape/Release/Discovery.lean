import ATape.Foundation.Shared
import ATape.Foundation.Table
import ATape.Release.Catalogs

/-! Release discovery: the calls of a client over the files of its home directory. The
server, the clock, the file system and the signal of the caller answer as they like. -/
namespace ATape.Release
open Foundation Node

inductive Namespace
  | legacy
  | migration
  | target
deriving DecidableEq

def ManagedReleaseBundle.namespace_ : ManagedReleaseBundle → Namespace
  | .legacy _ => .legacy
  | .migration _ => .migration
  | .target _ => .target

structure Cached (γ : Type) where
  checkedAt : Nat
  catalog : γ

structure Home where
  catalog : Option (Cached ReleaseCatalog)
  migrationCatalog : Option (Cached MigrationReleaseCatalog)
  targetCatalog : Option (Cached TargetReleaseCatalog)
  migrationAdopted : Bool
  targetAdopted : Bool
  receipts : Table (Namespace × String) ManagedReleaseBundle

structure Options where
  captureStateContract : String
  runtimeVersion : String
  updateControlProtocol : String
  updateTargetProtocol : Option String
  supportedMigrationPlans : Option (List (String × String))
deriving DecidableEq

def Options.compatibility (o : Options) : Compatibility :=
  ⟨o.captureStateContract,o.updateControlProtocol,o.supportedMigrationPlans.getD [],o.updateTargetProtocol.getD ""⟩

/-! What is answered from outside. -/

/-- A request for metadata with its retries: a value of the shape asked for, another
value, or an error. -/
inductive Reply (α : Type)
  | value (value : α)
  | other
  | missing
  | unavailable (message : String)
  | unusable (message : String)
  | aborted

inductive Written
  | written
  | failed
  | unconfirmed

structure RuntimeCapability where
  protocol : String
  stateContract : String
  updateControlProtocol : Option String

structure NpmPackage where
  name : String
  version : String
  integrity : String
  tarball : String
  atapeRuntime : Option RuntimeCapability

inductive Query
  | aborted
  | clock
  | readable
  | order
  | write
  | catalog
  | migrationCatalog
  | targetCatalog
  | bundle (version : String)
  | migrationBundle (version : String)
  | targetBundle (version : String)
  | npm (name version : String)
deriving DecidableEq

abbrev Query.Answer : Query → Type
  | aborted => Bool
  | clock => Nat
  | readable => Bool
  | order => Bool
  | write => Written
  | catalog => Reply ReleaseCatalog
  | migrationCatalog => Reply MigrationReleaseCatalog
  | targetCatalog => Reply TargetReleaseCatalog
  | bundle _ => Reply ReleaseBundle
  | migrationBundle _ => Reply MigrationReleaseBundle
  | targetBundle _ => Reply TargetReleaseBundle
  | npm _ _ => Reply NpmPackage

abbrev Job (α : Type) := Call Home Query.Answer Failure α

def isAborted : Job Bool := Call.query Query.aborted

def dateNow : Job Nat := Call.query Query.clock

def isReadable : Job Bool := Call.query Query.readable

def isFirst : Job Bool := Call.query Query.order

def isWritten : Job Written := Call.query Query.write

def Failure.isTransport : Failure → Bool
  | .discovery .transport _ => true
  | .missing => true
  | _ => false

def metadataError (message : String) : Failure := .discovery .metadata message

def integrityError (message : String) : Failure := .discovery .integrity message

def invalidState : Failure := .discovery .state "Saved release discovery state is invalid."

def throwIfAborted : Job Unit := do
  if ← isAborted then Call.fail .aborted

def metadata {α : Type} (request : Job (Reply α)) (fits : α → Bool) : Job α := do
  match ← request with
  | .value value => Call.lift (decode fits value)
  | .other => Call.fail .malformed
  | .missing => Call.fail .missing
  | .unavailable message => Call.fail (.discovery .transport message)
  | .unusable message => Call.fail (metadataError message)
  | .aborted => Call.fail .aborted

/-- The content of a file that may be absent. A file that cannot be read or whose content
does not pass its check is an error. -/
def optional {α : Type} (file : Home → Option α) (check : α → Job Bool) : Job (Option α) := do
  if ← isReadable then
    match ← Call.look file with
    | none => pure none
    | some value => if ← check value then pure (some value) else Call.fail invalidState
  else Call.fail invalidState

/-- A write that is atomic; it may be there although it was not confirmed. -/
def atomicJSON (f : Home → Home) : Job Unit := do
  match ← isWritten with
  | .written => Call.put f
  | .failed => Call.fail .storage
  | .unconfirmed => do
    Call.put f
    Call.fail .storage

def timely {γ : Type} (fits : γ → Bool) (cached : Cached γ) : Job Bool := do
  let now ← dateNow
  pure (fits cached.catalog && cached.checkedAt ≤ now)

def cachedCatalog : Job (Option (Cached ReleaseCatalog)) := optional (·.catalog) (timely ReleaseCatalog.fits)

def receipt (version : String) (place : Namespace) : Job (Option ManagedReleaseBundle) :=
  optional (·.receipts.lookup (place,version)) fun bundle =>
    pure (bundle.namespace_ = place && bundle.fits && bundle.version = version)

def locked {α : Type} (run : Job α) : Job α := do
  throwIfAborted
  Call.locked (.discovery .state "Release discovery state is busy.") do
    throwIfAborted
    run

def assertNamespace (bundle : ManagedReleaseBundle) (place : Namespace) : Job Unit := do
  match ← receipt bundle.version place with
  | some other =>
    Call.failWhen (releaseBundleFingerprint other.base ≠ releaseBundleFingerprint bundle.base) (integrityError
      "A known release version changed its immutable package bytes across catalog protocols.")
  | none => pure ()

def each {α : Type} (f : α → Job Unit) : List α → Job Unit
  | [] => pure ()
  | value::values => do
    f value
    each f values

def assertKnownBundle (bundle : ManagedReleaseBundle) : Job (Option ManagedReleaseBundle) := do
  let saved ← receipt bundle.version bundle.namespace_
  Call.failWhen (saved.any fun saved => managedReleaseBundleFingerprint saved ≠ managedReleaseBundleFingerprint bundle)
    (integrityError "A known release version changed its immutable bundle.")
  each (assertNamespace bundle) ([Namespace.legacy,.migration,.target].filter (· ≠ bundle.namespace_))
  pure saved

/-- Whether there is a marker, which is a file of one known content. -/
def marker (file : Home → Bool) : Job Bool := do
  let found ← optional (fun home => if file home then some () else none) fun _ => pure true
  pure found.isSome

def migrationMarker : Job Bool := marker Home.migrationAdopted

def targetMarker : Job Bool := marker Home.targetAdopted

def Home.markMigration (home : Home) : Home := {home with migrationAdopted := true}

def Home.markTarget (home : Home) : Home := {home with targetAdopted := true}

def Home.record (bundle : ManagedReleaseBundle) (home : Home) : Home :=
  {home with receipts := home.receipts.insert (bundle.namespace_,bundle.version) bundle}

def adopt (bundle : ManagedReleaseBundle) : Job Unit := do
  match bundle.namespace_ with
  | .target => if ← targetMarker then pure () else atomicJSON Home.markTarget
  | .migration => if ← migrationMarker then pure () else atomicJSON Home.markMigration
  | .legacy => pure ()

def recordNew (bundle : ManagedReleaseBundle) (saved : Option ManagedReleaseBundle) : Job Unit :=
  if saved.isSome then pure () else atomicJSON (Home.record bundle)

def remember (bundle : ManagedReleaseBundle) : Job ManagedReleaseBundle := do
  let saved ← assertKnownBundle bundle
  adopt bundle
  recordNew bundle saved
  pure bundle

def captureCompatible (o : Options) : ManagedReleaseBundle → Bool
  | .target b => o.updateTargetProtocol = some b.updateTargetProtocol &&
    b.fromCaptureStateContracts.contains o.captureStateContract
  | .migration b => match o.supportedMigrationPlans with
    | some plans => b.migration.fromCaptureStateContracts.contains o.captureStateContract &&
      plans.any fun plan => plan.1 = b.migration.protocol && plan.2 = b.migration.id
    | none => false
  | .legacy b => b.captureStateContract = o.captureStateContract

def compatible (o : Options) (value : ManagedReleaseBundle) : Except Failure ManagedReleaseBundle := do
  let bundle ← decode ManagedReleaseBundle.fits value
  if !captureCompatible o bundle || bundle.base.updateControlProtocol ≠ o.updateControlProtocol then
    .error (metadataError "The release does not support this capture/control pair.")
  else pure bundle

inductive Freshness
  | fresh
  | stale
deriving DecidableEq

structure DiscoveredRelease where
  bundle : ManagedReleaseBundle
  freshness : Freshness
deriving DecidableEq

def fromCache (o : Options) (bundle : Except Failure ManagedReleaseBundle) (freshness : Freshness) :
    Job DiscoveredRelease := do
  let bundle ← Call.lift bundle
  locked do
    let known ← Call.lift (compatible o bundle)
    let bundle ← remember known
    pure ⟨bundle,freshness⟩

def cacheLifetime : Nat := 12*60*60*1000

def lasting {γ : Type} (cached : Bool) (saved : Option (Cached γ)) : Job (Option γ) := do
  match cached,saved with
  | true,some saved => do
    let now ← dateNow
    pure (if now-saved.checkedAt < cacheLifetime then some saved.catalog else none)
  | _,_ => pure none

/-! The legacy catalog. -/

variable (collate : String → String → Bool)

def canonicalCatalog (c : ReleaseCatalog) : String :=
  stringify (.obj [("protocol",.str "atape.update-catalog.v1"),("revision",.int c.revision),
    ("bundles",.arr ((c.bundles.insertionSort fun a b => collate a.pair b.pair).map fun b =>
      .str (releaseBundleFingerprint b)))])

def legacyAdvances (previous : ReleaseCatalog) (catalog : ReleaseCatalog) : Bool :=
  previous.bundles.all fun before => match catalog.bundles.find? fun item => item.pair = before.pair with
    | some after => compareVersion after.version before.version ≠ .lt &&
      !(after.version = before.version && releaseBundleFingerprint after ≠ releaseBundleFingerprint before)
    | none => false

def assertLegacy (previous : Option (Cached ReleaseCatalog)) (catalog : ReleaseCatalog) : Job Unit := do
  match previous with
  | none => pure ()
  | some previous => do
    Call.failWhen (catalog.revision < previous.catalog.revision ∨ catalog.revision = previous.catalog.revision ∧
        canonicalCatalog collate catalog ≠ canonicalCatalog collate previous.catalog)
      (integrityError "The release catalog regressed or rewrote its revision.")
    Call.failWhen (legacyAdvances previous.catalog catalog = false)
      (integrityError "The release catalog removed or rewrote a known family target.")

def Home.saveCatalog (cached : Cached ReleaseCatalog) (home : Home) : Home := {home with catalog := some cached}

def selectLegacy (o : Options) (catalog : ReleaseCatalog) : Except Failure ManagedReleaseBundle := do
  let selected ← selectReleaseBundle catalog o.captureStateContract o.updateControlProtocol
  pure (.legacy selected)

def acceptLegacy (catalog : ReleaseCatalog) (selected : ManagedReleaseBundle) : Job DiscoveredRelease :=
  locked do
    let previous ← cachedCatalog
    assertLegacy collate previous catalog
    -- The complete catalog is rejected before any receipt is added.
    each (fun bundle => do let _ ← assertKnownBundle (.legacy bundle)) catalog.bundles
    each (fun bundle => do let _ ← remember (.legacy bundle)) catalog.bundles
    let now ← dateNow
    atomicJSON (Home.saveCatalog ⟨now,catalog⟩)
    pure ⟨selected,.fresh⟩

def latestLegacy (o : Options) (cached : Bool) : Job DiscoveredRelease := do
  throwIfAborted
  let saved ← cachedCatalog
  match ← lasting cached saved with
  | some catalog => fromCache o (selectLegacy o catalog) .fresh
  | none =>
    match ← Call.attempt (metadata (Call.query Query.catalog) ReleaseCatalog.fits) with
    | .error cause => do
      let aborted ← isAborted
      match saved with
      | some saved =>
        if !aborted && cached && cause.isTransport then fromCache o (selectLegacy o saved.catalog) .stale
        else Call.fail cause
      | none => Call.fail cause
    | .ok catalog => do
      let bundle ← Call.lift (selectLegacy o catalog)
      let selected ← Call.lift (compatible o bundle)
      acceptLegacy collate catalog selected

/-! Catalogs with routes. -/

/-- Where a family of catalogs is kept and how it is asked for. -/
structure Channel (β ρ : Type) where
  family : Family β ρ
  wrap : β → ManagedReleaseBundle
  select : Options → Catalog β ρ → Except Failure β
  request : Job (Reply (Catalog β ρ))
  saved : Home → Option (Cached (Catalog β ρ))
  save : Cached (Catalog β ρ) → Home → Home
  adopted : Home → Bool
  adoption : Job Unit
  protocol : String
  routeJson : ρ → Json
  regressed : String
  removed : String
  late : String

section Channels
variable {β ρ : Type} (C : Channel β ρ)

def cachedRoutes : Job (Option (Cached (Catalog β ρ))) := optional C.saved (timely C.family.fitsCatalog)

/-- The two files are read at the same time, either of them first. -/
def adoptedRoutes : Job Bool := do
  if ← isFirst then
    let marked ← marker C.adopted
    let catalog ← cachedRoutes C
    pure (marked || catalog.isSome)
  else
    let catalog ← cachedRoutes C
    let marked ← marker C.adopted
    pure (marked || catalog.isSome)

def canonicalRoutes (c : Catalog β ρ) : String :=
  stringify (.obj [("protocol",.str C.protocol),("revision",.int c.revision),
    ("bundles",.arr ((c.bundles.insertionSort fun a b =>
      compareVersion (C.family.version a) (C.family.version b) ≠ .gt).map fun b => .str (C.family.fingerprint b))),
    ("routes",.arr ((c.routes.insertionSort fun a b => collate (C.family.routeKey a) (C.family.routeKey b)).map
      C.routeJson))])

def routesAdvance (previous : Catalog β ρ) (catalog : Catalog β ρ) : Bool :=
  previous.routes.all fun before =>
    match catalog.routes.find? fun item => C.family.routeKey item = C.family.routeKey before with
    | some after => compareVersion (C.family.routeVersion after) (C.family.routeVersion before) ≠ .lt
    | none => false

def assertRoutes (previous : Option (Cached (Catalog β ρ))) (catalog : Catalog β ρ) : Job Unit := do
  match previous with
  | none => pure ()
  | some previous => do
    Call.failWhen (catalog.revision < previous.catalog.revision ∨ catalog.revision = previous.catalog.revision ∧
        canonicalRoutes collate C catalog ≠ canonicalRoutes collate C previous.catalog) (integrityError C.regressed)
    Call.failWhen (routesAdvance C previous.catalog catalog = false) (integrityError C.removed)

def selectRoutes (o : Options) (catalog : Catalog β ρ) : Except Failure ManagedReleaseBundle := do
  let selected ← C.select o catalog
  pure (C.wrap selected)

def acceptRoutes (catalog : Catalog β ρ) (selected : ManagedReleaseBundle) : Job DiscoveredRelease :=
  locked do
    let previous ← cachedRoutes C
    assertRoutes collate C previous catalog
    -- Receipts include every advertised bundle, also of routes that are not known here.
    each (fun bundle => do let _ ← assertKnownBundle (C.wrap bundle)) catalog.bundles
    C.adoption
    each (fun bundle => do let _ ← remember (C.wrap bundle)) catalog.bundles
    let now ← dateNow
    atomicJSON (C.save ⟨now,catalog⟩)
    pure ⟨selected,.fresh⟩

def latestRoutes (o : Options) (cached : Bool) (fallback : Job DiscoveredRelease) : Job DiscoveredRelease := do
  throwIfAborted
  let saved ← cachedRoutes C
  let adopted ← adoptedRoutes C
  match ← lasting cached saved with
  | some catalog => fromCache o (selectRoutes C o catalog) .fresh
  | none =>
    match ← Call.attempt (metadata C.request C.family.fitsCatalog) with
    | .error cause => do
      if ← isAborted then Call.fail cause
      else if !adopted && cause = .missing then do
        let fallback ← fallback
        locked do
          if ← adoptedRoutes C then Call.fail (integrityError C.late) else pure fallback
      else match saved with
        | some saved =>
          if cached && cause.isTransport then fromCache o (selectRoutes C o saved.catalog) .stale else Call.fail cause
        | none => Call.fail cause
    | .ok catalog => do
      let bundle ← Call.lift (selectRoutes C o catalog)
      let selected ← Call.lift (compatible o bundle)
      acceptRoutes collate C catalog selected

end Channels

def migrationChannel : Channel MigrationReleaseBundle MigrationReleaseRoute where
  family := migrationFamily
  wrap := .migration
  select o catalog := selectMigrationReleaseBundle catalog o.compatibility
  request := Call.query Query.migrationCatalog
  saved home := home.migrationCatalog
  save cached home := {home with migrationCatalog := some cached}
  adopted home := home.migrationAdopted
  adoption := atomicJSON Home.markMigration
  protocol := "atape.update-catalog.v2"
  routeJson r := .obj [("fromCaptureStateContract",.str r.fromCaptureStateContract),
    ("updateControlProtocol",.str r.updateControlProtocol),("migrationProtocol",.str r.migrationProtocol),
    ("migrationId",.str r.migrationId),("version",.str r.version)]
  regressed := "The migration catalog regressed or rewrote its revision."
  removed := "The migration catalog removed or regressed a known route."
  late := "The migration catalog was adopted while a legacy fallback was in flight."

/-- The marker of a target catalog is written with the first of its receipts. -/
def targetChannel : Channel TargetReleaseBundle TargetReleaseRoute where
  family := targetFamily
  wrap := .target
  select o catalog := selectTargetReleaseBundle catalog o.compatibility
  request := Call.query Query.targetCatalog
  saved home := home.targetCatalog
  save cached home := {home with targetCatalog := some cached}
  adopted home := home.targetAdopted
  adoption := pure ()
  protocol := "atape.update-catalog.v3"
  routeJson r := .obj [("fromCaptureStateContract",.str r.fromCaptureStateContract),
    ("updateControlProtocol",.str r.updateControlProtocol),("updateTargetProtocol",.str r.updateTargetProtocol),
    ("version",.str r.version)]
  regressed := "The target catalog regressed or rewrote its revision."
  removed := "The target catalog removed or regressed a known route."
  late := "The target catalog was adopted while a legacy fallback was in flight."

def latestMigration (o : Options) (cached : Bool) : Job DiscoveredRelease :=
  latestRoutes collate migrationChannel o cached (latestLegacy collate o cached)

def latestTarget (o : Options) (cached : Bool) : Job DiscoveredRelease :=
  latestRoutes collate targetChannel o cached
    (if o.supportedMigrationPlans.isNone then latestLegacy collate o cached else latestMigration collate o cached)

def latest (o : Options) (cached : Bool) : Job DiscoveredRelease :=
  if o.updateTargetProtocol.isSome then latestTarget collate o cached
  else if o.supportedMigrationPlans.isNone then latestLegacy collate o cached
  else latestMigration collate o cached

/-! One version. -/

def adoptedMigration : Job Bool := adoptedRoutes migrationChannel

def adoptedTarget : Job Bool := adoptedRoutes targetChannel

def descriptor {α : Type} (request : Job (Reply α)) (fits : α → Bool) (wrap : α → ManagedReleaseBundle)
    (version message : String) : Job ManagedReleaseBundle := do
  let bundle ← metadata request fits
  Call.failWhen ((wrap bundle).version ≠ version) (metadataError message)
  pure (wrap bundle)

def legacyRelease (version : String) : Job ManagedReleaseBundle :=
  descriptor (Call.query (Query.bundle version)) ReleaseBundle.fits .legacy version
    "The static descriptor has a different version."

def migrationRelease (o : Options) (version : String) : Job ManagedReleaseBundle := do
  if o.supportedMigrationPlans.isSome then
    match ← Call.attempt (descriptor (Call.query (Query.migrationBundle version)) MigrationReleaseBundle.fits .migration
      version "The static descriptor has a different version.") with
    | .ok bundle => pure bundle
    | .error cause => do
      -- The caller stays aborted, so that a call that finds it so rejects.
      if ← isAborted then Call.fail .aborted
      else if cause ≠ .missing then Call.fail cause
      else legacyRelease version
  else legacyRelease version

def versionRelease (o : Options) (version : String) : Job ManagedReleaseBundle := do
  if o.updateTargetProtocol.isSome then
    match ← Call.attempt (descriptor (Call.query (Query.targetBundle version)) TargetReleaseBundle.fits .target version
      "The static target descriptor has a different version.") with
    | .ok bundle => pure bundle
    | .error cause => do
      if ← isAborted then Call.fail .aborted
      else if cause ≠ .missing then Call.fail cause
      else if ← adoptedTarget then
        Call.fail (metadataError "An adopted target catalog no longer has this immutable target descriptor.")
      else migrationRelease o version
  else migrationRelease o version

def runtimeSupports (o : Options) (capability : Option RuntimeCapability) : Bool :=
  match capability with
  | some runtime => runtime.protocol = "atape.runtime.v1" && runtime.stateContract = o.captureStateContract &&
    runtime.updateControlProtocol = some o.updateControlProtocol
  | none => false

def npmPackage (o : Options) (version name : String) : Job ReleasePackage := do
  let value ← metadata (Call.query (Query.npm name version)) fun _ => true
  Call.failWhen (value.name ≠ name ∨ value.version ≠ version)
    (metadataError "An exact npm package has a different identity.")
  Call.failWhen (name = "@atape/cli" ∧ runtimeSupports o value.atapeRuntime = false)
    (metadataError "The running-version npm package has incompatible runtime capabilities.")
  pure ⟨name,value.integrity,value.tarball⟩

def npmPackages (o : Options) (version : String) : List String → Job (List ReleasePackage)
  | [] => pure []
  | name::names => do
    let first ← npmPackage o version name
    let others ← npmPackages o version names
    pure (first::others)

def deriveRunningBundle (o : Options) (version : String) : Job ManagedReleaseBundle := do
  let packages ← npmPackages o version releasePackageNames
  let bundle ← Call.lift (decodeReleaseBundle ⟨version,o.captureStateContract,o.updateControlProtocol,packages⟩)
  pure (.legacy bundle)

def repair (o : Options) (bundle : ManagedReleaseBundle) : Job ManagedReleaseBundle :=
  locked do
    let known ← Call.lift (compatible o bundle)
    remember known

/-- A bundle of a newer kind that is not the running version, and not known, is advertised. -/
def assertAdvertised (o : Options) (version : String) (selected : ManagedReleaseBundle) : Job Unit := do
  if selected.namespace_ ≠ .legacy ∧ version ≠ o.runtimeVersion then
    match ← receipt version selected.namespace_ with
    | some _ => pure ()
    | none => do
      let advertised ← latest collate o false
      Call.failWhen (advertised.bundle.namespace_ ≠ selected.namespace_ ∨
          managedReleaseBundleFingerprint advertised.bundle ≠ managedReleaseBundleFingerprint selected)
        (metadataError (if selected.namespace_ = .target then
          "The requested target version is not an advertised compatible release."
          else "The requested migration version is not an advertised compatible release."))

/-- A version that is known as a newer kind of bundle stays one. -/
def assertProtocol (supported : Bool) (place : Namespace) (version message : String)
    (selected : ManagedReleaseBundle) : Job Unit := do
  if supported && selected.namespace_ ≠ place then
    let known ← receipt version place
    Call.failWhen (known.isSome = true) (integrityError message)

def establish (o : Options) (version : String) (bundle : ManagedReleaseBundle) : Job ManagedReleaseBundle := do
  let selected ← Call.lift (compatible o bundle)
  assertAdvertised collate o version selected
  locked do
    assertProtocol o.updateTargetProtocol.isSome .target version
      "A known target release changed its immutable descriptor protocol." selected
    assertProtocol o.supportedMigrationPlans.isSome .migration version
      "A known migration release changed its immutable descriptor protocol." selected
    remember selected

/-- The version from its descriptor, or from npm when it is the running one. -/
def described (o : Options) (version : String) (saved : Option ManagedReleaseBundle) : Job ManagedReleaseBundle := do
  match ← Call.attempt (versionRelease o version) with
  | .ok bundle => establish collate o version bundle
  | .error cause => do
    if ← isAborted then Call.fail cause
    else if cause = .missing then
      if version ≠ o.runtimeVersion then
        Call.fail (metadataError "The requested release has no immutable public descriptor.")
      else do
        let bundle ← deriveRunningBundle o version
        establish collate o version bundle
    else match saved with
      | some saved => if cause.isTransport then Call.lift (compatible o saved) else Call.fail cause
      | none => Call.fail cause

def targetReceipt (o : Options) (version : String) : Job (Option ManagedReleaseBundle) :=
  if o.updateTargetProtocol.isSome then do
    let _ ← adoptedTarget
    receipt version .target
  else pure none

def migrationReceipt (o : Options) (version : String) : Job (Option ManagedReleaseBundle) :=
  if o.supportedMigrationPlans.isSome then do
    let _ ← adoptedMigration
    receipt version .migration
  else pure none

def exactAdvertised (o : Options) (version : String) : Job ManagedReleaseBundle := do
  let advertised ← latest collate o false
  Call.failWhen (advertised.bundle.version ≠ version)
    (metadataError "The requested version is not an advertised compatible release.")
  repair o advertised.bundle

def exact (o : Options) (version : String) : Job ManagedReleaseBundle := do
  throwIfAborted
  if stableVersion version = false then
    Call.fail (metadataError "An exact release requires a stable version.")
  else match ← targetReceipt o version with
    | some saved => repair o saved
    | none => match ← migrationReceipt o version with
      -- A receipt is enough to prepare or repair a release.
      | some saved => repair o saved
      | none => match ← receipt version .legacy with
        | some saved =>
          if o.supportedMigrationPlans.isNone then repair o saved else described collate o version (some saved)
        | none =>
          if version ≠ o.runtimeVersion then exactAdvertised collate o version else described collate o version none

end ATape.Release
