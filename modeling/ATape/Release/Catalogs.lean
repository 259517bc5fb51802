import ATape.Release.Bundles

/-! Release catalogs. The legacy catalog has one bundle for each capture/control pair.
Those for migrations and for targets have routes: for each source contract and way to
leave it the version that it leads to. They differ in their bundles and routes only, so
that both are catalogs of a family. -/
namespace ATape.Release
open Foundation Node

/-! Versions. -/

def versionParts (value : String) : Nat × Nat × Nat := (Update.numerals value).getD (0,0,0)

def compareVersion (left right : String) : Ordering :=
  if Update.before (versionParts left) (versionParts right) then .lt
  else if Update.before (versionParts right) (versionParts left) then .gt
  else .eq

def rank (value : String) : Nat ×ₗ Nat ×ₗ Nat :=
  toLex ((versionParts value).1,toLex ((versionParts value).2.1,(versionParts value).2.2))

theorem before_rank (left right : String) :
    Update.before (versionParts left) (versionParts right) ↔ rank left < rank right := by
  simp [Update.before,rank,Prod.Lex.toLex_lt_toLex]

theorem compareVersion_gt (left right : String) : compareVersion left right = .gt ↔ rank right < rank left := by
  unfold compareVersion
  split
  next below =>
    have ranked := (before_rank left right).mp below
    simp [ranked.le]
  next =>
    split
    next above => simp [(before_rank right left).mp above]
    next level => simp [mt (before_rank right left).mpr level]

theorem compareVersion_lt (left right : String) : compareVersion left right = .lt ↔ rank left < rank right := by
  unfold compareVersion
  split
  next below => simp [(before_rank left right).mp below]
  next level => split <;> simp [mt (before_rank left right).mpr level]

/-! The legacy catalog. -/

def maxSafeInteger : Nat := Update.maxSafeInteger

structure ReleaseCatalog where
  revision : Nat
  bundles : List ReleaseBundle
deriving DecidableEq

def pair (captureStateContract updateControlProtocol : String) : String :=
  stringify (.arr [.str captureStateContract,.str updateControlProtocol])

def ReleaseBundle.pair (b : ReleaseBundle) : String := Release.pair b.captureStateContract b.updateControlProtocol

def revisionFits (revision : Nat) : Bool := 0 < revision && revision ≤ maxSafeInteger

def ReleaseCatalog.fits (c : ReleaseCatalog) : Bool :=
  revisionFits c.revision && c.bundles.length ≤ 64 && c.bundles.all ReleaseBundle.fits &&
    decide (c.bundles.map ReleaseBundle.pair).Nodup && decide (c.bundles.map ReleaseBundle.version).Nodup

def decodeReleaseCatalog : ReleaseCatalog → Except Failure ReleaseCatalog := decode ReleaseCatalog.fits

def selectReleaseBundle (value : ReleaseCatalog) (captureStateContract updateControlProtocol : String) :
    Except Failure ReleaseBundle := do
  let catalog ← decodeReleaseCatalog value
  match catalog.bundles.find? fun b => b.pair = pair captureStateContract updateControlProtocol with
  | some selected => pure selected
  | none => .error (.thrown "The release catalog does not support this capture/control pair.")

/-! Catalogs with routes. -/

/-- A kind of bundles and the routes to them. -/
structure Family (β ρ : Type) where
  fits : β → Bool
  version : β → String
  fingerprint : β → String
  contracts : β → List String
  route : β → String → ρ
  routeFits : ρ → Bool
  routeKey : ρ → String
  routeVersion : ρ → String
  carries : β → ρ → Bool
  immutable : String
  exhausted : String

structure Catalog (β ρ : Type) where
  revision : Nat
  bundles : List β
  routes : List ρ
deriving DecidableEq

namespace Family
variable {β ρ : Type} (F : Family β ρ)

def fitsCatalog (c : Catalog β ρ) : Bool :=
  revisionFits c.revision && c.bundles.length ≤ 64 && c.bundles.all F.fits && c.routes.length ≤ 256 &&
    c.routes.all F.routeFits && decide (c.bundles.map F.version).Nodup && decide (c.routes.map F.routeKey).Nodup &&
    c.routes.all (fun r => match c.bundles.find? fun b => F.version b = F.routeVersion r with
      | some b => F.carries b r
      | none => false) &&
    c.bundles.all fun b => c.routes.any fun r => F.routeVersion r = F.version b

def decodeCatalog : Catalog β ρ → Except Failure (Catalog β ρ) := decode F.fitsCatalog

/-- The routes with one more, and whether that changed them: it is added at the end where
there is none with its key, and takes the place of one with an older version. -/
def advance (route : ρ) : List ρ → List ρ × Bool
  | [] => ([route],true)
  | item::items =>
    if F.routeKey item = F.routeKey route then
      if compareVersion (F.routeVersion route) (F.routeVersion item) = .gt then (route::items,true) else (item::items,false)
    else (item::(advance route items).1,(advance route items).2)

/-- The loop over the contracts of a bundle. -/
def advanceAll (bundle : β) : List String → List ρ × Bool → List ρ × Bool
  | [],state => state
  | contract::contracts,(routes,changed) =>
    let (routes,moved) := F.advance (F.route bundle contract) routes
    advanceAll bundle contracts (routes,changed || moved)

def conflicts (bundles : List β) (bundle : β) : Bool :=
  match bundles.find? fun item => F.version item = F.version bundle with
  | some existing => F.fingerprint existing ≠ F.fingerprint bundle
  | none => false

def retained (bundles : List β) (bundle : β) (routes : List ρ) : List β :=
  (bundles.filter (fun item => F.version item ≠ F.version bundle)++[bundle]).filter fun item =>
    routes.any fun r => F.routeVersion r = F.version item

def before : Option (Catalog β ρ) → Except Failure (Catalog β ρ)
  | some previous => F.decodeCatalog previous
  | none => pure ⟨0,[],[]⟩

def merge (previous : Option (Catalog β ρ)) (value : β) : Except Failure (Catalog β ρ) := do
  let bundle ← decode F.fits value
  let catalog ← F.before previous
  if F.conflicts catalog.bundles bundle then .error (.thrown F.immutable) else
  let (routes,changed) := F.advanceAll bundle (F.contracts bundle) (catalog.routes,false)
  if changed = false then F.decodeCatalog catalog else
  if catalog.revision = maxSafeInteger then .error (.thrown F.exhausted) else
  F.decodeCatalog ⟨catalog.revision+1,F.retained catalog.bundles bundle routes,routes⟩

end Family

structure MigrationReleaseRoute where
  fromCaptureStateContract : String
  updateControlProtocol : String
  migrationProtocol : String
  migrationId : String
  version : String
deriving DecidableEq

def routeKey (r : MigrationReleaseRoute) : String :=
  stringify (.arr [.str r.fromCaptureStateContract,.str r.updateControlProtocol,.str r.migrationProtocol,
    .str r.migrationId])

def migrationFamily : Family MigrationReleaseBundle MigrationReleaseRoute where
  fits := MigrationReleaseBundle.fits
  version b := b.version
  fingerprint := migrationReleaseBundleFingerprint
  contracts b := b.migration.fromCaptureStateContracts
  route b contract := ⟨contract,b.updateControlProtocol,b.migration.protocol,b.migration.id,b.version⟩
  routeFits r := isOpaqueProtocol r.fromCaptureStateContract && isOpaqueProtocol r.updateControlProtocol &&
    isOpaqueProtocol r.migrationProtocol && isOpaqueProtocol r.migrationId && stableVersion r.version
  routeKey := routeKey
  routeVersion r := r.version
  carries b r := b.updateControlProtocol = r.updateControlProtocol && b.migration.protocol = r.migrationProtocol &&
    b.migration.id = r.migrationId && b.migration.fromCaptureStateContracts.contains r.fromCaptureStateContract
  immutable := "A release version cannot change its immutable migration bundle."
  exhausted := "Migration catalog revision exhausted."

abbrev MigrationReleaseCatalog := Catalog MigrationReleaseBundle MigrationReleaseRoute

def decodeMigrationReleaseCatalog : MigrationReleaseCatalog → Except Failure MigrationReleaseCatalog :=
  migrationFamily.decodeCatalog

def mergeMigrationReleaseBundle : Option MigrationReleaseCatalog → MigrationReleaseBundle →
    Except Failure MigrationReleaseCatalog := migrationFamily.merge

/-- What a client is able to follow. -/
structure Compatibility where
  captureStateContract : String
  updateControlProtocol : String
  supportedMigrationPlans : List (String × String)
  updateTargetProtocol : String
deriving DecidableEq

/-- The newest of the routes that a client can follow. -/
def selectMigrationReleaseBundle (value : MigrationReleaseCatalog) (compatibility : Compatibility) :
    Except Failure MigrationReleaseBundle := do
  let catalog ← decodeMigrationReleaseCatalog value
  let routes := catalog.routes.filter fun r =>
    r.fromCaptureStateContract = compatibility.captureStateContract &&
      r.updateControlProtocol = compatibility.updateControlProtocol &&
        compatibility.supportedMigrationPlans.any fun plan =>
          plan.1 = r.migrationProtocol && plan.2 = r.migrationId
  match routes.insertionSort fun a b => compareVersion b.version a.version ≠ .gt with
  | [] => .error (.thrown "The migration catalog does not support this capture/control/known-plan combination.")
  | selected::_ => match catalog.bundles.find? fun b => b.version = selected.version with
    | some bundle => pure bundle
    | none => .error .malformed

structure TargetReleaseRoute where
  fromCaptureStateContract : String
  updateControlProtocol : String
  updateTargetProtocol : String
  version : String
deriving DecidableEq

def targetRouteKey (r : TargetReleaseRoute) : String :=
  stringify (.arr [.str r.fromCaptureStateContract,.str r.updateControlProtocol,.str r.updateTargetProtocol])

def targetFamily : Family TargetReleaseBundle TargetReleaseRoute where
  fits := TargetReleaseBundle.fits
  version b := b.version
  fingerprint := targetReleaseBundleFingerprint
  contracts b := b.fromCaptureStateContracts
  route b contract := ⟨contract,b.updateControlProtocol,b.updateTargetProtocol,b.version⟩
  routeFits r := isOpaqueProtocol r.fromCaptureStateContract && isOpaqueProtocol r.updateControlProtocol &&
    r.updateTargetProtocol = updateTargetProtocol && stableVersion r.version
  routeKey := targetRouteKey
  routeVersion r := r.version
  carries b r := b.updateControlProtocol = r.updateControlProtocol &&
    b.updateTargetProtocol = r.updateTargetProtocol && b.fromCaptureStateContracts.contains r.fromCaptureStateContract
  immutable := "A release version cannot change its immutable target bundle."
  exhausted := "Target catalog revision exhausted."

abbrev TargetReleaseCatalog := Catalog TargetReleaseBundle TargetReleaseRoute

def decodeTargetReleaseCatalog : TargetReleaseCatalog → Except Failure TargetReleaseCatalog :=
  targetFamily.decodeCatalog

def mergeTargetReleaseBundle : Option TargetReleaseCatalog → TargetReleaseBundle →
    Except Failure TargetReleaseCatalog := targetFamily.merge

def selectTargetReleaseBundle (value : TargetReleaseCatalog) (compatibility : Compatibility) :
    Except Failure TargetReleaseBundle := do
  let catalog ← decodeTargetReleaseCatalog value
  match catalog.routes.find? fun r =>
    r.fromCaptureStateContract = compatibility.captureStateContract &&
      r.updateControlProtocol = compatibility.updateControlProtocol &&
        r.updateTargetProtocol = compatibility.updateTargetProtocol with
  | none => .error (.thrown "The target catalog does not support this source/control/target-execution combination.")
  | some route => match catalog.bundles.find? fun b => b.version = route.version with
    | some bundle => pure bundle
    | none => .error .malformed

end ATape.Release
