import ATape.Node.Json
import ATape.Update.Selection

/-! Release bundles: the packages of one version, as they are checked and as they are
told apart. A migration or target bundle is a release bundle with more to it. -/
namespace ATape.Release
open Foundation Node

inductive Reason
  | transport
  | metadata
  | state
  | integrity
deriving DecidableEq

/-- What a call rejects with: an error of discovery, of which an absent release is one;
one that the domain throws; a value that does not decode; whatever is thrown because the
caller has aborted; or an error of the file system. -/
inductive Failure
  | discovery (reason : Reason) (message : String)
  | missing
  | thrown (message : String)
  | malformed
  | aborted
  | storage
deriving DecidableEq

def requiredBundlePackages : List String :=
  ["@atape/cli","@atape/adapter-codex","@atape/adapter-claude","@atape/adapter-codebuddy","@atape/adapter-kimi",
    "@atape/adapter-opencode","@atape/adapter-grok"]

def releasePackageNames : List String := requiredBundlePackages++["@atape/adapter-cursor"]

def stableVersion (value : String) : Bool :=
  match Update.numerals value with
  | some (major,minor,patch) => (units value).length < 40 && major ≤ Update.maxSafeInteger &&
    minor ≤ Update.maxSafeInteger && patch ≤ Update.maxSafeInteger
  | none => false

def isOpaqueProtocol (value : String) : Bool :=
  1 ≤ (units value).length && (units value).length ≤ 200 && value.toList.all fun c => 0x1f < c.toNat && c.toNat ≠ 0x7f

def isIntegrity (value : String) : Bool :=
  Update.shaped ("sha512-".toList.map (fun c d => decide (d = c))++
    .replicate 85 (fun c => Update.isWord c || c = '+' || c = '/')++
      (fun c => c = 'A' || c = 'Q' || c = 'g' || c = 'w')::.replicate 2 fun c => decide (c = '=')) value

def isLowerOrDigit (c : Char) : Bool := Update.isDigit c || 'a' ≤ c && c ≤ 'z'

def isPackageName (value : String) : Bool :=
  (units value).length ≤ 128 && match value.toList.dropPrefix? "@atape/".toList with
    | some (first::rest) => isLowerOrDigit first && rest.all fun c => isLowerOrDigit c || c = '.' || c = '_' || c = '-'
    | _ => false

structure ReleasePackage where
  name : String
  integrity : String
  tarball : String
deriving DecidableEq

def ReleasePackage.fits (p : ReleasePackage) : Bool :=
  isPackageName p.name && isIntegrity p.integrity && (units p.tarball).length ≤ 2048

structure ReleaseBundle where
  version : String
  captureStateContract : String
  updateControlProtocol : String
  packages : List ReleasePackage
deriving DecidableEq

def tarballOf (name version : String) : String :=
  "https://registry.npmjs.org/"++name++"/-/"++(name.drop "@atape/".length).toString++"-"++version++".tgz"

def ReleaseBundle.fits (b : ReleaseBundle) : Bool :=
  stableVersion b.version && isOpaqueProtocol b.captureStateContract && isOpaqueProtocol b.updateControlProtocol &&
    7 ≤ b.packages.length && b.packages.length ≤ 32 && b.packages.all ReleasePackage.fits &&
    decide (b.packages.map ReleasePackage.name).Nodup &&
    requiredBundlePackages.all (fun name => b.packages.any fun p => p.name = name) &&
    b.packages.all fun p => p.tarball = tarballOf p.name b.version

structure Migration where
  protocol : String
  id : String
  fromCaptureStateContracts : List String
deriving DecidableEq

structure MigrationReleaseBundle extends ReleaseBundle where
  migration : Migration
deriving DecidableEq

def contractsFit (contracts : List String) (own : String) : Bool :=
  1 ≤ contracts.length && contracts.length ≤ 16 && contracts.all isOpaqueProtocol && decide contracts.Nodup &&
    contracts.contains own

def MigrationReleaseBundle.fits (b : MigrationReleaseBundle) : Bool :=
  b.toReleaseBundle.fits && isOpaqueProtocol b.migration.protocol && isOpaqueProtocol b.migration.id &&
    contractsFit b.migration.fromCaptureStateContracts b.captureStateContract

def updateTargetProtocol : String := "atape.update-target.v1"

structure TargetReleaseBundle extends ReleaseBundle where
  updateTargetProtocol : String
  fromCaptureStateContracts : List String
deriving DecidableEq

def TargetReleaseBundle.fits (b : TargetReleaseBundle) : Bool :=
  b.toReleaseBundle.fits && b.updateTargetProtocol = Release.updateTargetProtocol &&
    contractsFit b.fromCaptureStateContracts b.captureStateContract

inductive ManagedReleaseBundle
  | legacy (bundle : ReleaseBundle)
  | migration (bundle : MigrationReleaseBundle)
  | target (bundle : TargetReleaseBundle)
deriving DecidableEq

namespace ManagedReleaseBundle

def base : ManagedReleaseBundle → ReleaseBundle
  | legacy b => b
  | migration b => b.toReleaseBundle
  | target b => b.toReleaseBundle

def fits : ManagedReleaseBundle → Bool
  | legacy b => b.fits
  | migration b => b.fits
  | target b => b.fits

def version (b : ManagedReleaseBundle) : String := b.base.version

end ManagedReleaseBundle

def decode {α : Type} (fits : α → Bool) (value : α) : Except Failure α :=
  if fits value then .ok value else .error .malformed

def decodeReleaseBundle : ReleaseBundle → Except Failure ReleaseBundle := decode ReleaseBundle.fits

def decodeMigrationReleaseBundle : MigrationReleaseBundle → Except Failure MigrationReleaseBundle :=
  decode MigrationReleaseBundle.fits

def decodeTargetReleaseBundle : TargetReleaseBundle → Except Failure TargetReleaseBundle :=
  decode TargetReleaseBundle.fits

@[simp] theorem decode_ok {α : Type} (fits : α → Bool) (value a : α) :
    decode fits value = .ok a ↔ fits value = true ∧ value = a := by
  unfold decode
  split <;> simp_all

/-! The canonical text of a bundle. The fingerprints decode what they are given again,
which is a bundle that was decoded wherever they are used. -/

def ReleasePackage.json (p : ReleasePackage) : Json :=
  .obj [("name",.str p.name),("integrity",.str p.integrity),("tarball",.str p.tarball)]

def sortPackages (packages : List ReleasePackage) : List ReleasePackage :=
  packages.insertionSort fun a b => units a.name ≤ units b.name

def ReleaseBundle.members (b : ReleaseBundle) (protocol : String) : List (String × Json) :=
  [("protocol",.str protocol),("version",.str b.version),("captureStateContract",.str b.captureStateContract),
    ("updateControlProtocol",.str b.updateControlProtocol),
    ("packages",.arr ((sortPackages b.packages).map ReleasePackage.json))]

def releaseBundleFingerprint (b : ReleaseBundle) : String :=
  stringify (.obj (b.members "atape.release-bundle.v1"))

def contractsJson (contracts : List String) : Json := .arr ((sortTexts contracts).map Json.str)

def migrationReleaseBundleFingerprint (b : MigrationReleaseBundle) : String :=
  stringify (.obj (b.members "atape.release-bundle.v2"++
    [("migration",.obj [("protocol",.str b.migration.protocol),("id",.str b.migration.id),
      ("fromCaptureStateContracts",contractsJson b.migration.fromCaptureStateContracts)])]))

def targetReleaseBundleFingerprint (b : TargetReleaseBundle) : String :=
  stringify (.obj (b.members "atape.release-bundle.v3"++
    [("updateTargetProtocol",.str b.updateTargetProtocol),
      ("fromCaptureStateContracts",contractsJson b.fromCaptureStateContracts)]))

def managedReleaseBundleFingerprint : ManagedReleaseBundle → String
  | .legacy b => releaseBundleFingerprint b
  | .migration b => migrationReleaseBundleFingerprint b
  | .target b => targetReleaseBundleFingerprint b

theorem integral_packages (packages : List ReleasePackage) :
    Json.IntegralItems (packages.map ReleasePackage.json) := by
  induction packages with
  | nil => trivial
  | cons p packages ih => exact ⟨by simp [ReleasePackage.json,Json.Integral,Json.IntegralMembers],ih⟩

theorem integral_texts (texts : List String) : Json.IntegralItems (texts.map Json.str) := by
  induction texts with
  | nil => trivial
  | cons text texts ih => exact ⟨trivial,ih⟩

theorem integral_members (b : ReleaseBundle) (protocol : String) : Json.IntegralMembers (b.members protocol) := by
  simp [ReleaseBundle.members,Json.IntegralMembers,Json.Integral,integral_packages]

/-- A fingerprint is the text of the members of the release bundle, with the protocol of
its kind, and those of its kind alone. -/
theorem fingerprint_form (b : ManagedReleaseBundle) : ∃ protocol rest, Json.IntegralMembers rest ∧
    managedReleaseBundleFingerprint b = stringify (.obj (b.base.members protocol++rest)) := by
  cases b with
  | legacy b =>
    refine ⟨"atape.release-bundle.v1",[],trivial,?_⟩
    simp [managedReleaseBundleFingerprint,releaseBundleFingerprint,ManagedReleaseBundle.base]
  | migration b =>
    refine ⟨_,_,?_,rfl⟩
    simp [Json.IntegralMembers,Json.Integral,contractsJson,integral_texts]
  | target b =>
    refine ⟨_,_,?_,rfl⟩
    simp [Json.IntegralMembers,Json.Integral,contractsJson,integral_texts]

theorem members_same {b b' : ReleaseBundle} {protocol protocol' : String} {rest rest' : List (String × Json)}
    (integral : Json.IntegralMembers rest) (integral' : Json.IntegralMembers rest')
    (alike : stringify (.obj (b.members protocol++rest)) = stringify (.obj (b'.members protocol'++rest'))) (other : String) :
    b.members other = b'.members other := by
  have left : Json.Integral (.obj (b.members protocol++rest)) :=
    (Json.integralMembers_append _ _).mpr ⟨integral_members b protocol,integral⟩
  have right : Json.Integral (.obj (b'.members protocol'++rest')) :=
    (Json.integralMembers_append _ _).mpr ⟨integral_members b' protocol',integral'⟩
  have same := stringify_injective left right alike
  simp only [ReleaseBundle.members,Json.obj.injEq,List.cons_append,List.nil_append,List.cons.injEq,Prod.mk.injEq,
    true_and] at same ⊢
  exact ⟨same.2.1,same.2.2.1,same.2.2.2.1,same.2.2.2.2.1,trivial⟩

theorem base_of_fingerprint {b b' : ManagedReleaseBundle}
    (alike : managedReleaseBundleFingerprint b = managedReleaseBundleFingerprint b') :
    releaseBundleFingerprint b.base = releaseBundleFingerprint b'.base := by
  obtain ⟨protocol,rest,integral,form⟩ := fingerprint_form b
  obtain ⟨protocol',rest',integral',form'⟩ := fingerprint_form b'
  rw [form,form'] at alike
  rw [releaseBundleFingerprint,releaseBundleFingerprint,members_same integral integral' alike]

/-! A release that publishes the required packages where they belong. -/

/-- A digest of the form that npm writes. -/
def plainIntegrity : String := "sha512-AAAAAAAAAAAAAAAAAAAAAAAAAAAAAAAAAAAAAAAAAAAAAAAAAAAAAAAAAAAAAAAAAAAAAAAAAAAAAAAAAAAAAA=="

def officialPackages (version : String) : List ReleasePackage :=
  requiredBundlePackages.map fun name => ⟨name,plainIntegrity,tarballOf name version⟩

theorem length_units_append (a b : String) : (units (a++b)).length = (units a).length+(units b).length := by
  simp [units]

theorem required_names : requiredBundlePackages.all isPackageName = true := by decide

theorem plain_integrity : isIntegrity plainIntegrity = true := by decide

theorem tarball_length : ∀ name ∈ requiredBundlePackages,
    (units ("https://registry.npmjs.org/"++name++"/-/"++(name.drop "@atape/".length).toString++"-")).length ≤ 200 := by
  decide

theorem stable_length {version : String} (stable : stableVersion version = true) : (units version).length < 40 := by
  unfold stableVersion at stable
  split at stable
  next =>
    simp only [Bool.and_eq_true,decide_eq_true_eq] at stable
    exact stable.1.1.1
  next => cases stable

theorem official_package {version name : String} (stable : stableVersion version = true)
    (member : name ∈ requiredBundlePackages) :
    (⟨name,plainIntegrity,tarballOf name version⟩ : ReleasePackage).fits = true := by
  have short := stable_length stable
  have before := tarball_length name member
  have rest : (units ".tgz").length = 4 := by
    simp [units]
  have parts : (units (tarballOf name version)).length =
      (units ("https://registry.npmjs.org/"++name++"/-/"++(name.drop "@atape/".length).toString++"-")).length+
        (units version).length+4 := by
    rw [← rest,← length_units_append _ version,← length_units_append _ ".tgz"]
    rfl
  have length : (units (tarballOf name version)).length ≤ 2048 := by
    omega
  have named := List.all_eq_true.mp required_names name member
  simp only [ReleasePackage.fits,plain_integrity,named,length,decide_true,Bool.and_self]

theorem official_fits {version contract control : String} (stable : stableVersion version = true)
    (contractFits : isOpaqueProtocol contract = true) (controlFits : isOpaqueProtocol control = true) :
    (⟨version,contract,control,officialPackages version⟩ : ReleaseBundle).fits = true := by
  have packages : (officialPackages version).all ReleasePackage.fits = true := by
    simp only [officialPackages,List.all_map,List.all_eq_true]
    exact fun name member => official_package stable member
  have names : (officialPackages version).map ReleasePackage.name = requiredBundlePackages := by
    rw [officialPackages,List.map_map]
    exact List.map_id _
  have distinct : requiredBundlePackages.Nodup := by decide
  have length : (officialPackages version).length = 7 := by
    simp [officialPackages,requiredBundlePackages]
  have required : (requiredBundlePackages.all fun name => (officialPackages version).any fun p => p.name = name) = true := by
    simp [officialPackages]
  have tarballs : ((officialPackages version).all fun p => p.tarball = tarballOf p.name version) = true := by
    simp [officialPackages]
  simp [ReleaseBundle.fits,stable,contractFits,controlFits,packages,names,distinct,length,required,tarballs]

end ATape.Release
