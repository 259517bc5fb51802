import ATape.Foundation.Outcome
import ATape.Node.Json

/-! The runtimes that an update selects, as they are checked and written. -/
namespace ATape.Update
open Foundation Node

inductive Reason
  | metadata
  | conflict
  | admission
  | generation
deriving DecidableEq

structure UpdateControlError where
  reason : Reason
  message : String
deriving DecidableEq

/-- What a call rejects with: an error of this module, or one of the file system. -/
inductive Failure
  | refused (error : UpdateControlError)
  | system
deriving DecidableEq

def metadata (message : String) : Failure := .refused ⟨.metadata,message⟩

def conflict (message : String) : Failure := .refused ⟨.conflict,message⟩

def admission (message : String) : Failure := .refused ⟨.admission,message⟩

def generation (message : String) : Failure := .refused ⟨.generation,message⟩

def updateControlProtocol : String := "atape.update-control.v1"

/-! The patterns of the schemas. -/

def isDigit (c : Char) : Bool := '0' ≤ c && c ≤ '9'

def isHex (c : Char) : Bool := isDigit c || 'a' ≤ c && c ≤ 'f'

def isWord (c : Char) : Bool := isDigit c || 'a' ≤ c && c ≤ 'z' || 'A' ≤ c && c ≤ 'Z'

def numeral (digits : List Char) : Option Nat :=
  if digits = ['0'] then some 0
  else if digits.isEmpty || digits.head? = some '0' || !digits.all isDigit then none
  else some (digits.foldl (fun n c => 10*n+(c.toNat-48)) 0)

def numerals (value : String) : Option (Nat × Nat × Nat) :=
  match value.toList.splitOn '.' with
  | [major,minor,patch] => do pure (← numeral major,← numeral minor,← numeral patch)
  | _ => none

def isStableVersion (value : String) : Bool := (numerals value).isSome

def isContract (value : String) : Bool :=
  match value.toList with
  | [] => false
  | first::rest => isWord first && rest.length ≤ 127 && rest.all fun c => isWord c || c = '.' || c = '_' || c = '-'

def isIdentity (value : String) : Bool := value.toList.length = 64 && value.toList.all isHex

def isKey (value : String) : Bool := value.toList.length = 36 && value.toList.all fun c => isHex c || c = '-'

def shaped (classes : List (Char → Bool)) (value : String) : Bool :=
  value.toList.length = classes.length && (classes.zip value.toList).all fun place => place.1 place.2

def isDash (c : Char) : Bool := c = '-'

def isUUID (value : String) : Bool :=
  shaped (.replicate 8 isHex++isDash::.replicate 4 isHex++isDash::.replicate 4 isHex++isDash::.replicate 4 isHex++
    isDash::.replicate 12 isHex) value

def isPackageSlot (value : String) : Bool :=
  shaped (.replicate 8 isHex++isDash::.replicate 4 isHex++isDash::(· = '4')::.replicate 3 isHex++
    isDash::(fun c => c = '8' || c = '9' || c = 'a' || c = 'b')::.replicate 3 isHex++isDash::.replicate 12 isHex) value

structure AdapterInstallation where
  adapterId : String
  packageName : String
  packageSlot : Option String
  upgradeSpec : String
  displayName : String
  version : String
  installedAt : String
  updatedAt : String
deriving DecidableEq

structure AdapterChange where
  before : AdapterInstallation
  after : AdapterInstallation
deriving DecidableEq

structure UpdateRuntimeSelection where
  version : String
  captureStateContract : String
  bootstrapEntry : String
  bootstrapIdentity : String
  adapters : List AdapterChange
deriving DecidableEq

def AdapterInstallation.fits (a : AdapterInstallation) : Bool := a.packageSlot.all isPackageSlot

def UpdateRuntimeSelection.fits (s : UpdateRuntimeSelection) : Bool :=
  isStableVersion s.version && isContract s.captureStateContract && isIdentity s.bootstrapIdentity &&
    s.adapters.all fun change => change.before.fits && change.after.fits

/-- `Number.MAX_SAFE_INTEGER` -/
def maxSafeInteger : Nat := 2^53-1

def version (value : String) : Except Failure (Nat × Nat × Nat) :=
  match numerals value with
  | some (major,minor,patch) =>
    if value.length < 40 ∧ major ≤ maxSafeInteger ∧ minor ≤ maxSafeInteger ∧ patch ≤ maxSafeInteger then
      .ok (major,minor,patch)
    else .error (metadata "Invalid update runtime version.")
  | none => .error (metadata "Invalid update runtime version.")

def before (a b : Nat × Nat × Nat) : Prop :=
  a.1 < b.1 ∨ a.1 = b.1 ∧ (a.2.1 < b.2.1 ∨ a.2.1 = b.2.1 ∧ a.2.2 < b.2.2)

instance (a b : Nat × Nat × Nat) : Decidable (before a b) := inferInstanceAs (Decidable (_ ∨ _))

def older (left right : String) : Except Failure Bool := do
  let a ← version left
  let b ← version right
  pure (decide (before a b))

structure Source where
  id : String
  packageName : String

def officialSources : List Source :=
  [⟨"codex","@atape/adapter-codex"⟩,⟨"claude","@atape/adapter-claude"⟩,⟨"codebuddy","@atape/adapter-codebuddy"⟩,
    ⟨"kimi","@atape/adapter-kimi"⟩,⟨"opencode","@atape/adapter-opencode"⟩,⟨"grok","@atape/adapter-grok"⟩,
    ⟨"cursor","@atape/adapter-cursor"⟩]

/-- The changes of Adapters that a selection may make, each Adapter once. -/
def validAdapters (version : String) (ids : List String) : List AdapterChange → Bool
  | [] => true
  | ⟨before,after⟩::changes =>
    !ids.contains after.adapterId &&
      officialSources.any (fun source => source.id = after.adapterId && source.packageName = after.packageName) &&
      before.adapterId = after.adapterId && before.packageName = after.packageName &&
      before.upgradeSpec = before.packageName && after.upgradeSpec = after.packageName && after.version = version &&
      after.packageSlot.isSome && before.installedAt = after.installedAt &&
      validAdapters version (after.adapterId::ids) changes

def isAbsolute (path : String) : Bool := path.toList.head? = some '/'

def decodeUpdateRuntimeSelection (selected : UpdateRuntimeSelection) :
    Except Failure UpdateRuntimeSelection := do
  failWhen (¬selected.fits) (metadata "Invalid update runtime selection.")
  let _ ← version selected.version
  failWhen (¬isAbsolute selected.bootstrapEntry) (metadata "The update bootstrap must be absolute.")
  failWhen (¬validAdapters selected.version [] selected.adapters) (metadata "Invalid update Adapter generation.")
  pure selected

/-! The values in a file. -/

def AdapterInstallation.json (a : AdapterInstallation) : Json :=
  .obj ([("adapterId",.str a.adapterId),("packageName",.str a.packageName)]++
    Json.presentMember "packageSlot" .str a.packageSlot++
    [("upgradeSpec",.str a.upgradeSpec),("displayName",.str a.displayName),("version",.str a.version),
      ("installedAt",.str a.installedAt),("updatedAt",.str a.updatedAt)])

def AdapterChange.json (change : AdapterChange) : Json :=
  .obj [("before",change.before.json),("after",change.after.json)]

def UpdateRuntimeSelection.members (s : UpdateRuntimeSelection) : List (String × Json) :=
  [("protocol",.str updateControlProtocol),("version",.str s.version),
    ("captureStateContract",.str s.captureStateContract),("bootstrapEntry",.str s.bootstrapEntry),
    ("bootstrapIdentity",.str s.bootstrapIdentity),("adapters",.arr (s.adapters.map AdapterChange.json))]

def UpdateRuntimeSelection.json (s : UpdateRuntimeSelection) : Json := .obj s.members

def textOf : Json → Option String
  | .str text => some text
  | _ => none

def textAt (name : String) (members : List (String × Json)) : Option String := (Json.member name members).bind textOf

/-- A member that may be absent, but not of another kind. -/
def optionalAt {α : Type} (name : String) (read : Json → Option α) (members : List (String × Json)) :
    Option (Option α) :=
  match Json.member name members with
  | none => some none
  | some j => (read j).map some

def readAdapter : Json → Option AdapterInstallation
  | .obj members => do
    pure ⟨← textAt "adapterId" members,← textAt "packageName" members,← optionalAt "packageSlot" textOf members,
      ← textAt "upgradeSpec" members,← textAt "displayName" members,← textAt "version" members,
      ← textAt "installedAt" members,← textAt "updatedAt" members⟩
  | _ => none

def readChange : Json → Option AdapterChange
  | .obj members => do
    pure ⟨← (Json.member "before" members).bind readAdapter,← (Json.member "after" members).bind readAdapter⟩
  | _ => none

def itemsOf : Json → Option (List Json)
  | .arr items => some items
  | _ => none

def protocolled (members : List (String × Json)) : Option Unit :=
  if textAt "protocol" members = some updateControlProtocol then some () else none

def readSelectionJson : Json → Option UpdateRuntimeSelection
  | .obj members => do
    protocolled members
    let adapters ← (Json.member "adapters" members).bind itemsOf
    pure ⟨← textAt "version" members,← textAt "captureStateContract" members,← textAt "bootstrapEntry" members,
      ← textAt "bootstrapIdentity" members,← adapters.mapM readChange⟩
  | _ => none

theorem textAt_same (name text : String) (others : List (String × Json)) :
    textAt name ((name,.str text)::others) = some text := by
  rw [textAt,Json.member_same]
  rfl

theorem textAt_other {name other : String} (apart : other ≠ name) (first : Json) (others : List (String × Json)) :
    textAt name ((other,first)::others) = textAt name others := by
  rw [textAt,Json.member_other apart,textAt]

theorem readAdapter_json (a : AdapterInstallation) : readAdapter a.json = some a := by
  obtain ⟨adapterId,packageName,packageSlot,upgradeSpec,displayName,version,installedAt,updatedAt⟩ := a
  cases packageSlot <;> simp [readAdapter,AdapterInstallation.json,textAt,optionalAt,textOf,Json.presentMember]

theorem readChange_json (change : AdapterChange) : readChange change.json = some change := by
  simp [readChange,AdapterChange.json,readAdapter_json]

theorem readSelectionJson_obj {members : List (String × Json)} {version contract entry identity : String}
    {items : List Json} {adapters : List AdapterChange} (named : protocolled members = some ())
    (versioned : textAt "version" members = some version)
    (contracted : textAt "captureStateContract" members = some contract)
    (entered : textAt "bootstrapEntry" members = some entry)
    (identified : textAt "bootstrapIdentity" members = some identity)
    (listed : Json.member "adapters" members = some (.arr items)) (read : items.mapM readChange = some adapters) :
    readSelectionJson (.obj members) = some ⟨version,contract,entry,identity,adapters⟩ := by
  simp [readSelectionJson,named,versioned,contracted,entered,identified,listed,itemsOf,read]

theorem readSelectionJson_json (s : UpdateRuntimeSelection) : readSelectionJson s.json = some s := by
  have changes : (s.adapters.map AdapterChange.json).mapM readChange = some s.adapters := by
    generalize s.adapters = changes
    induction changes with
    | nil => rfl
    | cons change changes ih =>
      rw [List.map_cons,List.mapM_cons,readChange_json,ih]
      rfl
  have versioned : textAt "version" s.members = some s.version := by
    rw [UpdateRuntimeSelection.members,textAt_other (by simp),textAt_same]
  have contracted : textAt "captureStateContract" s.members = some s.captureStateContract := by
    rw [UpdateRuntimeSelection.members,textAt_other (by simp),textAt_other (by simp),textAt_same]
  have entered : textAt "bootstrapEntry" s.members = some s.bootstrapEntry := by
    rw [UpdateRuntimeSelection.members,textAt_other (by simp),textAt_other (by simp),textAt_other (by simp),textAt_same]
  have identified : textAt "bootstrapIdentity" s.members = some s.bootstrapIdentity := by
    rw [UpdateRuntimeSelection.members,textAt_other (by simp),textAt_other (by simp),textAt_other (by simp),
      textAt_other (by simp),textAt_same]
  have listed : Json.member "adapters" s.members = some (.arr (s.adapters.map AdapterChange.json)) := by
    rw [UpdateRuntimeSelection.members,Json.member_other (by simp),Json.member_other (by simp),
      Json.member_other (by simp),Json.member_other (by simp),Json.member_other (by simp),Json.member_same]
  exact readSelectionJson_obj (if_pos rfl) versioned contracted entered identified listed changes

theorem integral_adapter (a : AdapterInstallation) : a.json.Integral := by
  cases slot : a.packageSlot <;>
    simp [AdapterInstallation.json,slot,Json.presentMember,Json.Integral,Json.IntegralMembers]

theorem integral_selection (s : UpdateRuntimeSelection) : s.json.Integral := by
  have changes : Json.IntegralItems (s.adapters.map AdapterChange.json) := by
    generalize s.adapters = changes
    induction changes with
    | nil => trivial
    | cons change changes ih =>
      refine ⟨?_,ih⟩
      simp [AdapterChange.json,Json.Integral,Json.IntegralMembers,integral_adapter]
  simp [UpdateRuntimeSelection.json,UpdateRuntimeSelection.members,Json.Integral,Json.IntegralMembers,changes]

end ATape.Update
