import ATape.Foundation.Durable
import ATape.Go.Text
import ATape.Foundation.Table
import ATape.Update.Selection

/-! Update control: the ledger of one update and the pointer to the selected runtime,
two files that are replaced one at a time. -/
namespace ATape.Update
open Foundation Node

structure Floor where
  minimumRuntimeVersion : String
  captureStateContract : String
deriving DecidableEq

inductive Phase
  | prepared
  | begun
  | fenced
  | recovering
  | completed
  | recovered
deriving DecidableEq

structure Control where
  key : String
  phase : Phase
  baseline : Option UpdateRuntimeSelection
  previous : Option UpdateRuntimeSelection
  target : UpdateRuntimeSelection
  floor : Option Floor
  forwardOnly : Bool
deriving DecidableEq

def Phase.settled (phase : Phase) : Bool := phase = .completed || phase = .recovered

def Floor.fits (f : Floor) : Bool := isStableVersion f.minimumRuntimeVersion && isContract f.captureStateContract

def Control.fits (c : Control) : Bool :=
  isKey c.key && c.baseline.all (·.fits) && c.previous.all (·.fits) && c.target.fits && c.floor.all (·.fits)

/-- The floor that a selection would set. -/
def UpdateRuntimeSelection.floor (s : UpdateRuntimeSelection) : Floor := ⟨s.version,s.captureStateContract⟩

def decodeOptional (selected : Option UpdateRuntimeSelection) : Except Failure Unit :=
  match selected with
  | some selected => do
    let _ ← decodeUpdateRuntimeSelection selected
    pure ()
  | none => pure ()

def decodeFloor (target : UpdateRuntimeSelection) : Option Floor → Except Failure Unit
  | some floor => do
    let _ ← version floor.minimumRuntimeVersion
    let below ← older target.version floor.minimumRuntimeVersion
    failWhen below (metadata "Update recovery target is below its reader floor.")
  | none => pure ()

def checkControl (control : Control) : Except Failure Unit := do
  let _ ← decodeUpdateRuntimeSelection control.target
  decodeOptional control.baseline
  decodeOptional control.previous
  failWhen (control.baseline.isSome ∧ control.baseline ≠ control.previous)
    (metadata "The recorded fallback differs from the original runtime selection.")
  decodeFloor control.target control.floor
  failWhen (control.forwardOnly ∧ (control.floor ≠ some control.target.floor ∨ control.phase = .prepared ∨
    control.phase = .begun)) (metadata "Invalid forward-only update boundary.")
  failWhen (control.phase = .fenced ∧ ¬control.forwardOnly) (metadata "Missing forward-only update boundary.")
  failWhen (control.phase = .completed ∧ ¬control.forwardOnly ∧ control.previous.any fun previous =>
    previous.captureStateContract ≠ control.target.captureStateContract)
    (metadata "An incompatible update completed without a recovery boundary.")

def decodeControl (control : Control) : Except Failure Control := do
  failWhen (¬control.fits) (metadata "Invalid durable update control state.")
  checkControl control
  pure control

/-! The ledger in its file. -/

def Phase.name : Phase → String
  | .prepared => "prepared"
  | .begun => "begun"
  | .fenced => "fenced"
  | .recovering => "recovering"
  | .completed => "completed"
  | .recovered => "recovered"

def Phase.all : List Phase := [.prepared,.begun,.fenced,.recovering,.completed,.recovered]

def readPhase (name : String) : Option Phase := Phase.all.find? (·.name = name)

def Floor.json (f : Floor) : Json :=
  .obj [("minimumRuntimeVersion",.str f.minimumRuntimeVersion),("captureStateContract",.str f.captureStateContract)]

def readFloor : Json → Option Floor
  | .obj members => do pure ⟨← textAt "minimumRuntimeVersion" members,← textAt "captureStateContract" members⟩
  | _ => none

def Control.members (c : Control) : List (String × Json) :=
  [("protocol",.str updateControlProtocol),("key",.str c.key),("phase",.str c.phase.name)]++
    (Json.presentMember "baseline" UpdateRuntimeSelection.json c.baseline++
      (Json.presentMember "previous" UpdateRuntimeSelection.json c.previous++
        (("target",c.target.json)::(Json.presentMember "floor" Floor.json c.floor++
          [("forwardOnly",.bool c.forwardOnly)]))))

def Control.json (c : Control) : Json := .obj c.members

def boolOf : Json → Option Bool
  | .bool value => some value
  | _ => none

def readControlJson : Json → Option Control
  | .obj members => do
    protocolled members
    pure ⟨← textAt "key" members,← (textAt "phase" members).bind readPhase,
      ← optionalAt "baseline" readSelectionJson members,← optionalAt "previous" readSelectionJson members,
      ← (Json.member "target" members).bind readSelectionJson,← optionalAt "floor" readFloor members,
      ← (Json.member "forwardOnly" members).bind boolOf⟩
  | _ => none

theorem readPhase_name (phase : Phase) : readPhase phase.name = some phase := by
  cases phase <;> rfl

theorem readFloor_json (f : Floor) : readFloor f.json = some f := by
  have minimum : textAt "minimumRuntimeVersion" [("minimumRuntimeVersion",.str f.minimumRuntimeVersion),
      ("captureStateContract",.str f.captureStateContract)] = some f.minimumRuntimeVersion := textAt_same _ _ _
  have contract : textAt "captureStateContract" [("minimumRuntimeVersion",.str f.minimumRuntimeVersion),
      ("captureStateContract",.str f.captureStateContract)] = some f.captureStateContract := by
    rw [textAt_other (by simp),textAt_same]
  simp [readFloor,Floor.json,minimum,contract]

theorem member_absent {α : Type} {name other : String} (apart : other ≠ name) (json : α → Json) (a : Option α)
    (others : List (String × Json)) :
    Json.member name (Json.presentMember other json a++others) = Json.member name others := by
  cases a with
  | none => rfl
  | some a => exact Json.member_other apart _ _

theorem optionalAt_present {α : Type} {name : String} {read : Json → Option α} {json : α → Json}
    (readback : ∀ a, read (json a) = some a) (a : Option α) {others : List (String × Json)}
    (single : Json.member name others = none) :
    optionalAt name read (Json.presentMember name json a++others) = some a := by
  cases a with
  | none =>
    rw [optionalAt,Json.presentMember,List.nil_append,single]
  | some a =>
    rw [optionalAt,Json.presentMember,List.singleton_append,Json.member_same]
    simp [readback]

theorem optionalAt_other {α : Type} {name other : String} (apart : other ≠ name) (read : Json → Option α)
    {β : Type} (json : β → Json) (b : Option β) (others : List (String × Json)) :
    optionalAt name read (Json.presentMember other json b++others) = optionalAt name read others := by
  rw [optionalAt,member_absent apart]
  rfl

theorem optionalAt_cons {α : Type} {name other : String} (apart : other ≠ name) (read : Json → Option α) (first : Json)
    (others : List (String × Json)) : optionalAt name read ((other,first)::others) = optionalAt name read others := by
  rw [optionalAt,Json.member_other apart]
  rfl

theorem readControlJson_obj {members : List (String × Json)} {c : Control} (named : protocolled members = some ())
    (keyed : textAt "key" members = some c.key) (phased : textAt "phase" members = some c.phase.name)
    (based : optionalAt "baseline" readSelectionJson members = some c.baseline)
    (preceded : optionalAt "previous" readSelectionJson members = some c.previous)
    (aimed : Json.member "target" members = some c.target.json)
    (floored : optionalAt "floor" readFloor members = some c.floor)
    (bounded : Json.member "forwardOnly" members = some (.bool c.forwardOnly)) :
    readControlJson (.obj members) = some c := by
  simp [readControlJson,named,keyed,phased,based,preceded,aimed,floored,bounded,readPhase_name,readSelectionJson_json,
    boolOf]

theorem readControlJson_json (c : Control) : readControlJson c.json = some c := by
  unfold Control.json Control.members
  simp only [List.cons_append,List.nil_append]
  apply readControlJson_obj
  · exact if_pos (textAt_same _ _ _)
  · rw [textAt_other (by simp),textAt_same]
  · rw [textAt_other (by simp),textAt_other (by simp),textAt_same]
  · rw [optionalAt_cons (by simp),optionalAt_cons (by simp),optionalAt_cons (by simp)]
    apply optionalAt_present readSelectionJson_json
    rw [member_absent (by simp),Json.member_other (by simp),member_absent (by simp),Json.member_other (by simp)]
    rfl
  · rw [optionalAt_cons (by simp),optionalAt_cons (by simp),optionalAt_cons (by simp),optionalAt_other (by simp)]
    apply optionalAt_present readSelectionJson_json
    rw [Json.member_other (by simp),member_absent (by simp),Json.member_other (by simp)]
    rfl
  · rw [Json.member_other (by simp),Json.member_other (by simp),Json.member_other (by simp),member_absent (by simp),
      member_absent (by simp),Json.member_same]
  · rw [optionalAt_cons (by simp),optionalAt_cons (by simp),optionalAt_cons (by simp),optionalAt_other (by simp),
      optionalAt_other (by simp),optionalAt_cons (by simp)]
    apply optionalAt_present readFloor_json
    rw [Json.member_other (by simp)]
    rfl
  · rw [Json.member_other (by simp),Json.member_other (by simp),Json.member_other (by simp),member_absent (by simp),
      member_absent (by simp),Json.member_other (by simp),member_absent (by simp),Json.member_same]

theorem integral_control (c : Control) : c.json.Integral := by
  have selections : ∀ name (s : Option UpdateRuntimeSelection),
      Json.IntegralMembers (Json.presentMember name UpdateRuntimeSelection.json s) := by
    intro name s
    exact Json.integral_presentMember name _ s integral_selection
  have floors : Json.IntegralMembers (Json.presentMember "floor" Floor.json c.floor) := by
    apply Json.integral_presentMember
    intro f
    simp [Floor.json,Json.Integral,Json.IntegralMembers]
  simp [Control.json,Control.members,Json.Integral,Json.IntegralMembers,selections,floors,integral_selection]

/-! Files of JSON. A file that is too long is not read. -/

def readLimit : Nat := 256*1024

def readBoundedJSON (text : String) : Except Failure Json :=
  if Go.len text ≤ readLimit then
    match Json.parse text with
    | some j => .ok j
    | none => .error (metadata "Could not read durable update metadata.")
  else .error (metadata "Could not read durable update metadata.")

def optionalJSON {α : Type} (file : Option String) (decode : Json → Except Failure α) :
    Except Failure (Option α) :=
  match file with
  | none => .ok none
  | some text => do
    let j ← readBoundedJSON text
    let a ← decode j
    pure (some a)

def selectionOf (j : Json) : Except Failure UpdateRuntimeSelection := do
  let selected ← present (readSelectionJson j) (metadata "Invalid update runtime selection.")
  decodeUpdateRuntimeSelection selected

def controlOf (j : Json) : Except Failure Control := do
  let control ← present (readControlJson j) (metadata "Invalid durable update control state.")
  decodeControl control

end ATape.Update
