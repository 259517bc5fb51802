import ATape.Authorization
import ATape.Canonical.Model
import ATape.Foundation.Outcome
import ATape.Go.Encoding
import ATape.Ingestion.Normalize

/-! What a candidate publication is made of: the scope it is reserved for, its target,
its parts, the manifest that binds them and the receipt of its activation. -/
namespace ATape.Publication
open Authorization Canonical Foundation Go SourceIdentity

structure Scope where
  projectID : String
  installationID : String
  adapterID : String
  sourceSessionID : String
  originKey : String

/-- Durations are in milliseconds. -/
structure Limits where
  partBytes : Nat
  targetBytes : Nat
  userPendingBytes : Nat
  parts : Nat
  reservations : Nat
  reservationLifetime : Nat
  leaseLifetime : Nat

/-- The limits a store can be made with. -/
def Limits.supported (l : Limits) : Bool :=
  1 ≤ l.partBytes && l.partBytes ≤ 4*2^20 && l.partBytes ≤ l.targetBytes && l.targetBytes ≤ 2^30 &&
    l.targetBytes ≤ l.userPendingBytes && l.userPendingBytes ≤ 16*2^30 && 1 ≤ l.parts && l.parts ≤ 4096 &&
    1 ≤ l.reservations && l.reservations ≤ 128 && 1 ≤ l.leaseLifetime && l.leaseLifetime ≤ 3600000 &&
    l.leaseLifetime ≤ l.reservationLifetime && l.reservationLifetime ≤ 86400000

structure Begin where
  reservationID : String
  captureID : String
  baseHead : String
  transformVersion : String

structure Manifest where
  parts : Int
  bytes : Int
  sha256 : String
deriving DecidableEq

structure Part where
  ordinal : Int
  sha256 : String
  bytes : Nat
deriving DecidableEq

/-- What is written to the hash, with the number of parts and of their bytes. -/
structure ManifestHasher where
  text : String
  parts : Int
  bytes : Int

namespace ManifestHasher

def new : ManifestHasher := ⟨"",0,0⟩

def add (h : ManifestHasher) (part : Part) : ManifestHasher where
  text := h.text++(toString part.ordinal++":"++toString part.bytes++":"++part.sha256++"\n")
  parts := h.parts+1
  bytes := h.bytes+part.bytes

def manifest (hash : Hash) (h : ManifestHasher) : Manifest := ⟨h.parts,h.bytes,hash.hex h.text⟩

end ManifestHasher

structure Activation where
  head : String
  sessionID : String
  captureID : String
  baseHead : String
  fence : Nat
  transformVersion : String
  manifest : Manifest
  activatedAt : Time
deriving DecidableEq

/-- The last two states are never stored: another writer or the clock puts an attempt
in them. -/
inductive AttemptState
  | open_ | sealed | validating | validated | activated | rejected | superseded | expired
deriving DecidableEq

def AttemptState.code : AttemptState → String
  | .open_ => "open"
  | .sealed => "sealed"
  | .validating => "validating"
  | .validated => "validated"
  | .activated => "activated"
  | .rejected => "rejected"
  | .superseded => "superseded"
  | .expired => "expired"

def AttemptState.live : AttemptState → Bool
  | .open_ | .sealed | .validating | .validated => true
  | _ => false

/-- An attempt as its caller sees it. An absent base head is an empty text. -/
structure Attempt where
  id : String
  sessionID : String
  captureID : String
  baseHead : String
  transformVersion : String
  fence : Nat
  leaseUntil : Int
  expiresAt : Int
  state : AttemptState
  parts : Nat
  retainedBytes : Nat
  seal_ : Option Manifest
  validatedParts : Nat
  retainedParts : Nat
  candidateEvents : Nat
  candidateUsage : Nat
  activation : Option Activation
deriving DecidableEq

def targetProfile : String := "atape.publication-target.v1"

def retentionTargetProfile : String := "atape.publication-target.v2"

def unknownTimeTargetProfile : String := "atape.publication-target.v3"

def toolIdentityTargetProfile : String := "atape.publication-target.v4"

def stableToolTargetProfile : String := "atape.publication-target.v5"

/-- The retained threads of a target that declares none are absent, not empty. -/
structure Target where
  profile : String
  events : Int
  usage : Int
  threads : Int
  retainedThreadIDs : Option (List String)
deriving DecidableEq

def Target.retained (target : Target) : List String := target.retainedThreadIDs.getD []

def retentionProfiles : List String :=
  [retentionTargetProfile,unknownTimeTargetProfile,toolIdentityTargetProfile,stableToolTargetProfile]

/-- The first profile keeps the set of fields that its decoders know. -/
def Target.json (target : Target) : Json :=
  let counts : List (String × Json) := [("profile",.str target.profile),("events",.int target.events),
    ("usage",.int target.usage),("threads",.int target.threads)]
  match target.retainedThreadIDs with
  | some ids => .obj (counts++[("retainedThreadIds",.arr (ids.map .str))])
  | none =>
    if target.profile ∈ retentionProfiles then .obj (counts++[("retainedThreadIds",.null)]) else .obj counts

/-- Each part repeats the header of the whole session and its threads. -/
structure CanonicalPart where
  target : Target
  batch : Ingestion.Batch

structure Reservation where
  id : String
  sessionID : String
  expiresAt : Int
deriving DecidableEq

structure Adoption where
  reservation : Reservation
  revisionFloor : Int
  baselineThreads : List Ingestion.Thread

structure Reclaimed where
  parts : Nat
  reservations : Nat
  bytes : Nat

structure Page where
  attempt : Attempt
  parts : List Part

/-- The errors of the store. `persist` is a failure of the database and `panic` one of
the process. -/
inductive Failure
  | publication (code message : String)
  | access (outcome : Outcome)
  | projectState (state : String)
  | persist (operation : String)
  | panic (message : String)
deriving DecidableEq

def invalid (message : String) : Failure := .publication "invalid" message

def conflict (message : String) : Failure := .publication "conflict" message

def capacity (message : String) : Failure := .publication "capacity" message

def publicationText (value : String) (max : Nat) : Bool :=
  trimSpace value ≠ "" && len value ≤ max &&
    value.toList.all fun c => c ≠ '\x00' && c ≠ '\r' && c ≠ '\n'

/-- The functions of other packages: the digest of bytes, the strict decoder of a part
and the parser of an identifier, which gives its canonical text. -/
structure Packages where
  hash : Hash
  digest : Bytes → String
  decode : Bytes → Except String CanonicalPart
  uuid : String → Option String

end ATape.Publication
