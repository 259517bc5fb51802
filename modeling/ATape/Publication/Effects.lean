import ATape.Publication.Activation
import Mathlib.Logic.Relation

/-! What a transaction can do to the sources, the reservations, the attempts and the
parts. Each call is a chain of the effects listed here, so that an invariant of these
tables is proved once for each effect. -/
namespace ATape.Publication
open Authorization Canonical Foundation Go SourceIdentity
variable {t t' : Tables} {now : Int} {id : String}

/-! The calls of the store -/

inductive Call
  | reserve (scope : Scope)
  | adoptLegacy (scope : Scope)
  | begin_ (input : Begin)
  | put (attemptID : String) (ordinal : Int) (digest : String) (body : Bytes)
  | seal_ (attemptID : String) (manifest : Manifest)
  | status (attemptID : String) (after : Int) (limit : Nat)
  | validate (attemptID : String)
  | renew (attemptID : String)
  | reject (attemptID : String)
  | activate (attemptID : String)
  | reclaim (limit : Nat)

/-- The tables after a call that was committed. -/
def Call.run (limits : Limits) (pk : Packages) (t : Tables) (c : Context) (p : Principal) : Call → Except Failure Tables
  | .reserve scope => (t.reserveSource limits pk c p scope false).map Prod.fst
  | .adoptLegacy scope => (t.reserveSource limits pk c p scope true).map Prod.fst
  | .begin_ input => (t.begin_ limits pk c p input).map Prod.fst
  | .put attemptID ordinal digest body => (t.put limits pk c p attemptID ordinal digest body).map Prod.fst
  | .seal_ attemptID manifest => (t.seal_ limits pk c p attemptID manifest).map Prod.fst
  | .status attemptID after limit => (t.status pk c p attemptID after limit).map Prod.fst
  | .validate attemptID => (t.validate limits pk c p attemptID).map Prod.fst
  | .renew attemptID => (t.renew limits pk c p attemptID).map Prod.fst
  | .reject attemptID => (t.reject pk c p attemptID).map Prod.fst
  | .activate attemptID => (t.activate pk c p attemptID).map Prod.fst
  | .reclaim limit => (t.reclaim pk c p limit).map Prod.fst

namespace Tables

/-- The tables of the candidates hold these rows. -/
structure Holds (t : Tables) (sources : Table String SourceRow) (reservations : Table String ReservationRow)
    (attempts : Table String AttemptRow) (parts : Table (String × Nat) PartRow) : Prop where
  sources : t.sources = sources
  reservations : t.reservations = reservations
  attempts : t.attempts = attempts
  parts : t.parts = parts

/-- No row of the candidates differs. -/
def Alike (t t' : Tables) : Prop := t'.Holds t.sources t.reservations t.attempts t.parts

theorem Alike.refl (t : Tables) : t.Alike t := ⟨rfl,rfl,rfl,rfl⟩

theorem Alike.trans {u v : Tables} (first : t.Alike u) (second : u.Alike v) : t.Alike v :=
  ⟨second.sources.trans first.sources,second.reservations.trans first.reservations,
    second.attempts.trans first.attempts,second.parts.trans first.parts⟩

theorem Alike.attemptRows (alike : t.Alike t') (id : String) : t'.attemptRows id = t.attemptRows id := by
  simp only [Tables.attemptRows,alike.attempts,alike.reservations,alike.sources]

theorem Alike.attemptOwner (alike : t.Alike t') (a : AttemptRow) : t'.attemptOwner a = t.attemptOwner a := by
  simp only [Tables.attemptOwner,alike.sources]

theorem Alike.pendingBytes (alike : t.Alike t') (userID : String) : t'.pendingBytes userID = t.pendingBytes userID := by
  simp only [Tables.pendingBytes,alike.attemptOwner,alike.attempts]

/-- An attempt that has write authority at a moment. -/
structure Live (t : Tables) (id : String) (a : AttemptRow) (r : ReservationRow) (s : SourceRow) (now : Int) : Prop where
  rows : t.attemptRows id = some (a,r,s)
  active : a.state.live = true
  fence : a.fence = s.writerFence
  base : a.baseHead = s.currentHead
  lease : now < a.leaseUntil
  reservation : now < r.expiresAt

theorem effectiveState_live {a : AttemptRow} {r : ReservationRow} {s : SourceRow}
    (live : (effectiveState a r s now).live = true) :
    effectiveState a r s now = a.state ∧ a.state.live = true ∧ a.fence = s.writerFence ∧ a.baseHead = s.currentHead ∧
      now < a.leaseUntil ∧ now < r.expiresAt := by
  unfold effectiveState at live ⊢
  split at live
  next => cases live
  next =>
    split at live
    next => cases live
    next =>
      split at live
      next => cases live
      next bound =>
        split at live
        next => cases live
        next timely =>
          simp only [Bool.or_eq_true,decide_eq_true_eq,not_or,not_not,ne_eq] at bound
          simp only [Bool.or_eq_true,decide_eq_true_eq,not_or,not_le] at timely
          simp_all

theorem publicationAttempt_ok {row : AttemptRow} {a : Attempt} (read : t.publicationAttempt id now = .ok (row,a)) :
    ∃ r s, t.attemptRows id = some (row,r,s) ∧ a = attemptValue id row r s now := by
  unfold Tables.publicationAttempt Tables.getPublicationAttempt at read
  rw [present_ok,Option.map_eq_some_iff] at read
  obtain ⟨⟨row',r,s⟩,rows,same⟩ := read
  simp only [Prod.mk.injEq] at same
  obtain ⟨rfl,rfl⟩ := same
  exact ⟨r,s,rows,rfl⟩

theorem live_of_read {row : AttemptRow} {a : Attempt} {u : Unit}
    (read : t.publicationAttempt id now = .ok (row,a)) (alive : liveAttempt a = .ok u) :
    ∃ r s, t.Live id row r s now ∧ a = attemptValue id row r s now ∧ a.state = row.state := by
  obtain ⟨r,s,rows,rfl⟩ := publicationAttempt_ok read
  simp only [liveAttempt,failWhen_ok,Bool.not_eq_true',Bool.not_eq_false] at alive
  obtain ⟨same,active,fence,base,lease,reservation⟩ := effectiveState_live alive
  exact ⟨r,s,⟨rows,active,fence,base,lease,reservation⟩,rfl,same⟩

theorem attemptRows_some {a : AttemptRow} {r : ReservationRow} {s : SourceRow} : t.attemptRows id = some (a,r,s) ↔
      t.attempts.lookup id = some a ∧ t.reservations.lookup id = some r ∧ t.sources.lookup a.sessionID = some s := by
  simp only [Tables.attemptRows,Option.bind_eq_bind,Option.bind_eq_some_iff,Option.some.injEq,Prod.mk.injEq]
  constructor
  · rintro ⟨a',held,r',reserved,s',source,rfl,rfl,rfl⟩
    exact ⟨held,reserved,source⟩
  · rintro ⟨held,reserved,source⟩
    exact ⟨a,held,r,reserved,s,source,rfl,rfl,rfl⟩

theorem attemptRows_modify {id' : String} {f : AttemptRow → AttemptRow}
    {parts : Table (String × Nat) PartRow} (session : ∀ a, (f a).sessionID = a.sessionID)
    (held : t'.Holds t.sources t.reservations (t.attempts.modify id f) parts) :
    t'.attemptRows id' =
      if id' = id then (t.attemptRows id').map fun rows => (f rows.1,rows.2) else t.attemptRows id' := by
  unfold Tables.attemptRows
  rw [held.attempts,held.reservations,held.sources,Table.lookup_modify]
  split
  next =>
    cases t.attempts.lookup id' with
    | none => rfl
    | some a =>
      cases t.reservations.lookup id' with
      | none => rfl
      | some r =>
        have source : t.sources.lookup (f a).sessionID = t.sources.lookup a.sessionID := by rw [session]
        simp only [Option.map_some,Option.bind_eq_bind,Option.bind_some,source]
        cases t.sources.lookup a.sessionID <;> rfl
  next => rfl

/-! Effects -/

def fenced (s : SourceRow) : SourceRow := {s with writerFence := s.writerFence+1}

def selected (id : String) (s : SourceRow) : SourceRow := {s with currentHead := some id}

def putInto (bytes : Nat) (a : AttemptRow) : AttemptRow :=
  {a with retainedBytes := a.retainedBytes+bytes, partCount := a.partCount+1}

def sealedWith (manifest : Manifest) (a : AttemptRow) : AttemptRow := {a with state := .sealed, sealJson := some manifest}

def renewed (leaseUntil : Int) (a : AttemptRow) : AttemptRow := {a with leaseUntil := max a.leaseUntil leaseUntil}

def rejected (a : AttemptRow) : AttemptRow := {a with state := .rejected}

def reclaimed (part : PartRow) (a : AttemptRow) : AttemptRow :=
  {a with
    retainedBytes := a.retainedBytes-part.payload.storedBytes
    partCount := a.partCount-(if part.derived then 0 else 1)
    derivedParts := a.derivedParts-(if part.derived then 1 else 0)}

def fixedAs (unit : WriteBatch) (size : Nat) (part : PartRow) : PartRow := {part with payload := .fixed unit size}

/-- The user of a reservation, as the quota knows it. -/
def Owned (t : Tables) (pk : Packages) (r : ReservationRow) (userID : String) : Prop :=
  ∃ source, t.sources.lookup r.sessionID = some source ∧ pk.uuid source.capturedByUserID = some userID

/-- One change of the tables of the candidates, with all that its transaction checked
of them. -/
inductive Effect (limits : Limits) (pk : Packages) (c : Context) (t : Tables) : Tables → Prop
  | alike {t' : Tables} (alike : t.Alike t') : Effect limits pk c t t'
  | bound {t' : Tables} {sessionID : String} {source : SourceRow} (fresh : t.sources.lookup sessionID = none)
      (headless : source.currentHead = none) (user : ∃ value, pk.uuid value = some source.capturedByUserID)
      (held : t'.Holds (t.sources.insert sessionID source) t.reservations t.attempts t.parts) : Effect limits pk c t t'
  | reserved {t' : Tables} {r : ReservationRow} (fresh : t.reservations.lookup c.token = none)
      (source : (t.sources.lookup r.sessionID).isSome)
      (held : t'.Holds t.sources (t.reservations.insert c.token r) t.attempts t.parts) : Effect limits pk c t t'
  | began {t' : Tables} {id : String} {r : ReservationRow} {s : SourceRow} {input : Begin} {leaseUntil : Int}
      (reservation : t.reservations.lookup id = some r) (source : t.sources.lookup r.sessionID = some s)
      (fresh : t.attemptRows id = none)
      (held : t'.Holds (t.sources.modify r.sessionID fenced) t.reservations
        (t.attempts.insert id (newAttempt input r.sessionID s.currentHead (s.writerFence+1) leaseUntil)) t.parts) :
      Effect limits pk c t t'
  | stored {t' : Tables} {id userID : String} {a : AttemptRow} {r : ReservationRow} {s : SourceRow} {ordinal : Nat}
      {part : PartRow} (live : t.Live id a r s (c.clock 1)) (open_ : a.state = .open_)
      (owned : t.Owned pk r userID)
      (fresh : t.parts.lookup (id,ordinal) = none) (input : part.derived = false)
      (target : a.retainedBytes+part.payload.storedBytes ≤ limits.targetBytes)
      (pending : t.pendingBytes userID+part.payload.storedBytes ≤ limits.userPendingBytes)
      (held : t'.Holds t.sources t.reservations (t.attempts.modify id (putInto part.payload.storedBytes))
        (t.parts.insert (id,ordinal) part)) : Effect limits pk c t t'
  | sealed {t' : Tables} {id : String} {a : AttemptRow} {r : ReservationRow} {s : SourceRow} {manifest : Manifest}
      (live : t.Live id a r s (c.clock 1)) (unsealed : a.sealJson = none) (count : (a.partCount : Int) = manifest.parts)
      (parts : ∀ n : Nat, (n : Int) < manifest.parts → ∃ part, t.parts.lookup (id,n) = some part ∧ part.derived = false)
      (held : t'.Holds t.sources t.reservations (t.attempts.modify id (sealedWith manifest)) t.parts) :
      Effect limits pk c t t'
  | renewed {t' : Tables} {id : String} {a : AttemptRow} {r : ReservationRow} {s : SourceRow} {leaseUntil : Int}
      (live : t.Live id a r s (c.clock 1)) (timely : c.clock 2 < a.leaseUntil)
      (held : t'.Holds t.sources t.reservations (t.attempts.modify id (renewed leaseUntil)) t.parts) :
      Effect limits pk c t t'
  | rejected {t' : Tables} {id : String} {a : AttemptRow} {r : ReservationRow} {s : SourceRow}
      (rows : t.attemptRows id = some (a,r,s)) (inactive : a.activationJson = none)
      (held : t'.Holds t.sources t.reservations (t.attempts.modify id rejected) t.parts) : Effect limits pk c t t'
  | validated {t' : Tables} {id userID : String} {a : AttemptRow} {r : ReservationRow} {s : SourceRow}
      {manifest : Manifest} {part : PartRow} {body : Bytes} {unit : WriteBatch} {size : Nat} {header : String}
      {declared : Target} {state : AttemptState} (live : t.Live id a r s (c.clock 1))
      (fixed : a.sealJson = some manifest) (unfinished : (a.validatedParts : Int) ≠ manifest.parts)
      (owned : t.Owned pk r userID) (place : t.parts.lookup (id,a.validatedParts) = some part)
      (payload : part.payload = .body body)
      (target : (a.retainedBytes : Int)+((size : Int)-body.length) ≤ limits.targetBytes)
      (pending : (t.pendingBytes userID : Int)+((size : Int)-body.length) ≤ limits.userPendingBytes)
      (next : state = .validating ∨ state = .validated ∧ (a.validatedParts : Int)+1 = manifest.parts)
      (held : t'.Holds t.sources t.reservations
        (t.attempts.modify id (advanced unit ((size : Int)-body.length) header declared state))
        (t.parts.modify (id,a.validatedParts) (fixedAs unit size))) : Effect limits pk c t t'
  | kept {t' : Tables} {id : String} {a : AttemptRow} {r : ReservationRow} {s : SourceRow} {manifest : Manifest}
      {cursor : RetentionCursor} {state : AttemptState} (live : t.Live id a r s (c.clock 1))
      (fixed : a.sealJson = some manifest) (finished : (a.validatedParts : Int) = manifest.parts)
      (next : state = .validating ∨ state = .validated)
      (held : t'.Holds t.sources t.reservations (t.attempts.modify id (inherited 0 0 cursor state)) t.parts) :
      Effect limits pk c t t'
  | inherited {t' : Tables} {id userID : String} {a : AttemptRow} {r : ReservationRow} {s : SourceRow}
      {manifest : Manifest} {part : PartRow} {cursor : RetentionCursor} {state : AttemptState}
      (live : t.Live id a r s (c.clock 1)) (fixed : a.sealJson = some manifest)
      (finished : (a.validatedParts : Int) = manifest.parts) (owned : t.Owned pk r userID)
      (fresh : t.parts.lookup (id,manifest.parts.toNat+a.derivedParts) = none) (derived : part.derived = true)
      (payload : ∃ unit size, part.payload = .fixed unit size)
      (target : a.retainedBytes+part.payload.storedBytes ≤ limits.targetBytes)
      (pending : t.pendingBytes userID+part.payload.storedBytes ≤ limits.userPendingBytes)
      (next : state = .validating ∨ state = .validated)
      (held : t'.Holds t.sources t.reservations
        (t.attempts.modify id (inherited 1 part.payload.storedBytes cursor state))
        (t.parts.insert (id,manifest.parts.toNat+a.derivedParts) part)) : Effect limits pk c t t'
  | reclaimed {t' : Tables} {id userID : String} {ordinal : Nat} {part : PartRow}
      (unreachable : t.reclaimable userID (c.clock 0) id = true) (place : t.parts.lookup (id,ordinal) = some part)
      (held : t'.Holds t.sources t.reservations (t.attempts.modify id (reclaimed part)) (t.parts.erase (id,ordinal))) :
      Effect limits pk c t t'
  | dropped {t' : Tables} {ids : List String}
      (spent : ∀ id ∈ ids, ∀ a, t.attempts.lookup id = some a →
        a.partCount = 0 ∧ a.derivedParts = 0 ∧ a.state ≠ .activated)
      (held : t'.Holds t.sources (t.reservations.keep fun id _ => id ∉ ids) (t.attempts.keep fun id _ => id ∉ ids)
        (t.parts.keep fun k _ => k.1 ∉ ids)) : Effect limits pk c t t'

/-- The one change that moves a head: an attempt that is validated and has write authority
becomes the head of its source, and is given its receipt. -/
structure Activates (c : Context) (t t' : Tables) (id : String) (a : AttemptRow) (r : ReservationRow) (s : SourceRow)
    (manifest : Manifest) (observedAt : Time) : Prop where
  live : t.Live id a r s (c.clock 1)
  ready : a.state = .validated
  fixed : a.sealJson = some manifest
  finished : (a.validatedParts : Int) = manifest.parts
  held : t'.Holds (t.sources.modify a.sessionID (selected id)) t.reservations
    (t.attempts.modify id (activated (activationReceipt (attemptValue id a r s (c.clock 1)) manifest c.now) observedAt))
    t.parts

abbrev Effects (limits : Limits) (pk : Packages) (c : Context) : Tables → Tables → Prop :=
  Relation.ReflTransGen (Effect limits pk c)

end Tables
end ATape.Publication
