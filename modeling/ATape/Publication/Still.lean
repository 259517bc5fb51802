import ATape.Publication.Legacy

/-! What the calls leave alone. Only `Validate` binds versions or stores units, only an
activation selects a session, and only the first reservation of a source sets its floor. -/
namespace ATape.Publication
open Authorization Canonical Foundation Go SourceIdentity
variable {sessionID id attemptID : String} {ordinal : Nat} {unit : WriteBatch} {attempt : Attempt}
namespace Tables

def Stored (t : Tables) (sessionID id : String) (ordinal : Nat) (part : PartRow) (unit : WriteBatch) : Prop :=
  t.parts.lookup (id,ordinal) = some part ∧ fixedUnit part.payload = some unit ∧
    ∃ a, t.attempts.lookup id = some a ∧ a.sessionID = sessionID

/-- No unit is stored, and the records of the legacy sessions and the versions stay. -/
structure Still (t t' : Tables) : Prop where
  versions : t'.versions = t.versions
  threads : t'.threads = t.threads
  events : t'.events = t.events
  usage : t'.usage = t.usage
  units : ∀ sessionID id ordinal part unit, t'.Stored sessionID id ordinal part unit →
    t.Stored sessionID id ordinal part unit

/-- The revision that the versions of a source must exceed. -/
def floorOf (source : SourceRow) : Option Int := if source.legacyAdopted then some source.revisionFloor else none

def floor (t : Tables) (sessionID : String) : Option (Option Int) := (t.sources.lookup sessionID).map floorOf

/-- The sources keep their floors, and no session is selected. -/
structure Unmoved (t t' : Tables) : Prop where
  floors : ∀ sessionID, t'.floor sessionID = t.floor sessionID
  sessions : t'.sessions = t.sessions

variable {limits : Limits} {pk : Packages} {c : Context} {p : Principal} {t t' t'' : Tables}

theorem Still.refl (t : Tables) : t.Still t := ⟨rfl,rfl,rfl,rfl,fun _ _ _ _ _ stored => stored⟩

theorem Still.trans (first : t.Still t') (second : t'.Still t'') : t.Still t'' where
  versions := second.versions.trans first.versions
  threads := second.threads.trans first.threads
  events := second.events.trans first.events
  usage := second.usage.trans first.usage
  units sessionID id ordinal part unit stored :=
    first.units sessionID id ordinal part unit (second.units sessionID id ordinal part unit stored)

theorem Unmoved.refl (t : Tables) : t.Unmoved t := ⟨fun _ => rfl,rfl⟩

theorem Unmoved.trans (first : t.Unmoved t') (second : t'.Unmoved t'') : t.Unmoved t'' :=
  ⟨fun sessionID => (second.floors sessionID).trans (first.floors sessionID),second.sessions.trans first.sessions⟩

theorem Stored.of_parts {part : PartRow}
    (stored : t'.Stored sessionID id ordinal part unit) (parts : t'.parts = t.parts)
    (attempts : t'.attempts = t.attempts) : t.Stored sessionID id ordinal part unit := by
  unfold Stored at stored ⊢
  rw [← parts,← attempts]
  exact stored

theorem Stored.of_modify {id' : String} {part : PartRow}
    {f : AttemptRow → AttemptRow} (stored : t'.Stored sessionID id ordinal part unit) (parts : t'.parts = t.parts)
    (attempts : t'.attempts = t.attempts.modify id' f) (session : ∀ a, (f a).sessionID = a.sessionID) :
    t.Stored sessionID id ordinal part unit := by
  obtain ⟨place,fixed,a,known,same⟩ := stored
  rw [parts] at place
  rw [attempts,Table.lookup_modify] at known
  refine ⟨place,fixed,?_⟩
  split at known
  next =>
    obtain ⟨a',old,rfl⟩ := Option.map_eq_some_iff.mp known
    exact ⟨a',old,(session a').symm.trans same⟩
  next => exact ⟨a,known,same⟩

theorem modifyAttempt_still {f : AttemptRow → AttemptRow} (session : ∀ a, (f a).sessionID = a.sessionID) :
    t.Still (t.modifyAttempt id f) ∧ t.Unmoved (t.modifyAttempt id f) :=
  ⟨⟨rfl,rfl,rfl,rfl,fun _ _ _ _ _ stored => stored.of_modify rfl rfl session⟩,⟨fun _ => rfl,rfl⟩⟩

/-! Reservations -/

theorem createPublicationReservation_still {expiresAt : Int}
    (created : t.createPublicationReservation id sessionID expiresAt = .ok t') : t.Still t' ∧ t.Unmoved t' := by
  unfold createPublicationReservation at created
  simp only [bind_ok,failWhen_ok,Except.ok.injEq] at created
  obtain ⟨_,_,rfl⟩ := created
  exact ⟨⟨rfl,rfl,rfl,rfl,fun _ _ _ _ _ stored => stored⟩,⟨fun _ => rfl,rfl⟩⟩

/-- A source that is bound with a floor has that of its legacy tables. -/
def Floored (t : Tables) (sessionID : String) (source : SourceRow) : Prop :=
  source.legacyAdopted = true → ∃ session, t.sessions.lookup sessionID = some session ∧
    source.revisionFloor = t.legacyRevisionFloor sessionID session

theorem insertPublicationSource_still {source : SourceRow}
    (inserted : t.insertPublicationSource sessionID source = .ok t') :
    t.Still t' ∧ t'.sessions = t.sessions ∧ t.sources.lookup sessionID = none ∧
      t'.sources = t.sources.insert sessionID source := by
  have fresh := (insertPublicationSource_held inserted).1
  unfold insertPublicationSource at inserted
  simp only [bind_ok,failWhen_ok,Except.ok.injEq] at inserted
  obtain ⟨_,_,rfl⟩ := inserted
  exact ⟨⟨rfl,rfl,rfl,rfl,fun _ _ _ _ _ stored => stored⟩,rfl,fresh,rfl⟩

/-- A call that binds a source, or finds it bound. -/
def Binding (t t' : Tables) : Prop :=
  t.Unmoved t' ∨ t'.sessions = t.sessions ∧ ∃ sessionID source, t.sources.lookup sessionID = none ∧
    Floored t sessionID source ∧
    ∀ other, t'.floor other = if other = sessionID then some (floorOf source) else t.floor other

theorem bindSource_still {source : SourceRow} {adopt : Bool} {floor : Int}
    {threads : List Ingestion.Thread} (unadopted : source.legacyAdopted = false)
    (bound : t.bindSource sessionID source adopt = .ok (t',floor,threads)) : t.Still t' ∧ t.Binding t' := by
  have placed {source' : SourceRow} {t'' : Tables} (floored : Floored t sessionID source')
      (inserted : t.insertPublicationSource sessionID source' = .ok t'') : t.Still t'' ∧ t.Binding t'' := by
    obtain ⟨still,sessions,fresh,sources⟩ := insertPublicationSource_still inserted
    refine ⟨still,.inr ⟨sessions,sessionID,source',fresh,floored,fun other => ?_⟩⟩
    unfold Tables.floor
    rw [sources,Table.lookup_insert]
    split <;> rfl
  unfold bindSource at bound
  split at bound
  next =>
    simp only [bind_ok,failWhen_ok,Except.ok.injEq,Prod.mk.injEq] at bound
    obtain ⟨_,_,_,_,rfl,_⟩ := bound
    exact ⟨.refl _,.inl (.refl _)⟩
  next =>
    split at bound
    next =>
      simp only [bind_ok,Prod.exists,legacyBaseline,present_ok,failWhen_ok,Except.ok.injEq,Prod.mk.injEq] at bound
      obtain ⟨floor',threads',⟨legacy,known,_,_,_,_,_,_,rfl,_⟩,t'',inserted,rfl,_⟩ := bound
      exact placed (fun _ => ⟨legacy,known,rfl⟩) inserted
    next =>
      simp only [bind_ok,failWhen_ok,Except.ok.injEq,Prod.mk.injEq] at bound
      obtain ⟨_,_,t'',inserted,rfl,_⟩ := bound
      refine placed (fun adopted => ?_) inserted
      rw [unadopted] at adopted
      cases adopted

theorem reserveSource_still {scope : Scope} {adopt : Bool} {adoption : Adoption}
    (ran : t.reserveSource limits pk c p scope adopt = .ok (t',adoption)) : t.Still t' ∧ t.Binding t' := by
  unfold reserveSource at ran
  simp only [bind_ok,failWhen_ok,Prod.exists,newSource] at ran
  obtain ⟨_,_,_,_,_,_,t₁,floor,threads,bound,_,_,t₂,created,same⟩ := ran
  simp only [Except.ok.injEq,Prod.mk.injEq] at same
  obtain ⟨rfl,_⟩ := same
  obtain ⟨still,binding⟩ := bindSource_still rfl bound
  obtain ⟨still',unmoved⟩ := createPublicationReservation_still created
  refine ⟨still.trans still',?_⟩
  rcases binding with kept | ⟨sessions,sessionID,source,fresh,floored,floors⟩
  · exact .inl (kept.trans unmoved)
  · refine .inr ⟨unmoved.sessions.trans sessions,sessionID,source,fresh,floored,fun other => ?_⟩
    rw [unmoved.floors,floors]

/-! Attempts -/

theorem begin_still {input : Begin} (wired : Wired pk t)
    (ran : t.begin_ limits pk c p input = .ok (t',attempt)) : t.Still t' ∧ t.Unmoved t' := by
  unfold begin_ at ran
  simp only [bind_ok,failWhen_ok,Prod.exists] at ran
  obtain ⟨id,_,_,_,_,_,r,source,_,ran⟩ := ran
  split at ran
  next =>
    simp only [bind_ok,failWhen_ok,Except.ok.injEq,Prod.mk.injEq] at ran
    obtain ⟨_,_,rfl,_⟩ := ran
    exact ⟨.refl _,.refl _⟩
  next absent =>
    have fresh : t.attemptRows id = none := by simpa [getPublicationAttempt] using absent
    unfold createAttempt at ran
    simp only [bind_ok,failWhen_ok,Prod.exists] at ran
    obtain ⟨_,_,_,_,_,_,_,_,_,same⟩ := ran
    simp only [Except.ok.injEq,Prod.mk.injEq] at same
    obtain ⟨rfl,_⟩ := same
    refine ⟨⟨rfl,rfl,rfl,rfl,fun sessionID id' ordinal part unit stored => ?_⟩,⟨fun sessionID => ?_,rfl⟩⟩
    · obtain ⟨place,fixed,a,known,session⟩ := stored
      rw [Table.lookup_insert] at known
      split at known
      next here =>
        -- a new attempt has no parts
        have empty := wired.unbound (wired.fresh fresh) ordinal
        rw [← here] at empty
        cases place.symm.trans empty
      next => exact ⟨place,fixed,a,known,session⟩
    · exact Table.map_lookup_modify t.sources r.sessionID fenced floorOf (fun _ => rfl) sessionID

theorem put_still {digest : String} {ordinal : Int} {body : Bytes} {part : Part}
    (ran : t.put limits pk c p attemptID ordinal digest body = .ok (t',part)) : t.Still t' ∧ t.Unmoved t' := by
  unfold put at ran
  simp only [bind_ok,failWhen_ok,Prod.exists] at ran
  obtain ⟨id,_,_,_,_,_,_,_,_,_,_,_,_,_,_,_,ran⟩ := ran
  split at ran
  next =>
    simp only [bind_ok,failWhen_ok,Except.ok.injEq,Prod.mk.injEq] at ran
    obtain ⟨_,_,rfl,_⟩ := ran
    exact ⟨.refl _,.refl _⟩
  next =>
    unfold storePart at ran
    simp only [bind_ok,failWhen_ok,Prod.exists,insertPart,Except.ok.injEq,Prod.mk.injEq] at ran
    obtain ⟨_,⟨_,_,_,_,_,⟨_,_,rfl⟩,_,_,_,_,_,rfl⟩,rfl,_⟩ := ran
    refine ⟨⟨rfl,rfl,rfl,rfl,fun sessionID id' ordinal' part' unit stored => ?_⟩,⟨fun _ => rfl,rfl⟩⟩
    obtain ⟨place,fixed,a,known,session⟩ := stored
    have old : t.parts.lookup (id',ordinal') = some part' := by
      simp only [addPublicationBytes,modifyAttempt,Table.lookup_insert] at place
      split at place
      next =>
        cases place
        cases fixed
      next => exact place
    have attempt :
        Stored {t with attempts := t.attempts.modify id (putInto body.length)} sessionID id' ordinal' part' unit :=
      ⟨old,fixed,a,known,session⟩
    exact attempt.of_modify rfl rfl fun _ => rfl

theorem seal_still {manifest : Manifest}
    (ran : t.seal_ limits pk c p attemptID manifest = .ok (t',attempt)) : t.Still t' ∧ t.Unmoved t' := by
  unfold seal_ at ran
  simp only [bind_ok,failWhen_ok,Prod.exists] at ran
  obtain ⟨id,_,_,_,_,_,_,_,_,_,_,_,_,_,ran⟩ := ran
  split at ran
  next =>
    simp only [bind_ok,failWhen_ok,Except.ok.injEq,Prod.mk.injEq] at ran
    obtain ⟨_,_,rfl,_⟩ := ran
    exact ⟨.refl _,.refl _⟩
  next =>
    unfold sealParts at ran
    simp only [bind_ok,failWhen_ok,Prod.exists] at ran
    obtain ⟨_,_,_,_,_,_,_,_,_,_,_,done⟩ := ran
    simp only [Except.ok.injEq,Prod.mk.injEq] at done
    obtain ⟨rfl,_⟩ := done
    exact modifyAttempt_still fun _ => rfl

theorem renew_still (ran : t.renew limits pk c p attemptID = .ok (t',attempt)) : t.Still t' ∧ t.Unmoved t' := by
  unfold renew at ran
  simp only [bind_ok,failWhen_ok,Prod.exists] at ran
  obtain ⟨id,_,_,_,_,_,_,_,_,_,_,_,_,_,_,_,_,done⟩ := ran
  simp only [Except.ok.injEq,Prod.mk.injEq] at done
  obtain ⟨rfl,_⟩ := done
  exact modifyAttempt_still fun _ => rfl

theorem reject_still (ran : t.reject pk c p attemptID = .ok (t',attempt)) : t.Still t' ∧ t.Unmoved t' := by
  unfold reject at ran
  simp only [bind_ok,failWhen_ok,Prod.exists] at ran
  obtain ⟨id,_,_,_,_,_,_,_,_,_,_,_,_,_,_,done⟩ := ran
  simp only [Except.ok.injEq,Prod.mk.injEq] at done
  obtain ⟨rfl,_⟩ := done
  exact modifyAttempt_still fun _ => rfl

/-! Activation -/

theorem publishSession_frame {session : SessionRecord} (written : t.publishSession sessionID session = .ok t') :
    t.Still t' ∧ t'.sources = t.sources ∧
      ∀ other, other ≠ session.id → t'.sessions.lookup other = t.sessions.lookup other := by
  unfold publishSession at written
  split at written
  next =>
    simp only [bind_ok,Except.ok.injEq] at written
    obtain ⟨_,_,rfl⟩ := written
    refine ⟨⟨rfl,rfl,rfl,rfl,fun _ _ _ _ _ stored => stored⟩,rfl,fun other apart => ?_⟩
    rw [Table.lookup_insert,if_neg apart]
  next =>
    simp only [Except.ok.injEq] at written
    subst written
    refine ⟨⟨rfl,rfl,rfl,rfl,fun _ _ _ _ _ stored => stored⟩,rfl,fun other apart => ?_⟩
    rw [Table.lookup_modify,if_neg apart]

theorem fixedPublicationPart_ok (read : t.fixedPublicationPart id ordinal = .ok unit) :
    ∃ part, t.parts.lookup (id,ordinal) = some part ∧ fixedUnit part.payload = some unit := by
  unfold fixedPublicationPart at read
  simp only [bind_ok,present_ok] at read
  obtain ⟨part,place,read⟩ := read
  refine ⟨part,place,?_⟩
  split at read
  next => cases read
  next unit' size fixed =>
    simp only [bind_ok,failWhen_ok,Except.ok.injEq] at read
    obtain ⟨_,_,rfl⟩ := read
    rw [fixed]
    rfl

theorem activate_still {receipt : Activation} (ran : t.activate pk c p attemptID = .ok (t',receipt)) :
    t.Still t' ∧ (∀ sessionID, t'.floor sessionID = t.floor sessionID) ∧
      (t'.sessions = t.sessions ∨ ∃ sessionID id part unit, t.Stored sessionID id 0 part unit ∧
        ∀ other, other ≠ unit.session.id → t'.sessions.lookup other = t.sessions.lookup other) := by
  unfold activate at ran
  simp only [bind_ok,Prod.exists] at ran
  obtain ⟨id,_,_,_,_,_,_,row,a,known,ran⟩ := ran
  split at ran
  next =>
    simp only [Except.ok.injEq,Prod.mk.injEq] at ran
    obtain ⟨rfl,_⟩ := ran
    exact ⟨.refl _,fun _ => rfl,.inl rfl⟩
  next =>
    unfold selectHead activatePublicationSource at ran
    simp only [bind_ok,present_ok,failWhen_ok,Except.ok.injEq,Prod.mk.injEq] at ran
    obtain ⟨_,_,_,_,_,_,first,read,t₁,published,t₂,⟨_,_,rfl⟩,_,_,same,_⟩ := ran
    obtain ⟨r,s,rows,_⟩ := publicationAttempt_ok known
    obtain ⟨part,place,fixed⟩ := fixedPublicationPart_ok read
    obtain ⟨still,sources,sessions⟩ := publishSession_frame published
    subst same
    refine ⟨still.trans ⟨rfl,rfl,rfl,rfl,fun sessionID id' ordinal part unit stored => ?_⟩,fun sessionID => ?_,
      .inr ⟨row.sessionID,id,part,first,⟨place,fixed,row,(attemptRows_some.mp rows).1,rfl⟩,sessions⟩⟩
    · exact stored.of_modify rfl rfl fun _ => rfl
    · unfold Tables.floor
      rw [← sources]
      exact Table.map_lookup_modify t₁.sources a.sessionID (selected id) floorOf (fun _ => rfl) sessionID

/-! Reclamation -/

theorem reclaimParts_still {rows : List ((String × Nat) × PartRow)} (ran : t.reclaimParts rows = .ok t') :
    t.Still t' ∧ t.Unmoved t' := by
  induction rows generalizing t with
  | nil =>
    cases ran
    exact ⟨.refl _,.refl _⟩
  | cons row rows ih =>
    obtain ⟨⟨id,ordinal⟩,part⟩ := row
    simp only [reclaimParts,bind_ok,subtractPublicationBytes,failWhen_ok,Except.ok.injEq] at ran
    obtain ⟨t₁,⟨_,_,rfl⟩,rest⟩ := ran
    obtain ⟨still,unmoved⟩ := ih rest
    have erased : t.Still (t.deletePublicationPart id ordinal) := by
      refine ⟨rfl,rfl,rfl,rfl,fun sessionID id' ordinal' part' unit stored => ?_⟩
      obtain ⟨place,fixed,attempt⟩ := stored
      refine ⟨?_,fixed,attempt⟩
      simp only [deletePublicationPart,Table.lookup_erase] at place
      split at place
      next => cases place
      next => exact place
    have first : t.Unmoved (t.deletePublicationPart id ordinal) := ⟨fun _ => rfl,rfl⟩
    have counted {t : Tables} : t.Still (t.modifyAttempt id (reclaimed part)) ∧
        t.Unmoved (t.modifyAttempt id (reclaimed part)) := modifyAttempt_still fun _ => rfl
    exact ⟨(erased.trans counted.1).trans still,(first.trans counted.2).trans unmoved⟩

theorem deleteReservations_still {ids : List String} :
    t.Still (t.deleteReservations ids) ∧ t.Unmoved (t.deleteReservations ids) := by
  refine ⟨⟨rfl,rfl,rfl,rfl,fun sessionID id ordinal part unit stored => ?_⟩,⟨fun _ => rfl,rfl⟩⟩
  obtain ⟨place,fixed,a,known,session⟩ := stored
  simp only [deleteReservations,Table.lookup_keep] at place known
  exact ⟨(Option.filter_eq_some_iff.mp place).1,fixed,a,(Option.filter_eq_some_iff.mp known).1,session⟩

theorem reclaim_still {limit : Nat} {reclaimed : Reclaimed}
    (ran : t.reclaim pk c p limit = .ok (t',reclaimed)) : t.Still t' ∧ t.Unmoved t' := by
  unfold reclaim at ran
  simp only [bind_ok,failWhen_ok] at ran
  obtain ⟨_,_,_,_,t₁,parts,same⟩ := ran
  simp only [Except.ok.injEq,Prod.mk.injEq] at same
  obtain ⟨rfl,_⟩ := same
  obtain ⟨still,unmoved⟩ := reclaimParts_still parts
  obtain ⟨still',unmoved'⟩ := deleteReservations_still (t := t₁)
  exact ⟨still.trans still',unmoved.trans unmoved'⟩

end Tables
end ATape.Publication
