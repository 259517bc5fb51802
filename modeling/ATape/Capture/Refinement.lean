import ATape.Capture.Lifecycle

/-! Every accepted operation of the journal is one transition of its
lifecycle. An operation is first read back as the checks it passed and the
journal it leaves; what the lifecycle sees of that journal is then computed
through lookups. -/
namespace ATape.Capture
open Foundation Lifecycle

def ScopeRow.standing (row : ScopeRow) : Standing := ⟨row.checkpoint,row.canonicalCoverage⟩

def CaptureRow.phase (row : CaptureRow) : Phase :=
  ⟨row.state,row.activationReceipt,row.expectedCheckpoint,row.purpose,row.trackRecords⟩

def UnitRow.piece (row : UnitRow) : Piece := ⟨row.disposition,row.body⟩

/-- The complete observation that a record of this kind is compared with. -/
def ScopeRow.lastComplete (scope : ScopeRow) (kind : CaptureRecordKind) : Option String :=
  if kind = .raw then scope.observedRaw else scope.observedCanonical

namespace Journal

def view (s : Journal) : View where
  standing key := (s.scopes.lookup key).map ScopeRow.standing
  phase c := (s.captures.lookup c).map CaptureRow.phase
  piece u := (s.units.lookup u).map UnitRow.piece

theorem view_ext {v w : View} (standing : ∀ key, v.standing key = w.standing key)
    (phase : ∀ c, v.phase c = w.phase c) (piece : ∀ u, v.piece u = w.piece u) : v = w := by
  cases v
  cases w
  simp only [View.mk.injEq]
  exact ⟨funext standing,funext phase,funext piece⟩

theorem ownerScope_ok (s : Journal) (owner : CaptureOwner) (key : ScopeKey) (row : ScopeRow)
    (ok : s.ownerScope owner = .ok (key,row)) :
    scopeKey owner.scope = .ok key ∧ s.scopes.lookup key = some row ∧
      row.originKey = owner.scope.originKey ∧ row.epoch = owner.epoch := by
  simp only [ownerScope,bind_ok,present_ok,failWhen_ok,pure_ok,Prod.mk.injEq,not_not,exists_const] at ok
  obtain ⟨_,key',_,found,origin,epoch,rfl,rfl⟩ := ok
  exact ⟨key',found,origin,epoch⟩

theorem capture_ok (s : Journal) (c : CaptureKey) (row : CaptureRow) (ok : s.capture c = .ok row) :
    s.captures.lookup c = some row := by
  simp only [capture,bind_ok,present_ok] at ok
  obtain ⟨_,_,found⟩ := ok
  exact found

theorem countBytes_ok (s s' : Journal) (added dropped : Nat) (ok : s.countBytes added dropped = .ok s') :
    s' = {s with metadataBytes := s.metadataBytes+added-dropped} ∧ dropped ≤ s.metadataBytes+added := by
  simp only [countBytes,bind_ok,failWhen_ok,pure_ok,exists_const,not_lt] at ok
  exact ⟨ok.2.symm,ok.1⟩

theorem admitMetadata_ok (env : Settings) (s : Journal) (entries : Nat) (u : Unit) :
    s.admitMetadata env entries = .ok u ↔
      s.metadataEntries ≤ maxSafeInteger ∧ s.metadataEntries+entries ≤ env.limits.metadataEntries := by
  simp [admitMetadata,bind_ok]

theorem metadataCapacity_ok (env : Settings) (s : Journal) (additional : Nat) (u : Unit) :
    s.metadataCapacity env additional = .ok u ↔
      (s.retainedBytes ≤ maxSafeInteger ∧ s.metadataBytes ≤ maxSafeInteger) ∧
        s.retainedBytes+s.metadataBytes+additional ≤ env.limits.pendingBytes := by
  simp [metadataCapacity,bind_ok]

theorem claim_ok (env : Settings) (s s' : Journal) (scope : CaptureScope) (claimed : CaptureClaim)
    (ok : s.claim env scope = .ok (claimed,s')) :
    ∃ key, scopeKey scope = .ok key ∧
      ((∃ old, s.scopes.lookup key = some old ∧ old.originKey = scope.originKey ∧
          claimed = ⟨⟨scope,old.epoch+1⟩,old.checkpoint⟩ ∧
          s' = s.setScope key fun row => {row with epoch := row.epoch+1}) ∨
        (s.scopes.lookup key = none ∧ claimed = ⟨⟨scope,1⟩,none⟩ ∧
          s.metadataEntries+1 ≤ env.limits.metadataEntries ∧
          s' = {s with
            metadataEntries := s.metadataEntries+1
            scopes := s.scopes.insert key
              ⟨scope.originKey,1,none,false,none,none,none,0,none,none,0⟩})) := by
  simp only [claim,bind_ok] at ok
  obtain ⟨key,named,_,_,ok⟩ := ok
  refine ⟨key,named,?_⟩
  split at ok
  next old found =>
    simp only [bind_ok,failWhen_ok,pure_ok,exists_const,Prod.mk.injEq,not_not] at ok
    obtain ⟨origin,_,_,claimed,after⟩ := ok
    exact .inl ⟨old,found,origin,claimed.symm,after.symm⟩
  next missing =>
    simp only [bind_ok,admitMetadata_ok,pure_ok,exists_const,Prod.mk.injEq] at ok
    obtain ⟨⟨_,room⟩,claimed,after⟩ := ok
    exact .inr ⟨missing,claimed.symm,room,after.symm⟩

theorem reserve_ok (env : Settings) (s s' : Journal) (owner : CaptureOwner) (input : CaptureReservation)
    (ok : s.reserve env owner input = .ok s') :
    ∃ key scope, s.ownerScope owner = .ok (key,scope) ∧
      ((∃ previous, s.captures.lookup ⟨key,input.id⟩ = some previous ∧ s' = s ∧
          previous.trackRecords = input.trackRecords.getD false ∧
          previous.purpose = input.purpose.getD .publication ∧
          previous.expectedCheckpoint = input.expectedCheckpoint ∧
          previous.beginJson = input.beginJson ∧ previous.rawEnabled = input.rawEnabled) ∨
        (s.captures.lookup ⟨key,input.id⟩ = none ∧ scope.checkpoint = input.expectedCheckpoint ∧
          s.hasUnactivated key = false ∧ s.metadataEntries+1 ≤ env.limits.metadataEntries ∧
          s' = {s with
            metadataEntries := s.metadataEntries+1
            scopes := s.scopes.modify key fun row =>
              {row with recordsInitialized := row.recordsInitialized || input.trackRecords.getD false}
            captures := s.captures.insert ⟨key,input.id⟩
              (reserved input (input.purpose.getD .publication) (input.trackRecords.getD false))})) := by
  simp only [reserve,bind_ok] at ok
  obtain ⟨⟨key,scope⟩,owned,ok⟩ := ok
  refine ⟨key,scope,owned,?_⟩
  obtain ⟨_,_,_,_,_,_,_,_,_,_,ok⟩ := ok
  split at ok
  next previous found =>
    simp only [bind_ok,failWhen_ok,pure_ok,exists_const,not_or,not_not] at ok
    obtain ⟨⟨track,purpose,expected,begun,raw⟩,rfl⟩ := ok
    exact .inl ⟨previous,found,rfl,track,purpose,expected,begun,raw⟩
  next missing =>
    simp only [bind_ok,failWhen_ok,admitMetadata_ok,pure_ok,exists_const,not_not] at ok
    obtain ⟨current,_,_,alone,⟨_,room⟩,after⟩ := ok
    exact .inr ⟨missing,current,by simpa using alone,room,after.symm⟩

theorem append_ok (env : Settings) (s s' : Journal) (owner : CaptureOwner) (id : String)
    (unit : PreparedUnit) (ok : s.append env owner id unit = .ok s') :
    ∃ key scope row, s.ownerScope owner = .ok (key,scope) ∧ s.captures.lookup ⟨key,id⟩ = some row ∧
      ((∃ previous, s.units.lookup ⟨⟨key,id⟩,unit.kind,unit.ordinal.toNat⟩ = some previous ∧ s' = s ∧
          previous.digest = env.digest unit.bytes ∧ previous.byteCount = unit.bytes.size) ∨
        (s.units.lookup ⟨⟨key,id⟩,unit.kind,unit.ordinal.toNat⟩ = none ∧ row.state = .preparing ∧
          row.retainedBytes+row.sourceMetadataBytes+unit.bytes.size ≤ env.limits.targetBytes ∧
          s.retainedBytes+s.metadataBytes+unit.bytes.size ≤ env.limits.pendingBytes ∧
          s.metadataEntries+1 ≤ env.limits.metadataEntries ∧
          s' = {s with
            retainedBytes := s.retainedBytes+unit.bytes.size
            metadataEntries := s.metadataEntries+1
            captures := s.captures.modify ⟨key,id⟩ fun row =>
              {row with retainedBytes := row.retainedBytes+unit.bytes.size}
            units := s.units.insert ⟨⟨key,id⟩,unit.kind,unit.ordinal.toNat⟩
              ⟨unit.bytes.size,env.digest unit.bytes,some unit.bytes,.pending,none⟩})) := by
  simp only [append,bind_ok] at ok
  obtain ⟨⟨key,scope⟩,owned,row,found,_,_,_,_,_,_,_,_,ok⟩ := ok
  refine ⟨key,scope,row,owned,capture_ok s _ row found,?_⟩
  split at ok
  next previous known =>
    simp only [bind_ok,failWhen_ok,pure_ok,exists_const,not_or,not_not] at ok
    obtain ⟨⟨digest,size⟩,rfl⟩ := ok
    exact .inl ⟨previous,known,rfl,digest,size⟩
  next missing =>
    simp only [bind_ok,failWhen_ok,admitMetadata_ok,pure_ok,exists_const,not_or,not_not,not_lt] at ok
    obtain ⟨state,_,_,_,⟨_,target,pending⟩,⟨_,room⟩,after⟩ := ok
    exact .inr ⟨missing,state,target,pending,room,after.symm⟩

/-- What a version allocation reads of the known version: a new revision needs
a change, an absence from the baseline or a lost Raw object. -/
theorem nextVersion_ok (env : Settings) (s : Journal) (key : ScopeKey) (scope : ScopeRow)
    (row : CaptureRow) (id : String) (input : CaptureRecordInput) (changed : Bool) (actual : VersionRow)
    (ok : s.nextVersion env key scope row id input = .ok (changed,actual)) :
    s.metadataEntries+(if (s.sourceRecordVersions.lookup ⟨key,input.toCaptureRecordKey⟩).isNone
      then 2 else 1) ≤ env.limits.metadataEntries ∧
    ((s.sourceRecordVersions.lookup ⟨key,input.toCaptureRecordKey⟩ = none ∧ changed = true ∧
        actual = ⟨input.fingerprint,input.projectionVersion,scope.revisionFloor+1,input.rawReference,id,
          scope.lastComplete input.kind⟩) ∨
      ∃ previous, s.sourceRecordVersions.lookup ⟨key,input.toCaptureRecordKey⟩ = some previous ∧
        ∃ orphaned, s.orphanedReference key input.toCaptureRecordKey previous = .ok orphaned ∧
          ((changed = true ∧
              (previous.fingerprint ≠ input.fingerprint ∨
                previous.projectionVersion ≠ input.projectionVersion ∨
                s.wasAbsent key input.toCaptureRecordKey (scope.lastComplete input.kind)
                  previous.comparisonCapture = true ∨ orphaned = true) ∧
              actual = ⟨input.fingerprint,input.projectionVersion,previous.revision+1,input.rawReference,id,
                scope.lastComplete input.kind⟩) ∨
            (changed = false ∧ actual = previous ∧ previous.fingerprint = input.fingerprint ∧
              previous.projectionVersion = input.projectionVersion ∧
              s.wasAbsent key input.toCaptureRecordKey (scope.lastComplete input.kind)
                previous.comparisonCapture = false ∧ orphaned = false))) := by
  have compared : (if input.kind = .raw then scope.observedRaw else scope.observedCanonical) =
    scope.lastComplete input.kind := rfl
  simp only [nextVersion,bind_ok,admitMetadata_ok,compared] at ok
  obtain ⟨_,⟨_,room⟩,ok⟩ := ok
  refine ⟨room,?_⟩
  split at ok
  next missing =>
    simp only [bind_ok,pure_ok,Prod.mk.injEq] at ok
    obtain ⟨_,_,_,_,changed,actual⟩ := ok
    exact .inl ⟨missing,changed.symm,actual.symm⟩
  next previous known =>
    simp only [bind_ok] at ok
    obtain ⟨orphaned,lost,ok⟩ := ok
    refine .inr ⟨previous,known,orphaned,lost,?_⟩
    split at ok
    next moved =>
      simp only [bind_ok,pure_ok,Prod.mk.injEq] at ok
      obtain ⟨_,_,_,_,changed,actual⟩ := ok
      exact .inl ⟨changed.symm,moved,actual.symm⟩
    next still =>
      simp only [pure_ok,Prod.mk.injEq] at ok
      simp only [not_or,not_not,Bool.not_eq_true] at still
      exact .inr ⟨ok.1.symm,ok.2.symm,still.1,still.2.1,still.2.2.1,still.2.2.2⟩

theorem record_ok (env : Settings) (s s' : Journal) (owner : CaptureOwner) (id : String)
    (input : CaptureRecordInput) (version : CaptureRecordVersion)
    (ok : s.record env owner id input = .ok (version,s')) :
    ∃ key scope row, s.ownerScope owner = .ok (key,scope) ∧ s.captures.lookup ⟨key,id⟩ = some row ∧
      row.recordsRetired = false ∧
      ((∃ previous, s.captureRecords.lookup ⟨⟨key,id⟩,input.toCaptureRecordKey⟩ = some previous ∧ s' = s ∧
          previous.fingerprint = input.fingerprint ∧
          previous.projectionVersion = input.projectionVersion ∧
          recordVersion input.toCaptureRecordKey previous.fingerprint previous.projectionVersion
            previous.revision previous.rawReference = .ok version) ∨
        (s.captureRecords.lookup ⟨⟨key,id⟩,input.toCaptureRecordKey⟩ = none ∧ row.state = .preparing ∧
          ∃ changed actual, s.nextVersion env key scope row id input = .ok (changed,actual) ∧
            recordVersion input.toCaptureRecordKey input.fingerprint input.projectionVersion
              actual.revision actual.rawReference = .ok version ∧
            s' = {s with
              metadataEntries := s.metadataEntries+
                (if (s.sourceRecordVersions.lookup ⟨key,input.toCaptureRecordKey⟩).isNone then 2 else 1)
              captures := s.captures.modify ⟨key,id⟩ fun row =>
                {row with recordCount := row.recordCount+1, retainedRecords := row.retainedRecords+1}
              sourceRecordVersions := if changed then
                s.sourceRecordVersions.insert ⟨key,input.toCaptureRecordKey⟩ actual
                else s.sourceRecordVersions
              captureRecords := s.captureRecords.insert ⟨⟨key,id⟩,input.toCaptureRecordKey⟩
                ⟨input.fingerprint,input.projectionVersion,actual.revision,actual.rawReference,
                  actual.versionCapture,none,none,none,none⟩})) := by
  simp only [record,bind_ok] at ok
  obtain ⟨⟨key,scope⟩,owned,row,found,_,retained,_,_,_,_,_,_,_,_,_,_,n,_,_,_,ok⟩ := ok
  simp only [retainedMembership,failWhen_ok,Bool.not_eq_true] at retained
  refine ⟨key,scope,row,owned,capture_ok s _ row found,retained,?_⟩
  split at ok
  next previous known =>
    simp only [bind_ok,failWhen_ok,pure_ok,exists_const,not_or,not_not,Prod.mk.injEq] at ok
    obtain ⟨⟨fingerprint,projection⟩,version',same,rfl,rfl⟩ := ok
    exact .inl ⟨previous,known,rfl,fingerprint,projection,same⟩
  next missing =>
    simp only [bind_ok,failWhen_ok,pure_ok,exists_const,not_not,Prod.mk.injEq] at ok
    obtain ⟨state,_,⟨changed,actual⟩,next,version',same,rfl,after⟩ := ok
    exact .inr ⟨missing,state,changed,actual,next,same,after.symm⟩

theorem bindRecord_ok (s s' : Journal) (owner : CaptureOwner) (id : String) (identity : CaptureRecordKey)
    (binding : CaptureRecordBinding) (ok : s.bindRecord owner id identity binding = .ok s') :
    ∃ key scope row record content, s.ownerScope owner = .ok (key,scope) ∧
      s.captures.lookup ⟨key,id⟩ = some row ∧ s.getRecord ⟨⟨key,id⟩,identity⟩ = .ok record ∧
      s.boundContent ⟨key,id⟩ record identity binding = .ok content ∧
      ((record.content = content ∧ s' = s) ∨
        (record.unitCapture = none ∧ record.unavailableReason = none ∧ row.state = .preparing ∧
          s' = {s with captureRecords := s.captureRecords.modify ⟨⟨key,id⟩,identity⟩ fun record =>
            {record with
              unitCapture := content.unitCapture
              unitKind := content.unitKind
              unitOrdinal := content.unitOrdinal
              unavailableReason := content.unavailableReason}})) := by
  simp only [bindRecord,bind_ok] at ok
  obtain ⟨⟨key,scope⟩,owned,row,found,record,member,content,bound,ok⟩ := ok
  refine ⟨key,scope,row,record,content,owned,capture_ok s _ row found,member,bound,?_⟩
  split at ok
  next =>
    simp only [bind_ok,failWhen_ok,pure_ok,exists_const,not_not] at ok
    exact .inl ⟨ok.1,ok.2.symm⟩
  next unbound =>
    simp only [bind_ok,failWhen_ok,pure_ok,exists_const,not_not] at ok
    simp only [not_or,not_not] at unbound
    exact .inr ⟨unbound.1,unbound.2,ok.1,ok.2.symm⟩

theorem sealCapture_ok (env : Settings) (s s' : Journal) (owner : CaptureOwner) (id : String)
    (manifest : CaptureSeal) (ok : s.sealCapture env owner id manifest = .ok s') :
    ∃ key scope row, s.ownerScope owner = .ok (key,scope) ∧ s.captures.lookup ⟨key,id⟩ = some row ∧
      ((row.sealJson = some manifest ∧ s' = s) ∨
        (row.sealJson = none ∧ row.state = .preparing ∧
          s' = {s with
            captures := s.captures.modify ⟨key,id⟩ fun row =>
              {row with state := .sealed, sealJson := some manifest}
            scopes := s.scopes.modify key fun scope => {scope with
              observedCanonical :=
                if (manifest.records.bind CaptureRecordManifest.canonical).isSome then some id
                else scope.observedCanonical
              observedRaw :=
                if (manifest.records.bind CaptureRecordManifest.raw).any RawManifest.scopeComplete
                then some id else scope.observedRaw}})) := by
  simp only [sealCapture,bind_ok] at ok
  obtain ⟨⟨key,scope⟩,owned,row,found,_,_,_,_,_,_,_,_,_,_,_,_,ok⟩ := ok
  refine ⟨key,scope,row,owned,capture_ok s _ row found,?_⟩
  split at ok
  next known same =>
    simp only [bind_ok,failWhen_ok,pure_ok,exists_const,not_not] at ok
    obtain ⟨rfl,rfl⟩ := ok
    exact .inl ⟨same,rfl⟩
  next missing =>
    simp only [bind_ok,failWhen_ok,pure_ok,exists_const,not_not] at ok
    obtain ⟨state,_,after⟩ := ok
    exact .inr ⟨missing,state,after.symm⟩

theorem pruneRecords_ok (s s' : Journal) (owner : CaptureOwner) (limit : Int) (removed : Nat)
    (ok : s.pruneRecords owner limit = .ok (removed,s')) :
    ∃ key scope, s.ownerScope owner = .ok (key,scope) ∧
      ((s.prunable key scope = none ∧ removed = 0 ∧ s' = s) ∨
        ∃ id, s.prunable key scope = some id ∧
          removed = ((s.membersOf ⟨key,id⟩).take limit.toNat).length ∧
          s' = {s with
            metadataEntries := s.metadataEntries-removed
            captureRecords := s.captureRecords.keep fun m _ =>
              m ∉ (s.membersOf ⟨key,id⟩).take limit.toNat
            captures := s.captures.modify ⟨key,id⟩ fun row =>
              {row with recordsRetired := true, retainedRecords := row.retainedRecords-removed}}) := by
  simp only [pruneRecords,bind_ok] at ok
  obtain ⟨⟨key,scope⟩,owned,_,_,ok⟩ := ok
  refine ⟨key,scope,owned,?_⟩
  split at ok
  next missing =>
    simp only [pure_ok,Prod.mk.injEq] at ok
    exact .inl ⟨missing,ok.1.symm,ok.2.symm⟩
  next id found =>
    simp only [bind_ok,failWhen_ok,pure_ok,exists_const,Prod.mk.injEq] at ok
    obtain ⟨_,_,rfl,after⟩ := ok
    exact .inr ⟨id,found,rfl,after.symm⟩

theorem reclaim_ok (s s' : Journal) (owner : CaptureOwner) (id : String) (limit : Int) (removed : Nat)
    (ok : s.reclaim owner id limit = .ok (removed,s')) :
    ∃ key scope row, s.ownerScope owner = .ok (key,scope) ∧ s.captures.lookup ⟨key,id⟩ = some row ∧
      removed = (s.eligible ⟨key,id⟩ row limit.toNat).length ∧
      ∃ bytes, bytes = ((s.eligible ⟨key,id⟩ row limit.toNat).map fun (_,unit) => unit.byteCount).sum ∧
        s' = {s with
          retainedBytes := s.retainedBytes-bytes
          captures := s.captures.modify ⟨key,id⟩ fun row =>
            {row with retainedBytes := row.retainedBytes-bytes}
          units := s.units.updateAll fun k unit =>
            if k ∈ (s.eligible ⟨key,id⟩ row limit.toNat).map Prod.fst then {unit with body := none}
            else unit} := by
  simp only [reclaim,bind_ok,failWhen_ok,pure_ok,exists_const,Prod.mk.injEq] at ok
  obtain ⟨⟨key,scope⟩,owned,row,found,_,_,_,_,_,rfl,after⟩ := ok
  exact ⟨key,scope,row,owned,capture_ok s _ row found,rfl,_,rfl,after.symm⟩

private theorem view_claim (s : Journal) (key : ScopeKey) (n : Nat) :
    ({s with metadataEntries := n}.setScope key fun row => {row with epoch := row.epoch+1}).view = s.view := by
  apply view_ext
  · intro other
    exact Table.map_lookup_modify s.scopes key _ ScopeRow.standing (by intro _; rfl) other
  · intro c
    rfl
  · intro u
    rfl

theorem claim_step (env : Settings) (s s' : Journal) (scope : CaptureScope) (claimed : CaptureClaim)
    (ok : s.claim env scope = .ok (claimed,s')) : Step s.view none s'.view := by
  obtain ⟨key,_,⟨_,_,_,_,rfl⟩ | ⟨missing,_,_,rfl⟩⟩ := claim_ok env s s' scope claimed ok
  · have same := view_claim s key s.metadataEntries
    rw [same]
    exact .idle _
  · have step := Step.opened s.view key (by simp [view,missing])
    convert step using 1
    apply view_ext
    · intro other
      simp only [view,Table.lookup_insert,Function.update_apply]
      split <;> simp [ScopeRow.standing]
    · intro c
      rfl
    · intro u
      rfl

theorem hasUnactivated_false (s : Journal) (key : ScopeKey) (alone : s.hasUnactivated key = false)
    (c : CaptureKey) (p : Phase) (inside : c.scope = key) (found : s.view.phase c = some p) :
    ¬Lifecycle.unresolved p := by
  simp only [view,Option.map_eq_some_iff] at found
  obtain ⟨row,there,rfl⟩ := found
  have checked := (Table.any_eq_false_iff _ _).mp alone c row there
  simpa [inside,unresolved,Lifecycle.unresolved,CaptureRow.phase] using checked

theorem reserve_step (env : Settings) (s s' : Journal) (owner : CaptureOwner)
    (input : CaptureReservation) (ok : s.reserve env owner input = .ok s') : Step s.view none s'.view := by
  obtain ⟨key,scope,owned,⟨_,_,rfl,_⟩ | ⟨missing,current,alone,_,rfl⟩⟩ := reserve_ok env s s' owner input ok
  · exact .idle _
  · have known := (ownerScope_ok s owner key scope owned).2.1
    have step := Step.reserved s.view ⟨key,input.id⟩ scope.standing
      (reserved input (input.purpose.getD .publication) (input.trackRecords.getD false)).phase
      (by simp [view,known]) (by simp [view,missing])
      (fun c p inside found => hasUnactivated_false s key alone c p inside found) current rfl rfl
    convert step using 1
    apply view_ext
    · intro other
      exact Table.map_lookup_modify s.scopes key _ ScopeRow.standing (by intro _; rfl) other
    · intro c
      simp only [view,Table.lookup_insert,Function.update_apply]
      split <;> simp
    · intro u
      rfl

theorem append_step (env : Settings) (s s' : Journal) (owner : CaptureOwner) (id : String)
    (unit : PreparedUnit) (ok : s.append env owner id unit = .ok s') : Step s.view none s'.view := by
  obtain ⟨key,scope,row,_,found,⟨_,_,rfl,_⟩ | ⟨missing,state,_,_,_,rfl⟩⟩ := append_ok env s s' owner id unit ok
  · exact .idle _
  · have step := Step.prepared s.view ⟨⟨key,id⟩,unit.kind,unit.ordinal.toNat⟩ unit.bytes row.phase
      (by simp [view,found]) state (by simp [view,missing])
    convert step using 1
    apply view_ext
    · intro other
      rfl
    · intro c
      exact Table.map_lookup_modify s.captures ⟨key,id⟩ _ CaptureRow.phase (by intro _; rfl) c
    · intro u
      simp only [view,Table.lookup_insert,Function.update_apply]
      split <;> simp [UnitRow.piece]

theorem record_step (env : Settings) (s s' : Journal) (owner : CaptureOwner) (id : String)
    (input : CaptureRecordInput) (version : CaptureRecordVersion)
    (ok : s.record env owner id input = .ok (version,s')) : Step s.view none s'.view := by
  obtain ⟨key,scope,row,_,_,_,⟨_,_,rfl,_⟩ | ⟨_,_,_,_,_,_,rfl⟩⟩ := record_ok env s s' owner id input version ok
  · exact .idle _
  · convert Step.idle s.view using 1
    apply view_ext
    · intro other
      rfl
    · intro c
      exact Table.map_lookup_modify s.captures ⟨key,id⟩ _ CaptureRow.phase (by intro _; rfl) c
    · intro u
      rfl

theorem bindRecord_step (s s' : Journal) (owner : CaptureOwner) (id : String)
    (identity : CaptureRecordKey) (binding : CaptureRecordBinding)
    (ok : s.bindRecord owner id identity binding = .ok s') : Step s.view none s'.view := by
  obtain ⟨_,_,_,_,_,_,_,_,_,⟨_,rfl⟩ | ⟨_,_,_,rfl⟩⟩ := bindRecord_ok s s' owner id identity binding ok
  · exact .idle _
  · exact .idle _

theorem sealCapture_step (env : Settings) (s s' : Journal) (owner : CaptureOwner) (id : String)
    (manifest : CaptureSeal) (ok : s.sealCapture env owner id manifest = .ok s') :
    Step s.view none s'.view := by
  obtain ⟨key,scope,row,_,found,⟨_,rfl⟩ | ⟨_,state,rfl⟩⟩ := sealCapture_ok env s s' owner id manifest ok
  · exact .idle _
  · have step := Step.sealed s.view ⟨key,id⟩ row.phase (by simp [view,found]) state
    convert step using 1
    apply view_ext
    · intro other
      exact Table.map_lookup_modify s.scopes key _ ScopeRow.standing (by intro _; rfl) other
    · intro c
      simp only [view,Table.lookup_modify,Function.update_apply]
      split
      next same =>
        subst same
        simp [found,CaptureRow.phase]
      next => rfl
    · intro u
      rfl

theorem pruneRecords_step (s s' : Journal) (owner : CaptureOwner) (limit : Int) (removed : Nat)
    (ok : s.pruneRecords owner limit = .ok (removed,s')) : Step s.view none s'.view := by
  obtain ⟨key,_,_,⟨_,_,rfl⟩ | ⟨id,_,_,rfl⟩⟩ := pruneRecords_ok s s' owner limit removed ok
  · exact .idle _
  · convert Step.idle s.view using 1
    apply view_ext
    · intro other
      rfl
    · intro c
      exact Table.map_lookup_modify s.captures ⟨key,id⟩ _ CaptureRow.phase (by intro _; rfl) c
    · intro u
      rfl

theorem eligible_resolved (s : Journal) (c : CaptureKey) (row : CaptureRow) (limit : Nat) (k : UnitKey)
    (unit : UnitRow) (member : (k,unit) ∈ s.eligible c row limit) :
    s.units.lookup k = some unit ∧ k.capture = c ∧
      resolved row.state row.activationReceipt k.kind unit.disposition = true := by
  have listed := List.mem_of_mem_take member
  rw [List.mem_insertionSort,List.mem_filter,Table.mem_rows] at listed
  obtain ⟨found,passed⟩ := listed
  simp only [decide_eq_true_eq] at passed
  exact ⟨found,passed.1,passed.2.2⟩

theorem reclaim_step (s s' : Journal) (owner : CaptureOwner) (id : String) (limit : Int) (removed : Nat)
    (ok : s.reclaim owner id limit = .ok (removed,s')) : Step s.view none s'.view := by
  obtain ⟨key,scope,row,_,found,_,bytes,_,rfl⟩ := reclaim_ok s s' owner id limit removed ok
  have step := Step.reclaimed s.view ⟨key,id⟩
    (fun u => if u ∈ (s.eligible ⟨key,id⟩ row limit.toNat).map Prod.fst
      then (s.view.piece u).map fun q => {q with body := none} else s.view.piece u)
    row.phase (by simp [view,found]) (by
      intro u
      split
      next member =>
        obtain ⟨⟨k,unit⟩,listed,rfl⟩ := List.mem_map.mp member
        obtain ⟨there,inside,passed⟩ := eligible_resolved s _ row _ k unit listed
        refine .inr ⟨inside,unit.piece,by simp [view,there],?_,by simp [view,there]⟩
        simpa [resolved,Resolved,CaptureRow.phase,UnitRow.piece,or_assoc] using passed
      next => exact .inl rfl)
  convert step using 1
  apply view_ext
  · intro other
    rfl
  · intro c
    exact Table.map_lookup_modify s.captures ⟨key,id⟩ _ CaptureRow.phase (by intro _; rfl) c
  · intro u
    simp only [view,Table.lookup_updateAll,Option.map_map]
    split
    next member =>
      congr 1
    next absent =>
      congr 1

theorem rawPending_iff (s : Journal) (c : CaptureKey) : s.rawPending c = true ↔ s.view.owes c := by
  simp only [rawPending,Table.any_iff,View.owes,view,Option.map_eq_some_iff]
  constructor
  · rintro ⟨u,unit,found,held⟩
    simp only [Bool.and_eq_true,decide_eq_true_eq] at held
    exact ⟨u,unit.piece,⟨unit,found,rfl⟩,held.1.1,held.1.2,held.2⟩
  · rintro ⟨u,_,⟨unit,found,rfl⟩,inside,raw,pending⟩
    exact ⟨u,unit,found,by simpa [inside,raw,UnitRow.piece] using pending⟩

theorem view_setCapture (s : Journal) (c : CaptureKey) (f : CaptureRow → CaptureRow) (g : Phase → Phase)
    (same : ∀ row, (f row).phase = g row.phase) :
    (s.setCapture c f).view = {s.view with phase := Function.update s.view.phase c ((s.view.phase c).map g)} := by
  apply view_ext
  · intro key
    rfl
  · intro d
    simp only [view,setCapture,Table.lookup_modify,Function.update_apply]
    split
    next equal =>
      subst equal
      simp only [Option.map_map]
      congr 1
      exact funext same
    next => rfl
  · intro u
    rfl

theorem view_setUnit (s : Journal) (u : UnitKey) (f : UnitRow → UnitRow) (g : Piece → Piece)
    (same : ∀ row, (f row).piece = g row.piece) :
    (s.setUnit u f).view = {s.view with piece := Function.update s.view.piece u ((s.view.piece u).map g)} := by
  apply view_ext
  · intro key
    rfl
  · intro c
    rfl
  · intro v
    simp only [view,setUnit,Table.lookup_modify,Function.update_apply]
    split
    next equal =>
      subst equal
      simp only [Option.map_map]
      congr 1
      exact funext same
    next => rfl

theorem view_complete (s : Journal) (c : CaptureKey) : (s.complete c).view = s.view.complete c := by
  have owing := rawPending_iff s c
  unfold complete View.complete
  by_cases pending : s.rawPending c = true
  · rw [if_pos pending,if_pos (owing.mp pending)]
  · rw [if_neg pending,if_neg (fun owed => pending (owing.mpr owed))]
    apply view_setCapture
    intro row
    unfold View.finish
    by_cases given : row.activationReceipt.isSome = true
    · simp [CaptureRow.phase,given]
    · simp [CaptureRow.phase,given]

theorem settleCanonical_ok (s s' : Journal) (c : CaptureKey) (row : CaptureRow) (ordinal : Int)
    (receiptJson : String) (ok : s.settleCanonical c row ordinal receiptJson = .ok s') :
    ∃ unit, s.units.lookup ⟨c,.canonical,ordinal.toNat⟩ = some unit ∧
      ((unit.receiptJson = some receiptJson ∧ s' = s) ∨
        (unit.receiptJson = none ∧ row.state = .sealed ∧
          s' = s.setUnit ⟨c,.canonical,ordinal.toNat⟩ fun unit =>
            {unit with disposition := .acknowledged, receiptJson := some receiptJson})) := by
  simp only [settleCanonical,bind_ok,present_ok] at ok
  obtain ⟨_,_,_,_,unit,found,ok⟩ := ok
  refine ⟨unit,found,?_⟩
  split at ok
  next known same =>
    simp only [bind_ok,failWhen_ok,pure_ok,exists_const,not_not] at ok
    obtain ⟨rfl,rfl⟩ := ok
    exact .inl ⟨same,rfl⟩
  next missing =>
    simp only [bind_ok,failWhen_ok,pure_ok,exists_const,not_not] at ok
    exact .inr ⟨missing,ok.1,ok.2.symm⟩

theorem settleCanonical_step (s s' : Journal) (c : CaptureKey) (row : CaptureRow) (ordinal : Int)
    (receiptJson : String) (owner : s.captures.lookup c = some row)
    (ok : s.settleCanonical c row ordinal receiptJson = .ok s') : Step s.view none s'.view := by
  obtain ⟨unit,found,⟨_,rfl⟩ | ⟨_,state,rfl⟩⟩ := settleCanonical_ok s s' c row ordinal receiptJson ok
  · exact .idle _
  · rw [view_setUnit s _ _ (fun piece => {piece with disposition := .acknowledged}) (by intro _; rfl)]
    have step := Step.acknowledged s.view ⟨c,.canonical,ordinal.toNat⟩ row.phase unit.piece
      (by simp [view,owner]) state rfl (by simp [view,found])
    simpa [view,found] using step

/-- An activation that takes effect, as one update of the journal before the
capture is completed. -/
def activatedRows (s : Journal) (c : CaptureKey) (row : CaptureRow) (next receiptJson : String)
    (n : Nat) : Journal := {s with
  metadataBytes := n
  scopes := if row.purpose = .publication then s.scopes.modify c.scope fun scope => {scope with
      checkpoint := some next
      canonicalCoverage := if row.trackRecords then some c.id else scope.canonicalCoverage
      adoptionMetadata := none
      adoptionMetadataBytes := 0}
    else s.scopes
  captures :=
    let captures := s.captures.modify c fun row =>
      {row with state := .activated, activationReceipt := some receiptJson}
    if row.purpose = .publication then captures.updateAll fun k row =>
      if superseded c k row then dropSourceMetadata row else row
    else captures}

def droppedBytes (s : Journal) (c : CaptureKey) (scope : ScopeRow) : Nat :=
  scope.adoptionMetadataBytes+
    s.captures.total fun k row => if superseded c k row then row.sourceMetadataBytes else 0

theorem superseded_modify (s : Journal) (c : CaptureKey) (receiptJson : String) :
    ((s.captures.modify c fun row =>
      {row with state := .activated, activationReceipt := some receiptJson}).total fun k row =>
        if superseded c k row then row.sourceMetadataBytes else 0) =
      s.captures.total fun k row => if superseded c k row then row.sourceMetadataBytes else 0 := by
  apply Table.total_modify_same
  intro row
  simp [superseded]

theorem settleActivated_ok (s s' : Journal) (c : CaptureKey) (scope : ScopeRow) (row : CaptureRow)
    (receiptJson : String) (ok : s.settleActivated c scope row receiptJson = .ok s') :
    (row.activationReceipt = some receiptJson ∧ s' = s) ∨
      (row.activationReceipt = none ∧ row.state = .sealed ∧
        scope.checkpoint = row.expectedCheckpoint ∧
        ∃ manifest n, row.sealJson = some manifest ∧
          n+(if row.purpose = .publication then s.droppedBytes c scope else 0) = s.metadataBytes ∧
          s' = (s.activatedRows c row manifest.nextCheckpoint receiptJson n).complete c) := by
  simp only [settleActivated,bind_ok] at ok
  obtain ⟨_,_,ok⟩ := ok
  split at ok
  next known same =>
    simp only [bind_ok,failWhen_ok,pure_ok,exists_const,not_not] at ok
    obtain ⟨rfl,rfl⟩ := ok
    exact .inl ⟨same,rfl⟩
  next missing =>
    simp only [bind_ok,failWhen_ok,present_ok,exists_const,not_not] at ok
    obtain ⟨state,manifest,sealed',current,ok⟩ := ok
    refine .inr ⟨missing,state,current,manifest,?_⟩
    split at ok
    next publication =>
      simp only [bind_ok,pure_ok] at ok
      obtain ⟨counted,count,rfl⟩ := ok
      obtain ⟨same,enough⟩ := countBytes_ok _ _ _ _ count
      simp only [setCapture,superseded_modify] at same enough
      refine ⟨counted.metadataBytes,sealed',?_,?_⟩
      · subst same
        simp only [if_pos publication,droppedBytes]
        omega
      · subst same
        simp only [activatedRows,if_pos publication]
    next other =>
      simp only [pure_ok] at ok
      refine ⟨s.metadataBytes,sealed',by rw [if_neg other,Nat.add_zero],?_⟩
      rw [← ok]
      simp only [activatedRows,if_neg other,setCapture]

theorem view_activatedRows (s : Journal) (c : CaptureKey) (scope : ScopeRow) (row : CaptureRow)
    (next receiptJson : String) (n : Nat) (known : s.scopes.lookup c.scope = some scope)
    (owner : s.captures.lookup c = some row) :
    (s.activatedRows c row next receiptJson n).view =
      s.view.activate c row.phase scope.standing receiptJson next := by
  have marked : ∀ d, ((s.captures.modify c fun row =>
      {row with state := .activated, activationReceipt := some receiptJson}).lookup d).map CaptureRow.phase =
        Function.update s.view.phase c
          (some {row.phase with state := .activated, receipt := some receiptJson}) d := by
    intro d
    rw [Table.lookup_modify,Function.update_apply]
    split
    next same =>
      subst same
      simp [owner,CaptureRow.phase]
    next => rfl
  unfold activatedRows View.activate
  by_cases publication : row.purpose = .publication
  · have purpose : row.phase.purpose = .publication := publication
    simp only [if_pos publication,if_pos purpose]
    apply view_ext
    · intro key
      simp only [view,Table.lookup_modify,Function.update_apply]
      split
      next same =>
        subst same
        simp only [known,ScopeRow.standing,Option.map_some]
        rfl
      next => rfl
    · intro d
      refine (Table.map_lookup_updateAll _ _ CaptureRow.phase ?_ d).trans (marked d)
      intro k other
      split
      · rfl
      · rfl
    · intro u
      rfl
  · have purpose : ¬row.phase.purpose = .publication := publication
    simp only [if_neg publication,if_neg purpose]
    apply view_ext
    · intro key
      rfl
    · exact marked
    · intro u
      rfl

theorem settleActivated_step (s s' : Journal) (c : CaptureKey) (scope : ScopeRow) (row : CaptureRow)
    (receiptJson : String) (known : s.scopes.lookup c.scope = some scope)
    (owner : s.captures.lookup c = some row)
    (ok : s.settleActivated c scope row receiptJson = .ok s') :
    Step s.view none s'.view ∨ Step s.view (some (c,receiptJson)) s'.view := by
  obtain ⟨_,rfl⟩ | ⟨_,state,current,manifest,n,_,_,rfl⟩ :=
    settleActivated_ok s s' c scope row receiptJson ok
  · exact .inl (.idle _)
  · refine .inr ?_
    rw [view_complete,view_activatedRows s c scope row _ _ n known owner]
    exact .activated _ c row.phase scope.standing receiptJson manifest.nextCheckpoint
      (by simp [view,owner]) state (by simp [view,known]) current

theorem settleRaw_ok (s s' : Journal) (c : CaptureKey) (row : CaptureRow) (ordinal : Int)
    (receiptJson : String) (ok : s.settleRaw c row ordinal receiptJson = .ok s') :
    row.activationReceipt ≠ none ∧
      ∃ unit, s.units.lookup ⟨c,.raw,ordinal.toNat⟩ = some unit ∧
        (∀ known, unit.receiptJson = some known → known = receiptJson) ∧
        s' = (s.setUnit ⟨c,.raw,ordinal.toNat⟩ fun unit =>
          {unit with disposition := .acknowledged, receiptJson := some receiptJson}).complete c := by
  simp only [settleRaw,bind_ok,failWhen_ok,present_ok,pure_ok,exists_const] at ok
  obtain ⟨_,_,_,_,activated,unit,found,same,after⟩ := ok
  refine ⟨activated,unit,found,?_,after.symm⟩
  intro known held
  by_contra different
  exact same (by simp [held,different])

theorem settleUnitCanceled_ok (s s' : Journal) (c : CaptureKey) (row : CaptureRow) (ordinal : Int)
    (ok : s.settleUnitCanceled c row ordinal = .ok s') :
    row.activationReceipt ≠ none ∧ row.rawCancelReason ≠ none ∧
      ∃ unit, s.units.lookup ⟨c,.raw,ordinal.toNat⟩ = some unit ∧
        s' = (s.setUnit ⟨c,.raw,ordinal.toNat⟩ cancelPending).complete c := by
  simp only [settleUnitCanceled,bind_ok,failWhen_ok,pure_ok,exists_const,not_or,
    Option.isNone_iff_eq_none] at ok
  obtain ⟨_,_,⟨activated,canceled⟩,found,after⟩ := ok
  obtain ⟨unit,found⟩ := Option.ne_none_iff_exists'.mp found
  exact ⟨activated,canceled,unit,found,after.symm⟩

theorem settleCancellation_ok (s s' : Journal) (c : CaptureKey) (all : Bool) (reason : String)
    (ok : s.settleCancellation c all reason = .ok s') :
    s' = Journal.complete {s with
      captures := s.captures.modify c fun row =>
        {row with rawCancelReason := row.rawCancelReason.or (some reason)}
      units := s.units.updateAll fun k unit =>
        if all && k.capture = c && k.kind = .raw then cancelPending unit else unit} c := by
  simp only [settleCancellation,bind_ok,pure_ok] at ok
  obtain ⟨_,_,after⟩ := ok
  exact after.symm

theorem abandon_ok (s s' : Journal) (c : CaptureKey) (row : CaptureRow) (rejectionReceipt : Option String)
    (ok : s.abandon c row rejectionReceipt = .ok s') :
    row.sourceMetadataBytes ≤ s.metadataBytes ∧
      s' = {s with metadataBytes := s.metadataBytes-row.sourceMetadataBytes}.setCapture c fun row =>
        {dropSourceMetadata row with
          state := .abandoned, rejectionReceipt := rejectionReceipt.or row.rejectionReceipt} := by
  simp only [abandon,bind_ok,pure_ok] at ok
  obtain ⟨counted,count,rfl⟩ := ok
  obtain ⟨rfl,enough⟩ := countBytes_ok _ _ _ _ count
  exact ⟨enough,rfl⟩

theorem settleRejected_ok (s s' : Journal) (c : CaptureKey) (row : CaptureRow) (receiptJson : String)
    (ok : s.settleRejected c row receiptJson = .ok s') :
    (row.rejectionReceipt = some receiptJson ∧ s' = s) ∨
      (row.rejectionReceipt = none ∧ row.state = .sealed ∧
        s.abandon c row (some receiptJson) = .ok s') := by
  simp only [settleRejected,bind_ok] at ok
  obtain ⟨_,_,ok⟩ := ok
  split at ok
  next known same =>
    simp only [bind_ok,failWhen_ok,pure_ok,exists_const,not_not] at ok
    obtain ⟨rfl,rfl⟩ := ok
    exact .inl ⟨same,rfl⟩
  next missing =>
    simp only [bind_ok,failWhen_ok,exists_const,not_not] at ok
    exact .inr ⟨missing,ok.1,ok.2⟩

theorem settleAbandoned_ok (s s' : Journal) (c : CaptureKey) (row : CaptureRow)
    (ok : s.settleAbandoned c row = .ok s') :
    (row.state = .abandoned ∧ s' = s) ∨ (row.state = .preparing ∧ s.abandon c row none = .ok s') := by
  unfold settleAbandoned at ok
  split at ok
  next gone =>
    simp only [pure_ok] at ok
    exact .inl ⟨gone,ok.symm⟩
  next =>
    simp only [bind_ok,failWhen_ok,exists_const,not_not] at ok
    exact .inr ok

private theorem cancelPending_piece (unit : UnitRow) :
    (cancelPending unit).piece = unit.piece ∨
      ∃ d, d ≠ .pending ∧ (cancelPending unit).piece = {unit.piece with disposition := d} := by
  unfold cancelPending
  split
  · exact .inr ⟨.canceled,by decide,rfl⟩
  · exact .inl rfl

private theorem settled_step (s s' : Journal) (c : CaptureKey)
    (standing : ∀ key, s'.view.standing key = s.view.standing key)
    (phase : ∀ d, s'.view.phase d = s.view.phase d)
    (only : ∀ u, s'.view.piece u = s.view.piece u ∨
      u.capture = c ∧ u.kind = .raw ∧ ∃ p d, s.view.piece u = some p ∧ d ≠ .pending ∧
        s'.view.piece u = some {p with disposition := d}) :
    Step s.view none (s'.complete c).view := by
  have step := Step.settled s.view c s'.view.piece only
  have same : s'.view = {s.view with piece := s'.view.piece} :=
    view_ext standing phase fun _ => rfl
  rw [view_complete,same]
  exact step

theorem settleRaw_step (s s' : Journal) (c : CaptureKey) (row : CaptureRow) (ordinal : Int)
    (receiptJson : String) (ok : s.settleRaw c row ordinal receiptJson = .ok s') :
    Step s.view none s'.view := by
  obtain ⟨_,unit,found,_,rfl⟩ := settleRaw_ok s s' c row ordinal receiptJson ok
  apply settled_step
  · intro key
    rfl
  · intro d
    rfl
  · intro u
    rw [view_setUnit s _ _ (fun piece => {piece with disposition := .acknowledged}) (by intro _; rfl)]
    by_cases same : u = ⟨c,.raw,ordinal.toNat⟩
    · subst same
      exact .inr ⟨rfl,rfl,unit.piece,.acknowledged,by simp [view,found],by decide,by simp [view,found]⟩
    · exact .inl (by simp [same])

theorem settleUnitCanceled_step (s s' : Journal) (c : CaptureKey) (row : CaptureRow) (ordinal : Int)
    (ok : s.settleUnitCanceled c row ordinal = .ok s') : Step s.view none s'.view := by
  obtain ⟨_,_,unit,found,rfl⟩ := settleUnitCanceled_ok s s' c row ordinal ok
  apply settled_step
  · intro key
    rfl
  · intro d
    rfl
  · intro u
    simp only [view,setUnit,Table.lookup_modify]
    by_cases same : u = ⟨c,.raw,ordinal.toNat⟩
    · subst same
      rcases cancelPending_piece unit with kept | ⟨d,settled,moved⟩
      · exact .inl (by simp [found,kept])
      · exact .inr ⟨rfl,rfl,unit.piece,d,by simp [found],settled,by simp [found,moved]⟩
    · exact .inl (by simp [same])

theorem settleCancellation_step (s s' : Journal) (c : CaptureKey) (all : Bool) (reason : String)
    (ok : s.settleCancellation c all reason = .ok s') : Step s.view none s'.view := by
  rw [settleCancellation_ok s s' c all reason ok]
  apply settled_step
  · intro key
    rfl
  · intro d
    exact Table.map_lookup_modify s.captures c _ CaptureRow.phase (by intro _; rfl) d
  · intro u
    simp only [view,Table.lookup_updateAll,Option.map_map]
    cases found : s.units.lookup u with
    | none => exact .inl rfl
    | some unit =>
      by_cases chosen : (all && u.capture = c && u.kind = .raw) = true
      · have where' := chosen
        simp only [Bool.and_eq_true,decide_eq_true_eq] at where'
        rcases cancelPending_piece unit with kept | ⟨d,settled,moved⟩
        · exact .inl (by simp [chosen,kept])
        · exact .inr ⟨where'.1.2,where'.2,unit.piece,d,rfl,settled,by simp [chosen,moved]⟩
      · exact .inl (by simp [chosen])

private theorem abandon_step (s s' : Journal) (c : CaptureKey) (row : CaptureRow)
    (rejectionReceipt : Option String) (owner : s.captures.lookup c = some row)
    (still : row.state = .preparing ∨ row.state = .sealed)
    (ok : s.abandon c row rejectionReceipt = .ok s') : Step s.view none s'.view := by
  obtain ⟨_,rfl⟩ := abandon_ok s s' c row rejectionReceipt ok
  rw [view_setCapture _ _ _ (fun p => {p with state := .abandoned}) (by intro _; rfl)]
  have step := Step.abandoned s.view c row.phase (by simp [view,owner]) still
  simpa [view,owner] using step

theorem settle_step (s s' : Journal) (owner : CaptureOwner) (id : String)
    (settlement : CaptureSettlement) (ok : s.settle owner id settlement = .ok s') :
    Step s.view none s'.view ∨ ∃ key receipt, settlement = .activated receipt ∧
      scopeKey owner.scope = .ok key ∧ Step s.view (some (⟨key,id⟩,receipt)) s'.view := by
  simp only [settle,bind_ok] at ok
  obtain ⟨⟨key,scope⟩,owned,row,read,ok⟩ := ok
  obtain ⟨named,known,_,_⟩ := ownerScope_ok s owner key scope owned
  have found := capture_ok s _ row read
  cases settlement with
  | activated receiptJson =>
    rcases settleActivated_step s s' _ scope row receiptJson known found ok with same | step
    · exact .inl same
    · exact .inr ⟨key,receiptJson,rfl,named,step⟩
  | canonicalAcknowledged ordinal receiptJson =>
    exact .inl (settleCanonical_step s s' _ row ordinal receiptJson found ok)
  | rawAcknowledged ordinal receiptJson => exact .inl (settleRaw_step s s' _ row ordinal receiptJson ok)
  | rawCancellationStarted reason => exact .inl (settleCancellation_step s s' _ false reason ok)
  | rawUnitCanceled ordinal => exact .inl (settleUnitCanceled_step s s' _ row ordinal ok)
  | rawCanceled reason => exact .inl (settleCancellation_step s s' _ true reason ok)
  | abandonUnsealed =>
    rcases settleAbandoned_ok s s' _ row ok with ⟨_,rfl⟩ | ⟨state,gone⟩
    · exact .inl (.idle _)
    · exact .inl (abandon_step s s' _ row none found (.inl state) gone)
  | rejected receiptJson =>
    rcases settleRejected_ok s s' _ row receiptJson ok with ⟨_,rfl⟩ | ⟨_,state,gone⟩
    · exact .inl (.idle _)
    · exact .inl (abandon_step s s' _ row _ found (.inr state) gone)

theorem freezeLegacyMigration_ok (env : Settings) (s s' : Journal) (projectId adapterId : String)
    (input frozen : CaptureLegacyMigration)
    (ok : s.freezeLegacyMigration env projectId adapterId input = .ok (frozen,s')) :
    frozen = input ∧ env.digest input.checkpointJson.toUTF8 = input.checkpointDigest ∧
      ((∃ previous, s.legacyMigrations.lookup ⟨projectId,adapterId,input.checkpointDigest⟩ = some previous ∧
          previous.checkpointSha = input.checkpointDigest ∧
          previous.checkpointJson = input.checkpointJson ∧ s' = s) ∨
        (s.legacyMigrations.lookup ⟨projectId,adapterId,input.checkpointDigest⟩ = none ∧
          s.metadataEntries+1 ≤ env.limits.metadataEntries ∧
          s.retainedBytes+s.metadataBytes+input.checkpointJson.utf8ByteSize ≤ env.limits.pendingBytes ∧
          s' = {s with
            metadataEntries := s.metadataEntries+1
            metadataBytes := s.metadataBytes+input.checkpointJson.utf8ByteSize
            legacyMigrations := s.legacyMigrations.insert ⟨projectId,adapterId,input.checkpointDigest⟩
              ⟨input.checkpointJson,input.checkpointDigest,input.checkpointJson.utf8ByteSize⟩})) := by
  simp only [freezeLegacyMigration,bind_ok,failWhen_ok,exists_const,not_not] at ok
  obtain ⟨_,_,_,_,_,_,digest,ok⟩ := ok
  split at ok
  next previous found =>
    simp only [bind_ok,failWhen_ok,pure_ok,exists_const,not_or,not_not,Prod.mk.injEq] at ok
    obtain ⟨_,_,⟨sha,value⟩,rfl,rfl⟩ := ok
    exact ⟨rfl,digest,.inl ⟨previous,found,sha,value,rfl⟩⟩
  next missing =>
    simp only [bind_ok,admitMetadata_ok,metadataCapacity_ok,pure_ok,exists_const,Prod.mk.injEq] at ok
    obtain ⟨⟨_,room⟩,⟨_,pending⟩,rfl,rfl⟩ := ok
    exact ⟨rfl,digest,.inr ⟨missing,room,pending,rfl⟩⟩

theorem adoptBaseline_ok (env : Settings) (s s' : Journal) (owner : CaptureOwner) (revisionFloor : Int)
    (metadataJson : String) (ok : s.adoptBaseline env owner revisionFloor metadataJson = .ok s') :
    ∃ key scope, s.ownerScope owner = .ok (key,scope) ∧
      ((scope.adoptionMetadataSha = some (env.digest metadataJson.toUTF8) ∧
          (scope.revisionFloor : Int) = revisionFloor ∧ s' = s) ∨
        (scope.adoptionMetadataSha = none ∧ scope.recordsInitialized = false ∧
          (∀ c row, s.captures.lookup c = some row → c.scope ≠ key) ∧
          s.retainedBytes+s.metadataBytes+metadataJson.utf8ByteSize ≤ env.limits.pendingBytes ∧
          scope.adoptionMetadataBytes ≤ s.metadataBytes+metadataJson.utf8ByteSize ∧
          s' = {s with metadataBytes := s.metadataBytes+metadataJson.utf8ByteSize-
            scope.adoptionMetadataBytes}.setScope key fun row => {row with
            revisionFloor := revisionFloor.toNat
            adoptionMetadata := some metadataJson
            adoptionMetadataSha := some (env.digest metadataJson.toUTF8)
            adoptionMetadataBytes := metadataJson.utf8ByteSize})) := by
  simp only [adoptBaseline,bind_ok] at ok
  obtain ⟨⟨key,scope⟩,owned,_,_,_,_,ok⟩ := ok
  refine ⟨key,scope,owned,?_⟩
  split at ok
  next adopted same =>
    simp only [bind_ok,failWhen_ok,pure_ok,exists_const,not_or,not_not] at ok
    obtain ⟨⟨floor,rfl⟩,_,_,rfl⟩ := ok
    exact .inl ⟨same,floor,rfl⟩
  next missing =>
    simp only [bind_ok,failWhen_ok,metadataCapacity_ok,pure_ok,exists_const,not_or,Bool.not_eq_true] at ok
    obtain ⟨⟨fresh,unused⟩,⟨_,pending⟩,counted,count,rfl⟩ := ok
    obtain ⟨rfl,enough⟩ := countBytes_ok _ _ _ _ count
    refine .inr ⟨missing,fresh,?_,pending,enough,rfl⟩
    intro c row found
    have checked := (Table.any_eq_false_iff _ _).mp unused c row found
    simpa using checked

theorem setSourceMetadata_ok (env : Settings) (s s' : Journal) (owner : CaptureOwner) (id value : String)
    (ok : s.setSourceMetadata env owner id value = .ok s') :
    ∃ key scope row, s.ownerScope owner = .ok (key,scope) ∧ s.captures.lookup ⟨key,id⟩ = some row ∧
      ((row.sourceMetadata = some value ∧ s' = s) ∨
        (row.sourceMetadata = none ∧ row.state = .preparing ∧
          row.retainedBytes+value.utf8ByteSize ≤ env.limits.targetBytes ∧
          s.retainedBytes+s.metadataBytes+value.utf8ByteSize ≤ env.limits.pendingBytes ∧
          row.sourceMetadataBytes ≤ s.metadataBytes+value.utf8ByteSize ∧
          s' = {s with metadataBytes := s.metadataBytes+value.utf8ByteSize-
            row.sourceMetadataBytes}.setCapture ⟨key,id⟩ fun row => {row with
            sourceMetadata := some value
            sourceMetadataSha := some (env.digest value.toUTF8)
            sourceMetadataBytes := value.utf8ByteSize})) := by
  simp only [setSourceMetadata,bind_ok] at ok
  obtain ⟨⟨key,scope⟩,owned,row,found,_,_,ok⟩ := ok
  refine ⟨key,scope,row,owned,capture_ok s _ row found,?_⟩
  split at ok
  next frozen same =>
    simp only [bind_ok,failWhen_ok,pure_ok,exists_const,not_not] at ok
    obtain ⟨_,_,rfl,rfl⟩ := ok
    exact .inl ⟨same,rfl⟩
  next missing =>
    simp only [bind_ok,failWhen_ok,metadataCapacity_ok,pure_ok,exists_const,not_or,not_not,not_lt] at ok
    obtain ⟨⟨state,_⟩,target,⟨_,pending⟩,counted,count,rfl⟩ := ok
    obtain ⟨rfl,enough⟩ := countBytes_ok _ _ _ _ count
    exact .inr ⟨missing,state,target,pending,enough,rfl⟩

end Journal
end ATape.Capture
