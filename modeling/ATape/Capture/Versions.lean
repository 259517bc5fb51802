import ATape.Capture.Quotas

/-! The versions that `record` gives out. A ledger is the journal together with
every answer of `record` so far; the versions of a record that the journal
still stores are among its answers, and the known version is the latest. -/
namespace ATape.Capture
open Foundation Lifecycle

def VersionRow.version (row : VersionRow) (record : CaptureRecordKey) : CaptureRecordVersion :=
  ⟨⟨record,row.fingerprint,row.projectionVersion,row.rawReference⟩,row.revision⟩

def RecordRow.version (row : RecordRow) (record : CaptureRecordKey) : CaptureRecordVersion :=
  ⟨⟨record,row.fingerprint,row.projectionVersion,row.rawReference⟩,row.revision⟩

/-- One answer of `record`: the version it returned, the complete observation
it was compared with, and whether the capture did not hold the record before. -/
structure Answer where
  scope : ScopeKey
  capture : String
  baseline : Option String
  observed : Bool
  version : CaptureRecordVersion

def Answer.about (a : Answer) (key : ScopeKey) (record : CaptureRecordKey) : Prop :=
  a.scope = key ∧ a.version.toCaptureRecordKey = record

structure Ledger where
  journal : Journal
  answers : List Answer

namespace Journal

def answers (env : Settings) (s : Journal) : Call → List Answer
  | .record owner id input =>
    match s.ownerScope owner,s.record env owner id input with
    | .ok (key,scope),.ok (version,_) =>
      [⟨key,id,scope.lastComplete input.kind,
        (s.captureRecords.lookup ⟨⟨key,id⟩,input.toCaptureRecordKey⟩).isNone,version⟩]
    | _,_ => []
  | _ => []

theorem recordVersion_ok (record : CaptureRecordKey) (fingerprint projectionVersion : String)
    (revision : Nat) (rawReference : Option AdapterRawReference) (version : CaptureRecordVersion)
    (ok : recordVersion record fingerprint projectionVersion revision rawReference = .ok version) :
    version = ⟨⟨record,fingerprint,projectionVersion,rawReference⟩,revision⟩ := by
  unfold recordVersion at ok
  split at ok
  next =>
    simp only [pure_ok] at ok
    exact ok.symm
  next => cases ok

theorem answers_record (env : Settings) (s s' : Journal) (owner : CaptureOwner) (id : String)
    (input : CaptureRecordInput) (version : CaptureRecordVersion) (key : ScopeKey) (scope : ScopeRow)
    (owned : s.ownerScope owner = .ok (key,scope)) (ok : s.record env owner id input = .ok (version,s')) :
    s.answers env (.record owner id input) = [⟨key,id,scope.lastComplete input.kind,
      (s.captureRecords.lookup ⟨⟨key,id⟩,input.toCaptureRecordKey⟩).isNone,version⟩] := by
  simp only [answers,owned,ok]

end Journal

inductive Ledger.Records : Ledger → Settings × Call → Ledger → Prop
  | committed (l : Ledger) (env call s') (ok : l.journal.perform env call = .ok s') :
      Records l (env,call) ⟨s',l.answers++l.journal.answers env call⟩
  | rolledBack (l : Ledger) (step) : Records l step l

structure Versioned (l : Ledger) : Prop where
  single : ∀ a ∈ l.answers, ∀ b ∈ l.answers, b.about a.scope a.version.toCaptureRecordKey →
    a.version.revision = b.version.revision → a.version = b.version
  floor : ∀ a ∈ l.answers, ∃ scope row, l.journal.scopes.lookup a.scope = some scope ∧
    scope.revisionFloor < a.version.revision ∧ l.journal.captures.lookup ⟨a.scope,a.capture⟩ = some row
  known : ∀ k row, l.journal.sourceRecordVersions.lookup k = some row →
    ∃ a ∈ l.answers, a.scope = k.scope ∧ a.capture = row.versionCapture ∧ a.version = row.version k.record
  members : ∀ m row, l.journal.captureRecords.lookup m = some row →
    ∃ a ∈ l.answers, a.scope = m.capture.scope ∧ a.capture = m.capture.id ∧ a.version = row.version m.record
  bounded : ∀ a ∈ l.answers, ∃ row,
    l.journal.sourceRecordVersions.lookup ⟨a.scope,a.version.toCaptureRecordKey⟩ = some row ∧
      a.version.revision ≤ row.revision
  observed : ∀ key scope kind last, l.journal.scopes.lookup key = some scope →
    scope.lastComplete kind = some last →
      ∃ row, l.journal.captures.lookup ⟨key,last⟩ = some row ∧ row.state ≠ .preparing
  baselines : ∀ a ∈ l.answers, ∀ last, a.baseline = some last →
    ∃ row, l.journal.captures.lookup ⟨a.scope,last⟩ = some row ∧ row.state ≠ .preparing
  compared : ∀ k row last, l.journal.sourceRecordVersions.lookup k = some row →
    row.comparisonCapture = some last →
      ∃ a ∈ l.answers, a.about k.scope k.record ∧ a.observed = true ∧ a.baseline = some last
  settled : ∀ a ∈ l.answers, a.observed = true → ∀ scope last row,
    l.journal.scopes.lookup a.scope = some scope →
    scope.lastComplete a.version.kind = some last → a.baseline = some last →
    l.journal.captureRecords.lookup ⟨⟨a.scope,last⟩,a.version.toCaptureRecordKey⟩ = none →
    l.journal.sourceRecordVersions.lookup ⟨a.scope,a.version.toCaptureRecordKey⟩ = some row →
      row.comparisonCapture = some last

/-- What a call that allocates nothing keeps of versions, members, observed
pointers and captures. -/
structure Carries (s s' : Journal) : Prop where
  versions : s'.sourceRecordVersions = s.sourceRecordVersions
  members : ∀ m row', s'.captureRecords.lookup m = some row' →
    ∃ row, s.captureRecords.lookup m = some row ∧ row'.version m.record = row.version m.record
  floor : ∀ key scope, s.scopes.lookup key = some scope →
    ∃ scope', s'.scopes.lookup key = some scope' ∧
      (scope'.revisionFloor = scope.revisionFloor ∨ ∀ c row, s.captures.lookup c = some row → c.scope ≠ key)
  baseline : ∀ key scope' kind last, s'.scopes.lookup key = some scope' →
    scope'.lastComplete kind = some last →
      (∃ scope, s.scopes.lookup key = some scope ∧ scope.lastComplete kind = some last ∧
        ∀ record, s'.captureRecords.lookup ⟨⟨key,last⟩,record⟩ = none →
          s.captureRecords.lookup ⟨⟨key,last⟩,record⟩ = none) ∨
      (∃ row, s.captures.lookup ⟨key,last⟩ = some row ∧ row.state = .preparing) ∧
        ∃ row', s'.captures.lookup ⟨key,last⟩ = some row' ∧ row'.state ≠ .preparing
  captures : ∀ c row, s.captures.lookup c = some row →
    ∃ row', s'.captures.lookup c = some row' ∧ (row.state ≠ .preparing → row'.state ≠ .preparing)

theorem Versioned.carry {l : Ledger} {s' : Journal} (versioned : Versioned l)
    (carries : Carries l.journal s') : Versioned ⟨s',l.answers⟩ where
  single := versioned.single
  floor := by
    intro a member
    obtain ⟨scope,row,known,above,there⟩ := versioned.floor a member
    obtain ⟨scope',known',same⟩ := carries.floor a.scope scope known
    obtain ⟨row',there',_⟩ := carries.captures _ row there
    rcases same with same | unused
    · exact ⟨scope',row',known',same ▸ above,there'⟩
    · exact absurd rfl (unused _ row there)
  known := by
    intro k row found
    rw [carries.versions] at found
    exact versioned.known k row found
  members := by
    intro m row' found
    obtain ⟨row,before,same⟩ := carries.members m row' found
    rw [same]
    exact versioned.members m row before
  bounded := by
    intro a member
    rw [carries.versions]
    exact versioned.bounded a member
  observed := by
    intro key scope' kind last found pointer
    rcases carries.baseline key scope' kind last found pointer with ⟨scope,known,same,_⟩ | ⟨_,after⟩
    · obtain ⟨row,there,state⟩ := versioned.observed key scope kind last known same
      obtain ⟨row',there',kept⟩ := carries.captures _ row there
      exact ⟨row',there',kept state⟩
    · exact after
  baselines := by
    intro a member last base
    obtain ⟨row,there,state⟩ := versioned.baselines a member last base
    obtain ⟨row',there',kept⟩ := carries.captures _ row there
    exact ⟨row',there',kept state⟩
  compared := by
    intro k row last found comparison
    rw [carries.versions] at found
    exact versioned.compared k row last found comparison
  settled := by
    intro a member fresh scope' last row found pointer base absent version
    rw [carries.versions] at version
    rcases carries.baseline a.scope scope' _ last found pointer with ⟨scope,known,same,missing⟩ | ⟨before,_⟩
    · exact versioned.settled a member fresh scope last row known same base (missing _ absent) version
    · obtain ⟨old,there,preparing⟩ := before
      obtain ⟨other,same,state⟩ := versioned.baselines a member last base
      rw [there] at same
      cases same
      exact absurd preparing state

theorem Carries.refl (s : Journal) : Carries s s where
  versions := rfl
  members := fun _ row found => ⟨row,found,rfl⟩
  floor := fun _ scope found => ⟨scope,found,.inl rfl⟩
  baseline := fun _ scope _ _ found pointer => .inl ⟨scope,found,pointer,fun _ => id⟩
  captures := fun _ row found => ⟨row,found,id⟩

/-- The columns of a scope that versions depend on. -/
def ScopeRow.pointers (scope : ScopeRow) : Nat × Option String × Option String :=
  (scope.revisionFloor,scope.observedCanonical,scope.observedRaw)

theorem ScopeRow.lastComplete_congr {scope scope' : ScopeRow} (same : scope'.pointers = scope.pointers)
    (kind : CaptureRecordKind) : scope'.lastComplete kind = scope.lastComplete kind := by
  simp only [pointers,Prod.mk.injEq] at same
  simp only [lastComplete,same.2.1,same.2.2]

section Calls
variable {s s' : Journal}

theorem perform_captures {env : Settings} {call : Call} (sound : Sound s.view)
    (ok : s.perform env call = .ok s') (c : CaptureKey) (row : CaptureRow)
    (found : s.captures.lookup c = some row) :
    ∃ row', s'.captures.lookup c = some row' ∧ (row.state ≠ .preparing → row'.state ≠ .preparing) := by
  obtain ⟨event,moved,_⟩ := Journal.perform_step env s s' call ok
  obtain ⟨q,after,_⟩ := moved.kept sound c row.phase (by simp [Journal.view,found])
  simp only [Journal.view,Option.map_eq_some_iff] at after
  obtain ⟨row',there,rfl⟩ := after
  refine ⟨row',there,?_⟩
  intro begun preparing
  rcases moved.preparing c row'.phase (by simp [Journal.view,there]) preparing with fresh | same
  · simp [Journal.view,found] at fresh
  · simp only [Journal.view,found,Option.map_some,Option.some.injEq] at same
    have state := congrArg Phase.state same
    exact begun (state.trans preparing)

variable (captures : ∀ c row, s.captures.lookup c = some row →
  ∃ row', s'.captures.lookup c = some row' ∧ (row.state ≠ .preparing → row'.state ≠ .preparing))
include captures

private theorem carries_quiet (versions : s'.sourceRecordVersions = s.sourceRecordVersions)
    (members : ∀ m, (s'.captureRecords.lookup m).map (fun row => row.version m.record) =
      (s.captureRecords.lookup m).map fun row => row.version m.record)
    (scopes : ∀ key, (s'.scopes.lookup key).map ScopeRow.pointers =
      (s.scopes.lookup key).map ScopeRow.pointers) : Carries s s' where
  versions := versions
  members := by
    intro m row' found
    have same := members m
    rw [found,Option.map_some,eq_comm,Option.map_eq_some_iff] at same
    obtain ⟨row,before,equal⟩ := same
    exact ⟨row,before,equal.symm⟩
  floor := by
    intro key scope found
    have same := scopes key
    rw [found,Option.map_some,Option.map_eq_some_iff] at same
    obtain ⟨scope',after,equal⟩ := same
    exact ⟨scope',after,.inl (congrArg Prod.fst equal)⟩
  baseline := by
    intro key scope' kind last found pointer
    have same := scopes key
    rw [found,Option.map_some,eq_comm,Option.map_eq_some_iff] at same
    obtain ⟨scope,before,equal⟩ := same
    refine .inl ⟨scope,before,(ScopeRow.lastComplete_congr equal kind).trans pointer,?_⟩
    intro record absent
    have kept := members ⟨⟨key,last⟩,record⟩
    rw [absent,Option.map_none,eq_comm,Option.map_eq_none_iff] at kept
    exact kept
  captures := captures

private theorem carries_adopted (key : ScopeKey) (f : ScopeRow → ScopeRow)
    (unused : ∀ c row, s.captures.lookup c = some row → c.scope ≠ key)
    (pointers : ∀ row kind, (f row).lastComplete kind = row.lastComplete kind)
    (versions : s'.sourceRecordVersions = s.sourceRecordVersions)
    (members : s'.captureRecords = s.captureRecords) (scopes : s'.scopes = s.scopes.modify key f) :
    Carries s s' where
  versions := versions
  members := by
    intro m row found
    rw [members] at found
    exact ⟨row,found,rfl⟩
  floor := by
    intro other scope found
    rw [scopes,Table.lookup_modify]
    by_cases same : other = key
    · subst same
      exact ⟨f scope,by simp [found],.inr unused⟩
    · exact ⟨scope,by simp [same,found],.inl rfl⟩
  baseline := by
    intro other scope' kind last found pointer
    rw [scopes,Table.lookup_modify] at found
    rw [members]
    split at found
    next same =>
      obtain ⟨scope,before,rfl⟩ := Option.map_eq_some_iff.mp found
      exact .inl ⟨scope,before,(pointers scope kind).symm.trans pointer,fun _ => id⟩
    next => exact .inl ⟨scope',found,pointer,fun _ => id⟩
  captures := captures

private theorem carries_claimed (key : ScopeKey) (opened : ScopeRow) (fresh : s.scopes.lookup key = none)
    (pointers : opened.observedCanonical = none ∧ opened.observedRaw = none)
    (versions : s'.sourceRecordVersions = s.sourceRecordVersions)
    (members : s'.captureRecords = s.captureRecords) (scopes : s'.scopes = s.scopes.insert key opened) :
    Carries s s' where
  versions := versions
  members := by
    intro m row found
    rw [members] at found
    exact ⟨row,found,rfl⟩
  floor := by
    intro other scope found
    rw [scopes,Table.lookup_insert]
    by_cases same : other = key
    · rw [same,fresh] at found
      cases found
    · exact ⟨scope,by simp [same,found],.inl rfl⟩
  baseline := by
    intro other scope' kind last found pointer
    rw [scopes,Table.lookup_insert] at found
    rw [members]
    split at found
    next =>
      cases found
      unfold ScopeRow.lastComplete at pointer
      split at pointer
      · rw [pointers.2] at pointer
        cases pointer
      · rw [pointers.1] at pointer
        cases pointer
    next => exact .inl ⟨scope',found,pointer,fun _ => id⟩
  captures := captures

private theorem carries_sealed (key : ScopeKey) (id : String) (row : CaptureRow) (f : ScopeRow → ScopeRow)
    (found : s.captures.lookup ⟨key,id⟩ = some row) (state : row.state = .preparing)
    (begun : ∃ row', s'.captures.lookup ⟨key,id⟩ = some row' ∧ row'.state ≠ .preparing)
    (floor : ∀ scope, (f scope).revisionFloor = scope.revisionFloor)
    (pointers : ∀ scope kind, (f scope).lastComplete kind = scope.lastComplete kind ∨
      (f scope).lastComplete kind = some id)
    (versions : s'.sourceRecordVersions = s.sourceRecordVersions)
    (members : s'.captureRecords = s.captureRecords) (scopes : s'.scopes = s.scopes.modify key f) :
    Carries s s' where
  versions := versions
  members := by
    intro m row found
    rw [members] at found
    exact ⟨row,found,rfl⟩
  floor := by
    intro other scope known
    rw [scopes,Table.lookup_modify]
    by_cases same : other = key
    · subst same
      exact ⟨f scope,by simp [known],.inl (floor scope)⟩
    · exact ⟨scope,by simp [same,known],.inl rfl⟩
  baseline := by
    intro other scope' kind last known pointer
    rw [scopes,Table.lookup_modify] at known
    rw [members]
    split at known
    next same =>
      subst same
      obtain ⟨scope,before,rfl⟩ := Option.map_eq_some_iff.mp known
      rcases pointers scope kind with kept | moved
      · exact .inl ⟨scope,before,kept.symm.trans pointer,fun _ absent => absent⟩
      · rw [moved,Option.some.injEq] at pointer
        subst pointer
        exact .inr ⟨⟨row,found,state⟩,begun⟩
    next => exact .inl ⟨scope',known,pointer,fun _ absent => absent⟩
  captures := captures

private theorem carries_pruned (key : ScopeKey) (scope : ScopeRow) (id : String)
    (known : s.scopes.lookup key = some scope) (spared : ∀ kind, scope.lastComplete kind ≠ some id)
    (removed : List MemberKey) (inside : ∀ m ∈ removed, m.capture = ⟨key,id⟩)
    (versions : s'.sourceRecordVersions = s.sourceRecordVersions)
    (members : s'.captureRecords = s.captureRecords.keep fun m _ => m ∉ removed)
    (scopes : s'.scopes = s.scopes) : Carries s s' where
  versions := versions
  members := by
    intro m row found
    rw [members,Table.lookup_keep,Option.filter_eq_some_iff] at found
    exact ⟨row,found.1,rfl⟩
  floor := by
    intro other row found
    rw [scopes]
    exact ⟨row,found,.inl rfl⟩
  baseline := by
    intro other row kind last found pointer
    rw [scopes] at found
    refine .inl ⟨row,found,pointer,?_⟩
    intro record absent
    rw [members,Table.lookup_keep] at absent
    have kept : (⟨⟨other,last⟩,record⟩ : MemberKey) ∉ removed := by
      intro gone
      have place := inside _ gone
      simp only [CaptureKey.mk.injEq] at place
      obtain ⟨rfl,rfl⟩ := place
      rw [known] at found
      cases found
      exact spared kind pointer
    cases held : s.captureRecords.lookup ⟨⟨other,last⟩,record⟩ with
    | none => rfl
    | some member =>
      rw [held] at absent
      simp [kept] at absent
  captures := captures

end Calls

theorem settle_quiet {s s' : Journal} {owner : CaptureOwner} {id : String} {settlement : CaptureSettlement}
    (ok : s.settle owner id settlement = .ok s') :
    s'.sourceRecordVersions = s.sourceRecordVersions ∧ s'.captureRecords = s.captureRecords ∧
      ∀ key, (s'.scopes.lookup key).map ScopeRow.pointers = (s.scopes.lookup key).map ScopeRow.pointers := by
  have completed (t : Journal) (c : CaptureKey) (versions : t.sourceRecordVersions = s.sourceRecordVersions)
      (members : t.captureRecords = s.captureRecords)
      (scopes : ∀ key, (t.scopes.lookup key).map ScopeRow.pointers =
        (s.scopes.lookup key).map ScopeRow.pointers) :
      (t.complete c).sourceRecordVersions = s.sourceRecordVersions ∧
        (t.complete c).captureRecords = s.captureRecords ∧
        ∀ key, ((t.complete c).scopes.lookup key).map ScopeRow.pointers =
          (s.scopes.lookup key).map ScopeRow.pointers := by
    obtain ⟨same,_,_,kept,held,_⟩ := t.complete_tables c
    rw [same,kept,held]
    exact ⟨versions,members,scopes⟩
  have abandoned (c : CaptureKey) (row : CaptureRow) (rejectionReceipt : Option String)
      (ok : s.abandon c row rejectionReceipt = .ok s') :
      s'.sourceRecordVersions = s.sourceRecordVersions ∧ s'.captureRecords = s.captureRecords ∧
        ∀ key, (s'.scopes.lookup key).map ScopeRow.pointers =
          (s.scopes.lookup key).map ScopeRow.pointers := by
    obtain ⟨_,rfl⟩ := Journal.abandon_ok s s' c row rejectionReceipt ok
    exact ⟨rfl,rfl,fun _ => rfl⟩
  simp only [Journal.settle,bind_ok] at ok
  obtain ⟨⟨key,scope⟩,_,row,_,ok⟩ := ok
  cases settlement with
  | activated receiptJson =>
    obtain ⟨_,rfl⟩ | ⟨_,_,_,manifest,n,_,_,rfl⟩ := Journal.settleActivated_ok s s' _ scope row receiptJson ok
    · exact ⟨rfl,rfl,fun _ => rfl⟩
    · refine completed _ _ rfl rfl ?_
      simp only [Journal.activatedRows]
      split
      · exact Table.map_lookup_modify s.scopes key _ _ (by intro _; rfl)
      · intro _
        rfl
  | canonicalAcknowledged ordinal receiptJson =>
    obtain ⟨_,_,⟨_,rfl⟩ | ⟨_,_,rfl⟩⟩ := Journal.settleCanonical_ok s s' _ row ordinal receiptJson ok
    · exact ⟨rfl,rfl,fun _ => rfl⟩
    · exact ⟨rfl,rfl,fun _ => rfl⟩
  | rawAcknowledged ordinal receiptJson =>
    obtain ⟨_,_,_,_,rfl⟩ := Journal.settleRaw_ok s s' _ row ordinal receiptJson ok
    exact completed _ _ rfl rfl fun _ => rfl
  | rawUnitCanceled ordinal =>
    obtain ⟨_,_,_,_,rfl⟩ := Journal.settleUnitCanceled_ok s s' _ row ordinal ok
    exact completed _ _ rfl rfl fun _ => rfl
  | rawCancellationStarted reason =>
    rw [Journal.settleCancellation_ok s s' _ false reason ok]
    exact completed _ _ rfl rfl fun _ => rfl
  | rawCanceled reason =>
    rw [Journal.settleCancellation_ok s s' _ true reason ok]
    exact completed _ _ rfl rfl fun _ => rfl
  | abandonUnsealed =>
    rcases Journal.settleAbandoned_ok s s' _ row ok with ⟨_,rfl⟩ | ⟨_,gone⟩
    · exact ⟨rfl,rfl,fun _ => rfl⟩
    · exact abandoned _ row none gone
  | rejected receiptJson =>
    rcases Journal.settleRejected_ok s s' _ row receiptJson ok with ⟨_,rfl⟩ | ⟨_,_,gone⟩
    · exact ⟨rfl,rfl,fun _ => rfl⟩
    · exact abandoned _ row _ gone

theorem prunable_spared (s : Journal) (key : ScopeKey) (scope : ScopeRow) (id : String)
    (chosen : s.prunable key scope = some id) (kind : CaptureRecordKind) :
    scope.lastComplete kind ≠ some id := by
  have listed := (List.perm_insertionSort _ _).mem_iff.mp (List.mem_of_mem_head? chosen)
  obtain ⟨⟨c,row⟩,_,picked⟩ := List.mem_filterMap.mp listed
  simp only [Option.ite_none_right_eq_some,Option.some.injEq] at picked
  obtain ⟨⟨_,_,_,_,canonical,raw⟩,rfl⟩ := picked
  unfold ScopeRow.lastComplete
  split
  · exact raw.symm
  · exact canonical.symm

theorem membersOf_inside (s : Journal) (c : CaptureKey) (n : Nat) (m : MemberKey)
    (member : m ∈ (s.membersOf c).take n) : m.capture = c := by
  have listed := (List.perm_insertionSort _ _).mem_iff.mp (List.mem_of_mem_take member)
  simpa using (List.mem_filter.mp listed).2

theorem perform_carries {s s' : Journal} {env : Settings} {call : Call} (sound : Sound s.view)
    (ok : s.perform env call = .ok s') (other : ∀ owner id input, call ≠ .record owner id input) :
    Carries s s' := by
  have captures := perform_captures sound ok
  cases call with
  | claim scope =>
    obtain ⟨claimed,ok⟩ := (Journal.map_snd_ok _ _).mp ok
    obtain ⟨key,_,⟨_,_,_,_,rfl⟩ | ⟨fresh,_,_,rfl⟩⟩ := Journal.claim_ok env s s' scope claimed ok
    · refine carries_quiet captures rfl (fun _ => rfl) ?_
      exact Table.map_lookup_modify s.scopes key _ _ (by intro _; rfl)
    · exact carries_claimed captures key _ fresh ⟨rfl,rfl⟩ rfl rfl rfl
  | freezeLegacyMigration projectId adapterId input =>
    obtain ⟨frozen,ok⟩ := (Journal.map_snd_ok _ _).mp ok
    obtain ⟨_,_,⟨_,_,_,_,rfl⟩ | ⟨_,_,_,rfl⟩⟩ :=
      Journal.freezeLegacyMigration_ok env s s' projectId adapterId input frozen ok
    · exact .refl _
    · exact carries_quiet captures rfl (fun _ => rfl) fun _ => rfl
  | adoptBaseline owner revisionFloor metadataJson =>
    obtain ⟨key,_,_,⟨_,_,rfl⟩ | ⟨_,_,unused,_,_,rfl⟩⟩ :=
      Journal.adoptBaseline_ok env s s' owner revisionFloor metadataJson ok
    · exact .refl _
    · exact carries_adopted captures key (fun row => {row with
        revisionFloor := revisionFloor.toNat
        adoptionMetadata := some metadataJson
        adoptionMetadataSha := some (env.digest metadataJson.toUTF8)
        adoptionMetadataBytes := metadataJson.utf8ByteSize}) unused (fun _ _ => rfl) rfl rfl rfl
  | setSourceMetadata owner id value =>
    obtain ⟨key,_,row,_,_,⟨_,rfl⟩ | ⟨_,_,_,_,_,rfl⟩⟩ := Journal.setSourceMetadata_ok env s s' owner id value ok
    · exact .refl _
    · exact carries_quiet captures rfl (fun _ => rfl) fun _ => rfl
  | reserve owner input =>
    obtain ⟨key,_,_,⟨_,_,rfl,_⟩ | ⟨_,_,_,_,rfl⟩⟩ := Journal.reserve_ok env s s' owner input ok
    · exact .refl _
    · refine carries_quiet captures rfl (fun _ => rfl) ?_
      exact Table.map_lookup_modify s.scopes key _ _ (by intro _; rfl)
  | append owner id unit =>
    obtain ⟨key,_,row,_,_,⟨_,_,rfl,_⟩ | ⟨_,_,_,_,_,rfl⟩⟩ := Journal.append_ok env s s' owner id unit ok
    · exact .refl _
    · exact carries_quiet captures rfl (fun _ => rfl) fun _ => rfl
  | record owner id input => exact absurd rfl (other owner id input)
  | bindRecord owner id identity binding =>
    obtain ⟨key,_,_,_,_,_,_,_,_,⟨_,rfl⟩ | ⟨_,_,_,rfl⟩⟩ :=
      Journal.bindRecord_ok s s' owner id identity binding ok
    · exact .refl _
    · refine carries_quiet captures rfl ?_ fun _ => rfl
      intro m
      exact Table.map_lookup_modify s.captureRecords ⟨⟨key,id⟩,identity⟩ _ _ (by intro _; rfl) m
  | sealCapture owner id manifest =>
    obtain ⟨key,_,row,_,found,⟨_,rfl⟩ | ⟨_,state,rfl⟩⟩ := Journal.sealCapture_ok env s s' owner id manifest ok
    · exact .refl _
    · refine carries_sealed captures key id row (fun scope => {scope with
        observedCanonical :=
          if (manifest.records.bind CaptureRecordManifest.canonical).isSome then some id
          else scope.observedCanonical
        observedRaw :=
          if (manifest.records.bind CaptureRecordManifest.raw).any RawManifest.scopeComplete
          then some id else scope.observedRaw}) found state ?_ (fun _ => rfl) ?_ rfl rfl rfl
      · exact ⟨_,by simp [found]; rfl,by simp⟩
      · intro scope kind
        unfold ScopeRow.lastComplete
        split
        · simp only
          split
          · exact .inr rfl
          · exact .inl rfl
        · simp only
          split
          · exact .inr rfl
          · exact .inl rfl
  | settle owner id settlement =>
    obtain ⟨versions,members,scopes⟩ := settle_quiet ok
    refine carries_quiet captures versions ?_ scopes
    intro m
    rw [members]
  | pruneRecords owner limit =>
    obtain ⟨removed,ok⟩ := (Journal.map_snd_ok _ _).mp ok
    obtain ⟨key,scope,owned,⟨_,_,rfl⟩ | ⟨id,chosen,_,rfl⟩⟩ := Journal.pruneRecords_ok s s' owner limit removed ok
    · exact .refl _
    · obtain ⟨_,known,_⟩ := Journal.ownerScope_ok s owner key scope owned
      exact carries_pruned captures key scope id known (prunable_spared s key scope id chosen) _
        (membersOf_inside s ⟨key,id⟩ limit.toNat) rfl rfl rfl
  | reclaim owner id limit =>
    obtain ⟨removed,ok⟩ := (Journal.map_snd_ok _ _).mp ok
    obtain ⟨key,_,_,_,_,_,bytes,_,rfl⟩ := Journal.reclaim_ok s s' owner id limit removed ok
    exact carries_quiet captures rfl (fun _ => rfl) fun _ => rfl

private theorem Versioned.replay {l : Ledger} (versioned : Versioned l) (a b : Answer) (member : b ∈ l.answers)
    (scope : a.scope = b.scope) (version : a.version = b.version) (replayed : a.observed = false)
    (row : CaptureRow) (there : l.journal.captures.lookup ⟨a.scope,a.capture⟩ = some row)
    (base : ∀ last, a.baseline = some last →
      ∃ row, l.journal.captures.lookup ⟨a.scope,last⟩ = some row ∧ row.state ≠ .preparing) :
    Versioned ⟨l.journal,l.answers++[a]⟩ := by
  have either : ∀ x ∈ l.answers++[a], x ∈ l.answers ∨ x = a := by simp
  have twin : ∀ x ∈ l.answers++[a], ∃ y ∈ l.answers, x.scope = y.scope ∧ x.version = y.version := by
    intro x listed
    rcases either x listed with old | rfl
    · exact ⟨x,old,rfl,rfl⟩
    · exact ⟨b,member,scope,version⟩
  refine ⟨?_,?_,?_,?_,?_,versioned.observed,?_,?_,?_⟩
  · intro x listed y listed' about revision
    obtain ⟨x',old,place,same⟩ := twin x listed
    obtain ⟨y',old',place',same'⟩ := twin y listed'
    rw [same,same']
    apply versioned.single x' old y' old'
    · exact ⟨by rw [← place',← place]; exact about.1,by rw [← same',← same]; exact about.2⟩
    · rw [← same,← same']
      exact revision
  · intro x listed
    rcases either x listed with old | rfl
    · exact versioned.floor x old
    · obtain ⟨floor,_,known,above,_⟩ := versioned.floor b member
      exact ⟨floor,row,scope ▸ known,version ▸ above,there⟩
  · intro k known found
    obtain ⟨x,old,rest⟩ := versioned.known k known found
    exact ⟨x,List.mem_append_left _ old,rest⟩
  · intro m held found
    obtain ⟨x,old,rest⟩ := versioned.members m held found
    exact ⟨x,List.mem_append_left _ old,rest⟩
  · intro x listed
    obtain ⟨y,old,place,same⟩ := twin x listed
    rw [place,same]
    exact versioned.bounded y old
  · intro x listed last held
    rcases either x listed with old | rfl
    · exact versioned.baselines x old last held
    · exact base last held
  · intro k known last found comparison
    obtain ⟨x,old,rest⟩ := versioned.compared k known last found comparison
    exact ⟨x,List.mem_append_left _ old,rest⟩
  · intro x listed fresh
    rcases either x listed with old | rfl
    · exact versioned.settled x old fresh
    · rw [replayed] at fresh
      cases fresh

/-- What a new observation of a record does: the version it takes becomes the
known one and is a member of the capture. -/
private theorem Versioned.observe {l : Ledger} {s' : Journal} (versioned : Versioned l) (key : ScopeKey)
    (scope : ScopeRow) (row : CaptureRow) (id : String) (record : CaptureRecordKey) (actual : VersionRow)
    (member : RecordRow) (known : l.journal.scopes.lookup key = some scope)
    (found : l.journal.captures.lookup ⟨key,id⟩ = some row)
    (same : member.version record = actual.version record)
    (allocated : actual.versionCapture = id ∧ scope.revisionFloor < actual.revision ∧
        actual.comparisonCapture = scope.lastComplete record.kind ∧
        (∀ b ∈ l.answers, b.about key record → b.version.revision < actual.revision) ∨
      l.journal.sourceRecordVersions.lookup ⟨key,record⟩ = some actual ∧
        ∀ last, scope.lastComplete record.kind = some last →
          l.journal.captureRecords.lookup ⟨⟨key,last⟩,record⟩ = none → actual.comparisonCapture = some last)
    (scopes : s'.scopes = l.journal.scopes)
    (captures : ∀ c row, l.journal.captures.lookup c = some row →
      ∃ row', s'.captures.lookup c = some row' ∧ (row.state ≠ .preparing → row'.state ≠ .preparing))
    (versions : ∀ k, s'.sourceRecordVersions.lookup k =
      if k = ⟨key,record⟩ then some actual else l.journal.sourceRecordVersions.lookup k)
    (members : ∀ m, s'.captureRecords.lookup m =
      if m = ⟨⟨key,id⟩,record⟩ then some member else l.journal.captureRecords.lookup m) :
    Versioned ⟨s',l.answers++[⟨key,id,scope.lastComplete record.kind,true,actual.version record⟩]⟩ := by
  let a : Answer := ⟨key,id,scope.lastComplete record.kind,true,actual.version record⟩
  have either : ∀ x ∈ l.answers++[a], x ∈ l.answers ∨ x = a := by simp
  have here : a ∈ l.answers++[a] := by simp
  have absent : ∀ m, s'.captureRecords.lookup m = none → l.journal.captureRecords.lookup m = none := by
    intro m gone
    rw [members] at gone
    split at gone
    · cases gone
    · exact gone
  -- An earlier answer about the record either is older or is the known version.
  have earlier : ∀ x ∈ l.answers, x.about key record →
      x.version.revision < actual.revision ∨
        (x.version.revision ≤ actual.revision ∧ (x.version.revision = actual.revision →
          x.version = actual.version record)) := by
    intro x old about
    rcases allocated with ⟨_,_,_,older⟩ | ⟨kept,_⟩
    · exact .inl (older x old about)
    · obtain ⟨place,kind⟩ := about
      obtain ⟨y,old',place',_,version⟩ := versioned.known _ _ kept
      obtain ⟨other,there,below⟩ := versioned.bounded x old
      rw [place,kind,kept] at there
      cases there
      refine .inr ⟨below,?_⟩
      intro equal
      rw [← version]
      apply versioned.single x old y old'
      · exact ⟨place'.trans place.symm,by rw [version,kind]; rfl⟩
      · rw [version]
        exact equal
  refine ⟨?_,?_,?_,?_,?_,?_,?_,?_,?_⟩
  · intro x listed y listed' about revision
    rcases either x listed with old | rfl
    · rcases either y listed' with old' | rfl
      · exact versioned.single x old y old' about revision
      · rcases earlier x old ⟨about.1.symm,about.2.symm⟩ with below | ⟨_,equal⟩
        · exact absurd revision (Nat.ne_of_lt below)
        · exact equal revision
    · rcases either y listed' with old' | rfl
      · rcases earlier y old' about with below | ⟨_,equal⟩
        · exact absurd revision.symm (Nat.ne_of_lt below)
        · exact (equal revision.symm).symm
      · rfl
  · intro x listed
    rw [scopes]
    rcases either x listed with old | rfl
    · obtain ⟨floor,held,place,above,there⟩ := versioned.floor x old
      obtain ⟨held',there',_⟩ := captures _ held there
      exact ⟨floor,held',place,above,there'⟩
    · obtain ⟨row',there,_⟩ := captures _ row found
      refine ⟨scope,row',known,?_,there⟩
      rcases allocated with ⟨_,above,_⟩ | ⟨kept,_⟩
      · exact above
      · obtain ⟨y,old,place,_,version⟩ := versioned.known _ _ kept
        obtain ⟨floor,_,held,above,_⟩ := versioned.floor y old
        rw [place,known] at held
        cases held
        rw [version] at above
        exact above
  · intro k held at_
    rw [versions] at at_
    split at at_
    next equal =>
      cases at_
      subst equal
      rcases allocated with ⟨capture,_⟩ | ⟨kept,_⟩
      · exact ⟨a,here,rfl,capture.symm,rfl⟩
      · obtain ⟨x,old,rest⟩ := versioned.known _ _ kept
        exact ⟨x,List.mem_append_left _ old,rest⟩
    next =>
      obtain ⟨x,old,rest⟩ := versioned.known k held at_
      exact ⟨x,List.mem_append_left _ old,rest⟩
  · intro m held at_
    rw [members] at at_
    split at at_
    next equal =>
      cases at_
      subst equal
      exact ⟨a,here,rfl,rfl,same.symm⟩
    next =>
      obtain ⟨x,old,rest⟩ := versioned.members m held at_
      exact ⟨x,List.mem_append_left _ old,rest⟩
  · intro x listed
    simp only [versions]
    rcases either x listed with old | rfl
    · by_cases about : (⟨x.scope,x.version.toCaptureRecordKey⟩ : VersionKey) = ⟨key,record⟩
      · rw [if_pos about]
        simp only [VersionKey.mk.injEq] at about
        rcases earlier x old about with below | ⟨below,_⟩
        · exact ⟨actual,rfl,below.le⟩
        · exact ⟨actual,rfl,below⟩
      · rw [if_neg about]
        exact versioned.bounded x old
    · exact ⟨actual,if_pos rfl,le_rfl⟩
  · intro other scope' kind last held pointer
    rw [scopes] at held
    obtain ⟨old,there,state⟩ := versioned.observed other scope' kind last held pointer
    obtain ⟨old',there',kept⟩ := captures _ old there
    exact ⟨old',there',kept state⟩
  · intro x listed last base
    have before : ∃ row, l.journal.captures.lookup ⟨x.scope,last⟩ = some row ∧ row.state ≠ .preparing := by
      rcases either x listed with old | rfl
      · exact versioned.baselines x old last base
      · exact versioned.observed key scope record.kind last known base
    obtain ⟨old,there,state⟩ := before
    obtain ⟨old',there',kept⟩ := captures _ old there
    exact ⟨old',there',kept state⟩
  · intro k held last at_ comparison
    rw [versions] at at_
    split at at_
    next equal =>
      cases at_
      subst equal
      rcases allocated with ⟨_,_,compared,_⟩ | ⟨kept,_⟩
      · exact ⟨a,here,⟨rfl,rfl⟩,rfl,compared.symm.trans comparison⟩
      · obtain ⟨x,old,rest⟩ := versioned.compared _ _ last kept comparison
        exact ⟨x,List.mem_append_left _ old,rest⟩
    next =>
      obtain ⟨x,old,rest⟩ := versioned.compared k held last at_ comparison
      exact ⟨x,List.mem_append_left _ old,rest⟩
  · intro x listed fresh scope' last held at_ pointer base gone there
    rw [scopes] at at_
    rw [versions] at there
    by_cases about : (⟨x.scope,x.version.toCaptureRecordKey⟩ : VersionKey) = ⟨key,record⟩
    · rw [if_pos about] at there
      cases there
      simp only [VersionKey.mk.injEq] at about
      obtain ⟨place,kind⟩ := about
      rw [place,known] at at_
      cases at_
      rw [kind] at pointer gone
      rw [place] at gone
      rcases allocated with ⟨_,_,compared,_⟩ | ⟨_,settled⟩
      · exact compared.trans pointer
      · exact settled last pointer (absent _ gone)
    · rw [if_neg about] at there
      rcases either x listed with old | rfl
      · exact versioned.settled x old fresh scope' last held at_ pointer base (absent _ gone) there
      · exact absurd rfl about

def Ledger.Latest (l : Ledger) (key : ScopeKey) (record : CaptureRecordKey) (a : Answer) : Prop :=
  a ∈ l.answers ∧ a.about key record ∧
    ∀ b ∈ l.answers, b.about key record → b.version.revision ≤ a.version.revision

/-- The record is missing from the last complete observation, and has not been
observed against it yet. -/
def Ledger.Reappears (l : Ledger) (key : ScopeKey) (scope : ScopeRow) (record : CaptureRecordKey) : Prop :=
  ∃ last, scope.lastComplete record.kind = some last ∧
    l.journal.captureRecords.lookup ⟨⟨key,last⟩,record⟩ = none ∧
    ∀ a ∈ l.answers, a.about key record → a.observed = true → a.baseline ≠ some last

/-- The known version refers to a Raw object, and the capture that took it up
was never activated. -/
def Ledger.Orphaned (l : Ledger) (key : ScopeKey) (record : CaptureRecordKey) : Prop :=
  ∃ known row, l.journal.sourceRecordVersions.lookup ⟨key,record⟩ = some known ∧
    known.rawReference.any AdapterRawReference.isObject = true ∧
    l.journal.captures.lookup ⟨key,known.versionCapture⟩ = some row ∧ row.activationReceipt = none

theorem orphanedReference_ok (s : Journal) (key : ScopeKey) (record : CaptureRecordKey) (known : VersionRow)
    (orphaned : Bool) (ok : s.orphanedReference key record known = .ok orphaned) :
    orphaned = true ↔ known.rawReference.any AdapterRawReference.isObject = true ∧
      ∃ row, s.captures.lookup ⟨key,known.versionCapture⟩ = some row ∧ row.activationReceipt = none := by
  unfold Journal.orphanedReference at ok
  split at ok
  next none =>
    simp only [pure_ok] at ok
    subst ok
    simp [none]
  next reference given =>
    simp only [bind_ok] at ok
    obtain ⟨version,decoded,ok⟩ := ok
    have same := Journal.recordVersion_ok _ _ _ _ _ version decoded
    subst same
    simp only at ok
    split at ok
    next object =>
      simp only [bind_ok,pure_ok] at ok
      obtain ⟨row,read,rfl⟩ := ok
      have found := Journal.capture_ok s _ row read
      constructor
      · intro lost
        exact ⟨object,row,found,Option.isNone_iff_eq_none.mp lost⟩
      · rintro ⟨_,other,found',lost⟩
        rw [found] at found'
        cases found'
        exact Option.isNone_iff_eq_none.mpr lost
    next plain =>
      simp only [pure_ok] at ok
      subst ok
      simp [plain]

theorem wasAbsent_eq_false (s : Journal) (key : ScopeKey) (record : CaptureRecordKey)
    (last comparison : Option String) (kept : s.wasAbsent key record last comparison = false)
    (id : String) (pointer : last = some id) (absent : s.captureRecords.lookup ⟨⟨key,id⟩,record⟩ = none) :
    comparison = some id := by
  subst pointer
  by_contra different
  have other : (some id : Option String) ≠ comparison := fun same => different same.symm
  simp [Journal.wasAbsent,other,absent] at kept

theorem Versioned.latest_known {l : Ledger} (versioned : Versioned l) {key : ScopeKey}
    {record : CaptureRecordKey} {latest : Answer} {known : VersionRow} (last : l.Latest key record latest)
    (stored : l.journal.sourceRecordVersions.lookup ⟨key,record⟩ = some known) :
    latest.version = known.version record := by
  obtain ⟨listed,⟨place,kind⟩,highest⟩ := last
  obtain ⟨b,member,place',_,content⟩ := versioned.known _ known stored
  obtain ⟨other,there,below⟩ := versioned.bounded latest listed
  rw [place,kind,stored] at there
  cases there
  have about : b.about key record := ⟨place',by rw [content]; rfl⟩
  have above := highest b member about
  rw [content] at above
  rw [← content]
  apply versioned.single latest listed b member
  · exact ⟨place'.trans place.symm,about.2.trans kind.symm⟩
  · rw [content]
    exact Nat.le_antisymm below above

section Records
variable {l : Ledger} {env : Settings} {owner : CaptureOwner} {id : String} {input : CaptureRecordInput}
  {version : CaptureRecordVersion} {s' : Journal}

theorem record_versioned (versioned : Versioned l)
    (ok : l.journal.record env owner id input = .ok (version,s')) :
    Versioned ⟨s',l.answers++l.journal.answers env (.record owner id input)⟩ := by
  obtain ⟨key,scope,row,owned,found,_,which⟩ := Journal.record_ok env l.journal s' owner id input version ok
  obtain ⟨_,known,_⟩ := Journal.ownerScope_ok l.journal owner key scope owned
  rw [Journal.answers_record env l.journal s' owner id input version key scope owned ok]
  rcases which with ⟨previous,held,rfl,fingerprint,projection,same⟩ |
    ⟨missing,state,changed,actual,next,same,rfl⟩
  · have answer := Journal.recordVersion_ok _ _ _ _ _ version same
    obtain ⟨b,member,place,_,content⟩ := versioned.members _ previous held
    apply versioned.replay _ b member
    · exact place.symm
    · exact answer.trans content.symm
    · simp [held]
    · exact found
    · intro last pointer
      exact versioned.observed key scope input.kind last known pointer
  · have answer : version = actual.version input.toCaptureRecordKey ∧
        actual.fingerprint = input.fingerprint ∧ actual.projectionVersion = input.projectionVersion := by
      have decoded := Journal.recordVersion_ok _ _ _ _ _ version same
      obtain ⟨_,⟨_,_,rfl⟩ | ⟨_,_,_,_,⟨_,_,rfl⟩ | ⟨_,rfl,fingerprint,projection,_⟩⟩⟩ :=
        Journal.nextVersion_ok env l.journal key scope row id input changed actual next
      · exact ⟨decoded,rfl,rfl⟩
      · exact ⟨decoded,rfl,rfl⟩
      · refine ⟨?_,fingerprint,projection⟩
        rw [decoded,VersionRow.version,fingerprint,projection]
    obtain ⟨rfl,fingerprint,projection⟩ := answer
    rw [missing]
    refine versioned.observe key scope row id input.toCaptureRecordKey actual
      ⟨input.fingerprint,input.projectionVersion,actual.revision,actual.rawReference,
        actual.versionCapture,none,none,none,none⟩ known found ?_ ?_ rfl ?_ ?_ ?_
    · rw [RecordRow.version,VersionRow.version,fingerprint,projection]
    · obtain ⟨_,⟨unknown,_,rfl⟩ | ⟨previous,stored,orphaned,_,⟨_,_,rfl⟩ | ⟨_,rfl,_,_,kept,_⟩⟩⟩ :=
        Journal.nextVersion_ok env l.journal key scope row id input changed actual next
      · refine .inl ⟨rfl,Nat.lt_succ_self _,rfl,?_⟩
        intro b member about
        obtain ⟨other,there,_⟩ := versioned.bounded b member
        rw [about.1,about.2,unknown] at there
        cases there
      · refine .inl ⟨rfl,?_,rfl,?_⟩
        · obtain ⟨b,member,place,_,content⟩ := versioned.known _ previous stored
          obtain ⟨floor,_,held,above,_⟩ := versioned.floor b member
          rw [place,known] at held
          cases held
          rw [content] at above
          exact above.trans (Nat.lt_succ_self _)
        · intro b member about
          obtain ⟨other,there,below⟩ := versioned.bounded b member
          rw [about.1,about.2,stored] at there
          cases there
          exact Nat.lt_succ_of_le below
      · refine .inr ⟨stored,?_⟩
        intro last pointer absent
        exact wasAbsent_eq_false l.journal key _ _ _ kept last pointer absent
    · intro c other held
      simp only [Table.lookup_modify]
      split
      · exact ⟨{other with recordCount := other.recordCount+1, retainedRecords := other.retainedRecords+1},
          by simp [held],fun begun => begun⟩
      · exact ⟨other,held,fun begun => begun⟩
    · intro k
      obtain ⟨_,⟨_,rfl,_⟩ | ⟨previous,stored,_,_,⟨rfl,_⟩ | ⟨rfl,rfl,_⟩⟩⟩ :=
        Journal.nextVersion_ok env l.journal key scope row id input changed actual next
      · simp only [if_true,Table.lookup_insert]
      · simp only [if_true,Table.lookup_insert]
      · by_cases here : k = ⟨key,input.toCaptureRecordKey⟩
        · subst here
          simpa using stored
        · simp [here]
    · intro m
      simp only [Table.lookup_insert]

theorem record_replayed (versioned : Versioned l) {key : ScopeKey} {scope : ScopeRow} {member : RecordRow}
    (owned : l.journal.ownerScope owner = .ok (key,scope))
    (ok : l.journal.record env owner id input = .ok (version,s'))
    (held : l.journal.captureRecords.lookup ⟨⟨key,id⟩,input.toCaptureRecordKey⟩ = some member) :
    s' = l.journal ∧ ∃ a ∈ l.answers, a.scope = key ∧ a.capture = id ∧ a.version = version := by
  obtain ⟨key',scope',row,owned',found,_,⟨previous,there,rfl,_,_,same⟩ | ⟨missing,_⟩⟩ :=
    Journal.record_ok env l.journal s' owner id input version ok
  · rw [owned] at owned'
    cases owned'
    obtain ⟨a,listed,place,capture,content⟩ := versioned.members _ previous there
    have answer := Journal.recordVersion_ok _ _ _ _ _ version same
    exact ⟨rfl,a,listed,place,capture,content.trans answer.symm⟩
  · rw [owned] at owned'
    cases owned'
    rw [held] at missing
    cases missing

/-- A new observation of a record that was answered before takes a revision
above all earlier ones when it must, and else exactly the latest version. -/
theorem record_renewed (versioned : Versioned l) {key : ScopeKey} {scope : ScopeRow} {latest : Answer}
    (owned : l.journal.ownerScope owner = .ok (key,scope))
    (ok : l.journal.record env owner id input = .ok (version,s'))
    (missing : l.journal.captureRecords.lookup ⟨⟨key,id⟩,input.toCaptureRecordKey⟩ = none)
    (last : l.Latest key input.toCaptureRecordKey latest) :
    (latest.version.fingerprint ≠ input.fingerprint ∨
        latest.version.projectionVersion ≠ input.projectionVersion ∨
        l.Reappears key scope input.toCaptureRecordKey ∨ l.Orphaned key input.toCaptureRecordKey →
      version.revision = latest.version.revision+1) ∧
    (latest.version.fingerprint = input.fingerprint →
        latest.version.projectionVersion = input.projectionVersion →
        ¬l.Reappears key scope input.toCaptureRecordKey → ¬l.Orphaned key input.toCaptureRecordKey →
      version = latest.version) := by
  obtain ⟨listed,⟨place,kind⟩,highest⟩ := last
  obtain ⟨key',scope',row,owned',found,_,⟨_,there,_⟩ | ⟨_,_,changed,actual,next,same,rfl⟩⟩ :=
    Journal.record_ok env l.journal s' owner id input version ok
  · rw [owned] at owned'
    cases owned'
    rw [missing] at there
    cases there
  rw [owned] at owned'
  cases owned'
  obtain ⟨_,known,_⟩ := Journal.ownerScope_ok l.journal owner key scope owned
  have answer := Journal.recordVersion_ok _ _ _ _ _ version same
  obtain ⟨_,⟨unknown,_⟩ | ⟨previous,stored,orphaned,lost,which⟩⟩ :=
    Journal.nextVersion_ok env l.journal key scope row id input changed actual next
  · obtain ⟨other,there,_⟩ := versioned.bounded latest listed
    rw [place,kind,unknown] at there
    cases there
  have latest_known := versioned.latest_known ⟨listed,⟨place,kind⟩,highest⟩ stored
  have lost' := orphanedReference_ok l.journal key _ previous orphaned lost
  have reappears : l.Reappears key scope input.toCaptureRecordKey ↔
      l.journal.wasAbsent key input.toCaptureRecordKey (scope.lastComplete input.kind)
        previous.comparisonCapture = true := by
    constructor
    · rintro ⟨observation,pointer,absent,unseen⟩
      by_contra kept
      rw [Bool.not_eq_true] at kept
      have compared := wasAbsent_eq_false l.journal key _ _ _ kept observation pointer absent
      obtain ⟨a,member,about,fresh,base⟩ := versioned.compared _ previous observation stored compared
      exact unseen a member about fresh base
    · intro absent
      unfold Journal.wasAbsent at absent
      split at absent
      next => cases absent
      next observation pointer =>
        simp only [Bool.and_eq_true,decide_eq_true_eq,Option.isNone_iff_eq_none] at absent
        refine ⟨observation,pointer,absent.2,?_⟩
        intro a member about fresh base
        have compared := versioned.settled a member fresh scope observation previous
          (about.1 ▸ known) (about.2 ▸ pointer) base (about.1 ▸ about.2 ▸ absent.2)
          (about.1 ▸ about.2 ▸ stored)
        exact absent.1 (pointer.trans compared.symm)
  have orphaned_iff : l.Orphaned key input.toCaptureRecordKey ↔ orphaned = true := by
    rw [lost']
    constructor
    · rintro ⟨other,row,there,object,owner,missing⟩
      rw [stored] at there
      cases there
      exact ⟨object,row,owner,missing⟩
    · rintro ⟨object,row,owner,missing⟩
      exact ⟨previous,row,stored,object,owner,missing⟩
  rw [latest_known,reappears,orphaned_iff,answer]
  rcases which with ⟨_,moved,rfl⟩ | ⟨_,rfl,fingerprint,projection,present,whole⟩
  · refine ⟨fun _ => rfl,?_⟩
    intro fingerprint projection present whole
    rcases moved with other | other | other | other
    · exact absurd fingerprint other
    · exact absurd projection other
    · exact absurd other present
    · exact absurd other whole
  · constructor
    · rintro (other | other | other | other)
      · exact absurd fingerprint other
      · exact absurd projection other
      · rw [present] at other
        cases other
      · rw [whole] at other
        cases other
    · intro _ _ _ _
      rw [VersionRow.version,fingerprint,projection]

theorem record_first (versioned : Versioned l) {key : ScopeKey} {scope : ScopeRow}
    (owned : l.journal.ownerScope owner = .ok (key,scope))
    (ok : l.journal.record env owner id input = .ok (version,s'))
    (unanswered : ∀ a ∈ l.answers, ¬a.about key input.toCaptureRecordKey) :
    version.revision = scope.revisionFloor+1 := by
  obtain ⟨key',scope',row,owned',found,_,⟨previous,there,_⟩ | ⟨_,_,changed,actual,next,same,_⟩⟩ :=
    Journal.record_ok env l.journal s' owner id input version ok
  · rw [owned] at owned'
    cases owned'
    obtain ⟨a,listed,place,_,content⟩ := versioned.members _ previous there
    exact absurd ⟨place,by rw [content]; rfl⟩ (unanswered a listed)
  · rw [owned] at owned'
    cases owned'
    have answer := Journal.recordVersion_ok _ _ _ _ _ version same
    obtain ⟨_,⟨_,_,rfl⟩ | ⟨previous,stored,_⟩⟩ :=
      Journal.nextVersion_ok env l.journal key scope row id input changed actual next
    · rw [answer]
    · obtain ⟨a,listed,place,_,content⟩ := versioned.known _ previous stored
      exact absurd ⟨place,by rw [content]; rfl⟩ (unanswered a listed)

end Records
theorem records_versioned (l : Ledger) (step : Settings × Call) (l' : Ledger)
    (inv : Sound l.journal.view ∧ Versioned l) (records : l.Records step l') :
    Sound l'.journal.view ∧ Versioned l' := by
  obtain ⟨sound,versioned⟩ := inv
  cases records with
  | rolledBack => exact ⟨sound,versioned⟩
  | committed env call s' ok =>
    refine ⟨Journal.performs_sound l.journal call s' sound (.committed _ _ _ ok),?_⟩
    by_cases observes : ∃ owner id input, call = .record owner id input
    · obtain ⟨owner,id,input,rfl⟩ := observes
      obtain ⟨version,ok⟩ := (Journal.map_snd_ok _ _).mp ok
      exact record_versioned versioned ok
    · have other : ∀ owner id input, call ≠ .record owner id input :=
        fun owner id input same => observes ⟨owner,id,input,same⟩
      have silent : l.journal.answers env call = [] := by
        cases call with
        | record owner id input => exact absurd rfl (other owner id input)
        | _ => rfl
      rw [silent,List.append_nil]
      exact versioned.carry (perform_carries sound ok other)

def Ledger.created : Ledger := ⟨Journal.created,[]⟩

theorem created_versioned : Versioned Ledger.created where
  single := by
    intro a listed
    cases listed
  floor := by
    intro a listed
    cases listed
  known := by
    intro k row found
    cases found
  members := by
    intro m row found
    cases found
  bounded := by
    intro a listed
    cases listed
  observed := by
    intro key scope kind last found
    cases found
  baselines := by
    intro a listed
    cases listed
  compared := by
    intro k row last found
    cases found
  settled := by
    intro a listed
    cases listed

theorem Versioned.latest {l : Ledger} (versioned : Versioned l) (key : ScopeKey) (record : CaptureRecordKey)
    (answered : ∃ a ∈ l.answers, a.about key record) : ∃ latest, l.Latest key record latest := by
  obtain ⟨a,listed,place,kind⟩ := answered
  obtain ⟨known,stored,_⟩ := versioned.bounded a listed
  rw [place,kind] at stored
  obtain ⟨latest,member,place',_,content⟩ := versioned.known _ known stored
  refine ⟨latest,member,⟨place',by rw [content]; rfl⟩,?_⟩
  intro b listed' about
  obtain ⟨other,there,below⟩ := versioned.bounded b listed'
  rw [about.1,about.2,stored] at there
  cases there
  rw [content]
  exact below

/-- How `record` numbers versions: one content for each revision, above the
floor, and for a new observation a greater revision or the latest version. -/
structure Ledger.Numbered (l : Ledger) : Prop where
  single : ∀ a ∈ l.answers, ∀ b ∈ l.answers, b.about a.scope a.version.toCaptureRecordKey →
    a.version.revision = b.version.revision → a.version = b.version
  floor : ∀ a ∈ l.answers, ∃ scope, l.journal.scopes.lookup a.scope = some scope ∧
    scope.revisionFloor < a.version.revision
  replayed : ∀ env owner id input version s' key scope member,
    l.journal.ownerScope owner = .ok (key,scope) →
    l.journal.record env owner id input = .ok (version,s') →
    l.journal.captureRecords.lookup ⟨⟨key,id⟩,input.toCaptureRecordKey⟩ = some member →
      s' = l.journal ∧ ∃ a ∈ l.answers, a.scope = key ∧ a.capture = id ∧ a.version = version
  first : ∀ env owner id input version s' key scope, l.journal.ownerScope owner = .ok (key,scope) →
    l.journal.record env owner id input = .ok (version,s') →
    (∀ a ∈ l.answers, ¬a.about key input.toCaptureRecordKey) → version.revision = scope.revisionFloor+1
  latest : ∀ key record, (∃ a ∈ l.answers, a.about key record) → ∃ latest, l.Latest key record latest
  greater : ∀ env owner id input version s' key scope latest,
    l.journal.ownerScope owner = .ok (key,scope) →
    l.journal.record env owner id input = .ok (version,s') →
    l.journal.captureRecords.lookup ⟨⟨key,id⟩,input.toCaptureRecordKey⟩ = none →
    l.Latest key input.toCaptureRecordKey latest →
    latest.version.fingerprint ≠ input.fingerprint ∨
      latest.version.projectionVersion ≠ input.projectionVersion ∨
      l.Reappears key scope input.toCaptureRecordKey ∨ l.Orphaned key input.toCaptureRecordKey →
      ∀ b ∈ l.answers, b.about key input.toCaptureRecordKey → b.version.revision < version.revision
  unchanged : ∀ env owner id input version s' key scope latest,
    l.journal.ownerScope owner = .ok (key,scope) →
    l.journal.record env owner id input = .ok (version,s') →
    l.journal.captureRecords.lookup ⟨⟨key,id⟩,input.toCaptureRecordKey⟩ = none →
    l.Latest key input.toCaptureRecordKey latest →
    latest.version.fingerprint = input.fingerprint →
    latest.version.projectionVersion = input.projectionVersion →
    ¬l.Reappears key scope input.toCaptureRecordKey → ¬l.Orphaned key input.toCaptureRecordKey →
      version = latest.version
  /-- In particular after an abandoned capture, while no other observation has
  been sealed: the record was already observed against the same baseline. -/
  again : ∀ env owner id input version s' key scope earlier,
    l.journal.ownerScope owner = .ok (key,scope) →
    l.journal.record env owner id input = .ok (version,s') →
    l.journal.captureRecords.lookup ⟨⟨key,id⟩,input.toCaptureRecordKey⟩ = none →
    l.Latest key input.toCaptureRecordKey earlier → earlier.observed = true →
    earlier.baseline = scope.lastComplete input.kind →
    earlier.version.toCaptureRecordInput = input →
    earlier.version.rawReference.any AdapterRawReference.isObject = false →
      version.revision = earlier.version.revision

/-- Record versions are never reused. -/
theorem history_numbered (steps : List (Settings × Call)) (l : Ledger)
    (run : Run Ledger.Records Ledger.created steps l) : l.Numbered := by
  obtain ⟨_,versioned⟩ := run.invariant records_versioned ⟨Journal.created_sound,created_versioned⟩
  refine ⟨versioned.single,?_,?_,?_,versioned.latest,?_,?_,?_⟩
  · intro a listed
    obtain ⟨scope,_,known,above,_⟩ := versioned.floor a listed
    exact ⟨scope,known,above⟩
  · intro env owner id input version s' key scope member owned ok held
    exact record_replayed versioned owned ok held
  · intro env owner id input version s' key scope owned ok unanswered
    exact record_first versioned owned ok unanswered
  · intro env owner id input version s' key scope latest owned ok missing last renewed b listed about
    have next := (record_renewed versioned owned ok missing last).1 renewed
    have below := last.2.2 b listed about
    omega
  · intro env owner id input version s' key scope latest owned ok missing last
    exact (record_renewed versioned owned ok missing last).2
  · intro env owner id input version s' key scope earlier owned ok missing last fresh base content plain
    have same := (record_renewed versioned owned ok missing last).2 (by rw [← content]) (by rw [← content]) ?_ ?_
    · rw [same]
    · rintro ⟨observation,pointer,_,unseen⟩
      exact unseen earlier last.1 last.2.1 fresh (base.trans pointer)
    · rintro ⟨known,row,stored,object,_⟩
      rw [versioned.latest_known last stored] at plain
      exact absurd object (by simpa [VersionRow.version] using plain)

section Example

def Ledger.play (env : Settings) : Ledger → List Call → Except CaptureJournalError Ledger
  | l,[] => .ok l
  | l,call::calls => match l.journal.perform env call with
    | .ok s' => play env ⟨s',l.answers++l.journal.answers env call⟩ calls
    | .error failure => .error failure

theorem Ledger.play_run (env : Settings) (l l' : Ledger) (calls : List Call) (ok : l.play env calls = .ok l') :
    Run Ledger.Records l (calls.map fun call => (env,call)) l' := by
  induction calls generalizing l with
  | nil =>
    cases ok
    exact .nil _
  | cons call calls ih =>
    simp only [Ledger.play] at ok
    split at ok
    next middle performed => exact .cons _ _ _ _ _ (.committed l env call middle performed) (ih _ ok)
    next => cases ok

/-- An Event that refers to a Raw object, in two captures of which the first is
abandoned unsealed. -/
def exampleEvent : CaptureRecordInput :=
  ⟨⟨.event,"e"⟩,"ba7816bf8f01cfea414140de5dae2223b00361a396177a9cb410ff61f20015ad","1",
    some (.object "object" none)⟩

def exampleObservation (id : String) : List Call :=
  [.reserve Journal.exampleOwner ⟨some true,none,id,none,"{}",true⟩,
    .record Journal.exampleOwner id exampleEvent,
    .settle Journal.exampleOwner id .abandonUnsealed]

def exampleRepetition : List Call :=
  .claim Journal.exampleOwner.scope::(exampleObservation "first"++exampleObservation "second")

def exampleLedger : Ledger :=
  after Ledger.created (Ledger.created.play Journal.exampleSettings exampleRepetition)

private theorem example_computed_run : (Ledger.created.play Journal.exampleSettings exampleRepetition).isOk = true ∧
    exampleLedger.answers.map (fun a => (a.capture,a.baseline,a.version.toCaptureRecordInput,a.version.revision)) =
      [("first",none,exampleEvent,1),("second",none,exampleEvent,2)] ∧ exampleLedger.answers.length = 2 := by
  decide

private theorem example_run : Run Ledger.Records Ledger.created
    (exampleRepetition.map fun call => (Journal.exampleSettings,call)) exampleLedger :=
  Ledger.play_run _ _ _ _ (ok_after _ _ example_computed_run.1)

/-- The same content of the same record, recorded again after an unsealed
capture was abandoned, takes another revision. -/
theorem abandoned_object_renumbered : Run Ledger.Records Ledger.created
    (exampleRepetition.map fun call => (Journal.exampleSettings,call)) exampleLedger ∧
    exampleLedger.answers.map (fun a => (a.capture,a.baseline,a.version.toCaptureRecordInput,a.version.revision)) =
      [("first",none,exampleEvent,1),("second",none,exampleEvent,2)] :=
  ⟨example_run,example_computed_run.2.1⟩

/-- The numbering at the example's run, in which `record` answered twice. -/
theorem example_numbered : exampleLedger.answers.length = 2 ∧ exampleLedger.Numbered :=
  ⟨example_computed_run.2.2,history_numbered _ _ example_run⟩

end Example
end ATape.Capture
