import ATape.Capture.Refinement
import ATape.Foundation.Run

/-! Histories of the journal. A call either commits or is rolled back, on a
failure of its own or of the storage; every history of calls by any owners is
a run of the lifecycle, so its invariants hold in every journal reached. -/
namespace ATape.Capture
open Foundation Lifecycle

inductive Call
  | claim (scope : CaptureScope)
  | freezeLegacyMigration (projectId adapterId : String) (input : CaptureLegacyMigration)
  | adoptBaseline (owner : CaptureOwner) (revisionFloor : Int) (metadataJson : String)
  | setSourceMetadata (owner : CaptureOwner) (id value : String)
  | reserve (owner : CaptureOwner) (input : CaptureReservation)
  | append (owner : CaptureOwner) (id : String) (unit : PreparedUnit)
  | record (owner : CaptureOwner) (id : String) (input : CaptureRecordInput)
  | bindRecord (owner : CaptureOwner) (id : String) (identity : CaptureRecordKey)
      (binding : CaptureRecordBinding)
  | sealCapture (owner : CaptureOwner) (id : String) (manifest : CaptureSeal)
  | settle (owner : CaptureOwner) (id : String) (settlement : CaptureSettlement)
  | pruneRecords (owner : CaptureOwner) (limit : Int)
  | reclaim (owner : CaptureOwner) (id : String) (limit : Int)
  deriving DecidableEq

/-- The owner that a call carries. -/
def Call.owner : Call → Option CaptureOwner
  | .claim _ => none
  | .freezeLegacyMigration _ _ _ => none
  | .adoptBaseline owner _ _ => some owner
  | .setSourceMetadata owner _ _ => some owner
  | .reserve owner _ => some owner
  | .append owner _ _ => some owner
  | .record owner _ _ => some owner
  | .bindRecord owner _ _ _ => some owner
  | .sealCapture owner _ _ => some owner
  | .settle owner _ _ => some owner
  | .pruneRecords owner _ => some owner
  | .reclaim owner _ _ => some owner

namespace Journal

def perform (env : Settings) (s : Journal) : Call → Except CaptureJournalError Journal
  | .claim scope => Prod.snd <$> s.claim env scope
  | .freezeLegacyMigration projectId adapterId input =>
    Prod.snd <$> s.freezeLegacyMigration env projectId adapterId input
  | .adoptBaseline owner revisionFloor metadataJson => s.adoptBaseline env owner revisionFloor metadataJson
  | .setSourceMetadata owner id value => s.setSourceMetadata env owner id value
  | .reserve owner input => s.reserve env owner input
  | .append owner id unit => s.append env owner id unit
  | .record owner id input => Prod.snd <$> s.record env owner id input
  | .bindRecord owner id identity binding => s.bindRecord owner id identity binding
  | .sealCapture owner id manifest => s.sealCapture env owner id manifest
  | .settle owner id settlement => s.settle owner id settlement
  | .pruneRecords owner limit => Prod.snd <$> s.pruneRecords owner limit
  | .reclaim owner id limit => Prod.snd <$> s.reclaim owner id limit

inductive Performs (env : Settings) : Journal → Call → Journal → Prop
  | committed (s call s') (ok : s.perform env call = .ok s') : Performs env s call s'
  | rolledBack (s call) : Performs env s call s

/-- A history of calls on a journal that was just created. -/
abbrev History (env : Settings) (calls : List Call) (s : Journal) : Prop :=
  Run (Performs env) Journal.created calls s

theorem map_snd_ok {α : Type} (result : Except CaptureJournalError (α × Journal)) (s' : Journal) :
    (Prod.snd <$> result = .ok s') ↔ ∃ a, result = .ok (a,s') := by
  cases result with
  | error failure => simp [Functor.map,Except.map]
  | ok pair =>
    obtain ⟨a,after⟩ := pair
    simp [Functor.map,Except.map]

theorem perform_step (env : Settings) (s s' : Journal) (call : Call)
    (ok : s.perform env call = .ok s') :
    ∃ event, Step s.view event s'.view ∧ ∀ c receipt, event = some (c,receipt) →
      ∃ owner, call = .settle owner c.id (.activated receipt) ∧ scopeKey owner.scope = .ok c.scope := by
  have quiet (step : Step s.view none s'.view) : ∃ event, Step s.view event s'.view ∧
      ∀ c receipt, event = some (c,receipt) →
        ∃ owner, call = .settle owner c.id (.activated receipt) ∧
          scopeKey owner.scope = .ok c.scope := by
    refine ⟨none,step,?_⟩
    intro c receipt impossible
    cases impossible
  cases call with
  | claim scope =>
    obtain ⟨claimed,ok⟩ := (map_snd_ok _ _).mp ok
    exact quiet (claim_step env s s' scope claimed ok)
  | freezeLegacyMigration projectId adapterId input =>
    obtain ⟨frozen,ok⟩ := (map_snd_ok _ _).mp ok
    obtain ⟨_,_,⟨_,_,_,_,rfl⟩ | ⟨_,_,_,rfl⟩⟩ :=
      freezeLegacyMigration_ok env s s' projectId adapterId input frozen ok
    · exact quiet (.idle _)
    · exact quiet (.idle _)
  | adoptBaseline owner revisionFloor metadataJson =>
    obtain ⟨key,_,_,⟨_,_,rfl⟩ | ⟨_,_,_,_,_,rfl⟩⟩ := adoptBaseline_ok env s s' owner revisionFloor metadataJson ok
    · exact quiet (.idle _)
    · apply quiet
      convert Step.idle s.view using 1
      apply view_ext
      · intro other
        exact Table.map_lookup_modify s.scopes key _ ScopeRow.standing (by intro _; rfl) other
      · intro c
        rfl
      · intro u
        rfl
  | setSourceMetadata owner id value =>
    obtain ⟨key,_,_,_,_,⟨_,rfl⟩ | ⟨_,_,_,_,_,rfl⟩⟩ := setSourceMetadata_ok env s s' owner id value ok
    · exact quiet (.idle _)
    · apply quiet
      convert Step.idle s.view using 1
      apply view_ext
      · intro other
        rfl
      · intro c
        exact Table.map_lookup_modify s.captures ⟨key,id⟩ _ CaptureRow.phase (by intro _; rfl) c
      · intro u
        rfl
  | reserve owner input => exact quiet (reserve_step env s s' owner input ok)
  | append owner id unit => exact quiet (append_step env s s' owner id unit ok)
  | record owner id input =>
    obtain ⟨version,ok⟩ := (map_snd_ok _ _).mp ok
    exact quiet (record_step env s s' owner id input version ok)
  | bindRecord owner id identity binding =>
    exact quiet (bindRecord_step s s' owner id identity binding ok)
  | sealCapture owner id manifest => exact quiet (sealCapture_step env s s' owner id manifest ok)
  | settle owner id settlement =>
    rcases settle_step s s' owner id settlement ok with step | ⟨key,receipt,rfl,named,step⟩
    · exact quiet step
    · refine ⟨_,step,?_⟩
      intro c other same
      simp only [Option.some.injEq,Prod.mk.injEq] at same
      obtain ⟨rfl,rfl⟩ := same
      exact ⟨owner,rfl,named⟩
  | pruneRecords owner limit =>
    obtain ⟨removed,ok⟩ := (map_snd_ok _ _).mp ok
    exact quiet (pruneRecords_step s s' owner limit removed ok)
  | reclaim owner id limit =>
    obtain ⟨removed,ok⟩ := (map_snd_ok _ _).mp ok
    exact quiet (reclaim_step s s' owner id limit removed ok)

theorem performs_step (env : Settings) (s s' : Journal) (call : Call) (step : Performs env s call s') :
    ∃ event, Step s.view event s'.view ∧ ∀ c receipt, event = some (c,receipt) →
      ∃ owner, call = .settle owner c.id (.activated receipt) ∧ scopeKey owner.scope = .ok c.scope := by
  cases step with
  | committed _ ok => exact perform_step env s s' call ok
  | rolledBack =>
    refine ⟨none,.idle _,?_⟩
    intro c receipt impossible
    cases impossible

theorem created_sound : Sound Journal.created.view where
  alone := by
    intro c d p q _ found
    cases found
  receipt := by
    intro c p found
    cases found
  finished := by
    intro c p found
    cases found
  owned := by
    intro u piece found
    cases found
  dropped := by
    intro u piece p found
    cases found

theorem performs_sound {env : Settings} (s : Journal) (call : Call) (s' : Journal) (sound : Sound s.view)
    (step : Performs env s call s') : Sound s'.view := by
  obtain ⟨event,moved,_⟩ := performs_step env s s' call step
  exact sound.step moved

theorem history_sound {env : Settings} {calls : List Call} {s : Journal}
    (history : History env calls s) : Sound s.view :=
  history.invariant performs_sound created_sound

theorem history_kept {env : Settings} {calls : List Call} {s s' : Journal} (sound : Sound s.view)
    (run : Run (Performs env) s calls s') (c : CaptureKey) (row : CaptureRow)
    (found : s.captures.lookup c = some row) :
    ∃ row', s'.captures.lookup c = some row' ∧ Kept row.phase row'.phase := by
  induction run generalizing row with
  | nil => exact ⟨row,found,.refl _⟩
  | cons s call middle calls final head tail ih =>
    obtain ⟨event,moved,_⟩ := performs_step env s middle call head
    obtain ⟨p,after,first⟩ := moved.kept sound c row.phase (by simp [view,found])
    simp only [view,Option.map_eq_some_iff] at after
    obtain ⟨next,there,rfl⟩ := after
    obtain ⟨row',last,second⟩ := ih (sound.step moved) next there
    exact ⟨row',last,first.trans second⟩

def Stale (s : Journal) (owner : CaptureOwner) : Prop :=
  ∀ key row, scopeKey owner.scope = .ok key → s.scopes.lookup key = some row → row.epoch ≠ owner.epoch

def AtCapture (s : Journal) (owner : CaptureOwner) (id : String) (P : ScopeRow → CaptureRow → Prop) : Prop :=
  ∀ key scope row, s.ownerScope owner = .ok (key,scope) → s.captures.lookup ⟨key,id⟩ = some row → P scope row

def Expected (s : Journal) : Call → Prop
  | .reserve owner input => ∀ key scope, s.ownerScope owner = .ok (key,scope) →
      scope.checkpoint = input.expectedCheckpoint ∧ s.hasUnactivated key = false
  | .append owner id _ => s.AtCapture owner id fun _ row => row.state = .preparing
  | .record owner id _ => s.AtCapture owner id fun _ row => row.state = .preparing
  | .bindRecord owner id _ _ => s.AtCapture owner id fun _ row => row.state = .preparing
  | .sealCapture owner id _ => s.AtCapture owner id fun _ row => row.state = .preparing
  | .settle owner id (.activated _) => s.AtCapture owner id fun scope row =>
      row.state = .sealed ∧ scope.checkpoint = row.expectedCheckpoint
  | .settle owner id (.canonicalAcknowledged _ _) => s.AtCapture owner id fun _ row => row.state = .sealed
  | .settle owner id (.rejected _) => s.AtCapture owner id fun _ row => row.state = .sealed
  | .settle owner id .abandonUnsealed => s.AtCapture owner id fun _ row => row.state = .preparing
  | .settle owner id (.rawAcknowledged _ _) => s.AtCapture owner id fun _ row => row.activationReceipt ≠ none
  | .settle owner id (.rawUnitCanceled _) => s.AtCapture owner id fun _ row =>
      row.activationReceipt ≠ none ∧ row.rawCancelReason ≠ none
  | _ => True

/-- The call repeats one that was accepted before: what it would write is
already stored. -/
def Replayed (env : Settings) (s : Journal) : Call → Prop
  | .reserve owner input => ∃ key scope row, s.ownerScope owner = .ok (key,scope) ∧
      s.captures.lookup ⟨key,input.id⟩ = some row ∧ row.trackRecords = input.trackRecords.getD false ∧
      row.purpose = input.purpose.getD .publication ∧ row.expectedCheckpoint = input.expectedCheckpoint ∧
      row.beginJson = input.beginJson ∧ row.rawEnabled = input.rawEnabled
  | .append owner id unit => ∃ key scope row, s.ownerScope owner = .ok (key,scope) ∧
      s.units.lookup ⟨⟨key,id⟩,unit.kind,unit.ordinal.toNat⟩ = some row ∧
      row.digest = env.digest unit.bytes ∧ row.byteCount = unit.bytes.size
  | .record owner id input => ∃ key scope row, s.ownerScope owner = .ok (key,scope) ∧
      s.captureRecords.lookup ⟨⟨key,id⟩,input.toCaptureRecordKey⟩ = some row ∧
      row.fingerprint = input.fingerprint ∧ row.projectionVersion = input.projectionVersion
  | .bindRecord owner id identity binding => ∃ key scope row, s.ownerScope owner = .ok (key,scope) ∧
      s.getRecord ⟨⟨key,id⟩,identity⟩ = .ok row ∧
      s.boundContent ⟨key,id⟩ row identity binding = .ok row.content
  | .sealCapture owner id manifest => ∃ key scope row, s.ownerScope owner = .ok (key,scope) ∧
      s.captures.lookup ⟨key,id⟩ = some row ∧ row.sealJson = some manifest
  | .settle owner id (.activated receiptJson) => ∃ key scope row, s.ownerScope owner = .ok (key,scope) ∧
      s.captures.lookup ⟨key,id⟩ = some row ∧ row.activationReceipt = some receiptJson
  | .settle owner id (.canonicalAcknowledged ordinal receiptJson) => ∃ key scope unit,
      s.ownerScope owner = .ok (key,scope) ∧
      s.units.lookup ⟨⟨key,id⟩,.canonical,ordinal.toNat⟩ = some unit ∧ unit.receiptJson = some receiptJson
  | .settle owner id (.rejected receiptJson) => ∃ key scope row, s.ownerScope owner = .ok (key,scope) ∧
      s.captures.lookup ⟨key,id⟩ = some row ∧ row.rejectionReceipt = some receiptJson
  | .settle owner id .abandonUnsealed => ∃ key scope row, s.ownerScope owner = .ok (key,scope) ∧
      s.captures.lookup ⟨key,id⟩ = some row ∧ row.state = .abandoned
  | _ => False

private theorem stale_ownerScope (s : Journal) (owner : CaptureOwner) (stale : s.Stale owner)
    (key : ScopeKey) (scope : ScopeRow) : s.ownerScope owner ≠ .ok (key,scope) := by
  intro owned
  obtain ⟨named,known,_,same⟩ := ownerScope_ok s owner key scope owned
  exact stale key scope named known same

theorem stale_fails (env : Settings) (s : Journal) (call : Call) (owner : CaptureOwner)
    (carries : call.owner = some owner) (stale : s.Stale owner) :
    ∃ failure, s.perform env call = .error failure := by
  have refused : ∃ failure, s.ownerScope owner = .error failure := by
    cases read : s.ownerScope owner with
    | error failure => exact ⟨failure,rfl⟩
    | ok pair => exact absurd read (stale_ownerScope s owner stale pair.1 pair.2)
  obtain ⟨failure,refused⟩ := refused
  refine ⟨failure,?_⟩
  cases call with
  | claim => cases carries
  | freezeLegacyMigration => cases carries
  | _ =>
    cases carries
    simp [perform,adoptBaseline,setSourceMetadata,reserve,append,record,bindRecord,sealCapture,settle,
      pruneRecords,reclaim,refused,bind,Except.bind,Functor.map,Except.map]

private theorem settle_unexpected (env : Settings) (s s' : Journal) (owner : CaptureOwner) (id : String)
    (settlement : CaptureSettlement) (wrong : ¬s.Expected (.settle owner id settlement))
    (ok : s.settle owner id settlement = .ok s') :
    s' = s ∧ s.Replayed env (.settle owner id settlement) := by
  simp only [settle,bind_ok] at ok
  obtain ⟨⟨key,scope⟩,owned,row,read,ok⟩ := ok
  have found := capture_ok s _ row read
  have unique : ∀ key' scope' row', s.ownerScope owner = .ok (key',scope') →
      s.captures.lookup ⟨key',id⟩ = some row' → scope' = scope ∧ row' = row := by
    intro key' scope' row' owned' found'
    rw [owned] at owned'
    cases owned'
    exact ⟨rfl,Option.some.inj (found'.symm.trans found)⟩
  have expected (P : ScopeRow → CaptureRow → Prop) (here : P scope row) : s.AtCapture owner id P := by
    intro key' scope' row' owned' found'
    obtain ⟨rfl,rfl⟩ := unique key' scope' row' owned' found'
    exact here
  cases settlement with
  | activated receiptJson =>
    rcases settleActivated_ok s s' _ scope row receiptJson ok with ⟨known,rfl⟩ | ⟨_,state,current,_⟩
    · exact ⟨rfl,key,scope,row,owned,found,known⟩
    · exact absurd (expected _ ⟨state,current⟩) wrong
  | canonicalAcknowledged ordinal receiptJson =>
    obtain ⟨unit,there,⟨known,rfl⟩ | ⟨_,state,_⟩⟩ := settleCanonical_ok s s' _ row ordinal receiptJson ok
    · exact ⟨rfl,key,scope,unit,owned,there,known⟩
    · exact absurd (expected (fun _ row => row.state = .sealed) state) wrong
  | rawAcknowledged ordinal receiptJson =>
    have activated := (settleRaw_ok s s' _ row ordinal receiptJson ok).1
    exact absurd (expected (fun _ row => row.activationReceipt ≠ none) activated) wrong
  | rawCancellationStarted reason => exact absurd trivial wrong
  | rawUnitCanceled ordinal =>
    obtain ⟨activated,canceled,_⟩ := settleUnitCanceled_ok s s' _ row ordinal ok
    exact absurd (expected (fun _ row => row.activationReceipt ≠ none ∧ row.rawCancelReason ≠ none)
      ⟨activated,canceled⟩) wrong
  | rawCanceled reason => exact absurd trivial wrong
  | abandonUnsealed =>
    rcases settleAbandoned_ok s s' _ row ok with ⟨gone,rfl⟩ | ⟨state,_⟩
    · exact ⟨rfl,key,scope,row,owned,found,gone⟩
    · exact absurd (expected (fun _ row => row.state = .preparing) state) wrong
  | rejected receiptJson =>
    rcases settleRejected_ok s s' _ row receiptJson ok with ⟨known,rfl⟩ | ⟨_,state,_⟩
    · exact ⟨rfl,key,scope,row,owned,found,known⟩
    · exact absurd (expected (fun _ row => row.state = .sealed) state) wrong

/-- A call that finds another state than it expects is an exact replay or it
fails, and leaves the journal as it was. -/
theorem unexpected (env : Settings) (s s' : Journal) (call : Call) (wrong : ¬s.Expected call)
    (ok : s.perform env call = .ok s') : s' = s ∧ s.Replayed env call := by
  have expected (owner : CaptureOwner) (id : String) (key : ScopeKey) (scope : ScopeRow) (row : CaptureRow)
      (owned : s.ownerScope owner = .ok (key,scope)) (found : s.captures.lookup ⟨key,id⟩ = some row)
      (state : row.state = .preparing) : s.AtCapture owner id fun _ row => row.state = .preparing := by
    intro key' scope' row' owned' found'
    rw [owned] at owned'
    cases owned'
    rw [found] at found'
    cases found'
    exact state
  cases call with
  | reserve owner input =>
    obtain ⟨key,scope,owned,⟨row,found,rfl,same⟩ | ⟨_,current,alone,_⟩⟩ := reserve_ok env s s' owner input ok
    · exact ⟨rfl,key,scope,row,owned,found,same⟩
    · refine absurd ?_ wrong
      intro key' scope' owned'
      rw [owned] at owned'
      cases owned'
      exact ⟨current,alone⟩
  | append owner id unit =>
    obtain ⟨key,scope,row,owned,found,⟨previous,there,rfl,same⟩ | ⟨_,state,_⟩⟩ :=
      append_ok env s s' owner id unit ok
    · exact ⟨rfl,key,scope,previous,owned,there,same⟩
    · exact absurd (expected owner id key scope row owned found state) wrong
  | record owner id input =>
    obtain ⟨version,ok⟩ := (map_snd_ok _ _).mp ok
    obtain ⟨key,scope,row,owned,found,_,⟨previous,there,rfl,fingerprint,projection,_⟩ | ⟨_,state,_⟩⟩ :=
      record_ok env s s' owner id input version ok
    · exact ⟨rfl,key,scope,previous,owned,there,fingerprint,projection⟩
    · exact absurd (expected owner id key scope row owned found state) wrong
  | bindRecord owner id identity binding =>
    obtain ⟨key,scope,row,record,content,owned,found,member,bound,⟨rfl,rfl⟩ | ⟨_,_,state,_⟩⟩ :=
      bindRecord_ok s s' owner id identity binding ok
    · exact ⟨rfl,key,scope,record,owned,member,bound⟩
    · exact absurd (expected owner id key scope row owned found state) wrong
  | sealCapture owner id manifest =>
    obtain ⟨key,scope,row,owned,found,⟨same,rfl⟩ | ⟨_,state,_⟩⟩ :=
      sealCapture_ok env s s' owner id manifest ok
    · exact ⟨rfl,key,scope,row,owned,found,same⟩
    · exact absurd (expected owner id key scope row owned found state) wrong
  | settle owner id settlement => exact settle_unexpected env s s' owner id settlement wrong ok
  | _ => exact absurd trivial wrong

def Advances (s : Journal) (call : Call) (s' : Journal) (c : CaptureKey) : Prop :=
  (∃ owner receipt, call = .settle owner c.id (.activated receipt) ∧ scopeKey owner.scope = .ok c.scope) ∧
    s'.view.standing c.scope ≠ s.view.standing c.scope

/-- The publication of a capture that was reserved against the current
checkpoint, and was not activated before, has just been settled as activated. -/
def Publishes (s : Journal) (call : Call) (s' : Journal) (key : ScopeKey) (scope : ScopeRow) : Prop :=
  ∃ owner id receipt row row', call = .settle owner id (.activated receipt) ∧
    scopeKey owner.scope = .ok key ∧ s.captures.lookup ⟨key,id⟩ = some row ∧
    row.purpose = .publication ∧ row.expectedCheckpoint = scope.checkpoint ∧
    row.activationReceipt = none ∧ s'.captures.lookup ⟨key,id⟩ = some row' ∧
    row'.activationReceipt = some receipt

theorem performs_standing (env : Settings) (s s' : Journal) (call : Call) (sound : Sound s.view)
    (step : Performs env s call s') (key : ScopeKey) (scope : ScopeRow)
    (known : s.scopes.lookup key = some scope) :
    ∃ scope', s'.scopes.lookup key = some scope' ∧
      (scope'.checkpoint = scope.checkpoint ∧ scope'.canonicalCoverage = scope.canonicalCoverage ∨
        s.Publishes call s' key scope) := by
  obtain ⟨event,moved,named⟩ := performs_step env s s' call step
  have before : s.view.standing key = some scope.standing := by simp [view,known]
  obtain ⟨standing,after⟩ := moved.standing key scope.standing before
  have there := after
  simp only [view,Option.map_eq_some_iff] at there
  obtain ⟨scope',there,rfl⟩ := there
  refine ⟨scope',there,?_⟩
  by_cases same : scope'.standing = scope.standing
  · simp only [ScopeRow.standing,Standing.mk.injEq] at same
    exact .inl same
  · obtain ⟨id,receipt,p,q,rfl,first,missing,purpose,expected,last,given⟩ :=
      moved.advance sound key scope.standing before
        (fun equal => same (Option.some.inj (after.symm.trans equal)))
    obtain ⟨owner,rfl,located⟩ := named _ _ rfl
    simp only [view,Option.map_eq_some_iff] at first last
    obtain ⟨row,first,rfl⟩ := first
    obtain ⟨row',last,rfl⟩ := last
    exact .inr ⟨owner,id,receipt,row,row',rfl,located,first,purpose,expected,missing,last,given⟩

private theorem advance_receipt (env : Settings) (s s' : Journal) (call : Call) (sound : Sound s.view)
    (step : Performs env s call s') (c : CaptureKey) (advances : s.Advances call s' c) :
    ∃ row row' receipt, s.captures.lookup c = some row ∧ row.activationReceipt = none ∧
      s'.captures.lookup c = some row' ∧ row'.activationReceipt = some receipt := by
  obtain ⟨⟨owner,receipt,same,located⟩,changed⟩ := advances
  cases known : s.scopes.lookup c.scope with
  | none =>
    obtain ⟨event,moved,named⟩ := performs_step env s s' call step
    cases step with
    | rolledBack => exact absurd rfl changed
    | committed _ ok =>
      subst same
      simp only [perform,settle,bind_ok] at ok
      obtain ⟨⟨key,scope⟩,owned,_⟩ := ok
      obtain ⟨located',there,_,_⟩ := ownerScope_ok s owner key scope owned
      rw [located] at located'
      cases located'
      rw [known] at there
      cases there
  | some scope =>
    obtain ⟨scope',there,⟨checkpoint,coverage⟩ | published⟩ :=
      performs_standing env s s' call sound step c.scope scope known
    · refine absurd ?_ changed
      simp [view,known,there,ScopeRow.standing,checkpoint,coverage]
    · obtain ⟨_,id,other,row,row',same',_,first,_,_,missing,last,given⟩ := published
      rw [same] at same'
      cases same'
      exact ⟨row,row',receipt,first,missing,last,given⟩

theorem advance_once (env : Settings) (s s₁ s₂ s₃ : Journal) (call call' : Call) (calls : List Call)
    (sound : Sound s.view) (first : Performs env s call s₁) (between : Run (Performs env) s₁ calls s₂)
    (second : Performs env s₂ call' s₃) (c : CaptureKey) (advances : s.Advances call s₁ c) :
    ¬s₂.Advances call' s₃ c := by
  intro again
  have sound₁ := performs_sound s call s₁ sound first
  have sound₂ : Sound s₂.view := between.invariant performs_sound sound₁
  obtain ⟨_,row,receipt,_,_,there,given⟩ := advance_receipt env s s₁ call sound first c advances
  obtain ⟨row₂,later,kept⟩ := history_kept sound₁ between c row there
  obtain ⟨row₂',_,_,later',missing,_,_⟩ := advance_receipt env s₂ s₃ call' sound₂ second c again
  have equal : row₂' = row₂ := Option.some.inj (later'.symm.trans later)
  subst equal
  have held := kept.receipt receipt given
  rw [show row₂'.phase.receipt = none from missing] at held
  cases held

end Journal
end ATape.Capture
