import ATape.Capture.History
import Mathlib.Algebra.Order.Ring.Int
import Mathlib.Data.List.Sort
import Mathlib.Data.Prod.Lex
import Mathlib.Tactic.Ring

/-! The counters of the journal against the rows they count: bytes of held
unit bodies, bytes of held source metadata, and metadata rows. Each counter is
one invariant; an operation that leaves the columns a counter reads keeps it. -/
namespace ATape.Capture
open Foundation

def UnitRow.held (row : UnitRow) : Nat := (row.body.map ByteArray.size).getD 0

def textSize (value : Option String) : Nat := (value.map String.utf8ByteSize).getD 0

namespace Journal

def heldBytes (s : Journal) : Nat := s.units.total fun _ unit => unit.held

def targetHeld (s : Journal) (c : CaptureKey) : Nat :=
  s.units.total fun u unit => if u.capture = c then unit.held else 0

/-- The bytes of the baselines, source headers and legacy checkpoints that are
still held. -/
def heldMetadata (s : Journal) : Nat :=
  (s.scopes.total fun _ scope => textSize scope.adoptionMetadata)+
    (s.captures.total fun _ row => textSize row.sourceMetadata)+
    s.legacyMigrations.total fun _ row => row.checkpointJson.utf8ByteSize

def metadataRows (s : Journal) : Nat :=
  s.scopes.size+s.captures.size+s.units.size+s.sourceRecordVersions.size+s.captureRecords.size+
    s.legacyMigrations.size

structure Held (s : Journal) : Prop where
  retained : s.retainedBytes = s.heldBytes
  target : ∀ c row, s.captures.lookup c = some row → row.retainedBytes = s.targetHeld c
  counted : ∀ u unit body, s.units.lookup u = some unit → unit.body = some body →
    unit.byteCount = body.size
  owned : ∀ u unit, s.units.lookup u = some unit → ∃ row, s.captures.lookup u.capture = some row

/-- The metadata byte counter, and the length beside each metadata text. -/
structure Described (s : Journal) : Prop where
  total : s.metadataBytes = s.heldMetadata
  adoption : ∀ key scope, s.scopes.lookup key = some scope →
    scope.adoptionMetadataBytes = textSize scope.adoptionMetadata
  header : ∀ c row, s.captures.lookup c = some row → row.sourceMetadataBytes = textSize row.sourceMetadata
  migration : ∀ k row, s.legacyMigrations.lookup k = some row →
    row.byteCount = row.checkpointJson.utf8ByteSize

structure Accounted (s : Journal) : Prop where
  held : s.Held
  described : s.Described
  entries : s.metadataEntries = s.metadataRows

/-! An operation that keeps the columns a counter reads keeps the counter. -/

theorem Held.frame {s s' : Journal} (held : s.Held) (retained : s'.retainedBytes = s.retainedBytes)
    (captures : ∀ c, (s'.captures.lookup c).map CaptureRow.retainedBytes =
      (s.captures.lookup c).map CaptureRow.retainedBytes)
    (units : ∀ u, (s'.units.lookup u).map (fun unit => (unit.byteCount,unit.body)) =
      (s.units.lookup u).map fun unit => (unit.byteCount,unit.body)) : s'.Held where
  retained := by
    rw [retained,held.retained]
    exact (Table.total_view (fun _ p => (p.2.map ByteArray.size).getD 0) _ units).symm
  target := by
    intro c row found
    have same := captures c
    rw [found,Option.map_some,eq_comm,Option.map_eq_some_iff] at same
    obtain ⟨old,known,count⟩ := same
    rw [← count,held.target c old known]
    exact (Table.total_view (fun u p => if u.capture = c then (p.2.map ByteArray.size).getD 0 else 0) _
      units).symm
  counted := by
    intro u unit body found holds
    have same := units u
    rw [found,Option.map_some,eq_comm,Option.map_eq_some_iff] at same
    obtain ⟨old,known,agree⟩ := same
    simp only [Prod.mk.injEq] at agree
    rw [← agree.1]
    exact held.counted u old body known (agree.2.trans holds)
  owned := by
    intro u unit found
    have same := units u
    rw [found,Option.map_some,eq_comm,Option.map_eq_some_iff] at same
    obtain ⟨old,known,_⟩ := same
    obtain ⟨row,there⟩ := held.owned u old known
    have kept := captures u.capture
    rw [there,Option.map_some,Option.map_eq_some_iff] at kept
    obtain ⟨row',here,_⟩ := kept
    exact ⟨row',here⟩

theorem Described.frame {s s' : Journal} (described : s.Described)
    (bytes : s'.metadataBytes = s.metadataBytes)
    (scopes : ∀ key, (s'.scopes.lookup key).map (fun r => (r.adoptionMetadata,r.adoptionMetadataBytes)) =
      (s.scopes.lookup key).map fun r => (r.adoptionMetadata,r.adoptionMetadataBytes))
    (captures : ∀ c, (s'.captures.lookup c).map (fun r => (r.sourceMetadata,r.sourceMetadataBytes)) =
      (s.captures.lookup c).map fun r => (r.sourceMetadata,r.sourceMetadataBytes))
    (migrations : s'.legacyMigrations = s.legacyMigrations) : s'.Described where
  total := by
    have first := Table.total_view (fun _ p => textSize p.1) _ scopes
    have second := Table.total_view (fun _ p => textSize p.1) _ captures
    simp only [heldMetadata,bytes,described.total,migrations,first,second]
  adoption := by
    intro key scope found
    have same := scopes key
    rw [found,Option.map_some,eq_comm,Option.map_eq_some_iff] at same
    obtain ⟨old,known,agree⟩ := same
    simp only [Prod.mk.injEq] at agree
    rw [← agree.1,← agree.2]
    exact described.adoption key old known
  header := by
    intro c row found
    have same := captures c
    rw [found,Option.map_some,eq_comm,Option.map_eq_some_iff] at same
    obtain ⟨old,known,agree⟩ := same
    simp only [Prod.mk.injEq] at agree
    rw [← agree.1,← agree.2]
    exact described.header c old known
  migration := by
    rw [migrations]
    exact described.migration

/-! Completing a capture changes its state only. -/

theorem complete_counters (s : Journal) (c : CaptureKey) :
    (s.complete c).retainedBytes = s.retainedBytes ∧ (s.complete c).metadataBytes = s.metadataBytes ∧
      (s.complete c).metadataEntries = s.metadataEntries := by
  unfold complete
  split <;> exact ⟨rfl,rfl,rfl⟩

theorem map_lookup_complete {α : Type} (s : Journal) (c : CaptureKey) (g : CaptureRow → α)
    (same : ∀ row state, g {row with state := state} = g row) (d : CaptureKey) :
    ((s.complete c).captures.lookup d).map g = (s.captures.lookup d).map g := by
  unfold complete
  split
  · rfl
  · apply Table.map_lookup_modify
    intro row
    split
    · exact same row _
    · rfl

theorem complete_tables (s : Journal) (c : CaptureKey) :
    (s.complete c).scopes = s.scopes ∧ (s.complete c).units = s.units ∧
      (s.complete c).captures.size = s.captures.size ∧
      (s.complete c).sourceRecordVersions = s.sourceRecordVersions ∧
      (s.complete c).captureRecords = s.captureRecords ∧
      (s.complete c).legacyMigrations = s.legacyMigrations := by
  unfold complete
  split
  · exact ⟨rfl,rfl,rfl,rfl,rfl,rfl⟩
  · exact ⟨rfl,rfl,Table.size_modify _ _ _,rfl,rfl,rfl⟩

theorem Accounted.complete {s : Journal} (accounted : s.Accounted) (c : CaptureKey) :
    (s.complete c).Accounted := by
  obtain ⟨scopes,units,captures,versions,records,migrations⟩ := complete_tables s c
  obtain ⟨retained,bytes,entries⟩ := complete_counters s c
  refine ⟨?_,?_,?_⟩
  · apply accounted.held.frame retained
    · exact map_lookup_complete s c _ (by intro _ _; rfl)
    · intro u
      rw [units]
  · apply accounted.described.frame bytes
    · intro key
      rw [scopes]
    · exact map_lookup_complete s c _ (by intro _ _; rfl)
    · exact migrations
  · rw [entries,accounted.entries]
    simp only [metadataRows,scopes,units,captures,versions,records,migrations]

theorem created_accounted : Journal.created.Accounted := by
  refine ⟨⟨rfl,?_,?_,?_⟩,⟨rfl,?_,?_,?_⟩,rfl⟩
  · intro c row found
    cases found
  · intro u unit body found
    cases found
  · intro u unit found
    cases found
  · intro key scope found
    cases found
  · intro c row found
    cases found
  · intro k row found
    cases found

theorem claim_accounted (env : Settings) (s s' : Journal) (scope : CaptureScope) (claimed : CaptureClaim)
    (accounted : s.Accounted) (ok : s.claim env scope = .ok (claimed,s')) : s'.Accounted := by
  obtain ⟨key,_,⟨_,_,_,_,rfl⟩ | ⟨fresh,_,_,rfl⟩⟩ := claim_ok env s s' scope claimed ok
  · refine ⟨accounted.held.frame rfl (fun _ => rfl) fun _ => rfl,?_,?_⟩
    · refine accounted.described.frame rfl ?_ ?_ ?_
      · exact Table.map_lookup_modify s.scopes key _ _ (by intro _; rfl)
      · intro c
        rfl
      · rfl
    · simpa [metadataRows,setScope] using accounted.entries
  · refine ⟨accounted.held.frame rfl (fun _ => rfl) fun _ => rfl,⟨?_,?_,?_,?_⟩,?_⟩
    · simp [heldMetadata,Table.total_insert_new _ fresh,accounted.described.total,textSize]
    · intro other row found
      rw [Table.lookup_insert] at found
      split at found
      next =>
        cases found
        rfl
      next => exact accounted.described.adoption other row found
    · exact accounted.described.header
    · exact accounted.described.migration
    · have before := accounted.entries
      simp only [metadataRows,Table.size_insert_new fresh] at before ⊢
      omega

theorem freezeLegacyMigration_accounted (env : Settings) (s s' : Journal) (projectId adapterId : String)
    (input frozen : CaptureLegacyMigration) (accounted : s.Accounted)
    (ok : s.freezeLegacyMigration env projectId adapterId input = .ok (frozen,s')) : s'.Accounted := by
  obtain ⟨_,_,⟨_,_,_,_,rfl⟩ | ⟨fresh,_,_,rfl⟩⟩ :=
    freezeLegacyMigration_ok env s s' projectId adapterId input frozen ok
  · exact accounted
  · refine ⟨accounted.held.frame rfl (fun _ => rfl) fun _ => rfl,⟨?_,?_,?_,?_⟩,?_⟩
    · have before := accounted.described.total
      simp only [heldMetadata,Table.total_insert_new _ fresh] at before ⊢
      omega
    · exact accounted.described.adoption
    · exact accounted.described.header
    · intro k row found
      rw [Table.lookup_insert] at found
      split at found
      next =>
        cases found
        rfl
      next => exact accounted.described.migration k row found
    · have before := accounted.entries
      simp only [metadataRows,Table.size_insert_new fresh] at before ⊢
      omega

theorem adoptBaseline_accounted (env : Settings) (s s' : Journal) (owner : CaptureOwner)
    (revisionFloor : Int) (metadataJson : String) (accounted : s.Accounted)
    (ok : s.adoptBaseline env owner revisionFloor metadataJson = .ok s') : s'.Accounted := by
  obtain ⟨key,scope,owned,⟨_,_,rfl⟩ | ⟨_,_,_,_,_,rfl⟩⟩ :=
    adoptBaseline_ok env s s' owner revisionFloor metadataJson ok
  · exact accounted
  · obtain ⟨_,found,_⟩ := ownerScope_ok s owner key scope owned
    have size := accounted.described.adoption key scope found
    refine ⟨accounted.held.frame rfl (fun _ => rfl) fun _ => rfl,⟨?_,?_,?_,?_⟩,?_⟩
    · have before := accounted.described.total
      have moved := Table.total_modify (fun _ scope => textSize scope.adoptionMetadata) (fun row => {row with
        revisionFloor := revisionFloor.toNat
        adoptionMetadata := some metadataJson
        adoptionMetadataSha := some (env.digest metadataJson.toUTF8)
        adoptionMetadataBytes := metadataJson.utf8ByteSize}) found
      simp only [heldMetadata,setScope,textSize,Option.map_some,Option.getD_some] at before moved size ⊢
      omega
    · intro other row held
      simp only [setScope,Table.lookup_modify] at held
      split at held
      next =>
        obtain ⟨old,_,rfl⟩ := Option.map_eq_some_iff.mp held
        rfl
      next => exact accounted.described.adoption other row held
    · exact accounted.described.header
    · exact accounted.described.migration
    · simpa [metadataRows,setScope] using accounted.entries

theorem setSourceMetadata_accounted (env : Settings) (s s' : Journal) (owner : CaptureOwner)
    (id value : String) (accounted : s.Accounted)
    (ok : s.setSourceMetadata env owner id value = .ok s') : s'.Accounted := by
  obtain ⟨key,_,row,_,found,⟨_,rfl⟩ | ⟨_,_,_,_,_,rfl⟩⟩ := setSourceMetadata_ok env s s' owner id value ok
  · exact accounted
  · have size := accounted.described.header ⟨key,id⟩ row found
    refine ⟨?_,⟨?_,?_,?_,?_⟩,?_⟩
    · refine accounted.held.frame rfl ?_ ?_
      · exact Table.map_lookup_modify s.captures ⟨key,id⟩ _ _ (by intro _; rfl)
      · intro u
        rfl
    · have before := accounted.described.total
      have moved := Table.total_modify (fun _ row => textSize row.sourceMetadata) (fun row => {row with
        sourceMetadata := some value
        sourceMetadataSha := some (env.digest value.toUTF8)
        sourceMetadataBytes := value.utf8ByteSize}) found
      simp only [heldMetadata,setCapture,textSize,Option.map_some,Option.getD_some] at before moved size ⊢
      omega
    · exact accounted.described.adoption
    · intro other row held
      simp only [setCapture,Table.lookup_modify] at held
      split at held
      next =>
        obtain ⟨old,_,rfl⟩ := Option.map_eq_some_iff.mp held
        rfl
      next => exact accounted.described.header other row held
    · exact accounted.described.migration
    · simpa [metadataRows,setCapture] using accounted.entries

theorem Held.unknown {s : Journal} (held : s.Held) {c : CaptureKey} (missing : s.captures.lookup c = none) :
    s.targetHeld c = 0 := by
  apply Table.total_eq_zero
  intro u unit found
  rw [if_neg]
  rintro rfl
  obtain ⟨row,there⟩ := held.owned u unit found
  rw [missing] at there
  cases there

theorem reserve_accounted (env : Settings) (s s' : Journal) (owner : CaptureOwner)
    (input : CaptureReservation) (accounted : s.Accounted) (ok : s.reserve env owner input = .ok s') :
    s'.Accounted := by
  obtain ⟨key,scope,_,⟨_,_,rfl,_⟩ | ⟨fresh,_,_,_,rfl⟩⟩ := reserve_ok env s s' owner input ok
  · exact accounted
  · refine ⟨⟨accounted.held.retained,?_,accounted.held.counted,?_⟩,⟨?_,?_,?_,?_⟩,?_⟩
    · intro c row found
      simp only [Table.lookup_insert] at found
      split at found
      next same =>
        cases found
        subst same
        exact (accounted.held.unknown fresh).symm
      next => exact accounted.held.target c row found
    · intro u unit found
      obtain ⟨row,there⟩ := accounted.held.owned u unit found
      simp only [Table.lookup_insert]
      split
      · exact ⟨_,rfl⟩
      · exact ⟨row,there⟩
    · have before := accounted.described.total
      have kept : ((s.scopes.modify key fun row => {row with
          recordsInitialized := row.recordsInitialized || input.trackRecords.getD false}).total
            fun _ scope => textSize scope.adoptionMetadata) =
          s.scopes.total fun _ scope => textSize scope.adoptionMetadata :=
        Table.total_modify_same (by intro _; rfl)
      simp only [heldMetadata,Table.total_insert_new _ fresh,kept] at before ⊢
      simpa [reserved,textSize] using before
    · intro other row found
      simp only [Table.lookup_modify] at found
      split at found
      next =>
        obtain ⟨old,known,rfl⟩ := Option.map_eq_some_iff.mp found
        exact accounted.described.adoption other old known
      next => exact accounted.described.adoption other row found
    · intro c row found
      simp only [Table.lookup_insert] at found
      split at found
      next =>
        cases found
        rfl
      next => exact accounted.described.header c row found
    · exact accounted.described.migration
    · have before := accounted.entries
      simp only [metadataRows,Table.size_insert_new fresh,Table.size_modify] at before ⊢
      omega

theorem append_accounted (env : Settings) (s s' : Journal) (owner : CaptureOwner) (id : String)
    (unit : PreparedUnit) (accounted : s.Accounted) (ok : s.append env owner id unit = .ok s') :
    s'.Accounted := by
  obtain ⟨key,_,row,_,there,⟨_,_,rfl,_⟩ | ⟨fresh,_,_,_,_,rfl⟩⟩ := append_ok env s s' owner id unit ok
  · exact accounted
  · refine ⟨⟨?_,?_,?_,?_⟩,?_,?_⟩
    · simp only [heldBytes,Table.total_insert_new _ fresh]
      rw [accounted.held.retained]
      rfl
    · intro c other found
      simp only [Table.lookup_modify] at found
      simp only [targetHeld,Table.total_insert_new _ fresh]
      split at found
      next same =>
        obtain ⟨old,known,rfl⟩ := Option.map_eq_some_iff.mp found
        have before := accounted.held.target c old known
        rw [if_pos same.symm]
        simpa [targetHeld,UnitRow.held] using before
      next apart =>
        rw [if_neg fun same => apart same.symm]
        exact accounted.held.target c other found
    · intro u other body found holds
      simp only [Table.lookup_insert] at found
      split at found
      next =>
        cases found
        cases holds
        rfl
      next => exact accounted.held.counted u other body found holds
    · intro u other found
      simp only [Table.lookup_insert] at found
      have owned : ∃ row, s.captures.lookup u.capture = some row := by
        split at found
        next same =>
          subst same
          exact ⟨row,there⟩
        next => exact accounted.held.owned u other found
      obtain ⟨old,known⟩ := owned
      simp only [Table.lookup_modify,known]
      split
      · exact ⟨_,rfl⟩
      · exact ⟨old,rfl⟩
    · refine accounted.described.frame rfl ?_ ?_ ?_
      · intro other
        rfl
      · exact Table.map_lookup_modify s.captures ⟨key,id⟩ _ _ (by intro _; rfl)
      · rfl
    · have before := accounted.entries
      simp only [metadataRows,Table.size_insert_new fresh,Table.size_modify] at before ⊢
      omega

theorem record_accounted (env : Settings) (s s' : Journal) (owner : CaptureOwner) (id : String)
    (input : CaptureRecordInput) (version : CaptureRecordVersion) (accounted : s.Accounted)
    (ok : s.record env owner id input = .ok (version,s')) : s'.Accounted := by
  obtain ⟨key,scope,row,_,_,_,⟨_,_,rfl,_⟩ | ⟨fresh,_,changed,actual,next,_,rfl⟩⟩ :=
    record_ok env s s' owner id input version ok
  · exact accounted
  · refine ⟨?_,?_,?_⟩
    · refine accounted.held.frame rfl ?_ ?_
      · exact Table.map_lookup_modify s.captures ⟨key,id⟩ _ _ (by intro _; rfl)
      · intro u
        rfl
    · refine accounted.described.frame rfl ?_ ?_ ?_
      · intro other
        rfl
      · exact Table.map_lookup_modify s.captures ⟨key,id⟩ _ _ (by intro _; rfl)
      · rfl
    · have before := accounted.entries
      obtain ⟨_,⟨missing,rfl,_⟩ | ⟨previous,known,_,_,_⟩⟩ := nextVersion_ok env s key scope row id input changed
        actual next
      · simp only [metadataRows,Table.size_insert_new fresh,Table.size_insert_new missing,
          Table.size_modify,if_true,missing,Option.isNone_none] at before ⊢
        omega
      · have same : Table.size (if changed = true then
            s.sourceRecordVersions.insert ⟨key,input.toCaptureRecordKey⟩ actual
            else s.sourceRecordVersions) = s.sourceRecordVersions.size := by
          split
          · exact Table.size_insert_old known _
          · rfl
        simp only [metadataRows,Table.size_insert_new fresh,same,Table.size_modify,known,
          Option.isNone_some,Bool.false_eq_true,if_false] at before ⊢
        omega

theorem bindRecord_accounted (s s' : Journal) (owner : CaptureOwner) (id : String)
    (identity : CaptureRecordKey) (binding : CaptureRecordBinding) (accounted : s.Accounted)
    (ok : s.bindRecord owner id identity binding = .ok s') : s'.Accounted := by
  obtain ⟨key,_,_,_,_,_,_,_,_,⟨_,rfl⟩ | ⟨_,_,_,rfl⟩⟩ := bindRecord_ok s s' owner id identity binding ok
  · exact accounted
  · refine ⟨accounted.held.frame rfl (fun _ => rfl) fun _ => rfl,
      accounted.described.frame rfl (fun _ => rfl) (fun _ => rfl) rfl,?_⟩
    simpa [metadataRows] using accounted.entries

theorem sealCapture_accounted (env : Settings) (s s' : Journal) (owner : CaptureOwner) (id : String)
    (manifest : CaptureSeal) (accounted : s.Accounted)
    (ok : s.sealCapture env owner id manifest = .ok s') : s'.Accounted := by
  obtain ⟨key,_,_,_,_,⟨_,rfl⟩ | ⟨_,_,rfl⟩⟩ := sealCapture_ok env s s' owner id manifest ok
  · exact accounted
  · refine ⟨?_,?_,?_⟩
    · refine accounted.held.frame rfl ?_ ?_
      · exact Table.map_lookup_modify s.captures ⟨key,id⟩ _ _ (by intro _; rfl)
      · intro u
        rfl
    · refine accounted.described.frame rfl ?_ ?_ ?_
      · exact Table.map_lookup_modify s.scopes key _ _ (by intro _; rfl)
      · exact Table.map_lookup_modify s.captures ⟨key,id⟩ _ _ (by intro _; rfl)
      · rfl
    · simpa [metadataRows] using accounted.entries

private theorem settled_accounted (s : Journal) (f : UnitKey → UnitRow → UnitRow) (accounted : s.Accounted)
    (same : ∀ u unit, (f u unit).byteCount = unit.byteCount ∧ (f u unit).body = unit.body) :
    Accounted {s with units := s.units.updateAll f} := by
  refine ⟨?_,accounted.described.frame rfl (fun _ => rfl) (fun _ => rfl) rfl,?_⟩
  · refine accounted.held.frame rfl (fun _ => rfl) ?_
    apply Table.map_lookup_updateAll
    intro u unit
    rw [(same u unit).1,(same u unit).2]
  · simpa [metadataRows] using accounted.entries

private theorem setUnit_accounted (s : Journal) (u : UnitKey) (f : UnitRow → UnitRow) (accounted : s.Accounted)
    (same : ∀ unit, (f unit).byteCount = unit.byteCount ∧ (f unit).body = unit.body) :
    (s.setUnit u f).Accounted := by
  apply settled_accounted s _ accounted
  intro other unit
  split
  · exact same unit
  · exact ⟨rfl,rfl⟩

private theorem setCapture_accounted (s : Journal) (c : CaptureKey) (f : CaptureRow → CaptureRow)
    (accounted : s.Accounted)
    (same : ∀ row, (f row).retainedBytes = row.retainedBytes ∧ (f row).sourceMetadata = row.sourceMetadata ∧
      (f row).sourceMetadataBytes = row.sourceMetadataBytes) : (s.setCapture c f).Accounted := by
  refine ⟨?_,?_,?_⟩
  · refine accounted.held.frame rfl ?_ fun _ => rfl
    apply Table.map_lookup_modify
    intro row
    exact (same row).1
  · refine accounted.described.frame rfl (fun _ => rfl) ?_ rfl
    apply Table.map_lookup_modify
    intro row
    rw [(same row).2.1,(same row).2.2]
  · simpa [metadataRows,setCapture] using accounted.entries

private theorem cancelPending_same (unit : UnitRow) :
    (cancelPending unit).byteCount = unit.byteCount ∧ (cancelPending unit).body = unit.body := by
  unfold cancelPending
  split <;> exact ⟨rfl,rfl⟩

theorem settleCanonical_accounted (s s' : Journal) (c : CaptureKey) (row : CaptureRow) (ordinal : Int)
    (receiptJson : String) (accounted : s.Accounted)
    (ok : s.settleCanonical c row ordinal receiptJson = .ok s') : s'.Accounted := by
  obtain ⟨_,_,⟨_,rfl⟩ | ⟨_,_,rfl⟩⟩ := settleCanonical_ok s s' c row ordinal receiptJson ok
  · exact accounted
  · exact setUnit_accounted s _ _ accounted (fun _ => ⟨rfl,rfl⟩)

theorem settleRaw_accounted (s s' : Journal) (c : CaptureKey) (row : CaptureRow) (ordinal : Int)
    (receiptJson : String) (accounted : s.Accounted)
    (ok : s.settleRaw c row ordinal receiptJson = .ok s') : s'.Accounted := by
  obtain ⟨_,_,_,_,rfl⟩ := settleRaw_ok s s' c row ordinal receiptJson ok
  apply Accounted.complete
  exact setUnit_accounted s _ _ accounted fun _ => ⟨rfl,rfl⟩

theorem settleUnitCanceled_accounted (s s' : Journal) (c : CaptureKey) (row : CaptureRow) (ordinal : Int)
    (accounted : s.Accounted) (ok : s.settleUnitCanceled c row ordinal = .ok s') : s'.Accounted := by
  obtain ⟨_,_,_,_,rfl⟩ := settleUnitCanceled_ok s s' c row ordinal ok
  exact (setUnit_accounted s _ _ accounted cancelPending_same).complete c

theorem settleCancellation_accounted (s s' : Journal) (c : CaptureKey) (all : Bool) (reason : String)
    (accounted : s.Accounted) (ok : s.settleCancellation c all reason = .ok s') : s'.Accounted := by
  rw [settleCancellation_ok s s' c all reason ok]
  have marked := setCapture_accounted s c
    (fun row => {row with rawCancelReason := row.rawCancelReason.or (some reason)}) accounted
    (fun _ => ⟨rfl,rfl,rfl⟩)
  refine (settled_accounted _ (fun k unit =>
    if all && k.capture = c && k.kind = .raw then cancelPending unit else unit) marked ?_).complete c
  intro u unit
  split
  · exact cancelPending_same unit
  · exact ⟨rfl,rfl⟩

theorem abandon_accounted (s s' : Journal) (c : CaptureKey) (row : CaptureRow)
    (rejectionReceipt : Option String) (accounted : s.Accounted) (found : s.captures.lookup c = some row)
    (ok : s.abandon c row rejectionReceipt = .ok s') : s'.Accounted := by
  obtain ⟨enough,rfl⟩ := abandon_ok s s' c row rejectionReceipt ok
  have size := accounted.described.header c row found
  refine ⟨?_,⟨?_,accounted.described.adoption,?_,accounted.described.migration⟩,?_⟩
  · refine accounted.held.frame rfl ?_ fun _ => rfl
    exact Table.map_lookup_modify s.captures c _ _ (by intro _; rfl)
  · have before := accounted.described.total
    have moved := Table.total_modify (fun _ row => textSize row.sourceMetadata) (fun row =>
      {dropSourceMetadata row with
        state := .abandoned, rejectionReceipt := rejectionReceipt.or row.rejectionReceipt}) found
    have gone : textSize none = 0 := rfl
    simp only [heldMetadata,setCapture,dropSourceMetadata] at before moved ⊢
    omega
  · intro other row' held
    simp only [setCapture,Table.lookup_modify] at held
    split at held
    next =>
      obtain ⟨old,_,rfl⟩ := Option.map_eq_some_iff.mp held
      rfl
    next => exact accounted.described.header other row' held
  · simpa [metadataRows,setCapture] using accounted.entries

private theorem dropped_accounted (s : Journal) (c : CaptureKey) (scope : ScopeRow) (n : Nat)
    (f : ScopeRow → ScopeRow) (accounted : s.Accounted) (known : s.scopes.lookup c.scope = some scope)
    (left : n+s.droppedBytes c scope = s.metadataBytes)
    (gone : ∀ row, (f row).adoptionMetadata = none ∧ (f row).adoptionMetadataBytes = 0) :
    Accounted {s with
      metadataBytes := n
      scopes := s.scopes.modify c.scope f
      captures := s.captures.updateAll fun k row =>
        if superseded c k row then dropSourceMetadata row else row} := by
  refine ⟨?_,⟨?_,?_,?_,accounted.described.migration⟩,?_⟩
  · refine accounted.held.frame rfl ?_ fun _ => rfl
    apply Table.map_lookup_updateAll
    intro k row
    split <;> rfl
  · have before := accounted.described.total
    have baseline := Table.total_modify (fun _ scope => textSize scope.adoptionMetadata) f known
    have headers : (s.captures.total fun _ row => textSize row.sourceMetadata) =
        (s.captures.total fun k row =>
          textSize (if superseded c k row then dropSourceMetadata row else row).sourceMetadata)+
        s.captures.total fun k row => if superseded c k row then row.sourceMetadataBytes else 0 := by
      rw [← Table.total_add]
      apply Table.total_congr
      intro k row found
      rw [accounted.described.header k row found]
      split
      · rw [show textSize (dropSourceMetadata row).sourceMetadata = 0 from rfl,Nat.zero_add]
      · rfl
    have empty : textSize none = 0 := rfl
    have size := accounted.described.adoption c.scope scope known
    rw [(gone scope).1,empty] at baseline
    simp only [heldMetadata,droppedBytes,Table.total_updateAll] at before left ⊢
    omega
  · intro key row found
    simp only [Table.lookup_modify] at found
    split at found
    next =>
      obtain ⟨old,_,rfl⟩ := Option.map_eq_some_iff.mp found
      rw [(gone old).1,(gone old).2]
      rfl
    next => exact accounted.described.adoption key row found
  · intro k row found
    simp only [Table.lookup_updateAll] at found
    obtain ⟨old,there,rfl⟩ := Option.map_eq_some_iff.mp found
    split
    · rfl
    · exact accounted.described.header k old there
  · simpa [metadataRows] using accounted.entries

theorem settleActivated_accounted (s s' : Journal) (c : CaptureKey) (scope : ScopeRow) (row : CaptureRow)
    (receiptJson : String) (accounted : s.Accounted) (known : s.scopes.lookup c.scope = some scope)
    (ok : s.settleActivated c scope row receiptJson = .ok s') : s'.Accounted := by
  obtain ⟨_,rfl⟩ | ⟨_,_,_,manifest,n,_,left,rfl⟩ := settleActivated_ok s s' c scope row receiptJson ok
  · exact accounted
  have marked : (s.setCapture c fun row =>
      {row with state := .activated, activationReceipt := some receiptJson}).Accounted :=
    setCapture_accounted s c _ accounted fun _ => ⟨rfl,rfl,rfl⟩
  apply Accounted.complete
  by_cases publication : row.purpose = .publication
  · rw [if_pos publication] at left
    have dropped := dropped_accounted _ c scope n (fun scope => {scope with
      checkpoint := some manifest.nextCheckpoint
      canonicalCoverage := if row.trackRecords then some c.id else scope.canonicalCoverage
      adoptionMetadata := none
      adoptionMetadataBytes := 0}) marked known (by
        simpa only [droppedBytes,setCapture,superseded_modify] using left) fun _ => ⟨rfl,rfl⟩
    simpa only [activatedRows,if_pos publication,setCapture] using dropped
  · rw [if_neg publication,Nat.add_zero] at left
    subst left
    simpa only [activatedRows,if_neg publication,setCapture] using marked

theorem settle_accounted (s s' : Journal) (owner : CaptureOwner) (id : String)
    (settlement : CaptureSettlement) (accounted : s.Accounted)
    (ok : s.settle owner id settlement = .ok s') : s'.Accounted := by
  simp only [settle,bind_ok] at ok
  obtain ⟨⟨key,scope⟩,owned,row,read,ok⟩ := ok
  obtain ⟨_,known,_⟩ := ownerScope_ok s owner key scope owned
  have found := capture_ok s _ row read
  cases settlement with
  | activated receiptJson => exact settleActivated_accounted s s' _ scope row receiptJson accounted known ok
  | canonicalAcknowledged ordinal receiptJson =>
    exact settleCanonical_accounted s s' _ row ordinal receiptJson accounted ok
  | rawAcknowledged ordinal receiptJson =>
    exact settleRaw_accounted s s' _ row ordinal receiptJson accounted ok
  | rawCancellationStarted reason => exact settleCancellation_accounted s s' _ false reason accounted ok
  | rawUnitCanceled ordinal => exact settleUnitCanceled_accounted s s' _ row ordinal accounted ok
  | rawCanceled reason => exact settleCancellation_accounted s s' _ true reason accounted ok
  | abandonUnsealed =>
    rcases settleAbandoned_ok s s' _ row ok with ⟨_,rfl⟩ | ⟨_,gone⟩
    · exact accounted
    · exact abandon_accounted s s' _ row none accounted found gone
  | rejected receiptJson =>
    rcases settleRejected_ok s s' _ row receiptJson ok with ⟨_,rfl⟩ | ⟨_,_,gone⟩
    · exact accounted
    · exact abandon_accounted s s' _ row _ accounted found gone

theorem membersOf_held (s : Journal) (c : CaptureKey) (n : Nat) :
    ((s.membersOf c).take n).Nodup ∧
      ∀ m ∈ (s.membersOf c).take n, ∃ row, s.captureRecords.lookup m = some row := by
  have distinct := s.captureRecords.rows_distinct
  constructor
  · have sorted : (s.membersOf c).Nodup :=
      (List.perm_insertionSort _ _).nodup_iff.mpr (distinct.filter _)
    exact sorted.sublist (List.take_sublist _ _)
  · intro m member
    have listed := (List.perm_insertionSort _ _).mem_iff.mp (List.mem_of_mem_take member)
    obtain ⟨⟨m',row⟩,there,rfl⟩ := List.mem_map.mp (List.mem_filter.mp listed).1
    exact ⟨row,(Table.mem_rows _ _ _).mp there⟩

theorem pruneRecords_accounted (s s' : Journal) (owner : CaptureOwner) (limit : Int) (removed : Nat)
    (accounted : s.Accounted) (ok : s.pruneRecords owner limit = .ok (removed,s')) : s'.Accounted := by
  obtain ⟨key,_,_,⟨_,_,rfl⟩ | ⟨id,_,rfl,rfl⟩⟩ := pruneRecords_ok s s' owner limit removed ok
  · exact accounted
  · refine ⟨?_,?_,?_⟩
    · refine accounted.held.frame rfl ?_ fun _ => rfl
      exact Table.map_lookup_modify s.captures ⟨key,id⟩ _ _ (by intro _; rfl)
    · refine accounted.described.frame rfl (fun _ => rfl) ?_ rfl
      exact Table.map_lookup_modify s.captures ⟨key,id⟩ _ _ (by intro _; rfl)
    · obtain ⟨distinct,held⟩ := s.membersOf_held ⟨key,id⟩ limit.toNat
      have parts := Table.size_keep_notMem distinct held
      have before := accounted.entries
      simp only [metadataRows,Table.size_modify] at before ⊢
      omega

theorem eligible_held (s : Journal) (c : CaptureKey) (row : CaptureRow) (n : Nat) :
    ((s.eligible c row n).map Prod.fst).Nodup ∧ ∀ entry ∈ s.eligible c row n,
      s.units.lookup entry.1 = some entry.2 ∧ entry.1.capture = c ∧ entry.2.body.isSome = true := by
  have distinct := s.units.rows_distinct
  constructor
  · refine ((List.take_sublist _ _).map Prod.fst).nodup ?_
    refine ((List.perm_insertionSort unitBefore _).map Prod.fst).nodup_iff.mpr ?_
    exact (List.filter_sublist.map Prod.fst).nodup distinct
  · rintro ⟨u,unit⟩ member
    have listed := (List.perm_insertionSort _ _).mem_iff.mp (List.mem_of_mem_take member)
    have chosen := List.mem_filter.mp listed
    simp only [decide_eq_true_eq] at chosen
    exact ⟨(Table.mem_rows _ _ _).mp chosen.1,chosen.2.1,chosen.2.2.1⟩

private theorem reclaimed_total (s : Journal) (w : UnitKey → UnitRow → Nat)
    (chosen : List (UnitKey × UnitRow)) (distinct : (chosen.map Prod.fst).Nodup)
    (held : ∀ entry ∈ chosen, s.units.lookup entry.1 = some entry.2)
    (empty : ∀ u (unit : UnitRow), w u {unit with body := none} = 0) :
    ((s.units.updateAll fun k (unit : UnitRow) =>
        if k ∈ chosen.map Prod.fst then {unit with body := none} else unit).total w)+
      (chosen.map fun entry => w entry.1 entry.2).sum = s.units.total w := by
  have dropped := Table.total_chosen w distinct s.units
  have each : ((chosen.map Prod.fst).map fun k => ((s.units.lookup k).map (w k)).getD 0) =
      chosen.map fun entry => w entry.1 entry.2 := by
    rw [List.map_map]
    apply List.map_congr_left
    intro entry member
    simp [held entry member]
  rw [each] at dropped
  rw [← dropped,Table.total_updateAll,← Table.total_add]
  apply Table.total_congr
  intro k unit _
  split
  · rw [empty,Nat.zero_add]
  · rfl

theorem reclaim_accounted (s s' : Journal) (owner : CaptureOwner) (id : String) (limit : Int)
    (removed : Nat) (accounted : s.Accounted) (ok : s.reclaim owner id limit = .ok (removed,s')) :
    s'.Accounted := by
  obtain ⟨key,_,row,_,_,_,bytes,sum,rfl⟩ := reclaim_ok s s' owner id limit removed ok
  obtain ⟨distinct,held⟩ := s.eligible_held ⟨key,id⟩ row limit.toNat
  generalize s.eligible ⟨key,id⟩ row limit.toNat = chosen at distinct held sum
  have bodies : (chosen.map fun entry => entry.2.held).sum = bytes := by
    rw [sum]
    congr 1
    apply List.map_congr_left
    intro entry member
    obtain ⟨found,_,body⟩ := held entry member
    obtain ⟨body,holds⟩ := Option.isSome_iff_exists.mp body
    have count := accounted.held.counted entry.1 entry.2 body found holds
    simp only [UnitRow.held,holds,Option.map_some,Option.getD_some]
    exact count.symm
  refine ⟨⟨?_,?_,?_,?_⟩,?_,?_⟩
  · have moved := reclaimed_total s (fun _ unit => unit.held) chosen distinct
      (fun entry member => (held entry member).1) (fun _ _ => rfl)
    have before := accounted.held.retained
    simp only [heldBytes] at before ⊢
    omega
  · intro c other found
    have moved := reclaimed_total s (fun u unit => if u.capture = c then unit.held else 0) chosen distinct
      (fun entry member => (held entry member).1) (by
        intro u unit
        split <;> rfl)
    simp only [Table.lookup_modify] at found
    simp only [targetHeld]
    split at found
    next same =>
      obtain ⟨old,known,rfl⟩ := Option.map_eq_some_iff.mp found
      have before := accounted.held.target c old known
      have share : (chosen.map fun entry => if entry.1.capture = c then entry.2.held else 0) =
          chosen.map fun entry => entry.2.held := by
        apply List.map_congr_left
        intro entry member
        rw [if_pos ((held entry member).2.1.trans same.symm)]
      rw [share,bodies] at moved
      simp only [targetHeld] at before
      change old.retainedBytes-bytes = _
      omega
    next apart =>
      have before := accounted.held.target c other found
      have share : (chosen.map fun entry => if entry.1.capture = c then entry.2.held else 0) =
          chosen.map fun _ => 0 := by
        apply List.map_congr_left
        intro entry member
        rw [if_neg fun same => apart (same.symm.trans (held entry member).2.1)]
      have none : (chosen.map fun _ => 0).sum = 0 := by simp
      rw [share,none] at moved
      simp only [targetHeld] at before
      omega
  · intro u unit body found holds
    simp only [Table.lookup_updateAll] at found
    obtain ⟨old,known,rfl⟩ := Option.map_eq_some_iff.mp found
    split at holds
    next => cases holds
    next kept =>
      rw [if_neg kept]
      exact accounted.held.counted u old body known holds
  · intro u unit found
    simp only [Table.lookup_updateAll] at found
    obtain ⟨old,known,rfl⟩ := Option.map_eq_some_iff.mp found
    obtain ⟨row,there⟩ := accounted.held.owned u old known
    simp only [Table.lookup_modify,there]
    split
    · exact ⟨_,rfl⟩
    · exact ⟨row,rfl⟩
  · refine accounted.described.frame rfl (fun _ => rfl) ?_ rfl
    exact Table.map_lookup_modify s.captures ⟨key,id⟩ _ _ (by intro _; rfl)
  · simpa [metadataRows] using accounted.entries

theorem perform_accounted (env : Settings) (s s' : Journal) (call : Call) (accounted : s.Accounted)
    (ok : s.perform env call = .ok s') : s'.Accounted := by
  cases call with
  | claim scope =>
    obtain ⟨claimed,ok⟩ := (map_snd_ok _ _).mp ok
    exact claim_accounted env s s' scope claimed accounted ok
  | freezeLegacyMigration projectId adapterId input =>
    obtain ⟨frozen,ok⟩ := (map_snd_ok _ _).mp ok
    exact freezeLegacyMigration_accounted env s s' projectId adapterId input frozen accounted ok
  | adoptBaseline owner revisionFloor metadataJson =>
    exact adoptBaseline_accounted env s s' owner revisionFloor metadataJson accounted ok
  | setSourceMetadata owner id value => exact setSourceMetadata_accounted env s s' owner id value accounted ok
  | reserve owner input => exact reserve_accounted env s s' owner input accounted ok
  | append owner id unit => exact append_accounted env s s' owner id unit accounted ok
  | record owner id input =>
    obtain ⟨version,ok⟩ := (map_snd_ok _ _).mp ok
    exact record_accounted env s s' owner id input version accounted ok
  | bindRecord owner id identity binding =>
    exact bindRecord_accounted s s' owner id identity binding accounted ok
  | sealCapture owner id manifest => exact sealCapture_accounted env s s' owner id manifest accounted ok
  | settle owner id settlement => exact settle_accounted s s' owner id settlement accounted ok
  | pruneRecords owner limit =>
    obtain ⟨removed,ok⟩ := (map_snd_ok _ _).mp ok
    exact pruneRecords_accounted s s' owner limit removed accounted ok
  | reclaim owner id limit =>
    obtain ⟨removed,ok⟩ := (map_snd_ok _ _).mp ok
    exact reclaim_accounted s s' owner id limit removed accounted ok

end Journal
end ATape.Capture
