import ATape.Capture.Accounting
import ATape.Capture.Guarantees

/-! The limits of the journal. An admission may raise a counter only up to the
limit it was configured with, and what settles or reclaims never raises one. -/
namespace ATape.Capture
open Foundation

def CaptureRow.targetBytes (row : CaptureRow) : Nat := row.retainedBytes+row.sourceMetadataBytes

/-- The calls that give up what was admitted. -/
def Call.releases : Call → Bool
  | .settle _ _ _ => true
  | .pruneRecords _ _ => true
  | .reclaim _ _ _ => true
  | _ => false

namespace Journal

def pendingBytes (s : Journal) : Nat := s.retainedBytes+s.metadataBytes

/-- What a step does to the counters: whatever it raised is within its limit. -/
structure Admitted (limits : CaptureJournalLimits) (s s' : Journal) : Prop where
  pending : s'.pendingBytes ≤ limits.pendingBytes ∨ s'.pendingBytes ≤ s.pendingBytes
  entries : s'.metadataEntries ≤ limits.metadataEntries ∨ s'.metadataEntries ≤ s.metadataEntries
  target : ∀ c row', s'.captures.lookup c = some row' → row'.targetBytes ≤ limits.targetBytes ∨
    ∃ row, s.captures.lookup c = some row ∧ row'.targetBytes ≤ row.targetBytes

structure Released (s s' : Journal) : Prop where
  retained : s'.retainedBytes ≤ s.retainedBytes
  metadata : s'.metadataBytes ≤ s.metadataBytes
  entries : s'.metadataEntries ≤ s.metadataEntries
  target : ∀ c row', s'.captures.lookup c = some row' → ∃ row, s.captures.lookup c = some row ∧
    row'.retainedBytes ≤ row.retainedBytes ∧ row'.sourceMetadataBytes ≤ row.sourceMetadataBytes

theorem Released.refl (s : Journal) : s.Released s :=
  ⟨le_rfl,le_rfl,le_rfl,fun _ row' found => ⟨row',found,le_rfl,le_rfl⟩⟩

theorem Released.trans {a b c : Journal} (first : a.Released b) (second : b.Released c) : a.Released c where
  retained := second.retained.trans first.retained
  metadata := second.metadata.trans first.metadata
  entries := second.entries.trans first.entries
  target := by
    intro k row' found
    obtain ⟨row,there,body,header⟩ := second.target k row' found
    obtain ⟨old,known,body',header'⟩ := first.target k row there
    exact ⟨old,known,body.trans body',header.trans header'⟩

theorem Released.admitted {s s' : Journal} (released : s.Released s') (limits : CaptureJournalLimits) :
    Admitted limits s s' where
  pending := .inr (Nat.add_le_add released.retained released.metadata)
  entries := .inr released.entries
  target := by
    intro c row' found
    obtain ⟨row,known,body,header⟩ := released.target c row' found
    exact .inr ⟨row,known,Nat.add_le_add body header⟩

private theorem released_rows {s s' : Journal} (f : CaptureKey → CaptureRow → CaptureRow)
    (captures : s'.captures = s.captures.updateAll f) (retained : s'.retainedBytes ≤ s.retainedBytes)
    (metadata : s'.metadataBytes ≤ s.metadataBytes) (entries : s'.metadataEntries ≤ s.metadataEntries)
    (lower : ∀ k row, (f k row).retainedBytes ≤ row.retainedBytes ∧
      (f k row).sourceMetadataBytes ≤ row.sourceMetadataBytes) : s.Released s' := by
  refine ⟨retained,metadata,entries,?_⟩
  intro c row' found
  rw [captures,Table.lookup_updateAll] at found
  obtain ⟨row,known,rfl⟩ := Option.map_eq_some_iff.mp found
  exact ⟨row,known,lower c row⟩

private theorem released_modify {s s' : Journal} (c : CaptureKey) (f : CaptureRow → CaptureRow)
    (captures : s'.captures = s.captures.modify c f) (retained : s'.retainedBytes ≤ s.retainedBytes)
    (metadata : s'.metadataBytes ≤ s.metadataBytes) (entries : s'.metadataEntries ≤ s.metadataEntries)
    (lower : ∀ row, (f row).retainedBytes ≤ row.retainedBytes ∧
      (f row).sourceMetadataBytes ≤ row.sourceMetadataBytes) : s.Released s' := by
  apply released_rows _ captures retained metadata entries
  intro k row
  split
  · exact lower row
  · exact ⟨le_rfl,le_rfl⟩

private theorem released_complete (s : Journal) (c : CaptureKey) : s.Released (s.complete c) := by
  unfold complete
  split
  · exact .refl _
  · refine released_modify c (fun row =>
      if row.activationReceipt.isSome then {row with state := .completed} else row)
      rfl le_rfl le_rfl le_rfl ?_
    intro row
    split <;> exact ⟨le_rfl,le_rfl⟩

private theorem released_settle {s s' : Journal} {owner : CaptureOwner} {id : String}
    {settlement : CaptureSettlement} (ok : s.settle owner id settlement = .ok s') : s.Released s' := by
  have settled (s s' : Journal) (captures : s'.captures = s.captures)
      (retained : s'.retainedBytes = s.retainedBytes) (metadata : s'.metadataBytes = s.metadataBytes)
      (entries : s'.metadataEntries = s.metadataEntries) : s.Released s' :=
    ⟨retained.le,metadata.le,entries.le,fun c row' found => ⟨row',captures ▸ found,le_rfl,le_rfl⟩⟩
  have abandoned (c : CaptureKey) (row : CaptureRow) (rejectionReceipt : Option String)
      (ok : s.abandon c row rejectionReceipt = .ok s') : s.Released s' := by
    obtain ⟨_,rfl⟩ := abandon_ok s s' c row rejectionReceipt ok
    refine released_modify c (fun row => {dropSourceMetadata row with
      state := .abandoned, rejectionReceipt := rejectionReceipt.or row.rejectionReceipt})
      rfl le_rfl (Nat.sub_le _ _) le_rfl ?_
    intro row
    exact ⟨le_rfl,Nat.zero_le _⟩
  simp only [settle,bind_ok] at ok
  obtain ⟨⟨key,scope⟩,_,row,_,ok⟩ := ok
  cases settlement with
  | activated receiptJson =>
    obtain ⟨_,rfl⟩ | ⟨_,_,_,manifest,n,_,left,rfl⟩ := settleActivated_ok s s' _ scope row receiptJson ok
    · exact .refl _
    · refine Released.trans (b := s.activatedRows _ row manifest.nextCheckpoint receiptJson n) ?_
        (released_complete _ _)
      by_cases publication : row.purpose = .publication
      · let mark : CaptureRow → CaptureRow := fun row =>
          {row with state := .activated, activationReceipt := some receiptJson}
        let marked := s.setCapture ⟨key,id⟩ mark
        have first : s.Released marked :=
          released_modify ⟨key,id⟩ mark rfl le_rfl le_rfl le_rfl fun _ => ⟨le_rfl,le_rfl⟩
        apply first.trans
        refine released_rows (fun k row => if superseded ⟨key,id⟩ k row then dropSourceMetadata row else row)
          ?_ le_rfl ?_ le_rfl ?_
        · simp [activatedRows,publication,marked,mark,setCapture]
        · exact Nat.le.intro left
        · intro k row
          split
          · exact ⟨le_rfl,Nat.zero_le _⟩
          · exact ⟨le_rfl,le_rfl⟩
      · apply released_modify ⟨key,id⟩ (fun row =>
          {row with state := .activated, activationReceipt := some receiptJson})
        · simp [activatedRows,publication]
        · exact le_rfl
        · exact Nat.le.intro left
        · exact le_rfl
        · intro row
          exact ⟨le_rfl,le_rfl⟩
  | canonicalAcknowledged ordinal receiptJson =>
    obtain ⟨_,_,⟨_,rfl⟩ | ⟨_,_,rfl⟩⟩ := settleCanonical_ok s s' _ row ordinal receiptJson ok
    · exact .refl _
    · exact settled _ _ rfl rfl rfl rfl
  | rawAcknowledged ordinal receiptJson =>
    obtain ⟨_,_,_,_,rfl⟩ := settleRaw_ok s s' _ row ordinal receiptJson ok
    refine Released.trans ?_ (released_complete _ _)
    exact settled _ _ rfl rfl rfl rfl
  | rawUnitCanceled ordinal =>
    obtain ⟨_,_,_,_,rfl⟩ := settleUnitCanceled_ok s s' _ row ordinal ok
    refine Released.trans ?_ (released_complete _ _)
    exact settled _ _ rfl rfl rfl rfl
  | rawCancellationStarted reason =>
    rw [settleCancellation_ok s s' _ false reason ok]
    refine Released.trans ?_ (released_complete _ _)
    exact released_modify _ (fun row => {row with rawCancelReason := row.rawCancelReason.or (some reason)})
      rfl le_rfl le_rfl le_rfl fun _ => ⟨le_rfl,le_rfl⟩
  | rawCanceled reason =>
    rw [settleCancellation_ok s s' _ true reason ok]
    refine Released.trans ?_ (released_complete _ _)
    exact released_modify _ (fun row => {row with rawCancelReason := row.rawCancelReason.or (some reason)})
      rfl le_rfl le_rfl le_rfl fun _ => ⟨le_rfl,le_rfl⟩
  | abandonUnsealed =>
    rcases settleAbandoned_ok s s' _ row ok with ⟨_,rfl⟩ | ⟨_,gone⟩
    · exact .refl _
    · exact abandoned _ row none gone
  | rejected receiptJson =>
    rcases settleRejected_ok s s' _ row receiptJson ok with ⟨_,rfl⟩ | ⟨_,_,gone⟩
    · exact .refl _
    · exact abandoned _ row _ gone

theorem perform_releases (env : Settings) (s s' : Journal) (call : Call) (releases : call.releases = true)
    (ok : s.perform env call = .ok s') : s.Released s' := by
  cases call with
  | settle owner id settlement => exact released_settle ok
  | pruneRecords owner limit =>
    obtain ⟨removed,ok⟩ := (map_snd_ok _ _).mp ok
    obtain ⟨key,_,_,⟨_,_,rfl⟩ | ⟨id,_,_,rfl⟩⟩ := pruneRecords_ok s s' owner limit removed ok
    · exact .refl _
    · exact released_modify ⟨key,id⟩ (fun row =>
        {row with recordsRetired := true, retainedRecords := row.retainedRecords-removed})
        rfl le_rfl le_rfl (Nat.sub_le _ _) fun _ => ⟨le_rfl,le_rfl⟩
  | reclaim owner id limit =>
    obtain ⟨removed,ok⟩ := (map_snd_ok _ _).mp ok
    obtain ⟨key,_,_,_,_,_,bytes,_,rfl⟩ := reclaim_ok s s' owner id limit removed ok
    exact released_modify ⟨key,id⟩ (fun row => {row with retainedBytes := row.retainedBytes-bytes})
      rfl (Nat.sub_le _ _) le_rfl le_rfl fun _ => ⟨Nat.sub_le _ _,le_rfl⟩
  | _ => cases releases

private theorem admitted_entries (limits : CaptureJournalLimits) {s s' : Journal}
    (pending : s'.pendingBytes ≤ limits.pendingBytes ∨ s'.pendingBytes ≤ s.pendingBytes)
    (entries : s'.metadataEntries ≤ limits.metadataEntries ∨ s'.metadataEntries ≤ s.metadataEntries)
    (captures : ∀ c, (s'.captures.lookup c).map CaptureRow.targetBytes =
      (s.captures.lookup c).map CaptureRow.targetBytes) : Admitted limits s s' := by
  refine ⟨pending,entries,?_⟩
  intro c row' found
  have same := captures c
  rw [found,Option.map_some,eq_comm,Option.map_eq_some_iff] at same
  obtain ⟨row,known,count⟩ := same
  exact .inr ⟨row,known,count.ge⟩

theorem perform_admitted (env : Settings) (s s' : Journal) (call : Call)
    (ok : s.perform env call = .ok s') : Admitted env.limits s s' := by
  cases call with
  | claim scope =>
    obtain ⟨claimed,ok⟩ := (map_snd_ok _ _).mp ok
    obtain ⟨key,_,⟨_,_,_,_,rfl⟩ | ⟨_,_,room,rfl⟩⟩ := claim_ok env s s' scope claimed ok
    · exact admitted_entries env.limits (.inr le_rfl) (.inr le_rfl) fun _ => rfl
    · exact admitted_entries env.limits (.inr le_rfl) (.inl room) fun _ => rfl
  | freezeLegacyMigration projectId adapterId input =>
    obtain ⟨frozen,ok⟩ := (map_snd_ok _ _).mp ok
    obtain ⟨_,_,⟨_,_,_,_,rfl⟩ | ⟨_,room,pending,rfl⟩⟩ :=
      freezeLegacyMigration_ok env s s' projectId adapterId input frozen ok
    · exact (Released.refl _).admitted env.limits
    · refine admitted_entries env.limits (.inl ?_) (.inl room) fun _ => rfl
      rw [Nat.add_assoc] at pending
      exact pending
  | adoptBaseline owner revisionFloor metadataJson =>
    obtain ⟨key,_,_,⟨_,_,rfl⟩ | ⟨_,_,_,pending,_,rfl⟩⟩ :=
      adoptBaseline_ok env s s' owner revisionFloor metadataJson ok
    · exact (Released.refl _).admitted env.limits
    · refine admitted_entries env.limits (.inl ?_) (.inr le_rfl) fun _ => rfl
      simp only [pendingBytes,setScope]
      omega
  | setSourceMetadata owner id value =>
    obtain ⟨key,_,row,_,found,⟨_,rfl⟩ | ⟨_,_,target,pending,_,rfl⟩⟩ :=
      setSourceMetadata_ok env s s' owner id value ok
    · exact (Released.refl _).admitted env.limits
    · refine ⟨.inl ?_,.inr le_rfl,?_⟩
      · simp only [pendingBytes,setCapture]
        omega
      · intro c row' held
        simp only [setCapture,Table.lookup_modify] at held
        split at held
        next same =>
          subst same
          rw [found] at held
          cases held
          exact .inl target
        next => exact .inr ⟨row',held,le_rfl⟩
  | reserve owner input =>
    obtain ⟨key,_,_,⟨_,_,rfl,_⟩ | ⟨_,_,_,room,rfl⟩⟩ := reserve_ok env s s' owner input ok
    · exact (Released.refl _).admitted env.limits
    · refine ⟨.inr le_rfl,.inl room,?_⟩
      intro c row' held
      simp only [Table.lookup_insert] at held
      split at held
      next =>
        cases held
        exact .inl (Nat.zero_le _)
      next => exact .inr ⟨row',held,le_rfl⟩
  | append owner id unit =>
    obtain ⟨key,_,row,_,found,⟨_,_,rfl,_⟩ | ⟨_,_,target,pending,room,rfl⟩⟩ :=
      append_ok env s s' owner id unit ok
    · exact (Released.refl _).admitted env.limits
    · refine ⟨.inl ?_,.inl room,?_⟩
      · simp only [pendingBytes]
        omega
      · intro c row' held
        simp only [Table.lookup_modify] at held
        split at held
        next same =>
          subst same
          rw [found] at held
          cases held
          left
          simp only [CaptureRow.targetBytes]
          omega
        next => exact .inr ⟨row',held,le_rfl⟩
  | record owner id input =>
    obtain ⟨version,ok⟩ := (map_snd_ok _ _).mp ok
    obtain ⟨key,scope,row,_,_,_,⟨_,_,rfl,_⟩ | ⟨_,_,changed,actual,next,_,rfl⟩⟩ :=
      record_ok env s s' owner id input version ok
    · exact (Released.refl _).admitted env.limits
    · have room := (nextVersion_ok env s key scope row id input changed actual next).1
      refine admitted_entries env.limits (.inr le_rfl) (.inl room) ?_
      exact Table.map_lookup_modify s.captures ⟨key,id⟩ _ _ (by intro _; rfl)
  | bindRecord owner id identity binding =>
    obtain ⟨_,_,_,_,_,_,_,_,_,⟨_,rfl⟩ | ⟨_,_,_,rfl⟩⟩ := bindRecord_ok s s' owner id identity binding ok
    · exact (Released.refl _).admitted env.limits
    · exact admitted_entries env.limits (.inr le_rfl) (.inr le_rfl) fun _ => rfl
  | sealCapture owner id manifest =>
    obtain ⟨key,_,_,_,_,⟨_,rfl⟩ | ⟨_,_,rfl⟩⟩ := sealCapture_ok env s s' owner id manifest ok
    · exact (Released.refl _).admitted env.limits
    · refine admitted_entries env.limits (.inr le_rfl) (.inr le_rfl) ?_
      exact Table.map_lookup_modify s.captures ⟨key,id⟩ _ _ (by intro _; rfl)
  | settle owner id settlement => exact (perform_releases env s s' _ rfl ok).admitted env.limits
  | pruneRecords owner limit => exact (perform_releases env s s' _ rfl ok).admitted env.limits
  | reclaim owner id limit => exact (perform_releases env s s' _ rfl ok).admitted env.limits

/-- Calls through handles that may be configured differently. -/
def Serves (s : Journal) (step : Settings × Call) (s' : Journal) : Prop := Performs step.1 s step.2 s'

theorem served {env : Settings} {calls : List Call} {s s' : Journal} (run : Run (Performs env) s calls s') :
    Run Serves s (calls.map fun call => (env,call)) s' := by
  induction run with
  | nil => exact .nil _
  | cons s call middle calls final head _ ih => exact .cons _ _ _ _ _ head ih

theorem serves_accounted (s : Journal) (step : Settings × Call) (s' : Journal) (accounted : s.Accounted)
    (served : s.Serves step s') : s'.Accounted := by
  cases served with
  | committed _ ok => exact perform_accounted step.1 s s' step.2 accounted ok
  | rolledBack => exact accounted

/-- All counters within one configuration. -/
structure Within (limits : CaptureJournalLimits) (s : Journal) : Prop where
  pending : s.pendingBytes ≤ limits.pendingBytes
  entries : s.metadataEntries ≤ limits.metadataEntries
  target : ∀ c row, s.captures.lookup c = some row → row.targetBytes ≤ limits.targetBytes

theorem Within.admitted {limits : CaptureJournalLimits} {s s' : Journal} (within : s.Within limits)
    (admitted : Admitted limits s s') : s'.Within limits where
  pending := admitted.pending.elim id fun kept => kept.trans within.pending
  entries := admitted.entries.elim id fun kept => kept.trans within.entries
  target := by
    intro c row' found
    rcases admitted.target c row' found with bounded | ⟨row,known,kept⟩
    · exact bounded
    · exact kept.trans (within.target c row known)

private theorem created_within (limits : CaptureJournalLimits) : Journal.created.Within limits := by
  refine ⟨Nat.zero_le _,Nat.zero_le _,?_⟩
  intro c row found
  cases found

theorem history_within {limits : CaptureJournalLimits} {steps : List (Settings × Call)} {s s' : Journal}
    (same : ∀ step ∈ steps, step.1.limits = limits) (within : s.Within limits) (run : Run Serves s steps s') :
    s'.Within limits := by
  induction run with
  | nil => exact within
  | cons s step middle steps final head _ ih =>
    apply ih
    · intro step member
      exact same step (List.mem_cons_of_mem _ member)
    · have configured := same step List.mem_cons_self
      cases head with
      | committed _ ok => exact within.admitted (configured ▸ perform_admitted step.1 s middle step.2 ok)
      | rolledBack => exact within

/-- The counters of every journal that a sequence of calls reaches, what any
further call may do to them, and that a call that fails changes nothing. -/
structure Budgets (s : Journal) : Prop where
  retained : s.retainedBytes = s.heldBytes
  metadata : s.metadataBytes = s.heldMetadata
  entries : s.metadataEntries = s.metadataRows
  target : ∀ c row, s.captures.lookup c = some row →
    row.retainedBytes = s.targetHeld c ∧ row.sourceMetadataBytes = textSize row.sourceMetadata
  admits : ∀ env call s', Performs env s call s' → Admitted env.limits s s'
  releases : ∀ env call s', Performs env s call s' → call.releases = true → s.Released s'
  failure : ∀ env call s' reason, Performs env s call s' → s.perform env call = .error reason → s' = s

/-- Byte and entry accounting of the journal over every sequence of calls. -/
theorem history_budgets (steps : List (Settings × Call)) (s : Journal)
    (run : Run Serves Journal.created steps s) : s.Budgets ∧ ∀ limits : CaptureJournalLimits,
      (∀ step ∈ steps, step.1.limits = limits) → s.Within limits := by
  have accounted := run.invariant serves_accounted created_accounted
  refine ⟨⟨accounted.held.retained,accounted.described.total,accounted.entries,?_,?_,?_,?_⟩,?_⟩
  · intro c row found
    exact ⟨accounted.held.target c row found,accounted.described.header c row found⟩
  · intro env call s' step
    cases step with
    | committed _ ok => exact perform_admitted env s s' call ok
    | rolledBack => exact (Released.refl s).admitted env.limits
  · intro env call s' step gives
    cases step with
    | committed _ ok => exact perform_releases env s s' call gives ok
    | rolledBack => exact .refl s
  · intro env call s' reason step failed
    cases step with
    | committed _ ok =>
      rw [failed] at ok
      cases ok
    | rolledBack => rfl
  · intro limits same
    exact history_within same (created_within limits) run

/-- The budgets at the example's history, which holds one unit of three bytes. -/
theorem prepared_budgets : examplePrepared.retainedBytes = 3 ∧
    examplePrepared.retainedBytes = examplePrepared.heldBytes ∧
      examplePrepared.Within exampleSettings.limits := by
  obtain ⟨budgets,within⟩ := history_budgets _ _ (served prepared_history)
  refine ⟨prepared_bytes,budgets.retained,within exampleSettings.limits ?_⟩
  intro step member
  obtain ⟨call,_,rfl⟩ := List.mem_map.mp member
  rfl

end Journal
end ATape.Capture
