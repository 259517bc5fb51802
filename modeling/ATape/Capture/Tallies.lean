import ATape.Capture.Quotas
import ATape.Capture.Versions
import Mathlib.Algebra.Order.BigOperators.Group.List

/-! A sealed capture holds as many records of each kind as its manifest says, until its membership is retired. -/
namespace ATape.Capture
open Foundation Lifecycle

/-- What is said of the membership of a capture. -/
def CaptureRow.membership (row : CaptureRow) : Option CaptureSeal × Bool := (row.sealJson,row.recordsRetired)

namespace Journal

theorem recordTotal_total (s : Journal) (c : CaptureKey) (kind : CaptureRecordKind) :
    s.recordTotal c kind = s.captureRecords.total fun m _ => if m.capture = c ∧ m.record.kind = kind then 1 else 0 := by
  have kept := Table.total_keep (fun _ _ => 1) (fun m _ => decide (m.capture = c ∧ m.record.kind = kind)) s.captureRecords
  simp only [decide_eq_true_eq] at kept
  rw [← kept]
  have rows := Table.size_rows (Table.keep (fun m _ => decide (m.capture = c ∧ m.record.kind = kind)) s.captureRecords)
  refine Eq.trans ?_ rows.symm
  simp [recordTotal,Table.rows,Table.keep,List.filter_map,Function.comp_def]

structure Tallied (s : Journal) : Prop where
  settled : ∀ c row, s.captures.lookup c = some row → row.sealJson ≠ none ∨ row.recordsRetired = true →
    row.state ≠ .preparing
  within : ∀ c row manifest records, s.captures.lookup c = some row → row.sealJson = some manifest →
    manifest.records = some records → ∀ kind, (s.recordTotal c kind : ℤ) ≤ expectedRecords records kind
  counted : ∀ c row manifest records, s.captures.lookup c = some row → row.recordsRetired = false →
    row.sealJson = some manifest → manifest.records = some records →
      ∀ kind, (s.recordTotal c kind : ℤ) = expectedRecords records kind

section Calls
variable {s s' : Journal}

/-- A sealed capture that keeps its seal and, unless it is retired, its number of records. -/
def Retains (s s' : Journal) (c : CaptureKey) (row' : CaptureRow) : Prop :=
  row'.sealJson = none ∧ row'.recordsRetired = false ∨ ∃ row, s.captures.lookup c = some row ∧
    row.sealJson = row'.sealJson ∧ (row'.recordsRetired = true → row.recordsRetired = true ∨ row.state ≠ .preparing) ∧
    (∀ kind, s'.recordTotal c kind ≤ s.recordTotal c kind) ∧
    (row'.recordsRetired = false → row.recordsRetired = false ∧ ∀ kind, s'.recordTotal c kind = s.recordTotal c kind)

theorem Tallied.frame (tallied : s.Tallied)
    (advanced : ∀ c row, s.captures.lookup c = some row →
      ∃ row', s'.captures.lookup c = some row' ∧ (row.state ≠ .preparing → row'.state ≠ .preparing))
    (retains : ∀ c row', s'.captures.lookup c = some row' → Retains s s' c row') : s'.Tallied where
  settled c row' found ended := by
    obtain ⟨none,live⟩ | ⟨row,before,same,retired,_⟩ := retains c row' found
    · simp [none,live] at ended
    · obtain ⟨after,there,moved⟩ := advanced c row before
      rw [found] at there
      cases there
      apply moved
      rcases ended with sealed' | gone
      · exact tallied.settled c row before (.inl (by rw [same]; exact sealed'))
      · rcases retired gone with earlier | begun
        · exact tallied.settled c row before (.inr earlier)
        · exact begun
  within c row' manifest records found sealed' listed kind := by
    obtain ⟨none,_⟩ | ⟨row,before,same,_,fewer,_⟩ := retains c row' found
    · rw [none] at sealed'
      cases sealed'
    · have bounded := tallied.within c row manifest records before (same.trans sealed') listed kind
      have less := fewer kind
      omega
  counted c row' manifest records found live sealed' listed kind := by
    obtain ⟨none,_⟩ | ⟨row,before,same,_,_,equal⟩ := retains c row' found
    · rw [none] at sealed'
      cases sealed'
    · obtain ⟨held,totals⟩ := equal live
      rw [totals]
      exact tallied.counted c row manifest records before held (same.trans sealed') listed kind

theorem retains_quiet (same : ∀ c, (s'.captures.lookup c).map CaptureRow.membership =
      (s.captures.lookup c).map CaptureRow.membership)
    (totals : ∀ c kind, s'.recordTotal c kind = s.recordTotal c kind) (c : CaptureKey) (row' : CaptureRow)
    (found : s'.captures.lookup c = some row') : Retains s s' c row' := by
  have kept := same c
  rw [found,Option.map_some,eq_comm,Option.map_eq_some_iff] at kept
  obtain ⟨row,before,equal⟩ := kept
  simp only [CaptureRow.membership,Prod.mk.injEq] at equal
  refine .inr ⟨row,before,equal.1,fun gone => .inl (equal.2.trans gone),fun kind => (totals c kind).le,?_⟩
  intro live
  exact ⟨equal.2.trans live,totals c⟩

theorem recordTotal_congr (records : s'.captureRecords = s.captureRecords) (c : CaptureKey) (kind : CaptureRecordKind) :
    s'.recordTotal c kind = s.recordTotal c kind := by
  unfold recordTotal
  rw [records]

theorem settle_membership {owner : CaptureOwner} {id : String} {settlement : CaptureSettlement}
    (ok : s.settle owner id settlement = .ok s') (d : CaptureKey) :
    (s'.captures.lookup d).map CaptureRow.membership = (s.captures.lookup d).map CaptureRow.membership := by
  have completed (t : Journal) (c : CaptureKey) :
      ((t.complete c).captures.lookup d).map CaptureRow.membership = (t.captures.lookup d).map CaptureRow.membership :=
    map_lookup_complete t c CaptureRow.membership (by intro _ _; rfl) d
  have marked (c : CaptureKey) (f : CaptureRow → CaptureRow) (same : ∀ row, (f row).membership = row.membership) :
      ((s.captures.modify c f).lookup d).map CaptureRow.membership = (s.captures.lookup d).map CaptureRow.membership :=
    Table.map_lookup_modify s.captures c f _ same d
  have abandoned (c : CaptureKey) (row : CaptureRow) (rejectionReceipt : Option String)
      (ok : s.abandon c row rejectionReceipt = .ok s') :
      (s'.captures.lookup d).map CaptureRow.membership = (s.captures.lookup d).map CaptureRow.membership := by
    obtain ⟨_,rfl⟩ := abandon_ok s s' c row rejectionReceipt ok
    exact marked c _ fun _ => rfl
  simp only [settle,bind_ok] at ok
  obtain ⟨⟨key,scope⟩,_,row,_,ok⟩ := ok
  cases settlement with
  | activated receiptJson =>
    obtain ⟨_,rfl⟩ | ⟨_,_,_,manifest,n,_,_,rfl⟩ := settleActivated_ok s s' _ scope row receiptJson ok
    · rfl
    · rw [completed]
      simp only [activatedRows]
      split
      · refine (Table.map_lookup_updateAll _ _ CaptureRow.membership ?_ d).trans (marked _ _ fun _ => rfl)
        intro k other
        split
        · rfl
        · rfl
      · exact marked _ _ fun _ => rfl
  | canonicalAcknowledged ordinal receiptJson =>
    obtain ⟨_,_,⟨_,rfl⟩ | ⟨_,_,rfl⟩⟩ := settleCanonical_ok s s' _ row ordinal receiptJson ok
    · rfl
    · rfl
  | rawAcknowledged ordinal receiptJson =>
    obtain ⟨_,_,_,_,rfl⟩ := settleRaw_ok s s' _ row ordinal receiptJson ok
    exact completed _ _
  | rawUnitCanceled ordinal =>
    obtain ⟨_,_,_,_,rfl⟩ := settleUnitCanceled_ok s s' _ row ordinal ok
    exact completed _ _
  | rawCancellationStarted reason =>
    rw [settleCancellation_ok s s' _ false reason ok,completed]
    exact marked _ _ fun _ => rfl
  | rawCanceled reason =>
    rw [settleCancellation_ok s s' _ true reason ok,completed]
    exact marked _ _ fun _ => rfl
  | abandonUnsealed =>
    rcases settleAbandoned_ok s s' _ row ok with ⟨_,rfl⟩ | ⟨_,gone⟩
    · rfl
    · exact abandoned _ row none gone
  | rejected receiptJson =>
    rcases settleRejected_ok s s' _ row receiptJson ok with ⟨_,rfl⟩ | ⟨_,_,gone⟩
    · rfl
    · exact abandoned _ row _ gone

theorem sealCapture_counted {env : Settings} {owner : CaptureOwner} {id : String} {manifest : CaptureSeal}
    {key : ScopeKey} {scope : ScopeRow} {row : CaptureRow} (ok : s.sealCapture env owner id manifest = .ok s')
    (owned : s.ownerScope owner = .ok (key,scope)) (found : s.captures.lookup ⟨key,id⟩ = some row)
    (records : CaptureRecordManifest) (listed : manifest.records = some records) (live : row.recordsRetired = false)
    (kind : CaptureRecordKind) : (s.recordTotal ⟨key,id⟩ kind : ℤ) = expectedRecords records kind := by
  simp only [sealCapture,bind_ok] at ok
  obtain ⟨⟨key',scope'⟩,owned',row',held,_,_,_,_,_,_,_,_,_,_,_,checked,_⟩ := ok
  rw [owned] at owned'
  cases owned'
  have same := capture_ok s _ row' held
  rw [found] at same
  cases same
  rw [listed] at checked
  unfold sealRecords recordManifest at checked
  rw [if_pos live] at checked
  split at checked
  next => simp at checked
  next =>
    split at checked
    next result recordsPerTarget held _ =>
      cases held
      simp only [bind_ok] at checked
      obtain ⟨_,_,_,_,_,_,_,canonical,_,_,_,_,_,_,_,raw,_⟩ := checked
      have counted : ∀ incomplete u kind, s.checkTotal ⟨key,id⟩ records recordsPerTarget incomplete kind = .ok u →
          (s.recordTotal ⟨key,id⟩ kind : ℤ) = expectedRecords records kind := by
        intro incomplete u kind ok
        simp only [checkTotal,bind_ok,failWhen_ok,not_not] at ok
        obtain ⟨_,_,same⟩ := ok
        exact same.symm
      have each := (forM_ok _ _ _).mp canonical
      cases kind with
      | session => exact counted _ _ _ (each .session (by simp))
      | thread => exact counted _ _ _ (each .thread (by simp))
      | event => exact counted _ _ _ (each .event (by simp))
      | usage => exact counted _ _ _ (each .usage (by simp))
      | raw => exact counted _ _ _ raw
    next => cases checked

theorem recordTotal_insert (m : MemberKey) (record : RecordRow) (fresh : s.captureRecords.lookup m = none)
    (records : s'.captureRecords = s.captureRecords.insert m record) (c : CaptureKey) (other : m.capture ≠ c)
    (kind : CaptureRecordKind) : s'.recordTotal c kind = s.recordTotal c kind := by
  rw [recordTotal_total,recordTotal_total,records,Table.total_insert_new _ fresh,if_neg (fun same => other same.1)]
  rfl

theorem recordTotal_keep (p : MemberKey → RecordRow → Bool) (records : s'.captureRecords = Table.keep p s.captureRecords)
    (c : CaptureKey) (kind : CaptureRecordKind) :
    s'.recordTotal c kind ≤ s.recordTotal c kind ∧
      ((∀ m record, m.capture = c → p m record = true) → s'.recordTotal c kind = s.recordTotal c kind) := by
  rw [recordTotal_total,recordTotal_total,records,Table.total_keep]
  constructor
  · unfold Table.total
    apply List.sum_le_sum
    intro e _
    by_cases kept : p e.1 e.2 = true
    · simp [kept]
    · simp [kept]
  · intro all
    apply Table.total_congr
    intro m record _
    by_cases here : m.capture = c
    · rw [if_pos (all m record here)]
    · simp [here]

theorem prunable_begun {key : ScopeKey} {scope : ScopeRow} {id : String} {row : CaptureRow}
    (chosen : s.prunable key scope = some id) (found : s.captures.lookup ⟨key,id⟩ = some row) : row.state ≠ .preparing := by
  have listed := (List.perm_insertionSort _ _).mem_iff.mp (List.mem_of_mem_head? chosen)
  obtain ⟨⟨c,row'⟩,member,picked⟩ := List.mem_filterMap.mp listed
  simp only [Option.ite_none_right_eq_some,Option.some.injEq] at picked
  obtain ⟨⟨place,ended,_⟩,rfl⟩ := picked
  subst place
  rw [Table.mem_rows,found] at member
  cases member
  intro preparing
  simp [terminal,preparing] at ended

theorem perform_tallied {env : Settings} {call : Call} (sound : Sound s.view) (tallied : s.Tallied)
    (ok : s.perform env call = .ok s') : s'.Tallied := by
  have captures := perform_captures sound ok
  have quiet (same : ∀ c, (s'.captures.lookup c).map CaptureRow.membership =
        (s.captures.lookup c).map CaptureRow.membership)
      (totals : ∀ c kind, s'.recordTotal c kind = s.recordTotal c kind) : s'.Tallied :=
    tallied.frame captures (retains_quiet same totals)
  have kept (records : s'.captureRecords = s.captureRecords) (same : s'.captures = s.captures) : s'.Tallied :=
    quiet (by intro c; rw [same]) (recordTotal_congr records)
  cases call with
  | claim scope =>
    obtain ⟨claimed,ok⟩ := (map_snd_ok _ _).mp ok
    obtain ⟨key,_,⟨_,_,_,_,rfl⟩ | ⟨_,_,_,rfl⟩⟩ := claim_ok env s s' scope claimed ok
    · exact kept rfl rfl
    · exact kept rfl rfl
  | freezeLegacyMigration projectId adapterId input =>
    obtain ⟨frozen,ok⟩ := (map_snd_ok _ _).mp ok
    obtain ⟨_,_,⟨_,_,_,_,rfl⟩ | ⟨_,_,_,rfl⟩⟩ := freezeLegacyMigration_ok env s s' projectId adapterId input frozen ok
    · exact kept rfl rfl
    · exact kept rfl rfl
  | adoptBaseline owner revisionFloor metadataJson =>
    obtain ⟨key,_,_,⟨_,_,rfl⟩ | ⟨_,_,_,_,_,rfl⟩⟩ := adoptBaseline_ok env s s' owner revisionFloor metadataJson ok
    · exact kept rfl rfl
    · exact kept rfl rfl
  | setSourceMetadata owner id value =>
    obtain ⟨key,_,row,_,_,⟨_,rfl⟩ | ⟨_,_,_,_,_,rfl⟩⟩ := setSourceMetadata_ok env s s' owner id value ok
    · exact kept rfl rfl
    · refine quiet ?_ (recordTotal_congr rfl)
      exact Table.map_lookup_modify s.captures ⟨key,id⟩ _ _ (by intro _; rfl)
  | reserve owner input =>
    obtain ⟨key,_,_,⟨_,_,rfl,_⟩ | ⟨fresh,_,_,_,rfl⟩⟩ := reserve_ok env s s' owner input ok
    · exact kept rfl rfl
    · apply tallied.frame captures
      intro c row' found
      rw [Table.lookup_insert] at found
      split at found
      next =>
        cases found
        exact .inl ⟨rfl,rfl⟩
      next => exact .inr ⟨row',found,rfl,.inl,fun _ => le_rfl,fun live => ⟨live,fun _ => rfl⟩⟩
  | append owner id unit =>
    obtain ⟨key,_,row,_,_,⟨_,_,rfl,_⟩ | ⟨_,_,_,_,_,rfl⟩⟩ := append_ok env s s' owner id unit ok
    · exact kept rfl rfl
    · refine quiet ?_ (recordTotal_congr rfl)
      exact Table.map_lookup_modify s.captures ⟨key,id⟩ _ _ (by intro _; rfl)
  | record owner id input =>
    obtain ⟨version,ok⟩ := (map_snd_ok _ _).mp ok
    obtain ⟨key,_,row,_,found,live,⟨_,_,rfl,_⟩ | ⟨fresh,state,_,actual,_,_,after⟩⟩ := record_ok env s s' owner id input version ok
    · exact kept rfl rfl
    · apply tallied.frame captures
      intro c row' there
      rw [after,Table.lookup_modify] at there
      split at there
      next here =>
        subst here
        rw [found] at there
        cases there
        refine .inl ⟨?_,live⟩
        by_contra sealed'
        exact tallied.settled _ row found (.inl sealed') state
      next elsewhere =>
        have totals := recordTotal_insert _ _ fresh (congrArg captureRecords after) c (Ne.symm elsewhere)
        exact .inr ⟨row',there,rfl,.inl,fun kind => (totals kind).le,fun live => ⟨live,totals⟩⟩
  | bindRecord owner id identity binding =>
    obtain ⟨key,_,_,_,_,_,_,_,_,⟨_,rfl⟩ | ⟨_,_,_,rfl⟩⟩ := bindRecord_ok s s' owner id identity binding ok
    · exact kept rfl rfl
    · refine quiet (fun _ => rfl) ?_
      intro c kind
      rw [recordTotal_total,recordTotal_total]
      dsimp only
      apply Table.total_modify_same
      intro _
      rfl
  | sealCapture owner id manifest =>
    obtain ⟨key,_,row,owned,found,⟨_,rfl⟩ | ⟨unsealed,state,after⟩⟩ := sealCapture_ok env s s' owner id manifest ok
    · exact kept rfl rfl
    · have totals := recordTotal_congr (congrArg captureRecords after)
      refine ⟨?_,?_,?_⟩
      · intro c row' there sealed'
        rw [after,Table.lookup_modify] at there
        split at there
        next here =>
          subst here
          rw [found] at there
          cases there
          nofun
        next => exact tallied.settled c row' there sealed'
      · intro c row' manifest' records there sealed' listed kind
        rw [totals]
        rw [after,Table.lookup_modify] at there
        split at there
        next here =>
          subst here
          rw [found] at there
          cases there
          cases sealed'
          have live : row.recordsRetired = false := by
            by_contra gone
            exact tallied.settled _ row found (.inr (by simpa using gone)) state
          exact (sealCapture_counted ok owned found records listed live kind).le
        next => exact tallied.within c row' manifest' records there sealed' listed kind
      · intro c row' manifest' records there live sealed' listed kind
        rw [totals]
        rw [after,Table.lookup_modify] at there
        split at there
        next here =>
          subst here
          rw [found] at there
          cases there
          cases sealed'
          exact sealCapture_counted ok owned found records listed live kind
        next => exact tallied.counted c row' manifest' records there live sealed' listed kind
  | settle owner id settlement =>
    obtain ⟨_,members,_⟩ := settle_quiet ok
    exact quiet (settle_membership ok) (recordTotal_congr members)
  | pruneRecords owner limit =>
    obtain ⟨removed,ok⟩ := (map_snd_ok _ _).mp ok
    obtain ⟨key,scope,_,⟨_,_,rfl⟩ | ⟨id,chosen,_,after⟩⟩ := pruneRecords_ok s s' owner limit removed ok
    · exact kept rfl rfl
    · apply tallied.frame captures
      intro c row' there
      have records : s'.captureRecords =
          Table.keep (fun m _ => m ∉ (s.membersOf ⟨key,id⟩).take limit.toNat) s.captureRecords := congrArg captureRecords after
      have totals := recordTotal_keep _ records c
      rw [after,Table.lookup_modify] at there
      split at there
      next here =>
        obtain ⟨row,before,rfl⟩ := Option.map_eq_some_iff.mp there
        have begun : row.state ≠ .preparing := prunable_begun chosen (by rw [← here]; exact before)
        refine .inr ⟨row,before,rfl,fun _ => .inr begun,fun kind => (totals kind).1,?_⟩
        intro live
        cases live
      next elsewhere =>
        refine .inr ⟨row',there,rfl,.inl,fun kind => (totals kind).1,fun live => ⟨live,fun kind => (totals kind).2 ?_⟩⟩
        intro m record inside
        simp only [decide_eq_true_eq]
        intro member
        exact elsewhere (inside.symm.trans (membersOf_inside s ⟨key,id⟩ limit.toNat m member))
  | reclaim owner id limit =>
    obtain ⟨removed,ok⟩ := (map_snd_ok _ _).mp ok
    obtain ⟨key,_,_,_,_,_,bytes,_,rfl⟩ := reclaim_ok s s' owner id limit removed ok
    refine quiet ?_ (recordTotal_congr rfl)
    exact Table.map_lookup_modify s.captures ⟨key,id⟩ _ _ (by intro _; rfl)

end Calls

theorem serves_tallied (s : Journal) (step : Settings × Call) (s' : Journal) (held : Sound s.view ∧ s.Tallied)
    (served : s.Serves step s') : Sound s'.view ∧ s'.Tallied := by
  obtain ⟨sound,tallied⟩ := held
  cases served with
  | committed _ ok => exact ⟨performs_sound s step.2 s' sound (.committed _ _ _ ok),perform_tallied sound tallied ok⟩
  | rolledBack => exact ⟨sound,tallied⟩

theorem created_tallied : Journal.created.Tallied := by
  refine ⟨?_,?_,?_⟩
  · intro c row found
    cases found
  · intro c row manifest records found
    cases found
  · intro c row manifest records found
    cases found

theorem history_tallied {steps : List (Settings × Call)} {s : Journal} (run : Run Serves Journal.created steps s) :
    s.Tallied := (run.invariant serves_tallied ⟨created_sound,created_tallied⟩).2

end Journal
end ATape.Capture
