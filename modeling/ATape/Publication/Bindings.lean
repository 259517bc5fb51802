import ATape.Ingestion.Prepared
import ATape.Publication.Safety
import ATape.Publication.Still

/-! The versions of the records. A version is bound to its content by the first attempt
that has it, whatever becomes of that attempt, and a record keeps its source key and its
thread in all its versions. -/
namespace ATape.Publication
open Authorization Canonical Foundation Go SourceIdentity
variable {sessionID id head threadID after : String} {unit unit' : WriteBatch} {ordinal index : Nat}
  {member : PreparedMember} {b b' : Baseline} {source : SourceRow}

/-! The names of the records -/

/-- The identifier that a record has by its key. That of a thread is its source's own. -/
def ownID (h : Hash) (sessionID sourceKey : String) : MemberKind → Option String
  | .session => some sessionID
  | .thread => none
  | .event => some (stableID h "e_" sourceKey)
  | .usage => some (stableID h "u_" sourceKey)

/-- A record that is named within its session. -/
structure Named (h : Hash) (sessionID : String) (kind : MemberKind) (recordID sourceKey : String) : Prop where
  within : Scoped h sessionID sourceKey
  own : ∀ id, ownID h sessionID sourceKey kind = some id → recordID = id

theorem Named.unique {h : Hash} {sessionID' recordID recordID' sourceKey : String} {kind : MemberKind}
    (left : Named h sessionID kind recordID sourceKey) (right : Named h sessionID' kind recordID' sourceKey) :
    sessionID = sessionID' ∧ (kind ≠ .thread → recordID = recordID') := by
  have same := left.within.unique right.within
  subst same
  refine ⟨rfl,fun kept => ?_⟩
  cases kind with
  | thread => exact absurd rfl kept
  | session | event | usage => exact (left.own _ rfl).trans (right.own _ rfl).symm

structure UnitNamed (h : Hash) (unit : WriteBatch) : Prop where
  session : Named h unit.session.id .session unit.session.id unit.session.sourceKey
  threads : ∀ thread ∈ unit.threads,
    thread.sessionID = unit.session.id ∧ Named h unit.session.id .thread thread.id thread.sourceKey
  events : ∀ event ∈ unit.events,
    event.sessionID = unit.session.id ∧ Named h unit.session.id .event event.id event.sourceKey
  usage : ∀ usage ∈ unit.usage,
    usage.sessionID = unit.session.id ∧ Named h unit.session.id .usage (stableID h "u_" usage.sourceKey) usage.sourceKey

theorem unitNamed_of_prepared {h : Hash} {p : Principal} {input : Ingestion.Batch}
    (prepared : Ingestion.prepareBatch h p input = .ok unit) : UnitNamed h unit := by
  have made := Ingestion.prepareBatch_ok prepared
  obtain ⟨ids,_,threads,events,_,usage,_⟩ := made.records
  have inside (rest : List String) :
      Scoped h unit.session.id (Ingestion.sourceKey (Ingestion.batchScope p input::rest)) :=
    ⟨_,rest,made.session.id,rfl⟩
  constructor
  · refine ⟨⟨_,["session"],made.session.id,made.session.sourceKey⟩,fun id own => ?_⟩
    simpa [ownID] using own
  · intro thread member
    obtain ⟨_,_,shape⟩ := forall₂_mem threads member
    refine ⟨shape.session,?_,fun id own => ?_⟩
    · rw [shape.sourceKey]
      exact inside _
    · cases own
  · intro event member
    obtain ⟨_,_,shape⟩ := forall₂_mem events member
    refine ⟨shape.session,?_,fun id own => ?_⟩
    · rw [shape.sourceKey]
      exact inside _
    · rw [shape.id]
      simpa [ownID] using own
  · intro record member
    obtain ⟨_,_,shape⟩ := forall₂_mem usage member
    refine ⟨shape.session,?_,fun id own => ?_⟩
    · rw [shape.sourceKey]
      exact inside _
    · simpa [ownID] using own

/-- The members that a part brings to its attempt: its records, and with the first part the
session and the threads. -/
def unitMembers (pk : Packages) (ordinal : Nat) (unit : WriteBatch) : List PreparedMember :=
  (if ordinal = 0 then sessionMember unit.session::unit.threads.map (threadMember 0) else [])++
    unit.events.filterMap (fun event =>
      (eventVersionFingerprint pk.hash event).map fun fingerprint => eventMember 0 event fingerprint "")++
    unit.usage.map (usageMember pk 0)

theorem unitMembers_all {pk : Packages} {holds : PreparedMember → Prop}
    (session : ordinal = 0 → holds (sessionMember unit.session))
    (threads : ordinal = 0 → ∀ thread ∈ unit.threads, holds (threadMember 0 thread))
    (events : ∀ event ∈ unit.events, ∀ fingerprint, eventVersionFingerprint pk.hash event = some fingerprint →
      holds (eventMember 0 event fingerprint ""))
    (usage : ∀ usage ∈ unit.usage, holds (usageMember pk 0 usage)) :
    ∀ member ∈ unitMembers pk ordinal unit, holds member := by
  intro member known
  simp only [unitMembers,List.mem_append,List.mem_filterMap,List.mem_map,Option.map_eq_some_iff] at known
  rcases known with (header | ⟨event,known,fingerprint,printed,rfl⟩) | ⟨record,known,rfl⟩
  · split at header
    next first =>
      rcases List.mem_cons.mp header with rfl | header
      · exact session first
      · obtain ⟨thread,known,rfl⟩ := List.mem_map.mp header
        exact threads first thread known
    next => cases header
  · exact events event known fingerprint printed
  · exact usage record known

namespace Tables
variable {limits : Limits} {pk : Packages} {c : Context} {p : Principal} {t t' t'' : Tables} {h : Hash}

def Identified (t : Tables) : Prop :=
  ∀ k row k' row', t.versions.lookup k = some row → t.versions.lookup k' = some row' → row.sessionID = row'.sessionID →
    k.kind = k'.kind → row.recordID = row'.recordID → k.sourceKey = k'.sourceKey ∧ row.threadID = row'.threadID

structure Versioned (h : Hash) (t : Tables) : Prop where
  named : ∀ k row, t.versions.lookup k = some row → Named h row.sessionID k.kind row.recordID k.sourceKey
  identified : t.Identified

structure RowsNamed (h : Hash) (t : Tables) : Prop where
  events : ∀ id event, t.events.lookup id = some event →
    event.id = id ∧ Named h event.sessionID .event event.id event.sourceKey
  usage : ∀ key usage, t.usage.lookup key = some usage →
    usage.sourceKey = key ∧ Named h usage.sessionID .usage (stableID h "u_" usage.sourceKey) usage.sourceKey

/-- The version of a member has its content, and but for threads its record and its thread. -/
def Bound (t : Tables) (sessionID : String) (member : PreparedMember) : Prop :=
  ∃ row, t.versions.lookup member.versionKey = some row ∧ row.fingerprint = member.fingerprint ∧
    (member.kind ≠ .thread → row = member.versionRow sessionID)

def Recalled (t t' : Tables) : Prop := ∀ k row, t.versions.lookup k = some row → t'.versions.lookup k = some row

/-- Versions are added, and nothing else that the legacy writers or the candidates keep. -/
structure Grows (t t' : Tables) : Prop where
  alike : t.Alike t'
  kept : t.Recalled t'
  sessions : t'.sessions = t.sessions
  threads : t'.threads = t.threads
  events : t'.events = t.events
  usage : t'.usage = t.usage

theorem Grows.refl (t : Tables) : t.Grows t := ⟨.refl t,fun _ _ known => known,rfl,rfl,rfl,rfl⟩

theorem Grows.trans (first : t.Grows t') (second : t'.Grows t'') : t.Grows t'' where
  alike := first.alike.trans second.alike
  kept k row known := second.kept k row (first.kept k row known)
  sessions := second.sessions.trans first.sessions
  threads := second.threads.trans first.threads
  events := second.events.trans first.events
  usage := second.usage.trans first.usage

theorem Bound.kept (bound : t.Bound sessionID member) (kept : t.Recalled t') : t'.Bound sessionID member := by
  obtain ⟨row,known,same⟩ := bound
  exact ⟨row,kept _ row known,same⟩

/-! One member -/

theorem identity_checked (identified : t.Identified)
    (checked : ¬(t.publicationRecordIdentity sessionID member.kind member.id).any
      (· ≠ (member.sourceKey,member.threadID)))
    {k : VersionKey} {row : VersionRow} (known : t.versions.lookup k = some row) (session : row.sessionID = sessionID)
    (kind : k.kind = member.kind) (record : row.recordID = member.id) :
    k.sourceKey = member.sourceKey ∧ row.threadID = member.threadID := by
  unfold publicationRecordIdentity at checked
  cases found : t.versions.rows.find? fun row =>
      row.2.sessionID = sessionID && row.1.kind = member.kind && row.2.recordID = member.id with
  | none =>
    have absent := List.find?_eq_none.mp found (k,row) ((Table.mem_rows _ _ _).mpr known)
    simp [session,kind,record] at absent
  | some first =>
    have fits := List.find?_some found
    have stored := (Table.mem_rows t.versions _ _).mp (List.mem_of_find?_eq_some found)
    simp only [Bool.and_eq_true,decide_eq_true_eq] at fits
    obtain ⟨⟨session',kind'⟩,record'⟩ := fits
    simp only [found,Option.map_some,Option.any_some,decide_eq_true_eq,ne_eq,not_not,Prod.mk.injEq] at checked
    obtain ⟨key,thread⟩ := identified k row first.1 first.2 known stored (session.trans session'.symm)
      (kind.trans kind'.symm) (record.trans record'.symm)
    exact ⟨key.trans checked.1,thread.trans checked.2⟩

theorem bindVersion_bound (versioned : t.Versioned h) (named : Named h sessionID member.kind member.id member.sourceKey)
    (agrees : ∀ k row, t.versions.lookup k = some row → row.sessionID = sessionID → k.kind = member.kind →
      row.recordID = member.id → k.sourceKey = member.sourceKey ∧ row.threadID = member.threadID)
    (bound : t.bindVersion sessionID member = .ok t') :
    t.Grows t' ∧ t'.Versioned h ∧ t'.Bound sessionID member := by
  unfold bindVersion at bound
  split at bound
  next previous known =>
    simp only [bind_ok,failWhen_ok,Except.ok.injEq,ne_eq,not_not] at bound
    obtain ⟨_,same,rfl⟩ := bound
    refine ⟨.refl _,versioned,previous,known,same,fun kept => ?_⟩
    -- the key names the session and the record, and the check of these the thread
    obtain ⟨session,record⟩ := (versioned.named _ previous known).unique named
    have same' : previous.recordID = member.id := record kept
    have thread := (agrees _ previous known session rfl same').2
    cases previous
    simp only [PreparedMember.versionRow,VersionRow.mk.injEq]
    exact ⟨session,same',thread,same⟩
  next fresh =>
    simp only [bind_ok,failWhen_ok,Except.ok.injEq] at bound
    obtain ⟨_,_,rfl⟩ := bound
    refine ⟨⟨⟨rfl,rfl,rfl,rfl⟩,fun k row known => ?_,rfl,rfl,rfl,rfl⟩,⟨fun k row known => ?_,?_⟩,?_⟩
    · rw [Table.lookup_insert,if_neg]
      · exact known
      · rintro rfl
        rw [fresh] at known
        cases known
    · rw [Table.lookup_insert] at known
      split at known
      next here =>
        cases known
        rw [here]
        exact named
      next => exact versioned.named k row known
    · intro k row k' row' known known' session kind record
      rw [Table.lookup_insert] at known known'
      split at known
      next here =>
        cases known
        split at known'
        next here' =>
          cases known'
          exact ⟨by rw [here,here'],rfl⟩
        next =>
          obtain ⟨key,thread⟩ := agrees k' row' known' session.symm (by rw [← kind,here]; rfl) record.symm
          exact ⟨by rw [here,key]; rfl,thread.symm⟩
      next =>
        split at known'
        next here' =>
          cases known'
          obtain ⟨key,thread⟩ := agrees k row known session (by rw [kind,here']; rfl) record
          exact ⟨by rw [here',key]; rfl,thread⟩
        next => exact versioned.identified k row k' row' known known' session kind record
    · exact ⟨_,by simp,rfl,fun _ => rfl⟩

theorem recordPublicationMember_bound
    (versioned : t.Versioned h) (named : Named h sessionID member.kind member.id member.sourceKey)
    (recorded : t.recordPublicationMember id sessionID ordinal member = .ok t') :
    t.Grows t' ∧ t'.Versioned h ∧ t'.Bound sessionID member := by
  unfold recordPublicationMember insertPublicationMember at recorded
  simp only [bind_ok,failWhen_ok,Except.ok.injEq] at recorded
  obtain ⟨_,_,_,_,_,checked,t₁,bound,_,_,rfl⟩ := recorded
  obtain ⟨grows,versioned',held⟩ := bindVersion_bound versioned named
    (fun _ _ known session kind record => identity_checked versioned.identified checked known session kind record) bound
  exact ⟨grows.trans ⟨⟨rfl,rfl,rfl,rfl⟩,fun _ _ known => known,rfl,rfl,rfl,rfl⟩,
    ⟨versioned'.named,versioned'.identified⟩,held⟩

/-! The content of a unit -/

theorem fingerprint_provenance (unit : WriteBatch) (retained : Bool) (index : Nat) (event : EventRecord) :
    eventVersionFingerprint h (provenance c unit retained index event) = eventVersionFingerprint h event := by
  unfold provenance
  split
  next => rfl
  next => rfl

/-- The events that are kept have the names and the versions of those that came. -/
structure SameVersion (kept event : EventRecord) : Prop where
  id : kept.id = event.id
  sessionID : kept.sessionID = event.sessionID
  sourceKey : kept.sourceKey = event.sourceKey
  revision : kept.revision = event.revision
  projection : kept.projectionRevision = event.projectionRevision

theorem provenance_version (unit : WriteBatch) (retained : Bool) (index : Nat) (event : EventRecord) :
    SameVersion (provenance c unit retained index event) event := by
  unfold provenance
  split
  next => exact ⟨rfl,rfl,rfl,rfl,rfl⟩
  next => exact ⟨rfl,rfl,rfl,rfl,rfl⟩

theorem provenance_member (unit : WriteBatch) (retained : Bool) (index : Nat) (event : EventRecord)
    (fingerprint : String) :
    eventMember 0 (provenance c unit retained index event) fingerprint "" = eventMember 0 event fingerprint "" := by
  unfold provenance
  split
  next => rfl
  next => rfl

theorem materializeEvents_bound {retained : Bool} {events kept : List EventRecord} (versioned : t.Versioned pk.hash)
    (named : ∀ event ∈ events, ∀ fingerprint, eventVersionFingerprint pk.hash event = some fingerprint →
      Named pk.hash sessionID .event event.id event.sourceKey)
    (written : materializeEvents pk c id sessionID ordinal unit retained index t events = .ok (t',kept)) :
    t.Grows t' ∧ t'.Versioned pk.hash ∧ (∀ event ∈ kept, ∃ came ∈ events, SameVersion event came) ∧
      ∀ event ∈ kept, ∀ fingerprint, eventVersionFingerprint pk.hash event = some fingerprint →
        Named pk.hash sessionID .event event.id event.sourceKey ∧
          t'.Bound sessionID (eventMember 0 event fingerprint "") := by
  induction events generalizing index t kept with
  | nil =>
    simp only [materializeEvents,Except.ok.injEq,Prod.mk.injEq] at written
    obtain ⟨rfl,rfl⟩ := written
    exact ⟨.refl t,versioned,by simp,by simp⟩
  | cons event events ih =>
    simp only [materializeEvents,insertPublicationProjectionChange,bind_ok,present_ok,failWhen_ok,Except.ok.injEq,
      Prod.exists] at written
    obtain ⟨fingerprint,printed,_,_,t₁,recorded,t₂,⟨_,_,rfl⟩,t₃,rest,more,same⟩ := written
    simp only [Prod.mk.injEq] at same
    obtain ⟨rfl,rfl⟩ := same
    have name := named event List.mem_cons_self fingerprint printed
    obtain ⟨grows,versioned₁,bound⟩ := recordPublicationMember_bound versioned name recorded
    have prepared : t₁.Grows {t₁ with
        changes := t₁.changes.insert t₁.nextChange ⟨id,event.id,none,0,false⟩
        nextChange := t₁.nextChange+1} := ⟨⟨rfl,rfl,rfl,rfl⟩,fun _ _ known => known,rfl,rfl,rfl,rfl⟩
    have versioned₂ : Versioned pk.hash {t₁ with
        changes := t₁.changes.insert t₁.nextChange ⟨id,event.id,none,0,false⟩
        nextChange := t₁.nextChange+1} := ⟨versioned₁.named,versioned₁.identified⟩
    obtain ⟨grows',versioned₃,came,bounds⟩ := ih versioned₂
      (fun event member => named event (List.mem_cons_of_mem _ member)) more
    refine ⟨(grows.trans prepared).trans grows',versioned₃,fun kept member => ?_,
      fun kept member fingerprint' printed' => ?_⟩
    · rcases List.mem_cons.mp member with rfl | member
      · exact ⟨event,List.mem_cons_self,provenance_version unit retained index event⟩
      · obtain ⟨event',known,version⟩ := came kept member
        exact ⟨event',List.mem_cons_of_mem _ known,version⟩
    · rcases List.mem_cons.mp member with rfl | member
      · rw [fingerprint_provenance,printed,Option.some.injEq] at printed'
        subst printed'
        rw [(provenance_version unit retained index event).id,(provenance_version unit retained index event).sourceKey,
          provenance_member]
        have held : t₁.Bound sessionID (eventMember 0 event fingerprint "") := bound
        exact ⟨name,held.kept fun k row known => grows'.kept k row known⟩
      · exact bounds kept member fingerprint' printed'

theorem materializeUsage_bound {usage : List UsageRecord} (versioned : t.Versioned pk.hash)
    (named : ∀ record ∈ usage, Named pk.hash sessionID .usage (stableID pk.hash "u_" record.sourceKey) record.sourceKey)
    (written : materializeUsage pk id sessionID ordinal index t usage = .ok t') :
    t.Grows t' ∧ t'.Versioned pk.hash ∧ ∀ record ∈ usage, t'.Bound sessionID (usageMember pk 0 record) := by
  induction usage generalizing index t with
  | nil =>
    cases written
    exact ⟨.refl _,versioned,by simp⟩
  | cons record usage ih =>
    simp only [materializeUsage,bind_ok] at written
    obtain ⟨t₁,recorded,more⟩ := written
    obtain ⟨grows,versioned₁,bound⟩ :=
      recordPublicationMember_bound versioned (named record List.mem_cons_self) recorded
    obtain ⟨grows',versioned',bounds⟩ :=
      ih versioned₁ (fun record member => named record (List.mem_cons_of_mem _ member)) more
    refine ⟨grows.trans grows',versioned',fun record' member => ?_⟩
    rcases List.mem_cons.mp member with rfl | member
    · have held : t₁.Bound sessionID (usageMember pk 0 record') := bound
      exact held.kept grows'.kept
    · exact bounds record' member

theorem recordThreads_bound {threads : List ThreadRecord} (versioned : t.Versioned pk.hash)
    (named : ∀ thread ∈ threads, Named pk.hash sessionID .thread thread.id thread.sourceKey)
    (written : recordThreads id sessionID ordinal index t threads = .ok t') :
    t.Grows t' ∧ t'.Versioned pk.hash ∧ ∀ thread ∈ threads, t'.Bound sessionID (threadMember 0 thread) := by
  induction threads generalizing index t with
  | nil =>
    cases written
    exact ⟨.refl _,versioned,by simp⟩
  | cons thread threads ih =>
    simp only [recordThreads,bind_ok] at written
    obtain ⟨_,_,t₁,recorded,more⟩ := written
    obtain ⟨grows,versioned₁,bound⟩ :=
      recordPublicationMember_bound versioned (named thread List.mem_cons_self) recorded
    obtain ⟨grows',versioned',bounds⟩ :=
      ih versioned₁ (fun thread member => named thread (List.mem_cons_of_mem _ member)) more
    refine ⟨grows.trans grows',versioned',fun thread' member => ?_⟩
    rcases List.mem_cons.mp member with rfl | member
    · have held : t₁.Bound sessionID (threadMember 0 thread') := bound
      exact held.kept grows'.kept
    · exact bounds thread' member

theorem recordHeader_bound (versioned : t.Versioned pk.hash)
    (named : UnitNamed pk.hash unit) (written : t.recordHeader id unit.session.id ordinal unit = .ok t') :
    t.Grows t' ∧ t'.Versioned pk.hash ∧ (ordinal = 0 → t'.Bound unit.session.id (sessionMember unit.session) ∧
      ∀ thread ∈ unit.threads, t'.Bound unit.session.id (threadMember 0 thread)) := by
  unfold recordHeader at written
  split at written
  next =>
    simp only [bind_ok] at written
    obtain ⟨t₁,recorded,more⟩ := written
    obtain ⟨grows,versioned₁,bound⟩ := recordPublicationMember_bound versioned named.session recorded
    obtain ⟨grows',versioned',bounds⟩ :=
      recordThreads_bound versioned₁ (fun thread member => (named.threads thread member).2) more
    exact ⟨grows.trans grows',versioned',fun _ => ⟨bound.kept grows'.kept,bounds⟩⟩
  next later =>
    cases written
    exact ⟨.refl _,versioned,fun first => absurd first later⟩

theorem materialize_bound {retained : Bool} (versioned : t.Versioned pk.hash)
    (events : ∀ event ∈ unit.events, ∀ fingerprint, eventVersionFingerprint pk.hash event = some fingerprint →
      Named pk.hash sessionID .event event.id event.sourceKey)
    (usage : ∀ record ∈ unit.usage,
      Named pk.hash sessionID .usage (stableID pk.hash "u_" record.sourceKey) record.sourceKey)
    (written : t.materializePublicationContent pk c id sessionID ordinal unit retained = .ok (t',unit')) :
    t.Grows t' ∧ t'.Versioned pk.hash ∧ (∃ kept, unit' = {unit with events := kept} ∧
        ∀ event ∈ kept, ∃ came ∈ unit.events, SameVersion event came) ∧
      (∀ event ∈ unit'.events, ∀ fingerprint, eventVersionFingerprint pk.hash event = some fingerprint →
        Named pk.hash sessionID .event event.id event.sourceKey ∧
          t'.Bound sessionID (eventMember 0 event fingerprint "")) ∧
      ∀ record ∈ unit'.usage, t'.Bound sessionID (usageMember pk 0 record) := by
  unfold materializePublicationContent at written
  simp only [bind_ok,Prod.exists,Except.ok.injEq,Prod.mk.injEq] at written
  obtain ⟨t₁,kept,first,t₂,second,rfl,rfl⟩ := written
  obtain ⟨grows,versioned₁,came,bounds⟩ := materializeEvents_bound versioned events first
  obtain ⟨grows',versioned',bounds'⟩ := materializeUsage_bound versioned₁ usage second
  refine ⟨grows.trans grows',versioned',⟨kept,rfl,came⟩,fun event member fingerprint printed => ?_,bounds'⟩
  obtain ⟨name,bound⟩ := bounds event member fingerprint printed
  exact ⟨name,bound.kept grows'.kept⟩

theorem materializeEvents_retained {events kept : List EventRecord}
    (written : materializeEvents pk c id sessionID ordinal unit true index t events = .ok (t',kept)) :
    kept = events := by
  induction events generalizing index t kept with
  | nil =>
    simp only [materializeEvents,Except.ok.injEq,Prod.mk.injEq] at written
    exact written.2.symm
  | cons event events ih =>
    simp only [materializeEvents,bind_ok,Except.ok.injEq,Prod.exists] at written
    obtain ⟨_,_,_,_,_,_,_,_,_,rest,more,same⟩ := written
    simp only [Prod.mk.injEq] at same
    obtain ⟨rfl,rfl⟩ := same
    rw [ih more]
    rfl

theorem materialize_retained
    (written : t.materializePublicationContent pk c id sessionID ordinal unit true = .ok (t',unit')) :
    unit' = unit := by
  unfold materializePublicationContent at written
  simp only [bind_ok,Prod.exists,Except.ok.injEq,Prod.mk.injEq] at written
  obtain ⟨_,_,first,_,_,_,rfl⟩ := written
  rw [materializeEvents_retained first]

/-! What is inherited -/

/-- A record that a source has in its base: of a unit of its head, or of the legacy tables. -/
inductive Based (pk : Packages) (t : Tables) (sessionID : String) (source : SourceRow) : Inherited → Prop
  | legacyEvent {id : String} {event : EventRecord} (headless : source.currentHead = none)
      (known : t.events.lookup id = some event) (session : event.sessionID = sessionID) :
      Based pk t sessionID source (.event event)
  | legacyUsage {key : String} {usage : UsageRecord} (headless : source.currentHead = none)
      (known : t.usage.lookup key = some usage) (session : usage.sessionID = sessionID) :
      Based pk t sessionID source (.usage usage)
  | event {head id : String} {ordinal : Nat} {part : PartRow} {unit : WriteBatch} {event : EventRecord}
      (current : source.currentHead = some head) (named : pk.uuid head = some id)
      (place : t.parts.lookup (id,ordinal) = some part) (fixed : fixedUnit part.payload = some unit)
      (member : event ∈ unit.events) : Based pk t sessionID source (.event event)
  | usage {head id : String} {ordinal : Nat} {part : PartRow} {unit : WriteBatch} {usage : UsageRecord}
      (current : source.currentHead = some head) (named : pk.uuid head = some id)
      (place : t.parts.lookup (id,ordinal) = some part) (fixed : fixedUnit part.payload = some unit)
      (member : usage ∈ unit.usage) : Based pk t sessionID source (.usage usage)

def Cached (t : Tables) (head : String) (b : Baseline) : Prop :=
  ∀ ordinal unit, b.units.lookup ordinal = some unit →
    ∃ part, t.parts.lookup (head,ordinal) = some part ∧ fixedUnit part.payload = some unit

theorem baselineUnit_ok {read : Reading WriteBatch}
    (cached : t.Cached head b) (ran : t.baselineUnit limits head b ordinal = .ok (b',read)) :
    t.Cached head b' ∧ ∀ unit, read = .value unit →
      ∃ part, t.parts.lookup (head,ordinal) = some part ∧ fixedUnit part.payload = some unit := by
  unfold baselineUnit at ran
  split at ran
  next unit known =>
    simp only [Except.ok.injEq,Prod.mk.injEq] at ran
    obtain ⟨rfl,rfl⟩ := ran
    refine ⟨cached,fun unit' same => ?_⟩
    cases same
    exact cached ordinal unit known
  next =>
    simp only [bind_ok,present_ok,failWhen_ok] at ran
    obtain ⟨_,_,_,_,ran⟩ := ran
    split at ran
    next =>
      simp only [Except.ok.injEq,Prod.mk.injEq] at ran
      obtain ⟨rfl,rfl⟩ := ran
      exact ⟨cached,fun unit same => by cases same⟩
    next =>
      simp only [bind_ok,Except.ok.injEq,Prod.mk.injEq] at ran
      obtain ⟨unit,fixed,rfl,rfl⟩ := ran
      have stored := fixedPublicationPart_ok fixed
      refine ⟨fun ordinal' unit' known => ?_,fun unit' same => ?_⟩
      · rw [List.lookup_cons] at known
        split at known
        next here =>
          cases known
          rw [beq_iff_eq] at here
          exact here ▸ stored
        next => exact cached ordinal' unit' known
      · cases same
        exact stored

theorem baselineMember_ok {α : Type} {operation : String} {kind : MemberKind}
    {records : WriteBatch → List α} {read : Reading (Option (α × String))} (cached : t.Cached head b)
    (ran : t.baselineMember limits b head kind records operation threadID after = .ok (b',read)) :
    t.Cached head b' ∧ ∀ record next, read = .value (some (record,next)) → ∃ ordinal part unit,
      t.parts.lookup (head,ordinal) = some part ∧ fixedUnit part.payload = some unit ∧ record ∈ records unit := by
  unfold baselineMember at ran
  split at ran
  next =>
    simp only [Except.ok.injEq,Prod.mk.injEq] at ran
    obtain ⟨rfl,rfl⟩ := ran
    exact ⟨cached,fun record next same => by cases same⟩
  next member _ =>
    simp only [bind_ok,Prod.exists] at ran
    obtain ⟨b₁,unit,reading,ran⟩ := ran
    obtain ⟨cached',stored⟩ := baselineUnit_ok cached reading
    split at ran
    next =>
      simp only [Except.ok.injEq,Prod.mk.injEq] at ran
      obtain ⟨rfl,rfl⟩ := ran
      exact ⟨cached',fun record next same => by cases same⟩
    next unit =>
      simp only [bind_ok,present_ok,Except.ok.injEq,Prod.mk.injEq] at ran
      obtain ⟨record,place,rfl,rfl⟩ := ran
      refine ⟨cached',fun record' next same => ?_⟩
      cases same
      obtain ⟨part,place',fixed⟩ := stored unit rfl
      exact ⟨_,part,unit,place',fixed,List.mem_of_getElem? place⟩

theorem baselineThreadEvent_ok {event : EventRecord}
    (found : t.baselineThreadEvent sessionID threadID after = some event) :
    ∃ id, t.events.lookup id = some event ∧ event.sessionID = sessionID := by
  unfold baselineThreadEvent at found
  have member := List.mem_of_head? found
  rw [List.mem_insertionSort,List.mem_map] at member
  obtain ⟨row,chosen,rfl⟩ := member
  rw [List.mem_filter] at chosen
  simp only [Bool.and_eq_true,decide_eq_true_eq] at chosen
  exact ⟨row.1,(Table.mem_rows t.events _ _).mp chosen.1,chosen.2.1.1⟩

theorem baselineThreadUsage_ok {usage : UsageRecord}
    (found : t.baselineThreadUsage sessionID threadID after = some usage) :
    ∃ key, t.usage.lookup key = some usage ∧ usage.sessionID = sessionID := by
  unfold baselineThreadUsage at found
  have member := List.mem_of_head? found
  rw [List.mem_insertionSort,List.mem_map] at member
  obtain ⟨row,chosen,rfl⟩ := member
  rw [List.mem_filter] at chosen
  simp only [Bool.and_eq_true,decide_eq_true_eq] at chosen
  exact ⟨row.1,(Table.mem_rows t.usage _ _).mp chosen.1,chosen.2.1.1⟩

def Kept (pk : Packages) (t : Tables) (source : SourceRow) (b : Baseline) : Prop :=
  ∀ head id, source.currentHead = some head → pk.uuid head = some id → t.Cached id b

theorem Kept.of_cached (current : source.currentHead = some head)
    (named : pk.uuid head = some id) (cached : t.Cached id b) : t.Kept pk source b := by
  intro head' id' current' named'
  cases current.symm.trans current'
  cases named.symm.trans named'
  exact cached

theorem baselineEvent_ok {read : Reading (Option (EventRecord × String))} (kept : t.Kept pk source b)
    (ran : t.baselineEvent limits pk sessionID source b threadID after = .ok (b',read)) :
    t.Kept pk source b' ∧
      ∀ event next, read = .value (some (event,next)) → Based pk t sessionID source (.event event) := by
  unfold baselineEvent at ran
  split at ran
  next headless =>
    simp only [Except.ok.injEq,Prod.mk.injEq] at ran
    obtain ⟨rfl,rfl⟩ := ran
    refine ⟨kept,fun event next same => ?_⟩
    simp only [Reading.value.injEq,Option.map_eq_some_iff,Prod.mk.injEq] at same
    obtain ⟨event',found,rfl,_⟩ := same
    obtain ⟨id,known,session⟩ := baselineThreadEvent_ok found
    exact .legacyEvent headless known session
  next head current =>
    simp only [bind_ok,publicationID,present_ok] at ran
    obtain ⟨id,named,ran⟩ := ran
    obtain ⟨cached,found⟩ := baselineMember_ok (kept head id current named) ran
    refine ⟨.of_cached current named cached,fun event next same => ?_⟩
    obtain ⟨ordinal,part,unit,place,fixed,member⟩ := found event next same
    exact .event current named place fixed member

theorem baselineUsage_ok {read : Reading (Option (UsageRecord × String))} (kept : t.Kept pk source b)
    (ran : t.baselineUsage limits pk sessionID source b threadID after = .ok (b',read)) :
    t.Kept pk source b' ∧
      ∀ usage next, read = .value (some (usage,next)) → Based pk t sessionID source (.usage usage) := by
  unfold baselineUsage at ran
  split at ran
  next headless =>
    simp only [Except.ok.injEq,Prod.mk.injEq] at ran
    obtain ⟨rfl,rfl⟩ := ran
    refine ⟨kept,fun usage next same => ?_⟩
    simp only [Reading.value.injEq,Option.map_eq_some_iff,Prod.mk.injEq] at same
    obtain ⟨usage',found,rfl,_⟩ := same
    obtain ⟨key,known,session⟩ := baselineThreadUsage_ok found
    exact .legacyUsage headless known session
  next head current =>
    simp only [bind_ok,publicationID,present_ok] at ran
    obtain ⟨id,named,ran⟩ := ran
    obtain ⟨cached,found⟩ := baselineMember_ok (kept head id current named) ran
    refine ⟨.of_cached current named cached,fun usage next same => ?_⟩
    obtain ⟨ordinal,part,unit,place,fixed,member⟩ := found usage next same
    exact .usage current named place fixed member

theorem readInherited_ok {cursor : RetentionCursor}
    {read : Reading (Option (Inherited × String))} (kept : t.Kept pk source b)
    (ran : t.readInherited limits pk sessionID source b cursor threadID = .ok (b',read)) :
    t.Kept pk source b' ∧ ∀ record next, read = .value (some (record,next)) → Based pk t sessionID source record := by
  have found {α : Type} {wrap : α → Inherited} {found : Option (α × String)}
      (based : ∀ record next, found = some (record,next) → Based pk t sessionID source (wrap record))
      (record : Inherited) (next : String)
      (same : Reading.value (found.map fun pair => (wrap pair.1,pair.2)) = .value (some (record,next))) :
      Based pk t sessionID source record := by
    simp only [Reading.value.injEq,Option.map_eq_some_iff,Prod.mk.injEq,Prod.exists] at same
    obtain ⟨record',next',rfl,rfl,rfl⟩ := same
    exact based record' next' rfl
  unfold readInherited at ran
  split at ran
  next =>
    simp only [bind_ok,Prod.exists] at ran
    obtain ⟨b₁,reading,ran,same⟩ := ran
    obtain ⟨kept',based⟩ := baselineUsage_ok kept ran
    split at same
    next =>
      simp only [Except.ok.injEq,Prod.mk.injEq] at same
      obtain ⟨rfl,rfl⟩ := same
      exact ⟨kept',fun record next same => by cases same⟩
    next =>
      simp only [Except.ok.injEq,Prod.mk.injEq] at same
      obtain ⟨rfl,rfl⟩ := same
      exact ⟨kept',found fun usage next same => based usage next (congrArg _ same)⟩
  next =>
    simp only [bind_ok,Prod.exists] at ran
    obtain ⟨b₁,reading,ran,same⟩ := ran
    obtain ⟨kept',based⟩ := baselineEvent_ok kept ran
    split at same
    next =>
      simp only [Except.ok.injEq,Prod.mk.injEq] at same
      obtain ⟨rfl,rfl⟩ := same
      exact ⟨kept',fun record next same => by cases same⟩
    next =>
      simp only [Except.ok.injEq,Prod.mk.injEq] at same
      obtain ⟨rfl,rfl⟩ := same
      exact ⟨kept',found fun event next same => based event next (congrArg _ same)⟩

/-- A unit that grew by records of the base. -/
structure Inherits (pk : Packages) (t : Tables) (sessionID : String) (source : SourceRow) (unit unit' : WriteBatch) :
    Prop where
  session : unit'.session = unit.session
  threads : unit'.threads = unit.threads
  events : ∀ event ∈ unit'.events, event ∈ unit.events ∨ Based pk t sessionID source (.event event)
  usage : ∀ usage ∈ unit'.usage, usage ∈ unit.usage ∨ Based pk t sessionID source (.usage usage)

theorem Inherits.refl (unit : WriteBatch) :
    t.Inherits pk sessionID source unit unit := ⟨rfl,rfl,fun _ => .inl,fun _ => .inl⟩

theorem Inherits.append {record : Inherited} (based : Based pk t sessionID source record)
    (inherits : t.Inherits pk sessionID source (record.append unit) unit') :
    t.Inherits pk sessionID source unit unit' := by
  cases record with
  | event event =>
    refine ⟨inherits.session,inherits.threads,fun event' member => ?_,inherits.usage⟩
    rcases inherits.events event' member with member | based'
    · rcases List.mem_append.mp member with member | member
      · exact .inl member
      · rw [List.mem_singleton.mp member]
        exact .inr based
    · exact .inr based'
  | usage usage =>
    refine ⟨inherits.session,inherits.threads,inherits.events,fun usage' member => ?_⟩
    rcases inherits.usage usage' member with member | based'
    · rcases List.mem_append.mp member with member | member
      · exact .inl member
      · rw [List.mem_singleton.mp member]
        exact .inr based
    · exact .inr based'

theorem retainedPage_ok {threads : List ThreadRecord} {n : Nat}
    {cursor cursor' : RetentionCursor} (kept : t.Kept pk source b)
    (ran : t.retainedPage limits pk sessionID source threads n b cursor unit = .ok (cursor',unit')) :
    t.Inherits pk sessionID source unit unit' := by
  induction left : rounds threads.length n cursor using Nat.strong_induction_on generalizing n b cursor unit with
  | h left' ih =>
    unfold retainedPage at ran
    split at ran
    next more =>
      simp only [bind_ok,Prod.exists] at ran
      obtain ⟨b₁,reading,read,ran⟩ := ran
      obtain ⟨kept',based⟩ := readInherited_ok kept read
      split at ran
      next =>
        simp only [Except.ok.injEq,Prod.mk.injEq] at ran
        obtain ⟨_,rfl⟩ := ran
        exact .refl unit
      next =>
        refine ih _ ?_ kept' ran rfl
        subst left
        unfold rounds RetentionCursor.next
        split
        next => simp; omega
        next => simp
      next record position =>
        simp only [bind_ok] at ran
        obtain ⟨_,_,_,_,ran⟩ := ran
        split at ran
        next =>
          simp only [bind_ok,Except.ok.injEq,Prod.mk.injEq] at ran
          obtain ⟨_,_,_,rfl⟩ := ran
          exact .refl unit
        next =>
          refine .append (based record position rfl) (ih _ ?_ kept' ran rfl)
          subst left
          unfold rounds
          simp only
          omega
    next =>
      simp only [Except.ok.injEq,Prod.mk.injEq] at ran
      obtain ⟨_,rfl⟩ := ran
      exact .refl unit

end Tables
end ATape.Publication
