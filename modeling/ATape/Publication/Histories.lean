import ATape.Publication.Batches
import ATape.Publication.Versions

/-! Histories of the store: the calls of all writers, the legacy batches and the deletions, in
any order. The versions of the records are bound for good, a published session is beyond the
reach of the legacy batches, and a candidate of an adopted session is above all they wrote. -/
namespace ATape.Publication
open Authorization Canonical Foundation Go SourceIdentity
variable {now : Int}
namespace Tables
variable {limits : Limits} {pk : Packages} {c : Context} {p : Principal} {t t' : Tables} {h : Hash}
  {heads : String → List String}

/-- What a call that commits may do to the versions, the floors and the legacy rows. -/
structure Committed (pk : Packages) (t t' : Tables) : Prop where
  bindings : t'.Bindings pk
  kept : t.Recalled t'
  threads : t'.threads = t.threads
  events : t'.events = t.events
  usage : t'.usage = t.usage
  sessions : ∀ name, t.sources.lookup name = none → t'.sessions.lookup name = t.sessions.lookup name
  floors : ∀ name, t'.floor name = t.floor name ∨
    t.floor name = none ∧ ∃ source, Floored t name source ∧ t'.floor name = some (floorOf source)
  units : ∀ sessionID id ordinal part unit, t'.Stored sessionID id ordinal part unit →
    t.Stored sessionID id ordinal part unit ∨
      (part.derived = false → ∀ floor, t'.floor sessionID = some (some floor) → Above floor unit)

theorem reserved_run (bindings : t.Bindings pk) (named : pk.uuid c.token = some c.token) {call : Call}
    (ran : call.run limits pk t c p = .ok t') (id : String) (r : ReservationRow)
    (known : t'.reservations.lookup id = some r) : pk.uuid id = some id := by
  rcases effects_of_run ran with effects | ⟨_,_,_,_,_,_,activates⟩
  · rcases Coherent.reservations effects known with before | rfl
    · obtain ⟨r',before⟩ := Option.isSome_iff_exists.mp before
      exact bindings.reserved id r' before
    · exact named
  · rw [activates.held.reservations] at known
    exact bindings.reserved id r known

theorem Bindings.carried (bindings : t.Bindings pk) (versions : t'.versions = t.versions)
    (units : ∀ sessionID id ordinal part unit, t'.Stored sessionID id ordinal part unit →
      t.Stored sessionID id ordinal part unit) (rows : t'.RowsNamed pk.hash)
    (reserved : ∀ id r, t'.reservations.lookup id = some r → pk.uuid id = some id) : t'.Bindings pk where
  versioned := ⟨fun k row known => bindings.versioned.named k row (versions ▸ known),
    fun k row k' row' known known' =>
      bindings.versioned.identified k row k' row' (versions ▸ known) (versions ▸ known')⟩
  rows := rows
  reserved := reserved
  units sessionID id ordinal part unit stored := by
    obtain ⟨own,members⟩ := bindings.units sessionID id ordinal part unit (units _ _ _ _ _ stored)
    refine ⟨own,fun member shown => ?_⟩
    obtain ⟨named,bound⟩ := members member shown
    exact ⟨named,bound.kept fun k row known => versions ▸ known⟩

theorem RowsNamed.same (named : t.RowsNamed h) (events : t'.events = t.events) (usage : t'.usage = t.usage) :
    t'.RowsNamed h :=
  ⟨fun id event known => named.events id event (events ▸ known),
    fun key value known => named.usage key value (usage ▸ known)⟩

theorem Bindings.validates (bindings : t.Bindings pk) (validates : t.Validates pk t')
    (reserved : ∀ id r, t'.reservations.lookup id = some r → pk.uuid id = some id) : t'.Bindings pk where
  versioned := validates.versioned
  rows := bindings.rows.same validates.events validates.usage
  reserved := reserved
  units sessionID id ordinal part unit stored := by
    rcases validates.units _ _ _ _ _ stored with old | ⟨own,members,_⟩
    · obtain ⟨own,members⟩ := bindings.units _ _ _ _ _ old
      refine ⟨own,fun member shown => ?_⟩
      obtain ⟨named,bound⟩ := members member shown
      exact ⟨named,bound.kept validates.kept⟩
    · exact ⟨own,members⟩

theorem Committed.of_still (bindings : t.Bindings pk) (still : t.Still t')
    (reserved : ∀ id r, t'.reservations.lookup id = some r → pk.uuid id = some id)
    (sessions : ∀ name, t.sources.lookup name = none → t'.sessions.lookup name = t.sessions.lookup name)
    (floors : ∀ name, t'.floor name = t.floor name ∨
      t.floor name = none ∧ ∃ source, Floored t name source ∧ t'.floor name = some (floorOf source)) :
    t.Committed pk t' where
  bindings := bindings.carried still.versions still.units (bindings.rows.same still.events still.usage) reserved
  kept _ _ known := still.versions ▸ known
  threads := still.threads
  events := still.events
  usage := still.usage
  sessions := sessions
  floors := floors
  units sessionID id ordinal part unit stored := .inl (still.units sessionID id ordinal part unit stored)

theorem Committed.of_unmoved (bindings : t.Bindings pk) (still : t.Still t' ∧ t.Unmoved t')
    (reserved : ∀ id r, t'.reservations.lookup id = some r → pk.uuid id = some id) : t.Committed pk t' :=
  .of_still bindings still.1 reserved (fun _ _ => by rw [still.2.sessions]) fun name => .inl (still.2.floors name)

theorem Stored.published (wired : Wired pk t) {sessionID id : String} {ordinal : Nat} {part : PartRow}
    {unit : WriteBatch} (stored : t.Stored sessionID id ordinal part unit) :
    ∃ source, t.sources.lookup sessionID = some source := by
  obtain ⟨_,_,a,known,rfl⟩ := stored
  obtain ⟨r,s,rows,_⟩ := wired.rows known
  exact ⟨s,(attemptRows_some.mp rows).2.2⟩

theorem run_committed (bindings : t.Bindings pk) (wired : Wired pk t) (linear : t.Linear heads)
    (named : pk.uuid c.token = some c.token) {call : Call} (ran : call.run limits pk t c p = .ok t') :
    t.Committed pk t' := by
  have reserved := reserved_run bindings named ran
  cases call with
  | reserve scope | adoptLegacy scope =>
    obtain ⟨_,ran⟩ := map_fst_ok ran
    obtain ⟨still,unmoved | ⟨sessions,sessionID,source,fresh,floored,floors⟩⟩ := reserveSource_still ran
    · exact .of_unmoved bindings ⟨still,unmoved⟩ reserved
    · refine .of_still bindings still reserved (fun _ _ => by rw [sessions]) fun name => ?_
      rw [floors]
      split
      next here =>
        subst here
        refine .inr ⟨?_,source,floored,rfl⟩
        unfold floor
        rw [fresh]
        rfl
      next => exact .inl rfl
  | begin_ input =>
    obtain ⟨_,ran⟩ := map_fst_ok ran
    exact .of_unmoved bindings (begin_still wired ran) reserved
  | put attemptID ordinal digest body =>
    obtain ⟨_,ran⟩ := map_fst_ok ran
    exact .of_unmoved bindings (put_still ran) reserved
  | seal_ attemptID manifest =>
    obtain ⟨_,ran⟩ := map_fst_ok ran
    exact .of_unmoved bindings (seal_still ran) reserved
  | status attemptID after limit =>
    obtain ⟨_,ran⟩ := map_fst_ok ran
    cases status_same ran
    exact .of_unmoved bindings ⟨.refl _,.refl _⟩ reserved
  | validate attemptID =>
    obtain ⟨_,ran⟩ := map_fst_ok ran
    have validates := validate_validates bindings wired linear ran
    have floors (name : String) : t'.floor name = t.floor name := by
      unfold floor
      rw [validates.sources]
    refine ⟨bindings.validates validates reserved,validates.kept,validates.threads,validates.events,validates.usage,
      fun _ _ => by rw [validates.sessions],fun name => .inl (floors name),
      fun sessionID id ordinal part unit stored => ?_⟩
    rcases validates.units _ _ _ _ _ stored with old | ⟨_,_,above⟩
    · exact .inl old
    · rw [floors]
      exact .inr above
  | renew attemptID =>
    obtain ⟨_,ran⟩ := map_fst_ok ran
    exact .of_unmoved bindings (renew_still ran) reserved
  | reject attemptID =>
    obtain ⟨_,ran⟩ := map_fst_ok ran
    exact .of_unmoved bindings (reject_still ran) reserved
  | activate attemptID =>
    obtain ⟨_,ran⟩ := map_fst_ok ran
    obtain ⟨still,floors,sessions⟩ := activate_still ran
    refine .of_still bindings still reserved (fun name unpublished => ?_) fun name => .inl (floors name)
    rcases sessions with same | ⟨sessionID,id,part,unit,stored,others⟩
    · rw [same]
    · refine others name ?_
      rintro rfl
      obtain ⟨source,known⟩ := stored.published wired
      rw [(bindings.units _ _ _ _ _ stored).1,known] at unpublished
      cases unpublished
  | reclaim limit =>
    obtain ⟨_,ran⟩ := map_fst_ok ran
    exact .of_unmoved bindings (reclaim_still ran) reserved

/-- What one act does: a call commits, a legacy batch writes the rows of its session, or
nothing changes but the state of a session and what others keep. -/
inductive Done (pk : Packages) (t t' : Tables) : Prop
  | call (committed : t.Committed pk t')
  | ingest {sessionID : String} (unpublished : t.sources.lookup sessionID = none) (apart : t.Apart t')
      (writes : Writes pk.hash sessionID t t')
  | other (apart : t.Apart t') (threads : t'.threads = t.threads) (events : t'.events = t.events)
      (usage : t'.usage = t.usage)
      (sessions : ∀ name, (t'.sessions.lookup name).map (·.record) = (t.sessions.lookup name).map (·.record))

theorem Done.refl (t : Tables) : Done pk t t := .other (.refl t) rfl rfl rfl fun _ => rfl

theorem Apart.units (apart : t.Apart t') (sessionID id : String) (ordinal : Nat) (part : PartRow) (unit : WriteBatch)
    (stored : t'.Stored sessionID id ordinal part unit) : t.Stored sessionID id ordinal part unit :=
  stored.of_parts apart.alike.parts apart.alike.attempts

theorem Bindings.apart (bindings : t.Bindings pk) (apart : t.Apart t') (rows : t'.RowsNamed pk.hash) : t'.Bindings pk :=
  bindings.carried apart.versions apart.units rows
    fun id r known => bindings.reserved id r (apart.alike.reservations ▸ known)

theorem Done.bindings (bindings : t.Bindings pk) (done : Done pk t t') : t'.Bindings pk := by
  cases done with
  | call committed => exact committed.bindings
  | ingest _ apart writes => exact bindings.apart apart writes.named
  | other apart _ events usage _ => exact bindings.apart apart (bindings.rows.same events usage)

theorem Done.kept (done : Done pk t t') : t.Recalled t' := by
  intro k row known
  cases done with
  | call committed => exact committed.kept k row known
  | ingest _ apart _ => exact apart.versions ▸ known
  | other apart _ _ _ _ => exact apart.versions ▸ known

theorem tombstone_done (sessionID : String) : Done pk t (t.tombstone sessionID) := by
  refine .other ⟨⟨rfl,rfl,rfl,rfl⟩,rfl⟩ rfl rfl rfl fun name => ?_
  unfold tombstone
  exact Table.map_lookup_modify t.sessions sessionID _ (·.record) (fun row => by split <;> rfl) name

end Tables

section
variable {limits : Limits} {pk : Packages} {m m' : Moment} {heads : String → List String}

theorem Act.done (coherent : Coherent pk m heads) (bindings : m.tables.Bindings pk) (act : Act limits pk m m') :
    Tables.Done pk m.tables m'.tables := by
  cases act with
  | @call c p call clock start finish fresh named issued tables =>
    rw [tables]
    cases ran : call.run limits pk m.tables c p with
    | ok t => exact .call (Tables.run_committed bindings coherent.wired coherent.linear named ran)
    | error failure => exact .refl _
  | @ingest c p receipt input start issued tables =>
    rw [tables]
    cases ran : m.tables.ingest pk c p receipt input with
    | ok result =>
      obtain ⟨t,result⟩ := result
      rcases Tables.ingest_writes bindings.rows ran with same | ⟨sessionID,unpublished,writes⟩
      · rw [same]
        exact .refl _
      · exact .ingest unpublished (Tables.ingest_apart ran) writes
    | error failure => exact .refl _
  | @delete sessionID start issued tables =>
    rw [tables]
    exact Tables.tombstone_done sessionID
  | aside start issued tables =>
    rw [tables]
    exact .other ⟨⟨rfl,rfl,rfl,rfl⟩,rfl⟩ rfl rfl rfl fun _ => rfl

theorem History.bindings (run : History limits pk (started now) m) : m.tables.Bindings pk := by
  induction run with
  | refl => exact .new pk
  | tail before act ih =>
    obtain ⟨heads,coherent⟩ := (History.run before).coherent
    exact (act.done coherent ih).bindings ih

theorem History.keeps {holds : Tables → Prop} (run : History limits pk (started now) m) (later : History limits pk m m')
    (step : ∀ t t', Tables.Wired pk t → Tables.Done pk t t' → holds t → holds t') (start : holds m.tables) :
    holds m'.tables := by
  induction later with
  | refl => exact start
  | tail before act ih =>
    have history := run.trans before
    obtain ⟨heads,coherent⟩ := (History.run history).coherent
    exact step _ _ coherent.wired (act.done coherent (History.bindings history)) ih

end

/-! A session that a legacy batch made, adopted and given its first candidate -/

/-- Calls of one writer, each with its time and the identifier that it generates. -/
def playCalls (limits : Limits) (pk : Packages) (m : Moment) : List (Int × String × Call) → Moment
  | [] => m
  | (now,token,call)::calls =>
    playCalls limits pk
      ⟨after m.tables (call.run limits pk m.tables (writerContext now token) writerPrincipal),now,token::m.issued⟩ calls

/-- No call goes back in time, and every identifier is new and canonical. -/
def playable (pk : Packages) (now : Int) (issued : List String) : List (Int × String × Call) → Bool
  | [] => true
  | (next,token,_)::calls => decide (now ≤ next) && decide (token ∉ issued) && decide (pk.uuid token = some token) &&
      playable pk next (token::issued) calls

theorem playCalls_history {limits : Limits} {pk : Packages} {m : Moment} {calls : List (Int × String × Call)}
    (fits : playable pk m.now m.issued calls = true) : History limits pk m (playCalls limits pk m calls) := by
  induction calls generalizing m with
  | nil => exact .refl
  | cons first calls ih =>
    obtain ⟨now,token,call⟩ := first
    simp only [playable,Bool.and_eq_true,decide_eq_true_eq] at fits
    obtain ⟨⟨⟨timely,fresh⟩,named⟩,rest⟩ := fits
    exact .head (.call forward_const timely (fun _ => le_rfl) fresh named rfl rfl) (ih rest)

theorem ingest_act {limits : Limits} {pk : Packages} (m : Moment) (c : Context) (p : Principal)
    (receipt : Option BatchReceipt) (input : Ingestion.Batch) :
    Act limits pk m ⟨after m.tables ((m.tables.ingest pk c p receipt input).map Prod.fst),m.now,m.issued⟩ :=
  .ingest le_rfl rfl rfl

def noteBatch (revision : Int) : Ingestion.Batch where
  protocolVersion := "atape.canonical.v1"
  canonicalProfileVersion := "atape.acp-centered.v1"
  batchID := "batch"
  observedAt := "2026-01-01T00:00:00Z"
  source := ⟨"codex","1","laptop"⟩
  projectID := "notes"
  session := ⟨"session",revision,"Notes","","",⟨"Agent","codex"⟩,"main","active","complete",
    "2026-01-01T00:00:00Z",false,0⟩
  threads := [⟨"root",none,revision,"Main","","complete"⟩]
  events := []
  usage := []

/-- Packages that read one body, a whole target of the session with the revision five. -/
def notePackages : Packages := {plainPackages with
  decode := fun body =>
    if body = [1,2,3] then .ok ⟨⟨"atape.publication-target.v1",0,0,1,none⟩,noteBatch 5⟩
    else .error "candidate part is not the declared Canonical envelope"}

def noteLimits : Limits := ⟨10000,10000,10000,4,2,1000,100⟩

def noteToken (n : Nat) : String := "7b1e3c1a-0000-4000-8000-00000000001"++toString n

def noteSession : String := "s_000000000000000000000000"

def zeroDigest : String := "0000000000000000000000000000000000000000000000000000000000000000"

def ingestedMoment : Moment where
  tables := after .new
    ((Tables.new.ingest notePackages (writerContext 0 "") writerPrincipal none (noteBatch 3)).map Prod.fst)
  now := 0
  issued := []

def adoptingCalls : List (Int × String × Call) :=
  [(1,noteToken 1,.adoptLegacy ⟨"notes","laptop","codex","session","origin"⟩)]

def candidateCalls : List (Int × String × Call) :=
  [(2,noteToken 2,.begin_ ⟨noteToken 1,"capture","","v1"⟩),
    (3,noteToken 3,.put (noteToken 1) 0 zeroDigest [1,2,3]),
    (4,noteToken 4,.seal_ (noteToken 1) ⟨1,3,zeroDigest⟩),
    (5,noteToken 5,.validate (noteToken 1))]

def adoptedMoment : Moment := playCalls noteLimits notePackages ingestedMoment adoptingCalls

def validatedMoment : Moment := playCalls noteLimits notePackages adoptedMoment candidateCalls

theorem ingestedHistory : History noteLimits notePackages (started 0) ingestedMoment :=
  .single (ingest_act (started 0) (writerContext 0 "") writerPrincipal none (noteBatch 3))

theorem adoptedHistory : History noteLimits notePackages ingestedMoment adoptedMoment := playCalls_history (by decide)

theorem validatedHistory : History noteLimits notePackages adoptedMoment validatedMoment :=
  playCalls_history (by decide)

/-! The versions -/

section
variable {limits : Limits} {pk : Packages} {m m' : Moment}

/-- Two moments, the later of which knows all versions of the first. -/
structure VersionsBound (pk : Packages) (t t' : Tables) : Prop where
  /-- No version is unbound, nor bound again. -/
  kept : t.Recalled t'
  /-- A record has one source key and one thread in all its versions. -/
  identified : t'.Identified
  /-- Every unit that was accepted has its versions, even when it is no longer stored. -/
  bound : ∀ sessionID id ordinal part unit, t.Stored sessionID id ordinal part unit →
    ∀ member ∈ unitMembers pk ordinal unit, t'.Bound sessionID member
  /-- Units of any two candidates that have a version of a record in common agree on it. -/
  agree : ∀ sessionID id ordinal part unit sessionID' id' ordinal' part' unit',
    t.Stored sessionID id ordinal part unit → t'.Stored sessionID' id' ordinal' part' unit' →
    ∀ member ∈ unitMembers pk ordinal unit, ∀ member' ∈ unitMembers pk ordinal' unit',
      member.versionKey = member'.versionKey →
      sessionID = sessionID' ∧ member.fingerprint = member'.fingerprint ∧
        (member.kind ≠ .thread → member.id = member'.id ∧ member.threadID = member'.threadID)

theorem versions_bound {now : Int} (run : History limits pk (started now) m) (later : History limits pk m m') :
    VersionsBound pk m.tables m'.tables := by
  have kept : m.tables.Recalled m'.tables :=
    run.keeps later (fun _ _ _ done held k row known => done.kept k row (held k row known)) fun _ _ known => known
  have bindings := run.bindings
  have bindings' := History.bindings (run.trans later)
  refine ⟨kept,bindings'.versioned.identified,fun sessionID id ordinal part unit stored member shown => ?_,?_⟩
  · exact ((bindings.units _ _ _ _ _ stored).2 member shown).2.kept kept
  · intro sessionID id ordinal part unit sessionID' id' ordinal' part' unit' stored stored' member shown member'
      shown' same
    obtain ⟨named,bound⟩ := (bindings.units _ _ _ _ _ stored).2 member shown
    obtain ⟨named',bound'⟩ := (bindings'.units _ _ _ _ _ stored').2 member' shown'
    obtain ⟨row,known,fingerprint,whole⟩ := bound.kept kept
    obtain ⟨row',known',fingerprint',whole'⟩ := bound'
    rw [same] at known
    cases known.symm.trans known'
    obtain ⟨kind,key⟩ : member.kind = member'.kind ∧ member.sourceKey = member'.sourceKey := by
      simp only [PreparedMember.versionKey,VersionKey.mk.injEq] at same
      exact ⟨same.1,same.2.1⟩
    have session : sessionID = sessionID' := by
      rw [kind,key] at named
      exact (named.unique named').1
    refine ⟨session,fingerprint.symm.trans fingerprint',fun record => ?_⟩
    have rows := (whole record).symm.trans (whole' (kind ▸ record))
    simp only [PreparedMember.versionRow,VersionRow.mk.injEq] at rows
    exact ⟨rows.2.1,rows.2.2.1⟩

end

/-- The candidate is rejected and its unit reclaimed, but its versions stay. -/
def reclaimedMoment : Moment := playCalls noteLimits notePackages validatedMoment
  [(6,noteToken 6,.reject (noteToken 1)),(7,noteToken 7,.reclaim 10)]

theorem versions_bound_note : VersionsBound notePackages validatedMoment.tables reclaimedMoment.tables :=
  versions_bound ((ingestedHistory.trans adoptedHistory).trans validatedHistory) (playCalls_history (by decide))

/-! The fence -/

namespace Tables
variable {pk : Packages} {t t' t'' : Tables} {sessionID : String}

theorem floor_isSome : (t.floor sessionID).isSome = (t.sources.lookup sessionID).isSome := by
  unfold floor
  exact Option.isSome_map

theorem floor_none : t.floor sessionID = none ↔ t.sources.lookup sessionID = none := by
  unfold floor
  exact Option.map_eq_none_iff

theorem Done.floor (done : Done pk t t') {value : Option Int} (bound : t.floor sessionID = some value) :
    t'.floor sessionID = some value := by
  cases done with
  | call committed =>
    rcases committed.floors sessionID with same | ⟨fresh,_⟩
    · rw [same]
      exact bound
    · rw [fresh] at bound
      cases bound
  | ingest _ apart _ | other apart _ _ _ _ =>
    rw [← bound]
    unfold Tables.floor
    rw [apart.alike.sources]

theorem Done.published (done : Done pk t t') (published : (t.sources.lookup sessionID).isSome) :
    (t'.sources.lookup sessionID).isSome := by
  rw [← floor_isSome,Option.isSome_iff_exists] at published
  obtain ⟨value,bound⟩ := published
  rw [← floor_isSome,done.floor bound]
  rfl

structure Frozen (sessionID : String) (t t' : Tables) : Prop where
  published : (t'.sources.lookup sessionID).isSome
  threads : ∀ id, t'.threads.lookup (sessionID,id) = t.threads.lookup (sessionID,id)
  events : Table.Keeps (fun _ row => row.sessionID = sessionID) t.events t'.events
  usage : Table.Keeps (fun _ row => row.sessionID = sessionID) t.usage t'.usage

theorem Frozen.done (frozen : Frozen sessionID t t') (done : Done pk t' t'') : Frozen sessionID t t'' := by
  obtain ⟨published,threads,events,usage⟩ := frozen
  have stays := done.published published
  cases done with
  | call committed => exact ⟨stays,by rwa [committed.threads],by rwa [committed.events],by rwa [committed.usage]⟩
  | @ingest other unpublished _ writes =>
    have differs : sessionID ≠ other := by
      rintro rfl
      rw [unpublished] at published
      cases published
    have beyond := writes.beyond
    refine ⟨stays,fun id => ?_,?_,?_⟩
    · rw [beyond.threads (sessionID,id) differs]
      exact threads id
    · exact events.trans (beyond.events.mono fun _ row same => same ▸ differs)
    · exact usage.trans (beyond.usage.mono fun _ row same => same ▸ differs)
  | other _ threads' events' usage' _ =>
    exact ⟨stays,by rwa [threads'],by rwa [events'],by rwa [usage']⟩

end Tables

section
variable {limits : Limits} {pk : Packages} {m m' : Moment}

/-- No legacy batch reaches a session that is published, not even one of another session. -/
theorem legacy_fenced {now : Int} (run : History limits pk (started now) m) (later : History limits pk m m')
    {sessionID : String} (published : (m.tables.sources.lookup sessionID).isSome) :
    Tables.Frozen sessionID m.tables m'.tables :=
  run.keeps later (fun _ _ _ done frozen => frozen.done done) ⟨published,fun _ => rfl,.refl _,.refl _⟩

end

def fencedMoment : Moment where
  tables := after adoptedMoment.tables
    ((adoptedMoment.tables.ingest notePackages (writerContext 8 "") writerPrincipal none (noteBatch 4)).map Prod.fst)
  now := adoptedMoment.now
  issued := adoptedMoment.issued

theorem legacy_fenced_note : Tables.Frozen noteSession adoptedMoment.tables fencedMoment.tables ∧
      (fencedMoment.tables.threads.lookup (noteSession,"root")).map (·.revision) = some 3 :=
  ⟨legacy_fenced (ingestedHistory.trans adoptedHistory) (.single (ingest_act _ _ _ _ _)) (by decide),by decide⟩

/-! The floor -/

inductive LegacyRecord
  | session
  | thread (id : String)
  | event (id : String)
  | usage (key : String)

namespace Tables
variable {pk : Packages} {t t' t'' : Tables} {sessionID : String} {record : LegacyRecord} {version : Int}

/-- The version by which a legacy record is ordered. That of an event is its projection. -/
def legacyVersion (t : Tables) (sessionID : String) : LegacyRecord → Option Int
  | .session => (t.sessions.lookup sessionID).map (·.record.revision)
  | .thread id => (t.threads.lookup (sessionID,id)).map (·.revision)
  | .event id => ((t.events.lookup id).filter fun row => row.sessionID = sessionID).map (·.projectionRevision)
  | .usage key => ((t.usage.lookup key).filter fun row => row.sessionID = sessionID).map (·.revision)

theorem foldl_max_le {values : List Int} {start value : Int} (member : value ≤ start ∨ value ∈ values) :
    value ≤ values.foldl max start := by
  induction values generalizing start with
  | nil =>
    rcases member with low | member
    · exact low
    · cases member
  | cons first values ih =>
    apply ih
    rcases member with low | member
    · exact .inl (Int.le_trans low (Int.le_max_left _ _))
    · rcases List.mem_cons.mp member with rfl | member
      · exact .inl (Int.le_max_right _ _)
      · exact .inr member

theorem legacyVersion_le {session : SessionRow} (known : t.sessions.lookup sessionID = some session)
    (recorded : t.legacyVersion sessionID record = some version) :
    version ≤ t.legacyRevisionFloor sessionID session := by
  unfold legacyRevisionFloor
  apply foldl_max_le
  cases record with
  | session =>
    left
    simp only [legacyVersion,known,Option.map_some,Option.some.injEq] at recorded
    rw [← recorded]
    exact Int.le_max_left _ _
  | thread id =>
    right
    obtain ⟨row,found,rfl⟩ := Option.map_eq_some_iff.mp recorded
    simp only [List.mem_append,List.mem_filterMap]
    refine .inl (.inl (.inl ⟨((sessionID,id),row),(Table.mem_rows t.threads _ _).mpr found,?_⟩))
    simp
  | event id =>
    right
    obtain ⟨row,found,rfl⟩ := Option.map_eq_some_iff.mp recorded
    obtain ⟨found,owner⟩ := Option.filter_eq_some_iff.mp found
    simp only [List.mem_append,List.mem_map,List.mem_filterMap]
    refine .inl (.inr ⟨row,⟨(id,row),(Table.mem_rows t.events _ _).mpr found,?_⟩,rfl⟩)
    simpa using owner
  | usage key =>
    right
    obtain ⟨row,found,rfl⟩ := Option.map_eq_some_iff.mp recorded
    obtain ⟨found,owner⟩ := Option.filter_eq_some_iff.mp found
    simp only [List.mem_append,List.mem_filterMap]
    refine .inr ⟨(key,row),(Table.mem_rows t.usage _ _).mpr found,?_⟩
    simpa using owner

theorem legacyVersion_of_rises (rises : t.Rises t') (recorded : t.legacyVersion sessionID record = some version) :
    ∃ later, t'.legacyVersion sessionID record = some later ∧ version ≤ later := by
  cases record with
  | session =>
    obtain ⟨row,known,rfl⟩ := Option.map_eq_some_iff.mp recorded
    obtain ⟨row',known',up⟩ := rises.sessions _ row known
    exact ⟨_,by simp only [legacyVersion,known',Option.map_some],up⟩
  | thread id =>
    obtain ⟨row,known,rfl⟩ := Option.map_eq_some_iff.mp recorded
    obtain ⟨row',known',up⟩ := rises.threads _ row known
    exact ⟨_,by simp only [legacyVersion,known',Option.map_some],up⟩
  | event id =>
    obtain ⟨row,found,rfl⟩ := Option.map_eq_some_iff.mp recorded
    obtain ⟨known,owner⟩ := Option.filter_eq_some_iff.mp found
    obtain ⟨row',known',same,up⟩ := rises.events _ row known
    simp only [decide_eq_true_eq] at owner
    exact ⟨_,by simp only [legacyVersion,known',Option.filter_some,same,owner,decide_true,if_true,Option.map_some],up⟩
  | usage key =>
    obtain ⟨row,found,rfl⟩ := Option.map_eq_some_iff.mp recorded
    obtain ⟨known,owner⟩ := Option.filter_eq_some_iff.mp found
    obtain ⟨row',known',same,up⟩ := rises.usage _ row known
    simp only [decide_eq_true_eq] at owner
    exact ⟨_,by simp only [legacyVersion,known',Option.filter_some,same,owner,decide_true,if_true,Option.map_some],up⟩

theorem legacyVersion_same
    (sessions : (t'.sessions.lookup sessionID).map (·.record) = (t.sessions.lookup sessionID).map (·.record))
    (threads : t'.threads = t.threads) (events : t'.events = t.events) (usage : t'.usage = t.usage) :
    t'.legacyVersion sessionID record = t.legacyVersion sessionID record := by
  cases record with
  | session =>
    have same := congrArg (Option.map fun row : SessionRecord => row.revision) sessions
    simpa [legacyVersion,Option.map_map,Function.comp_def] using same
  | thread id => simp only [legacyVersion,threads]
  | event id => simp only [legacyVersion,events]
  | usage key => simp only [legacyVersion,usage]

/-- A version that the legacy tables had is still reached there, or below the floor of the
source that adopted the session. -/
def Covered (sessionID : String) (record : LegacyRecord) (version : Int) (t : Tables) : Prop :=
  (t.sources.lookup sessionID = none ∧ ∃ later, t.legacyVersion sessionID record = some later ∧ version ≤ later) ∨
    (t.sources.lookup sessionID).isSome ∧ ∀ floor, t.floor sessionID = some (some floor) → version ≤ floor

theorem Covered.done (covered : Covered sessionID record version t) (done : Done pk t t') :
    Covered sessionID record version t' := by
  rcases covered with ⟨unpublished,later,recorded,less⟩ | ⟨published,above⟩
  · cases done with
    | call committed =>
      rcases committed.floors sessionID with same | ⟨_,source,floored,adopted⟩
      · refine .inl ⟨?_,later,?_,less⟩
        · rw [← floor_none,same,floor_none]
          exact unpublished
        · rw [legacyVersion_same (by rw [committed.sessions sessionID unpublished]) committed.threads committed.events
            committed.usage]
          exact recorded
      · refine .inr ⟨by rw [← floor_isSome,adopted]; rfl,fun floor taken => ?_⟩
        rw [adopted,Option.some.injEq] at taken
        unfold floorOf at taken
        split at taken
        next adopts =>
          obtain ⟨session,known,highest⟩ := floored adopts
          cases taken
          rw [highest]
          exact Int.le_trans less (legacyVersion_le known recorded)
        next => cases taken
    | ingest _ apart writes =>
      obtain ⟨last,recorded',up⟩ := legacyVersion_of_rises writes.rises recorded
      exact .inl ⟨by rw [apart.alike.sources]; exact unpublished,last,recorded',Int.le_trans less up⟩
    | other apart threads events usage sessions =>
      refine .inl ⟨by rw [apart.alike.sources]; exact unpublished,later,?_,less⟩
      rw [legacyVersion_same (sessions sessionID) threads events usage]
      exact recorded
  · refine .inr ⟨done.published published,fun floor adopted => ?_⟩
    rw [← floor_isSome,Option.isSome_iff_exists] at published
    obtain ⟨value,bound⟩ := published
    cases (done.floor bound).symm.trans adopted
    exact above floor bound

/-- The parts that were put have only versions above the floor of their source. -/
def Capped (t : Tables) : Prop :=
  ∀ sessionID id ordinal part unit, t.Stored sessionID id ordinal part unit → part.derived = false →
    ∀ floor, t.floor sessionID = some (some floor) → Above floor unit

theorem Capped.done (wired : Wired pk t) (capped : t.Capped) (done : Done pk t t') : t'.Capped := by
  intro sessionID id ordinal part unit stored input floor adopted
  have before (old : t.Stored sessionID id ordinal part unit) : Above floor unit := by
    obtain ⟨source,known⟩ := old.published wired
    have bound : t.floor sessionID = some (floorOf source) := by
      unfold Tables.floor
      rw [known]
      rfl
    have same := (done.floor bound).symm.trans adopted
    exact capped _ _ _ _ _ old input floor (bound.trans same)
  cases done with
  | call committed =>
    rcases committed.units _ _ _ _ _ stored with old | above
    · exact before old
    · exact above input floor adopted
  | ingest _ apart _ | other apart _ _ _ _ => exact before (apart.units _ _ _ _ _ stored)

end Tables

theorem History.floor {limits : Limits} {pk : Packages} {m m' : Moment}
    (run : History limits pk (started now) m) (later : History limits pk m m') {sessionID : String} {value : Option Int}
    (bound : m.tables.floor sessionID = some value) : m'.tables.floor sessionID = some value := by
  have kept : (fun t : Tables => t.floor sessionID = some value) m'.tables :=
    run.keeps later (fun _ _ _ done bound => done.floor bound) bound
  exact kept

/-- When a session is adopted, all versions that its legacy records ever had are at most the
floor, the parts that are put for it, by whichever candidate, are above the floor, and the
floor stays. -/
theorem adopted_above {limits : Limits} {pk : Packages} {now : Int} {m m' : Moment}
    (run : History limits pk (started now) m) (later : History limits pk m m') {sessionID : String} {floor : Int}
    (unpublished : m.tables.sources.lookup sessionID = none) (adopted : m'.tables.floor sessionID = some (some floor)) :
    (∀ record version, m.tables.legacyVersion sessionID record = some version → version ≤ floor) ∧
      ∀ m'', History limits pk m' m'' → m''.tables.floor sessionID = some (some floor) ∧
        ∀ id ordinal part unit, m''.tables.Stored sessionID id ordinal part unit → part.derived = false →
          Above floor unit := by
  constructor
  · intro record version recorded
    have covered : Tables.Covered sessionID record version m'.tables :=
      run.keeps later (fun _ _ _ done covered => covered.done done)
        (.inl ⟨unpublished,version,recorded,Int.le_refl version⟩)
    obtain ⟨absent,_⟩ | ⟨_,below⟩ := covered
    · rw [Tables.floor_none.mpr absent] at adopted
      cases adopted
    · exact below floor adopted
  · intro m'' last
    have stays := History.floor (run.trans later) last adopted
    refine ⟨stays,fun id ordinal part unit stored input => ?_⟩
    have start : (started now).tables.Capped := by
      intro sessionID id ordinal part unit stored
      obtain ⟨place,_⟩ := stored
      simp [started,Tables.new] at place
    have capped : m''.tables.Capped :=
      History.keeps .refl ((run.trans later).trans last) (fun _ _ wired done capped => capped.done wired done) start
    exact capped _ _ _ _ _ stored input floor stays

theorem adopted_above_note :
    ((∀ record version, ingestedMoment.tables.legacyVersion noteSession record = some version → version ≤ 3) ∧
      ∀ m'', History noteLimits notePackages adoptedMoment m'' → m''.tables.floor noteSession = some (some 3) ∧
        ∀ id ordinal part unit, m''.tables.Stored noteSession id ordinal part unit → part.derived = false →
          Above 3 unit) ∧
      History noteLimits notePackages adoptedMoment validatedMoment ∧
      ingestedMoment.tables.legacyVersion noteSession (.thread "root") = some 3 :=
  ⟨adopted_above ingestedHistory adoptedHistory (by decide) (by decide),validatedHistory,by decide⟩

end ATape.Publication
