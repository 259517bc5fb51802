import ATape.Publication.Bindings

/-! The versions that the units of all candidates have, over the histories of a store. -/
namespace ATape.Publication
open Authorization Canonical Foundation Go SourceIdentity
variable {unit : WriteBatch} {source : SourceRow} {sessionID id : String} {row : AttemptRow} {attempt : Attempt}

/-- Every version of a unit exceeds a floor. -/
structure Above (floor : Int) (unit : WriteBatch) : Prop where
  session : floor < unit.session.revision
  threads : ∀ thread ∈ unit.threads, floor < thread.revision
  events : ∀ event ∈ unit.events, floor < event.revision ∧ floor < event.projectionRevision
  usage : ∀ usage ∈ unit.usage, floor < usage.revision

theorem prepared_ok {result : Except Ingestion.Rejection WriteBatch}
    (made : prepared result = .ok unit) : result = .ok unit := by
  cases result with
  | ok unit' =>
    cases made
    rfl
  | error rejection => cases rejection <;> cases made

theorem checkFloor_ok {u : Unit} (checked : checkFloor source unit = .ok u)
    {floor : Int} (adopted : Tables.floorOf source = some floor) : Above floor unit := by
  unfold Tables.floorOf at adopted
  split at adopted
  next adopted' =>
    cases adopted
    unfold checkFloor at checked
    simp only [bind_ok,failWhen_ok,adopted',Bool.true_and,decide_eq_true_eq,not_le,List.any_eq_true,Bool.or_eq_true,
      not_exists,not_and,not_or] at checked
    obtain ⟨_,session,_,threads,_,events,usage⟩ := checked
    exact ⟨session,threads,events,usage⟩
  next => cases adopted

theorem preparePublicationPart_ok {pk : Packages} {p : Principal}
    {body : Bytes} {maxParts : Nat} {input : CanonicalPart}
    (made : preparePublicationPart pk p sessionID source body maxParts = .ok (input,unit)) :
    UnitNamed pk.hash unit ∧ unit.session.id = sessionID ∧
      ∀ floor, Tables.floorOf source = some floor → Above floor unit := by
  unfold preparePublicationPart at made
  simp only [bind_ok,failWhen_ok,Bool.or_eq_true,decide_eq_true_eq,not_or,ne_eq,not_not,Except.ok.injEq,
    Prod.mk.injEq] at made
  obtain ⟨_,_,_,_,_,_,_,_,unit',batch,_,same,_,floor,rfl,rfl⟩ := made
  have named := unitNamed_of_prepared (prepared_ok batch)
  have sorted {thread : ThreadRecord} :
      thread ∈ unit'.threads.insertionSort (fun a b => a.id ≤ b.id) ↔ thread ∈ unit'.threads := List.mem_insertionSort _
  refine ⟨⟨named.session,fun thread member => named.threads thread (sorted.mp member),named.events,named.usage⟩,
    same.1.1,fun value adopted => ?_⟩
  have above := checkFloor_ok floor adopted
  exact ⟨above.session,fun thread member => above.threads thread (sorted.mp member),above.events,above.usage⟩

namespace Tables
variable {limits : Limits} {pk : Packages} {c : Context} {p : Principal} {t t' : Tables} {heads : String → List String}

/-- The versions of the units, and the names of the rows that a candidate may inherit. -/
structure Bindings (pk : Packages) (t : Tables) : Prop where
  versioned : t.Versioned pk.hash
  rows : t.RowsNamed pk.hash
  reserved : ∀ id r, t.reservations.lookup id = some r → pk.uuid id = some id
  units : ∀ sessionID id ordinal part unit, t.Stored sessionID id ordinal part unit →
    unit.session.id = sessionID ∧ ∀ member ∈ unitMembers pk ordinal unit,
      Named pk.hash sessionID member.kind member.id member.sourceKey ∧ t.Bound sessionID member

theorem Bindings.new (pk : Packages) : Bindings pk new where
  versioned := ⟨fun k row known => by simp [Tables.new] at known,
    fun k row k' row' known => by simp [Tables.new] at known⟩
  rows := ⟨fun id event known => by simp [Tables.new] at known,fun key usage known => by simp [Tables.new] at known⟩
  reserved id r known := by simp [Tables.new] at known
  units sessionID id ordinal part unit stored := by
    obtain ⟨place,_⟩ := stored
    simp [Tables.new] at place

/-- What `Validate` does: it may bind versions and store a unit, whose versions it bound. -/
structure Validates (pk : Packages) (t t' : Tables) : Prop where
  versioned : t'.Versioned pk.hash
  kept : t.Recalled t'
  sources : t'.sources = t.sources
  sessions : t'.sessions = t.sessions
  threads : t'.threads = t.threads
  events : t'.events = t.events
  usage : t'.usage = t.usage
  units : ∀ sessionID id ordinal part unit, t'.Stored sessionID id ordinal part unit →
    t.Stored sessionID id ordinal part unit ∨ unit.session.id = sessionID ∧
      (∀ member ∈ unitMembers pk ordinal unit,
        Named pk.hash sessionID member.kind member.id member.sourceKey ∧ t'.Bound sessionID member) ∧
      (part.derived = false → ∀ floor, t.floor sessionID = some (some floor) → Above floor unit)

theorem Validates.refl (versioned : t.Versioned pk.hash) : t.Validates pk t :=
  ⟨versioned,fun _ _ known => known,rfl,rfl,rfl,rfl,rfl,fun _ _ _ _ _ stored => .inl stored⟩

theorem Validates.of_still (versioned : t.Versioned pk.hash) (still : t.Still t') (sources : t'.sources = t.sources)
    (sessions : t'.sessions = t.sessions) : t.Validates pk t' := by
  refine ⟨⟨fun k row known => ?_,fun k row k' row' known known' => ?_⟩,fun _ _ known => still.versions ▸ known,
    sources,sessions,still.threads,still.events,still.usage,
    fun sessionID id ordinal part unit stored => .inl (still.units sessionID id ordinal part unit stored)⟩
  · exact versioned.named k row (still.versions ▸ known)
  · exact versioned.identified k row k' row' (still.versions ▸ known) (still.versions ▸ known')

theorem Validates.of_unit {t₁ : Tables} {ordinal : Nat}
    {f : AttemptRow → AttemptRow} {parts : Table (String × Nat) PartRow} (grows : t.Grows t₁)
    (after : t' = {t₁ with parts := parts, attempts := t₁.attempts.modify id f})
    (versioned : t₁.Versioned pk.hash) (session : ∀ a, (f a).sessionID = a.sessionID)
    (known : t.attempts.lookup id = some row) (owner : row.sessionID = sessionID)
    (stored : ∀ k part, parts.lookup k = some part → t.parts.lookup k = some part ∨
      k = (id,ordinal) ∧ fixedUnit part.payload = some unit ∧
        (part.derived = false → ∀ floor, t.floor sessionID = some (some floor) → Above floor unit))
    (bound : ∀ member ∈ unitMembers pk ordinal unit,
      Named pk.hash sessionID member.kind member.id member.sourceKey ∧ t₁.Bound sessionID member)
    (own : unit.session.id = sessionID) : t.Validates pk t' := by
  subst after
  refine ⟨⟨versioned.named,versioned.identified⟩,grows.kept,grows.alike.sources,grows.sessions,grows.threads,
    grows.events,grows.usage,fun sessionID' id' ordinal' part unit' held => ?_⟩
  obtain ⟨place,fixed,a',row',same⟩ := held
  have before : ∃ a, t.attempts.lookup id' = some a ∧ a.sessionID = sessionID' := by
    rw [Table.lookup_modify,grows.alike.attempts] at row'
    split at row'
    next =>
      obtain ⟨a,old,rfl⟩ := Option.map_eq_some_iff.mp row'
      exact ⟨a,old,(session a).symm.trans same⟩
    next => exact ⟨a',row',same⟩
  rcases stored _ part place with old | ⟨here,fixed',above⟩
  · exact .inl ⟨old,fixed,before⟩
  · right
    obtain ⟨rfl,rfl⟩ := Prod.mk.inj here
    obtain ⟨a,known',same'⟩ := before
    cases known.symm.trans known'
    cases owner.symm.trans same'
    cases fixed.symm.trans fixed'
    exact ⟨own,bound,above⟩

theorem validatePart_validates {userID : String} {s : SourceRow} {r : ReservationRow}
    {manifest : Manifest} (bindings : t.Bindings pk) (live : t.Live id row r s (c.clock 1))
    (bound : t.sources.lookup row.sessionID = some source)
    (ran : validatePart limits pk t c p userID id source row (attemptValue id row r s (c.clock 1)) manifest =
      .ok (t',attempt)) : t.Validates pk t' := by
  unfold validatePart at ran
  simp only [bind_ok,failWhen_ok,Prod.exists] at ran
  obtain ⟨body,_,input,unit,made,header,_,_,_,_,_,t₁,head,t₂,unit',content,encoded,_,_,_,_,_,_,_,_,_,_,done⟩ := ran
  simp only [Except.ok.injEq,Prod.mk.injEq] at done
  obtain ⟨rfl,_⟩ := done
  have session : (attemptValue id row r s (c.clock 1)).sessionID = row.sessionID := rfl
  rw [session] at made head content
  obtain ⟨named,owner,above⟩ := preparePublicationPart_ok made
  rw [← owner] at head
  obtain ⟨grows,versioned₁,first⟩ := recordHeader_bound bindings.versioned named head
  obtain ⟨grows',versioned₂,⟨kept,rfl,came⟩,events,usage⟩ := materialize_bound versioned₁
    (fun event member _ _ => owner ▸ (named.events event member).2)
    (fun record member => owner ▸ (named.usage record member).2) content
  have bounds : ∀ member ∈ unitMembers pk row.validatedParts {unit with events := kept},
      Named pk.hash row.sessionID member.kind member.id member.sourceKey ∧ t₂.Bound row.sessionID member := by
    refine unitMembers_all ?session ?threads events ?usage
    case session =>
      intro start
      rw [← owner]
      exact ⟨named.session,(first start).1.kept grows'.kept⟩
    case threads =>
      intro start thread member
      rw [← owner]
      exact ⟨(named.threads thread member).2,((first start).2 thread member).kept grows'.kept⟩
    case usage => exact fun record member => ⟨owner ▸ (named.usage record member).2,usage record member⟩
  refine .of_unit (grows.trans grows') rfl versioned₂ (fun _ => rfl) (attemptRows_some.mp live.rows).1 rfl
    (fun k part place => ?_) bounds owner
  have stored : (t₂.parts.modify (id,row.validatedParts) (fixedAs {unit with events := kept} (len encoded))).lookup k =
    some part := place
  rw [Table.lookup_modify,(grows.trans grows').alike.parts] at stored
  split at stored
  next here =>
    obtain ⟨part',_,rfl⟩ := Option.map_eq_some_iff.mp stored
    refine .inr ⟨here,rfl,fun _ floor adopted => ?_⟩
    simp only [Tables.floor,bound,Option.map_some,Option.some.injEq] at adopted
    have exceeds := above floor adopted
    refine ⟨exceeds.session,exceeds.threads,fun event member => ?_,exceeds.usage⟩
    obtain ⟨event',known,version⟩ := came event member
    rw [version.revision,version.projection]
    exact exceeds.events event' known
  next => exact .inl stored

def InheritedNamed (h : Hash) (sessionID : String) : Inherited → Prop
  | .event event => ∀ fingerprint, eventVersionFingerprint h event = some fingerprint →
      Named h sessionID .event event.id event.sourceKey
  | .usage usage => Named h sessionID .usage (stableID h "u_" usage.sourceKey) usage.sourceKey

theorem Based.named (bindings : t.Bindings pk) (wired : Wired pk t) (linear : t.Linear heads)
    (bound : t.sources.lookup sessionID = some source) {record : Inherited}
    (based : Based pk t sessionID source record) : InheritedNamed pk.hash sessionID record := by
  have stored {head id : String} {ordinal : Nat} {part : PartRow} {unit : WriteBatch}
      (current : source.currentHead = some head) (named : pk.uuid head = some id)
      (place : t.parts.lookup (id,ordinal) = some part) (fixed : fixedUnit part.payload = some unit) :
      t.Stored sessionID id ordinal part unit := by
    have top := linear.current sessionID source bound
    rw [current] at top
    obtain ⟨a,known,session,_⟩ := (linear.members sessionID head).mp (List.mem_of_mem_head? top.symm)
    obtain ⟨r,reserved,_⟩ := wired.attempts head a known
    cases named.symm.trans (bindings.reserved head r reserved)
    exact ⟨place,fixed,a,known,session⟩
  cases based with
  | legacyEvent headless known session =>
    intro _ _
    exact session ▸ (bindings.rows.events _ _ known).2
  | legacyUsage headless known session => exact session ▸ (bindings.rows.usage _ _ known).2
  | event current named place fixed member =>
    intro fingerprint printed
    refine ((bindings.units _ _ _ _ _ (stored current named place fixed)).2 (eventMember 0 _ fingerprint "") ?_).1
    simp only [unitMembers,List.mem_append,List.mem_filterMap,Option.map_eq_some_iff]
    exact .inl (.inr ⟨_,member,fingerprint,printed,rfl⟩)
  | usage current named place fixed member =>
    refine ((bindings.units _ _ _ _ _ (stored current named place fixed)).2 (usageMember pk 0 _) ?_).1
    simp only [unitMembers,List.mem_append,List.mem_map]
    exact .inr ⟨_,member,rfl⟩

theorem validateRetention_validates {userID : String} {s : SourceRow} {r : ReservationRow}
    {manifest : Manifest} (bindings : t.Bindings pk) (wired : Wired pk t) (linear : t.Linear heads)
    (live : t.Live id row r s (c.clock 1)) (bound : t.sources.lookup row.sessionID = some source)
    (ran : t.validateRetention limits pk c userID id source row (attemptValue id row r s (c.clock 1)) manifest =
      .ok (t',attempt)) : t.Validates pk t' := by
  unfold validateRetention at ran
  simp only [bind_ok,Prod.exists] at ran
  obtain ⟨target,_,first,opening,threads,_,cursor,unit,page,t₁,bytes,stored,_,_,_,_,_,_,_,done⟩ := ran
  simp only [Except.ok.injEq,Prod.mk.injEq] at done
  obtain ⟨rfl,_⟩ := done
  have known := (attemptRows_some.mp live.rows).1
  have inherits : t.Inherits pk row.sessionID source {first with events := [], usage := []} unit :=
    retainedPage_ok (fun _ _ _ _ _ _ known => by cases known) page
  split at stored
  next =>
    unfold storeInherited at stored
    simp only [bind_ok,failWhen_ok,Prod.exists,Except.ok.injEq,Prod.mk.injEq] at stored
    obtain ⟨_,_,encoded,_,_,_,t₂,inserted,t₃,unit',content,rfl,rfl⟩ := stored
    cases materialize_retained content
    obtain ⟨part₀,place₀,fixed₀⟩ := fixedPublicationPart_ok opening
    obtain ⟨fresh,_⟩ := insertPart_held inserted
    -- the parts of the base are at other places, and the first part is one that was put
    have later : manifest.parts.toNat+row.derivedParts ≠ 0 := by
      intro start
      rw [start,place₀] at fresh
      cases fresh
    unfold insertPart at inserted
    simp only [bind_ok,failWhen_ok,Except.ok.injEq] at inserted
    obtain ⟨_,_,rfl⟩ := inserted
    have named {record : Inherited} (based : Based pk t row.sessionID source record) :
        InheritedNamed pk.hash row.sessionID record := based.named bindings wired linear bound
    have own : ∀ event ∈ unit.events, ∀ fingerprint, eventVersionFingerprint pk.hash event = some fingerprint →
        Named pk.hash row.sessionID .event event.id event.sourceKey := by
      intro event member
      rcases inherits.events event member with old | based
      · cases old
      · exact named based
    have counted : ∀ usage ∈ unit.usage,
        Named pk.hash row.sessionID .usage (stableID pk.hash "u_" usage.sourceKey) usage.sourceKey := by
      intro usage member
      rcases inherits.usage usage member with old | based
      · cases old
      · exact named based
    have versioned₂ (parts : Table (String × Nat) PartRow) : Versioned pk.hash {t with parts := parts} :=
      ⟨bindings.versioned.named,bindings.versioned.identified⟩
    obtain ⟨grows,versioned,_,events,usage⟩ := materialize_bound (versioned₂ _) own counted content
    have all : t.Grows {t₃ with parts := t.parts} :=
      ⟨⟨grows.alike.sources,grows.alike.reservations,grows.alike.attempts,rfl⟩,grows.kept,grows.sessions,grows.threads,
        grows.events,grows.usage⟩
    have bounds : ∀ member ∈ unitMembers pk (manifest.parts.toNat+row.derivedParts) unit,
        Named pk.hash row.sessionID member.kind member.id member.sourceKey ∧ t₃.Bound row.sessionID member :=
      unitMembers_all (fun start => absurd start later) (fun start => absurd start later) events
        fun record member => ⟨counted record member,usage record member⟩
    have session : unit.session.id = row.sessionID := by
      rw [inherits.session]
      exact (bindings.units _ id 0 part₀ first ⟨place₀,fixed₀,row,known,rfl⟩).1
    refine .of_unit all rfl ⟨versioned.named,versioned.identified⟩ (fun _ => rfl) known rfl
      (fun k part place => ?_) bounds session
    have parts := grows.alike.parts
    have stored : t₃.parts.lookup k = some part := place
    rw [parts,Table.lookup_insert] at stored
    split at stored
    next here =>
      cases stored
      exact .inr ⟨here,rfl,fun put => by cases put⟩
    next => exact .inl stored
  next =>
    simp only [Except.ok.injEq,Prod.mk.injEq] at stored
    obtain ⟨rfl,rfl⟩ := stored
    have still {f : AttemptRow → AttemptRow} (session : ∀ a, (f a).sessionID = a.sessionID) :
        t.Validates pk (t.modifyAttempt id f) :=
      .of_still bindings.versioned (modifyAttempt_still session).1 rfl rfl
    apply still
    intro _
    rfl

theorem validate_validates {attemptID : String} (bindings : t.Bindings pk) (wired : Wired pk t)
    (linear : t.Linear heads) (ran : t.validate limits pk c p attemptID = .ok (t',attempt)) : t.Validates pk t' := by
  unfold validate at ran
  simp only [bind_ok,Prod.exists] at ran
  obtain ⟨id,_,userID,_,r',source,read,row,a,known,_,alive,ran⟩ := ran
  obtain ⟨r,s,live,rfl,_⟩ := live_of_read known alive
  obtain ⟨held,reserved,_⟩ := attemptRows_some.mp live.rows
  obtain ⟨reserved',bound,_⟩ := reservation_ok read
  obtain ⟨r'',reserved'',session⟩ := wired.attempts id row held
  cases reserved'.symm.trans reserved''
  rw [session] at bound
  split at ran
  next =>
    simp only [Except.ok.injEq,Prod.mk.injEq] at ran
    obtain ⟨rfl,_⟩ := ran
    exact .refl bindings.versioned
  next =>
    simp only [bind_ok] at ran
    obtain ⟨_,_,_,_,ran⟩ := ran
    split at ran
    next => exact validateRetention_validates bindings wired linear live bound ran
    next => exact validatePart_validates bindings live bound ran

end Tables
end ATape.Publication
