import ATape.Publication.Effects

/-! Each call of the store is a chain of effects. -/
namespace ATape.Publication
open Authorization Canonical Foundation Go SourceIdentity
variable {userID sessionID id attemptID : String} {source s : SourceRow} {r : ReservationRow} {now after : Int}
  {attempt : Attempt} {ordinal limit index : Nat} {part : PartRow} {manifest : Manifest} {unit : WriteBatch}

theorem map_fst_ok {ε α β : Type} {run : Except ε (α × β)} {a : α} (done : run.map Prod.fst = .ok a) :
    ∃ b, run = .ok (a,b) := by
  cases run with
  | error failure => cases done
  | ok pair =>
    cases done
    exact ⟨pair.2,rfl⟩

theorem publicationUser_ok {pk : Packages} {p : Principal}
    (known : publicationUser pk p = .ok userID) : p.method = .cliAuthentication ∧ pk.uuid p.userID = some userID := by
  unfold publicationUser at known
  simp only [bind_ok,failWhen_ok,present_ok] at known
  obtain ⟨_,method,user⟩ := known
  exact ⟨not_not.mp method,user⟩

namespace Tables
variable {limits : Limits} {pk : Packages} {t t' : Tables} {c : Context} {p : Principal}

theorem sourceAccess_user {u : Unit}
    (access : t.sourceAccess c p sessionID source = .ok u) : source.capturedByUserID = p.userID := by
  unfold sourceAccess at access
  simp only [bind_ok,failWhen_ok] at access
  exact not_not.mp access.choose_spec.1

theorem reservation_ok (read : t.reservation c p id = .ok (r,source)) :
    t.reservations.lookup id = some r ∧ t.sources.lookup r.sessionID = some source ∧
      source.capturedByUserID = p.userID := by
  unfold reservation at read
  simp only [bind_ok,present_ok,Except.ok.injEq,Prod.mk.injEq] at read
  obtain ⟨r',reserved,source',bound,_,access,rfl,rfl⟩ := read
  exact ⟨reserved,bound,sourceAccess_user access⟩

theorem Live.owned {a : AttemptRow} {r' : ReservationRow}
    (live : t.Live id a r s now) (user : publicationUser pk p = .ok userID)
    (read : t.reservation c p id = .ok (r',source)) : t.Owned pk r userID := by
  obtain ⟨reserved,bound,same⟩ := reservation_ok read
  obtain ⟨_,held,_⟩ := attemptRows_some.mp live.rows
  cases held.symm.trans reserved
  exact ⟨source,bound,same ▸ (publicationUser_ok user).2⟩

/-! Reservations -/

theorem insertPublicationSource_held (inserted : t.insertPublicationSource sessionID source = .ok t') :
    t.sources.lookup sessionID = none ∧
      t'.Holds (t.sources.insert sessionID source) t.reservations t.attempts t.parts := by
  unfold insertPublicationSource at inserted
  simp only [bind_ok,failWhen_ok,Bool.or_eq_true,not_or,Bool.not_eq_true,Option.isSome_eq_false_iff,
    Option.isNone_iff_eq_none,Except.ok.injEq] at inserted
  obtain ⟨_,⟨fresh,_⟩,rfl⟩ := inserted
  exact ⟨fresh,⟨rfl,rfl,rfl,rfl⟩⟩

theorem bindSource_effects {adopt : Bool} {floor : Int}
    {threads : List Ingestion.Thread} (headless : source.currentHead = none)
    (user : ∃ value, pk.uuid value = some source.capturedByUserID)
    (bound : t.bindSource sessionID source adopt = .ok (t',floor,threads)) :
    Effects limits pk c t t' ∧ (t'.sources.lookup sessionID).isSome := by
  unfold bindSource at bound
  split at bound
  next old known =>
    simp only [bind_ok,failWhen_ok,Except.ok.injEq,Prod.mk.injEq] at bound
    obtain ⟨_,_,_,_,rfl,_⟩ := bound
    exact ⟨.refl,by rw [known]; rfl⟩
  next =>
    have inserted {source' : SourceRow} {t'' : Tables} (headless : source'.currentHead = none)
        (user : source'.capturedByUserID = source.capturedByUserID)
        (inserted : t.insertPublicationSource sessionID source' = .ok t'') :
        Effects limits pk c t t'' ∧ (t''.sources.lookup sessionID).isSome := by
      obtain ⟨fresh,held⟩ := insertPublicationSource_held inserted
      refine ⟨.single (.bound fresh headless (user ▸ ‹∃ value, pk.uuid value = some source.capturedByUserID›) held),?_⟩
      rw [held.sources]
      simp
    split at bound
    next =>
      simp only [bind_ok,Prod.exists] at bound
      obtain ⟨floor',threads',_,t'',new,same⟩ := bound
      simp only [Except.ok.injEq,Prod.mk.injEq] at same
      obtain ⟨rfl,_⟩ := same
      refine inserted ?_ ?_ new
      · exact headless
      · rfl
    next =>
      simp only [bind_ok,failWhen_ok,Except.ok.injEq,Prod.mk.injEq] at bound
      obtain ⟨_,_,t'',new,rfl,_⟩ := bound
      exact inserted headless rfl new

theorem createPublicationReservation_effects {expiresAt : Int} (known : (t.sources.lookup sessionID).isSome)
    (created : t.createPublicationReservation c.token sessionID expiresAt = .ok t') : Effects limits pk c t t' := by
  unfold createPublicationReservation at created
  simp only [bind_ok,failWhen_ok,Bool.not_eq_true,Option.isSome_eq_false_iff,Option.isNone_iff_eq_none,
    Except.ok.injEq] at created
  obtain ⟨_,fresh,rfl⟩ := created
  exact .single (.reserved fresh known ⟨rfl,rfl,rfl,rfl⟩)

theorem reserveSource_effects {scope : Scope} {adopt : Bool} {adoption : Adoption}
    (ran : t.reserveSource limits pk c p scope adopt = .ok (t',adoption)) : Effects limits pk c t t' := by
  unfold reserveSource at ran
  simp only [bind_ok,failWhen_ok,Prod.exists,newSource] at ran
  obtain ⟨_,_,userID,user,_,_,t₁,floor,threads,bound,_,_,t₂,created,same⟩ := ran
  simp only [Except.ok.injEq,Prod.mk.injEq] at same
  obtain ⟨rfl,_⟩ := same
  have source : ∃ value, pk.uuid value = some userID := ⟨_,(publicationUser_ok user).2⟩
  obtain ⟨first,known⟩ := bindSource_effects rfl source bound
  exact first.trans (createPublicationReservation_effects known created)

/-! Attempts -/

theorem begin_effects {input : Begin} (ran : t.begin_ limits pk c p input = .ok (t',attempt)) :
    Effects limits pk c t t' := by
  unfold begin_ at ran
  simp only [bind_ok,failWhen_ok,Prod.exists] at ran
  obtain ⟨id,_,_,_,_,_,r,source,read,ran⟩ := ran
  obtain ⟨reserved,bound,_⟩ := reservation_ok read
  split at ran
  next =>
    simp only [bind_ok,failWhen_ok,Except.ok.injEq,Prod.mk.injEq] at ran
    obtain ⟨_,_,rfl,_⟩ := ran
    exact .refl
  next absent =>
    have fresh : t.attemptRows id = none := by simpa [getPublicationAttempt] using absent
    unfold createAttempt at ran
    simp only [bind_ok,failWhen_ok,Prod.exists,ne_eq,not_not] at ran
    obtain ⟨_,_,_,base,_,_,_,_,_,same⟩ := ran
    simp only [Except.ok.injEq,Prod.mk.injEq] at same
    obtain ⟨rfl,_⟩ := same
    exact .single (.began reserved bound fresh ⟨rfl,rfl,by rw [base],rfl⟩)

theorem put_effects {digest : String} {ordinal : Int} {body : Bytes} {part : Part}
    (ran : t.put limits pk c p attemptID ordinal digest body = .ok (t',part)) : Effects limits pk c t t' := by
  unfold put at ran
  simp only [bind_ok,failWhen_ok,Prod.exists] at ran
  obtain ⟨id,_,_,_,_,_,userID,user,r,source,read,row,a,known,_,alive,ran⟩ := ran
  obtain ⟨r',s,live,rfl,state⟩ := live_of_read known alive
  split at ran
  next =>
    simp only [bind_ok,failWhen_ok,Except.ok.injEq,Prod.mk.injEq] at ran
    obtain ⟨_,_,rfl,_⟩ := ran
    exact .refl
  next fresh =>
    unfold storePart at ran
    simp only [bind_ok,failWhen_ok,Prod.exists,ne_eq,not_not,Bool.or_eq_true,decide_eq_true_eq,not_or,not_lt,
      insertPart,Except.ok.injEq,Prod.mk.injEq] at ran
    obtain ⟨_,⟨_,open_,_,room,_,⟨_,_,rfl⟩,_,_,_,_,_,rfl⟩,rfl,_⟩ := ran
    refine .single (.stored live (state ▸ open_) (live.owned user read) fresh rfl ?_ ?_ ⟨rfl,rfl,rfl,rfl⟩)
    · have := room.1.2
      simp only [attemptValue] at this
      simp only [Payload.storedBytes]
      omega
    · have := room.2
      simp only [Payload.storedBytes]
      omega

theorem hashParts_seen {after' : Int} {h h' : ManifestHasher} {rows : List (Nat × PartRow)}
    (hashed : hashParts after h rows = .ok (after',h')) :
    after' = after+rows.length ∧ h'.parts = h.parts+rows.length ∧
      ∀ n : Nat, after < n → (n : Int) ≤ after' → ∃ part, (n,part) ∈ rows := by
  induction rows generalizing after h with
  | nil =>
    simp only [hashParts,Except.ok.injEq,Prod.mk.injEq] at hashed
    obtain ⟨rfl,rfl⟩ := hashed
    refine ⟨by simp,by simp,fun n low high => ?_⟩
    omega
  | cons row rows ih =>
    simp only [hashParts,bind_ok,failWhen_ok,ne_eq,not_not] at hashed
    obtain ⟨_,next,rest⟩ := hashed
    obtain ⟨last,count,seen⟩ := ih rest
    refine ⟨?_,?_,fun n low high => ?_⟩
    · rw [last,next,List.length_cons]
      push_cast
      ring
    · rw [count,List.length_cons]
      simp only [ManifestHasher.add]
      push_cast
      ring
    · by_cases here : n = row.1
      · exact ⟨row.2,by rw [here]; exact List.mem_cons_self⟩
      · obtain ⟨part,member⟩ := seen n (by omega) high
        exact ⟨part,List.mem_cons_of_mem _ member⟩

theorem listPublicationParts_mem {n : Nat} (member : (n,part) ∈ t.listPublicationParts id after limit) :
    t.parts.lookup (id,n) = some part ∧ part.derived = false := by
  unfold listPublicationParts at member
  have sorted := List.mem_of_mem_take member
  rw [List.mem_insertionSort,List.mem_map] at sorted
  obtain ⟨row,chosen,same⟩ := sorted
  rw [List.mem_filter] at chosen
  obtain ⟨stored,fits⟩ := chosen
  simp only [Bool.and_eq_true,decide_eq_true_eq,Bool.not_eq_true'] at fits
  obtain ⟨⟨rfl,input⟩,_⟩ := fits
  cases same
  exact ⟨(Table.mem_rows t.parts _ _).mp stored,input⟩

theorem hashPages_seen {fuel : Nat} {h h' : ManifestHasher} (count : h.parts = after+1) (low : -1 ≤ after)
    (before : ∀ n : Nat, (n : Int) ≤ after → ∃ part, t.parts.lookup (id,n) = some part ∧ part.derived = false)
    (hashed : t.hashPages id fuel after h = .ok h') :
    ∀ n : Nat, (n : Int) < h'.parts → ∃ part, t.parts.lookup (id,n) = some part ∧ part.derived = false := by
  induction fuel generalizing after h with
  | zero =>
    cases hashed
    intro n bound
    exact before n (by omega)
  | succ fuel ih =>
    simp only [hashPages,bind_ok,Prod.exists] at hashed
    obtain ⟨after',h₁,page,rest⟩ := hashed
    obtain ⟨last,parts,seen⟩ := hashParts_seen page
    have stored : ∀ n : Nat, (n : Int) ≤ after' → ∃ part, t.parts.lookup (id,n) = some part ∧ part.derived = false := by
      intro n high
      by_cases old : (n : Int) ≤ after
      · exact before n old
      · obtain ⟨part,member⟩ := seen n (by omega) high
        exact ⟨part,listPublicationParts_mem member⟩
    split at rest
    next =>
      cases rest
      intro n bound
      exact stored n (by omega)
    next => exact ih (by omega) (by omega) stored rest

theorem seal_effects
    (ran : t.seal_ limits pk c p attemptID manifest = .ok (t',attempt)) : Effects limits pk c t t' := by
  unfold seal_ at ran
  simp only [bind_ok,failWhen_ok,Prod.exists] at ran
  obtain ⟨id,_,_,_,_,_,_,_,_,row,a,known,_,alive,ran⟩ := ran
  obtain ⟨r,s,live,rfl,_⟩ := live_of_read known alive
  split at ran
  next =>
    simp only [bind_ok,failWhen_ok,Except.ok.injEq,Prod.mk.injEq] at ran
    obtain ⟨_,_,rfl,_⟩ := ran
    exact .refl
  next unsealed =>
    unfold sealParts at ran
    simp only [bind_ok,failWhen_ok,Prod.exists,Bool.or_eq_true,decide_eq_true_eq,not_or,ne_eq,not_not] at ran
    obtain ⟨_,⟨count,_⟩,h,pages,_,same,_,_,_,_,_,done⟩ := ran
    simp only [Except.ok.injEq,Prod.mk.injEq] at done
    obtain ⟨rfl,_⟩ := done
    have parts : h.parts = manifest.parts := congrArg Manifest.parts same
    refine .single (.sealed live unsealed count ?_ ⟨rfl,rfl,rfl,rfl⟩)
    rw [← parts]
    exact hashPages_seen rfl le_rfl (fun n bound => by omega) pages

theorem status_same {page : Page} (ran : t.status pk c p attemptID after limit = .ok (t',page)) : t' = t := by
  unfold status at ran
  simp only [bind_ok,failWhen_ok,Prod.exists] at ran
  obtain ⟨_,_,_,_,_,_,_,_,_,_,_,_,same⟩ := ran
  simp only [Except.ok.injEq,Prod.mk.injEq] at same
  exact same.1.symm

theorem renew_effects (ran : t.renew limits pk c p attemptID = .ok (t',attempt)) : Effects limits pk c t t' := by
  unfold renew at ran
  simp only [bind_ok,failWhen_ok,Prod.exists,Bool.or_eq_true,decide_eq_true_eq,not_or,not_le] at ran
  obtain ⟨id,_,_,_,r,_,_,row,a,known,_,alive,_,⟨timely,_⟩,_,_,_,done⟩ := ran
  obtain ⟨r',s,live,rfl,_⟩ := live_of_read known alive
  simp only [Except.ok.injEq,Prod.mk.injEq] at done
  obtain ⟨rfl,_⟩ := done
  exact .single (.renewed live timely ⟨rfl,rfl,rfl,rfl⟩)

theorem reject_effects (ran : t.reject pk c p attemptID = .ok (t',attempt)) : Effects limits pk c t t' := by
  unfold reject at ran
  simp only [bind_ok,failWhen_ok,Prod.exists,Bool.not_eq_true,Option.isSome_eq_false_iff,Option.isNone_iff_eq_none] at ran
  obtain ⟨id,_,_,_,_,_,_,row,a,known,_,inactive,_,_,_,done⟩ := ran
  obtain ⟨r,s,rows,rfl⟩ := publicationAttempt_ok known
  simp only [Except.ok.injEq,Prod.mk.injEq] at done
  obtain ⟨rfl,_⟩ := done
  exact .single (.rejected rows inactive ⟨rfl,rfl,rfl,rfl⟩)

/-! Validation -/

theorem bindVersion_alike {member : PreparedMember} (bound : t.bindVersion sessionID member = .ok t') : t.Alike t' := by
  unfold bindVersion at bound
  split at bound
  all_goals
    simp only [bind_ok,failWhen_ok,Except.ok.injEq] at bound
    obtain ⟨_,_,rfl⟩ := bound
    exact ⟨rfl,rfl,rfl,rfl⟩

theorem recordPublicationMember_alike {member : PreparedMember}
    (recorded : t.recordPublicationMember id sessionID ordinal member = .ok t') : t.Alike t' := by
  unfold recordPublicationMember insertPublicationMember at recorded
  simp only [bind_ok,failWhen_ok,Except.ok.injEq] at recorded
  obtain ⟨_,_,_,_,_,_,t₁,bound,_,_,rfl⟩ := recorded
  exact (bindVersion_alike bound).trans ⟨rfl,rfl,rfl,rfl⟩

theorem materializeEvents_alike {retained : Bool} {events kept : List EventRecord}
    (written : materializeEvents pk c id sessionID ordinal unit retained index t events = .ok (t',kept)) :
    t.Alike t' ∧ kept.length = events.length := by
  induction events generalizing index t kept with
  | nil =>
    simp only [materializeEvents,Except.ok.injEq,Prod.mk.injEq] at written
    obtain ⟨rfl,rfl⟩ := written
    exact ⟨.refl t,rfl⟩
  | cons event events ih =>
    simp only [materializeEvents,insertPublicationProjectionChange,bind_ok,failWhen_ok,Except.ok.injEq,Prod.exists] at written
    obtain ⟨_,_,_,_,t₁,recorded,t₂,⟨_,_,rfl⟩,t₃,rest,more,same⟩ := written
    simp only [Prod.mk.injEq] at same
    obtain ⟨rfl,rfl⟩ := same
    obtain ⟨alike,length⟩ := ih more
    have change : t₁.Alike {t₁ with
        changes := t₁.changes.insert t₁.nextChange ⟨id,event.id,none,0,false⟩
        nextChange := t₁.nextChange+1} := ⟨rfl,rfl,rfl,rfl⟩
    exact ⟨((recordPublicationMember_alike recorded).trans change).trans alike,by simp [length]⟩

theorem materializeUsage_alike {usage : List UsageRecord}
    (written : materializeUsage pk id sessionID ordinal index t usage = .ok t') : t.Alike t' := by
  induction usage generalizing index t with
  | nil =>
    cases written
    exact .refl _
  | cons record usage ih =>
    simp only [materializeUsage,bind_ok] at written
    obtain ⟨t₁,recorded,more⟩ := written
    exact (recordPublicationMember_alike recorded).trans (ih more)

theorem materialize_alike {unit' : WriteBatch} {retained : Bool}
    (written : t.materializePublicationContent pk c id sessionID ordinal unit retained = .ok (t',unit')) :
    t.Alike t' := by
  unfold materializePublicationContent at written
  simp only [bind_ok,Prod.exists,Except.ok.injEq,Prod.mk.injEq] at written
  obtain ⟨t₁,events,first,t₂,second,rfl,_⟩ := written
  exact (materializeEvents_alike first).1.trans (materializeUsage_alike second)

theorem recordThreads_alike {threads : List ThreadRecord}
    (written : recordThreads id sessionID ordinal index t threads = .ok t') : t.Alike t' := by
  induction threads generalizing index t with
  | nil =>
    cases written
    exact .refl _
  | cons thread threads ih =>
    simp only [recordThreads,bind_ok] at written
    obtain ⟨_,_,t₁,recorded,more⟩ := written
    exact (recordPublicationMember_alike recorded).trans (ih more)

theorem recordHeader_alike (written : t.recordHeader id sessionID ordinal unit = .ok t') : t.Alike t' := by
  unfold recordHeader at written
  split at written
  next =>
    simp only [bind_ok] at written
    obtain ⟨t₁,recorded,more⟩ := written
    exact (recordPublicationMember_alike recorded).trans (recordThreads_alike more)
  next =>
    cases written
    exact .refl _

theorem publicationPartBody_ok {body : Bytes} (read : publicationPartBody limits pk t id ordinal = .ok body) :
    ∃ part, t.parts.lookup (id,ordinal) = some part ∧ part.payload = .body body := by
  unfold publicationPartBody at read
  simp only [bind_ok,present_ok] at read
  obtain ⟨part,place,read⟩ := read
  split at read
  next => cases read
  next bytes payload =>
    simp only [bind_ok,failWhen_ok,Except.ok.injEq] at read
    obtain ⟨_,_,_,_,rfl⟩ := read
    exact ⟨part,place,payload⟩

theorem validatePart_effects {row : AttemptRow} (live : t.Live id row r s (c.clock 1))
    (fixed : row.sealJson = some manifest) (unfinished : (row.validatedParts : Int) ≠ manifest.parts)
    (owned : t.Owned pk r userID)
    (ran : validatePart limits pk t c p userID id source row (attemptValue id row r s (c.clock 1)) manifest = .ok (t',attempt)) :
    Effects limits pk c t t' := by
  unfold validatePart at ran
  simp only [bind_ok,failWhen_ok,Prod.exists,Bool.or_eq_true,decide_eq_true_eq,not_or,not_lt] at ran
  obtain ⟨body,read,input,unit,_,header,_,_,_,_,_,t₁,head,t₂,unit',content,encoded,_,_,_,_,⟨target,pending⟩,_,_,_,_,_,
    done⟩ := ran
  simp only [Except.ok.injEq,Prod.mk.injEq] at done
  obtain ⟨same,_⟩ := done
  obtain ⟨part,place,payload⟩ := publicationPartBody_ok read
  have alike : t.Alike t₂ := (recordHeader_alike head).trans (materialize_alike content)
  have attempts : t'.attempts = t.attempts.modify id (advanced unit' ((len encoded : Int)-body.length) header input.target
      (if decide ((row.validatedParts : Int)+1 = manifest.parts) && decide (input.target.retained = []) then
        AttemptState.validated else .validating)) := by
    rw [← same,← alike.attempts]
    rfl
  have parts : t'.parts = t.parts.modify (id,row.validatedParts) (fixedAs unit' (len encoded)) := by
    rw [← same,← alike.parts]
    rfl
  have sources : t'.sources = t.sources := by rw [← same,← alike.sources]; rfl
  have reservations : t'.reservations = t.reservations := by rw [← same,← alike.reservations]; rfl
  rw [alike.pendingBytes] at pending
  simp only [attemptValue] at target
  refine .single (.validated live fixed unfinished owned place payload (by omega) (by omega) ?_
    ⟨sources,reservations,attempts,parts⟩)
  split
  next last =>
    simp only [Bool.and_eq_true,decide_eq_true_eq] at last
    exact .inr ⟨rfl,last.1⟩
  next => exact .inl rfl

theorem insertPart_held {operation : String} (inserted : t.insertPart id ordinal part operation = .ok t') :
    t.parts.lookup (id,ordinal) = none ∧
      t'.Holds t.sources t.reservations t.attempts (t.parts.insert (id,ordinal) part) := by
  unfold insertPart at inserted
  simp only [bind_ok,failWhen_ok,Bool.or_eq_true,not_or,Bool.not_eq_true,Option.isSome_eq_false_iff,
    Option.isNone_iff_eq_none,Except.ok.injEq] at inserted
  obtain ⟨_,fresh,rfl⟩ := inserted
  exact ⟨fresh.1.1.1.1,⟨rfl,rfl,rfl,rfl⟩⟩

theorem validateRetention_effects {row : AttemptRow} (live : t.Live id row r s (c.clock 1))
    (fixed : row.sealJson = some manifest) (finished : (row.validatedParts : Int) = manifest.parts)
    (owned : t.Owned pk r userID)
    (ran : t.validateRetention limits pk c userID id source row (attemptValue id row r s (c.clock 1)) manifest =
      .ok (t',attempt)) : Effects limits pk c t t' := by
  unfold validateRetention at ran
  simp only [bind_ok,Prod.exists,present_ok] at ran
  obtain ⟨target,_,first,_,threads,_,cursor,unit,_,ran⟩ := ran
  obtain ⟨t₁,bytes,stored,ran⟩ := ran
  have done : ∃ state, (state = AttemptState.validating ∨ state = .validated) ∧
      t' = t₁.advancePublicationRetention id (if decide (0 < unit.events.length+unit.usage.length) then 1 else 0) bytes
        cursor state := by
    obtain ⟨_,_,_,_,_,_,_,same⟩ := ran
    simp only [Except.ok.injEq,Prod.mk.injEq] at same
    refine ⟨_,?_,same.1.symm⟩
    split
    next => exact .inr rfl
    next => exact .inl rfl
  obtain ⟨state,next,rfl⟩ := done
  split at stored
  next filled =>
    unfold storeInherited at stored
    simp only [bind_ok,failWhen_ok,Prod.exists,Bool.or_eq_true,decide_eq_true_eq,not_or,not_lt,Except.ok.injEq,
      Prod.mk.injEq] at stored
    obtain ⟨_,_,encoded,_,_,⟨target,pending⟩,t₂,inserted,t₃,unit',content,rfl,rfl⟩ := stored
    obtain ⟨fresh,held⟩ := insertPart_held inserted
    have alike := materialize_alike content
    simp only [attemptValue] at target
    rw [if_pos filled]
    have attempts : (t₃.advancePublicationRetention id 1 (len encoded) cursor state).attempts =
        t.attempts.modify id (inherited 1 (Payload.fixed unit (len encoded)).storedBytes cursor state) := by
      rw [← held.attempts,← alike.attempts]
      rfl
    refine .single (.inherited live fixed finished owned fresh (Eq.refl true) ⟨unit,len encoded,rfl⟩ ?_ ?_ next
      ⟨alike.sources.trans held.sources,alike.reservations.trans held.reservations,attempts,
        alike.parts.trans held.parts⟩)
    · simp only [Payload.storedBytes]
      omega
    · simp only [Payload.storedBytes]
      omega
  next empty =>
    simp only [Except.ok.injEq,Prod.mk.injEq] at stored
    obtain ⟨rfl,rfl⟩ := stored
    rw [if_neg empty]
    exact .single (.kept live fixed finished next ⟨rfl,rfl,rfl,rfl⟩)

theorem validate_effects (ran : t.validate limits pk c p attemptID = .ok (t',attempt)) : Effects limits pk c t t' := by
  unfold validate at ran
  simp only [bind_ok,Prod.exists] at ran
  obtain ⟨id,_,userID,user,r',source,read,row,a,known,_,alive,ran⟩ := ran
  obtain ⟨r,s,live,rfl,_⟩ := live_of_read known alive
  split at ran
  next =>
    simp only [Except.ok.injEq,Prod.mk.injEq] at ran
    obtain ⟨rfl,_⟩ := ran
    exact .refl
  next =>
    simp only [bind_ok,failWhen_ok,present_ok] at ran
    obtain ⟨manifest,fixed,_,_,ran⟩ := ran
    split at ran
    next finished => exact validateRetention_effects live fixed finished (live.owned user read) ran
    next unfinished => exact validatePart_effects live fixed unfinished (live.owned user read) ran

/-! Activation -/

theorem publishSession_alike {session : SessionRecord}
    (written : t.publishSession sessionID session = .ok t') : t.Alike t' := by
  unfold publishSession at written
  split at written
  next =>
    simp only [bind_ok,Except.ok.injEq] at written
    obtain ⟨_,_,rfl⟩ := written
    exact ⟨rfl,rfl,rfl,rfl⟩
  next =>
    simp only [Except.ok.injEq] at written
    subst written
    exact ⟨rfl,rfl,rfl,rfl⟩

theorem activate_ok {receipt : Activation} (ran : t.activate pk c p attemptID = .ok (t',receipt)) :
    ∃ id row r s, pk.uuid attemptID = some id ∧ t.attemptRows id = some (row,r,s) ∧
      (row.activationJson = some receipt ∧ t' = t ∨
        row.activationJson = none ∧ ∃ manifest observedAt, Activates c t t' id row r s manifest observedAt) := by
  unfold activate publicationID at ran
  simp only [bind_ok,present_ok,Prod.exists] at ran
  obtain ⟨id,named,_,_,_,_,_,row,a,known,ran⟩ := ran
  obtain ⟨r,s,rows,same⟩ := publicationAttempt_ok known
  split at ran
  next known' =>
    simp only [Except.ok.injEq,Prod.mk.injEq] at ran
    obtain ⟨rfl,rfl⟩ := ran
    subst same
    exact ⟨id,row,r,s,named,rows,.inl ⟨known',rfl⟩⟩
  next inactive =>
    simp only [bind_ok,present_ok,failWhen_ok,Bool.or_eq_true,decide_eq_true_eq,not_or,ne_eq,not_not] at ran
    obtain ⟨_,alive,manifest,fixed,_,⟨ready,finished⟩,ran⟩ := ran
    obtain ⟨r',s',live,rfl,state⟩ := live_of_read known alive
    unfold selectHead activatePublicationSource at ran
    simp only [bind_ok,failWhen_ok,Except.ok.injEq,Prod.mk.injEq] at ran
    obtain ⟨first,_,t₁,published,t₂,⟨_,_,rfl⟩,_,_,same,_⟩ := ran
    have alike := publishSession_alike published
    have sources : t'.sources = t.sources.modify row.sessionID (selected id) := by
      rw [← same,← alike.sources]
      rfl
    have attempts : t'.attempts = t.attempts.modify id
        (activated (activationReceipt (attemptValue id row r' s' (c.clock 1)) manifest c.now) first.observedAt) := by
      rw [← same,← alike.attempts]
      rfl
    have reservations : t'.reservations = t.reservations := by rw [← same,← alike.reservations]; rfl
    have parts : t'.parts = t.parts := by rw [← same,← alike.parts]; rfl
    exact ⟨id,row,r',s',named,live.rows,.inr ⟨inactive,manifest,first.observedAt,
      ⟨live,state ▸ ready,fixed,finished,⟨sources,reservations,attempts,parts⟩⟩⟩⟩

/-! Reclamation -/

theorem reclaimed_held
    (written : (t.deletePublicationPart id ordinal).subtractPublicationBytes id part.payload.storedBytes part.derived =
      .ok t') :
    t'.Holds t.sources t.reservations (t.attempts.modify id (reclaimed part)) (t.parts.erase (id,ordinal)) := by
  unfold subtractPublicationBytes at written
  simp only [bind_ok,failWhen_ok,Except.ok.injEq] at written
  obtain ⟨_,_,rfl⟩ := written
  exact ⟨rfl,rfl,rfl,rfl⟩

theorem reclaimable_reclaimed {id' : String} {parts : Table (String × Nat) PartRow}
    (held : t'.Holds t.sources t.reservations (t.attempts.modify id (reclaimed part)) parts) :
    t'.reclaimable userID now id' = t.reclaimable userID now id' := by
  have session : ∀ a, (reclaimed part a).sessionID = a.sessionID := fun _ => rfl
  unfold reclaimable
  rw [attemptRows_modify session held]
  by_cases here : id' = id
  · rw [if_pos here]
    cases t.attemptRows id' <;> rfl
  · rw [if_neg here]

theorem reclaimParts_effects {rows : List ((String × Nat) × PartRow)}
    (distinct : (rows.map Prod.fst).Nodup) (stored : ∀ row ∈ rows, t.parts.lookup row.1 = some row.2)
    (unreachable : ∀ row ∈ rows, t.reclaimable userID (c.clock 0) row.1.1 = true)
    (ran : t.reclaimParts rows = .ok t') : Effects limits pk c t t' := by
  induction rows generalizing t with
  | nil =>
    cases ran
    exact .refl
  | cons row rows ih =>
    obtain ⟨⟨id,ordinal⟩,part⟩ := row
    simp only [reclaimParts,bind_ok] at ran
    obtain ⟨t₁,written,rest⟩ := ran
    have held := reclaimed_held written
    simp only [List.map_cons,List.nodup_cons] at distinct
    simp only [List.forall_mem_cons] at stored unreachable
    have first : Effect limits pk c t t₁ := .reclaimed unreachable.1 stored.1 held
    refine .head first (ih distinct.2 ?_ ?_ rest)
    · intro row member
      rw [held.parts,Table.lookup_erase,if_neg,stored.2 row member]
      intro same
      exact distinct.1 (same ▸ List.mem_map_of_mem member)
    · intro row member
      rw [reclaimable_reclaimed held]
      exact unreachable.2 row member

theorem publicationReclaimParts_mem {row : (String × Nat) × PartRow}
    (member : row ∈ t.publicationReclaimParts userID now limit) :
    t.parts.lookup row.1 = some row.2 ∧ t.reclaimable userID now row.1.1 = true := by
  have sorted := List.mem_of_mem_take member
  rw [List.mem_insertionSort,List.mem_filter] at sorted
  exact ⟨(Table.mem_rows t.parts _ _).mp sorted.1,sorted.2⟩

theorem publicationReclaimParts_distinct (userID : String) (now : Int) (limit : Nat) :
    ((t.publicationReclaimParts userID now limit).map Prod.fst).Nodup := by
  have sorted : (((t.parts.rows.filter fun row => t.reclaimable userID now row.1.1).insertionSort
      fun a b => a.1.1 < b.1.1 ∨ a.1.1 = b.1.1 ∧ a.1.2 ≤ b.1.2).map Prod.fst).Nodup :=
    ((List.perm_insertionSort _ _).map Prod.fst).nodup_iff.mpr
      ((Table.rows_distinct t.parts).sublist (List.filter_sublist.map Prod.fst))
  exact sorted.sublist ((List.take_sublist _ _).map Prod.fst)

theorem expiredReservations_mem
    (member : id ∈ t.expiredReservations userID now limit) {a : AttemptRow} (held : t.attempts.lookup id = some a) :
    a.partCount = 0 ∧ a.derivedParts = 0 ∧ a.state ≠ .activated := by
  have sorted := List.mem_of_mem_take member
  rw [List.mem_insertionSort,List.mem_map] at sorted
  obtain ⟨row,chosen,rfl⟩ := sorted
  have spent := (List.mem_filter.mp chosen).2
  simp only [spentReservation,held,Option.all_some,Bool.and_eq_true,decide_eq_true_eq,decide_not,
    Bool.not_eq_true',decide_eq_false_iff_not] at spent
  exact ⟨spent.2.1.1,spent.2.1.2,spent.2.2⟩

theorem reclaim_effects {reclaimed : Reclaimed}
    (ran : t.reclaim pk c p limit = .ok (t',reclaimed)) : Effects limits pk c t t' := by
  unfold reclaim at ran
  simp only [bind_ok,failWhen_ok] at ran
  obtain ⟨_,_,userID,_,t₁,parts,same⟩ := ran
  simp only [Except.ok.injEq,Prod.mk.injEq] at same
  obtain ⟨rfl,_⟩ := same
  have first : Effects limits pk c t t₁ := reclaimParts_effects (publicationReclaimParts_distinct _ _ _)
    (fun row member => (publicationReclaimParts_mem member).1)
    (fun row member => (publicationReclaimParts_mem member).2) parts
  refine first.tail (.dropped (fun id member a held => expiredReservations_mem member held) ⟨rfl,rfl,rfl,rfl⟩)

theorem effects_of_run {call : Call} (ran : call.run limits pk t c p = .ok t') :
    Effects limits pk c t t' ∨ ∃ id a r s manifest observedAt, Activates c t t' id a r s manifest observedAt := by
  cases call with
  | reserve scope | adoptLegacy scope =>
    obtain ⟨_,ran⟩ := map_fst_ok ran
    exact .inl (reserveSource_effects ran)
  | begin_ input =>
    obtain ⟨_,ran⟩ := map_fst_ok ran
    exact .inl (begin_effects ran)
  | put attemptID ordinal digest body =>
    obtain ⟨_,ran⟩ := map_fst_ok ran
    exact .inl (put_effects ran)
  | seal_ attemptID manifest =>
    obtain ⟨_,ran⟩ := map_fst_ok ran
    exact .inl (seal_effects ran)
  | status attemptID after limit =>
    obtain ⟨_,ran⟩ := map_fst_ok ran
    rw [status_same ran]
    exact .inl .refl
  | validate attemptID =>
    obtain ⟨_,ran⟩ := map_fst_ok ran
    exact .inl (validate_effects ran)
  | renew attemptID =>
    obtain ⟨_,ran⟩ := map_fst_ok ran
    exact .inl (renew_effects ran)
  | reject attemptID =>
    obtain ⟨_,ran⟩ := map_fst_ok ran
    exact .inl (reject_effects ran)
  | activate attemptID =>
    obtain ⟨_,ran⟩ := map_fst_ok ran
    obtain ⟨id,a,r,s,_,_,⟨_,same⟩ | ⟨_,manifest,observedAt,activates⟩⟩ := activate_ok ran
    · rw [same]
      exact .inl .refl
    · exact .inr ⟨id,a,r,s,manifest,observedAt,activates⟩
  | reclaim limit =>
    obtain ⟨_,ran⟩ := map_fst_ok ran
    exact .inl (reclaim_effects ran)

end Tables
end ATape.Publication
