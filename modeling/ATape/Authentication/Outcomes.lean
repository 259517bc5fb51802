import ATape.Authentication.CLI
import ATape.Authentication.Federated

/-! What the transactions of sessions and of CLI authorizations come to: for each, one case for each
of its ends, with what was found on the way and what was written. -/
namespace ATape.Authentication
open Foundation

/-! Rules of the statements. -/

section Rules
variable {α β : Type} {world : World} {work : Draft Database Write} {Q : Except (Halt Error) β → Draft Database Write → Prop}

/-- Faults are no outcome that anything is said of. -/
def Faultless (Q : Except (Halt Error) β → Draft Database Write → Prop) (base : Database) : Prop :=
  ∀ retryable work, work.base = base → Q (.error (.fault retryable)) work

theorem query_bind_ends {read : Database → α} {f : α → Transaction β} (faults : Faultless Q work.base)
    (next : (f (read work.db)).Ends world (work.add []) Q) : (query read >>= f).Ends world work Q := by
  refine statement_bind_ends (fun retryable => faults retryable _ rfl) fun a writes answer => ?_
  cases answer
  exact next

theorem databaseTime_bind_ends {f : Int → Transaction β} (faults : Faultless Q work.base)
    (next : (f (world.clock work.step)).Ends world (work.add []) Q) : (databaseTime >>= f).Ends world work Q := by
  refine statement_bind_ends (fun retryable => faults retryable _ rfl) fun a writes answer => ?_
  cases answer
  exact next

theorem execute_bind_ends {write : Int → Database → α × List Write} {f : α → Transaction β} (faults : Faultless Q work.base)
    (next : (f (write (world.clock work.step) work.db).1).Ends world
      (work.add (write (world.clock work.step) work.db).2) Q) : (execute write >>= f).Ends world work Q := by
  refine statement_bind_ends (fun retryable => faults retryable _ rfl) fun a writes answer => ?_
  have same := Option.some.inj answer
  rw [same] at next
  exact next

theorem insertion_bind_ends {allowed : Database → Bool} {write : Int → α × List Write} {f : α → Transaction β}
    (faults : Faultless Q work.base)
    (next : allowed work.db = true → (f (write (world.clock work.step)).1).Ends world
      (work.add (write (world.clock work.step)).2) Q) : (insertion allowed write >>= f).Ends world work Q := by
  refine statement_bind_ends (fun retryable => faults retryable _ rfl) fun a writes answer => ?_
  split at answer
  next meets =>
    have same := Option.some.inj answer
    have next := next meets
    rw [same] at next
    exact next
  next => cases answer

theorem drawn_bind_ends {f : String → Transaction β} (faults : Faultless Q work.base)
    (next : (f (world.drawn work.step)).Ends world (work.add []) Q) : (draw >>= f).Ends world work Q :=
  draw_bind_ends (fun retryable => faults retryable _ rfl) next

theorem newSecret_bind_ends {opening : String} {f : String → Transaction β} (faults : Faultless Q work.base)
    (next : (f (opening++world.drawn work.step)).Ends world (work.add []) Q) : (newSecret opening >>= f).Ends world work Q :=
  bind_ends (drawn_bind_ends (fun retryable work same => faults retryable work same) next)

theorem audit_bind_ends {record : AuditRecord} {f : Unit → Transaction β} (faults : Faultless Q work.base)
    (next : (f ()).Ends world ((work.add []).add [.audit record]) Q) : (appendAudit record >>= f).Ends world work Q := by
  refine bind_ends (drawn_bind_ends (fun retryable work same => faults retryable work same) ?_)
  refine statement_ends (fun retryable => faults retryable _ rfl) fun a writes answer => ?_
  split at answer
  next =>
    cases answer
    exact next
  next => cases answer

theorem audit_ends {record : AuditRecord} {Q : Except (Halt Error) Unit → Draft Database Write → Prop}
    (faults : Faultless Q work.base) (next : Q (.ok ()) ((work.add []).add [.audit record])) :
    (appendAudit record).Ends world work Q := by
  refine drawn_bind_ends faults (statement_ends (fun retryable => faults retryable _ rfl) fun a writes answer => ?_)
  split at answer
  next =>
    cases answer
    exact next
  next => cases answer

end Rules

/-! Sessions. -/

section Sessions
variable {db : Database}

theorem getWebSession_ok {id : String} {row : SessionRow × UserRow} (found : getWebSession db id = some row) :
    db.sessions.lookup id = some row.1 ∧ db.users.lookup row.1.userID = some row.2 := by
  simp only [getWebSession,Option.bind_eq_bind,Option.bind_eq_some_iff] at found
  obtain ⟨session,held,user,known,same⟩ := found
  cases same
  exact ⟨held,known⟩

/-- The secret that is found is current, and so are its session and its user. -/
structure Presented (db : Database) (secretDigest : String) (row : WebRow) : Prop where
  secret : db.secrets.lookup (row.id,row.generation) = some row.secret
  digest : row.secret.secretDigest = secretDigest
  current : row.secret.supersededAt = none
  session : db.sessions.lookup row.id = some row.session
  user : db.users.lookup row.session.userID = some row.user

theorem getWebAuthentication_ok {secretDigest : String} {row : WebRow}
    (found : getWebAuthentication db secretDigest = some row) : Presented db secretDigest row := by
  simp only [getWebAuthentication,Option.bind_eq_bind,Option.bind_eq_some_iff] at found
  obtain ⟨⟨⟨id,generation⟩,secret⟩,first,⟨session,user⟩,joined,same⟩ := found
  cases same
  obtain ⟨held,known⟩ := getWebSession_ok joined
  have inside := List.mem_of_find?_eq_some first
  have chosen := List.find?_some first
  simp only [Bool.and_eq_true,decide_eq_true_eq] at chosen
  exact ⟨(Table.mem_rows _ _ _).mp inside,chosen.1,chosen.2,held,known⟩

def expiryWrites (id : String) (status : SessionStatus) (reason : String) (now : Int) : List Write :=
  [.terminalWebSession id status reason now,.audit (expiryAudit id reason)]

/-- Ends of an authentication. A session past its absolute deadline is written as expired and the
transaction is given up. -/
inductive Authenticates (m : Module) (db : Database) (world : World) (secret : String) (requireFresh touch : Bool) :
    Except (Halt Error) WebState → List Write → Prop
  | fault (retryable writes) : Authenticates m db world secret requireFresh touch (.error (.fault retryable)) writes
  | unknown (none_ : getWebAuthentication db (m.secretDigest secret) = none) :
      Authenticates m db world secret requireFresh touch (.error (.refuse (domainError .unauthenticated))) []
  | refused (row : WebRow) (found : getWebAuthentication db (m.secretDigest secret) = some row) (code : ErrorCode)
      (why : code = .userDisabled ∧ row.user.status ≠ .active ∨ code = .sessionRevoked ∧ row.session.status = .revoked ∨
        code = .sessionIdleExpired ∧ row.session.status = .idleExpired ∨
        (code = .freshAuthenticationRequired ∨ code = .misconfigured) ∧ row.session.status = .active ∧
          world.clock 1 < row.session.absoluteExpiresAt) :
      Authenticates m db world secret requireFresh touch (.error (.refuse (domainError code))) []
  | ended (row : WebRow) (found : getWebAuthentication db (m.secretDigest secret) = some row)
      (status : row.session.status = .absoluteExpired) :
      Authenticates m db world secret requireFresh touch (.error (.settle (domainError .sessionAbsoluteExpired))) []
  | absolute (row : WebRow) (found : getWebAuthentication db (m.secretDigest secret) = some row)
      (user : row.user.status = .active) (status : row.session.status = .active)
      (late : row.session.absoluteExpiresAt ≤ world.clock 1) :
      Authenticates m db world secret requireFresh touch (.error (.refuse (domainError .sessionAbsoluteExpired)))
        (expiryWrites row.id .absoluteExpired "absolute_lifetime" (world.clock 2))
  | idle (row : WebRow) (found : getWebAuthentication db (m.secretDigest secret) = some row)
      (user : row.user.status = .active) (status : row.session.status = .active)
      (early : world.clock 1 < row.session.absoluteExpiresAt) (late : m.idleDeadline row.session ≤ world.clock 1) :
      Authenticates m db world secret requireFresh touch (.error (.settle (domainError .sessionIdleExpired)))
        (expiryWrites row.id .idleExpired "idle_timeout" (world.clock 2))
  | ok (row : WebRow) (found : getWebAuthentication db (m.secretDigest secret) = some row)
      (user : row.user.status = .active) (status : row.session.status = .active)
      (absolute : world.clock 1 < row.session.absoluteExpiresAt) (idle : world.clock 1 < m.idleDeadline row.session)
      (fresh : requireFresh = true → m.isFresh row.session (world.clock 1) = true) (lastUsedAt : Int) (writes : List Write)
      (touches : writes = [] ∨ writes = [.touchWebSession row.id (world.clock 2)]) :
      Authenticates m db world secret requireFresh touch (.ok (m.webState row secret (world.clock 1) lastUsedAt)) writes

theorem activeSession_of {id : String} {row : SessionRow} (held : db.sessions.lookup id = some row)
    (status : row.status = .active) : activeSession db id = true := by
  simp [activeSession,held,status]

theorem terminalize_bind_ends {β : Type} {world : World} {work : Draft Database Write}
    {Q : Except (Halt Error) β → Draft Database Write → Prop} {id reason : String} {status : SessionStatus}
    {f : Unit → Transaction β} (faults : Faultless Q work.base) (active : activeSession work.db id = true)
    (next : (f ()).Ends world
      (((work.add [.terminalWebSession id status reason (world.clock work.step)]).add []).add [.audit (expiryAudit id reason)])
      Q) : (terminalizeWebSession id status reason >>= f).Ends world work Q := by
  refine bind_ends (execute_bind_ends (fun retryable work same => faults retryable work same) ?_)
  rw [if_pos active]
  exact audit_ends (fun retryable work same => faults retryable work same) next

theorem authenticates (m : Module) (db : Database) (world : World) (secret : String) (requireFresh touch : Bool) :
    (m.authenticateWebInTransaction secret requireFresh touch).Ends world (Draft.start db) fun result work =>
      work.base = db ∧ Authenticates m db world secret requireFresh touch result work.writes := by
  have faults : Faultless (fun result work => work.base = db ∧
      Authenticates m db world secret requireFresh touch result work.writes) db :=
    fun retryable work same => ⟨same,.fault retryable work.writes⟩
  refine query_bind_ends faults ?_
  cases found : getWebAuthentication db (m.secretDigest secret) with
  | none =>
    have none_ : getWebAuthentication (Draft.start db : Draft Database Write).db (m.secretDigest secret) = none := found
    rw [none_]
    exact refuse_ends ⟨rfl,.unknown found⟩
  | some row =>
    have some_ : getWebAuthentication (Draft.start db : Draft Database Write).db (m.secretDigest secret) = some row := found
    rw [some_]
    refine databaseTime_bind_ends faults ?_
    have active : row.session.status = .active → activeSession db row.id = true :=
      activeSession_of (getWebAuthentication_ok found).session
    unfold Module.authenticateRow
    split
    next disabled => exact refuse_ends ⟨rfl,.refused row found _ (.inl ⟨rfl,disabled⟩)⟩
    next user =>
      have user := not_not.mp user
      split
      next status => exact refuse_ends ⟨rfl,.refused row found _ (.inr (.inl ⟨rfl,status⟩))⟩
      next status => exact refuse_ends ⟨rfl,.refused row found _ (.inr (.inr (.inl ⟨rfl,status⟩)))⟩
      next status => exact settle_ends ⟨rfl,.ended row found status⟩
      next status =>
        split
        next late => exact terminalize_bind_ends faults (active status) (refuse_ends ⟨rfl,.absolute row found user status late⟩)
        next early =>
          have early := Int.not_le.mp early
          split
          next late =>
            exact terminalize_bind_ends faults (active status) (settle_ends ⟨rfl,.idle row found user status early late⟩)
          next idle =>
            have idle := Int.not_le.mp idle
            split
            next => exact refuse_ends ⟨rfl,.refused row found _ (.inr (.inr (.inr ⟨.inl rfl,status,early⟩)))⟩
            next fresh =>
              have fresh : requireFresh = true → m.isFresh row.session (world.clock 1) = true := by
                intro required
                rw [required,Bool.true_and,Bool.not_eq_true,Bool.not_eq_false'] at fresh
                exact fresh
              split
              next => exact refuse_ends ⟨rfl,.refused row found _ (.inr (.inr (.inr ⟨.inr rfl,status,early⟩)))⟩
              next =>
                split
                next =>
                  refine execute_bind_ends faults (pure_ends ⟨rfl,.ok row found user status early idle fresh _ _ ?_⟩)
                  split
                  next =>
                    split
                    next => exact .inr rfl
                    next => exact .inl rfl
                  next => exact .inl rfl
                next => exact pure_ends ⟨rfl,.ok row found user status early idle fresh _ _ (.inl rfl)⟩

/-- A session that a principal may act from. -/
structure Valid (m : Module) (db : Database) (principal : Principal) (v : Module.ValidatedWebPrincipal) : Prop where
  named : m.parseUUID principal.webSessionID = some v.id
  same : v.userID = principal.userID
  session : ∃ row user, db.sessions.lookup v.id = some row ∧ row.userID = v.userID ∧ row.status = .active ∧
    db.users.lookup v.userID = some user ∧ user.status = .active ∧ v.now < row.absoluteExpiresAt ∧
    v.now < m.idleDeadline row

theorem sessionError_none {m : Module} {row : SessionRow × UserRow} {userID : String} {now : Int}
    (none_ : m.sessionError row userID now = none) : row.1.userID = userID ∧ row.1.status = .active ∧
      row.2.status = .active ∧ now < row.1.absoluteExpiresAt ∧ now < m.idleDeadline row.1 := by
  unfold Module.sessionError at none_
  split at none_
  next => cases none_
  next own =>
    obtain ⟨same,active⟩ := not_or.mp own
    split at none_
    next => cases none_
    next user =>
      split at none_
      next => cases none_
      next absolute =>
        split at none_
        next => cases none_
        next idle => exact ⟨not_not.mp same,not_not.mp active,not_not.mp user,Int.not_le.mp absolute,Int.not_le.mp idle⟩

def principalErrors : List ErrorCode :=
  [.unauthenticated,.sessionRevoked,.userDisabled,.sessionAbsoluteExpired,.sessionIdleExpired]

theorem sessionError_some {m : Module} {row : SessionRow × UserRow} {userID : String} {now : Int} {code : ErrorCode}
    (some_ : m.sessionError row userID now = some code) : code ∈ principalErrors := by
  unfold Module.sessionError at some_
  split at some_
  next =>
    cases some_
    simp [principalErrors]
  next =>
    split at some_
    next =>
      cases some_
      simp [principalErrors]
    next =>
      split at some_
      next =>
        cases some_
        simp [principalErrors]
      next =>
        split at some_
        next =>
          cases some_
          simp [principalErrors]
        next => cases some_

section Validation
variable {α : Type} {m : Module} {world : World} {work : Draft Database Write} {principal : Principal}
  {Q : Except (Halt Error) α → Draft Database Write → Prop} {f : Module.ValidatedWebPrincipal → Transaction α}

theorem validate_bind_ends (faults : Faultless Q work.base)
    (refused : ∀ code ∈ principalErrors, ∀ work', work'.base = work.base → work'.writes = work.writes++[] →
      Q (.error (.refuse (domainError code))) work')
    (next : ∀ v, Valid m work.db principal v → v.now = world.clock (work.step+1) →
      (f v).Ends world ((work.add []).add []) Q) :
    (m.validateWebPrincipalInTransaction principal >>= f).Ends world work Q := by
  have nothing : work.writes = work.writes++[] := (List.append_nil _).symm
  unfold Module.validateWebPrincipalInTransaction
  split
  next => exact bind_ends (refuse_ends (refused _ (by simp [principalErrors]) _ rfl nothing))
  next =>
    split
    next => exact bind_ends (refuse_ends (refused _ (by simp [principalErrors]) _ rfl nothing))
    next id named =>
      refine bind_ends (query_bind_ends (fun retryable work same => faults retryable work same) ?_)
      cases found : getWebSession work.db id with
      | none => exact refuse_ends (refused _ (by simp [principalErrors]) _ rfl rfl)
      | some row =>
        obtain ⟨held,known⟩ := getWebSession_ok found
        simp only [Module.validateRow]
        split
        next => exact refuse_ends (refused _ (by simp [principalErrors]) _ rfl rfl)
        next =>
          split
          next => exact refuse_ends (refused _ (by simp [principalErrors]) _ rfl rfl)
          next =>
            refine databaseTime_bind_ends (fun retryable work same => faults retryable work same) ?_
            split
            next some_ => exact refuse_ends (refused _ (sessionError_some some_) _ rfl (List.append_assoc _ _ _))
            next none_ =>
              obtain ⟨same,active,user,absolute,idle⟩ := sessionError_none none_
              refine pure_ends (next _ ⟨named,same,row.1,row.2,held,rfl,active,known,user,absolute,idle⟩ rfl)

end Validation

/-! CLI authorizations. -/

section CLI
variable {m : Module} {db : Database} {world : World}

theorem authorizationIn_of {id : String} {row : AuthorizationRow} (held : db.authorizations.lookup id = some row)
    (chosen : AuthorizationRow → Bool) : authorizationIn db id chosen = chosen row := by
  rw [authorizationIn,held,Option.any_some]

def expireWrites (db : Database) (id : String) (now : Int) : List Write :=
  if authorizationIn db id live then [.expireCLIAuthorization id now] else []

inductive Creates (m : Module) (db : Database) (world : World) (deviceCode : String) :
    Except (Halt Error) Module.CLIDeviceAuthorization → List Write → Prop
  | fault (retryable writes) : Creates m db world deviceCode (.error (.fault retryable)) writes
  | unselected : Creates m db world deviceCode (.error (.refuse (domainError .serviceUnavailable))) []
  | created (id normalized : String) (now : Int) (step : ℕ) (drawn : id = world.drawn step) (clock : now = world.clock (step+1))
      (fresh : ∀ key ∈ m.pepperKeys.ids, liveCLICodeExists db key (m.keyedCodeDigest key normalized) = false)
      (allowed : Module.authorizationAllowed id (m.authorizationRow deviceCode normalized 0) db = true)
      (authorization : Module.CLIDeviceAuthorization)
      (given : authorization.id = id ∧ authorization.userCode = normalized ∧ authorization.deviceCode = deviceCode) :
      Creates m db world deviceCode (.ok authorization)
        [.insertCLIAuthorization id (m.authorizationRow deviceCode normalized now)]

theorem liveCodeCollision_ends {ids : List String} {normalized : String} {work : Draft Database Write}
    {Q : Except (Halt Error) Bool → Draft Database Write → Prop} (faults : Faultless Q work.base)
    (done : ∀ collision work', work'.base = work.base → work'.writes = work.writes++[] →
      (collision = false → ∀ key ∈ ids, liveCLICodeExists work.db key (m.keyedCodeDigest key normalized) = false) →
      Q (.ok collision) work') : (m.liveCodeCollision normalized ids).Ends world work Q := by
  induction ids generalizing work with
  | nil => exact pure_ends (done false work rfl (List.append_nil _).symm fun _ _ inside => by cases inside)
  | cons key ids ih =>
    unfold Module.liveCodeCollision
    refine query_bind_ends faults ?_
    split
    next found => exact pure_ends (done true _ rfl rfl fun none_ => by cases none_)
    next free =>
      have free : liveCLICodeExists work.db key (m.keyedCodeDigest key normalized) = false := by simpa using free
      refine ih faults fun collision work' base writes others => done collision work' base ?_ fun none_ => ?_
      · rw [writes]
        exact List.append_assoc _ _ _
      · have others := others none_
        rw [Draft.db_add] at others
        exact List.forall_mem_cons.mpr ⟨free,others⟩

theorem selectCode_ends {attempts : ℕ} {work : Draft Database Write}
    {Q : Except (Halt Error) (Option String) → Draft Database Write → Prop} (faults : Faultless Q work.base)
    (done : ∀ selected work', work'.base = work.base → work'.writes = work.writes++[] →
      (∀ normalized, selected = some normalized → ∀ key ∈ m.pepperKeys.ids,
        liveCLICodeExists work.db key (m.keyedCodeDigest key normalized) = false) → Q (.ok selected) work') :
    (m.selectCode attempts).Ends world work Q := by
  induction attempts generalizing work with
  | zero => exact pure_ends (done none work rfl (List.append_nil _).symm fun _ none_ => by cases none_)
  | succ attempts ih =>
    unfold Module.selectCode randomDeviceUserCode
    refine bind_ends (drawn_bind_ends (fun retryable work same => faults retryable work same) ?_)
    split
    next => exact faulty_ends (faults _ _ rfl)
    next =>
      refine pure_ends (bind_ends (liveCodeCollision_ends (fun retryable work same => faults retryable work same) ?_))
      intro collision work' base writes fresh
      have writes : work'.writes = work.writes++[] := writes.trans (List.append_assoc _ _ _)
      have same : work'.db = work.db := by rw [Draft.db,Draft.db,base,writes,List.append_nil]; rfl
      cases collision with
      | true =>
        refine ih (fun retryable work again => faults retryable work (again.trans base)) ?_
        intro selected work'' base' writes' others
        refine done selected work'' (base'.trans base) ?_ (same ▸ others)
        rw [writes',writes,List.append_nil]
      | false =>
        refine pure_ends (done _ work' base writes ?_)
        rintro _ ⟨⟩
        have fresh := fresh rfl
        rwa [Draft.db_add] at fresh

theorem creates (m : Module) (db : Database) (world : World) (deviceCode : String) :
    (m.createInTransaction deviceCode).Ends world (Draft.start db) fun result work =>
      work.base = db ∧ Creates m db world deviceCode result work.writes := by
  have faults : Faultless (fun result work => work.base = db ∧ Creates m db world deviceCode result work.writes) db :=
    fun retryable work same => ⟨same,.fault retryable work.writes⟩
  refine query_bind_ends faults (bind_ends (selectCode_ends (fun retryable work same => faults retryable work same) ?_))
  intro selected work base writes fresh
  obtain ⟨_,_,step⟩ := work
  obtain rfl : _ = db := base
  obtain rfl : _ = [] := writes
  cases selected with
  | none => exact refuse_ends ⟨rfl,.unselected⟩
  | some normalized =>
    refine drawn_bind_ends faults (insertion_bind_ends faults fun allowed => pure_ends ⟨rfl,?_⟩)
    exact .created _ normalized _ step rfl rfl (fresh normalized rfl) allowed _ ⟨rfl,rfl,rfl⟩

def failure (m : Module) (v : Module.ValidatedWebPrincipal) (db : Database) : WindowRow :=
  m.failureRow v.now (db.windows.lookup (v.id,m.windowStart v.now))

/-- A failed attempt is counted, and told of when it is one too many. -/
def failureWrites (m : Module) (v : Module.ValidatedWebPrincipal) (requestID : String) (db : Database) : List Write :=
  .codeAttemptFailure v.id (m.windowStart v.now) (failure m v db)::
    if m.policy.maximumCodeFailures ≤ (failure m v db).failureCount then [.audit (Module.blockAudit v requestID)] else []

def failureError (m : Module) (v : Module.ValidatedWebPrincipal) (db : Database) : Error :=
  if m.policy.maximumCodeFailures ≤ (failure m v db).failureCount then m.tooManyAttempts v.now
  else domainError .invalidUserCode

/-- Ends of a review. Its errors are committed, but for those of the principal. -/
inductive Resolves (m : Module) (db : Database) (world : World) (caller : Principal) (userCode requestID : String) :
    Except (Halt Error) Module.Resolved → List Write → Prop
  | fault (retryable writes) : Resolves m db world caller userCode requestID (.error (.fault retryable)) writes
  | refused (code : ErrorCode) : Resolves m db world caller userCode requestID (.error (.refuse (domainError code))) []
  | blocked (now : Int) : Resolves m db world caller userCode requestID (.ok (.error (m.tooManyAttempts now))) []
  | ambiguous (v : Module.ValidatedWebPrincipal) :
      Resolves m db world caller userCode requestID (.ok (.error (domainError .misconfigured)))
        [.audit (Module.ambiguousAudit v requestID)]
  | invalid (v : Module.ValidatedWebPrincipal) (expired : List Write) (marks : expired = [] ∨ ∃ id row now,
      db.authorizations.lookup id = some row ∧ row.expiresAt ≤ v.now ∧ expired = expireWrites db id now) :
      Resolves m db world caller userCode requestID (.ok (.error (failureError m v db))) (expired++failureWrites m v requestID db)
  | seen (view : Module.CLIAuthorizationView) : Resolves m db world caller userCode requestID (.ok (.ok view)) []
  | bound (v : Module.ValidatedWebPrincipal) (valid : Valid m db caller v) (id normalized key : String) (row : AuthorizationRow)
      (code : normalizeDeviceUserCode userCode = some normalized) (accepted : key ∈ m.pepperKeys.ids)
      (found : getAuthorizationByUserCode db key (m.keyedCodeDigest key normalized) = some (id,row))
      (status : row.status = .pending) (unbound : row.reviewSessionID = none) (early : v.now < row.expiresAt)
      (view : Module.CLIAuthorizationView) :
      Resolves m db world caller userCode requestID (.ok (.ok view)) [.bindCLIReviewSession id v.id]

theorem recordInvalid_ends {v : Module.ValidatedWebPrincipal} {requestID : String} {work : Draft Database Write}
    {Q : Except (Halt Error) Module.Resolved → Draft Database Write → Prop} (faults : Faultless Q work.base)
    (done : ∀ work', work'.base = work.base → work'.writes = work.writes++failureWrites m v requestID work.db →
      Q (.ok (.error (failureError m v work.db))) work') : (m.recordInvalidUserCode v requestID).Ends world work Q := by
  refine statement_bind_ends (fun retryable => faults retryable _ rfl) fun window writes answer => ?_
  dsimp only at answer
  split at answer
  next =>
    obtain ⟨rfl,rfl⟩ := Prod.mk.inj (Option.some.inj answer)
    have counted : m.failureRow v.now (work.db.windows.lookup (v.id,m.windowStart v.now)) = failure m v work.db := rfl
    rw [counted]
    split
    next many =>
      have error : m.tooManyAttempts v.now = failureError m v work.db := (if_pos many).symm
      have told : failureWrites m v requestID work.db = [.codeAttemptFailure v.id (m.windowStart v.now) (failure m v work.db),
        .audit (Module.blockAudit v requestID)] := by rw [failureWrites,if_pos many]
      rw [error]
      refine audit_bind_ends (fun retryable work same => faults retryable work same) (pure_ends (done _ rfl ?_))
      rw [told]
      simp [Draft.add]
    next few =>
      have error : domainError .invalidUserCode = failureError m v work.db := (if_neg few).symm
      rw [error]
      refine pure_ends (done _ rfl ?_)
      rw [failureWrites,if_neg few]
      rfl
  next => cases answer

theorem findByUserCode_ends {ids : List String} {normalized : String} {work : Draft Database Write}
    {Q : Except (Halt Error) (List (String × AuthorizationRow)) → Draft Database Write → Prop} (faults : Faultless Q work.base)
    (done : ∀ found work', work'.base = work.base → work'.writes = work.writes++[] →
      (∀ match_ ∈ found, ∃ key ∈ ids, getAuthorizationByUserCode work.db key (m.keyedCodeDigest key normalized) = some match_) →
      Q (.ok found) work') : (m.findByUserCode normalized ids).Ends world work Q := by
  induction ids generalizing work Q with
  | nil => exact pure_ends (done [] work rfl (List.append_nil _).symm fun _ inside => by cases inside)
  | cons key ids ih =>
    unfold Module.findByUserCode
    refine query_bind_ends faults (bind_ends (ih (fun retryable work same => faults retryable work same) ?_))
    intro others work' base writes known
    refine pure_ends (done _ work' base (writes.trans (List.append_assoc _ _ _)) ?_)
    intro match_ inside
    rcases List.mem_append.mp inside with inside | inside
    · exact ⟨key,List.mem_cons_self,Option.mem_toList.mp inside⟩
    · obtain ⟨other,member,found⟩ := known match_ inside
      rw [Draft.db_add] at found
      exact ⟨other,List.mem_cons_of_mem _ member,found⟩

theorem getAuthorizationByUserCode_ok {key digest id : String} {row : AuthorizationRow}
    (found : getAuthorizationByUserCode db key digest = some (id,row)) :
    db.authorizations.lookup id = some row ∧ row.userCodeKeyID = key ∧ row.userCodeDigest = digest := by
  have chosen := List.find?_some found
  simp only [Bool.and_eq_true,decide_eq_true_eq] at chosen
  exact ⟨(Table.mem_rows _ _ _).mp (List.mem_of_find?_eq_some found),chosen⟩

theorem resolves (m : Module) (db : Database) (world : World) (caller : Principal) (userCode requestID : String) :
    (m.resolveInTransaction caller userCode requestID).Ends world (Draft.start db) fun result work =>
      work.base = db ∧ Resolves m db world caller userCode requestID result work.writes := by
  have faults : Faultless (fun result work => work.base = db ∧
      Resolves m db world caller userCode requestID result work.writes) db :=
    fun retryable work same => ⟨same,.fault retryable work.writes⟩
  refine validate_bind_ends faults (fun code _ work base writes => ⟨base,writes ▸ .refused code⟩) fun v valid _ => ?_
  refine query_bind_ends faults ?_
  have invalid : ∀ (work : Draft Database Write) (expired : List Write), work.base = db → work.writes = expired →
      (expired = [] ∨ ∃ id row now, db.authorizations.lookup id = some row ∧ row.expiresAt ≤ v.now ∧
        expired = expireWrites db id now) → work.db.windows = db.windows →
      (m.recordInvalidUserCode v requestID).Ends world work fun result work => work.base = db ∧
        Resolves m db world caller userCode requestID result work.writes := by
    intro work expired base writes marks windows
    have same : failure m v work.db = failure m v db := by rw [failure,failure,windows]
    refine recordInvalid_ends (base ▸ faults) fun work' base' writes' => ⟨base'.trans base,?_⟩
    rw [writes',writes,failureError,failureWrites,same]
    exact .invalid v expired marks
  split
  next => exact pure_ends ⟨rfl,.blocked _⟩
  next =>
    unfold Module.review
    split
    next => exact invalid _ [] rfl rfl (.inl rfl) rfl
    next normalized code =>
      refine bind_ends (findByUserCode_ends (fun retryable work same => faults retryable work same) ?_)
      intro found work base writes known
      obtain ⟨_,_,step⟩ := work
      obtain rfl : _ = db := base
      obtain rfl : _ = [] := writes
      dsimp only [Module.reviewMatches]
      split
      next id row =>
        obtain ⟨key,accepted,match_⟩ := known (id,row) List.mem_cons_self
        have match_ : getAuthorizationByUserCode _ key (m.keyedCodeDigest key normalized) = some (id,row) := match_
        have held := (getAuthorizationByUserCode_ok match_).1
        unfold Module.reviewGrant
        split
        next late =>
          refine execute_bind_ends faults (invalid _ _ rfl rfl (.inr ⟨id,row,_,held,late,rfl⟩) ?_)
          split <;> rfl
        next early =>
          split
          next => exact invalid _ [] rfl rfl (.inl rfl) rfl
          next =>
            split
            next => exact invalid _ [] rfl rfl (.inl rfl) rfl
            next =>
              unfold Module.bindReview
              split
              next unbound =>
                refine execute_bind_ends faults ?_
                split
                next pending =>
                  have pending : row.status = .pending ∧ row.reviewSessionID = none := by
                    have chosen := (authorizationIn_of held _).symm.trans pending
                    simpa using chosen
                  exact pure_ends ⟨rfl,.bound v valid id normalized key row code accepted match_ pending.1 unbound
                    (Int.not_le.mp early) _⟩
                next => exact faulty_ends (faults _ _ rfl)
              next => exact pure_ends ⟨rfl,.seen _⟩
      next => exact invalid _ [] rfl rfl (.inl rfl) rfl
      next => exact audit_bind_ends faults (pure_ends ⟨rfl,.ambiguous v⟩)

def decidedStatus : Module.CLIDecision → AuthorizationStatus
  | .approve => .approvedUnclaimed
  | .deny => .denied

inductive Decides (m : Module) (db : Database) (world : World) (caller : Principal) (id requestID : String)
    (decision : Module.CLIDecision) : Except (Halt Error) Unit → List Write → Prop
  | fault (retryable writes) : Decides m db world caller id requestID decision (.error (.fault retryable)) writes
  | refused (code : ErrorCode) (why : code = .expiredToken → ∃ row, db.authorizations.lookup id = some row ∧
      row.status = .expired) :
      Decides m db world caller id requestID decision (.error (.refuse (domainError code))) []
  | expired (v : Module.ValidatedWebPrincipal) (row : AuthorizationRow) (held : db.authorizations.lookup id = some row)
      (late : row.expiresAt ≤ v.now) (status : row.status ≠ .claimed ∧ row.status ≠ .denied) (now : Int) :
      Decides m db world caller id requestID decision (.error (.settle (domainError .expiredToken))) (expireWrites db id now)
  | again : Decides m db world caller id requestID decision (.ok ()) []
  | decided (v : Module.ValidatedWebPrincipal) (valid : Valid m db caller v) (clock : v.now = world.clock 1)
      (row : AuthorizationRow) (held : db.authorizations.lookup id = some row) (status : row.status = .pending)
      (reviewed : row.reviewSessionID = some v.id) (early : v.now < row.expiresAt) (terminalAt : Option Int)
      (final : terminalAt.isSome = true ↔ decision = .deny) :
      Decides m db world caller id requestID decision (.ok ())
        [.decideCLIAuthorization id (decidedStatus decision) v.userID terminalAt,
          .audit (Module.decisionAudit caller id requestID decision)]

theorem decides (m : Module) (db : Database) (world : World) (caller : Principal) (id requestID : String)
    (decision : Module.CLIDecision) :
    (m.decideInTransaction caller id requestID decision).Ends world (Draft.start db) fun result work =>
      work.base = db ∧ Decides m db world caller id requestID decision result work.writes := by
  have faults : Faultless (fun result work => work.base = db ∧
      Decides m db world caller id requestID decision result work.writes) db :=
    fun retryable work same => ⟨same,.fault retryable work.writes⟩
  have nothing : ∀ {code : ErrorCode}, code ≠ .expiredToken →
      Decides m db world caller id requestID decision (.error (.refuse (domainError code))) [] :=
    fun other => .refused _ fun same => absurd same other
  refine validate_bind_ends faults (fun code known work base writes => ⟨base,writes ▸ nothing ?_⟩) fun v valid clock => ?_
  · rintro rfl
    simp [principalErrors] at known
  refine query_bind_ends faults ?_
  cases held : db.authorizations.lookup id with
  | none =>
    have none_ : (Draft.db (((Draft.start db).add []).add [])).authorizations.lookup id = none := held
    rw [none_]
    exact refuse_ends ⟨rfl,nothing (by decide)⟩
  | some row =>
    have some_ : (Draft.db (((Draft.start db).add []).add [])).authorizations.lookup id = some row := held
    rw [some_]
    dsimp only [Module.decideGrant]
    split
    next => exact refuse_ends ⟨rfl,nothing (by decide)⟩
    next reviewed =>
      split
      next late => exact execute_bind_ends faults (settle_ends ⟨rfl,.expired v row held late.1 late.2 _⟩)
      next early =>
        have already : ∀ same, Tx.Ends (Module.decidedAlready v row same) world (((Draft.start db).add []).add []|>.add [])
            fun result work => work.base = db ∧ Decides m db world caller id requestID decision result work.writes := by
          intro same
          unfold Module.decidedAlready
          split
          next => exact refuse_ends ⟨rfl,nothing (by decide)⟩
          next => exact pure_ends ⟨rfl,.again⟩
        split
        next status =>
          have early : v.now < row.expiresAt := by
            rw [status] at early
            simpa using early
          have pending : authorizationIn (Draft.db ((((Draft.start db).add []).add []).add [])) id
              (fun row => row.status = .pending) = true := by
            have chosen := authorizationIn_of held fun row => row.status = .pending
            rw [status] at chosen
            exact chosen
          have decided : ∀ terminalAt : Option Int, (terminalAt.isSome = true ↔ decision = .deny) →
              Decides m db world caller id requestID decision (.ok ()) [.decideCLIAuthorization id (decidedStatus decision)
                v.userID terminalAt,.audit (Module.decisionAudit caller id requestID decision)] :=
            fun terminalAt final => .decided v valid clock row held status (not_not.mp reviewed) early terminalAt final
          cases decision with
          | approve =>
            dsimp only [Module.decidePending,approveCLIAuthorization]
            refine execute_bind_ends faults ?_
            rw [if_pos pending]
            exact audit_ends faults ⟨rfl,decided none (by simp)⟩
          | deny =>
            dsimp only [Module.decidePending,denyCLIAuthorization]
            refine execute_bind_ends faults ?_
            rw [if_pos pending]
            exact audit_ends faults ⟨rfl,decided (some _) (by simp)⟩
        next => exact already _
        next => exact already _
        next => exact refuse_ends ⟨rfl,nothing (by decide)⟩
        next status => exact refuse_ends ⟨rfl,.refused _ fun _ => ⟨row,held,status⟩⟩

inductive Polls (m : Module) (db : Database) (world : World) (deviceCode requestID : String) :
    Except (Halt Error) Module.IssuedCredentialAttempt → List Write → Prop
  | fault (retryable writes) : Polls m db world deviceCode requestID (.error (.fault retryable)) writes
  | refused (code : ErrorCode) (why : code = .expiredToken → ∃ id row, db.authorizations.lookup id = some row ∧
      row.deviceCodeDigest = m.highEntropyDigest "cli-device-code" deviceCode ∧ row.status = .expired) :
      Polls m db world deviceCode requestID (.error (.refuse (domainError code))) []
  | expired (id : String) (row : AuthorizationRow) (held : db.authorizations.lookup id = some row)
      (code : row.deviceCodeDigest = m.highEntropyDigest "cli-device-code" deviceCode)
      (late : row.expiresAt ≤ world.clock 1) (status : row.status ≠ .claimed ∧ row.status ≠ .denied) :
      Polls m db world deviceCode requestID (.error (.settle (domainError .expiredToken)))
        (expireWrites db id (world.clock 2))
  | waiting (id : String) (row : AuthorizationRow) (held : db.authorizations.lookup id = some row)
      (status : row.status = .pending) (code : ErrorCode) (why : code = .slowDown ∨ code = .authorizationPending)
      (nextPollAt seconds : Int) :
      Polls m db world deviceCode requestID (.error (.settle ⟨code,seconds⟩)) [.advanceCLIPoll id nextPollAt seconds]
  | disabled (id : String) (row : AuthorizationRow) (held : db.authorizations.lookup id = some row)
      (status : row.status = .approvedUnclaimed) :
      Polls m db world deviceCode requestID (.error (.settle (domainError .accessDenied)))
        [.expireCLIAuthorization id (world.clock 3)]
  | issued (id : String) (row : AuthorizationRow) (held : db.authorizations.lookup id = some row)
      (code : row.deviceCodeDigest = m.highEntropyDigest "cli-device-code" deviceCode)
      (status : row.status = .approvedUnclaimed) (early : world.clock 1 < row.expiresAt)
      (userID : String) (approved : row.approvingUserID = some userID) (user : UserRow)
      (known : db.users.lookup userID = some user) (active : user.status = .active)
      (grant : Module.CLICredentialGrant) (drawn : grant.credentialID = world.drawn 3)
      (secret : grant.credentialSecret = "atc_v1_"++world.drawn 4) (now claimedAt : Int)
      (allowed : credentialAllowed grant.credentialID
        ⟨userID,id,m.credentialDigest grant.credentialSecret,.active,0⟩ db = true) :
      Polls m db world deviceCode requestID (.ok ⟨id,grant⟩)
        [.insertCLICredential grant.credentialID ⟨userID,id,m.credentialDigest grant.credentialSecret,.active,now⟩,
          .claimCLIAuthorization id grant.credentialID claimedAt,
          .audit (Module.credentialAudit grant.credentialID requestID)]

theorem getAuthorizationByDeviceCode_ok {digest id : String} {row : AuthorizationRow}
    (found : getAuthorizationByDeviceCode db digest = some (id,row)) :
    db.authorizations.lookup id = some row ∧ row.deviceCodeDigest = digest := by
  have chosen := List.find?_some found
  exact ⟨(Table.mem_rows _ _ _).mp (List.mem_of_find?_eq_some found),by simpa using chosen⟩

theorem polls (m : Module) (db : Database) (world : World) (deviceCode requestID : String) :
    (m.pollInTransaction deviceCode requestID).Ends world (Draft.start db) fun result work =>
      work.base = db ∧ Polls m db world deviceCode requestID result work.writes := by
  have faults : Faultless (fun result work => work.base = db ∧ Polls m db world deviceCode requestID result work.writes) db :=
    fun retryable work same => ⟨same,.fault retryable work.writes⟩
  have nothing : ∀ {code : ErrorCode}, code ≠ .expiredToken →
      Polls m db world deviceCode requestID (.error (.refuse (domainError code))) [] :=
    fun other => .refused _ fun same => absurd same other
  refine query_bind_ends faults ?_
  cases found : getAuthorizationByDeviceCode db (m.highEntropyDigest "cli-device-code" deviceCode) with
  | none =>
    have none_ : getAuthorizationByDeviceCode (Draft.db (Draft.start db)) (m.highEntropyDigest "cli-device-code" deviceCode) =
      none := found
    rw [none_]
    exact refuse_ends ⟨rfl,nothing (by decide)⟩
  | some match_ =>
    obtain ⟨id,row⟩ := match_
    have some_ : getAuthorizationByDeviceCode (Draft.db (Draft.start db)) (m.highEntropyDigest "cli-device-code" deviceCode) =
      some (id,row) := found
    rw [some_]
    obtain ⟨held,code⟩ := getAuthorizationByDeviceCode_ok found
    have stored : ∀ chosen : AuthorizationRow → Bool, authorizationIn db id chosen = chosen row := authorizationIn_of held
    refine databaseTime_bind_ends faults ?_
    unfold Module.pollGrant
    split
    next late => exact execute_bind_ends faults (settle_ends ⟨rfl,.expired id row held code late.1 late.2⟩)
    next early =>
      split
      next status =>
        have advanced : ∀ seconds code, code = .slowDown ∨ code = .authorizationPending →
            Tx.Ends (do
              advanceCLIPoll id seconds
              settle ⟨code,seconds⟩) world (((Draft.start db).add []).add []) fun result work => work.base = db ∧
                Polls m db world deviceCode requestID result work.writes := by
          intro seconds code why
          refine statement_bind_ends (fun retryable => faults retryable _ rfl) fun a writes answer => ?_
          split at answer
          next =>
            cases answer
            exact settle_ends ⟨rfl,.waiting id row held status code why _ _⟩
          next => cases answer
        dsimp only [Module.pollPending]
        split
        next => exact advanced _ _ (.inl rfl)
        next => exact advanced _ _ (.inr rfl)
      next => exact refuse_ends ⟨rfl,nothing (by decide)⟩
      next status => exact refuse_ends ⟨rfl,.refused _ fun _ => ⟨id,row,held,code,status⟩⟩
      next => exact refuse_ends ⟨rfl,nothing (by decide)⟩
      next status =>
        have early : world.clock 1 < row.expiresAt := by
          rw [status] at early
          simp only [ne_eq,reduceCtorEq,not_false_eq_true,and_true,not_le] at early
          exact early
        unfold Module.pollApproved
        split
        next => exact refuse_ends ⟨rfl,nothing (by decide)⟩
        next userID approved =>
          refine query_bind_ends faults ?_
          cases known : db.users.lookup userID with
          | none =>
            have none_ : getUser (Draft.db (((Draft.start db).add []).add [])) userID = none := known
            rw [none_]
            exact faulty_ends (faults _ _ rfl)
          | some user =>
            have some_ : getUser (Draft.db (((Draft.start db).add []).add [])) userID = some user := known
            rw [some_]
            dsimp only
            split
            next =>
              have live_ : authorizationIn (Draft.db ((((Draft.start db).add []).add []).add [])) id live = true := by
                have chosen := stored live
                simp only [live,status] at chosen
                exact chosen
              refine execute_bind_ends faults ?_
              rw [if_pos live_]
              exact settle_ends ⟨rfl,.disabled id row held status⟩
            next active =>
              refine drawn_bind_ends faults (newSecret_bind_ends faults (insertion_bind_ends faults fun allowed => ?_))
              refine execute_bind_ends faults ?_
              split
              next =>
                exact audit_bind_ends faults (pure_ends ⟨rfl,.issued id row held code status early userID approved user known
                  (not_not.mp active) _ rfl rfl _ _ allowed⟩)
              next other =>
                have chosen := stored fun row => row.status = .approvedUnclaimed
                rw [status] at chosen
                exact absurd chosen other

end CLI
end Sessions
end ATape.Authentication
