import ATape.Authentication.Outcomes

/-! What the transactions of a federated login come to. -/
namespace ATape.Authentication
open Foundation

def Write.login : Write → Option String
  | .insertFederatedLogin id _ => some id
  | .claimFederatedLogin id => some id
  | .finishFederatedLogin id _ _ _ => some id
  | _ => none

def Write.sessions : Write → List String
  | .insertWebSession id _ => [id]
  | .touchWebSession id _ => [id]
  | .terminalWebSession id _ _ _ => [id]
  | .revokeWebSessions ids _ _ => ids
  | .reauthenticateWebSession id _ _ => [id]
  | .insertWebSessionSecret id _ _ => [id]
  | .supersedeWebSessionSecret id _ => [id]
  | _ => []

structure Spares (writes : List Write) (sessions : List String) : Prop where
  logins : ∀ write ∈ writes, write.login = none
  others : ∀ write ∈ writes, ∀ id ∈ write.sessions, id ∈ sessions

theorem Spares.nil {sessions : List String} : Spares [] sessions :=
  ⟨List.forall_mem_nil _,List.forall_mem_nil _⟩

theorem Spares.append {first second : List Write} {sessions : List String} (left : Spares first sessions)
    (right : Spares second sessions) : Spares (first++second) sessions :=
  ⟨List.forall_mem_append.mpr ⟨left.logins,right.logins⟩,List.forall_mem_append.mpr ⟨left.others,right.others⟩⟩

theorem Spares.one {write : Write} {sessions : List String} (login : write.login = none)
    (own : ∀ id ∈ write.sessions, id ∈ sessions) : Spares [write] sessions :=
  ⟨List.forall_mem_singleton.mpr login,List.forall_mem_singleton.mpr own⟩

theorem Spares.mono {writes : List Write} {few many : List String} (spares : Spares writes few)
    (subset : ∀ id ∈ few, id ∈ many) : Spares writes many :=
  ⟨spares.logins,fun write inside id own => subset id (spares.others write inside id own)⟩

theorem Write.apply_logins {write : Write} (other : write.login = none) (db : Database) :
    (write.apply db).logins = db.logins := by
  cases write with
  | insertFederatedLogin id row => cases other
  | claimFederatedLogin id => cases other
  | finishFederatedLogin id status failureCode now => cases other
  | _ => rfl

theorem Spares.kept {writes : List Write} {sessions : List String} (spares : Spares writes sessions) (db : Database) :
    (drafted db writes).logins = db.logins := by
  have logins := spares.logins
  clear spares
  induction writes generalizing db with
  | nil => rfl
  | cons write writes ih =>
    obtain ⟨other,others⟩ := List.forall_mem_cons.mp logins
    exact (ih (write.apply db) others).trans (write.apply_logins other db)

section Federated
variable {m : Module} {db : Database} {world : World}

theorem loginIn_of {id : String} {row : LoginRow} (held : db.logins.lookup id = some row) (chosen : LoginRow → Bool) :
    loginIn db id chosen = chosen row := by
  rw [loginIn,held,Option.any_some]

theorem getFederatedLogin_ok {digest id : String} {row : LoginRow} (found : getFederatedLogin db digest = some (id,row)) :
    db.logins.lookup id = some row ∧ row.stateDigest = digest := by
  have chosen := List.find?_some found
  exact ⟨(Table.mem_rows _ _ _).mp (List.mem_of_find?_eq_some found),by simpa using chosen⟩

inductive Claims (m : Module) (db : Database) (world : World) (input : Module.CompleteFederatedLoginInput) :
    Except (Halt Error) ClaimedFederatedLogin → List Write → Prop
  | fault (retryable writes) : Claims m db world input (.error (.fault retryable)) writes
  | refused (code : ErrorCode) (other : code ≠ .loginExpired) :
      Claims m db world input (.error (.refuse (domainError code))) []
  | expired (id : String) (row : LoginRow) (held : db.logins.lookup id = some row) (status : row.status = .pending)
      (state : row.stateDigest = m.stateDigest input.state) (late : row.expiresAt ≤ world.clock 1) (now : Int) :
      Claims m db world input (.error (.settle (domainError .loginExpired)))
        [.finishFederatedLogin id .expired "login_expired" now,
          .audit (Module.expireAudit id input.requestID row.registrationID)]
  | claimed (id : String) (row : LoginRow) (found : getFederatedLogin db (m.stateDigest input.state) = some (id,row))
      (status : row.status = .pending) (binding : row.browserBindingDigest = m.bindingDigest input.browserBinding)
      (early : world.clock 1 < row.expiresAt) (registration : Registration)
      (known : m.registration row.registrationID row.registrationRevision = some registration) (privateState : String)
      (opened : m.decryptPrivateState id row = .ok privateState) :
      Claims m db world input (.ok (Module.claimedOf id row registration privateState)) [.claimFederatedLogin id]

theorem claims (m : Module) (db : Database) (world : World) (input : Module.CompleteFederatedLoginInput) :
    (m.claimInTransaction input).Ends world (Draft.start db) fun result work =>
      work.base = db ∧ Claims m db world input result work.writes := by
  have faults : Faultless (fun result work => work.base = db ∧ Claims m db world input result work.writes) db :=
    fun retryable work same => ⟨same,.fault retryable work.writes⟩
  refine query_bind_ends faults ?_
  cases found : getFederatedLogin db (m.stateDigest input.state) with
  | none =>
    have none_ : getFederatedLogin (Draft.db (Draft.start db)) (m.stateDigest input.state) = none := found
    rw [none_]
    exact refuse_ends ⟨rfl,.refused _ (by decide)⟩
  | some match_ =>
    obtain ⟨id,row⟩ := match_
    have some_ : getFederatedLogin (Draft.db (Draft.start db)) (m.stateDigest input.state) = some (id,row) := found
    rw [some_]
    obtain ⟨held,state⟩ := getFederatedLogin_ok found
    dsimp only [Module.claimRow]
    split
    next => exact refuse_ends ⟨rfl,.refused _ (by decide)⟩
    next proof =>
      obtain ⟨binding,_⟩ := not_or.mp proof
      split
      next status =>
        refine databaseTime_bind_ends faults ?_
        split
        next late =>
          have opened : loginIn (Draft.db (((Draft.start db).add []).add [])) id openLogin = true := by
            have chosen := loginIn_of held openLogin
            simp only [openLogin,status] at chosen
            exact chosen
          refine execute_bind_ends faults ?_
          rw [if_pos opened]
          exact audit_bind_ends faults (settle_ends ⟨rfl,.expired id row held status state late _⟩)
        next early =>
          have early := Int.not_le.mp early
          unfold Module.claimRegistered
          split
          next => exact refuse_ends ⟨rfl,.refused _ (by decide)⟩
          next registration known =>
            split
            next => exact refuse_ends ⟨rfl,.refused _ (by decide)⟩
            next =>
              unfold Module.claimOpened
              split
              next => exact refuse_ends ⟨rfl,.refused _ (by decide)⟩
              next =>
                split
                next failure _ => exact refuse_ends ⟨rfl,.refused _ (by cases failure <;> decide)⟩
                next privateState opened =>
                  refine execute_bind_ends faults ?_
                  split
                  next =>
                    exact pure_ends ⟨rfl,.claimed id row found status (not_not.mp binding) early registration known privateState opened⟩
                  next => exact refuse_ends ⟨rfl,.refused _ (by decide)⟩
      next => exact refuse_ends ⟨rfl,.refused _ (by decide)⟩

/-- What is written of a login that fails. -/
def failWrites (claimed : ClaimedFederatedLogin) (code : ErrorCode) (requestID : String) (db : Database) (now : Int) :
    List Write :=
  (if loginIn db claimed.id fun row => row.status = .completing
    then [.finishFederatedLogin claimed.id (Module.failureStatus code) code.text now] else [])++
    [.audit (Module.failureAudit claimed code requestID)]

theorem recordFailure_ends {claimed : ClaimedFederatedLogin} {code : ErrorCode} {requestID : String}
    {work : Draft Database Write} {Q : Except (Halt Error) Unit → Draft Database Write → Prop} (faults : Faultless Q work.base)
    (done : ∀ work', work'.base = work.base →
      work'.writes = work.writes++failWrites claimed code requestID work.db (world.clock work.step) → Q (.ok ()) work') :
    (Module.recordFederatedFailure claimed code requestID).Ends world work Q := by
  refine execute_bind_ends faults (audit_ends faults (done _ rfl ?_))
  simp [Draft.add,failWrites]

theorem fail_ends {claimed : ClaimedFederatedLogin} {code : ErrorCode} {requestID : String} {work : Draft Database Write}
    {Q : Except (Halt Error) WebSessionGrant → Draft Database Write → Prop} (faults : Faultless Q work.base)
    (done : ∀ work', work'.base = work.base →
      work'.writes = work.writes++failWrites claimed code requestID work.db (world.clock work.step) →
      Q (.error (.settle (domainError code))) work') :
    (Module.failFederatedInTransaction claimed code requestID).Ends world work Q :=
  bind_ends (recordFailure_ends (fun retryable work same => faults retryable work same)
    fun work' base writes => settle_ends (done work' base writes))

/-! Identities. -/

/-- An error of an identity was given before anything was written. -/
def Identified {α : Type} (world : World) (work : Draft Database Write) (x : Transaction (Except ErrorCode α)) : Prop :=
  ∀ Q : Except (Halt Error) (Except ErrorCode α) → Draft Database Write → Prop, Faultless Q work.base →
    (∀ code work', work'.base = work.base → work'.writes = work.writes → Q (.ok (.error code)) work') →
    (∀ a work' writes, work'.base = work.base → work'.writes = work.writes++writes → Spares writes [] → Q (.ok (.ok a)) work') →
    x.Ends world work Q

theorem refreshIdentity_bind_ends {β : Type} {id : String} {identity : VerifiedExternalIdentity} {work : Draft Database Write}
    {Q : Except (Halt Error) β → Draft Database Write → Prop} {f : Unit → Transaction β} (faults : Faultless Q work.base)
    (next : ∀ writes, Spares writes [] → (f ()).Ends world (work.add writes) Q) :
    (refreshExternalIdentity id identity >>= f).Ends world work Q := by
  refine execute_bind_ends faults (next _ ?_)
  split
  next => exact .one rfl fun _ inside => by cases inside
  next => exact .nil

theorem signIn_identified (identity : VerifiedExternalIdentity) (work : Draft Database Write) :
    Identified world work (Module.resolveSignInIdentity identity) := by
  intro Q faults wrong right
  refine query_bind_ends faults (query_bind_ends faults ?_)
  split
  next =>
    refine drawn_bind_ends faults (drawn_bind_ends faults (insertion_bind_ends faults fun _ => ?_))
    refine insertion_bind_ends faults fun _ => pure_ends (right _ _
      ([.insertUser (world.drawn (work.step+2)) _]++[.insertExternalIdentity (world.drawn (work.step+3)) _]) rfl
      (by simp only [Draft.add,List.append_nil,List.append_assoc]; rfl) (.append (.one rfl ?_) (.one rfl ?_)))
    · exact List.forall_mem_nil _
    · exact List.forall_mem_nil _
  next id row _ =>
    unfold Module.signInKnown
    split
    next => exact pure_ends (wrong _ _ rfl (by simp [Draft.add]))
    next =>
      refine query_bind_ends faults ?_
      split
      next => exact faulty_ends (faults _ _ rfl)
      next user _ =>
        split
        next => exact pure_ends (wrong _ _ rfl (by simp [Draft.add]))
        next =>
          refine bind_ends (refreshIdentity_bind_ends (fun retryable work same => faults retryable work same) ?_)
          intro writes spares
          split
          next =>
            refine execute_bind_ends (fun retryable work same => faults retryable work same)
              (pure_ends (pure_ends (right _ _ _ rfl (by simp [Draft.add]; rfl) (spares.append ?_))))
            split
            next => exact .one rfl fun _ inside => by cases inside
            next => exact .nil
          next => exact pure_ends (pure_ends (right _ _ _ rfl (by simp [Draft.add]) spares))

theorem identify_identified (reauthenticate : Bool) (userID : String) (identity : VerifiedExternalIdentity)
    (work : Draft Database Write) : Identified world work (Module.identify reauthenticate userID identity) := by
  intro Q faults wrong right
  unfold Module.identify
  split
  next =>
    refine query_bind_ends faults (query_bind_ends faults ?_)
    split
    next => exact pure_ends (wrong _ _ rfl (by simp [Draft.add]))
    next =>
      split
      next => exact pure_ends (wrong _ _ rfl (by simp [Draft.add]))
      next =>
        exact refreshIdentity_bind_ends faults fun writes spares =>
          pure_ends (right _ _ writes rfl (by simp [Draft.add]) spares)
  next =>
    refine query_bind_ends faults (query_bind_ends faults ?_)
    split
    next =>
      refine drawn_bind_ends faults (insertion_bind_ends faults fun _ => pure_ends (right _ _ _ rfl (by simp [Draft.add]; rfl) ?_))
      exact .one rfl fun _ inside => by cases inside
    next =>
      split
      next => exact pure_ends (wrong _ _ rfl (by simp [Draft.add]))
      next =>
        exact refreshIdentity_bind_ends faults fun writes spares =>
          pure_ends (right _ _ writes rfl (by simp [Draft.add]) spares)

/-! Grants. -/

theorem newSession_ends {user : User} {requestID registrationID initiatorID returnTo : String} {work : Draft Database Write}
    {Q : Except (Halt Error) WebSessionGrant → Draft Database Write → Prop} (faults : Faultless Q work.base)
    (done : ∀ grant work' writes, work'.base = work.base → work'.writes = work.writes++writes →
      Spares writes [grant.session.id] → Q (.ok grant) work') :
    (m.newWebSessionInTransaction user requestID registrationID initiatorID returnTo).Ends world work Q := by
  refine drawn_bind_ends faults (newSecret_bind_ends faults (insertion_bind_ends faults fun _ => ?_))
  refine insertion_bind_ends faults fun _ => audit_bind_ends faults (pure_ends ?_)
  refine done _ _ ([.insertWebSession (world.drawn work.step) _]++([.insertWebSessionSecret (world.drawn work.step) 1 _]++
    [.audit _])) rfl (by simp only [Draft.add,List.append_nil,List.append_assoc]; rfl)
    (.append (.one rfl ?_) (.append (.one rfl ?_) (.one rfl ?_)))
  · exact fun id inside => inside
  · exact fun id inside => inside
  · exact List.forall_mem_nil _

section Rotation
variable {β : Type} {id : String} {work : Draft Database Write} {Q : Except (Halt Error) β → Draft Database Write → Prop}

theorem supersede_bind_ends {f : Unit → Transaction β} (faults : Faultless Q work.base)
    (next : ∀ writes, Spares writes [id] → (f ()).Ends world (work.add writes) Q) :
    (Module.supersedeWebSessionSecret id >>= f).Ends world work Q := by
  refine execute_bind_ends faults (next _ ?_)
  split
  next => exact .one rfl fun _ inside => inside
  next => exact .nil

theorem refreshed_bind_ends {row : SessionRow} {reauthenticate : Bool} {f : SessionRow → Transaction β}
    (faults : Faultless Q work.base)
    (next : ∀ row work' writes, work'.base = work.base → work'.writes = work.writes++writes → Spares writes [id] →
      (f row).Ends world work' Q) : (m.refreshed id row reauthenticate >>= f).Ends world work Q := by
  unfold Module.refreshed
  split
  next =>
    refine bind_ends (execute_bind_ends (fun retryable work same => faults retryable work same) ?_)
    split
    next fresh answer =>
      refine pure_ends (next fresh _ _ rfl rfl ?_)
      split
      next =>
        split
        next => exact .one rfl fun _ inside => inside
        next => exact .nil
      next => exact .nil
    next => exact faulty_ends (faults _ _ rfl)
  next => exact bind_ends (pure_ends (next row work [] rfl (List.append_nil _).symm .nil))

end Rotation

theorem rotate_ends {user : User} {sessionID : String} {reauthenticate : Bool}
    {requestID registrationID initiatorID returnTo : String} {work : Draft Database Write}
    {Q : Except (Halt Error) WebSessionGrant → Draft Database Write → Prop} (faults : Faultless Q work.base)
    (done : ∀ grant work' writes, work'.base = work.base → work'.writes = work.writes++writes →
      Spares writes [sessionID] → grant.session.id = sessionID → Q (.ok grant) work') :
    (m.rotateWebSessionInTransaction user sessionID reauthenticate requestID registrationID initiatorID returnTo).Ends
      world work Q := by
  refine query_bind_ends faults ?_
  split
  next => exact faulty_ends (faults _ _ rfl)
  next generation _ =>
    refine supersede_bind_ends faults fun superseded first => newSecret_bind_ends faults ?_
    refine insertion_bind_ends faults fun _ => query_bind_ends faults ?_
    split
    next => exact faulty_ends (faults _ _ rfl)
    next row _ _ =>
      refine refreshed_bind_ends faults fun row work' renewed base writes second => ?_
      refine audit_bind_ends (fun retryable work same => faults retryable work (same.trans base)) (pure_ends (done _ _
        (superseded++([.insertWebSessionSecret sessionID (generation+1) _]++(renewed++[.audit _]))) base
        (by simp only [Draft.add,writes,List.append_nil,List.append_assoc]; rfl)
        (first.append (.append (.one rfl ?_) (second.append (.one rfl ?_)))) rfl))
      · exact fun id inside => inside
      · exact List.forall_mem_nil _

/-! Completions. -/

/-- The session from which a login was begun, as it may be used. -/
structure Initiating (m : Module) (db : Database) (claimed : ClaimedFederatedLogin) (sessionID : String) (now : Int) : Prop where
  named : claimed.initiatingSessionID = some sessionID
  session : ∃ row user, db.sessions.lookup sessionID = some row ∧ claimed.initiatingUserID.getD "" = row.userID ∧
    row.status = .active ∧ db.users.lookup row.userID = some user ∧ user.status = .active ∧
    now < row.absoluteExpiresAt ∧ now < m.idleDeadline row

/-- The session that a completion is of. -/
inductive GrantsOf (m : Module) (db : Database) (claimed : ClaimedFederatedLogin) (now : Int) : String → Prop
  | signIn (id : String) (intent : claimed.intent = .signIn) : GrantsOf m db claimed now id
  | initiating (id : String) (intent : claimed.intent ≠ .signIn) (initiating : Initiating m db claimed id now) :
      GrantsOf m db claimed now id

inductive Completes (m : Module) (db : Database) (world : World) (state requestID : String)
    (claimed : ClaimedFederatedLogin) : Except (Halt Error) WebSessionGrant → List Write → Prop
  | fault (retryable writes) : Completes m db world state requestID claimed (.error (.fault retryable)) writes
  | consumed : Completes m db world state requestID claimed (.error (.refuse (domainError .loginAlreadyConsumed))) []
  | failed (row : LoginRow) (held : db.logins.lookup claimed.id = some row) (status : row.status = .completing)
      (presented : row.stateDigest = m.stateDigest state) (code : ErrorCode) (now : Int) :
      Completes m db world state requestID claimed (.error (.settle (domainError code)))
        (failWrites claimed code requestID db now)
  | granted (row : LoginRow) (held : db.logins.lookup claimed.id = some row) (status : row.status = .completing)
      (presented : row.stateDigest = m.stateDigest state) (early : world.clock 1 < row.expiresAt) (grant : WebSessionGrant)
      (writes : List Write) (spares : Spares writes [grant.session.id])
      (session : GrantsOf m db claimed (world.clock 1) grant.session.id) (now : Int) :
      Completes m db world state requestID claimed (.ok grant)
        (writes++[.finishFederatedLogin claimed.id .completed "" now,.audit (Module.completeAudit claimed requestID grant)])

theorem validateInitiating_ends {claimed : ClaimedFederatedLogin} {requireFresh : Bool} {now : Int}
    {work : Draft Database Write} {Q : Except (Halt Error) (Except ErrorCode User) → Draft Database Write → Prop}
    (faults : Faultless Q work.base)
    (wrong : ∀ code work', work'.base = work.base → work'.writes = work.writes++[] → Q (.ok (.error code)) work')
    (right : ∀ user sessionID work', work'.base = work.base → work'.writes = work.writes++[] →
      Initiating m work.db claimed sessionID now → Q (.ok (.ok user)) work') :
    (m.validateInitiatingSession claimed requireFresh now).Ends world work Q := by
  have nothing : work.writes = work.writes++[] := (List.append_nil _).symm
  unfold Module.validateInitiatingSession
  split
  next => exact pure_ends (wrong _ _ rfl nothing)
  next sessionID named =>
    refine query_bind_ends faults ?_
    split
    next => exact pure_ends (wrong _ _ rfl rfl)
    next row found =>
      obtain ⟨held,known⟩ := getWebSession_ok found
      split
      next => exact pure_ends (wrong _ _ rfl rfl)
      next none_ =>
        have none_ : m.sessionError row (claimed.initiatingUserID.getD "") now = none := by
          unfold Module.initiatorError at none_
          split at none_
          next => cases none_
          next same => exact same
        obtain ⟨same,active,user,absolute,idle⟩ := sessionError_none none_
        exact pure_ends (right _ sessionID _ rfl rfl ⟨named,row.1,row.2,held,same.symm,active,known,user,absolute,idle⟩)

section Completing
variable {claimed : ClaimedFederatedLogin} {row : LoginRow} {state requestID : String}

theorem completed_ends {grant : WebSessionGrant} {work : Draft Database Write} {writes : List Write}
    (held : db.logins.lookup claimed.id = some row) (status : row.status = .completing)
    (presented : row.stateDigest = m.stateDigest state) (early : world.clock 1 < row.expiresAt)
    (base : work.base = db) (wrote : work.writes = writes) (spares : Spares writes [grant.session.id])
    (session : GrantsOf m db claimed (world.clock 1) grant.session.id) :
    (Module.completed claimed requestID grant).Ends world work fun result work =>
      work.base = db ∧ Completes m db world state requestID claimed result work.writes := by
  have faults : Faultless (fun result work => work.base = db ∧
      Completes m db world state requestID claimed result work.writes) work.base :=
    fun retryable work same => ⟨same.trans base,.fault retryable work.writes⟩
  have completing : loginIn work.db claimed.id (fun row => row.status = .completing) = true := by
    rw [loginIn,Draft.db,wrote,base,spares.kept,held,Option.any_some,status]
    rfl
  refine execute_bind_ends faults ?_
  rw [if_pos completing]
  refine audit_bind_ends faults (pure_ends ⟨base,?_⟩)
  simp only [Draft.add,wrote,List.append_nil,List.append_assoc]
  exact .granted row held status presented early grant writes spares session _

theorem failed_ends {code : ErrorCode} {work : Draft Database Write} (held : db.logins.lookup claimed.id = some row)
    (status : row.status = .completing) (presented : row.stateDigest = m.stateDigest state) (base : work.base = db)
    (wrote : work.writes = []) :
    (Module.failFederatedInTransaction claimed code requestID).Ends world work fun result work =>
      work.base = db ∧ Completes m db world state requestID claimed result work.writes := by
  refine fail_ends (fun retryable work same => ⟨same.trans base,.fault retryable work.writes⟩) fun work' base' writes => ?_
  have same : work.db = db := by
    rw [Draft.db,wrote,base]
    rfl
  rw [writes,wrote,same]
  exact ⟨base'.trans base,.failed row held status presented code _⟩

theorem completes (m : Module) (db : Database) (world : World) (state requestID : String) (claimed : ClaimedFederatedLogin)
    (identity : VerifiedExternalIdentity) :
    (m.completeInTransaction state requestID claimed identity).Ends world (Draft.start db) fun result work =>
      work.base = db ∧ Completes m db world state requestID claimed result work.writes := by
  have faults : Faultless (fun result work => work.base = db ∧
      Completes m db world state requestID claimed result work.writes) db :=
    fun retryable work same => ⟨same,.fault retryable work.writes⟩
  refine query_bind_ends faults ?_
  cases found : getFederatedLogin db (m.stateDigest state) with
  | none =>
    have none_ : getFederatedLogin (Draft.db (Draft.start db)) (m.stateDigest state) = none := found
    rw [none_]
    exact faulty_ends (faults _ _ rfl)
  | some match_ =>
    obtain ⟨id,row⟩ := match_
    have some_ : getFederatedLogin (Draft.db (Draft.start db)) (m.stateDigest state) = some (id,row) := found
    rw [some_]
    obtain ⟨held,presented⟩ := getFederatedLogin_ok found
    dsimp only [Module.completeRow]
    split
    next => exact refuse_ends ⟨rfl,.consumed⟩
    next own =>
      obtain ⟨status,same⟩ := not_or.mp own
      have status := not_not.mp status
      obtain rfl := not_not.mp same
      refine databaseTime_bind_ends faults ?_
      split
      next => exact failed_ends held status presented rfl rfl
      next early =>
        have early := Int.not_le.mp early
        have forSession : ∀ reauthenticate, claimed.intent ≠ .signIn →
            (m.completeForSession claimed requestID identity reauthenticate (world.clock 1)).Ends world
              (((Draft.start db).add []).add []) fun result work =>
                work.base = db ∧ Completes m db world state requestID claimed result work.writes := by
          intro reauthenticate intent
          refine bind_ends (validateInitiating_ends (fun retryable work same => faults retryable work same) ?_ ?_)
          · exact fun code work base writes => failed_ends held status presented base writes
          · intro user sessionID work base writes initiating
            refine bind_ends (identify_identified reauthenticate user.id identity work _
              (fun retryable work same => faults retryable work (same.trans base)) ?_ ?_)
            · exact fun code work' base' writes' => failed_ends held status presented (base'.trans base) (writes'.trans writes)
            · intro _ work' identified base' writes' spares
              have session : claimed.initiatingSessionID.getD "" = sessionID := by rw [initiating.named,Option.getD_some]
              dsimp only [Module.rotateInitiating]
              rw [session]
              refine bind_ends (rotate_ends
                (fun retryable work same => faults retryable work (same.trans (base'.trans base))) ?_)
              intro grant work'' rotated base'' writes'' spares' id
              have all : work''.writes = identified++rotated := by rw [writes'',writes',writes]; rfl
              refine completed_ends held status presented early (base''.trans (base'.trans base)) all ?_ ?_
              · rw [id]
                exact (spares.mono fun _ inside => by cases inside).append spares'
              · rw [id]
                exact .initiating sessionID intent initiating
        unfold Module.completeIntent
        split
        next intent =>
          refine bind_ends (signIn_identified identity _ _ (fun retryable work same => faults retryable work same) ?_ ?_)
          · exact fun code work base writes => failed_ends held status presented base writes
          · intro user work identified base writes spares
            refine bind_ends (newSession_ends (fun retryable work same => faults retryable work (same.trans base)) ?_)
            intro grant work' created base' writes' spares'
            have all : work'.writes = identified++created := by rw [writes',writes]; rfl
            exact completed_ends held status presented early (base'.trans base) all
              ((spares.mono fun _ inside => by cases inside).append spares') (.signIn _ intent)
        next intent => exact forSession false (by rw [intent]; decide)
        next intent => exact forSession true (by rw [intent]; decide)

end Completing
end Federated
end ATape.Authentication
