import ATape.Authentication.Calls
import ATape.Authentication.Completion

/-! Errors and what they leave behind. A call that returns an error of its own has either written
nothing or committed what belongs to the error. -/
namespace ATape.Authentication
open Foundation

/-- The writes that belong to an error. A login fails behind its claim. -/
inductive Belongs (m : Module) : Error → List Write → Prop
  | absoluteExpired (id : String) (now : Int) :
      Belongs m (domainError .sessionAbsoluteExpired) (expiryWrites id .absoluteExpired "absolute_lifetime" now)
  | idleExpired (id : String) (now : Int) :
      Belongs m (domainError .sessionIdleExpired) (expiryWrites id .idleExpired "idle_timeout" now)
  | loginClaimed (error : Error) (id : String) : Belongs m error [.claimFederatedLogin id]
  | loginExpired (id requestID registrationID : String) (now : Int) : Belongs m (domainError .loginExpired)
      [.finishFederatedLogin id .expired "login_expired" now,.audit (Module.expireAudit id requestID registrationID)]
  | loginFailed (claimed : ClaimedFederatedLogin) (code : ErrorCode) (requestID : String) (db : Database) (now : Int) :
      Belongs m (domainError code) (failWrites claimed code requestID db now)
  | codeFailed (v : Module.ValidatedWebPrincipal) (requestID : String) (db : Database) (expired : List Write)
      (marks : expired = [] ∨ ∃ id now, expired = [.expireCLIAuthorization id now]) :
      Belongs m (failureError m v db) (expired++failureWrites m v requestID db)
  | codeAmbiguous (v : Module.ValidatedWebPrincipal) (requestID : String) :
      Belongs m (domainError .misconfigured) [.audit (Module.ambiguousAudit v requestID)]
  | authorizationExpired (id : String) (now : Int) : Belongs m (domainError .expiredToken) [.expireCLIAuthorization id now]
  | authorizationWaits (id : String) (code : ErrorCode) (why : code = .slowDown ∨ code = .authorizationPending)
      (nextPollAt seconds : Int) : Belongs m ⟨code,seconds⟩ [.advanceCLIPoll id nextPollAt seconds]
  | approverDisabled (id : String) (now : Int) : Belongs m (domainError .accessDenied) [.expireCLIAuthorization id now]

/-- What a call reports as expired is recorded as expired. Reviews and principals record no expiry of
a session. -/
def Recorded (m : Module) (code : ErrorCode) (base after : Database) : Call → Prop
  | .authenticateWeb secret _ _ => ∀ status : SessionStatus, code = .sessionAbsoluteExpired ∧ status = .absoluteExpired ∨
      code = .sessionIdleExpired ∧ status = .idleExpired → ∃ row session,
        getWebAuthentication base (m.secretDigest secret) = some row ∧ after.sessions.lookup row.id = some session ∧
        session.status = status
  | .completeFederatedLogin input _ _ _ => code = .loginExpired → ∃ id row, after.logins.lookup id = some row ∧
      row.stateDigest = m.stateDigest input.state ∧ row.status = .expired
  | .resolveCLIDeviceAuthorization _ _ _ _ => True
  | .decideCLIDeviceAuthorization _ id _ _ _ => code = .expiredToken → ∃ databaseID row, m.parseUUID id = some databaseID ∧
      after.authorizations.lookup databaseID = some row ∧ row.status = .expired
  | .pollCLIDeviceAuthorization deviceCode _ _ _ => code = .expiredToken → ∃ id row,
      after.authorizations.lookup id = some row ∧ row.deviceCodeDigest = m.highEntropyDigest "cli-device-code" deviceCode ∧
      row.status = .expired

/-- An error is durable when each transaction wrote nothing or committed what belongs to it. The
attempts that were made again were rolled back. -/
structure Durable (m : Module) (call : Call) (error : Error) (trace : Trace) : Prop where
  retried : ∀ ended ∈ trace, ∀ attempt ∈ ended.dropLast, attempt.applied = false
  effects : ∀ ended ∈ trace, ∀ last ∈ ended.getLast?,
    last.work.writes = [] ∨ last.applied = true ∧ Belongs m error last.work.writes
  recorded : ∀ ended ∈ trace.getLast?, ∀ last ∈ ended.getLast?, Recorded m error.code last.work.base last.after call

def lastTry (tries : Tries) (ended : List (Ended Database Write)) : Option (Attempt Database) := tries[ended.length-1]?

/-- The secret is the current one of an active session past its absolute deadline. -/
def Overdue (m : Module) (secret : String) (attempt : Attempt Database) : Prop :=
  ∃ row, getWebAuthentication attempt.base (m.secretDigest secret) = some row ∧ row.user.status = .active ∧
    row.session.status = .active ∧ row.session.absoluteExpiresAt ≤ attempt.world.clock 1

/-- The record of a failed login is interrupted behind its first write. -/
def Interrupted (m : Module) (input : Module.CompleteFederatedLoginInput)
    (answer : ClaimedFederatedLogin → Except ProviderFailure VerifiedExternalIdentity) (claim last : Attempt Database) : Prop :=
  ∃ id row registration privateState code, getFederatedLogin claim.base (m.stateDigest input.state) = some (id,row) ∧
    m.registration row.registrationID row.registrationRevision = some registration ∧
    m.decryptPrivateState id row = .ok privateState ∧
    m.providerAnswer (Module.claimedOf id row registration privateState)
      (answer (Module.claimedOf id row registration privateState)) = .error code ∧
    loginIn last.base id (fun row => row.status = .completing) = true ∧ last.world.fault 0 = none ∧
    (last.world.fault 1 ≠ none ∨ last.world.fault 2 ≠ none ∨
      (Module.failureAudit (Module.claimedOf id row registration privateState) code input.requestID).bounded = false)

/-- The calls that undo what they have written. -/
def Undoing (m : Module) (trace : Trace) : Call → Prop
  | .authenticateWeb secret _ tries => ∃ ended attempt, trace = [ended] ∧ lastTry tries ended = some attempt ∧
      Overdue m secret attempt
  | .completeFederatedLogin input claiming answer ending => ∃ first second claim last, trace = [first,second] ∧
      lastTry claiming first = some claim ∧ lastTry ending second = some last ∧ Interrupted m input answer claim last
  | _ => False

section Durability
variable {m : Module} {call : Call} {error : Error}

theorem durable_nil : Durable m call error [] :=
  ⟨List.forall_mem_nil _,List.forall_mem_nil _,fun _ inside => by cases inside⟩

theorem durable_one {earlier : List (Ended Database Write)} {last : Ended Database Write}
    (undone : ∀ attempt ∈ earlier, attempt.applied = false) : Durable m call error [earlier++[last]] ↔
      (last.work.writes = [] ∨ last.applied = true ∧ Belongs m error last.work.writes) ∧
        Recorded m error.code last.work.base last.after call := by
  constructor
  · intro durable
    exact ⟨durable.effects _ (List.mem_singleton_self _) last (by simp),durable.recorded _ rfl last (by simp)⟩
  · rintro ⟨effects,recorded⟩
    refine ⟨?_,?_,?_⟩
    · simpa using undone
    · simpa using effects
    · simpa using recorded

theorem durable_claimed {earlier second : List (Ended Database Write)} {id : String} {base : Database} {step : ℕ}
    (undone : ∀ attempt ∈ earlier, attempt.applied = false) :
    Durable m call error [earlier++[⟨⟨base,[.claimFederatedLogin id],step⟩,true⟩],second] ↔ Durable m call error [second] := by
  constructor
  · intro durable
    exact ⟨fun ended inside => durable.retried ended (List.mem_cons_of_mem _ inside),
      fun ended inside => durable.effects ended (List.mem_cons_of_mem _ inside),durable.recorded⟩
  · intro durable
    refine ⟨List.forall_mem_cons.mpr ⟨?_,durable.retried⟩,List.forall_mem_cons.mpr ⟨?_,durable.effects⟩,durable.recorded⟩
    · simpa using undone
    · simp [Belongs.loginClaimed]

theorem inTransaction_made {α : Type} {checked : Except Error (Transaction α)} {tries : Tries} {reply : Reply Error α}
    {trace : Trace} (commits : ∀ attempt ∈ tries, attempt.commit = .done) (given : inTransaction checked tries = (reply,trace))
    (some_ : reply ≠ .failed) : (∃ error, checked = .error error ∧ trace = []) ∨ ∃ x ended attempt result work,
      checked = .ok x ∧ trace = [ended] ∧ Made x tries reply ended attempt result work := by
  unfold inTransaction at given
  split at given
  next error =>
    cases given
    exact .inl ⟨error,rfl,rfl⟩
  next x =>
    cases run : withTransaction x tries with
    | mk reply' ended =>
      rw [run] at given
      cases given
      have tried : tries ≠ [] := by
        rintro rfl
        cases run
        exact some_ rfl
      obtain ⟨attempt,result,work,made⟩ := withTransaction_made commits run tried
      exact .inr ⟨x,ended,attempt,result,work,rfl,rfl,made⟩

theorem lastTry_append {tries : Tries} {earlier : List (Ended Database Write)} {last : Ended Database Write} :
    lastTry tries (earlier++[last]) = tries[earlier.length]? := by
  rw [lastTry,List.length_append,List.length_singleton,Nat.add_sub_cancel]

/-! Sessions. -/

theorem after_expiry {db : Database} {id reason : String} {status : SessionStatus} {now : Int} {row : SessionRow}
    (held : db.sessions.lookup id = some row) :
    (drafted db (expiryWrites id status reason now)).sessions.lookup id = some (terminal row status reason now) := by
  have renewed : (drafted db (expiryWrites id status reason now)).sessions =
    Table.modify id (fun row => terminal row status reason now) db.sessions := rfl
  rw [renewed,Table.lookup_modify,if_pos rfl,held,Option.map_some]

theorem authenticate_durable {secret : String} {requireFresh : Bool} {tries : Tries} {trace : Trace}
    (commits : ∀ attempt ∈ tries, attempt.commit = .done)
    (given : Call.answer m (.authenticateWeb secret requireFresh tries) = (some error,trace)) :
    Durable m (.authenticateWeb secret requireFresh tries) error trace ↔
      ¬Undoing m trace (.authenticateWeb secret requireFresh tries) := by
  dsimp only [Call.answer] at given
  cases run : inTransaction (m.authenticateWeb secret requireFresh) tries with
  | mk reply trace' =>
    rw [run] at given
    obtain ⟨told,rfl⟩ := Prod.mk.inj given
    have some_ : reply ≠ .failed := by
      rintro rfl
      cases told
    obtain ⟨_,_,rfl⟩|⟨x,ended,attempt,result,work,checked,rfl,made⟩ := inTransaction_made commits run some_
    · simp [durable_nil,Undoing]
    · obtain ⟨earlier,rfl,last,undone⟩ := made.trace
      unfold Module.authenticateWeb at checked
      split at checked
      next => cases checked
      next =>
        cases checked
        obtain ⟨base,ends⟩ := (authenticates m attempt.base attempt.world secret requireFresh true).of_run made.run
        have undo : Undoing m [earlier++[⟨work,kept result⟩]] (.authenticateWeb secret requireFresh tries) ↔
            Overdue m secret attempt := by
          simp [Undoing,lastTry_append,last]
        rw [durable_one undone,undo]
        obtain ⟨_,writes,step⟩ := work
        obtain rfl : _ = attempt.base := base
        dsimp only at ends
        have overdue : ∀ row, getWebAuthentication attempt.base (m.secretDigest secret) = some row →
            (Overdue m secret attempt ↔ row.user.status = .active ∧ row.session.status = .active ∧
              row.session.absoluteExpiresAt ≤ attempt.world.clock 1) := by
          intro row found
          simp [Overdue,found]
        rw [made.reply] at told
        cases ends with
        | fault retryable writes => cases told
        | unknown none_ =>
          cases told
          simp [Overdue,none_,Recorded,domainError]
        | refused row found code why =>
          cases told
          refine iff_of_true ⟨.inl rfl,?_⟩ ?_
          · rintro status (⟨rfl,-⟩|⟨rfl,rfl⟩)
            · simp at why
            · simp only [reduceCtorEq,false_and,true_and,false_or,or_false] at why
              exact ⟨row,row.session,found,(getWebAuthentication_ok found).session,why⟩
          · rw [overdue row found]
            rintro ⟨user,active,late⟩
            rcases why with ⟨-,disabled⟩|⟨-,revoked⟩|⟨-,idle⟩|⟨-,-,early⟩
            · exact disabled user
            · simp [active] at revoked
            · simp [active] at idle
            · exact Int.not_lt.mpr late early
        | ended row found status =>
          cases told
          refine iff_of_true ⟨.inl rfl,?_⟩ ?_
          · rintro status' (⟨-,rfl⟩|⟨other,-⟩)
            · exact ⟨row,row.session,found,(getWebAuthentication_ok found).session,status⟩
            · cases other
          · rw [overdue row found,status]
            simp
        | absolute row found user status late =>
          cases told
          refine iff_of_false ?_ ?_
          · rintro ⟨effects|⟨applied,-⟩,-⟩
            · cases effects
            · cases applied
          · exact not_not_intro ((overdue row found).mpr ⟨user,status,late⟩)
        | idle row found user status early late =>
          cases told
          refine iff_of_true ⟨.inr ⟨rfl,.idleExpired _ _⟩,?_⟩ ?_
          · rintro status' (⟨other,-⟩|⟨-,rfl⟩)
            · cases other
            · exact ⟨row,_,found,after_expiry (getWebAuthentication_ok found).session,rfl⟩
          · rw [overdue row found]
            rintro ⟨-,-,late⟩
            exact Int.not_lt.mpr late early
        | ok => cases told

/-! Authorizations. -/

theorem resolve_durable {caller : Principal} {userCode requestID : String} {tries : Tries} {trace : Trace}
    (commits : ∀ attempt ∈ tries, attempt.commit = .done)
    (given : Call.answer m (.resolveCLIDeviceAuthorization caller userCode requestID tries) = (some error,trace)) :
    Durable m (.resolveCLIDeviceAuthorization caller userCode requestID tries) error trace := by
  dsimp only [Call.answer] at given
  cases run : inTransaction (m.resolveCLIDeviceAuthorization caller userCode requestID) tries with
  | mk reply trace' =>
    rw [run] at given
    obtain ⟨told,rfl⟩ := Prod.mk.inj given
    have some_ : reply ≠ .failed := by
      rintro rfl
      cases told
    obtain ⟨_,_,rfl⟩|⟨x,ended,attempt,result,work,checked,rfl,made⟩ := inTransaction_made commits run some_
    · exact durable_nil
    · obtain ⟨earlier,rfl,-,undone⟩ := made.trace
      unfold Module.resolveCLIDeviceAuthorization at checked
      split at checked
      next => cases checked
      next =>
        cases checked
        obtain ⟨-,ends⟩ := (resolves m attempt.base attempt.world caller userCode requestID).of_run made.run
        refine (durable_one undone).mpr ⟨?_,trivial⟩
        obtain ⟨_,writes,step⟩ := work
        dsimp only at ends
        rw [made.reply] at told
        cases ends with
        | fault retryable writes => cases told
        | refused code => exact .inl rfl
        | blocked now => exact .inl rfl
        | ambiguous v =>
          cases told
          exact .inr ⟨rfl,.codeAmbiguous v requestID⟩
        | invalid v expired marks =>
          cases told
          refine .inr ⟨rfl,.codeFailed v requestID _ expired ?_⟩
          rcases marks with nothing|⟨id,row,now,-,-,rfl⟩
          · exact .inl nothing
          · unfold expireWrites
            split
            next => exact .inr ⟨id,now,rfl⟩
            next => exact .inl rfl
        | seen view => cases told
        | bound => cases told

theorem after_expire {db : Database} {id : String} {row : AuthorizationRow} {now : Int}
    (held : db.authorizations.lookup id = some row) (status : row.status ≠ .claimed ∧ row.status ≠ .denied) :
    ∃ row', (drafted db (expireWrites db id now)).authorizations.lookup id = some row' ∧
      row'.deviceCodeDigest = row.deviceCodeDigest ∧ row'.status = .expired := by
  unfold expireWrites
  rw [authorizationIn_of held]
  split
  next =>
    have renewed : (drafted db [.expireCLIAuthorization id now]).authorizations =
      Table.modify id (fun row => {row with status := .expired,terminalAt := some now}) db.authorizations := rfl
    rw [renewed,Table.lookup_modify,if_pos rfl,held,Option.map_some]
    exact ⟨_,rfl,rfl,rfl⟩
  next past =>
    refine ⟨row,held,rfl,?_⟩
    cases still : row.status with
    | expired => rfl
    | claimed => exact absurd still status.1
    | denied => exact absurd still status.2
    | pending => simp [live,still] at past
    | approvedUnclaimed => simp [live,still] at past

theorem expire_belongs {db : Database} {id : String} {now : Int} : expireWrites db id now = [] ∨
    Belongs m (domainError .expiredToken) (expireWrites db id now) := by
  unfold expireWrites
  split
  next => exact .inr (.authorizationExpired id now)
  next => exact .inl rfl

theorem decide_durable {caller : Principal} {id requestID : String} {decision : Option Module.CLIDecision} {tries : Tries}
    {trace : Trace} (commits : ∀ attempt ∈ tries, attempt.commit = .done)
    (given : Call.answer m (.decideCLIDeviceAuthorization caller id requestID decision tries) = (some error,trace)) :
    Durable m (.decideCLIDeviceAuthorization caller id requestID decision tries) error trace := by
  dsimp only [Call.answer] at given
  cases run : inTransaction (m.decideCLIDeviceAuthorization caller id requestID decision) tries with
  | mk reply trace' =>
    rw [run] at given
    obtain ⟨told,rfl⟩ := Prod.mk.inj given
    have some_ : reply ≠ .failed := by
      rintro rfl
      cases told
    obtain ⟨_,_,rfl⟩|⟨x,ended,attempt,result,work,checked,rfl,made⟩ := inTransaction_made commits run some_
    · exact durable_nil
    · obtain ⟨earlier,rfl,-,undone⟩ := made.trace
      unfold Module.decideCLIDeviceAuthorization at checked
      split at checked
      next => cases checked
      next decision =>
        split at checked
        next => cases checked
        next =>
          split at checked
          next => cases checked
          next databaseID parsed =>
            cases checked
            obtain ⟨base,ends⟩ := (decides m attempt.base attempt.world caller databaseID requestID decision).of_run made.run
            refine (durable_one undone).mpr ?_
            obtain ⟨_,writes,step⟩ := work
            obtain rfl : _ = attempt.base := base
            dsimp only at ends
            rw [made.reply] at told
            cases ends with
            | fault retryable writes => cases told
            | refused code why =>
              cases told
              refine ⟨.inl rfl,fun same => ?_⟩
              obtain ⟨row,held,status⟩ := why same
              exact ⟨databaseID,row,parsed,held,status⟩
            | expired v row held late status now =>
              cases told
              obtain ⟨row',held',-,status'⟩ := after_expire held status
              exact ⟨expire_belongs.imp_right fun belongs => ⟨rfl,belongs⟩,fun _ => ⟨databaseID,row',parsed,held',status'⟩⟩
            | again => cases told
            | decided => cases told

theorem poll_durable {deviceCode requestID : String} {tries : Tries} {later : Option Database} {trace : Trace}
    (commits : ∀ attempt ∈ tries, attempt.commit = .done)
    (given : Call.answer m (.pollCLIDeviceAuthorization deviceCode requestID tries later) = (some error,trace)) :
    Durable m (.pollCLIDeviceAuthorization deviceCode requestID tries later) error trace := by
  dsimp only [Call.answer] at given
  cases run : inTransaction (m.pollCLIDeviceAuthorization deviceCode requestID) tries with
  | mk reply trace' =>
    rw [run] at given
    obtain ⟨told,rfl⟩ := Prod.mk.inj given
    have some_ : reply ≠ .failed := by
      rintro rfl
      cases told
    obtain ⟨_,_,rfl⟩|⟨x,ended,attempt,result,work,checked,rfl,made⟩ := inTransaction_made commits run some_
    · exact durable_nil
    · obtain ⟨earlier,rfl,-,undone⟩ := made.trace
      unfold Module.pollCLIDeviceAuthorization at checked
      split at checked
      next => cases checked
      next =>
        cases checked
        obtain ⟨base,ends⟩ := (polls m attempt.base attempt.world deviceCode requestID).of_run made.run
        refine (durable_one undone).mpr ?_
        obtain ⟨_,writes,step⟩ := work
        obtain rfl : _ = attempt.base := base
        dsimp only at ends
        rw [made.reply] at told
        cases ends with
        | fault retryable writes => cases told
        | refused code why =>
          cases told
          refine ⟨.inl rfl,fun same => ?_⟩
          obtain ⟨id,row,held,code,status⟩ := why same
          exact ⟨id,row,held,code,status⟩
        | expired id row held code late status =>
          cases told
          obtain ⟨row',held',code',status'⟩ := after_expire held status
          exact ⟨expire_belongs.imp_right fun belongs => ⟨rfl,belongs⟩,fun _ => ⟨id,row',held',code'.trans code,status'⟩⟩
        | waiting id row held status code why nextPollAt seconds =>
          cases told
          refine ⟨.inr ⟨rfl,.authorizationWaits id code why nextPollAt seconds⟩,fun same => ?_⟩
          rcases why with rfl|rfl <;> cases same
        | disabled id row held status =>
          cases told
          exact ⟨.inr ⟨rfl,.approverDisabled id _⟩,fun same => by cases same⟩
        | issued => cases told

/-! Logins. -/

section Records
variable {claimed : ClaimedFederatedLogin} {code : ErrorCode} {requestID : String}

theorem record_run {db : Database} {world : World} {result : Except (Halt Error) Unit} {work : Draft Database Write}
    (run : Module.recordFederatedFailure claimed code requestID world (Draft.start db) = (result,work)) :
    (kept result = false ∧ work.writes ≠ [] ↔ loginIn db claimed.id (fun row => row.status = .completing) = true ∧
      world.fault 0 = none ∧ (world.fault 1 ≠ none ∨ world.fault 2 ≠ none ∨
        (Module.failureAudit claimed code requestID).bounded = false)) ∧
    (kept result = true → ∃ now, work.writes = failWrites claimed code requestID db now) := by
  unfold Module.recordFederatedFailure finishFederatedLogin at run
  dsimp only [bind,execute,statement,Draft.start,Draft.add,Draft.db,drafted,List.foldl_nil] at run
  cases first : world.fault 0 with
  | some retryable =>
    rw [first] at run
    cases run
    simp [kept]
  | none =>
    rw [first] at run
    dsimp only at run
    dsimp only [appendAudit,bind,draw,Draft.add] at run
    cases second : world.fault 1 with
    | some retryable =>
      rw [second] at run
      cases run
      simp [kept]
    | none =>
      rw [second] at run
      dsimp only [insertion,statement] at run
      cases third : world.fault 2 with
      | some retryable =>
        rw [third] at run
        cases run
        simp [kept,Draft.add]
      | none =>
        rw [third] at run
        dsimp only at run
        split at run
        next a writes bounded =>
          split at bounded
          next bound =>
            cases bounded
            cases run
            exact ⟨by simp [kept,bound],fun _ => ⟨world.clock 0,by simp [failWrites,Draft.add]⟩⟩
          next => cases bounded
        next unbounded =>
          split at unbounded
          next => cases unbounded
          next bound =>
            cases run
            simp [kept,bound,Draft.add]

end Records

theorem providerAnswer_error {claimed : ClaimedFederatedLogin} {answer : Except ProviderFailure VerifiedExternalIdentity}
    {code : ErrorCode} (failed : m.providerAnswer claimed answer = .error code) : code ≠ .loginExpired := by
  unfold Module.providerAnswer at failed
  split at failed
  next failure =>
    cases failed
    cases failure <;> decide
  next =>
    split at failed
    next =>
      cases failed
      decide
    next => cases failed

section Completion
variable {input : Module.CompleteFederatedLoginInput} {claiming ending : Tries} {trace : Trace}
  {answer : ClaimedFederatedLogin → Except ProviderFailure VerifiedExternalIdentity}

theorem claim_durable {ended : List (Ended Database Write)} (commits : ∀ attempt ∈ claiming, attempt.commit = .done)
    (run : withTransaction (m.claimInTransaction input) claiming = (.domain error,ended)) :
    Durable m (.completeFederatedLogin input claiming answer ending) error [ended] := by
  have tried : claiming ≠ [] := by
    rintro rfl
    cases run
  obtain ⟨attempt,result,work,made⟩ := withTransaction_made commits run tried
  obtain ⟨earlier,rfl,-,undone⟩ := made.trace
  refine (durable_one undone).mpr ?_
  obtain ⟨base,ends⟩ := (claims m attempt.base attempt.world input).of_run made.run
  obtain ⟨_,writes,step⟩ := work
  obtain rfl : _ = attempt.base := base
  dsimp only at ends
  have told := made.reply
  cases ends with
  | fault retryable writes => cases told
  | refused code other =>
    cases told
    exact ⟨.inl rfl,fun same => absurd same other⟩
  | expired id row held status state late now =>
    cases told
    refine ⟨.inr ⟨rfl,.loginExpired id input.requestID row.registrationID now⟩,fun _ =>
      ⟨id,finished row .expired "login_expired" now,?_,state,rfl⟩⟩
    have renewed : (drafted attempt.base [.finishFederatedLogin id .expired "login_expired" now,
      .audit (Module.expireAudit id input.requestID row.registrationID)]).logins =
      Table.modify id (fun row => finished row .expired "login_expired" now) attempt.base.logins := rfl
    simp only [Ended.after,kept,if_true,Draft.db]
    rw [renewed,Table.lookup_modify,if_pos rfl,held,Option.map_some]
  | claimed => cases told

theorem claim_made {ended : List (Ended Database Write)} {claimed : ClaimedFederatedLogin}
    (commits : ∀ attempt ∈ claiming, attempt.commit = .done)
    (run : withTransaction (m.claimInTransaction input) claiming = (.ok claimed,ended)) :
    ∃ earlier claim id row registration privateState step, ended = earlier++[⟨⟨claim.base,[.claimFederatedLogin id],step⟩,true⟩] ∧
      (∀ attempt ∈ earlier, attempt.applied = false) ∧ lastTry claiming ended = some claim ∧
      getFederatedLogin claim.base (m.stateDigest input.state) = some (id,row) ∧
      m.registration row.registrationID row.registrationRevision = some registration ∧
      m.decryptPrivateState id row = .ok privateState ∧ claimed = Module.claimedOf id row registration privateState := by
  have tried : claiming ≠ [] := by
    rintro rfl
    cases run
  obtain ⟨claim,result,work,made⟩ := withTransaction_made commits run tried
  obtain ⟨earlier,rfl,last,undone⟩ := made.trace
  obtain ⟨base,ends⟩ := (claims m claim.base claim.world input).of_run made.run
  obtain ⟨_,writes,step⟩ := work
  obtain rfl : _ = claim.base := base
  dsimp only at ends
  have told := made.reply
  cases ends with
  | fault retryable writes => cases told
  | refused code other => cases told
  | expired => cases told
  | claimed id row found status binding early registration known privateState opened =>
    cases told
    exact ⟨earlier,claim,id,row,registration,privateState,step,rfl,undone,lastTry_append.trans last,found,known,opened,rfl⟩

theorem fail_durable {claimed : ClaimedFederatedLogin} {code : ErrorCode} (commits : ∀ attempt ∈ ending, attempt.commit = .done)
    (other : code ≠ .loginExpired) :
    Durable m (.completeFederatedLogin input claiming answer ending) (domainError code)
        [(withTransaction (Module.recordFederatedFailure claimed code input.requestID) ending).2] ↔
      ¬∃ last, lastTry ending (withTransaction (Module.recordFederatedFailure claimed code input.requestID) ending).2 =
        some last ∧ loginIn last.base claimed.id (fun row => row.status = .completing) = true ∧ last.world.fault 0 = none ∧
        (last.world.fault 1 ≠ none ∨ last.world.fault 2 ≠ none ∨
          (Module.failureAudit claimed code input.requestID).bounded = false) := by
  cases run : withTransaction (Module.recordFederatedFailure claimed code input.requestID) ending with
  | mk reply ended =>
    by_cases tried : ending = []
    · subst tried
      cases run
      refine iff_of_true ⟨?_,?_,?_⟩ ?_
      · simp
      · simp
      · simp
      · simp [lastTry]
    · obtain ⟨last,result,work,made⟩ := withTransaction_made commits run tried
      obtain ⟨earlier,rfl,same,undone⟩ := made.trace
      obtain ⟨stops,records⟩ := record_run made.run
      have only : lastTry ending (earlier++[⟨work,kept result⟩]) = some last := lastTry_append.trans same
      dsimp only
      rw [durable_one undone,only]
      simp only [Option.some.injEq,exists_eq_left']
      rw [← stops]
      constructor
      · rintro ⟨effects,-⟩ ⟨halted,wrote⟩
        rcases effects with nothing|⟨applied,-⟩
        · exact wrote nothing
        · rw [halted] at applied
          cases applied
      · intro through
        refine ⟨?_,fun same => absurd same other⟩
        by_cases nothing : work.writes = []
        · exact .inl nothing
        · have applied : kept result = true := by
            by_contra halted
            exact through ⟨by simpa using halted,nothing⟩
          obtain ⟨now,writes⟩ := records applied
          rw [writes]
          exact .inr ⟨applied,.loginFailed claimed code input.requestID last.base now⟩

theorem completion_durable {claimed : ClaimedFederatedLogin} {identity : VerifiedExternalIdentity}
    {ended : List (Ended Database Write)} (commits : ∀ attempt ∈ ending, attempt.commit = .done)
    (run : withTransaction (m.completeInTransaction input.state input.requestID claimed identity) ending =
      (.domain error,ended)) : Durable m (.completeFederatedLogin input claiming answer ending) error [ended] := by
  have tried : ending ≠ [] := by
    rintro rfl
    cases run
  obtain ⟨attempt,result,work,made⟩ := withTransaction_made commits run tried
  obtain ⟨earlier,rfl,-,undone⟩ := made.trace
  refine (durable_one undone).mpr ?_
  obtain ⟨base,ends⟩ :=
    (completes m attempt.base attempt.world input.state input.requestID claimed identity).of_run made.run
  obtain ⟨_,writes,step⟩ := work
  obtain rfl : _ = attempt.base := base
  dsimp only at ends
  have told := made.reply
  cases ends with
  | fault retryable writes => cases told
  | consumed =>
    cases told
    exact ⟨.inl rfl,fun same => by cases same⟩
  | failed row held status presented code now =>
    cases told
    refine ⟨.inr ⟨rfl,.loginFailed claimed code input.requestID _ now⟩,?_⟩
    rintro (rfl : code = .loginExpired)
    refine ⟨claimed.id,finished row .expired ErrorCode.loginExpired.text now,?_,presented,rfl⟩
    have completing : loginIn attempt.base claimed.id (fun row => row.status = .completing) = true := by
      rw [loginIn_of held,status]
      rfl
    have renewed : (drafted attempt.base (failWrites claimed .loginExpired input.requestID attempt.base now)).logins =
        Table.modify claimed.id (fun row => finished row .expired ErrorCode.loginExpired.text now) attempt.base.logins := by
      rw [failWrites,if_pos completing]
      rfl
    simp only [Ended.after,kept,if_true,Draft.db]
    rw [renewed,Table.lookup_modify,if_pos rfl,held,Option.map_some]
  | granted => cases told

theorem complete_durable (commits : ∀ attempt ∈ claiming++ending, attempt.commit = .done)
    (given : Call.answer m (.completeFederatedLogin input claiming answer ending) = (some error,trace)) :
    Durable m (.completeFederatedLogin input claiming answer ending) error trace ↔
      ¬Undoing m trace (.completeFederatedLogin input claiming answer ending) := by
  obtain ⟨claims_,ends_⟩ := List.forall_mem_append.mp commits
  have alone : ∀ ended, ¬Undoing m [ended] (.completeFederatedLogin input claiming answer ending) := by
    rintro ended ⟨first,second,claim,last,two,-⟩
    cases two
  dsimp only [Call.answer,Module.completeFederatedLogin] at given
  split at given
  next =>
    cases given
    refine iff_of_true durable_nil ?_
    rintro ⟨first,second,claim,last,two,-⟩
    cases two
  next =>
    split at given
    next claimed ended run =>
      obtain ⟨earlier,claim,id,row,registration,privateState,step,rfl,undone,last,found,known,opened,rfl⟩ :=
        claim_made claims_ run
      split at given
      next code failed =>
        cases given
        rw [durable_claimed undone,fail_durable ends_ (providerAnswer_error failed)]
        refine not_congr ⟨?_,?_⟩
        · rintro ⟨attempt,made,completing,none_,stops⟩
          exact ⟨_,_,claim,attempt,rfl,last,made,id,row,registration,privateState,code,found,known,opened,failed,completing,
            none_,stops⟩
        · rintro ⟨first,second,claim',attempt,two,last',made,id',row',registration',privateState',code',found',known',opened',
            failed',completing,none_,stops⟩
          cases two
          cases last.symm.trans last'
          cases found.symm.trans found'
          cases known.symm.trans known'
          cases opened.symm.trans opened'
          cases failed.symm.trans failed'
          exact ⟨attempt,made,completing,none_,stops⟩
      next identity right =>
        cases completed : withTransaction (m.completeInTransaction input.state input.requestID
          (Module.claimedOf id row registration privateState) identity) ending with
        | mk reply second =>
          rw [completed] at given
          obtain ⟨told,rfl⟩ := Prod.mk.inj given
          cases reply with
          | domain error' =>
            cases told
            refine iff_of_true ((durable_claimed undone).mpr (completion_durable ends_ completed)) ?_
            rintro ⟨first,second,claim',attempt,two,last',made,id',row',registration',privateState',code',found',known',opened',
              failed',-⟩
            cases two
            cases last.symm.trans last'
            cases found.symm.trans found'
            cases known.symm.trans known'
            cases opened.symm.trans opened'
            cases right.symm.trans failed'
          | ok grant => cases told
          | uncertain result => cases told
          | failed => cases told
    next error' ended run =>
      cases given
      exact iff_of_true (claim_durable claims_ run) (alone _)
    next => cases given
    next => cases given

end Completion

/-- An error is durable unless the call is one of a session past its absolute deadline, or the record
of a failed login was interrupted. -/
theorem errors_durable (m : Module) (call : Call) (error : Error) (trace : Trace)
    (commits : ∀ attempt ∈ call.tries, attempt.commit = .done) (given : call.answer m = (some error,trace)) :
    Durable m call error trace ↔ ¬Undoing m trace call := by
  cases call with
  | authenticateWeb secret requireFresh tries => exact authenticate_durable commits given
  | completeFederatedLogin input claiming answer ending => exact complete_durable commits given
  | resolveCLIDeviceAuthorization caller userCode requestID tries =>
    exact iff_of_true (resolve_durable commits given) id
  | decideCLIDeviceAuthorization caller id requestID decision tries =>
    exact iff_of_true (decide_durable commits given) fun none_ => none_
  | pollCLIDeviceAuthorization deviceCode requestID tries later =>
    exact iff_of_true (poll_durable commits given) id

end Durability

/-! A session past its absolute deadline. -/

def sampleModule : Module where
  policy := ⟨600*second,3600*second,86400*second,900*second,60*second,600*second,5*second,60*second,600*second,5,4⟩
  registration _ _ := none
  activeRegistration _ := none
  pepperKeys := ⟨["key"],"key",List.mem_singleton_self _⟩
  keyedCodeDigest key code := key++":"++code
  highEntropyDigest domain material := domain++":"++material
  decryptPrivateState _ _ := .error .misconfigured
  validProfile _ := true
  parseUUID id := some id

def sampleSecret : String := "ats_v1_"++String.ofList (List.replicate 43 'A')

/-- One user, whose session is active and reaches its absolute deadline at ten. -/
def overdueDatabase : Database where
  users := (∅ : Table String UserRow).insert "user" ⟨.active,"Name","",0⟩
  identities := ∅
  sessions := (∅ : Table String SessionRow).insert "session" ⟨"user",.active,0,0,0,10,none,""⟩
  secrets := (∅ : Table (String × Nat) SecretRow).insert ("session",1) (sampleModule.secretRow sampleSecret)
  logins := ∅
  authorizations := ∅
  credentials := ∅
  windows := ∅
  audit := []

def lateAttempt (base : Database) : Attempt Database := ⟨base,⟨fun _ => 20,fun _ => none,fun _ => "random"⟩,.done⟩

def overdueCall : Call := .authenticateWeb sampleSecret false [lateAttempt overdueDatabase]

theorem overdueCall_reports :
    (overdueCall.answer sampleModule).1 = some (domainError .sessionAbsoluteExpired) := by decide

/-- The expiry that is reported was written and given up. -/
theorem overdueCall_undone : ∃ error, (overdueCall.answer sampleModule).1 = some error ∧
    ¬Durable sampleModule overdueCall error (overdueCall.answer sampleModule).2 := by
  refine ⟨_,overdueCall_reports,fun durable => ?_⟩
  have given_up : (overdueCall.answer sampleModule).2.all (fun ended => ended.getLast?.all fun last =>
      last.work.writes.isEmpty || last.applied) = false := by decide
  have effects : (overdueCall.answer sampleModule).2.all (fun ended => ended.getLast?.all fun last =>
      last.work.writes.isEmpty || last.applied) = true := by
    refine List.all_eq_true.mpr fun ended inside => ?_
    cases last : ended.getLast? with
    | none => rfl
    | some attempt =>
      rcases durable.effects ended inside attempt last with nothing|⟨applied,-⟩
      · simp [nothing]
      · simp [applied]
  rw [given_up] at effects
  cases effects

theorem errors_durable_overdue : (∀ attempt ∈ overdueCall.tries, attempt.commit = .done) ∧
    (Durable sampleModule overdueCall (domainError .sessionAbsoluteExpired) (overdueCall.answer sampleModule).2 ↔
      ¬Undoing sampleModule (overdueCall.answer sampleModule).2 overdueCall) := by
  have commits : ∀ attempt ∈ overdueCall.tries, attempt.commit = .done := List.forall_mem_singleton.mpr rfl
  exact ⟨commits,errors_durable sampleModule overdueCall _ _ commits (Prod.ext overdueCall_reports rfl)⟩

end ATape.Authentication
