import ATape.Authentication.Sessions

/-! Federated logins. A login is claimed in one transaction, and completed in another one behind
the answer of its provider. -/
namespace ATape.Authentication
open Foundation Go

/-! Statements. -/

def getFederatedLogin (db : Database) (stateDigest : String) : Option (String × LoginRow) :=
  db.logins.rows.find? fun row => row.2.stateDigest = stateDigest

def loginIn (db : Database) (id : String) (held : LoginRow → Bool) : Bool := (db.logins.lookup id).any held

def openLogin (row : LoginRow) : Bool := row.status = .pending || row.status = .completing

def claimFederatedLogin (id : String) : Transaction Bool :=
  execute fun now db =>
    if loginIn db id fun row => row.status = .pending && now < row.expiresAt
    then (true,[.claimFederatedLogin id]) else (false,[])

def expireFederatedLogin (id : String) : Transaction Unit :=
  execute fun now db => ((),if loginIn db id openLogin
    then [.finishFederatedLogin id .expired "login_expired" now] else [])

def finishFederatedLogin (id : String) (status : LoginStatus) (failureCode : String) : Transaction Unit :=
  execute fun now db => ((),if loginIn db id fun row => row.status = .completing
    then [.finishFederatedLogin id status failureCode now] else [])

def loginAllowed (id : String) (row : LoginRow) (db : Database) : Bool :=
  (db.logins.lookup id).isNone && !db.logins.any fun _ other => other.stateDigest = row.stateDigest

def getExternalIdentity (db : Database) (identity : VerifiedExternalIdentity) : Option (String × IdentityRow) :=
  db.identities.rows.find? fun row => row.2.issuer = identity.issuer && row.2.subject = identity.subject

def identityRow (userID : String) (identity : VerifiedExternalIdentity) : IdentityRow :=
  ⟨userID,identity.issuer,identity.subject,.active,trimSpace identity.displayName,identity.avatarURL⟩

def identityAllowed (id : String) (identity : VerifiedExternalIdentity) (db : Database) : Bool :=
  (db.identities.lookup id).isNone && (getExternalIdentity db identity).isNone

def insertExternalIdentity (id userID : String) (identity : VerifiedExternalIdentity) : Transaction Unit :=
  insertion (identityAllowed id identity) fun _ => ((),[.insertExternalIdentity id (identityRow userID identity)])

def refreshExternalIdentity (id : String) (identity : VerifiedExternalIdentity) : Transaction Unit :=
  execute fun _ db => ((),if (db.identities.lookup id).isSome
    then [.refreshExternalIdentity id (trimSpace identity.displayName) identity.avatarURL] else [])

def insertUser (id : String) (identity : VerifiedExternalIdentity) : Transaction User :=
  insertion (fun db => (db.users.lookup id).isNone) fun now =>
    let row : UserRow := ⟨.active,trimSpace identity.displayName,identity.avatarURL,now⟩
    (userOf id row,[.insertUser id row])

def refreshUserAvatar (id avatarURL : String) : Transaction Unit :=
  execute fun _ db => ((),if (db.users.lookup id).any fun row => row.status = .active && row.avatarURL ≠ avatarURL
    then [.refreshUserAvatar id avatarURL] else [])

/-! Providers. -/

inductive ProviderFailure
  | accessDenied
  | unavailable
  | misconfigured
  | invalidResponse
  | protocolViolation
  | other
  | unknown
deriving DecidableEq

/-- A failure that is none of a provider is `unknown`. -/
def mapProviderFailure : ProviderFailure → ErrorCode
  | .unknown => .providerUnavailable
  | .accessDenied => .providerAccessDenied
  | .unavailable => .providerUnavailable
  | .misconfigured => .providerUnavailable
  | .invalidResponse => .providerInvalidResponse
  | .protocolViolation => .providerInvalidResponse
  | .other => .providerInvalidResponse

structure ClaimedFederatedLogin where
  id : String
  intent : LoginIntent
  registration : Registration
  callbackURI : String
  returnTo : String
  privateState : String
  privateStateSchema : String
  initiatingUserID : Option String
  initiatingSessionID : Option String
  expiresAt : Int

namespace Module
variable (m : Module)

def stateDigest (state : String) : String := m.highEntropyDigest "federated-state" state

def bindingDigest (binding : String) : String := m.highEntropyDigest "login-browser-binding" binding

/-! The beginning. -/

def loginRow (intent : LoginIntent) (registration : Registration) (state browserBinding returnTo : String)
    (privateState : PrivateState) (schema : String) (initiator : Option (String × String)) (now : Int) : LoginRow :=
  ⟨intent,m.stateDigest state,m.bindingDigest browserBinding,registration.id,registration.revision,
    registration.expectedIssuer,registration.callbackURI,returnTo,some privateState,schema,initiator.map Prod.fst,
    initiator.map Prod.snd,.pending,now+m.policy.federatedLoginTTL,none,""⟩

def beginAudit (id requestID registrationID : String) (initiator : Option (String × String)) : AuditRecord :=
  ⟨"anonymous_request","","federated_login.begin","federated_login",id,"succeeded","",requestID,registrationID,
    (initiator.map Prod.snd).getD "",""⟩

def intentAllowed (row : LoginRow) : Bool :=
  match row.intent with
  | .signIn => row.initiatingUserID = none && row.initiatingSessionID = none
  | _ => row.initiatingUserID.isSome && row.initiatingSessionID.isSome

def insertFederatedLogin (id : String) (row : LoginRow) : Transaction Unit :=
  statement fun now db => if loginAllowed id row db && intentAllowed row && now < row.expiresAt
    then some ((),[.insertFederatedLogin id row]) else none

def beginInTransaction (id requestID : String) (row : LoginRow) (initiator : Option (String × String)) : Transaction Unit := do
  insertFederatedLogin id row
  appendAudit (beginAudit id requestID row.registrationID initiator)

/-! The claim. -/

structure CompleteFederatedLoginInput where
  registrationID : String
  state : String
  browserBinding : String
  authorizationCode : String
  authorizationError : String
  authorizationServerIssuer : String
  requestID : String

def expireAudit (id requestID registrationID : String) : AuditRecord :=
  ⟨"federated_login",id,"federated_login.expire","federated_login",id,"failed","login_expired",requestID,registrationID,"",""⟩

def claimedOf (id : String) (row : LoginRow) (registration : Registration) (privateState : String) : ClaimedFederatedLogin :=
  ⟨id,row.intent,registration,row.callbackURI,row.returnTo,privateState,row.privateStateSchema,row.initiatingUserID,
    row.initiatingSessionID,row.expiresAt⟩

def claimOpened (id : String) (row : LoginRow) (registration : Registration) : Transaction ClaimedFederatedLogin :=
  if row.privateState = none then refuse (domainError .misconfigured) else
  match m.decryptPrivateState id row with
  | .error failure => refuse (domainError failure.code)
  | .ok privateState => do
    let claimed ← claimFederatedLogin id
    if claimed then pure (claimedOf id row registration privateState) else refuse (domainError .loginAlreadyConsumed)

def claimRegistered (id : String) (row : LoginRow) : Transaction ClaimedFederatedLogin :=
  match m.registration row.registrationID row.registrationRevision with
  | none => refuse (domainError .misconfigured)
  | some registration =>
    if registration.expectedIssuer ≠ row.expectedIssuer ∨ registration.callbackURI ≠ row.callbackURI then
      refuse (domainError .misconfigured)
    else m.claimOpened id row registration

def claimPending (id requestID : String) (row : LoginRow) : Transaction ClaimedFederatedLogin := do
  let now ← databaseTime
  if row.expiresAt ≤ now then do
    expireFederatedLogin id
    appendAudit (expireAudit id requestID row.registrationID)
    settle (domainError .loginExpired)
  else m.claimRegistered id row

def claimRow (input : CompleteFederatedLoginInput) (id : String) (row : LoginRow) : Transaction ClaimedFederatedLogin :=
  if row.browserBindingDigest ≠ m.bindingDigest input.browserBinding ∨ row.registrationID ≠ input.registrationID then
    refuse (domainError .loginStateMismatch)
  else match row.status with
  | .pending => m.claimPending id input.requestID row
  | _ => refuse (domainError .loginAlreadyConsumed)

def claimInTransaction (input : CompleteFederatedLoginInput) : Transaction ClaimedFederatedLogin := do
  let row ← query fun db => getFederatedLogin db (m.stateDigest input.state)
  match row with
  | none => refuse (domainError .loginStateMismatch)
  | some (id,row) => m.claimRow input id row

/-! Failure. -/

def failureStatus : ErrorCode → LoginStatus
  | .providerAccessDenied => .denied
  | .loginExpired => .expired
  | _ => .failed

def failureAudit (claimed : ClaimedFederatedLogin) (code : ErrorCode) (requestID : String) : AuditRecord :=
  ⟨"federated_login",claimed.id,"federated_login.complete","federated_login",claimed.id,
    if code = .providerAccessDenied then "denied" else "failed",code.text,requestID,claimed.registration.id,
    claimed.initiatingSessionID.getD "",""⟩

/-- `finishFederatedFailure`, which commits the failure of its own. -/
def recordFederatedFailure (claimed : ClaimedFederatedLogin) (code : ErrorCode) (requestID : String) : Transaction Unit := do
  finishFederatedLogin claimed.id (failureStatus code) code.text
  appendAudit (failureAudit claimed code requestID)

def failFederatedInTransaction (claimed : ClaimedFederatedLogin) (code : ErrorCode) (requestID : String) :
    Transaction WebSessionGrant := do
  recordFederatedFailure claimed code requestID
  settle (domainError code)

/-! Identities. Those of one issuer and subject wait for one another. -/

def knownIdentity (identity : VerifiedExternalIdentity) (id : String) (row : IdentityRow) (user : UserRow) :
    Transaction User := do
  refreshExternalIdentity id identity
  if identity.avatarURL ≠ "" then do
    refreshUserAvatar row.userID identity.avatarURL
    pure (userOf row.userID {user with avatarURL := identity.avatarURL})
  else pure (userOf row.userID user)

def signInKnown (identity : VerifiedExternalIdentity) (id : String) (row : IdentityRow) :
    Transaction (Except ErrorCode User) :=
  if row.status ≠ .active then pure (.error .unauthenticated) else do
    let user ← query fun db => getUser db row.userID
    match user with
    | none => faulty
    | some user =>
      if user.status ≠ .active then pure (.error .userDisabled) else do
        let user ← knownIdentity identity id row user
        pure (.ok user)

def signInNew (identity : VerifiedExternalIdentity) : Transaction (Except ErrorCode User) := do
  let userID ← draw
  let identityID ← draw
  let user ← insertUser userID identity
  insertExternalIdentity identityID userID identity
  pure (.ok user)

def resolveSignInIdentity (identity : VerifiedExternalIdentity) : Transaction (Except ErrorCode User) := do
  let _ ← query fun _ => ()
  let row ← query fun db => getExternalIdentity db identity
  match row with
  | none => signInNew identity
  | some (id,row) => signInKnown identity id row

def initiatorError (claimed : ClaimedFederatedLogin) (requireFresh : Bool) (now : Int) (row : SessionRow × UserRow) :
    Option ErrorCode :=
  match m.sessionError row (claimed.initiatingUserID.getD "") now with
  | some code => some code
  | none => if requireFresh && !m.isFresh row.1 now then some .freshAuthenticationRequired else none

def validateInitiatingSession (claimed : ClaimedFederatedLogin) (requireFresh : Bool) (now : Int) :
    Transaction (Except ErrorCode User) :=
  match claimed.initiatingSessionID with
  | none => pure (.error .loginStateMismatch)
  | some sessionID => do
    let row ← query fun db => getWebSession db sessionID
    match row with
    | none => pure (.error .sessionRevoked)
    | some row => match m.initiatorError claimed requireFresh now row with
      | some code => pure (.error code)
      | none => pure (.ok (userOf row.1.userID row.2))

def bindIdentity (userID : String) (identity : VerifiedExternalIdentity) : Transaction (Except ErrorCode Unit) := do
  let _ ← query fun _ => ()
  let row ← query fun db => getExternalIdentity db identity
  match row with
  | none => do
    let identityID ← draw
    insertExternalIdentity identityID userID identity
    pure (.ok ())
  | some (id,row) =>
    if row.userID ≠ userID then pure (.error .externalIdentityConflict) else do
      refreshExternalIdentity id identity
      pure (.ok ())

def verifyIdentityForUser (userID : String) (identity : VerifiedExternalIdentity) : Transaction (Except ErrorCode Unit) := do
  let _ ← query fun _ => ()
  let row ← query fun db => getExternalIdentity db identity
  match row with
  | none => pure (.error .providerInvalidResponse)
  | some (id,row) =>
    if row.status ≠ .active ∨ row.userID ≠ userID then pure (.error .providerInvalidResponse) else do
      refreshExternalIdentity id identity
      pure (.ok ())

/-! The completion. -/

def completeAudit (claimed : ClaimedFederatedLogin) (requestID : String) (grant : WebSessionGrant) : AuditRecord :=
  ⟨"federated_login",claimed.id,"federated_login.complete","user",grant.user.id,"succeeded","",requestID,
    claimed.registration.id,grant.session.id,""⟩

def completed (claimed : ClaimedFederatedLogin) (requestID : String) (grant : WebSessionGrant) : Transaction WebSessionGrant := do
  finishFederatedLogin claimed.id .completed ""
  appendAudit (completeAudit claimed requestID grant)
  pure grant

def completeSignIn (claimed : ClaimedFederatedLogin) (requestID : String) (identity : VerifiedExternalIdentity) :
    Transaction WebSessionGrant := do
  let user ← resolveSignInIdentity identity
  match user with
  | .error code => failFederatedInTransaction claimed code requestID
  | .ok user => do
    let grant ← m.newWebSessionInTransaction user requestID claimed.registration.id claimed.id claimed.returnTo
    completed claimed requestID grant

/-- The identity that comes with a session is bound to its user, or is one of them already. -/
def identify (reauthenticate : Bool) (userID : String) (identity : VerifiedExternalIdentity) :
    Transaction (Except ErrorCode Unit) :=
  if reauthenticate then verifyIdentityForUser userID identity else bindIdentity userID identity

def rotateInitiating (claimed : ClaimedFederatedLogin) (requestID : String) (reauthenticate : Bool) (user : User) :
    Transaction WebSessionGrant := do
  let grant ← m.rotateWebSessionInTransaction user (claimed.initiatingSessionID.getD "") reauthenticate requestID
    claimed.registration.id claimed.id claimed.returnTo
  completed claimed requestID grant

def completeForSession (claimed : ClaimedFederatedLogin) (requestID : String) (identity : VerifiedExternalIdentity)
    (reauthenticate : Bool) (now : Int) : Transaction WebSessionGrant := do
  let user ← m.validateInitiatingSession claimed (!reauthenticate) now
  match user with
  | .error code => failFederatedInTransaction claimed code requestID
  | .ok user => do
    let identified ← identify reauthenticate user.id identity
    match identified with
    | .error code => failFederatedInTransaction claimed code requestID
    | .ok _ => m.rotateInitiating claimed requestID reauthenticate user

def completeIntent (claimed : ClaimedFederatedLogin) (requestID : String) (identity : VerifiedExternalIdentity) (now : Int) :
    Transaction WebSessionGrant :=
  match claimed.intent with
  | .signIn => m.completeSignIn claimed requestID identity
  | .bindIdentity => m.completeForSession claimed requestID identity false now
  | .reauthenticate => m.completeForSession claimed requestID identity true now

def completeRow (claimed : ClaimedFederatedLogin) (requestID : String) (identity : VerifiedExternalIdentity)
    (id : String) (row : LoginRow) : Transaction WebSessionGrant :=
  if row.status ≠ .completing ∨ id ≠ claimed.id then refuse (domainError .loginAlreadyConsumed) else do
    let now ← databaseTime
    if row.expiresAt ≤ now then failFederatedInTransaction claimed .loginExpired requestID
    else m.completeIntent claimed requestID identity now

def completeInTransaction (state requestID : String) (claimed : ClaimedFederatedLogin) (identity : VerifiedExternalIdentity) :
    Transaction WebSessionGrant := do
  let row ← query fun db => getFederatedLogin db (m.stateDigest state)
  match row with
  | none => faulty
  | some (id,row) => m.completeRow claimed requestID identity id row

def inputError (input : CompleteFederatedLoginInput) : Option ErrorCode :=
  if !validateOpaqueSecret input.state "atf_v1_" || !validateOpaqueSecret input.browserBinding "atb_v1_" ||
      len input.authorizationCode > 4096 || len input.authorizationError > 100 || !validateRequestID input.requestID then
    some .loginStateMismatch
  else if len input.authorizationServerIssuer > 2048 || input.authorizationServerIssuer.toList.any unprintable then
    some .providerInvalidResponse
  else none

/-- The failure with which a login ends at its provider, or its identity. -/
def providerAnswer (claimed : ClaimedFederatedLogin) (answer : Except ProviderFailure VerifiedExternalIdentity) :
    Except ErrorCode VerifiedExternalIdentity :=
  match answer with
  | .error failure => .error (mapProviderFailure failure)
  | .ok identity =>
    if m.validProfile identity = false ∨ identity.issuer ≠ claimed.registration.expectedIssuer then
      .error .providerInvalidResponse
    else .ok identity

end Module
end ATape.Authentication
