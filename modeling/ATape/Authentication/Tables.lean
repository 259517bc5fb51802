import ATape.Foundation.Table
import ATape.Foundation.Transactions
import ATape.Go.Text

/-! The tables of the authentication module with the statements that read and write them. Times
are in nanoseconds; a statement reads the clock once. -/
namespace ATape.Authentication
open Foundation Go

inductive ErrorCode
  | invalidRequest | misconfigured | serviceUnavailable | loginExpired | loginStateMismatch
  | loginAlreadyConsumed | providerAccessDenied | providerUnavailable | providerInvalidResponse
  | externalIdentityConflict | freshAuthenticationRequired | unauthenticated | sessionIdleExpired
  | sessionAbsoluteExpired | sessionRevoked | userDisabled | invalidUserCode | tooManyCodeAttempts
  | grantAlreadyDecided | authorizationPending | slowDown | accessDenied | expiredToken
  | invalidDeviceCode | grantConsumed | outcomeUnknown
deriving DecidableEq

def ErrorCode.text : ErrorCode → String
  | .invalidRequest => "invalid_request"
  | .misconfigured => "misconfigured"
  | .serviceUnavailable => "service_unavailable"
  | .loginExpired => "login_expired"
  | .loginStateMismatch => "login_state_mismatch"
  | .loginAlreadyConsumed => "login_already_consumed"
  | .providerAccessDenied => "provider_access_denied"
  | .providerUnavailable => "provider_unavailable"
  | .providerInvalidResponse => "provider_invalid_response"
  | .externalIdentityConflict => "external_identity_conflict"
  | .freshAuthenticationRequired => "fresh_authentication_required"
  | .unauthenticated => "unauthenticated"
  | .sessionIdleExpired => "session_idle_expired"
  | .sessionAbsoluteExpired => "session_absolute_expired"
  | .sessionRevoked => "session_revoked"
  | .userDisabled => "user_disabled"
  | .invalidUserCode => "invalid_user_code"
  | .tooManyCodeAttempts => "too_many_code_attempts"
  | .grantAlreadyDecided => "grant_already_decided"
  | .authorizationPending => "authorization_pending"
  | .slowDown => "slow_down"
  | .accessDenied => "access_denied"
  | .expiredToken => "expired_token"
  | .invalidDeviceCode => "invalid_device_code"
  | .grantConsumed => "grant_consumed"
  | .outcomeUnknown => "outcome_unknown"

structure Error where
  code : ErrorCode
  retryAfter : Int
deriving DecidableEq

def domainError (code : ErrorCode) : Error := ⟨code,0⟩

def second : Int := 1000000000

/-- `durationSeconds`, which rounds up. -/
def durationSeconds (value : Int) : Int := (value+(second-1))/second

structure Policy where
  federatedLoginTTL : Int
  webSessionIdleTTL : Int
  webSessionAbsoluteTTL : Int
  freshAuthenticationTTL : Int
  lastUsedWriteInterval : Int
  cliAuthorizationTTL : Int
  initialPollInterval : Int
  maximumPollInterval : Int
  codeAttemptWindow : Int
  maximumCodeFailures : Nat
  shortCodeAttempts : Nat

/-! Rows. -/

inductive UserStatus
  | active
  | disabled
deriving DecidableEq

structure UserRow where
  status : UserStatus
  displayName : String
  avatarURL : String
  createdAt : Int
deriving DecidableEq

inductive IdentityStatus
  | active
  | unlinked
deriving DecidableEq

structure IdentityRow where
  userID : String
  issuer : String
  subject : String
  status : IdentityStatus
  displayName : String
  avatarURL : String
deriving DecidableEq

inductive SessionStatus
  | active
  | revoked
  | idleExpired
  | absoluteExpired
deriving DecidableEq

structure SessionRow where
  userID : String
  status : SessionStatus
  createdAt : Int
  lastUsedAt : Int
  reauthenticatedAt : Int
  absoluteExpiresAt : Int
  terminalAt : Option Int
  terminalReason : String
deriving DecidableEq

structure SecretRow where
  secretDigest : String
  csrfDigest : String
  supersededAt : Option Int
deriving DecidableEq

inductive LoginIntent
  | signIn
  | bindIdentity
  | reauthenticate
deriving DecidableEq

inductive LoginStatus
  | pending
  | completing
  | completed
  | denied
  | failed
  | expired
deriving DecidableEq

structure PrivateState where
  keyID : String
  nonce : String
  ciphertext : String
deriving DecidableEq

structure LoginRow where
  intent : LoginIntent
  stateDigest : String
  browserBindingDigest : String
  registrationID : String
  registrationRevision : String
  expectedIssuer : String
  callbackURI : String
  returnTo : String
  privateState : Option PrivateState
  privateStateSchema : String
  initiatingUserID : Option String
  initiatingSessionID : Option String
  status : LoginStatus
  expiresAt : Int
  terminalAt : Option Int
  failureCode : String
deriving DecidableEq

inductive AuthorizationStatus
  | pending
  | approvedUnclaimed
  | denied
  | claimed
  | expired
deriving DecidableEq

structure AuthorizationRow where
  deviceCodeDigest : String
  userCodeKeyID : String
  userCodeDigest : String
  status : AuthorizationStatus
  pollIntervalSeconds : Int
  nextPollAt : Int
  expiresAt : Int
  reviewSessionID : Option String
  approvingUserID : Option String
  issuedCredentialID : Option String
  terminalAt : Option Int
deriving DecidableEq

inductive CredentialStatus
  | active
  | revoked
deriving DecidableEq

structure CredentialRow where
  userID : String
  authorizationID : String
  secretDigest : String
  status : CredentialStatus
  createdAt : Int
deriving DecidableEq

structure WindowRow where
  failureCount : Nat
  blockedUntil : Option Int
deriving DecidableEq

structure AuditRecord where
  initiatorKind : String
  initiatorID : String
  action : String
  targetKind : String
  targetID : String
  outcome : String
  reason : String
  requestID : String
  providerRegistrationID : String
  webSessionID : String
  cliCredentialID : String
deriving DecidableEq

/-- Secrets are rows of a session with a generation, windows are rows of one with their start. -/
structure Database where
  users : Table String UserRow
  identities : Table String IdentityRow
  sessions : Table String SessionRow
  secrets : Table (String × Nat) SecretRow
  logins : Table String LoginRow
  authorizations : Table String AuthorizationRow
  credentials : Table String CredentialRow
  windows : Table (String × Int) WindowRow
  audit : List AuditRecord

/-- What a statement changes. -/
inductive Write
  | insertUser (id : String) (row : UserRow)
  | refreshUserAvatar (id avatarURL : String)
  | insertExternalIdentity (id : String) (row : IdentityRow)
  | refreshExternalIdentity (id displayName avatarURL : String)
  | insertWebSession (id : String) (row : SessionRow)
  | touchWebSession (id : String) (now : Int)
  | terminalWebSession (id : String) (status : SessionStatus) (reason : String) (now : Int)
  | revokeWebSessions (ids : List String) (reason : String) (now : Int)
  | reauthenticateWebSession (id : String) (now absoluteExpiresAt : Int)
  | insertWebSessionSecret (id : String) (generation : Nat) (row : SecretRow)
  | supersedeWebSessionSecret (id : String) (now : Int)
  | insertFederatedLogin (id : String) (row : LoginRow)
  | claimFederatedLogin (id : String)
  | finishFederatedLogin (id : String) (status : LoginStatus) (failureCode : String) (now : Int)
  | insertCLIAuthorization (id : String) (row : AuthorizationRow)
  | bindCLIReviewSession (id webSessionID : String)
  | decideCLIAuthorization (id : String) (status : AuthorizationStatus) (userID : String) (terminalAt : Option Int)
  | expireCLIAuthorization (id : String) (now : Int)
  | advanceCLIPoll (id : String) (nextPollAt intervalSeconds : Int)
  | insertCLICredential (id : String) (row : CredentialRow)
  | claimCLIAuthorization (id credentialID : String) (now : Int)
  | codeAttemptFailure (webSessionID : String) (windowStart : Int) (row : WindowRow)
  | audit (record : AuditRecord)
deriving DecidableEq

def terminal (row : SessionRow) (status : SessionStatus) (reason : String) (now : Int) : SessionRow :=
  {row with status,terminalAt := some now,terminalReason := reason}

/-- The private state of a login goes with its end. -/
def finished (row : LoginRow) (status : LoginStatus) (failureCode : String) (now : Int) : LoginRow :=
  {row with status,failureCode,terminalAt := some now,privateState := none}

def Write.apply : Write → Database → Database
  | .insertUser id row,db => {db with users := db.users.insert id row}
  | .refreshUserAvatar id avatarURL,db => {db with users := Table.modify id (fun row => {row with avatarURL}) db.users}
  | .insertExternalIdentity id row,db => {db with identities := db.identities.insert id row}
  | .refreshExternalIdentity id displayName avatarURL,db => {db with
      identities := Table.modify id (fun row => {row with status := .active,displayName,avatarURL}) db.identities}
  | .insertWebSession id row,db => {db with sessions := db.sessions.insert id row}
  | .touchWebSession id now,db => {db with sessions := Table.modify id (fun row => {row with lastUsedAt := now}) db.sessions}
  | .terminalWebSession id status reason now,db => {db with
      sessions := Table.modify id (fun row => terminal row status reason now) db.sessions}
  | .revokeWebSessions ids reason now,db => {db with
      sessions := Table.updateAll (fun id row => if id ∈ ids then terminal row .revoked reason now else row) db.sessions}
  | .reauthenticateWebSession id now absoluteExpiresAt,db => {db with
      sessions := Table.modify id (fun row => {row with reauthenticatedAt := now,lastUsedAt := now,absoluteExpiresAt})
        db.sessions}
  | .insertWebSessionSecret id generation row,db => {db with secrets := db.secrets.insert (id,generation) row}
  | .supersedeWebSessionSecret id now,db => {db with
      secrets := Table.updateAll (fun key row =>
        if key.1 = id ∧ row.supersededAt = none then {row with supersededAt := some now} else row) db.secrets}
  | .insertFederatedLogin id row,db => {db with logins := db.logins.insert id row}
  | .claimFederatedLogin id,db => {db with logins := Table.modify id (fun row => {row with status := .completing}) db.logins}
  | .finishFederatedLogin id status failureCode now,db => {db with
      logins := Table.modify id (fun row => finished row status failureCode now) db.logins}
  | .insertCLIAuthorization id row,db => {db with authorizations := db.authorizations.insert id row}
  | .bindCLIReviewSession id webSessionID,db => {db with
      authorizations := Table.modify id (fun row => {row with reviewSessionID := some webSessionID}) db.authorizations}
  | .decideCLIAuthorization id status userID terminalAt,db => {db with
      authorizations := Table.modify id (fun row => {row with status,approvingUserID := some userID,terminalAt})
        db.authorizations}
  | .expireCLIAuthorization id now,db => {db with
      authorizations := Table.modify id (fun row => {row with status := .expired,terminalAt := some now})
        db.authorizations}
  | .advanceCLIPoll id nextPollAt intervalSeconds,db => {db with
      authorizations := Table.modify id (fun row => {row with nextPollAt,pollIntervalSeconds := intervalSeconds})
        db.authorizations}
  | .insertCLICredential id row,db => {db with credentials := db.credentials.insert id row}
  | .claimCLIAuthorization id credentialID now,db => {db with
      authorizations := Table.modify id
        (fun row => {row with status := .claimed,issuedCredentialID := some credentialID,terminalAt := some now})
        db.authorizations}
  | .codeAttemptFailure webSessionID windowStart row,db => {db with
      windows := db.windows.insert (webSessionID,windowStart) row}
  | .audit record,db => {db with audit := db.audit++[record]}

instance : Writes Database Write where
  apply := Write.apply

abbrev Transaction := Tx Database Write Error

/-! Statements. -/

def query {α : Type} (read : Database → α) : Transaction α := statement fun _ db => some (read db,[])

/-- `SELECT clock_timestamp()` -/
def databaseTime : Transaction Int := statement fun now _ => some (now,[])

/-- A statement that meets every constraint. -/
def execute {α : Type} (write : Int → Database → α × List Write) : Transaction α :=
  statement fun now db => some (write now db)

/-- An insertion, which fails when its constraints do. -/
def insertion {α : Type} (allowed : Database → Bool) (write : Int → α × List Write) : Transaction α :=
  statement fun now db => if allowed db then some (write now) else none

/-- The bounds of the identities in an audit record. -/
def AuditRecord.bounded (record : AuditRecord) : Bool :=
  len record.initiatorID ≤ 200 && len record.targetID ≤ 200 && len record.requestID ≤ 200 &&
    len record.providerRegistrationID ≤ 100

def appendAudit (record : AuditRecord) : Transaction Unit := do
  let _ ← draw
  insertion (fun _ => record.bounded) fun _ => ((),[.audit record])

section Sessions
variable (db : Database)

structure WebRow where
  id : String
  session : SessionRow
  user : UserRow
  generation : Nat
  secret : SecretRow

def getUser (id : String) : Option UserRow := db.users.lookup id

def getWebSession (id : String) : Option (SessionRow × UserRow) := do
  let session ← db.sessions.lookup id
  let user ← db.users.lookup session.userID
  pure (session,user)

def getWebAuthentication (secretDigest : String) : Option WebRow := do
  let ((id,generation),secret) ← db.secrets.rows.find? fun row =>
    row.2.secretDigest = secretDigest && row.2.supersededAt = none
  let (session,user) ← getWebSession db id
  pure ⟨id,session,user,generation,secret⟩

def getCurrentGeneration (id : String) : Option Nat := do
  let ((_,generation),_) ← db.secrets.rows.find? fun row => row.1.1 = id && row.2.supersededAt = none
  pure generation

def activeSession (id : String) : Bool := (db.sessions.lookup id).any fun row => row.status = .active

end Sessions

def touchWebSession (id : String) (writeInterval : Int) : Transaction (Option Int) :=
  execute fun now db =>
    match db.sessions.lookup id with
    | some row => if row.status = .active ∧ row.lastUsedAt ≤ now-durationSeconds writeInterval*second
      then (some now,[.touchWebSession id now]) else (none,[])
    | none => (none,[])

def terminalWebSession (id : String) (status : SessionStatus) (reason : String) : Transaction Unit :=
  execute fun now db => ((),if activeSession db id then [.terminalWebSession id status reason now] else [])

end ATape.Authentication
