import ATape.Authentication.Tables

/-! Web sessions: their authentication, the check of a principal, new secrets and revocation. -/
namespace ATape.Authentication
open Foundation Go

structure Registration where
  id : String
  revision : String
  expectedIssuer : String
  callbackURI : String
deriving DecidableEq

/-- The accepted keys, one of which is active. -/
structure KeyRing where
  ids : List String
  activeID : String
  known : activeID ∈ ids

structure VerifiedExternalIdentity where
  issuer : String
  subject : String
  displayName : String
  avatarURL : String
deriving DecidableEq

/-- Why a private state is not opened. -/
inductive PrivateStateFailure
  | misconfigured
  | loginStateMismatch
deriving DecidableEq

def PrivateStateFailure.code : PrivateStateFailure → ErrorCode
  | .misconfigured => .misconfigured
  | .loginStateMismatch => .loginStateMismatch

/-- Digests are texts. Keys, ciphers and the parsers of URLs and UUIDs are parameters. -/
structure Module where
  policy : Policy
  registration : String → String → Option Registration
  activeRegistration : String → Option Registration
  pepperKeys : KeyRing
  keyedCodeDigest : String → String → String
  highEntropyDigest : String → String → String
  decryptPrivateState : String → LoginRow → Except PrivateStateFailure String
  validProfile : VerifiedExternalIdentity → Bool
  parseUUID : String → Option String

inductive AuthenticationMethod
  | webAuthentication
  | cliAuthentication
  | none
deriving DecidableEq

structure Principal where
  userID : String
  method : AuthenticationMethod
  webSessionID : String
  cliCredentialID : String
  authenticatedAt : Int
  fresh : Bool

structure User where
  id : String
  displayName : String
  avatarURL : String
  createdAt : Int
deriving DecidableEq

structure WebSession where
  id : String
  userID : String
  createdAt : Int
  lastUsedAt : Int
  reauthenticatedAt : Int
  absoluteExpiresAt : Int
deriving DecidableEq

structure WebState where
  principal : Principal
  user : User
  session : WebSession
  generation : Nat
  csrfToken : String

structure WebSessionGrant where
  user : User
  session : WebSession
  sessionSecret : String
  csrfToken : String
  returnTo : String
deriving DecidableEq

def base64URL (c : Char) : Bool := c.isAlphanum || c = '-' || c = '_'

/-- A text of 32 bytes behind its prefix. Line ends are skipped. -/
def validateOpaqueSecret (secret opening : String) : Bool :=
  let material := (secret.toList.drop opening.length).filter fun c => c ≠ '\r' && c ≠ '\n'
  opening.toList.isPrefixOf secret.toList && material.length = 43 && material.all base64URL

def unprintable (c : Char) : Bool := c = '\x00' || c = '\r' || c = '\n'

def validateRequestID (value : String) : Bool := len value ≤ 200 && !value.toList.any unprintable

def validAuditReason (value : String) : Bool := len value ≤ 100 && !value.toList.any unprintable

def boundedReason (value fallback : String) : String := if trimSpace value = "" then fallback else trimSpace value

def userOf (id : String) (row : UserRow) : User := ⟨id,row.displayName,row.avatarURL,row.createdAt⟩

def sessionOf (id : String) (row : SessionRow) : WebSession :=
  ⟨id,row.userID,row.createdAt,row.lastUsedAt,row.reauthenticatedAt,row.absoluteExpiresAt⟩

def expiryAudit (id reason : String) : AuditRecord :=
  ⟨"system","","web_session.expire","web_session",id,"succeeded",reason,"","",id,""⟩

def terminalizeWebSession (id : String) (status : SessionStatus) (reason : String) : Transaction Unit := do
  terminalWebSession id status reason
  appendAudit (expiryAudit id reason)

/-- A text of 32 random bytes behind its prefix. -/
def newSecret (opening : String) : Transaction String := do
  let random ← draw
  pure (opening++random)

namespace Module
variable (m : Module)

def idleDeadline (row : SessionRow) : Int := row.lastUsedAt+(m.policy.webSessionIdleTTL+m.policy.lastUsedWriteInterval)

def isFresh (row : SessionRow) (now : Int) : Bool := now-row.reauthenticatedAt ≤ m.policy.freshAuthenticationTTL

def secretDigest (secret : String) : String := m.highEntropyDigest "web-session-secret" secret

def csrfToken (secret : String) : String := "atx_v1_"++m.highEntropyDigest "csrf-material" secret

def csrfDigest (secret : String) : String := m.highEntropyDigest "csrf-token" (m.csrfToken secret)

def webState (row : WebRow) (secret : String) (now lastUsedAt : Int) : WebState :=
  ⟨⟨row.session.userID,.webAuthentication,row.id,"",now,m.isFresh row.session now⟩,userOf row.session.userID row.user,
    {sessionOf row.id row.session with lastUsedAt},row.generation,m.csrfToken secret⟩

def touched (row : WebRow) (secret : String) (now : Int) : Transaction WebState := do
  let touchedAt ← touchWebSession row.id m.policy.lastUsedWriteInterval
  pure (m.webState row secret now (touchedAt.getD row.session.lastUsedAt))

def authenticateRow (secret : String) (requireFresh touch : Bool) (row : WebRow) (now : Int) : Transaction WebState :=
  if row.user.status ≠ .active then refuse (domainError .userDisabled) else
  match row.session.status with
  | .revoked => refuse (domainError .sessionRevoked)
  | .idleExpired => refuse (domainError .sessionIdleExpired)
  | .absoluteExpired => settle (domainError .sessionAbsoluteExpired)
  | .active =>
    if row.session.absoluteExpiresAt ≤ now then do
      terminalizeWebSession row.id .absoluteExpired "absolute_lifetime"
      refuse (domainError .sessionAbsoluteExpired)
    else if m.idleDeadline row.session ≤ now then do
      terminalizeWebSession row.id .idleExpired "idle_timeout"
      settle (domainError .sessionIdleExpired)
    else if requireFresh && !m.isFresh row.session now then refuse (domainError .freshAuthenticationRequired)
    else if row.secret.csrfDigest ≠ m.csrfDigest secret then refuse (domainError .misconfigured)
    else if touch then m.touched row secret now
    else pure (m.webState row secret now row.session.lastUsedAt)

def authenticateWebInTransaction (secret : String) (requireFresh touch : Bool) : Transaction WebState := do
  let row ← query fun db => getWebAuthentication db (m.secretDigest secret)
  match row with
  | none => refuse (domainError .unauthenticated)
  | some row => do
    let now ← databaseTime
    m.authenticateRow secret requireFresh touch row now

/-! The check of a principal. -/

structure ValidatedWebPrincipal where
  id : String
  userID : String
  now : Int

def sessionError (row : SessionRow × UserRow) (userID : String) (now : Int) : Option ErrorCode :=
  if row.1.userID ≠ userID ∨ row.1.status ≠ .active then some .sessionRevoked
  else if row.2.status ≠ .active then some .userDisabled
  else if row.1.absoluteExpiresAt ≤ now then some .sessionAbsoluteExpired
  else if m.idleDeadline row.1 ≤ now then some .sessionIdleExpired
  else none

/-- The clock is read behind the lock of the session, unless an error shows before. -/
def validateRow (id userID : String) (row : SessionRow × UserRow) : Transaction ValidatedWebPrincipal :=
  if row.1.userID ≠ userID ∨ row.1.status ≠ .active then refuse (domainError .sessionRevoked)
  else if row.2.status ≠ .active then refuse (domainError .userDisabled)
  else do
    let now ← databaseTime
    match m.sessionError row userID now with
    | some code => refuse (domainError code)
    | none => pure ⟨id,row.1.userID,now⟩

def validateWebPrincipalInTransaction (principal : Principal) : Transaction ValidatedWebPrincipal :=
  if principal.method ≠ .webAuthentication ∨ principal.webSessionID = "" ∨ principal.userID = "" then
    refuse (domainError .unauthenticated)
  else match m.parseUUID principal.webSessionID with
  | none => refuse (domainError .unauthenticated)
  | some sessionID => do
    let row ← query fun db => getWebSession db sessionID
    match row with
    | none => refuse (domainError .unauthenticated)
    | some row => m.validateRow sessionID principal.userID row

/-! Secrets. -/

def secretRow (secret : String) : SecretRow := ⟨m.secretDigest secret,m.csrfDigest secret,none⟩

/-- The keys of the table: one secret of a generation, one of a digest and one that is current. -/
def secretAllowed (id : String) (generation : Nat) (secret : String) (db : Database) : Bool :=
  (db.secrets.lookup (id,generation)).isNone &&
    !db.secrets.any fun key row => row.secretDigest = m.secretDigest secret || (key.1 = id && row.supersededAt = none)

def insertWebSessionSecret (id : String) (generation : Nat) (secret : String) : Transaction Unit :=
  insertion (m.secretAllowed id generation secret) fun _ => ((),[.insertWebSessionSecret id generation (m.secretRow secret)])

def sessionAudit (action id requestID registrationID initiatorKind initiatorID : String) : AuditRecord :=
  ⟨initiatorKind,initiatorID,action,"web_session",id,"succeeded","",requestID,registrationID,id,""⟩

def newSessionRow (userID : String) (now : Int) : SessionRow :=
  ⟨userID,.active,now,now,now,now+durationSeconds m.policy.webSessionAbsoluteTTL*second,none,""⟩

def insertWebSession (id userID : String) : Transaction SessionRow :=
  insertion (fun db => (db.sessions.lookup id).isNone) fun now =>
    (m.newSessionRow userID now,[.insertWebSession id (m.newSessionRow userID now)])

def newWebSessionInTransaction (user : User) (requestID registrationID initiatorID returnTo : String) :
    Transaction WebSessionGrant := do
  let sessionID ← draw
  let sessionSecret ← newSecret "ats_v1_"
  let row ← m.insertWebSession sessionID user.id
  m.insertWebSessionSecret sessionID 1 sessionSecret
  appendAudit (sessionAudit "web_session.create" sessionID requestID registrationID "federated_login" initiatorID)
  pure ⟨user,sessionOf sessionID row,sessionSecret,m.csrfToken sessionSecret,returnTo⟩

def reauthenticateWebSession (id : String) : Transaction (Option SessionRow) :=
  execute fun now db =>
    let absoluteExpiresAt := now+durationSeconds m.policy.webSessionAbsoluteTTL*second
    match db.sessions.lookup id with
    | some row => if row.status = .active
      then (some {row with reauthenticatedAt := now,lastUsedAt := now,absoluteExpiresAt},
        [.reauthenticateWebSession id now absoluteExpiresAt])
      else (none,[])
    | none => (none,[])

def supersedeWebSessionSecret (id : String) : Transaction Unit :=
  execute fun now db =>
    ((),if db.secrets.any fun key row => key.1 = id && row.supersededAt = none
      then [.supersedeWebSessionSecret id now] else [])

/-- The session of a new secret, which a reauthentication makes new as well. -/
def refreshed (id : String) (row : SessionRow) (reauthenticate : Bool) : Transaction SessionRow :=
  if reauthenticate then do
    let fresh ← m.reauthenticateWebSession id
    match fresh with
    | some fresh => pure fresh
    | none => faulty
  else pure row

def rotateAudit (id : String) (reauthenticate : Bool) (requestID registrationID initiatorID : String) : AuditRecord :=
  sessionAudit (if reauthenticate then "web_session.reauthenticate" else "web_session.rotate") id requestID registrationID
    "federated_login" initiatorID

def rotateWebSessionInTransaction (user : User) (sessionID : String) (reauthenticate : Bool)
    (requestID registrationID initiatorID returnTo : String) : Transaction WebSessionGrant := do
  let generation ← query fun db => getCurrentGeneration db sessionID
  match generation with
  | none => faulty
  | some generation => do
    supersedeWebSessionSecret sessionID
    let sessionSecret ← newSecret "ats_v1_"
    m.insertWebSessionSecret sessionID (generation+1) sessionSecret
    let row ← query fun db => getWebSession db sessionID
    match row with
    | none => faulty
    | some (row,_) => do
      let row ← m.refreshed sessionID row reauthenticate
      appendAudit (rotateAudit sessionID reauthenticate requestID registrationID initiatorID)
      pure ⟨user,{sessionOf sessionID row with userID := user.id},sessionSecret,m.csrfToken sessionSecret,returnTo⟩

/-! Revocation. -/

structure RevokeWebSessionsInput where
  principal : Principal
  all : Bool
  sessionID : String
  reason : String
  requestID : String

def revokeSessions (chosen : String → SessionRow → Bool) (reason : String) : Transaction Nat :=
  execute fun now db =>
    let ids := (db.sessions.rows.filter fun row => chosen row.1 row.2 && row.2.status = .active).map Prod.fst
    (ids.length,if ids.isEmpty then [] else [.revokeWebSessions ids reason now])

def revokeAudit (input : RevokeWebSessionsInput) (targetID : String) : AuditRecord :=
  ⟨"principal",input.principal.userID,"web_session.revoke","web_session",targetID,"succeeded",
    boundedReason input.reason "user_revoked",input.requestID,"",input.principal.webSessionID,""⟩

def revoked (input : RevokeWebSessionsInput) (targetID : String) (affected : Nat) : Transaction Unit :=
  if affected > 0 then appendAudit (revokeAudit input targetID) else pure ()

def revokeWebSessionsInTransaction (input : RevokeWebSessionsInput) : Transaction Unit := do
  let principal ← m.validateWebPrincipalInTransaction input.principal
  if input.all then do
    let affected ← revokeSessions (fun _ row => row.userID = principal.userID) (boundedReason input.reason "user_revoked_all")
    revoked input principal.userID affected
  else match m.parseUUID input.sessionID with
  | none => pure ()
  | some sessionID => do
    let affected ← revokeSessions (fun id row => id = sessionID && row.userID = principal.userID)
      (boundedReason input.reason "user_revoked")
    revoked input input.sessionID affected

def revokeWebSessions (input : RevokeWebSessionsInput) : Except Error (Transaction Unit) :=
  if (!input.all && input.sessionID = "") || !validateRequestID input.requestID || !validAuditReason input.reason then
    .error (domainError .invalidRequest)
  else .ok (m.revokeWebSessionsInTransaction input)

def authenticateWeb (secret : String) (requireFresh : Bool) : Except Error (Transaction WebState) :=
  if !validateOpaqueSecret secret "ats_v1_" then .error (domainError .unauthenticated)
  else .ok (m.authenticateWebInTransaction secret requireFresh true)

end Module
end ATape.Authentication
