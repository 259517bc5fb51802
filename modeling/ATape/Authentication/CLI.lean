import ATape.Authentication.Sessions

/-! CLI device authorizations: their creation, the review of a browser, its decision and the
polls of a device. -/
namespace ATape.Authentication
open Foundation Go

def deviceUserCodeAlphabet : String := "ABCDEFGHJKLMNPQRSTUVWXYZ23456789"

def deviceUserCodeLength : Nat := 6

def cliClientLabel : String := "atape-cli"

def cliCapabilityVersion : String := "atape-cli.v1"

/-- `unicode.ToUpper` on the letters whose capital is in the alphabet of codes. -/
def codeUpper (c : Char) : Char := if c = 'ſ' then 'S' else c.toUpper

def normalizeDeviceUserCode (value : String) : Option String :=
  let normalized := String.ofList (((trimSpace value).toList.map codeUpper).filter fun c => c ≠ ' ')
  if normalized.toList.all (deviceUserCodeAlphabet.toList.contains ·) ∧ len normalized = deviceUserCodeLength
  then some normalized else none

/-- Five bits of each of the random bytes. -/
def deviceUserCode (random : String) : String :=
  String.ofList ((random.toList.take deviceUserCodeLength).map fun c =>
    deviceUserCodeAlphabet.toList.getD (c.toNat%32) 'A')

def randomDeviceUserCode : Transaction String := do
  let random ← draw
  if random.length < deviceUserCodeLength then faulty else pure (deviceUserCode random)

/-! Statements. -/

def live (row : AuthorizationRow) : Bool := row.status = .pending || row.status = .approvedUnclaimed

def liveCLICodeExists (db : Database) (keyID digest : String) : Bool :=
  db.authorizations.any fun _ row => row.userCodeKeyID = keyID && row.userCodeDigest = digest && live row

/-- Rows of the same code are found in any order. -/
def getAuthorizationByUserCode (db : Database) (keyID digest : String) : Option (String × AuthorizationRow) :=
  db.authorizations.rows.find? fun row => row.2.userCodeKeyID = keyID && row.2.userCodeDigest = digest

def getAuthorizationByDeviceCode (db : Database) (digest : String) : Option (String × AuthorizationRow) :=
  db.authorizations.rows.find? fun row => row.2.deviceCodeDigest = digest

def authorizationIn (db : Database) (id : String) (held : AuthorizationRow → Bool) : Bool :=
  (db.authorizations.lookup id).any held

def expireCLIAuthorization (id : String) : Transaction Unit :=
  execute fun now db => ((),if authorizationIn db id live then [.expireCLIAuthorization id now] else [])

def bindCLIReviewSession (id webSessionID : String) : Transaction Bool :=
  execute fun _ db =>
    if authorizationIn db id fun row => row.status = .pending && row.reviewSessionID = none
    then (true,[.bindCLIReviewSession id webSessionID]) else (false,[])

def approveCLIAuthorization (id userID : String) : Transaction Unit :=
  execute fun _ db => ((),if authorizationIn db id fun row => row.status = .pending
    then [.decideCLIAuthorization id .approvedUnclaimed userID none] else [])

def denyCLIAuthorization (id userID : String) : Transaction Unit :=
  execute fun now db => ((),if authorizationIn db id fun row => row.status = .pending
    then [.decideCLIAuthorization id .denied userID (some now)] else [])

/-- An interval is of one to three hundred seconds. -/
def advanceCLIPoll (id : String) (intervalSeconds : Int) : Transaction Unit :=
  statement fun now db =>
    if authorizationIn db id (fun row => row.status = .pending) ∧ 1 ≤ intervalSeconds ∧ intervalSeconds ≤ 300
    then some ((),[.advanceCLIPoll id (now+intervalSeconds*second) intervalSeconds]) else none

def credentialAllowed (id : String) (row : CredentialRow) (db : Database) : Bool :=
  (db.credentials.lookup id).isNone &&
    !db.credentials.any fun _ other => other.authorizationID = row.authorizationID || other.secretDigest = row.secretDigest

def insertCLICredential (id userID authorizationID secretDigest : String) : Transaction Int :=
  insertion (credentialAllowed id ⟨userID,authorizationID,secretDigest,.active,0⟩) fun now =>
    (now,[.insertCLICredential id ⟨userID,authorizationID,secretDigest,.active,now⟩])

def claimCLIAuthorization (id credentialID : String) : Transaction Unit :=
  execute fun now db => ((),if authorizationIn db id fun row => row.status = .approvedUnclaimed
    then [.claimCLIAuthorization id credentialID now] else [])

namespace Module
variable (m : Module)

/-! Creation. -/

def liveCodeCollision (normalized : String) : List String → Transaction Bool
  | [] => pure false
  | id::ids => do
    let found ← query fun db => liveCLICodeExists db id (m.keyedCodeDigest id normalized)
    if found then pure true else liveCodeCollision normalized ids

def selectCode : Nat → Transaction (Option String)
  | 0 => pure none
  | attempts+1 => do
    let normalized ← randomDeviceUserCode
    let collision ← m.liveCodeCollision normalized m.pepperKeys.ids
    if collision then selectCode attempts else pure (some normalized)

structure CLIDeviceAuthorization where
  id : String
  deviceCode : String
  userCode : String
  expiresAt : Int
  pollIntervalSeconds : Int

def authorizationRow (deviceCode normalized : String) (now : Int) : AuthorizationRow :=
  let interval := durationSeconds m.policy.initialPollInterval
  ⟨m.highEntropyDigest "cli-device-code" deviceCode,m.pepperKeys.activeID,
    m.keyedCodeDigest m.pepperKeys.activeID normalized,.pending,interval,now+interval*second,
    now+durationSeconds m.policy.cliAuthorizationTTL*second,none,none,none,none⟩

/-- The keys of the table: ids, device codes and the user codes that are live. -/
def authorizationAllowed (id : String) (row : AuthorizationRow) (db : Database) : Bool :=
  (db.authorizations.lookup id).isNone &&
    !db.authorizations.any fun _ other => other.deviceCodeDigest = row.deviceCodeDigest ||
      (live other && other.terminalAt = none && other.userCodeKeyID = row.userCodeKeyID &&
        other.userCodeDigest = row.userCodeDigest)

def insertCLIAuthorization (id deviceCode normalized : String) : Transaction Int :=
  insertion (authorizationAllowed id (m.authorizationRow deviceCode normalized 0)) fun now =>
    ((m.authorizationRow deviceCode normalized now).expiresAt,
      [.insertCLIAuthorization id (m.authorizationRow deviceCode normalized now)])

/-- The transaction of a device code. Creations wait for one another. -/
def createInTransaction (deviceCode : String) : Transaction CLIDeviceAuthorization := do
  let _ ← query fun _ => ()
  let selected ← m.selectCode m.policy.shortCodeAttempts
  match selected with
  | none => refuse (domainError .serviceUnavailable)
  | some normalized => do
    let id ← draw
    let expiresAt ← m.insertCLIAuthorization id deviceCode normalized
    pure ⟨id,deviceCode,normalized,expiresAt,durationSeconds m.policy.initialPollInterval⟩

/-! Review. -/

structure CLIAuthorizationView where
  id : String
  userCode : String
  expiresAt : Int
  clientLabel : String
  capability : String
  status : AuthorizationStatus

/-- `now.Truncate` -/
def windowStart (now : Int) : Int := now-now%m.policy.codeAttemptWindow

def windowEnd (now : Int) : Int := m.windowStart now+m.policy.codeAttemptWindow

def positiveCeilingSeconds (duration : Int) : Int := if duration ≤ 0 then 1 else (duration+(second-1))/second

def tooManyAttempts (now : Int) : Error :=
  ⟨.tooManyCodeAttempts,positiveCeilingSeconds (m.windowEnd now-now)⟩

def failureRow (now : Int) (window : Option WindowRow) : WindowRow :=
  match window with
  | none => ⟨1,if m.policy.maximumCodeFailures ≤ 1 then some (m.windowEnd now) else none⟩
  | some row => ⟨row.failureCount+1,
      if m.policy.maximumCodeFailures ≤ row.failureCount+1 then some (m.windowEnd now) else row.blockedUntil⟩

def upsertCodeAttemptFailure (webSessionID : String) (now : Int) : Transaction WindowRow :=
  statement fun _ db =>
    let row := m.failureRow now (db.windows.lookup (webSessionID,m.windowStart now))
    if row.failureCount ≤ 100000 then some (row,[.codeAttemptFailure webSessionID (m.windowStart now) row]) else none

def blockAudit (principal : ValidatedWebPrincipal) (requestID : String) : AuditRecord :=
  ⟨"principal",principal.userID,"cli_authorization.user_code_block","web_session",principal.id,"denied",
    "failure_budget",requestID,"",principal.id,""⟩

/-- The answer of a transaction that is committed, although it may be an error. -/
abbrev Resolved := Except Error CLIAuthorizationView

def recordInvalidUserCode (principal : ValidatedWebPrincipal) (requestID : String) : Transaction Resolved := do
  let window ← m.upsertCodeAttemptFailure principal.id principal.now
  if m.policy.maximumCodeFailures ≤ window.failureCount then do
    appendAudit (blockAudit principal requestID)
    pure (.error (m.tooManyAttempts principal.now))
  else pure (.error (domainError .invalidUserCode))

/-- The authorizations of a code, one for each accepted key. -/
def findByUserCode (normalized : String) : List String → Transaction (List (String × AuthorizationRow))
  | [] => pure []
  | id::ids => do
    let found ← query fun db => getAuthorizationByUserCode db id (m.keyedCodeDigest id normalized)
    let others ← findByUserCode normalized ids
    pure (found.toList++others)

def ambiguousAudit (principal : ValidatedWebPrincipal) (requestID : String) : AuditRecord :=
  ⟨"principal",principal.userID,"cli_authorization.resolve","cli_authorization","","failed","ambiguous_user_code_digest",
    requestID,"",principal.id,""⟩

def viewOf (id normalized : String) (row : AuthorizationRow) : CLIAuthorizationView :=
  ⟨id,normalized,row.expiresAt,cliClientLabel,cliCapabilityVersion,row.status⟩

def bindReview (principal : ValidatedWebPrincipal) (id normalized : String) (row : AuthorizationRow) :
    Transaction Resolved :=
  if row.reviewSessionID = none then do
    let bound ← bindCLIReviewSession id principal.id
    if bound then pure (.ok (viewOf id normalized row)) else faulty
  else pure (.ok (viewOf id normalized row))

def reviewGrant (principal : ValidatedWebPrincipal) (requestID id normalized : String) (row : AuthorizationRow) :
    Transaction Resolved :=
  if row.expiresAt ≤ principal.now then do
    expireCLIAuthorization id
    m.recordInvalidUserCode principal requestID
  else if row.reviewSessionID.isSome ∧ row.reviewSessionID ≠ some principal.id then
    m.recordInvalidUserCode principal requestID
  else if row.status ≠ .pending ∧ row.status ≠ .approvedUnclaimed ∧ row.status ≠ .denied then
    m.recordInvalidUserCode principal requestID
  else bindReview principal id normalized row

def reviewMatches (principal : ValidatedWebPrincipal) (requestID normalized : String) :
    List (String × AuthorizationRow) → Transaction Resolved
  | [(id,row)] => m.reviewGrant principal requestID id normalized row
  | [] => m.recordInvalidUserCode principal requestID
  | _ => do
    appendAudit (ambiguousAudit principal requestID)
    pure (.error (domainError .misconfigured))

def blocked (now : Int) (window : WindowRow) : Bool :=
  m.policy.maximumCodeFailures ≤ window.failureCount || window.blockedUntil.any fun time => now < time

def review (userCode requestID : String) (principal : ValidatedWebPrincipal) : Transaction Resolved :=
  match normalizeDeviceUserCode userCode with
  | none => m.recordInvalidUserCode principal requestID
  | some normalized => do
    let found ← m.findByUserCode normalized m.pepperKeys.ids
    m.reviewMatches principal requestID normalized found

def resolveInTransaction (caller : Principal) (userCode requestID : String) : Transaction Resolved := do
  let principal ← m.validateWebPrincipalInTransaction caller
  let window ← query fun db => db.windows.lookup (principal.id,m.windowStart principal.now)
  if window.any (m.blocked principal.now) then pure (.error (m.tooManyAttempts principal.now))
  else m.review userCode requestID principal

def resolveCLIDeviceAuthorization (caller : Principal) (userCode requestID : String) : Except Error (Transaction Resolved) :=
  if !validateRequestID requestID then .error (domainError .invalidRequest)
  else .ok (m.resolveInTransaction caller userCode requestID)

/-! Decision. -/

inductive CLIDecision
  | approve
  | deny
deriving DecidableEq

def CLIDecision.text : CLIDecision → String
  | .approve => "approve"
  | .deny => "deny"

def decisionAudit (caller : Principal) (id requestID : String) (decision : CLIDecision) : AuditRecord :=
  ⟨"principal",caller.userID,"cli_authorization."++decision.text,"cli_authorization",id,"succeeded","",requestID,"",
    caller.webSessionID,""⟩

def decidePending (principal : ValidatedWebPrincipal) (id : String) (decision : CLIDecision) : Transaction Unit :=
  match decision with
  | .approve => approveCLIAuthorization id principal.userID
  | .deny => denyCLIAuthorization id principal.userID

def decidedAlready (principal : ValidatedWebPrincipal) (row : AuthorizationRow) (same : Bool) : Transaction Unit :=
  if same = false ∨ row.approvingUserID ≠ some principal.userID then refuse (domainError .grantAlreadyDecided) else pure ()

def decideGrant (caller : Principal) (principal : ValidatedWebPrincipal) (id requestID : String) (decision : CLIDecision)
    (row : AuthorizationRow) : Transaction Unit :=
  if row.reviewSessionID ≠ some principal.id then refuse (domainError .invalidUserCode)
  else if row.expiresAt ≤ principal.now ∧ row.status ≠ .claimed ∧ row.status ≠ .denied then do
    expireCLIAuthorization id
    settle (domainError .expiredToken)
  else match row.status with
  | .pending => do
    decidePending principal id decision
    appendAudit (decisionAudit caller id requestID decision)
  | .approvedUnclaimed => decidedAlready principal row (decision = .approve)
  | .denied => decidedAlready principal row (decision = .deny)
  | .claimed => refuse (domainError .grantConsumed)
  | .expired => refuse (domainError .expiredToken)

def decideInTransaction (caller : Principal) (id requestID : String) (decision : CLIDecision) : Transaction Unit := do
  let principal ← m.validateWebPrincipalInTransaction caller
  let row ← query fun db => db.authorizations.lookup id
  match row with
  | none => refuse (domainError .invalidUserCode)
  | some row => decideGrant caller principal id requestID decision row

def decideCLIDeviceAuthorization (caller : Principal) (id requestID : String) (decision : Option CLIDecision) :
    Except Error (Transaction Unit) :=
  match decision with
  | none => .error (domainError .invalidRequest)
  | some decision =>
    if !validateRequestID requestID then .error (domainError .invalidRequest)
    else match m.parseUUID id with
    | none => .error (domainError .invalidRequest)
    | some id => .ok (m.decideInTransaction caller id requestID decision)

/-! Polls. -/

structure CLICredentialGrant where
  credentialID : String
  credentialSecret : String
  capability : String
  createdAt : Int
  user : User
deriving DecidableEq

/-- A grant whose commit is not known yet. -/
structure IssuedCredentialAttempt where
  authorizationID : String
  grant : CLICredentialGrant
deriving DecidableEq

def pollPending (id : String) (row : AuthorizationRow) (now : Int) : Transaction IssuedCredentialAttempt :=
  let interval := row.pollIntervalSeconds*second
  if now < row.nextPollAt then do
    let longer := min (interval+5*second) m.policy.maximumPollInterval
    advanceCLIPoll id (durationSeconds longer)
    settle ⟨.slowDown,durationSeconds longer⟩
  else do
    advanceCLIPoll id (durationSeconds interval)
    settle ⟨.authorizationPending,durationSeconds interval⟩

def credentialAudit (credentialID requestID : String) : AuditRecord :=
  ⟨"anonymous_request","","cli_credential.issue","cli_credential",credentialID,"succeeded","",requestID,"","",credentialID⟩

def credentialDigest (secret : String) : String := m.highEntropyDigest "cli-credential-secret" secret

def issue (id requestID userID : String) (user : UserRow) : Transaction IssuedCredentialAttempt := do
  let credentialID ← draw
  let credentialSecret ← newSecret "atc_v1_"
  let createdAt ← insertCLICredential credentialID userID id (m.credentialDigest credentialSecret)
  claimCLIAuthorization id credentialID
  appendAudit (credentialAudit credentialID requestID)
  pure ⟨id,credentialID,credentialSecret,cliCapabilityVersion,createdAt,userOf userID user⟩

def pollApproved (id requestID : String) (row : AuthorizationRow) : Transaction IssuedCredentialAttempt :=
  match row.approvingUserID with
  | none => refuse (domainError .misconfigured)
  | some userID => do
    let user ← query fun db => getUser db userID
    match user with
    | none => faulty
    | some user =>
      if user.status ≠ .active then do
        expireCLIAuthorization id
        settle (domainError .accessDenied)
      else m.issue id requestID userID user

def pollGrant (id requestID : String) (row : AuthorizationRow) (now : Int) : Transaction IssuedCredentialAttempt :=
  if row.expiresAt ≤ now ∧ row.status ≠ .claimed ∧ row.status ≠ .denied then do
    expireCLIAuthorization id
    settle (domainError .expiredToken)
  else match row.status with
  | .pending => m.pollPending id row now
  | .denied => refuse (domainError .accessDenied)
  | .expired => refuse (domainError .expiredToken)
  | .claimed => refuse (domainError .grantConsumed)
  | .approvedUnclaimed => m.pollApproved id requestID row

def pollInTransaction (deviceCode requestID : String) : Transaction IssuedCredentialAttempt := do
  let row ← query fun db => getAuthorizationByDeviceCode db (m.highEntropyDigest "cli-device-code" deviceCode)
  match row with
  | none => refuse (domainError .invalidDeviceCode)
  | some (id,row) => do
    let now ← databaseTime
    m.pollGrant id requestID row now

def pollCLIDeviceAuthorization (deviceCode requestID : String) : Except Error (Transaction IssuedCredentialAttempt) :=
  if !validateOpaqueSecret deviceCode "atd_v1_" || !validateRequestID requestID then .error (domainError .invalidDeviceCode)
  else .ok (m.pollInTransaction deviceCode requestID)

/-- Behind a commit of which nothing is known, the claim is looked for. -/
def reconcileCLICredentialClaim (db : Database) (issued : IssuedCredentialAttempt) : Option CLICredentialGrant := do
  let row ← db.authorizations.lookup issued.authorizationID
  let credential ← db.credentials.lookup issued.grant.credentialID
  let user ← db.users.lookup credential.userID
  if row.status = .claimed ∧ row.issuedCredentialID = some issued.grant.credentialID ∧
      credential.secretDigest = m.credentialDigest issued.grant.credentialSecret
  then some {issued.grant with createdAt := credential.createdAt,user := userOf credential.userID user} else none

end Module
end ATape.Authentication
