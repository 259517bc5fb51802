import ATape.Authentication.Grants
import ATape.Authentication.Keeping

/-! Histories of web sessions and of federated logins. A login is claimed and completed by the same call;
maintenance expires and deletes what is due. -/
namespace ATape.Authentication
open Foundation

/-! Maintenance. -/

/-- One pass: how much it does and what it leaves to others, statement by statement. -/
structure Sweep where
  batchSize : ℕ
  retention : Int
  windowRetention : Int
  clock : ℕ → Int
  skipped : ℕ → String → Bool
  skippedSecrets : String × ℕ → Bool
  skippedWindows : String × Int → Bool

/-- Whether a time is past its retention. -/
def due (retention now : Int) (time : Option Int) : Bool := time.any fun time => time ≤ now-durationSeconds retention*second

/-- Rows of a session in the order of their times. -/
def earlierOf {κ ρ : Type} [LT κ] [DecidableLT κ] (time : (String × κ) × ρ → Int) (a b : (String × κ) × ρ) : Bool :=
  time a < time b || time a = time b && (a.1.1 < b.1.1 || a.1.1 = b.1.1 && !decide (b.1.2 < a.1.2))

section Maintenance
variable (sweep : Sweep) (db : Database)

def expireFederatedLoginBatch : Database :=
  let now := sweep.clock 0
  let ids := db.logins.batch (fun id row => openLogin row && row.expiresAt ≤ now && !sweep.skipped 0 id)
    (earlier LoginRow.expiresAt) sweep.batchSize
  {db with
    logins := Table.updateAll (fun id row => if id ∈ ids then finished row .expired "login_expired" now else row) db.logins}

def expireAuthorizations : Database :=
  let now := sweep.clock 1
  let ids := expiredCLIAuthorizations (sweep.skipped 1) sweep.batchSize now db
  {db with
    authorizations := Table.updateAll
      (fun id row => if id ∈ ids then {row with status := .expired,terminalAt := some now} else row) db.authorizations}

def Module.idleSeconds (m : Module) (row : SessionRow) : Int :=
  row.lastUsedAt+durationSeconds (m.policy.webSessionIdleTTL+m.policy.lastUsedWriteInterval)*second

def expiredSession (now : Int) (row : SessionRow) : SessionRow :=
  if row.absoluteExpiresAt ≤ now then terminal row .absoluteExpired "absolute_lifetime" now
  else terminal row .idleExpired "idle_timeout" now

def expireWebSessionBatch (m : Module) : Database :=
  let now := sweep.clock 2
  let ids := db.sessions.batch (fun id row => row.status = .active &&
      (row.absoluteExpiresAt ≤ now || m.idleSeconds row ≤ now) && !sweep.skipped 2 id)
    (earlier fun row => min row.absoluteExpiresAt (m.idleSeconds row)) sweep.batchSize
  {db with
    sessions := Table.updateAll (fun id row => if id ∈ ids then expiredSession now row else row) db.sessions
    audit := db.audit++ids.filterMap fun id => (db.sessions.lookup id).map fun row =>
      expiryAudit id (expiredSession now row).terminalReason}

def deleteCodeAttemptWindowBatch : Database :=
  let keys := db.windows.batch (fun key _ => due sweep.windowRetention (sweep.clock 3) (some key.2) && !sweep.skippedWindows key)
    (earlierOf fun row => row.1.2) sweep.batchSize
  {db with windows := Table.keep (fun key _ => !keys.contains key) db.windows}

def deleteFederatedLoginBatch : Database :=
  let ids := db.logins.batch (fun id row => due sweep.retention (sweep.clock 4) row.terminalAt && !sweep.skipped 4 id)
    (earlier fun row => row.terminalAt.getD 0) sweep.batchSize
  {db with logins := Table.keep (fun id _ => !ids.contains id) db.logins}

def deleteCLIAuthorizationBatch : Database :=
  let ids := db.authorizations.batch (fun id row => due sweep.retention (sweep.clock 5) row.terminalAt && !sweep.skipped 5 id)
    (earlier fun row => row.terminalAt.getD 0) sweep.batchSize
  {db with authorizations := Table.keep (fun id _ => !ids.contains id) db.authorizations}

/-- The end of a secret, or else of its session. -/
def secretEnd (key : String × ℕ) (row : SecretRow) : Option Int :=
  row.supersededAt.or ((db.sessions.lookup key.1).bind SessionRow.terminalAt)

def deleteWebSessionSecretBatch : Database :=
  let now := sweep.clock 6
  let keys := db.secrets.batch (fun key row => (db.sessions.lookup key.1).any (fun session =>
      due sweep.retention now row.supersededAt || due sweep.retention now session.terminalAt) && !sweep.skippedSecrets key)
    (earlierOf fun row => (secretEnd db row.1 row.2).getD 0) sweep.batchSize
  {db with secrets := Table.keep (fun key _ => !keys.contains key) db.secrets}

def deleteWebSessionBatch : Database :=
  let ids := db.sessions.batch (fun id row => due sweep.retention (sweep.clock 8) row.terminalAt &&
      !db.secrets.any (fun key _ => key.1 = id) && !db.windows.any (fun key _ => key.1 = id) &&
      !db.authorizations.any (fun _ row => row.reviewSessionID = some id) &&
      !db.logins.any (fun _ row => row.initiatingSessionID = some id) && !sweep.skipped 8 id)
    (earlier fun row => row.terminalAt.getD 0) sweep.batchSize
  {db with sessions := Table.keep (fun id _ => !ids.contains id) db.sessions}

end Maintenance

def Module.maintain (m : Module) (sweep : Sweep) (db : Database) : Database :=
  let db := expireFederatedLoginBatch sweep db
  let db := expireAuthorizations sweep db
  let db := expireWebSessionBatch sweep db m
  let db := deleteCodeAttemptWindowBatch sweep db
  let db := deleteFederatedLoginBatch sweep db
  let db := deleteCLIAuthorizationBatch sweep db
  let db := deleteWebSessionSecretBatch sweep db
  deleteWebSessionBatch sweep db

structure Sweeps (db db' : Database) : Prop where
  sessions : ∀ id row', db'.sessions.lookup id = some row' → ∃ row, db.sessions.lookup id = some row ∧ StillEnded row row'
  secrets : ∀ key row, db'.secrets.lookup key = some row → db.secrets.lookup key = some row
  logins : ∀ id row', db'.logins.lookup id = some row' → ∃ row, db.logins.lookup id = some row ∧ SameLogin row row'
  identities : db'.identities = db.identities

section Sweeping
variable {db db' : Database}

theorem Sweeps.of_same (sessions : db'.sessions = db.sessions) (secrets : db'.secrets = db.secrets)
    (logins : db'.logins = db.logins) (identities : db'.identities = db.identities) : Sweeps db db' := by
  refine ⟨fun id row held => ⟨row,sessions ▸ held,.refl row⟩,fun key row held => secrets ▸ held,
    fun id row held => ⟨row,logins ▸ held,.refl row⟩,identities⟩

theorem Sweeps.trans {a b c : Database} (left : Sweeps a b) (right : Sweeps b c) : Sweeps a c := by
  refine ⟨?_,fun key row held => left.secrets key row (right.secrets key row held),?_,right.identities.trans left.identities⟩
  · intro id row'' held
    obtain ⟨row',held',second⟩ := right.sessions id row'' held
    obtain ⟨row,held,first⟩ := left.sessions id row' held'
    exact ⟨row,held,fun ended => second (first ended)⟩
  · intro id row'' held
    obtain ⟨row',held',second⟩ := right.logins id row'' held
    obtain ⟨row,held,first⟩ := left.logins id row' held'
    exact ⟨row,held,first.trans second⟩

theorem swept_rows {κ ρ : Type} [DecidableEq κ] {t t' : Table κ ρ} {R : ρ → ρ → Prop} {f : κ → ρ → ρ}
    (rows : t' = Table.updateAll f t) (keep : ∀ k row, t.lookup k = some row → R row (f k row)) :
    ∀ k row', t'.lookup k = some row' → ∃ row, t.lookup k = some row ∧ R row row' := by
  intro k row' held'
  rw [rows,Table.lookup_updateAll] at held'
  obtain ⟨row,held,rfl⟩ := Option.map_eq_some_iff.mp held'
  exact ⟨row,held,keep k row held⟩

theorem keep_lookup {κ ρ : Type} [DecidableEq κ] {p : κ → ρ → Bool} {t : Table κ ρ} {k : κ} {row : ρ}
    (held : (Table.keep p t).lookup k = some row) : t.lookup k = some row := by
  rw [Table.lookup_keep] at held
  exact (Option.filter_eq_some_iff.mp held).1

theorem expireLogins_rows (sweep : Sweep) (db : Database) : ∃ f, (expireFederatedLoginBatch sweep db).logins =
    Table.updateAll f db.logins ∧ ∀ id row, db.logins.lookup id = some row → SameLogin row (f id row) := by
  dsimp only [expireFederatedLoginBatch]
  refine ⟨_,rfl,fun id row held => ?_⟩
  split
  next =>
    have final : row.status.rank ≤ 2 := by cases row.status <;> decide
    exact ⟨rfl,rfl,rfl,rfl,rfl,rfl,final⟩
  next => exact .refl row

theorem expireSessions_rows (m : Module) (sweep : Sweep) (db : Database) : ∃ f, (expireWebSessionBatch sweep db m).sessions =
    Table.updateAll f db.sessions ∧ ∀ id row, db.sessions.lookup id = some row → StillEnded row (f id row) := by
  dsimp only [expireWebSessionBatch]
  refine ⟨_,rfl,fun id row held => ?_⟩
  split
  next =>
    intro _
    unfold expiredSession
    split <;> simp [terminal]
  next => exact .refl row

theorem maintain_sweeps (m : Module) (sweep : Sweep) (db : Database) : Sweeps db (m.maintain sweep db) := by
  have logins : ∀ db, Sweeps db (expireFederatedLoginBatch sweep db) := by
    intro db
    obtain ⟨f,rows,keep⟩ := expireLogins_rows sweep db
    exact ⟨fun id row held => ⟨row,held,.refl row⟩,fun key row held => held,swept_rows rows keep,rfl⟩
  have sessions : ∀ db, Sweeps db (expireWebSessionBatch sweep db m) := by
    intro db
    obtain ⟨f,rows,keep⟩ := expireSessions_rows m sweep db
    exact ⟨swept_rows rows keep,fun key row held => held,fun id row held => ⟨row,held,.refl row⟩,rfl⟩
  have deleted : ∀ db, Sweeps db (deleteFederatedLoginBatch sweep db) := fun db =>
    ⟨fun id row held => ⟨row,held,.refl row⟩,fun key row held => held,fun id row held => ⟨row,keep_lookup held,.refl row⟩,rfl⟩
  have secrets : ∀ db, Sweeps db (deleteWebSessionSecretBatch sweep db) := fun db =>
    ⟨fun id row held => ⟨row,held,.refl row⟩,fun key row held => keep_lookup held,fun id row held => ⟨row,held,.refl row⟩,rfl⟩
  have gone : ∀ db, Sweeps db (deleteWebSessionBatch sweep db) := fun db =>
    ⟨fun id row held => ⟨row,keep_lookup held,.refl row⟩,fun key row held => held,fun id row held => ⟨row,held,.refl row⟩,rfl⟩
  have others : ∀ db, Sweeps db (expireAuthorizations sweep db) := fun db => .of_same rfl rfl rfl rfl
  have windows : ∀ db, Sweeps db (deleteCodeAttemptWindowBatch sweep db) := fun db => .of_same rfl rfl rfl rfl
  have authorizations : ∀ db, Sweeps db (deleteCLIAuthorizationBatch sweep db) := fun db => .of_same rfl rfl rfl rfl
  unfold Module.maintain
  exact (logins _).trans ((others _).trans ((sessions _).trans ((windows _).trans ((deleted _).trans
    ((authorizations _).trans ((secrets _).trans (gone _)))))))

end Sweeping

/-! Steps. -/

/-- An attempt at a transaction of sessions or of logins, a pass of maintenance, or whatever else
goes on. A completion is of the call that has claimed its login. -/
inductive WebAct
  | begin (intent : LoginIntent) (registration : Registration) (id requestID state browserBinding returnTo : String)
      (privateState : PrivateState) (schema : String) (initiator : Option (String × String)) (now : Int) (world : World)
      (commit : Commit)
  | claim (call : ℕ) (input : Module.CompleteFederatedLoginInput) (world : World) (commit : Commit)
  | fail (claimed : ClaimedFederatedLogin) (code : ErrorCode) (requestID : String) (world : World) (commit : Commit)
  | complete (call : ℕ) (input : Module.CompleteFederatedLoginInput) (claimed : ClaimedFederatedLogin)
      (identity : VerifiedExternalIdentity) (world : World) (commit : Commit)
  | authenticate (secret : String) (requireFresh : Bool) (world : World) (commit : Commit)
  | revoke (input : Module.RevokeWebSessionsInput) (world : World) (commit : Commit)
  | maintain (sweep : Sweep) (applied : Bool)
  | other (after : Database)

/-- A claim is made when nothing is wrong with its request. -/
def Module.claimFederatedLogin (m : Module) (input : Module.CompleteFederatedLoginInput) :
    Except Error (Transaction ClaimedFederatedLogin) :=
  match inputError input with
  | some code => .error (domainError code)
  | none => .ok (m.claimInTransaction input)

def WebAct.after (m : Module) (db : Database) : WebAct → Database
  | .begin intent registration id requestID state browserBinding returnTo privateState schema initiator now world commit =>
    attempted (.ok (Module.beginInTransaction id requestID
      (m.loginRow intent registration state browserBinding returnTo privateState schema initiator now) initiator))
      ⟨db,world,commit⟩
  | .claim _ input world commit => attempted (m.claimFederatedLogin input) ⟨db,world,commit⟩
  | .fail claimed code requestID world commit =>
    attempted (.ok (Module.recordFederatedFailure claimed code requestID)) ⟨db,world,commit⟩
  | .complete _ input claimed identity world commit =>
    attempted (.ok (m.completeInTransaction input.state input.requestID claimed identity)) ⟨db,world,commit⟩
  | .authenticate secret requireFresh world commit => attempted (m.authenticateWeb secret requireFresh) ⟨db,world,commit⟩
  | .revoke input world commit => attempted (m.revokeWebSessions input) ⟨db,world,commit⟩
  | .maintain sweep applied => if applied then m.maintain sweep db else db
  | .other after => after

abbrev WebEntry := Deed Database WebAct

def WebEntry.after (m : Module) (e : WebEntry) : Database := e.act.after m e.base

section Possibility
variable (m : Module) (e : WebEntry)

inductive ClaimedBy (call : ℕ) (input : Module.CompleteFederatedLoginInput) (claimed : ClaimedFederatedLogin) : Prop
  | intro (world : World) (act : e.act = .claim call input world .done) (checked : Module.inputError input = none)
      (told : Attempt.result (m.claimInTransaction input) ⟨e.base,world,.done⟩ = .ok claimed)

inductive AuthenticatedAs (requireFresh : Bool) (userID sessionID : String) : Prop
  | intro (secret : String) (world : World) (act : e.act = .authenticate secret requireFresh world .done) (state : WebState)
      (told : Attempt.result (m.authenticateWebInTransaction secret requireFresh true) ⟨e.base,world,.done⟩ = .ok state)
      (user : state.principal.userID = userID) (session : state.principal.webSessionID = sessionID)

/-- Who may begin a login. One that is not to sign in is of the session that has been authenticated. -/
def Initiates (past : List WebEntry) (intent : LoginIntent) : Option (String × String) → Prop
  | none => intent = .signIn
  | some (userID,sessionID) => intent ≠ .signIn ∧
      ∃ e ∈ past, AuthenticatedAs m e (intent = .bindIdentity) userID sessionID

/-- Other operations change neither identities nor sessions, secrets and logins. -/
def WebAct.Possible (past : List WebEntry) (db : Database) : WebAct → Prop
  | .begin intent _ _ _ _ _ _ _ _ initiator _ _ _ => Initiates m past intent initiator
  | .fail claimed _ _ _ _ => ∃ e ∈ past, ∃ call input, ClaimedBy m e call input claimed
  | .complete call input claimed identity _ _ => (∃ e ∈ past, ClaimedBy m e call input claimed) ∧
      ∃ answer, m.providerAnswer claimed answer = .ok identity
  | .other after => after.identities = db.identities ∧ after.sessions = db.sessions ∧ after.secrets = db.secrets ∧
      after.logins = db.logins
  | _ => True

end Possibility

/-- At first there are neither identities nor sessions, secrets and logins. -/
structure Vacant (db : Database) : Prop where
  identities : ∀ id, db.identities.lookup id = none
  sessions : ∀ id, db.sessions.lookup id = none
  secrets : ∀ key, db.secrets.lookup key = none
  logins : ∀ id, db.logins.lookup id = none

abbrev WebHistory (m : Module) : List WebEntry → Database → Prop :=
  Chronicle Vacant (WebEntry.after m) fun past e => e.act.Possible m past e.base

/-! What a step does. -/

/-- The login that a step may put, with its beginning. -/
def WebAct.begun (m : Module) : WebAct → Option (String × LoginRow)
  | .begin intent registration id _ state browserBinding returnTo privateState schema initiator now _ _ =>
    some (id,m.loginRow intent registration state browserBinding returnTo privateState schema initiator now)
  | _ => none

structure Evolves (begun : Option (String × LoginRow)) (db db' : Database) : Prop where
  sessions : ∀ id row row', db.sessions.lookup id = some row → db'.sessions.lookup id = some row' → StillEnded row row'
  secrets : OneCurrent db → OneCurrent db'
  logins : ∀ id row row', db.logins.lookup id = some row → db'.logins.lookup id = some row' → SameLogin row row'
  begins : ∀ id row', db'.logins.lookup id = some row' → (∃ row, db.logins.lookup id = some row) ∨
    ∃ row, begun = some (id,row) ∧ SameLogin row row'
  identities : ∀ id row, db.identities.lookup id = some row → ∃ row', db'.identities.lookup id = some row' ∧ SameIdentity row row'
  distinct : DistinctIdentities db → DistinctIdentities db'

section Steps
variable {m : Module} {e : WebEntry} {db db' : Database} {begun : Option (String × LoginRow)}

theorem Keeps.evolves (keeps : Keeps begun db db') : Evolves begun db db' := by
  refine ⟨?_,keeps.secrets,?_,keeps.begins,keeps.identities,keeps.distinct⟩
  · intro id row row' held held'
    obtain ⟨same,lookup,still⟩ := keeps.sessions id row held
    cases lookup.symm.trans held'
    exact still
  · intro id row row' held held'
    obtain ⟨same,lookup,login⟩ := keeps.logins id row held
    cases lookup.symm.trans held'
    exact login

theorem Sweeps.evolves (sweeps : Sweeps db db') : Evolves begun db db' := by
  refine ⟨?_,?_,?_,?_,kept_same SameIdentity.refl sweeps.identities,.of_same sweeps.identities⟩
  · intro id row row' held held'
    obtain ⟨old,lookup,still⟩ := sweeps.sessions id row' held'
    cases lookup.symm.trans held
    exact still
  · intro one id g g' row row' held held' current current'
    exact one id g g' row row' (sweeps.secrets _ _ held) (sweeps.secrets _ _ held') current current'
  · intro id row row' held held'
    obtain ⟨old,lookup,login⟩ := sweeps.logins id row' held'
    cases lookup.symm.trans held
    exact login
  · intro id row' held'
    obtain ⟨row,held,-⟩ := sweeps.logins id row' held'
    exact .inl ⟨row,held⟩

theorem attempted_evolves {α : Type} {checked : Except Error (Transaction α)} (attempt : Attempt Database)
    (guards : ∀ x, checked = .ok x → x.Guards begun) : Evolves begun attempt.base (attempted checked attempt) := by
  unfold attempted
  split
  next => exact (Keeps.refl _).evolves
  next x => exact (attempt_keeps (guards x rfl) attempt).evolves

theorem evolves {past : List WebEntry} (possible : e.act.Possible m past e.base) :
    Evolves (e.act.begun m) e.base (e.after m) := by
  unfold WebEntry.after
  cases act : e.act with
  | begin intent registration id requestID state browserBinding returnTo privateState schema initiator now world commit =>
    dsimp only [WebAct.after,WebAct.begun]
    refine attempted_evolves ⟨e.base,world,commit⟩ fun x given => ?_
    cases given
    exact begin_guards _ _ _ _
  | claim call input world commit =>
    refine attempted_evolves ⟨e.base,world,commit⟩ fun x given => ?_
    unfold Module.claimFederatedLogin at given
    split at given
    next => cases given
    next =>
      cases given
      exact claim_guards m input
  | fail claimed code requestID world commit =>
    dsimp only [WebAct.after,WebAct.begun]
    refine attempted_evolves ⟨e.base,world,commit⟩ fun x given => ?_
    cases given
    exact recordFailure_guards _ _ _
  | complete call input claimed identity world commit =>
    dsimp only [WebAct.after,WebAct.begun]
    refine attempted_evolves ⟨e.base,world,commit⟩ fun x given => ?_
    cases given
    exact complete_guards m _ _ _ _
  | authenticate secret requireFresh world commit =>
    refine attempted_evolves ⟨e.base,world,commit⟩ fun x given => ?_
    unfold Module.authenticateWeb at given
    split at given
    next => cases given
    next =>
      cases given
      exact authenticate_guards m _ _ _
  | revoke input world commit =>
    refine attempted_evolves ⟨e.base,world,commit⟩ fun x given => ?_
    unfold Module.revokeWebSessions at given
    split at given
    next => cases given
    next =>
      cases given
      exact revoke_guards m input
  | maintain sweep applied =>
    dsimp only [WebAct.after]
    split
    next => exact (maintain_sweeps m sweep e.base).evolves
    next => exact (Keeps.refl _).evolves
  | other after =>
    rw [act] at possible
    obtain ⟨identities,sessions,secrets,logins⟩ := possible
    exact (Keeps.of_same sessions secrets logins identities).evolves

end Steps
end ATape.Authentication
