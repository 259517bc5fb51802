import ATape.Authentication.Failures
import ATape.Foundation.Attempts
import ATape.Foundation.Chronicle

/-! Histories of CLI authorizations. Transactions follow one another in any order; a history names
each with the database that it began with, the last one first. -/
namespace ATape.Authentication
open Foundation

/-! Steps. -/

/-- Earlier deadlines come first. -/
def earlier {ρ : Type} (deadline : ρ → Int) (a b : String × ρ) : Bool :=
  deadline a.2 < deadline b.2 || deadline a.2 = deadline b.2 && !(b.1 < a.1 : Bool)

/-- Expired authorizations, but for those that others hold. -/
def expiredCLIAuthorizations (skipped : String → Bool) (batchSize : ℕ) (now : Int) (db : Database) : List String :=
  db.authorizations.batch (fun id row => live row && row.expiresAt ≤ now && !skipped id) (earlier AuthorizationRow.expiresAt)
    batchSize

def expireCLIAuthorizationBatch (skipped : String → Bool) (batchSize : ℕ) : Transaction ℕ :=
  execute fun now db =>
    let ids := expiredCLIAuthorizations skipped batchSize now db
    (ids.length,ids.map fun id => .expireCLIAuthorization id now)

/-- A call of a device, which may make several attempts. -/
structure PollCall where
  number : ℕ
  deviceCode : String
  requestID : String
deriving DecidableEq

/-- An attempt at a transaction of CLI authorizations, or whatever else goes on. A creation is made
under any of the accepted keys. -/
inductive Act
  | create (pepperKeys : KeyRing) (deviceCode : String) (world : World) (commit : Commit)
  | resolve (caller : Principal) (userCode requestID : String) (world : World) (commit : Commit)
  | decide (caller : Principal) (id requestID : String) (decision : Option Module.CLIDecision) (world : World)
      (commit : Commit)
  | poll (call : PollCall) (world : World) (commit : Commit)
  | expire (skipped : String → Bool) (batchSize : ℕ) (world : World) (commit : Commit)
  | other (after : Database)

/-- What an attempt leaves, if it is made at all. -/
def attempted {α : Type} (checked : Except Error (Transaction α)) (attempt : Attempt Database) : Database :=
  match checked with
  | .error _ => attempt.base
  | .ok x => (attempt.ended x).after

def Module.under (m : Module) (pepperKeys : KeyRing) : Module := {m with pepperKeys}

def Act.after (m : Module) (db : Database) : Act → Database
  | .create pepperKeys deviceCode world commit =>
    attempted (.ok ((m.under pepperKeys).createInTransaction deviceCode)) ⟨db,world,commit⟩
  | .resolve caller userCode requestID world commit =>
    attempted (m.resolveCLIDeviceAuthorization caller userCode requestID) ⟨db,world,commit⟩
  | .decide caller id requestID decision world commit =>
    attempted (m.decideCLIDeviceAuthorization caller id requestID decision) ⟨db,world,commit⟩
  | .poll call world commit => attempted (m.pollCLIDeviceAuthorization call.deviceCode call.requestID) ⟨db,world,commit⟩
  | .expire skipped batchSize world commit =>
    attempted (.ok (expireCLIAuthorizationBatch skipped batchSize)) ⟨db,world,commit⟩
  | .other after => after

/-- What a credential keeps, whatever becomes of it. -/
structure SameCredential (old row : CredentialRow) : Prop where
  userID : row.userID = old.userID
  authorizationID : row.authorizationID = old.authorizationID
  secretDigest : row.secretDigest = old.secretDigest

/-- Other operations change no authorization and give no credential. -/
def Act.Possible (m : Module) (db : Database) : Act → Prop
  | .create pepperKeys _ _ _ => pepperKeys.ids = m.pepperKeys.ids
  | .other after => after.authorizations = db.authorizations ∧ ∀ id row, after.credentials.lookup id = some row →
      ∃ old, db.credentials.lookup id = some old ∧ SameCredential old row
  | _ => True

abbrev Entry := Deed Database Act

def Entry.after (m : Module) (e : Entry) : Database := e.act.after m e.base

structure Untouched (db : Database) : Prop where
  authorizations : ∀ id, db.authorizations.lookup id = none
  credentials : ∀ id, db.credentials.lookup id = none

abbrev History (m : Module) : List Entry → Database → Prop :=
  Chronicle Untouched (Entry.after m) fun _ e => e.act.Possible m e.base

/-! What a step does to an authorization. -/

section Events
variable (m : Module) (e : Entry)

structure Coded (row : AuthorizationRow) (code : String) : Prop where
  accepted : row.userCodeKeyID ∈ m.pepperKeys.ids
  digest : row.userCodeDigest = m.keyedCodeDigest row.userCodeKeyID code

inductive Begins (id code : String) : Prop
  | intro (pepperKeys : KeyRing) (deviceCode : String) (world : World) (commit : Commit)
      (act : e.act = .create pepperKeys deviceCode world commit)
      (authorization : Module.CLIDeviceAuthorization)
      (told : Attempt.result ((m.under pepperKeys).createInTransaction deviceCode) ⟨e.base,world,commit⟩ =
        .ok authorization)
      (given : authorization.id = id ∧ authorization.userCode = code)
      (absent : e.base.authorizations.lookup id = none) (row : AuthorizationRow)
      (after : (e.after m).authorizations.lookup id = some row)

/-- A session presents the code of a pending authorization that is of no session yet. -/
inductive Binds (id session : String) : Prop
  | intro (caller : Principal) (userCode requestID normalized : String) (world : World) (commit : Commit)
      (act : e.act = .resolve caller userCode requestID world commit)
      (v : Module.ValidatedWebPrincipal) (valid : Valid m e.base caller v) (reviewer : v.id = session)
      (row : AuthorizationRow) (held : e.base.authorizations.lookup id = some row) (status : row.status = .pending)
      (unbound : row.reviewSessionID = none) (early : v.now < row.expiresAt)
      (code : normalizeDeviceUserCode userCode = some normalized) (presented : Coded m row normalized)
      (after : (e.after m).authorizations.lookup id = some {row with reviewSessionID := some session})

/-- A user approves a pending authorization from its session, before it expires. -/
inductive Approves (id userID session : String) : Prop
  | intro (caller : Principal) (text requestID : String) (world : World) (commit : Commit)
      (act : e.act = .decide caller text requestID (some .approve) world commit) (named : m.parseUUID text = some id)
      (v : Module.ValidatedWebPrincipal) (valid : Valid m e.base caller v) (user : v.userID = userID)
      (reviewer : v.id = session) (clock : v.now = world.clock 1)
      (row : AuthorizationRow) (held : e.base.authorizations.lookup id = some row) (status : row.status = .pending)
      (reviewed : row.reviewSessionID = some session) (early : v.now < row.expiresAt)
      (after : (e.after m).authorizations.lookup id =
        some {row with status := .approvedUnclaimed,approvingUserID := some userID,terminalAt := none})

structure Issues (id credentialID : String) (row : CredentialRow) : Prop where
  authorization : row.authorizationID = id
  absent : e.base.credentials.lookup credentialID = none
  present : (e.after m).credentials.lookup credentialID = some row

/-- A change of neither the session nor the approval of an authorization that stays live. -/
structure Minor (row row' : AuthorizationRow) : Prop where
  expiresAt : row'.expiresAt = row.expiresAt
  keyID : row'.userCodeKeyID = row.userCodeKeyID
  digest : row'.userCodeDigest = row.userCodeDigest
  session : row'.reviewSessionID = row.reviewSessionID
  status : row'.status = row.status ∧ row'.approvingUserID = row.approvingUserID ∨
    live row = true ∧ live row' = false

inductive RowStep (id : String) : Option AuthorizationRow → Option AuthorizationRow → Prop
  | absent : RowStep id none none
  | kept (row row' : AuthorizationRow) (minor : Minor row row') : RowStep id (some row) (some row')
  | begun (row : AuthorizationRow) (status : row.status = .pending) (unbound : row.reviewSessionID = none)
      (coded : ∀ code, Begins m e id code → Coded m row code) : RowStep id none (some row)
  | bound (row : AuthorizationRow) (session : String) (status : row.status = .pending)
      (unbound : row.reviewSessionID = none) (binds : Binds m e id session) :
      RowStep id (some row) (some {row with reviewSessionID := some session})
  | approved (row : AuthorizationRow) (userID session : String) (status : row.status = .pending)
      (reviewed : row.reviewSessionID = some session) (approves : Approves m e id userID session) :
      RowStep id (some row) (some {row with status := .approvedUnclaimed,approvingUserID := some userID,terminalAt := none})
  | claimed (row : AuthorizationRow) (credentialID : String) (now : Int) (status : row.status = .approvedUnclaimed) :
      RowStep id (some row)
        (some {row with status := .claimed,issuedCredentialID := some credentialID,terminalAt := some now})

/-- What is found of a credential that is issued. -/
inductive Issued (id credentialID : String) (credential : CredentialRow) : Prop
  | intro (call : PollCall) (world : World) (commit : Commit) (act : e.act = .poll call world commit)
      (drawn : credentialID = world.drawn 3) (row : AuthorizationRow)
      (held : e.base.authorizations.lookup id = some row) (status : row.status = .approvedUnclaimed)
      (approved : row.approvingUserID = some credential.userID) (early : world.clock 1 < row.expiresAt) (user : UserRow)
      (known : e.base.users.lookup credential.userID = some user) (active : user.status = .active)
      (row' : AuthorizationRow) (after : (e.after m).authorizations.lookup id = some row')
      (claimed : row'.status = .claimed)

end Events

section Steps
variable {m : Module} {e : Entry} {id : String}

theorem Minor.refl (row : AuthorizationRow) : Minor row row := ⟨rfl,rfl,rfl,rfl,.inl ⟨rfl,rfl⟩⟩

theorem RowStep.refl (o : Option AuthorizationRow) : RowStep m e id o o := by
  cases o with
  | none => exact .absent
  | some row => exact .kept row row (Minor.refl row)

theorem SameCredential.refl (row : CredentialRow) : SameCredential row row := ⟨rfl,rfl,rfl⟩

theorem RowStep.of_same (same : (e.after m).authorizations = e.base.authorizations) :
    RowStep m e id (e.base.authorizations.lookup id) ((e.after m).authorizations.lookup id) := by
  rw [same]
  exact .refl _

theorem RowStep.of_modify {target : String} {f : AuthorizationRow → AuthorizationRow} {row : AuthorizationRow}
    (rows : (e.after m).authorizations = Table.modify target f e.base.authorizations)
    (held : e.base.authorizations.lookup target = some row) (changed : RowStep m e target (some row) (some (f row))) :
    RowStep m e id (e.base.authorizations.lookup id) ((e.after m).authorizations.lookup id) := by
  rw [rows,Table.lookup_modify]
  split
  next same =>
    subst same
    rw [held,Option.map_some]
    exact changed
  next => exact .refl _

theorem lookup_of_modify {target : String} {f : AuthorizationRow → AuthorizationRow} {row : AuthorizationRow}
    (rows : (e.after m).authorizations = Table.modify target f e.base.authorizations)
    (held : e.base.authorizations.lookup target = some row) :
    (e.after m).authorizations.lookup target = some (f row) := by
  rw [rows,Table.lookup_modify,if_pos rfl,held,Option.map_some]

theorem minor_expired {row : AuthorizationRow} {now : Int} (live_ : live row = true) :
    Minor row {row with status := .expired,terminalAt := some now} := ⟨rfl,rfl,rfl,rfl,.inr ⟨live_,rfl⟩⟩

theorem expireWrites_authorizations (db : Database) (target : String) (now : Int) (other : String) :
    (drafted db (expireWrites db target now)).authorizations.lookup other = db.authorizations.lookup other ∨
      ∃ row, db.authorizations.lookup other = some row ∧ live row = true ∧
        (drafted db (expireWrites db target now)).authorizations.lookup other =
          some {row with status := .expired,terminalAt := some now} := by
  unfold expireWrites
  split
  next chosen =>
    have renewed : (drafted db [.expireCLIAuthorization target now]).authorizations =
      Table.modify target (fun row => {row with status := .expired,terminalAt := some now}) db.authorizations := rfl
    rw [renewed,Table.lookup_modify]
    split
    next same =>
      subst same
      obtain ⟨row,held,live_⟩ := (Option.any_eq_true _ _).mp chosen
      exact .inr ⟨row,held,live_,by rw [held,Option.map_some]⟩
    next => exact .inl rfl
  next => exact .inl rfl

theorem expireWrites_credentials (db : Database) (target : String) (now : Int) :
    (drafted db (expireWrites db target now)).credentials = db.credentials := by
  unfold expireWrites
  split <;> rfl

theorem failureWrites_tables (db base : Database) (v : Module.ValidatedWebPrincipal) (requestID : String) :
    (drafted db (failureWrites m v requestID base)).authorizations = db.authorizations ∧
      (drafted db (failureWrites m v requestID base)).credentials = db.credentials := by
  unfold failureWrites
  split <;> exact ⟨rfl,rfl⟩

theorem expireAll_tables (now : Int) (ids : List String) (db : Database) (other : String) :
    (drafted db (ids.map fun id => .expireCLIAuthorization id now)).credentials = db.credentials ∧
      (drafted db (ids.map fun id => .expireCLIAuthorization id now)).authorizations.lookup other =
        (db.authorizations.lookup other).map fun row =>
          if other ∈ ids then {row with status := .expired,terminalAt := some now} else row := by
  induction ids generalizing db with
  | nil => exact ⟨rfl,by simp [drafted]⟩
  | cons id ids ih =>
    obtain ⟨credentials,rows⟩ := ih (Write.apply (.expireCLIAuthorization id now) db)
    refine ⟨credentials,rows.trans ?_⟩
    have renewed : (Write.apply (.expireCLIAuthorization id now) db).authorizations =
      Table.modify id (fun row => {row with status := .expired,terminalAt := some now}) db.authorizations := rfl
    rw [renewed,Table.lookup_modify]
    by_cases same : other = id
    · simp [same,Option.map_map,Function.comp_def]
    · simp [same]

theorem expiredCLIAuthorizations_live {skipped : String → Bool} {batchSize : ℕ} {now : Int} {db : Database}
    {id : String} (inside : id ∈ expiredCLIAuthorizations skipped batchSize now db) :
    ∃ row, db.authorizations.lookup id = some row ∧ live row = true := by
  obtain ⟨row,held,meets⟩ := Table.batch_chosen inside
  simp only [Bool.and_eq_true] at meets
  exact ⟨row,held,meets.1.1⟩

/-! The attempts, one kind after the other. -/

structure Stepped (m : Module) (e : Entry) : Prop where
  rows : ∀ id, RowStep m e id (e.base.authorizations.lookup id) ((e.after m).authorizations.lookup id)
  credentials : ∀ id row, (e.after m).credentials.lookup id = some row →
    (∃ old, e.base.credentials.lookup id = some old ∧ SameCredential old row) ∨
      e.base.credentials.lookup id = none ∧ Issued m e row.authorizationID id row

theorem Stepped.of_same (authorizations : (e.after m).authorizations = e.base.authorizations)
    (credentials : (e.after m).credentials = e.base.credentials) : Stepped m e := by
  refine ⟨fun id => .of_same authorizations,fun id row held => .inl ⟨row,?_,SameCredential.refl row⟩⟩
  rwa [credentials] at held

theorem Stepped.of_rows
    (rows : ∀ id, RowStep m e id (e.base.authorizations.lookup id) ((e.after m).authorizations.lookup id))
    (credentials : (e.after m).credentials = e.base.credentials) : Stepped m e := by
  refine ⟨rows,fun id row held => .inl ⟨row,?_,SameCredential.refl row⟩⟩
  rwa [credentials] at held

theorem Stepped.of_unchanged (same : e.after m = e.base) : Stepped m e := by
  refine .of_same ?_ ?_
  · rw [same]
  · rw [same]

theorem Stepped.of_expired (rows : ∀ id, (e.after m).authorizations.lookup id = e.base.authorizations.lookup id ∨
      ∃ row now, e.base.authorizations.lookup id = some row ∧ live row = true ∧
        (e.after m).authorizations.lookup id = some {row with status := .expired,terminalAt := some now})
    (credentials : (e.after m).credentials = e.base.credentials) : Stepped m e := by
  refine .of_rows (fun id => ?_) credentials
  obtain same | ⟨row,now,held,live_,after⟩ := rows id
  · rw [same]
    exact .refl _
  · rw [held,after]
    exact .kept _ _ (minor_expired live_)

theorem Stepped.of_expiry {target : String} {now : Int}
    (after : e.after m = drafted e.base (expireWrites e.base target now)) : Stepped m e := by
  refine .of_expired (fun other => ?_) (by rw [after]; exact expireWrites_credentials _ _ _)
  rw [after]
  obtain same | ⟨row,held,live_,gone⟩ := expireWrites_authorizations e.base target now other
  · exact .inl same
  · exact .inr ⟨row,now,held,live_,gone⟩

section Creation
variable {pepperKeys : KeyRing} {deviceCode : String} {world : World} {commit : Commit}

theorem create_stepped (act : e.act = .create pepperKeys deviceCode world commit)
    (ids : pepperKeys.ids = m.pepperKeys.ids) : Stepped m e := by
  have left_ : e.after m = attempted (.ok ((m.under pepperKeys).createInTransaction deviceCode)) ⟨e.base,world,commit⟩ := by
    rw [Entry.after,act,Act.after]
  obtain unchanged | ⟨writes,stays,ends,after⟩ :=
    Attempt.after_of_ends ⟨e.base,world,commit⟩ (creates (m.under pepperKeys) e.base world deviceCode)
  · exact .of_unchanged (left_.trans unchanged)
  · have after := left_.trans after
    generalize told : Attempt.result ((m.under pepperKeys).createInTransaction deviceCode) ⟨e.base,world,commit⟩ = result
      at stays ends
    cases ends with
    | fault => cases stays
    | unselected => cases stays
    | created id normalized now step drawn clock fresh allowed authorization given =>
      refine .of_rows (fun other => ?_) (by rw [after]; rfl)
      have rows : (e.after m).authorizations =
          e.base.authorizations.insert id ((m.under pepperKeys).authorizationRow deviceCode normalized now) := by
        rw [after]
        rfl
      rw [rows,Table.lookup_insert]
      split
      next same =>
        subst same
        have absent : e.base.authorizations.lookup other = none := by
          have free := (Bool.and_eq_true_iff.mp allowed).1
          simpa using free
        rw [absent]
        refine .begun _ rfl rfl fun code begins => ?_
        obtain ⟨_,_,_,_,act',authorization',told',given',-,-,-⟩ := begins
        cases act.symm.trans act'
        cases told.symm.trans told'
        rw [← given'.2,given.2.1]
        exact ⟨ids ▸ pepperKeys.known,rfl⟩
      next => exact .refl _

theorem begins_fresh {code : String} (possible : e.act.Possible m e.base) (begins : Begins m e id code)
    {other : String} {row : AuthorizationRow} (held : e.base.authorizations.lookup other = some row)
    (live_ : live row = true) : ¬Coded m row code := by
  obtain ⟨pepperKeys,deviceCode,world,commit,act,authorization,told,given,-,-,-⟩ := begins
  rw [act] at possible
  have ends := (creates (m.under pepperKeys) e.base world deviceCode).2
  have told : ((m.under pepperKeys).createInTransaction deviceCode world (Draft.start e.base)).1 = .ok authorization := told
  rw [told] at ends
  generalize (((m.under pepperKeys).createInTransaction deviceCode world (Draft.start e.base)).2).writes = writes at ends
  cases ends with
  | created id' normalized now step drawn clock fresh allowed _ given' =>
    intro coded
    have accepted : row.userCodeKeyID ∈ pepperKeys.ids := possible ▸ coded.accepted
    have free := (Table.any_eq_false_iff _ _).mp (fresh _ accepted) other row held
    have same : code = normalized := given.2.symm.trans given'.2.1
    have digest : row.userCodeDigest = (m.under pepperKeys).keyedCodeDigest row.userCodeKeyID normalized :=
      same ▸ coded.digest
    rw [live_,← digest] at free
    simp at free

end Creation

theorem resolve_stepped {caller : Principal} {userCode requestID : String} {world : World} {commit : Commit}
    (act : e.act = .resolve caller userCode requestID world commit) : Stepped m e := by
  have left_ : e.after m = attempted (m.resolveCLIDeviceAuthorization caller userCode requestID) ⟨e.base,world,commit⟩ := by
    rw [Entry.after,act,Act.after]
  unfold Module.resolveCLIDeviceAuthorization at left_
  split at left_
  next => exact .of_unchanged left_
  next =>
    obtain unchanged | ⟨writes,stays,ends,after⟩ :=
      Attempt.after_of_ends ⟨e.base,world,commit⟩ (resolves m e.base world caller userCode requestID)
    · exact .of_unchanged (left_.trans unchanged)
    · have after := left_.trans after
      generalize Attempt.result (m.resolveInTransaction caller userCode requestID) ⟨e.base,world,commit⟩ = result
        at stays ends
      cases ends with
      | fault => cases stays
      | refused => cases stays
      | blocked => exact .of_unchanged after
      | seen => exact .of_unchanged after
      | ambiguous => exact .of_same (by rw [after]; rfl) (by rw [after]; rfl)
      | invalid v expired marks =>
        rw [written_append] at after
        obtain ⟨rows,credentials⟩ := failureWrites_tables (m := m) (drafted e.base expired) e.base v requestID
        rw [← after] at rows credentials
        obtain rfl | ⟨id,row,now,held,late,rfl⟩ := marks
        · exact .of_same rows credentials
        · refine .of_expired (fun other => ?_) (credentials.trans (expireWrites_credentials _ _ _))
          rw [rows]
          obtain same | ⟨row,held,live_,gone⟩ := expireWrites_authorizations e.base id now other
          · exact .inl same
          · exact .inr ⟨row,now,held,live_,gone⟩
      | bound v valid id normalized key row code accepted found status unbound early view =>
        obtain ⟨held,known,digest⟩ := getAuthorizationByUserCode_ok found
        have rows : (e.after m).authorizations =
            Table.modify id (fun row => {row with reviewSessionID := some v.id}) e.base.authorizations := by
          rw [after]
          rfl
        have presented : Coded m row normalized := by
          refine ⟨known ▸ accepted,?_⟩
          rw [known]
          exact digest
        refine .of_rows (fun other => .of_modify rows held ?_) (by rw [after]; rfl)
        exact .bound row v.id status unbound (.intro caller userCode requestID normalized world commit act v valid rfl row held
          status unbound early code presented (lookup_of_modify rows held))

theorem decide_stepped {caller : Principal} {text requestID : String} {decision : Option Module.CLIDecision} {world : World}
    {commit : Commit} (act : e.act = .decide caller text requestID decision world commit) : Stepped m e := by
  have left_ : e.after m = attempted (m.decideCLIDeviceAuthorization caller text requestID decision) ⟨e.base,world,commit⟩ := by
    rw [Entry.after,act,Act.after]
  unfold Module.decideCLIDeviceAuthorization at left_
  split at left_
  next => exact .of_unchanged left_
  next decision =>
    split at left_
    next => exact .of_unchanged left_
    next =>
      split at left_
      next => exact .of_unchanged left_
      next id named =>
        obtain unchanged | ⟨writes,stays,ends,after⟩ :=
          Attempt.after_of_ends ⟨e.base,world,commit⟩ (decides m e.base world caller id requestID decision)
        · exact .of_unchanged (left_.trans unchanged)
        · have after := left_.trans after
          generalize Attempt.result (m.decideInTransaction caller id requestID decision) ⟨e.base,world,commit⟩ = result
            at stays ends
          cases ends with
          | fault => cases stays
          | refused => cases stays
          | again => exact .of_unchanged after
          | expired v row held late status now => exact .of_expiry after
          | decided v valid clock row held status reviewed early terminalAt final =>
            have rows : (e.after m).authorizations = Table.modify id (fun row =>
                {row with status := decidedStatus decision,approvingUserID := some v.userID,terminalAt}) e.base.authorizations := by
              rw [after]
              rfl
            refine .of_rows (fun other => .of_modify rows held ?_) (by rw [after]; rfl)
            cases decision with
            | approve =>
              obtain rfl : terminalAt = none := by simpa using final
              exact .approved row v.userID v.id status reviewed (.intro caller text requestID world commit act named v valid rfl
                rfl clock row held status reviewed early (lookup_of_modify rows held))
            | deny =>
              have live_ : live row = true := by simp [live,status]
              exact .kept _ _ ⟨rfl,rfl,rfl,rfl,.inr ⟨live_,rfl⟩⟩

theorem poll_stepped {call : PollCall} {world : World} {commit : Commit} (act : e.act = .poll call world commit) :
    Stepped m e := by
  have left_ : e.after m = attempted (m.pollCLIDeviceAuthorization call.deviceCode call.requestID) ⟨e.base,world,commit⟩ := by
    rw [Entry.after,act,Act.after]
  unfold Module.pollCLIDeviceAuthorization at left_
  split at left_
  next => exact .of_unchanged left_
  next =>
    obtain unchanged | ⟨writes,stays,ends,after⟩ :=
      Attempt.after_of_ends ⟨e.base,world,commit⟩ (polls m e.base world call.deviceCode call.requestID)
    · exact .of_unchanged (left_.trans unchanged)
    · have after := left_.trans after
      generalize Attempt.result (m.pollInTransaction call.deviceCode call.requestID) ⟨e.base,world,commit⟩ = result
        at stays ends
      cases ends with
      | fault => cases stays
      | refused => cases stays
      | expired id row held code late status => exact .of_expiry after
      | waiting id row held status code why nextPollAt seconds =>
        have rows : (e.after m).authorizations = Table.modify id (fun row =>
            {row with nextPollAt,pollIntervalSeconds := seconds}) e.base.authorizations := by
          rw [after]
          rfl
        refine .of_rows (fun other => .of_modify rows held ?_) (by rw [after]; rfl)
        exact .kept _ _ ⟨rfl,rfl,rfl,rfl,.inl ⟨rfl,rfl⟩⟩
      | disabled id row held status =>
        have rows : (e.after m).authorizations = Table.modify id (fun row =>
            {row with status := .expired,terminalAt := some (world.clock 3)}) e.base.authorizations := by
          rw [after]
          rfl
        refine .of_rows (fun other => .of_modify rows held ?_) (by rw [after]; rfl)
        exact .kept _ _ (minor_expired (by simp [live,status]))
      | issued id row held code status early userID approved user known active grant drawn secret now claimedAt allowed =>
        have rows : (e.after m).authorizations = Table.modify id (fun row => {row with
            status := .claimed,issuedCredentialID := some grant.credentialID,terminalAt := some claimedAt})
            e.base.authorizations := by
          rw [after]
          rfl
        have credentials : (e.after m).credentials = e.base.credentials.insert grant.credentialID
            ⟨userID,id,m.credentialDigest grant.credentialSecret,.active,now⟩ := by
          rw [after]
          rfl
        refine ⟨fun other => .of_modify rows held (.claimed row _ _ status),fun other credential held' => ?_⟩
        rw [credentials,Table.lookup_insert] at held'
        split at held'
        next same =>
          subst same
          cases held'
          have absent : e.base.credentials.lookup grant.credentialID = none := by
            have free := (Bool.and_eq_true_iff.mp allowed).1
            simpa using free
          exact .inr ⟨absent,.intro call world commit act drawn row held status approved early user known active _
            (lookup_of_modify rows held) rfl⟩
        next => exact .inl ⟨credential,held',.refl credential⟩

def Expires (db : Database) (world : World) (skipped : String → Bool) (batchSize : ℕ) (result : Except (Halt Error) ℕ)
    (writes : List Write) : Prop :=
  kept result = true → writes = (expiredCLIAuthorizations skipped batchSize (world.clock 0) db).map fun id =>
    .expireCLIAuthorization id (world.clock 0)

theorem expires (db : Database) (world : World) (skipped : String → Bool) (batchSize : ℕ) :
    (expireCLIAuthorizationBatch skipped batchSize).Ends world (Draft.start db) fun result work =>
      work.base = db ∧ Expires db world skipped batchSize result work.writes := by
  unfold expireCLIAuthorizationBatch execute
  refine statement_ends (fun retryable => ⟨rfl,fun stays => ?_⟩) fun a writes answer => ⟨rfl,fun _ => ?_⟩
  · cases stays
  · cases answer
    rfl

theorem expire_stepped {skipped : String → Bool} {batchSize : ℕ} {world : World} {commit : Commit}
    (act : e.act = .expire skipped batchSize world commit) : Stepped m e := by
  have left_ : e.after m = attempted (.ok (expireCLIAuthorizationBatch skipped batchSize)) ⟨e.base,world,commit⟩ := by
    rw [Entry.after,act,Act.after]
  obtain unchanged | ⟨writes,stays,ends,after⟩ :=
    Attempt.after_of_ends ⟨e.base,world,commit⟩ (expires e.base world skipped batchSize)
  · exact .of_unchanged (left_.trans unchanged)
  · have after := left_.trans after
    have written : writes = _ := ends stays
    rw [written] at after
    have tables := expireAll_tables (world.clock 0) (expiredCLIAuthorizations skipped batchSize (world.clock 0) e.base) e.base
    refine .of_expired (fun other => ?_) (by rw [after]; exact (tables "").1)
    rw [after,(tables other).2]
    by_cases inside : other ∈ expiredCLIAuthorizations skipped batchSize (world.clock 0) e.base
    · obtain ⟨row,held,live_⟩ := expiredCLIAuthorizations_live inside
      exact .inr ⟨row,world.clock 0,held,live_,by simp [held,inside]⟩
    · exact .inl (by simp [inside])

theorem stepped (possible : e.act.Possible m e.base) : Stepped m e := by
  cases act : e.act with
  | create pepperKeys deviceCode world commit =>
    rw [act] at possible
    exact create_stepped act possible
  | resolve => exact resolve_stepped act
  | decide => exact decide_stepped act
  | poll => exact poll_stepped act
  | expire => exact expire_stepped act
  | other after =>
    rw [act] at possible
    obtain ⟨authorizations,credentials⟩ := possible
    have left_ : e.after m = after := by rw [Entry.after,act,Act.after]
    refine ⟨fun id => .of_same (left_ ▸ authorizations),fun id row held => .inl (credentials id row ?_)⟩
    rwa [left_] at held

end Steps
end ATape.Authentication
