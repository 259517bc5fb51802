import ATape.Authentication.Web

/-! What holds of web sessions, of federated logins and of identities in every history. -/
namespace ATape.Authentication
open Foundation

def LoginAt (id : String) (db : Database) : Prop := ∃ row, db.logins.lookup id = some row

def SessionAt (id : String) (db : Database) : Prop := ∃ row, db.sessions.lookup id = some row

/-- Ids are drawn at random: none of a login or of a session comes twice. -/
structure FreshIDs (m : Module) (run : List WebEntry) : Prop where
  logins : ∀ id, run.Pairwise fun e e' =>
    ¬LoginAt id e.base → LoginAt id (e.after m) → LoginAt id (e'.after m) → LoginAt id e'.base
  sessions : ∀ id, run.Pairwise fun e e' =>
    ¬SessionAt id e.base → SessionAt id (e.after m) → SessionAt id (e'.after m) → SessionAt id e'.base

inductive Grants (m : Module) (e : WebEntry) (call : ℕ) (input : Module.CompleteFederatedLoginInput)
    (claimed : ClaimedFederatedLogin) (grant : WebSessionGrant) : Prop
  | intro (identity : VerifiedExternalIdentity) (world : World) (commit : Commit)
      (act : e.act = .complete call input claimed identity world commit)
      (told : Attempt.result (m.completeInTransaction input.state input.requestID claimed identity) ⟨e.base,world,commit⟩ =
        .ok grant) (applied : commit.applied = true)

/-- The call has presented the state of a pending login with its browser, before it expired. -/
inductive Presents (m : Module) (past : List WebEntry) (call : ℕ) (input : Module.CompleteFederatedLoginInput)
    (claimed : ClaimedFederatedLogin) : Prop
  | intro (e : WebEntry) (inside : e ∈ past) (world : World) (act : e.act = .claim call input world .done) (row : LoginRow)
      (held : e.base.logins.lookup claimed.id = some row) (status : row.status = .pending)
      (state : row.stateDigest = m.stateDigest input.state)
      (binding : row.browserBindingDigest = m.bindingDigest input.browserBinding) (early : world.clock 1 < row.expiresAt)
      (intent : claimed.intent = row.intent) (user : claimed.initiatingUserID = row.initiatingUserID)
      (session : claimed.initiatingSessionID = row.initiatingSessionID)

/-- A login was begun, from the session that it names. -/
inductive Started (m : Module) (run : List WebEntry) (id : String) (row : LoginRow) : Prop
  | intro (later : List WebEntry) (e : WebEntry) (past : List WebEntry) (made : run = later++e::past) (began : LoginRow)
      (act : e.act.begun m = some (id,began)) (initiator : Option (String × String))
      (initiates : Initiates m past row.intent initiator) (user : row.initiatingUserID = initiator.map Prod.fst)
      (session : row.initiatingSessionID = initiator.map Prod.snd)

/-- What is found of a secret that is accepted. It is the only one of its session that is current. -/
inductive Authentic (m : Module) (db : Database) (secret : String) (now : Int) (state : WebState) : Prop
  | intro (row : WebRow) (presented : Presented db (m.secretDigest secret) row) (named : state.session.id = row.id)
      (user : row.user.status = .active) (status : row.session.status = .active)
      (absolute : now < row.session.absoluteExpiresAt) (idle : now < m.idleDeadline row.session)
      (only : ∀ generation other, db.secrets.lookup (row.id,generation) = some other → other.supersededAt = none →
        generation = row.generation)

def Elsewhere (db db' : Database) (id : String) : Prop := ∀ other, other ≠ id →
  db'.sessions.lookup other = db.sessions.lookup other ∧
    ∀ generation, db'.secrets.lookup (other,generation) = db.secrets.lookup (other,generation)

section Logins
variable {m : Module} {run : List WebEntry} {e : WebEntry} {db : Database} {call : ℕ}
  {input : Module.CompleteFederatedLoginInput} {claimed : ClaimedFederatedLogin}

theorem claimedBy_presents {past : List WebEntry} (inside : e ∈ past) (by_ : ClaimedBy m e call input claimed) :
    Presents m past call input claimed := by
  obtain ⟨world,act,-,told⟩ := by_
  have ends := (claims m e.base world input).2
  have told : (m.claimInTransaction input world (Draft.start e.base)).1 = .ok claimed := told
  rw [told] at ends
  generalize (m.claimInTransaction input world (Draft.start e.base)).2.writes = writes at ends
  cases ends with
  | claimed id row found status binding early registration known privateState opened =>
    obtain ⟨held,state⟩ := getFederatedLogin_ok found
    exact ⟨e,inside,world,act,row,held,status,state,binding,early,rfl,rfl,rfl⟩

theorem Started.later {id : String} {row row' : LoginRow} (started : Started m run id row) (same : SameLogin row row')
    (e : WebEntry) : Started m (e::run) id row' := by
  obtain ⟨later,first,past,made,began,act,initiator,initiates,user,session⟩ := started
  refine ⟨e::later,first,past,by rw [made]; rfl,began,act,initiator,?_,same.user.trans user,same.session.trans session⟩
  rw [same.intent]
  exact initiates

theorem login_started (reached : WebHistory m run db) {id : String} {row : LoginRow} (held : db.logins.lookup id = some row) :
    Started m run id row := by
  induction reached generalizing row with
  | start db vacant =>
    rw [vacant.logins] at held
    cases held
  | step run e before possible ih =>
    have step := evolves possible
    obtain ⟨old,known⟩ | ⟨new,began,same⟩ := step.begins id row held
    · exact (ih known).later (step.logins id old row known held) e
    · cases act : e.act with
      | begin intent registration id' requestID state browserBinding returnTo privateState schema initiator now world commit =>
        rw [act] at possible
        have put := began
        rw [act] at put
        cases put
        refine ⟨[],e,run,rfl,_,began,initiator,?_,same.user,same.session⟩
        rw [same.intent]
        exact possible
      | _ =>
        rw [act] at began
        cases began

theorem grants_after {grant : WebSessionGrant} (grants : Grants m e call input claimed grant) :
    ∃ (row : LoginRow) (world : World), e.base.logins.lookup claimed.id = some row ∧ row.status = .completing ∧ world.clock 1 < row.expiresAt ∧
      GrantsOf m e.base claimed (world.clock 1) grant.session.id ∧
      ∃ row', (e.after m).logins.lookup claimed.id = some row' ∧ row'.status = .completed := by
  obtain ⟨identity,world,commit,act,told,applied⟩ := grants
  obtain ⟨base,ends⟩ := completes m e.base world input.state input.requestID claimed identity
  have after : e.after m = drafted e.base
      (m.completeInTransaction input.state input.requestID claimed identity world (Draft.start e.base)).2.writes := by
    have left_ : e.after m =
        (Attempt.ended (m.completeInTransaction input.state input.requestID claimed identity) ⟨e.base,world,commit⟩).after := by
      rw [WebEntry.after,act]
      rfl
    rw [left_,Ended.after,Attempt.ended,told,applied]
    rw [Draft.db,base]
    rfl
  have told : (m.completeInTransaction input.state input.requestID claimed identity world (Draft.start e.base)).1 = .ok grant :=
    told
  rw [told] at ends
  generalize (m.completeInTransaction input.state input.requestID claimed identity world (Draft.start e.base)).2.writes = writes
    at ends after
  cases ends with
  | granted row held status presented early _ writes spares session now =>
    refine ⟨row,world,held,status,early,session,finished row .completed "" now,?_,rfl⟩
    have logins : (e.after m).logins =
        Table.modify claimed.id (fun row => finished row .completed "" now) (drafted e.base writes).logins := by
      rw [after,written_append]
      rfl
    rw [logins,Table.lookup_modify,if_pos rfl,spares.kept,held,Option.map_some]

end Logins

section Elsewhere
variable {db db' : Database} {id : String}

theorem Elsewhere.of_same (sessions : db'.sessions = db.sessions) (secrets : db'.secrets = db.secrets) : Elsewhere db db' id :=
  fun _ _ => ⟨by rw [sessions],fun _ => by rw [secrets]⟩

theorem apply_elsewhere {write : Write} (own : ∀ other ∈ write.sessions, other = id) (db : Database) :
    Elsewhere db (write.apply db) id := by
  intro other differ
  cases write with
  | insertWebSession key row =>
    obtain rfl : key = id := own key (List.mem_singleton_self key)
    exact ⟨(Table.lookup_insert _ _ _ _).trans (if_neg differ),fun _ => rfl⟩
  | touchWebSession key now =>
    obtain rfl : key = id := own key (List.mem_singleton_self key)
    exact ⟨(Table.lookup_modify _ _ _ _).trans (if_neg differ),fun _ => rfl⟩
  | terminalWebSession key status reason now =>
    obtain rfl : key = id := own key (List.mem_singleton_self key)
    exact ⟨(Table.lookup_modify _ _ _ _).trans (if_neg differ),fun _ => rfl⟩
  | reauthenticateWebSession key now absoluteExpiresAt =>
    obtain rfl : key = id := own key (List.mem_singleton_self key)
    exact ⟨(Table.lookup_modify _ _ _ _).trans (if_neg differ),fun _ => rfl⟩
  | revokeWebSessions ids reason now =>
    have absent : other ∉ ids := fun inside => differ (own other inside)
    have rows : (Write.apply (.revokeWebSessions ids reason now) db).sessions =
      Table.updateAll (fun id row => if id ∈ ids then terminal row .revoked reason now else row) db.sessions := rfl
    refine ⟨?_,fun _ => rfl⟩
    rw [rows,Table.lookup_updateAll]
    simp [absent]
  | insertWebSessionSecret key generation row =>
    obtain rfl : key = id := own key (List.mem_singleton_self key)
    refine ⟨rfl,fun other' => (Table.lookup_insert _ _ _ _).trans (if_neg fun same => ?_)⟩
    exact differ (Prod.mk.inj same).1
  | supersedeWebSessionSecret key now =>
    obtain rfl : key = id := own key (List.mem_singleton_self key)
    have rows : (Write.apply (.supersedeWebSessionSecret key now) db).secrets = Table.updateAll (fun key' row =>
      if key'.1 = key ∧ row.supersededAt = none then {row with supersededAt := some now} else row) db.secrets := rfl
    refine ⟨rfl,fun generation => ?_⟩
    rw [rows,Table.lookup_updateAll]
    simp [differ]
  | _ => exact ⟨rfl,fun _ => rfl⟩

theorem Spares.elsewhere {writes : List Write} (spares : Spares writes [id]) (db : Database) :
    Elsewhere db (drafted db writes) id := by
  have others := spares.others
  clear spares
  induction writes generalizing db with
  | nil => exact .of_same rfl rfl
  | cons write writes ih =>
    obtain ⟨own,rest⟩ := List.forall_mem_cons.mp others
    intro other differ
    obtain ⟨session,secrets⟩ := ih (write.apply db) rest other differ
    have own : ∀ other ∈ write.sessions, other = id := fun other inside => List.mem_singleton.mp (own other inside)
    obtain ⟨session',secrets'⟩ := apply_elsewhere own db other differ
    exact ⟨session.trans session',fun generation => (secrets generation).trans (secrets' generation)⟩

theorem failWrites_tables (claimed : ClaimedFederatedLogin) (code : ErrorCode) (requestID : String) (base db : Database)
    (now : Int) : (drafted db (failWrites claimed code requestID base now)).sessions = db.sessions ∧
      (drafted db (failWrites claimed code requestID base now)).secrets = db.secrets := by
  unfold failWrites
  split <;> exact ⟨rfl,rfl⟩

end Elsewhere

theorem complete_rotates {m : Module} {e : WebEntry} {call : ℕ} {input : Module.CompleteFederatedLoginInput}
    {claimed : ClaimedFederatedLogin} {identity : VerifiedExternalIdentity} {world : World} {commit : Commit}
    (act : e.act = .complete call input claimed identity world commit) (intent : claimed.intent ≠ .signIn) :
    (e.after m).sessions = e.base.sessions ∧ (e.after m).secrets = e.base.secrets ∨
      ∃ id, Initiating m e.base claimed id (world.clock 1) ∧ Elsewhere e.base (e.after m) id := by
  have left_ : e.after m =
      (Attempt.ended (m.completeInTransaction input.state input.requestID claimed identity) ⟨e.base,world,commit⟩).after := by
    rw [WebEntry.after,act]
    rfl
  obtain unchanged | ⟨writes,stays,ends,after⟩ := Attempt.after_of_ends ⟨e.base,world,commit⟩
    (completes m e.base world input.state input.requestID claimed identity)
  · have after := left_.trans unchanged
    exact .inl ⟨by rw [after],by rw [after]⟩
  · have after := left_.trans after
    generalize Attempt.result (m.completeInTransaction input.state input.requestID claimed identity) ⟨e.base,world,commit⟩ = result
      at stays ends
    cases ends with
    | fault => cases stays
    | consumed => cases stays
    | failed row held status presented code now =>
      rw [after]
      exact .inl (failWrites_tables _ _ _ _ _ _)
    | granted row held status presented early grant writes spares session now =>
      cases session with
      | signIn other => exact absurd other intent
      | initiating _ initiating =>
        refine .inr ⟨_,initiating,fun other differ => ?_⟩
        rw [after,written_append]
        exact spares.elsewhere e.base other differ

/-! Every history. -/

structure WebSafe (m : Module) (run : List WebEntry) (db : Database) : Prop where
  /-- A grant goes to a call that has presented the state of its login and its browser in time. -/
  presented : ∀ later e past, run = later++e::past → ∀ call input claimed grant, Grants m e call input claimed grant →
    Presents m past call input claimed
  started : ∀ id row, db.logins.lookup id = some row → Started m run id row
  current : OneCurrent db
  authentic : ∀ secret requireFresh touch world state,
    (m.authenticateWebInTransaction secret requireFresh touch world (Draft.start db)).1 = .ok state →
    Authentic m db secret (world.clock 1) state
  valid : ∀ principal world v, (m.validateWebPrincipalInTransaction principal world (Draft.start db)).1 = .ok v →
    Valid m db principal v ∧ v.now = world.clock 1
  /-- A completion for a session is of the one that began its login, while it is valid. -/
  rotated : ∀ e ∈ run, ∀ call input claimed identity world commit, e.act = .complete call input claimed identity world commit →
    claimed.intent ≠ .signIn → (e.after m).sessions = e.base.sessions ∧ (e.after m).secrets = e.base.secrets ∨
      ∃ id, Initiating m e.base claimed id (world.clock 1) ∧ Elsewhere e.base (e.after m) id
  /-- An identity is of one user, once and for all. -/
  distinct : DistinctIdentities db
  lasting : ∀ later e past, run = later++e::past → ∀ id row, e.base.identities.lookup id = some row →
    ∃ row', db.identities.lookup id = some row' ∧ SameIdentity row row'

/-- What does not come back. -/
structure WebOnce (m : Module) (run : List WebEntry) (db : Database) : Prop where
  single : ∀ later e past, run = later++e::past → ∀ e' ∈ past, ∀ call call' input input' claimed claimed' grant grant',
    Grants m e call input claimed grant → Grants m e' call' input' claimed' grant' → claimed.id ≠ claimed'.id
  ended : ∀ later e past, run = later++e::past → ∀ id row row', e.base.sessions.lookup id = some row → row.status ≠ .active →
    db.sessions.lookup id = some row' → row'.status ≠ .active

section Histories
variable {m : Module} {run : List WebEntry} {db : Database}

theorem onceCurrent (reached : WebHistory m run db) : OneCurrent db ∧ DistinctIdentities db := by
  induction reached with
  | start db vacant =>
    refine ⟨fun id generation generation' row row' held => ?_,fun id id' row row' held => ?_⟩
    · rw [vacant.secrets] at held
      cases held
    · rw [vacant.identities] at held
      cases held
  | step run e before possible ih =>
    have step := evolves possible
    exact ⟨step.secrets ih.1,step.distinct ih.2⟩

theorem authenticated {secret : String} {requireFresh touch : Bool} {world : World} {state : WebState} (one : OneCurrent db)
    (told : (m.authenticateWebInTransaction secret requireFresh touch world (Draft.start db)).1 = .ok state) :
    Authentic m db secret (world.clock 1) state := by
  have ends := (authenticates m db world secret requireFresh touch).2
  rw [told] at ends
  generalize (m.authenticateWebInTransaction secret requireFresh touch world (Draft.start db)).2.writes = writes at ends
  cases ends with
  | ok row found user status absolute idle fresh lastUsedAt writes touches =>
    have presented := getWebAuthentication_ok found
    refine .intro row presented rfl user status absolute idle fun generation other held current => ?_
    exact one row.id generation row.generation other row.secret held presented.secret current presented.current

theorem bind_pure_run {α : Type} (x : Transaction α) (world : World) (work : Draft Database Write) :
    (x >>= fun a => (pure a : Transaction α)) world work = x world work := by
  simp only [bind]
  cases x world work with
  | mk result work' => cases result <;> rfl

theorem validated {principal : Principal} {world : World} {v : Module.ValidatedWebPrincipal}
    (told : (m.validateWebPrincipalInTransaction principal world (Draft.start db)).1 = .ok v) :
    Valid m db principal v ∧ v.now = world.clock 1 := by
  have ends : (m.validateWebPrincipalInTransaction principal >>= fun v => (pure v : Transaction _)).Ends world (Draft.start db)
      fun result _ => ∀ v, result = .ok v → Valid m db principal v ∧ v.now = world.clock 1 := by
    refine validate_bind_ends (fun _ _ _ v told => ?_) (fun _ _ _ _ _ v told => ?_) fun v valid now => ?_
    · cases told
    · cases told
    · refine pure_ends fun v' same => ?_
      cases same
      exact ⟨valid,now⟩
  rw [Tx.Ends,bind_pure_run] at ends
  exact ends v told

theorem web_safe (reached : WebHistory m run db) : WebSafe m run db := by
  obtain ⟨current,distinct⟩ := onceCurrent reached
  refine ⟨?_,fun id row held => login_started reached held,current,fun _ _ _ _ _ told => authenticated current told,
    fun _ _ _ told => validated told,?_,distinct,?_⟩
  · rintro later e past rfl call input claimed grant grants
    obtain ⟨identity,world,commit,act,-,-⟩ := grants
    obtain ⟨-,possible⟩ := reached.split
    rw [act] at possible
    obtain ⟨⟨e',inside,by_⟩,-⟩ := possible
    exact claimedBy_presents inside by_
  · intro e _ call input claimed identity world commit act intent
    exact complete_rotates act intent
  · rintro later e past rfl id row held
    have related := Chronicle.related (R := fun first second => ∀ row, first.identities.lookup id = some row →
      ∃ row', second.identities.lookup id = some row' ∧ SameIdentity row row') ?_ ?_ reached
    · exact related row held
    · intro first second third left right row held
      obtain ⟨row',held',one⟩ := left row held
      obtain ⟨row'',held'',two⟩ := right row' held'
      exact ⟨row'',held'',one.trans two⟩
    · intro past e possible row held
      exact (evolves possible).identities id row held

theorem web_once (reached : WebHistory m run db) (fresh : FreshIDs m run) : WebOnce m run db := by
  constructor
  · rintro later e past rfl e' inside call call' input input' claimed claimed' grant grant' grants grants' same
    obtain ⟨before,-⟩ := reached.split
    obtain ⟨row,world,held,completing,-,-,-⟩ := grants_after grants
    obtain ⟨first,_,held',_,_,_,ended,after,completed⟩ := grants_after grants'
    rw [same] at held
    -- Behind its first grant the login has ended, or is gone.
    obtain ⟨later',past',rfl⟩ := List.append_of_mem inside
    have finished := Chronicle.lasting (P := LoginAt claimed'.id)
      (Q := fun db => ∀ row, db.logins.lookup claimed'.id = some row → row.status.rank = 2) ?_ before ?_ ?_ ?_ ⟨row,held⟩
    · have rank := finished row held
      rw [completing] at rank
      cases rank
    · intro past e possible before after finished row' held'
      obtain ⟨old,known⟩ := before
      have same := (evolves possible).logins _ old row' known held'
      have final : row'.status.rank ≤ 2 := by cases row'.status <;> decide
      exact Nat.le_antisymm final ((finished old known).symm.trans_le same.rank)
    · have once := fresh.logins claimed'.id
      exact (List.pairwise_cons.mp (List.pairwise_append.mp once).2.1).2
    · obtain ⟨past_,possible_⟩ := before.split
      obtain ⟨came,earlier,arises⟩ := past_.arose (P := LoginAt claimed'.id)
        (fun db vacant present => by obtain ⟨row,held⟩ := present; rw [vacant.logins] at held; cases held) ⟨first,held'⟩
      exact ⟨came,List.mem_cons_of_mem _ earlier,arises⟩
    · intro _ row held
      cases after.symm.trans held
      rw [completed]
      rfl
  · rintro later e past rfl id row row' held ended held'
    obtain ⟨before,possible⟩ := reached.split
    refine Chronicle.lasting (P := SessionAt id)
      (Q := fun db => ∀ row, db.sessions.lookup id = some row → row.status ≠ .active) ?_ reached (fresh.sessions id) ?_ ?_
      ⟨row',held'⟩ row' held'
    · intro past e possible before after finished row' held'
      obtain ⟨old,known⟩ := before
      exact (evolves possible).sessions id old row' known held' (finished old known)
    · obtain ⟨came,earlier,arises⟩ := before.arose (P := SessionAt id)
        (fun db vacant present => by obtain ⟨row,held⟩ := present; rw [vacant.sessions] at held; cases held) ⟨row,held⟩
      exact ⟨came,List.mem_cons_of_mem _ earlier,arises⟩
    · intro _ row' held'
      exact (evolves possible).sessions id row row' held held' ended

/-- However logins, authentications, revocations and maintenance follow one another, sessions and identities stay
whose they are. -/
theorem web_histories (reached : WebHistory m run db) : WebSafe m run db ∧ (FreshIDs m run → WebOnce m run db) :=
  ⟨web_safe reached,web_once reached⟩

/-! A user who signs in for the first time. -/

def loginProvider : Registration := ⟨"provider","1","issuer","callback"⟩

def loginModule : Module :=
  {sampleModule with registration := fun _ _ => some loginProvider,decryptPrivateState := fun _ _ => .ok "private"}

def vacantDatabase : Database := {overdueDatabase with users := ∅,sessions := ∅,secrets := ∅}

def loginInput : Module.CompleteFederatedLoginInput :=
  ⟨"provider","atf_v1_"++String.ofList (List.replicate 43 'A'),"atb_v1_"++String.ofList (List.replicate 43 'B'),"code","","",
    "request"⟩

def loginWorld : World := ⟨fun _ => 10*second,fun _ => none,fun _ => "drawn"⟩

def loginRecord : LoginRow :=
  loginModule.loginRow .signIn loginProvider loginInput.state loginInput.browserBinding "/" ⟨"key","",""⟩ "schema" none 0

def loginClaimed : ClaimedFederatedLogin := Module.claimedOf "login" loginRecord loginProvider "private"

def beginLogin : WebEntry :=
  ⟨vacantDatabase,.begin .signIn loginProvider "login" "request" loginInput.state loginInput.browserBinding "/" ⟨"key","",""⟩
    "schema" none 0 loginWorld .done⟩

def claimLogin : WebEntry := ⟨beginLogin.after loginModule,.claim 0 loginInput loginWorld .done⟩

def completeLogin : WebEntry :=
  ⟨claimLogin.after loginModule,.complete 0 loginInput loginClaimed ⟨"issuer","subject","Name",""⟩ loginWorld .done⟩

def loginRun : List WebEntry := [completeLogin,claimLogin,beginLogin]

theorem loginRun_claimed : ClaimedBy loginModule claimLogin 0 loginInput loginClaimed :=
  .intro loginWorld rfl (by decide) rfl

theorem loginRun_reached : WebHistory loginModule loginRun (completeLogin.after loginModule) := by
  have start : WebHistory loginModule [] vacantDatabase := .start _ ⟨fun _ => rfl,fun _ => rfl,fun _ => rfl,fun _ => rfl⟩
  have begun : WebHistory loginModule [beginLogin] (beginLogin.after loginModule) := .step [] beginLogin start rfl
  have claimed : WebHistory loginModule [claimLogin,beginLogin] (claimLogin.after loginModule) :=
    .step _ claimLogin begun trivial
  exact .step _ completeLogin claimed ⟨⟨claimLogin,List.mem_cons_self,loginRun_claimed⟩,.ok ⟨"issuer","subject","Name",""⟩,rfl⟩

theorem loginRun_fresh : FreshIDs loginModule loginRun := by
  have claims_ : claimLogin.act.Possible loginModule [] claimLogin.base := trivial
  have completes_ : completeLogin.act.Possible loginModule [claimLogin] completeLogin.base :=
    ⟨⟨claimLogin,List.mem_cons_self,loginRun_claimed⟩,.ok ⟨"issuer","subject","Name",""⟩,rfl⟩
  have logins : ∀ {e : WebEntry} {past : List WebEntry} {id : String}, e.act.Possible loginModule past e.base →
      e.act.begun loginModule = none → LoginAt id (e.after loginModule) → LoginAt id e.base := by
    intro e past id possible other present
    obtain ⟨row,held⟩ := present
    obtain old | ⟨new,began,-⟩ := (evolves possible).begins id row held
    · exact old
    · cases other.symm.trans began
  have sessions : ∀ id, ¬SessionAt id (claimLogin.after loginModule) ∧ ¬SessionAt id (beginLogin.after loginModule) := by
    have claimed : (claimLogin.after loginModule).sessions = ∅ := rfl
    have begun : (beginLogin.after loginModule).sessions = ∅ := rfl
    intro id
    unfold SessionAt
    rw [claimed,begun]
    simp
  refine ⟨fun id => ?_,fun id => ?_⟩
  · refine .cons (fun e' _ absent present => absurd (logins completes_ rfl present) absent) (.cons ?_ (.cons ?_ .nil))
    · exact fun e' _ absent present => absurd (logins claims_ rfl present) absent
    · exact List.forall_mem_nil _
  · refine .cons (fun e' inside _ _ present => ?_) (.cons ?_ (.cons ?_ .nil))
    · rcases List.mem_pair.mp inside with rfl | rfl
      · exact absurd present (sessions id).1
      · exact absurd present (sessions id).2
    · exact fun e' _ _ present => absurd present (sessions id).1
    · exact List.forall_mem_nil _

theorem web_histories_signIn :
    (completeLogin.after loginModule).sessions.lookup "drawn" ≠ none ∧
      WebSafe loginModule loginRun (completeLogin.after loginModule) ∧
      WebOnce loginModule loginRun (completeLogin.after loginModule) := by
  obtain ⟨safe,once⟩ := web_histories loginRun_reached
  exact ⟨by decide,safe,once loginRun_fresh⟩

end Histories
end ATape.Authentication
