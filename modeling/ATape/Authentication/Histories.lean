import ATape.Authentication.Grants

/-! What holds of CLI authorizations in every history: their codes, the session that reviews each, its
approval and the credential that a device is given. -/
namespace ATape.Authentication
open Foundation

/-- A user has approved from the session that had been bound. -/
inductive Approved (m : Module) (run : List Entry) (id userID : String) : Prop
  | intro (session : String) (later : List Entry) (approval : Entry) (past : List Entry)
      (made : run = later++approval::past) (approves : Approves m approval id userID session) (binding : Entry)
      (earlier : binding ∈ past) (binds : Binds m binding id session)

structure Persists (row row' : AuthorizationRow) : Prop where
  expiresAt : row'.expiresAt = row.expiresAt
  keyID : row'.userCodeKeyID = row.userCodeKeyID
  digest : row'.userCodeDigest = row.userCodeDigest
  session : ∀ session, row.reviewSessionID = some session → row'.reviewSessionID = some session
  ended : live row = false → row'.status = row.status

/-- What a history has made of an authorization. -/
structure Story (m : Module) (run : List Entry) (id : String) (o : Option AuthorizationRow) : Prop where
  coded : ∀ e ∈ run, ∀ code, Begins m e id code → ∃ row, o = some row ∧ Coded m row code
  bound : ∀ session, (∃ row, o = some row ∧ row.reviewSessionID = some session) ↔ ∃ e ∈ run, Binds m e id session
  approved : ∀ row, o = some row → row.status = .approvedUnclaimed →
    ∃ userID, row.approvingUserID = some userID ∧ Approved m run id userID
  claimed : ∀ e ∈ run, ∀ credentialID credential, Issues m e id credentialID credential →
    ∃ row, o = some row ∧ row.status = .claimed

section Stories
variable {m : Module} {run : List Entry} {e : Entry} {id : String} {o o' : Option AuthorizationRow}

theorem live_status {row row' : AuthorizationRow} (same : row'.status = row.status) : live row' = live row := by
  simp [live,same]

theorem Persists.trans {first second third : AuthorizationRow} (left : Persists first second)
    (right : Persists second third) : Persists first third := by
  refine ⟨right.expiresAt.trans left.expiresAt,right.keyID.trans left.keyID,right.digest.trans left.digest,
    fun session bound => right.session session (left.session session bound),fun ended => ?_⟩
  have still := left.ended ended
  exact (right.ended ((live_status still).trans ended)).trans still

theorem Persists.live {row row' : AuthorizationRow} (persists : Persists row row') (live_ : live row' = true) :
    live row = true := by
  cases before : ATape.Authentication.live row with
  | true => rfl
  | false => exact before.symm.trans ((live_status (persists.ended before)).symm.trans live_)

theorem RowStep.persists {row : AuthorizationRow} (step : RowStep m e id (some row) o') :
    ∃ row', o' = some row' ∧ Persists row row' := by
  cases step with
  | kept _ row' minor =>
    refine ⟨row',rfl,minor.expiresAt,minor.keyID,minor.digest,fun session bound => minor.session.trans bound,fun ended => ?_⟩
    obtain ⟨same,-⟩ | ⟨live_,-⟩ := minor.status
    · exact same
    · rw [ended] at live_
      cases live_
  | bound _ session status unbound binds =>
    refine ⟨_,rfl,rfl,rfl,rfl,fun other bound => ?_,fun _ => rfl⟩
    rw [unbound] at bound
    cases bound
  | approved _ userID session status =>
    refine ⟨_,rfl,rfl,rfl,rfl,fun _ bound => bound,fun ended => ?_⟩
    simp [live,status] at ended
  | claimed _ credentialID now status =>
    refine ⟨_,rfl,rfl,rfl,rfl,fun _ bound => bound,fun ended => ?_⟩
    simp [live,status] at ended

theorem Approved.later {userID : String} (approved : Approved m run id userID) (e : Entry) :
    Approved m (e::run) id userID := by
  obtain ⟨session,later,approval,past,made,approves,binding,earlier,binds⟩ := approved
  exact ⟨session,e::later,approval,past,by rw [made]; rfl,approves,binding,earlier,binds⟩

theorem Begins.rows {code : String} (begins : Begins m e id code) : e.base.authorizations.lookup id = none ∧
    ∃ row, (e.after m).authorizations.lookup id = some row := by
  obtain ⟨_,_,_,_,_,_,_,_,absent,row,after⟩ := begins
  exact ⟨absent,row,after⟩

section Step
variable (stepped_ : Stepped m e) (story : Story m run id (e.base.authorizations.lookup id))
include stepped_ story

theorem coded_step : ∀ e' ∈ e::run, ∀ code, Begins m e' id code →
    ∃ row, (e.after m).authorizations.lookup id = some row ∧ Coded m row code := by
  have step := stepped_.rows id
  intro e' inside code begins
  rcases List.mem_cons.mp inside with same | inside
  · subst same
    obtain ⟨absent,row,after⟩ := begins.rows
    rw [absent,after] at step
    cases step with
    | begun _ _ _ coded => exact ⟨row,after,coded code begins⟩
  · obtain ⟨row,held,coded⟩ := story.coded e' inside code begins
    rw [held] at step
    obtain ⟨row',after,persists⟩ := step.persists
    exact ⟨row',after,persists.keyID ▸ coded.accepted,by rw [persists.digest,persists.keyID]; exact coded.digest⟩

theorem bound_step (session : String) :
    (∃ row, (e.after m).authorizations.lookup id = some row ∧ row.reviewSessionID = some session) ↔
      ∃ e' ∈ e::run, Binds m e' id session := by
  have step := stepped_.rows id
  have before := story.bound session
  constructor
  · rintro ⟨row',after,bound⟩
    have known : (∃ row, e.base.authorizations.lookup id = some row ∧ row.reviewSessionID = some session) →
        ∃ e' ∈ e::run, Binds m e' id session := by
      intro old
      obtain ⟨e',inside,binds⟩ := before.mp old
      exact ⟨e',List.mem_cons_of_mem _ inside,binds⟩
    rw [after] at step
    generalize held : e.base.authorizations.lookup id = o at step
    cases step with
    | kept row _ minor => exact known ⟨row,held,minor.session.symm.trans bound⟩
    | begun _ _ unbound =>
      rw [unbound] at bound
      cases bound
    | bound row session' _ _ binds =>
      cases bound
      exact ⟨e,List.mem_cons_self,binds⟩
    | approved row _ _ _ _ _ => exact known ⟨row,held,bound⟩
    | claimed row _ _ _ => exact known ⟨row,held,bound⟩
  · rintro ⟨e',inside,binds⟩
    rcases List.mem_cons.mp inside with same | inside
    · subst same
      obtain ⟨_,_,_,_,_,_,_,_,_,_,row,_,_,_,_,_,_,after⟩ := binds
      exact ⟨_,after,rfl⟩
    · obtain ⟨row,held,bound⟩ := before.mpr ⟨e',inside,binds⟩
      rw [held] at step
      obtain ⟨row',after,persists⟩ := step.persists
      exact ⟨row',after,persists.session session bound⟩

theorem approved_step (row' : AuthorizationRow) (after : (e.after m).authorizations.lookup id = some row')
    (status : row'.status = .approvedUnclaimed) :
    ∃ userID, row'.approvingUserID = some userID ∧ Approved m (e::run) id userID := by
  have step := stepped_.rows id
  rw [after] at step
  generalize held : e.base.authorizations.lookup id = o at step
  cases step with
  | kept row _ minor =>
    obtain ⟨same,user⟩ | ⟨-,ended⟩ := minor.status
    · obtain ⟨userID,approving,approved⟩ := story.approved row held (same.symm.trans status)
      exact ⟨userID,user.trans approving,approved.later e⟩
    · simp [live,status] at ended
  | begun _ pending =>
    rw [pending] at status
    cases status
  | bound row _ pending =>
    have pending' : row.status = .approvedUnclaimed := status
    rw [pending] at pending'
    cases pending'
  | approved row userID session pending reviewed approves =>
    obtain ⟨binding,inside,binds⟩ := (story.bound session).mp ⟨row,held,reviewed⟩
    exact ⟨userID,rfl,.intro session [] e run rfl approves binding inside binds⟩
  | claimed => cases status

theorem claimed_step (e' : Entry) (inside : e' ∈ e::run) (credentialID : String) (credential : CredentialRow)
    (issues : Issues m e' id credentialID credential) :
    ∃ row, (e.after m).authorizations.lookup id = some row ∧ row.status = .claimed := by
  rcases List.mem_cons.mp inside with same | inside
  · subst same
    obtain ⟨authorization,absent,present⟩ := issues
    obtain ⟨old,held,-⟩ | ⟨-,issued⟩ := stepped_.credentials credentialID credential present
    · rw [absent] at held
      cases held
    · rw [authorization] at issued
      obtain ⟨_,_,_,_,_,_,_,_,_,_,_,_,_,row',after,claimed⟩ := issued
      exact ⟨row',after,claimed⟩
  · obtain ⟨row,held,claimed⟩ := story.claimed e' inside credentialID credential issues
    have step := stepped_.rows id
    rw [held] at step
    obtain ⟨row',after,persists⟩ := step.persists
    exact ⟨row',after,(persists.ended (by simp [live,claimed])).trans claimed⟩

end Step

theorem History.story {db : Database} (reached : History m run db) (id : String) :
    Story m run id (db.authorizations.lookup id) := by
  induction reached with
  | start db untouched =>
    rw [untouched.authorizations id]
    exact ⟨by simp,by simp,by simp,by simp⟩
  | step run e _ possible ih =>
    have stepped_ := stepped possible
    exact ⟨coded_step stepped_ ih,bound_step stepped_ ih,approved_step stepped_ ih,claimed_step stepped_ ih⟩

/-! The runs themselves. -/

theorem History.persists {db : Database} {later past : List Entry} (reached : History m (later++e::past) db)
    {row : AuthorizationRow} (held : e.base.authorizations.lookup id = some row) :
    ∃ row', db.authorizations.lookup id = some row' ∧ Persists row row' := by
  have related : ∀ row, e.base.authorizations.lookup id = some row →
      ∃ row', db.authorizations.lookup id = some row' ∧ Persists row row' := by
    refine Chronicle.related (R := fun first second => ∀ row, first.authorizations.lookup id = some row →
      ∃ row', second.authorizations.lookup id = some row' ∧ Persists row row') ?_ ?_ reached
    · intro first second third left right row held
      obtain ⟨row',held',persists⟩ := left row held
      obtain ⟨row'',held'',others⟩ := right row' held'
      exact ⟨row'',held'',persists.trans others⟩
    · intro past e possible row held
      have step := (stepped possible).rows id
      rw [held] at step
      exact step.persists
  exact related row held

theorem issues_issued (possible : e.act.Possible m e.base) {credentialID : String} {credential : CredentialRow}
    (issues : Issues m e id credentialID credential) : Issued m e id credentialID credential := by
  obtain ⟨rfl,absent,present⟩ := issues
  obtain ⟨old,held,-⟩ | ⟨-,issued⟩ := (stepped possible).credentials credentialID credential present
  · rw [absent] at held
    cases held
  · exact issued

theorem issues_once {past : List Entry} (reached : History m past e.base) (possible : e.act.Possible m e.base) {e' : Entry}
    (earlier : e' ∈ past) {credentialID credentialID' : String} {credential credential' : CredentialRow}
    (issues : Issues m e id credentialID credential) : ¬Issues m e' id credentialID' credential' := by
  intro issued
  obtain ⟨row,held,claimed⟩ := (reached.story id).claimed e' earlier _ _ issued
  obtain ⟨_,_,_,_,_,row',held',approved,_,_,_,_,_,_,_,_⟩ := issues_issued possible issues
  rw [held] at held'
  cases held'
  rw [claimed] at approved
  cases approved

theorem binds_once {past : List Entry} (reached : History m past e.base) {e' : Entry} (earlier : e' ∈ past)
    {session session' : String} (binds : Binds m e id session) : ¬Binds m e' id session' := by
  intro bound
  obtain ⟨row,held,reviewed⟩ := ((reached.story id).bound session').mpr ⟨e',earlier,bound⟩
  obtain ⟨_,_,_,_,_,_,_,_,_,_,row',held',_,unbound,_,_,_,_⟩ := binds
  rw [held] at held'
  cases held'
  rw [unbound] at reviewed
  cases reviewed

theorem live_before {db : Database} (reached : History m run e.base) (possible : e.act.Possible m e.base) (same : db = e.after m)
    {e' : Entry} (earlier : e' ∈ run) {code : String} (begins : Begins m e' id code)
    (live_ : authorizationIn db id live = true) :
    ∃ row, e.base.authorizations.lookup id = some row ∧ Coded m row code ∧ live row = true := by
  obtain ⟨row,held,coded⟩ := (reached.story id).coded e' earlier code begins
  have step := (stepped possible).rows id
  rw [held] at step
  obtain ⟨row',after,persists⟩ := step.persists
  rw [same,authorizationIn_of after] at live_
  exact ⟨row,held,coded,persists.live live_⟩

theorem codes_differ {db : Database} (reached : History m run db) : ∀ e ∈ run, ∀ e' ∈ run, ∀ id id' code,
    Begins m e id code → Begins m e' id' code → authorizationIn db id live = true → authorizationIn db id' live = true →
    id = id' := by
  induction reached with
  | start => simp
  | step run e before possible ih =>
    intro first inside second inside' id id' code begins begins' live_ live_'
    have fresh : ∀ {past : Entry} {id id' : String}, past ∈ run → Begins m e id code → Begins m past id' code →
        authorizationIn (Entry.after m e) id' live ≠ true := by
      intro past id id' earlier begins old live_
      obtain ⟨row,held,coded,live_⟩ := live_before before possible rfl earlier old live_
      exact begins_fresh possible begins held live_ coded
    rcases List.mem_cons.mp inside with rfl | earlier
    · rcases List.mem_cons.mp inside' with rfl | earlier'
      · obtain ⟨_,_,_,_,act,_,told,given,-,-,-⟩ := begins
        obtain ⟨_,_,_,_,act',_,told',given',-,-,-⟩ := begins'
        cases act.symm.trans act'
        cases told.symm.trans told'
        exact given.1.symm.trans given'.1
      · exact absurd live_' (fresh earlier' begins begins')
    · rcases List.mem_cons.mp inside' with rfl | earlier'
      · exact absurd live_ (fresh earlier begins' begins)
      · obtain ⟨row,held,-,live_⟩ := live_before before possible rfl earlier begins live_
        obtain ⟨row',held',-,live_'⟩ := live_before before possible rfl earlier' begins' live_'
        refine ih first earlier second earlier' id id' code begins begins' ?_ ?_
        · exact (authorizationIn_of held live).trans live_
        · exact (authorizationIn_of held' live).trans live_'

/-! Grants. -/

/-- The credential id that a poll draws, behind the reads of the authorization, of the clock and of
the user. -/
def Entry.draws (e : Entry) : Option String :=
  match e.act with
  | .poll _ world _ => some (world.drawn 3)
  | _ => none

/-- The attempts of a call, in their order. -/
def pollTries (call : PollCall) (run : List Entry) : Tries :=
  run.reverse.filterMap fun e => match e.act with
    | .poll other world commit => if other = call then some ⟨e.base,world,commit⟩ else none
    | _ => none

/-- A call is told of a grant. What it reads behind an uncertain commit, it reads at any moment. -/
inductive Told (m : Module) (run : List Entry) (db : Database) (call : PollCall) (grant : Module.CLICredentialGrant) : Prop
  | intro (x : Transaction Module.IssuedCredentialAttempt)
      (checked : m.pollCLIDeviceAuthorization call.deviceCode call.requestID = .ok x) (later : Option Database)
      (seen : ∀ moment, later = some moment → moment = db ∨ ∃ e ∈ run, moment = e.base)
      (told : m.polled later (withTransaction x (pollTries call run)).1 = .ok grant)

def FreshDraws (run : List Entry) : Prop := run.Pairwise fun e e' => ∀ drawn, e.draws = some drawn → e'.draws ≠ some drawn

theorem pollTries_mem {call : PollCall} {attempt : Attempt Database} (inside : attempt ∈ pollTries call run) :
    ∃ e ∈ run, e.act = .poll call attempt.world attempt.commit ∧ e.base = attempt.base := by
  obtain ⟨e,member,chosen⟩ := List.mem_filterMap.mp inside
  refine ⟨e,List.mem_reverse.mp member,?_⟩
  split at chosen
  next other world commit act =>
    split at chosen
    next same =>
      cases chosen
      exact ⟨same ▸ act,rfl⟩
    next => cases chosen
  next => cases chosen

theorem pollTries_left {call : PollCall} {x : Transaction Module.IssuedCredentialAttempt}
    (checked : m.pollCLIDeviceAuthorization call.deviceCode call.requestID = .ok x) {ended : Ended Database Write}
    (inside : ended ∈ (withTransaction x (pollTries call run)).2) : ∃ e ∈ run, ended.after = e.after m := by
  obtain ⟨made,trace⟩ := withTransaction_trace x (pollTries call run)
  rw [trace] at inside
  obtain ⟨attempt,tried,same⟩ := List.mem_map.mp inside
  obtain ⟨e,member,act,base⟩ := pollTries_mem (List.mem_of_mem_take tried)
  refine ⟨e,member,?_⟩
  rw [← same,Entry.after,act,Act.after,checked,base]
  rfl

theorem credential_issued {db : Database} (reached : History m run db) {credentialID : String} {credential : CredentialRow}
    (held : db.credentials.lookup credentialID = some credential) :
    ∃ e ∈ run, ∃ first, Issues m e first.authorizationID credentialID first ∧ SameCredential first credential := by
  induction reached generalizing credential with
  | start db untouched =>
    rw [untouched.credentials] at held
    cases held
  | step run e before possible ih =>
    obtain ⟨old,known,same⟩ | ⟨absent,-⟩ := (stepped possible).credentials credentialID credential held
    · obtain ⟨e',inside,first,issues,kept_⟩ := ih known
      refine ⟨e',List.mem_cons_of_mem _ inside,first,issues,?_⟩
      exact ⟨same.userID.trans kept_.userID,same.authorizationID.trans kept_.authorizationID,
        same.secretDigest.trans kept_.secretDigest⟩
    · exact ⟨e,List.mem_cons_self,credential,⟨rfl,absent,held⟩,.refl credential⟩

theorem poll_answer {call : PollCall} {world : World} {commit : Commit} {issued : Module.IssuedCredentialAttempt}
    {x : Transaction Module.IssuedCredentialAttempt} (act : e.act = .poll call world commit)
    (checked : m.pollCLIDeviceAuthorization call.deviceCode call.requestID = .ok x)
    (result : Attempt.result x ⟨e.base,world,commit⟩ = .ok issued) :
    e.draws = some issued.grant.credentialID ∧ (commit.applied = true → ∃ credential,
      Issues m e issued.authorizationID issued.grant.credentialID credential ∧
        credential.secretDigest = m.credentialDigest issued.grant.credentialSecret) := by
  have left_ : e.after m = (Attempt.ended x ⟨e.base,world,commit⟩).after := by
    rw [Entry.after,act,Act.after,checked]
    rfl
  have poll : x = m.pollInTransaction call.deviceCode call.requestID := by
    unfold Module.pollCLIDeviceAuthorization at checked
    split at checked
    next => cases checked
    next => exact (Except.ok.inj checked).symm
  subst poll
  obtain ⟨base,ends⟩ := polls m e.base world call.deviceCode call.requestID
  have after : commit.applied = true → e.after m =
      drafted e.base (m.pollInTransaction call.deviceCode call.requestID world (Draft.start e.base)).2.writes := by
    intro applied
    rw [left_,Ended.after,Attempt.ended,result,applied]
    rw [Draft.db,base]
    rfl
  have result : (m.pollInTransaction call.deviceCode call.requestID world (Draft.start e.base)).1 = .ok issued := result
  rw [result] at ends
  generalize (m.pollInTransaction call.deviceCode call.requestID world (Draft.start e.base)).2.writes = writes at ends after
  cases ends with
  | issued id row held code status early userID approved user known active grant drawn secret now claimedAt allowed =>
    have draws : e.draws = some grant.credentialID := by rw [Entry.draws,act,drawn]
    refine ⟨draws,fun applied => ⟨⟨userID,id,m.credentialDigest grant.credentialSecret,.active,now⟩,⟨rfl,?_,?_⟩,rfl⟩⟩
    · have free := (Bool.and_eq_true_iff.mp allowed).1
      simpa using free
    · rw [after applied]
      exact (Table.lookup_insert _ _ _ _).trans (if_pos rfl)

theorem told_issued {db : Database} (reached : History m run db) (fresh : FreshDraws run) {call : PollCall}
    {grant : Module.CLICredentialGrant} (told : Told m run db call grant) :
    ∃ e ∈ run, (∃ world commit, e.act = .poll call world commit) ∧ ∃ credential,
      Issues m e credential.authorizationID grant.credentialID credential ∧
        credential.secretDigest = m.credentialDigest grant.credentialSecret := by
  obtain ⟨x,checked,later,seen,told⟩ := told
  have attempts : ∀ attempt ∈ pollTries call run, ∀ issued, attempt.result x = .ok issued → ∃ e ∈ run,
      e.act = .poll call attempt.world attempt.commit ∧ e.draws = some issued.grant.credentialID ∧
      (attempt.commit.applied = true → ∃ credential, Issues m e issued.authorizationID issued.grant.credentialID credential ∧
        credential.secretDigest = m.credentialDigest issued.grant.credentialSecret) := by
    intro attempt inside issued result
    obtain ⟨e,member,act,base⟩ := pollTries_mem inside
    obtain ⟨draws,applied⟩ := poll_answer act checked (by rw [base]; exact result)
    exact ⟨e,member,act,draws,applied⟩
  unfold Module.polled at told
  split at told
  next issued answered =>
    cases told
    obtain ⟨attempt,inside,result,certain⟩ := withTransaction_answer (.inl answered)
    obtain ⟨e,member,act,-,applied⟩ := attempts attempt inside issued result
    obtain ⟨credential,issues,digest⟩ := applied (by rw [certain answered]; rfl)
    exact ⟨e,member,⟨_,_,act⟩,credential,⟨rfl,issues.absent,issues.present⟩,digest⟩
  next => cases told
  next issued answered =>
    obtain ⟨attempt,inside,result,-⟩ := withTransaction_answer (.inr answered)
    obtain ⟨e,member,act,draws,-⟩ := attempts attempt inside issued result
    split at told
    next found reconciled =>
      cases told
      obtain ⟨moment,given,claim⟩ := Option.bind_eq_some_iff.mp reconciled
      have moments : ∃ past, History m past moment ∧ past ⊆ run := by
        obtain same | ⟨e',inside',same⟩ := seen moment given
        · exact ⟨run,same ▸ reached,List.Subset.refl run⟩
        · obtain ⟨past,before,-,earlier⟩ := reached.before inside'
          exact ⟨past,same ▸ before,earlier⟩
      obtain ⟨past,before,earlier⟩ := moments
      simp only [Module.reconcileCLICredentialClaim,Option.bind_eq_bind,Option.bind_eq_some_iff] at claim
      obtain ⟨row,held,credential,known,user,present,claim⟩ := claim
      split at claim
      next meets =>
        cases claim
        obtain ⟨e',member',first,issues,same⟩ := credential_issued before known
        have inside' := earlier member'
        obtain ⟨_,_,possible,_⟩ := reached.before inside'
        obtain ⟨_,world,_,act',drawn,_,_,_,_,_,_,_,_,_,_,_⟩ := issues_issued possible issues
        -- The attempt that issued the credential drew its id, as this one did.
        have draws' : e'.draws = some issued.grant.credentialID := by rw [Entry.draws,act',drawn]
        have apart : run.Pairwise fun e e' => e.draws = some issued.grant.credentialID →
            ¬e'.draws = some issued.grant.credentialID := fresh.imp fun apart => apart issued.grant.credentialID
        obtain rfl := unique_of_pairwise apart member inside' draws draws'
        exact ⟨e,member,⟨_,_,act⟩,first,issues,same.secretDigest.symm.trans meets.2.2⟩
      next => cases claim
    next => cases told
  next => cases told
  next => cases told

end Stories

/-- What is said of a history up to a database. -/
structure Safe (m : Module) (run : List Entry) (db : Database) : Prop where
  /-- At most one credential is issued of an authorization. -/
  single : run.Pairwise fun e e' => ∀ id credentialID credentialID' credential credential',
    Issues m e id credentialID credential → ¬Issues m e' id credentialID' credential'
  alone : ∀ e ∈ run, ∀ id credentialID credentialID' credential credential', Issues m e id credentialID credential →
    Issues m e id credentialID' credential' → credentialID = credentialID'
  /-- It was approved by its user, who is active, and neither is late. -/
  warranted : ∀ later e past, run = later++e::past → ∀ id credentialID credential, Issues m e id credentialID credential →
    Issued m e id credentialID credential ∧ Approved m past id credential.userID
  /-- One session is bound, once. -/
  reviewed : run.Pairwise fun e e' => ∀ id session session', Binds m e id session → ¬Binds m e' id session'
  /-- What has ended stays as it is, and so do codes, sessions and expiries. -/
  lasting : ∀ later e past, run = later++e::past → ∀ id row, e.base.authorizations.lookup id = some row →
    ∃ row', db.authorizations.lookup id = some row' ∧ Persists row row'
  /-- Live authorizations are of different codes. -/
  codes : ∀ e ∈ run, ∀ e' ∈ run, ∀ id id' code, Begins m e id code → Begins m e' id' code →
    authorizationIn db id live = true → authorizationIn db id' live = true → id = id'

/-- What devices are told. -/
structure Delivered (m : Module) (run : List Entry) (db : Database) : Prop where
  issued : ∀ call grant, Told m run db call grant → ∃ e ∈ run, (∃ world commit, e.act = .poll call world commit) ∧
    ∃ credential, Issues m e credential.authorizationID grant.credentialID credential ∧
      credential.secretDigest = m.credentialDigest grant.credentialSecret
  /-- No two calls are told of credentials of one authorization. -/
  once : ∀ call call' grant grant', Told m run db call grant → Told m run db call' grant' → ∀ e ∈ run, ∀ e' ∈ run,
    ∀ id credential credential', Issues m e id grant.credentialID credential →
      Issues m e' id grant'.credentialID credential' → call = call'

/-- However creations, reviews, decisions, polls and expiry follow one another, each authorization goes
its way, and one device at most gets its credential. -/
theorem authorizations_safe {m : Module} {run : List Entry} {db : Database} (reached : History m run db) :
    Safe m run db ∧ (FreshDraws run → Delivered m run db) := by
  have single : run.Pairwise fun e e' => ∀ id credentialID credentialID' credential credential',
      Issues m e id credentialID credential → ¬Issues m e' id credentialID' credential' :=
    reached.pairwise fun past e before possible e' earlier id _ _ _ _ issues =>
      issues_once before possible earlier issues
  have unique : ∀ {e e' : Entry} {id credentialID credentialID' : String} {credential credential' : CredentialRow}, e ∈ run →
      e' ∈ run → Issues m e id credentialID credential → Issues m e' id credentialID' credential' → e = e' := by
    intro e e' id _ _ _ _ inside inside' issues issues'
    have apart : run.Pairwise fun e e' => (∃ credentialID credential, Issues m e id credentialID credential) →
        ¬∃ credentialID credential, Issues m e' id credentialID credential := by
      refine single.imp fun apart issued issued' => ?_
      obtain ⟨_,_,issues⟩ := issued
      obtain ⟨_,_,issues'⟩ := issued'
      exact apart _ _ _ _ _ issues issues'
    exact unique_of_pairwise apart inside inside' ⟨_,_,issues⟩ ⟨_,_,issues'⟩
  have drawn : ∀ {e : Entry} {id credentialID : String} {credential : CredentialRow}, e ∈ run →
      Issues m e id credentialID credential → ∃ call world commit, e.act = .poll call world commit ∧
        credentialID = world.drawn 3 := by
    intro e id _ _ inside issues
    obtain ⟨_,_,possible,_⟩ := reached.before inside
    obtain ⟨call,world,commit,act,drawn,_,_,_,_,_,_,_,_,_,_,_⟩ := issues_issued possible issues
    exact ⟨call,world,commit,act,drawn⟩
  refine ⟨⟨single,?_,?_,?_,?_,codes_differ reached⟩,fun fresh => ⟨fun call grant => told_issued reached fresh,?_⟩⟩
  · intro e inside id credentialID credentialID' credential credential' issues issues'
    obtain ⟨_,world,_,act,same⟩ := drawn inside issues
    obtain ⟨_,world',_,act',same'⟩ := drawn inside issues'
    cases act.symm.trans act'
    exact same.trans same'.symm
  · rintro later e past rfl id credentialID credential issues
    obtain ⟨before,possible⟩ := reached.split
    have issued := issues_issued possible issues
    refine ⟨issued,?_⟩
    obtain ⟨_,_,_,_,_,row,held,status,approved,_,_,_,_,_,_,_⟩ := issued
    obtain ⟨userID,approving,approval⟩ := (History.story before id).approved row held status
    rw [approved] at approving
    cases approving
    exact approval
  · exact reached.pairwise fun past e before _ e' earlier id _ _ binds => binds_once before earlier binds
  · rintro later e past rfl id row held
    exact reached.persists held
  · intro call call' grant grant' told told' e inside e' inside' id credential credential' issues issues'
    have caller : ∀ {call : PollCall} {grant : Module.CLICredentialGrant} {e : Entry} {credential : CredentialRow},
        Told m run db call grant → e ∈ run → Issues m e id grant.credentialID credential →
        ∃ world commit, e.act = .poll call world commit := by
      intro call grant e credential told inside issues
      obtain ⟨first,member,act,one,given,-⟩ := told_issued reached fresh told
      have draws : ∀ {e : Entry} {id : String} {credential : CredentialRow}, e ∈ run →
          Issues m e id grant.credentialID credential → e.draws = some grant.credentialID := by
        intro e id credential inside issues
        obtain ⟨_,world,_,act,same⟩ := drawn inside issues
        rw [Entry.draws,act,same]
      have apart : run.Pairwise fun e e' => e.draws = some grant.credentialID → ¬e'.draws = some grant.credentialID :=
        fresh.imp fun apart => apart grant.credentialID
      obtain rfl := unique_of_pairwise apart member inside (draws member given) (draws inside issues)
      exact act
    obtain ⟨_,_,act⟩ := caller told inside issues
    obtain ⟨_,_,act'⟩ := caller told' inside' issues'
    obtain rfl := unique inside inside' issues issues'
    cases act.symm.trans act'
    rfl

/-! A credential that is issued behind a poll that was lost. -/

def grantStart : Database :=
  {overdueDatabase with sessions := (∅ : Table String SessionRow).insert "session" ⟨"user",.active,0,0,0,86400*second,none,""⟩}

def grantWorld (drawn : String) : World := ⟨fun _ => 10*second,fun _ => none,fun _ => drawn⟩

def grantCaller : Principal := ⟨"user",.webAuthentication,"session","",0,false⟩

def grantDevice : String := "atd_v1_"++String.ofList (List.replicate 43 'A')

def beginEntry : Entry := ⟨grantStart,.create sampleModule.pepperKeys grantDevice (grantWorld "number") .done⟩

def bindEntry : Entry :=
  ⟨beginEntry.after sampleModule,.resolve grantCaller (deviceUserCode "number") "request" (grantWorld "") .done⟩

def approveEntry : Entry :=
  ⟨bindEntry.after sampleModule,.decide grantCaller "number" "request" (some .approve) (grantWorld "") .done⟩

def lostEntry : Entry :=
  ⟨approveEntry.after sampleModule,.poll ⟨0,grantDevice,"request"⟩ (grantWorld "lost") (.failed false false)⟩

def issueEntry : Entry :=
  ⟨lostEntry.after sampleModule,.poll ⟨1,grantDevice,"request"⟩ (grantWorld "credential") (.failed false true)⟩

def grantRun : List Entry := [issueEntry,lostEntry,approveEntry,bindEntry,beginEntry]

theorem grantRun_reached : History sampleModule grantRun (issueEntry.after sampleModule) := by
  have start : History sampleModule [] grantStart := .start _ ⟨fun _ => rfl,fun _ => rfl⟩
  have begun : History sampleModule [beginEntry] (beginEntry.after sampleModule) := .step [] beginEntry start rfl
  have bound := Chronicle.step _ bindEntry begun trivial
  have approved := Chronicle.step _ approveEntry bound trivial
  have lost := Chronicle.step _ lostEntry approved trivial
  exact .step _ issueEntry lost trivial

theorem grantRun_fresh : FreshDraws grantRun := by
  have draws : grantRun.map Entry.draws = [some "credential",some "lost",none,none,none] := rfl
  have apart : (grantRun.map Entry.draws).Pairwise fun a b => ∀ drawn, a = some drawn → b ≠ some drawn := by
    rw [draws]
    simp
  exact List.pairwise_map.mp apart

theorem authorizations_safe_claimed :
    ((issueEntry.after sampleModule).credentials.lookup "credential").map CredentialRow.authorizationID = some "number" ∧
      Safe sampleModule grantRun (issueEntry.after sampleModule) ∧
      Delivered sampleModule grantRun (issueEntry.after sampleModule) := by
  obtain ⟨safe,delivered⟩ := authorizations_safe grantRun_reached
  exact ⟨by decide,safe,delivered grantRun_fresh⟩

end ATape.Authentication
