import ATape.Authentication.Completion
import ATape.Foundation.Guarded

/-! Where the writes of sessions, of their secrets, of logins and of identities are made. -/
namespace ATape.Authentication
open Foundation

/-- A login is pending, then completing, and then it has ended. -/
def LoginStatus.rank : LoginStatus → ℕ
  | .pending => 0
  | .completing => 1
  | _ => 2

/-- What is found where a write is made. A login is put by the transaction that begins it. -/
def Write.Allowed (begun : Option (String × LoginRow)) : Write → Database → Prop
  | .insertExternalIdentity id row,db => db.identities.lookup id = none ∧
      ∀ other held, db.identities.lookup other = some held → ¬(held.issuer = row.issuer ∧ held.subject = row.subject)
  | .insertWebSession id _,db => db.sessions.lookup id = none
  | .terminalWebSession _ status _ _,_ => status ≠ .active
  | .insertWebSessionSecret id generation _,db => db.secrets.lookup (id,generation) = none ∧
      ∀ other held, db.secrets.lookup (id,other) = some held → held.supersededAt ≠ none
  | .insertFederatedLogin id row,db => db.logins.lookup id = none ∧ begun = some (id,row)
  | .claimFederatedLogin id,db => ∃ row, db.logins.lookup id = some row ∧ row.status = .pending
  | .finishFederatedLogin id status _ _,db => ∃ row, db.logins.lookup id = some row ∧ row.status.rank < status.rank
  | _,_ => True

abbrev Transaction.Guards {α : Type} (x : Transaction α) (begun : Option (String × LoginRow)) : Prop :=
  Tx.Guards (Write.Allowed begun) x

section Statements
variable {α : Type} {begun : Option (String × LoginRow)}

theorem query_guards (read : Database → α) : (query read).Guards begun := by
  refine statement_guards fun now db a writes answer => ?_
  cases answer
  trivial

theorem databaseTime_guards : Transaction.Guards databaseTime begun := by
  refine statement_guards fun now db a writes answer => ?_
  cases answer
  trivial

theorem execute_guards {write : Int → Database → α × List Write}
    (allows : ∀ now db, Guarded (Write.Allowed begun) db (write now db).2) : (execute write).Guards begun := by
  refine statement_guards fun now db a writes answer => ?_
  have same := Option.some.inj answer
  have allows := allows now db
  rwa [same] at allows

theorem insertion_guards {allowed : Database → Bool} {write : Int → α × List Write}
    (allows : ∀ now db, allowed db = true → Guarded (Write.Allowed begun) db (write now).2) :
    (insertion allowed write).Guards begun := by
  refine statement_guards fun now db a writes answer => ?_
  split at answer
  next meets =>
    have same := Option.some.inj answer
    have allows := allows now db meets
    rwa [same] at allows
  next => cases answer

theorem refuse_guards (error : Error) : Transaction.Guards (refuse error : Transaction α) begun := halt_guards _

theorem settle_guards (error : Error) : Transaction.Guards (settle error : Transaction α) begun := halt_guards _

theorem faulty_guards : Transaction.Guards (faulty : Transaction α) begun := halt_guards _

theorem appendAudit_guards (record : AuditRecord) : (appendAudit record).Guards begun :=
  bind_guards draw_guards fun _ => insertion_guards fun _ _ _ => ⟨trivial,trivial⟩

theorem newSecret_guards (opening : String) : (newSecret opening).Guards begun :=
  bind_guards draw_guards fun _ => pure_guards _

end Statements

/-! Sessions. -/

section Sessions
variable (m : Module) {begun : Option (String × LoginRow)}

theorem touchWebSession_guards (id : String) (interval : Int) : (touchWebSession id interval).Guards begun := by
  refine execute_guards fun now db => ?_
  split
  next =>
    split
    next => exact .one trivial
    next => trivial
  next => trivial

theorem terminalizeWebSession_guards {id reason : String} {status : SessionStatus} (ended : status ≠ .active) :
    (terminalizeWebSession id status reason).Guards begun := by
  refine bind_guards (execute_guards fun now db => ?_) fun _ => appendAudit_guards _
  dsimp only
  split
  next => exact .one ended
  next => trivial

theorem authenticate_guards (secret : String) (requireFresh touch : Bool) :
    (m.authenticateWebInTransaction secret requireFresh touch).Guards begun := by
  refine bind_guards (query_guards _) fun found => ?_
  split
  next => exact refuse_guards _
  next row =>
    refine bind_guards databaseTime_guards fun now => ?_
    unfold Module.authenticateRow
    split
    next => exact refuse_guards _
    next =>
      split
      next => exact refuse_guards _
      next => exact refuse_guards _
      next => exact settle_guards _
      next =>
        split
        next => exact bind_guards (terminalizeWebSession_guards (by decide)) fun _ => refuse_guards _
        next =>
          split
          next => exact bind_guards (terminalizeWebSession_guards (by decide)) fun _ => settle_guards _
          next =>
            split
            next => exact refuse_guards _
            next =>
              split
              next => exact refuse_guards _
              next =>
                split
                next => exact bind_guards (touchWebSession_guards _ _) fun _ => pure_guards _
                next => exact pure_guards _

theorem validate_guards (principal : Principal) : (m.validateWebPrincipalInTransaction principal).Guards begun := by
  unfold Module.validateWebPrincipalInTransaction
  split
  next => exact refuse_guards _
  next =>
    split
    next => exact refuse_guards _
    next =>
      refine bind_guards (query_guards _) fun row => ?_
      split
      next => exact refuse_guards _
      next =>
        unfold Module.validateRow
        split
        next => exact refuse_guards _
        next =>
          split
          next => exact refuse_guards _
          next =>
            refine bind_guards databaseTime_guards fun now => ?_
            split
            next => exact refuse_guards _
            next => exact pure_guards _

theorem revokeSessions_guards (chosen : String → SessionRow → Bool) (reason : String) :
    (Module.revokeSessions chosen reason).Guards begun := by
  refine execute_guards fun now db => ?_
  dsimp only
  split
  next => trivial
  next => exact .one trivial

theorem revoke_guards (input : Module.RevokeWebSessionsInput) :
    (m.revokeWebSessionsInTransaction input).Guards begun := by
  have told : ∀ target affected, (Module.revoked input target affected).Guards begun := by
    intro target affected
    unfold Module.revoked
    split
    next => exact appendAudit_guards _
    next => exact pure_guards _
  refine bind_guards (validate_guards m _) fun principal => ?_
  split
  next => exact bind_guards (revokeSessions_guards _ _) fun affected => told _ affected
  next =>
    split
    next => exact pure_guards _
    next => exact bind_guards (revokeSessions_guards _ _) fun affected => told _ affected

theorem insertWebSessionSecret_guards (id : String) (generation : ℕ) (secret : String) :
    (m.insertWebSessionSecret id generation secret).Guards begun := by
  refine insertion_guards fun now db meets => .one ?_
  obtain ⟨free,alone⟩ := Bool.and_eq_true_iff.mp meets
  have alone : db.secrets.any (fun key row =>
      row.secretDigest = m.secretDigest secret || (key.1 = id && row.supersededAt = none)) = false := by simpa using alone
  refine ⟨by simpa using free,fun other held lookup current => ?_⟩
  have none_ := (Table.any_eq_false_iff _ _).mp alone (id,other) held lookup
  simp [current] at none_

theorem newSession_guards (user : User) (requestID registrationID initiatorID returnTo : String) :
    (m.newWebSessionInTransaction user requestID registrationID initiatorID returnTo).Guards begun := by
  refine bind_guards draw_guards fun id => bind_guards (newSecret_guards _) fun secret => ?_
  refine bind_guards (insertion_guards fun now db meets => .one ?_) fun row => ?_
  · exact Option.isNone_iff_eq_none.mp meets
  refine bind_guards (insertWebSessionSecret_guards m _ _ _) fun _ => ?_
  exact bind_guards (appendAudit_guards _) fun _ => pure_guards _

theorem rotate_guards (user : User) (id : String) (reauthenticate : Bool) (requestID registrationID initiatorID returnTo : String) :
    (m.rotateWebSessionInTransaction user id reauthenticate requestID registrationID initiatorID returnTo).Guards begun := by
  refine bind_guards (query_guards _) fun generation => ?_
  split
  next => exact faulty_guards
  next =>
    refine bind_guards (execute_guards fun now db => ?_) fun _ => bind_guards (newSecret_guards _) fun secret => ?_
    · dsimp only
      split
      next => exact .one trivial
      next => trivial
    refine bind_guards (insertWebSessionSecret_guards m _ _ _) fun _ => bind_guards (query_guards _) fun row => ?_
    split
    next => exact faulty_guards
    next =>
      refine bind_guards ?_ fun row => bind_guards (appendAudit_guards _) fun _ => pure_guards _
      unfold Module.refreshed
      split
      next =>
        refine bind_guards (execute_guards fun now db => ?_) fun fresh => ?_
        · dsimp only
          split
          next =>
            split
            next => exact .one trivial
            next => trivial
          next => trivial
        · split
          next => exact pure_guards _
          next => exact faulty_guards
      next => exact pure_guards _

end Sessions

/-! Logins. -/

section Logins
variable (m : Module) {begun : Option (String × LoginRow)}

theorem loginIn_some {db : Database} {id : String} {chosen : LoginRow → Bool} (holds : loginIn db id chosen = true) :
    ∃ row, db.logins.lookup id = some row ∧ chosen row = true := (Option.any_eq_true _ _).mp holds

theorem claimFederatedLogin_guards (id : String) : (claimFederatedLogin id).Guards begun := by
  refine execute_guards fun now db => ?_
  split
  next meets =>
    obtain ⟨row,held,chosen⟩ := loginIn_some meets
    exact .one ⟨row,held,by simpa using (Bool.and_eq_true_iff.mp chosen).1⟩
  next => trivial

theorem expireFederatedLogin_guards (id : String) : (expireFederatedLogin id).Guards begun := by
  refine execute_guards fun now db => ?_
  dsimp only
  split
  next meets =>
    obtain ⟨row,held,chosen⟩ := loginIn_some meets
    refine .one ⟨row,held,?_⟩
    cases status : row.status <;> simp_all [openLogin,LoginStatus.rank]
  next => trivial

theorem finishFederatedLogin_guards (id failureCode : String) {status : LoginStatus} (final : status.rank = 2) :
    (finishFederatedLogin id status failureCode).Guards begun := by
  refine execute_guards fun now db => ?_
  dsimp only
  split
  next meets =>
    obtain ⟨row,held,chosen⟩ := loginIn_some meets
    have completing : row.status = .completing := by simpa using chosen
    refine .one ⟨row,held,?_⟩
    rw [completing,final]
    decide
  next => trivial

theorem begin_guards (id requestID : String) (row : LoginRow) (initiator : Option (String × String)) :
    (Module.beginInTransaction id requestID row initiator).Guards (some (id,row)) := by
  refine bind_guards (statement_guards fun now db a writes answer => ?_) fun _ => appendAudit_guards _
  split at answer
  next meets =>
    cases answer
    simp only [Bool.and_eq_true,loginAllowed] at meets
    exact .one ⟨Option.isNone_iff_eq_none.mp meets.1.1.1,rfl⟩
  next => cases answer

theorem claim_guards (input : Module.CompleteFederatedLoginInput) : (m.claimInTransaction input).Guards begun := by
  refine bind_guards (query_guards _) fun found => ?_
  split
  next => exact refuse_guards _
  next id row =>
    unfold Module.claimRow
    split
    next => exact refuse_guards _
    next =>
      split
      next =>
        refine bind_guards databaseTime_guards fun now => ?_
        split
        next =>
          exact bind_guards (expireFederatedLogin_guards _) fun _ => bind_guards (appendAudit_guards _) fun _ => settle_guards _
        next =>
          unfold Module.claimRegistered
          split
          next => exact refuse_guards _
          next =>
            split
            next => exact refuse_guards _
            next =>
              unfold Module.claimOpened
              split
              next => exact refuse_guards _
              next =>
                split
                next => exact refuse_guards _
                next =>
                  refine bind_guards (claimFederatedLogin_guards _) fun claimed => ?_
                  split
                  next => exact pure_guards _
                  next => exact refuse_guards _
      next => exact refuse_guards _

theorem failureStatus_final (code : ErrorCode) : (Module.failureStatus code).rank = 2 := by
  unfold Module.failureStatus
  split <;> rfl

theorem recordFailure_guards (claimed : ClaimedFederatedLogin) (code : ErrorCode) (requestID : String) :
    (Module.recordFederatedFailure claimed code requestID).Guards begun :=
  bind_guards (finishFederatedLogin_guards _ _ (failureStatus_final code)) fun _ => appendAudit_guards _

theorem fail_guards (claimed : ClaimedFederatedLogin) (code : ErrorCode) (requestID : String) :
    (Module.failFederatedInTransaction claimed code requestID).Guards begun :=
  bind_guards (recordFailure_guards _ _ _) fun _ => settle_guards _

/-! Identities. -/

theorem insertExternalIdentity_guards (id userID : String) (identity : VerifiedExternalIdentity) :
    (insertExternalIdentity id userID identity).Guards begun := by
  refine insertion_guards fun now db meets => .one ?_
  obtain ⟨free,alone⟩ := Bool.and_eq_true_iff.mp meets
  refine ⟨Option.isNone_iff_eq_none.mp free,fun other held lookup same => ?_⟩
  have none_ := List.find?_eq_none.mp (Option.isNone_iff_eq_none.mp alone) (other,held) ((Table.mem_rows _ _ _).mpr lookup)
  exact none_ (by simpa [identityRow] using same)

theorem refreshExternalIdentity_guards (id : String) (identity : VerifiedExternalIdentity) :
    (refreshExternalIdentity id identity).Guards begun := by
  refine execute_guards fun now db => ?_
  dsimp only
  split
  next => exact .one trivial
  next => trivial

theorem signIn_guards (identity : VerifiedExternalIdentity) : (Module.resolveSignInIdentity identity).Guards begun := by
  refine bind_guards (query_guards _) fun _ => bind_guards (query_guards _) fun found => ?_
  split
  next =>
    refine bind_guards draw_guards fun userID => bind_guards draw_guards fun identityID => ?_
    refine bind_guards (insertion_guards fun _ _ _ => ⟨trivial,trivial⟩) fun user => ?_
    exact bind_guards (insertExternalIdentity_guards _ _ _) fun _ => pure_guards _
  next id row =>
    unfold Module.signInKnown
    split
    next => exact pure_guards _
    next =>
      refine bind_guards (query_guards _) fun user => ?_
      split
      next => exact faulty_guards
      next =>
        split
        next => exact pure_guards _
        next =>
          refine bind_guards (bind_guards (refreshExternalIdentity_guards _ _) fun _ => ?_) fun _ => pure_guards _
          split
          next =>
            refine bind_guards (execute_guards fun now db => ?_) fun _ => pure_guards _
            dsimp only
            split
            next => exact .one trivial
            next => trivial
          next => exact pure_guards _

theorem identify_guards (reauthenticate : Bool) (userID : String) (identity : VerifiedExternalIdentity) :
    (Module.identify reauthenticate userID identity).Guards begun := by
  unfold Module.identify
  split
  next =>
    refine bind_guards (query_guards _) fun _ => bind_guards (query_guards _) fun found => ?_
    split
    next => exact pure_guards _
    next =>
      split
      next => exact pure_guards _
      next => exact bind_guards (refreshExternalIdentity_guards _ _) fun _ => pure_guards _
  next =>
    refine bind_guards (query_guards _) fun _ => bind_guards (query_guards _) fun found => ?_
    split
    next =>
      exact bind_guards draw_guards fun id => bind_guards (insertExternalIdentity_guards _ _ _) fun _ => pure_guards _
    next =>
      split
      next => exact pure_guards _
      next => exact bind_guards (refreshExternalIdentity_guards _ _) fun _ => pure_guards _

theorem completed_guards (claimed : ClaimedFederatedLogin) (requestID : String) (grant : WebSessionGrant) :
    (Module.completed claimed requestID grant).Guards begun :=
  bind_guards (finishFederatedLogin_guards _ _ rfl) fun _ => bind_guards (appendAudit_guards _) fun _ => pure_guards _

theorem complete_guards (state requestID : String) (claimed : ClaimedFederatedLogin) (identity : VerifiedExternalIdentity) :
    (m.completeInTransaction state requestID claimed identity).Guards begun := by
  have session : ∀ reauthenticate now, (m.completeForSession claimed requestID identity reauthenticate now).Guards begun := by
    intro reauthenticate now
    refine bind_guards ?_ fun user => ?_
    · unfold Module.validateInitiatingSession
      split
      next => exact pure_guards _
      next =>
        refine bind_guards (query_guards _) fun row => ?_
        split
        next => exact pure_guards _
        next =>
          split
          next => exact pure_guards _
          next => exact pure_guards _
    · split
      next => exact fail_guards _ _ _
      next =>
        refine bind_guards (identify_guards _ _ _) fun identified => ?_
        split
        next => exact fail_guards _ _ _
        next => exact bind_guards (rotate_guards m _ _ _ _ _ _ _) fun grant => completed_guards _ _ _
  refine bind_guards (query_guards _) fun found => ?_
  split
  next => exact faulty_guards
  next id row =>
    unfold Module.completeRow
    split
    next => exact refuse_guards _
    next =>
      refine bind_guards databaseTime_guards fun now => ?_
      split
      next => exact fail_guards _ _ _
      next =>
        unfold Module.completeIntent
        split
        next =>
          refine bind_guards (signIn_guards _) fun user => ?_
          split
          next => exact fail_guards _ _ _
          next => exact bind_guards (newSession_guards m _ _ _ _ _) fun grant => completed_guards _ _ _
        next => exact session _ _
        next => exact session _ _

end Logins
end ATape.Authentication
