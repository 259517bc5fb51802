import ATape.Authentication.Guards

/-! What allowed writes keep of sessions, of their secrets, of logins and of identities. -/
namespace ATape.Authentication
open Foundation

def OneCurrent (db : Database) : Prop :=
  ∀ id generation generation' row row', db.secrets.lookup (id,generation) = some row →
    db.secrets.lookup (id,generation') = some row' → row.supersededAt = none → row'.supersededAt = none →
    generation = generation'

/-- An issuer and a subject are one identity at most. -/
def DistinctIdentities (db : Database) : Prop :=
  ∀ id id' row row', db.identities.lookup id = some row → db.identities.lookup id' = some row' →
    row.issuer = row'.issuer → row.subject = row'.subject → id = id'

structure SameIdentity (row row' : IdentityRow) : Prop where
  userID : row'.userID = row.userID
  issuer : row'.issuer = row.issuer
  subject : row'.subject = row.subject

structure SameLogin (row row' : LoginRow) : Prop where
  intent : row'.intent = row.intent
  state : row'.stateDigest = row.stateDigest
  binding : row'.browserBindingDigest = row.browserBindingDigest
  user : row'.initiatingUserID = row.initiatingUserID
  session : row'.initiatingSessionID = row.initiatingSessionID
  expiresAt : row'.expiresAt = row.expiresAt
  rank : row.status.rank ≤ row'.status.rank

def StillEnded (row row' : SessionRow) : Prop := row.status ≠ .active → row'.status ≠ .active

/-- What is kept by writes that put one login at most. -/
structure Keeps (begun : Option (String × LoginRow)) (db db' : Database) : Prop where
  sessions : ∀ id row, db.sessions.lookup id = some row → ∃ row', db'.sessions.lookup id = some row' ∧ StillEnded row row'
  secrets : OneCurrent db → OneCurrent db'
  logins : ∀ id row, db.logins.lookup id = some row → ∃ row', db'.logins.lookup id = some row' ∧ SameLogin row row'
  begins : ∀ id row', db'.logins.lookup id = some row' → (∃ row, db.logins.lookup id = some row) ∨
    ∃ row, begun = some (id,row) ∧ SameLogin row row'
  identities : ∀ id row, db.identities.lookup id = some row → ∃ row', db'.identities.lookup id = some row' ∧ SameIdentity row row'
  distinct : DistinctIdentities db → DistinctIdentities db'

section Keeping
variable {db db' : Database} {begun : Option (String × LoginRow)}

theorem SameIdentity.refl (row : IdentityRow) : SameIdentity row row := ⟨rfl,rfl,rfl⟩

theorem SameIdentity.trans {a b c : IdentityRow} (left : SameIdentity a b) (right : SameIdentity b c) : SameIdentity a c :=
  ⟨right.userID.trans left.userID,right.issuer.trans left.issuer,right.subject.trans left.subject⟩

theorem SameLogin.refl (row : LoginRow) : SameLogin row row := ⟨rfl,rfl,rfl,rfl,rfl,rfl,le_refl _⟩

theorem SameLogin.trans {a b c : LoginRow} (left : SameLogin a b) (right : SameLogin b c) : SameLogin a c :=
  ⟨right.intent.trans left.intent,right.state.trans left.state,right.binding.trans left.binding,right.user.trans left.user,
    right.session.trans left.session,right.expiresAt.trans left.expiresAt,left.rank.trans right.rank⟩

theorem StillEnded.refl (row : SessionRow) : StillEnded row row := fun ended => ended

theorem kept_rows {κ ρ : Type} [DecidableEq κ] {t t' : Table κ ρ} {R : ρ → ρ → Prop} {f : κ → ρ → ρ}
    (rows : t' = Table.updateAll f t) (keep : ∀ k row, t.lookup k = some row → R row (f k row)) :
    ∀ k row, t.lookup k = some row → ∃ row', t'.lookup k = some row' ∧ R row row' := by
  intro k row held
  refine ⟨f k row,?_,keep k row held⟩
  rw [rows,Table.lookup_updateAll,held,Option.map_some]

theorem kept_modify {κ ρ : Type} [DecidableEq κ] {t t' : Table κ ρ} {R : ρ → ρ → Prop} (reflexive : ∀ row, R row row)
    {key : κ} {f : ρ → ρ} (rows : t' = Table.modify key f t) (keep : ∀ row, t.lookup key = some row → R row (f row)) :
    ∀ k row, t.lookup k = some row → ∃ row', t'.lookup k = some row' ∧ R row row' := by
  refine kept_rows rows fun k row held => ?_
  split
  next same =>
    subst same
    exact keep row held
  next => exact reflexive row

theorem kept_same {κ ρ : Type} [DecidableEq κ] {t t' : Table κ ρ} {R : ρ → ρ → Prop} (reflexive : ∀ row, R row row)
    (same : t' = t) : ∀ k row, t.lookup k = some row → ∃ row', t'.lookup k = some row' ∧ R row row' := by
  intro k row held
  exact ⟨row,same ▸ held,reflexive row⟩

theorem kept_insert {κ ρ : Type} [DecidableEq κ] {t t' : Table κ ρ} {R : ρ → ρ → Prop} (reflexive : ∀ row, R row row)
    {key : κ} {new : ρ} (rows : t' = t.insert key new) (absent : t.lookup key = none) :
    ∀ k row, t.lookup k = some row → ∃ row', t'.lookup k = some row' ∧ R row row' := by
  intro k row held
  refine ⟨row,?_,reflexive row⟩
  rw [rows,Table.lookup_insert]
  split
  next same =>
    rw [same,absent] at held
    cases held
  next => exact held

theorem OneCurrent.of_same (same : db'.secrets = db.secrets) : OneCurrent db → OneCurrent db' := by
  unfold OneCurrent
  rw [same]
  exact id

theorem DistinctIdentities.of_same (same : db'.identities = db.identities) :
    DistinctIdentities db → DistinctIdentities db' := by
  unfold DistinctIdentities
  rw [same]
  exact id

theorem begins_same (same : db'.logins = db.logins) : ∀ id row', db'.logins.lookup id = some row' →
    (∃ row, db.logins.lookup id = some row) ∨ ∃ row, begun = some (id,row) ∧ SameLogin row row' :=
  fun _ row held => .inl ⟨row,same ▸ held⟩

theorem Keeps.of_same (sessions : db'.sessions = db.sessions) (secrets : db'.secrets = db.secrets)
    (logins : db'.logins = db.logins) (identities : db'.identities = db.identities) : Keeps begun db db' :=
  ⟨kept_same StillEnded.refl sessions,.of_same secrets,kept_same SameLogin.refl logins,begins_same logins,
    kept_same SameIdentity.refl identities,.of_same identities⟩

theorem Keeps.refl (db : Database) : Keeps begun db db := .of_same rfl rfl rfl rfl

theorem Keeps.trans {a b c : Database} (left : Keeps begun a b) (right : Keeps begun b c) : Keeps begun a c := by
  refine ⟨?_,fun one => right.secrets (left.secrets one),?_,?_,?_,fun one => right.distinct (left.distinct one)⟩
  · intro id row held
    obtain ⟨row',held',first⟩ := left.sessions id row held
    obtain ⟨row'',held'',second⟩ := right.sessions id row' held'
    exact ⟨row'',held'',fun ended => second (first ended)⟩
  · intro id row held
    obtain ⟨row',held',first⟩ := left.logins id row held
    obtain ⟨row'',held'',second⟩ := right.logins id row' held'
    exact ⟨row'',held'',first.trans second⟩
  · intro id row'' held''
    obtain ⟨row',held'⟩ | new := right.begins id row'' held''
    · obtain old | ⟨row,began,first⟩ := left.begins id row' held'
      · exact .inl old
      · obtain ⟨other,same,second⟩ := right.logins id row' held'
        cases held''.symm.trans same
        exact .inr ⟨row,began,first.trans second⟩
    · exact .inr new
  · intro id row held
    obtain ⟨row',held',first⟩ := left.identities id row held
    obtain ⟨row'',held'',second⟩ := right.identities id row' held'
    exact ⟨row'',held'',first.trans second⟩

section Tables
variable (sessions : db'.sessions = db.sessions) (secrets : db'.secrets = db.secrets) (logins : db'.logins = db.logins)
  (identities : db'.identities = db.identities)

include secrets logins identities in
theorem Keeps.of_sessions (kept_ : ∀ id row, db.sessions.lookup id = some row →
    ∃ row', db'.sessions.lookup id = some row' ∧ StillEnded row row') : Keeps begun db db' :=
  ⟨kept_,.of_same secrets,kept_same SameLogin.refl logins,begins_same logins,kept_same SameIdentity.refl identities,
    .of_same identities⟩

include sessions logins identities in
theorem Keeps.of_secrets (kept_ : OneCurrent db → OneCurrent db') : Keeps begun db db' :=
  ⟨kept_same StillEnded.refl sessions,kept_,kept_same SameLogin.refl logins,begins_same logins,
    kept_same SameIdentity.refl identities,.of_same identities⟩

include sessions secrets identities in
theorem Keeps.of_logins {id : String} {f : LoginRow → LoginRow} (rows : db'.logins = Table.modify id f db.logins)
    (kept_ : ∀ row, db.logins.lookup id = some row → SameLogin row (f row)) : Keeps begun db db' := by
  refine ⟨kept_same StillEnded.refl sessions,.of_same secrets,kept_modify SameLogin.refl rows kept_,?_,
    kept_same SameIdentity.refl identities,.of_same identities⟩
  intro other row' held
  rw [rows,Table.lookup_modify] at held
  split at held
  next =>
    obtain ⟨row,old,-⟩ := Option.map_eq_some_iff.mp held
    exact .inl ⟨row,old⟩
  next => exact .inl ⟨row',held⟩

include sessions secrets identities in
theorem Keeps.of_begun {id : String} {row : LoginRow} (rows : db'.logins = db.logins.insert id row)
    (absent : db.logins.lookup id = none) (began : begun = some (id,row)) : Keeps begun db db' := by
  refine ⟨kept_same StillEnded.refl sessions,.of_same secrets,kept_insert SameLogin.refl rows absent,?_,
    kept_same SameIdentity.refl identities,.of_same identities⟩
  intro other row' held
  rw [rows,Table.lookup_insert] at held
  split at held
  next same =>
    subst same
    cases held
    exact .inr ⟨row,began,.refl row⟩
  next => exact .inl ⟨row',held⟩

include sessions secrets logins in
theorem Keeps.of_identities (kept_ : ∀ id row, db.identities.lookup id = some row →
      ∃ row', db'.identities.lookup id = some row' ∧ SameIdentity row row')
    (distinct : DistinctIdentities db → DistinctIdentities db') : Keeps begun db db' :=
  ⟨kept_same StillEnded.refl sessions,.of_same secrets,kept_same SameLogin.refl logins,begins_same logins,kept_,distinct⟩

end Tables

theorem insertSecret_one {id : String} {generation : ℕ} {row : SecretRow}
    (rows : db'.secrets = db.secrets.insert (id,generation) row)
    (alone : ∀ other held, db.secrets.lookup (id,other) = some held → held.supersededAt ≠ none) :
    OneCurrent db → OneCurrent db' := by
  intro one other g g' first second lookup lookup' current current'
  rw [rows,Table.lookup_insert] at lookup lookup'
  split at lookup
  next same =>
    split at lookup'
    next same' => exact (Prod.mk.inj (same.trans same'.symm)).2
    next =>
      obtain ⟨rfl,-⟩ := Prod.mk.inj same
      exact absurd current' (alone g' second lookup')
  next =>
    split at lookup'
    next same' =>
      obtain ⟨rfl,-⟩ := Prod.mk.inj same'
      exact absurd current (alone g first lookup)
    next => exact one other g g' first second lookup lookup' current current'

theorem supersede_one {f : String × ℕ → SecretRow → SecretRow} (rows : db'.secrets = Table.updateAll f db.secrets)
    (later : ∀ key row, (f key row).supersededAt = none → row.supersededAt = none) : OneCurrent db → OneCurrent db' := by
  intro one id g g' first second lookup lookup' current current'
  rw [rows,Table.lookup_updateAll] at lookup lookup'
  obtain ⟨old,held,rfl⟩ := Option.map_eq_some_iff.mp lookup
  obtain ⟨old',held',rfl⟩ := Option.map_eq_some_iff.mp lookup'
  exact one id g g' old old' held held' (later _ _ current) (later _ _ current')

theorem insertIdentity_distinct {id : String} {row : IdentityRow} (rows : db'.identities = db.identities.insert id row)
    (alone : ∀ other held, db.identities.lookup other = some held → ¬(held.issuer = row.issuer ∧ held.subject = row.subject)) :
    DistinctIdentities db → DistinctIdentities db' := by
  intro distinct first second one two lookup lookup' issuer subject
  rw [rows,Table.lookup_insert] at lookup lookup'
  split at lookup
  next same =>
    split at lookup'
    next same' => exact same.trans same'.symm
    next =>
      cases lookup
      exact absurd ⟨issuer.symm,subject.symm⟩ (alone second two lookup')
  next =>
    split at lookup'
    next same' =>
      cases lookup'
      exact absurd ⟨issuer,subject⟩ (alone first one lookup)
    next => exact distinct first second one two lookup lookup' issuer subject

theorem updateIdentities_distinct {f : String → IdentityRow → IdentityRow} (rows : db'.identities = Table.updateAll f db.identities)
    (same : ∀ id row, SameIdentity row (f id row)) : DistinctIdentities db → DistinctIdentities db' := by
  intro distinct first second one two lookup lookup' issuer subject
  rw [rows,Table.lookup_updateAll] at lookup lookup'
  obtain ⟨old,held,rfl⟩ := Option.map_eq_some_iff.mp lookup
  obtain ⟨old',held',rfl⟩ := Option.map_eq_some_iff.mp lookup'
  have one := same first old
  have two := same second old'
  refine distinct first second old old' held held' ?_ ?_
  · exact one.issuer.symm.trans (issuer.trans two.issuer)
  · exact one.subject.symm.trans (subject.trans two.subject)

theorem allowed_keeps (write : Write) (db : Database) (allowed : write.Allowed begun db) :
    Keeps begun db (write.apply db) := by
  cases write with
  | insertExternalIdentity id row =>
    exact .of_identities rfl rfl rfl (kept_insert SameIdentity.refl rfl allowed.1) (insertIdentity_distinct rfl allowed.2)
  | refreshExternalIdentity id displayName avatarURL =>
    have same : ∀ key row, SameIdentity row
        (if key = id then {row with status := .active,displayName,avatarURL} else row : IdentityRow) := by
      intro key row
      split
      next => exact ⟨rfl,rfl,rfl⟩
      next => exact .refl row
    exact .of_identities rfl rfl rfl (kept_rows rfl fun key row _ => same key row) (updateIdentities_distinct rfl same)
  | insertWebSession id row => exact .of_sessions rfl rfl rfl (kept_insert StillEnded.refl rfl allowed)
  | touchWebSession id now =>
    have rows : (Write.apply (.touchWebSession id now) db).sessions =
      Table.modify id (fun row => {row with lastUsedAt := now}) db.sessions := rfl
    exact .of_sessions rfl rfl rfl (kept_modify StillEnded.refl rows fun _ _ ended => ended)
  | terminalWebSession id status reason now =>
    have rows : (Write.apply (.terminalWebSession id status reason now) db).sessions =
      Table.modify id (fun row => terminal row status reason now) db.sessions := rfl
    exact .of_sessions rfl rfl rfl (kept_modify StillEnded.refl rows fun _ _ _ => allowed)
  | revokeWebSessions ids reason now =>
    have rows : (Write.apply (.revokeWebSessions ids reason now) db).sessions =
      Table.updateAll (fun id row => if id ∈ ids then terminal row .revoked reason now else row) db.sessions := rfl
    refine .of_sessions rfl rfl rfl (kept_rows rows fun key row held => ?_)
    split
    next => exact fun _ => by simp [terminal]
    next => exact .refl row
  | reauthenticateWebSession id now absoluteExpiresAt =>
    have rows : (Write.apply (.reauthenticateWebSession id now absoluteExpiresAt) db).sessions = Table.modify id (fun row =>
      {row with reauthenticatedAt := now,lastUsedAt := now,absoluteExpiresAt}) db.sessions := rfl
    exact .of_sessions rfl rfl rfl (kept_modify StillEnded.refl rows fun _ _ ended => ended)
  | insertWebSessionSecret id generation row => exact .of_secrets rfl rfl rfl (insertSecret_one rfl allowed.2)
  | supersedeWebSessionSecret id now =>
    have rows : (Write.apply (.supersedeWebSessionSecret id now) db).secrets = Table.updateAll (fun key row =>
      if key.1 = id ∧ row.supersededAt = none then {row with supersededAt := some now} else row) db.secrets := rfl
    refine .of_secrets rfl rfl rfl (supersede_one rows fun key row current => ?_)
    split at current
    next => cases current
    next => exact current
  | insertFederatedLogin id row => exact .of_begun rfl rfl rfl rfl allowed.1 allowed.2
  | claimFederatedLogin id =>
    obtain ⟨row,held,pending⟩ := allowed
    have rows : (Write.apply (.claimFederatedLogin id) db).logins =
      Table.modify id (fun row => {row with status := .completing}) db.logins := rfl
    refine .of_logins rfl rfl rfl rows fun other held' => ?_
    cases held.symm.trans held'
    exact ⟨rfl,rfl,rfl,rfl,rfl,rfl,by rw [pending]; exact Nat.zero_le _⟩
  | finishFederatedLogin id status failureCode now =>
    obtain ⟨row,held,advances⟩ := allowed
    have rows : (Write.apply (.finishFederatedLogin id status failureCode now) db).logins =
      Table.modify id (fun row => finished row status failureCode now) db.logins := rfl
    refine .of_logins rfl rfl rfl rows fun other held' => ?_
    cases held.symm.trans held'
    exact ⟨rfl,rfl,rfl,rfl,rfl,rfl,Nat.le_of_lt advances⟩
  | _ => exact .of_same rfl rfl rfl rfl

theorem attempt_keeps {α : Type} {x : Transaction α} (guards : x.Guards begun) (attempt : Attempt Database) :
    Keeps begun attempt.base (attempt.ended x).after :=
  Tx.Guards.related guards Keeps.refl (fun _ _ _ => Keeps.trans) allowed_keeps attempt

end Keeping
end ATape.Authentication
