import ATape.Publication.Runs

/-! The account of the bytes. Each attempt counts the parts that are stored for it, and the
attempts of a user that are not activated stay below the limit of the user. -/
namespace ATape.Publication
open Authorization Canonical Foundation Go SourceIdentity
variable {id : String} {n : Nat} {part : PartRow} {a : AttemptRow}
namespace Tables

def weight (t : Tables) (id : String) (w : PartRow → Nat) : Nat :=
  t.parts.total fun k part => if k.1 = id then w part else 0

def storedBytes (t : Tables) (id : String) : Nat := t.weight id (·.payload.storedBytes)

def storedInputs (t : Tables) (id : String) : Nat := t.weight id fun part => if part.derived then 0 else 1

def storedDerived (t : Tables) (id : String) : Nat := t.weight id fun part => if part.derived then 1 else 0

structure Accounted (limits : Limits) (t : Tables) : Prop where
  bytes : ∀ id a, t.attempts.lookup id = some a → a.retainedBytes = t.storedBytes id
  inputs : ∀ id a, t.attempts.lookup id = some a → a.partCount = t.storedInputs id
  derived : ∀ id a, t.attempts.lookup id = some a → a.derivedParts = t.storedDerived id
  target : ∀ id a, t.attempts.lookup id = some a → a.retainedBytes ≤ limits.targetBytes
  pending : ∀ userID, t.pendingBytes userID ≤ limits.userPendingBytes

section
variable {limits : Limits} {pk : Packages} {c : Context} {t t' : Tables}

/-! The weight of the parts after each kind of write -/

theorem weight_of_insert (fresh : t.parts.lookup (id,n) = none)
    (parts : t'.parts = t.parts.insert (id,n) part) (id' : String) (w : PartRow → Nat) :
    t'.weight id' w = t.weight id' w+if id' = id then w part else 0 := by
  unfold weight
  rw [parts,Table.total_insert_new _ fresh]
  simp only [eq_comm]

theorem weight_of_modify {f : PartRow → PartRow}
    (held : t.parts.lookup (id,n) = some part) (parts : t'.parts = t.parts.modify (id,n) f) (id' : String) (w : PartRow → Nat) :
    t'.weight id' w+(if id' = id then w part else 0) = t.weight id' w+if id' = id then w (f part) else 0 := by
  unfold weight
  rw [parts]
  have moved := Table.total_modify (fun (k : String × Nat) part => if k.1 = id' then w part else 0) f held
  simp only [eq_comm] at moved ⊢
  exact moved

theorem weight_of_erase (held : t.parts.lookup (id,n) = some part)
    (parts : t'.parts = t.parts.erase (id,n)) (id' : String) (w : PartRow → Nat) :
    t'.weight id' w+(if id' = id then w part else 0) = t.weight id' w := by
  unfold weight
  rw [parts]
  have moved := Table.total_erase (fun (k : String × Nat) part => if k.1 = id' then w part else 0) held
  simp only [eq_comm] at moved ⊢
  exact moved

theorem weight_of_keep {ids : List String} (stays : id ∉ ids)
    (parts : t'.parts = t.parts.keep fun k _ => k.1 ∉ ids) (w : PartRow → Nat) : t'.weight id w = t.weight id w := by
  unfold weight
  rw [parts,Table.total_keep]
  apply Table.total_congr
  intro k part _
  by_cases here : k.1 = id
  · simp [here,stays]
  · simp [here]

theorem weight_unbound (empty : ∀ n, t.parts.lookup (id,n) = none) (w : PartRow → Nat) : t.weight id w = 0 := by
  apply Table.total_eq_zero
  intro k part held
  split
  next here =>
    obtain ⟨id',n⟩ := k
    cases here
    rw [empty n] at held
    cases held
  next => rfl

theorem total_le {κ ρ : Type} [DecidableEq κ] {w w' : κ → ρ → Nat} {rows : Table κ ρ} (less : ∀ k r, w k r ≤ w' k r) :
    rows.total w ≤ rows.total w' := by
  have split : rows.total w' = rows.total w+rows.total fun k r => w' k r-w k r := by
    rw [← Table.total_add]
    apply Table.total_congr
    intro k r _
    have bound := less k r
    omega
  omega

/-! One attempt rewritten -/

def share (t : Tables) (userID : String) (a : AttemptRow) : Nat :=
  if t.attemptOwner a = some userID ∧ a.state ≠ .activated then a.retainedBytes else 0

theorem pendingBytes_eq (t : Tables) (userID : String) :
    t.pendingBytes userID = t.attempts.total fun _ a => t.share userID a := rfl

theorem Accounted.modified (accounted : Accounted limits t)
    {f : AttemptRow → AttemptRow} {sources : Table String SourceRow} {parts : Table (String × Nat) PartRow}
    (held : t'.Holds sources t.reservations (t.attempts.modify id f) parts) (known : t.attempts.lookup id = some a)
    (owners : ∀ a, t'.attemptOwner a = t.attemptOwner a) (session : (f a).sessionID = a.sessionID)
    (others : ∀ id' w, id' ≠ id → t'.weight id' w = t.weight id' w)
    (bytes : (f a).retainedBytes = t'.storedBytes id) (inputs : (f a).partCount = t'.storedInputs id)
    (derived : (f a).derivedParts = t'.storedDerived id) (target : (f a).retainedBytes ≤ limits.targetBytes)
    (room : ∀ userID, t.attemptOwner a = some userID → (f a).state ≠ .activated → a.state ≠ .activated ∧
      t.pendingBytes userID+(f a).retainedBytes ≤ limits.userPendingBytes+a.retainedBytes) : Accounted limits t' := by
  have rows {id' : String} {a' : AttemptRow} (row : t'.attempts.lookup id' = some a') :
      id' = id ∧ a' = f a ∨ id' ≠ id ∧ t.attempts.lookup id' = some a' := by
    rw [held.attempts,Table.lookup_modify] at row
    split at row
    next here =>
      subst here
      rw [known] at row
      exact .inl ⟨rfl,(Option.some.inj row).symm⟩
    next apart => exact .inr ⟨apart,row⟩
  constructor
  case bytes =>
    intro id' a' row
    obtain ⟨rfl,rfl⟩ | ⟨apart,row⟩ := rows row
    · exact bytes
    · rw [storedBytes,others id' _ apart]
      exact accounted.bytes id' a' row
  case inputs =>
    intro id' a' row
    obtain ⟨rfl,rfl⟩ | ⟨apart,row⟩ := rows row
    · exact inputs
    · rw [storedInputs,others id' _ apart]
      exact accounted.inputs id' a' row
  case derived =>
    intro id' a' row
    obtain ⟨rfl,rfl⟩ | ⟨apart,row⟩ := rows row
    · exact derived
    · rw [storedDerived,others id' _ apart]
      exact accounted.derived id' a' row
  case target =>
    intro id' a' row
    obtain ⟨rfl,rfl⟩ | ⟨_,row⟩ := rows row
    · exact target
    · exact accounted.target id' a' row
  case pending =>
    intro userID
    have shares : t'.pendingBytes userID = t'.attempts.total fun _ a => t.share userID a := by
      rw [pendingBytes_eq]
      unfold share
      simp only [owners]
    have owner : t.attemptOwner (f a) = t.attemptOwner a := by
      unfold Tables.attemptOwner
      rw [session]
    have moved := Table.total_modify (fun _ a => t.share userID a) f known
    have before := accounted.pending userID
    rw [shares,held.attempts]
    rw [pendingBytes_eq] at before
    by_cases mine : t.attemptOwner a = some userID
    · by_cases active : (f a).state = .activated
      · have none : t.share userID (f a) = 0 := if_neg fun both => both.2 active
        omega
      · obtain ⟨pending,bound⟩ := room userID mine active
        have old : t.share userID a = a.retainedBytes := if_pos ⟨mine,pending⟩
        have new : t.share userID (f a) = (f a).retainedBytes := if_pos ⟨owner.trans mine,active⟩
        rw [pendingBytes_eq] at bound
        omega
    · have none : t.share userID (f a) = 0 := if_neg fun both => mine (owner ▸ both.1)
      omega

theorem Accounted.rewritten (accounted : Accounted limits t)
    {f : AttemptRow → AttemptRow} {sources : Table String SourceRow}
    (held : t'.Holds sources t.reservations (t.attempts.modify id f) t.parts) (known : t.attempts.lookup id = some a)
    (owners : ∀ a, t'.attemptOwner a = t.attemptOwner a) (session : (f a).sessionID = a.sessionID)
    (bytes : (f a).retainedBytes = a.retainedBytes) (inputs : (f a).partCount = a.partCount)
    (derived : (f a).derivedParts = a.derivedParts) (state : (f a).state ≠ .activated → a.state ≠ .activated) :
    Accounted limits t' := by
  have same (id' : String) (w : PartRow → Nat) : t'.weight id' w = t.weight id' w := by
    unfold weight
    rw [held.parts]
  apply accounted.modified held known owners session (fun id' w _ => same id' w)
  · rw [bytes,storedBytes,same]
    exact accounted.bytes id a known
  · rw [inputs,storedInputs,same]
    exact accounted.inputs id a known
  · rw [derived,storedDerived,same]
    exact accounted.derived id a known
  · rw [bytes]
    exact accounted.target id a known
  · intro userID _ active
    rw [bytes]
    exact ⟨state active,Nat.add_le_add_right (accounted.pending userID) _⟩

theorem Accounted.grown (accounted : Accounted limits t) {userID : String}
    {f : AttemptRow → AttemptRow} (fresh : t.parts.lookup (id,n) = none)
    (held : t'.Holds t.sources t.reservations (t.attempts.modify id f) (t.parts.insert (id,n) part))
    (known : t.attempts.lookup id = some a) (owner : t.attemptOwner a = some userID) (inactive : a.state ≠ .activated)
    (session : (f a).sessionID = a.sessionID) (bytes : (f a).retainedBytes = a.retainedBytes+part.payload.storedBytes)
    (inputs : (f a).partCount = a.partCount+if part.derived then 0 else 1)
    (derived : (f a).derivedParts = a.derivedParts+if part.derived then 1 else 0)
    (target : a.retainedBytes+part.payload.storedBytes ≤ limits.targetBytes)
    (pending : t.pendingBytes userID+part.payload.storedBytes ≤ limits.userPendingBytes) : Accounted limits t' := by
  have here (w : PartRow → Nat) : t'.weight id w = t.weight id w+w part := by
    rw [weight_of_insert fresh held.parts,if_pos rfl]
  apply accounted.modified held known (fun a => by unfold Tables.attemptOwner; rw [held.sources]) session
  · intro id' w apart
    rw [weight_of_insert fresh held.parts,if_neg apart,Nat.add_zero]
  · rw [bytes,storedBytes,here,← storedBytes,← accounted.bytes id a known]
  · rw [inputs,storedInputs,here,← storedInputs,← accounted.inputs id a known]
  · rw [derived,storedDerived,here,← storedDerived,← accounted.derived id a known]
  · rw [bytes]
    exact target
  · intro user mine _
    cases mine.symm.trans owner
    refine ⟨inactive,?_⟩
    rw [bytes]
    omega

theorem Accounted.begun (accounted : Accounted limits t) {sources : Table String SourceRow}
    (held : t'.Holds sources t.reservations (t.attempts.insert id a) t.parts) (bytes : a.retainedBytes = 0)
    (inputs : a.partCount = 0) (derived : a.derivedParts = 0) (fresh : t.attempts.lookup id = none)
    (empty : ∀ n, t.parts.lookup (id,n) = none) (owners : ∀ a, t'.attemptOwner a = t.attemptOwner a) :
    Accounted limits t' := by
  have weights (id' : String) (w : PartRow → Nat) : t'.weight id' w = t.weight id' w := by
    unfold weight
    rw [held.parts]
  have rows {id' : String} {a' : AttemptRow} (row : t'.attempts.lookup id' = some a') :
      id' = id ∧ a' = a ∨ t.attempts.lookup id' = some a' := by
    rw [held.attempts,Table.lookup_insert] at row
    split at row
    next here => exact .inl ⟨here,(Option.some.inj row).symm⟩
    next => exact .inr row
  constructor
  · intro id' a' row
    rw [storedBytes,weights]
    obtain ⟨rfl,rfl⟩ | row := rows row
    · rw [bytes,weight_unbound empty]
    · exact accounted.bytes id' a' row
  · intro id' a' row
    rw [storedInputs,weights]
    obtain ⟨rfl,rfl⟩ | row := rows row
    · rw [inputs,weight_unbound empty]
    · exact accounted.inputs id' a' row
  · intro id' a' row
    rw [storedDerived,weights]
    obtain ⟨rfl,rfl⟩ | row := rows row
    · rw [derived,weight_unbound empty]
    · exact accounted.derived id' a' row
  · intro id' a' row
    obtain ⟨rfl,rfl⟩ | row := rows row
    · rw [bytes]
      exact Nat.zero_le _
    · exact accounted.target id' a' row
  · intro userID
    have before := accounted.pending userID
    have shares : t'.pendingBytes userID = t'.attempts.total fun _ a => t.share userID a := by
      rw [pendingBytes_eq]
      unfold share
      simp only [owners]
    have none : t.share userID a = 0 := by
      unfold share
      rw [bytes,ite_self]
    rw [shares,held.attempts,Table.total_insert_new _ fresh,none]
    exact before

theorem Accounted.same (accounted : Accounted limits t) (attempts : t'.attempts = t.attempts) (parts : t'.parts = t.parts)
    (owners : ∀ id a, t.attempts.lookup id = some a → t'.attemptOwner a = t.attemptOwner a) : Accounted limits t' := by
  have weights (id : String) (w : PartRow → Nat) : t'.weight id w = t.weight id w := by
    unfold weight
    rw [parts]
  constructor
  · intro id a known
    rw [storedBytes,weights]
    exact accounted.bytes id a (attempts ▸ known)
  · intro id a known
    rw [storedInputs,weights]
    exact accounted.inputs id a (attempts ▸ known)
  · intro id a known
    rw [storedDerived,weights]
    exact accounted.derived id a (attempts ▸ known)
  · intro id a known
    exact accounted.target id a (attempts ▸ known)
  · intro userID
    have shares : t'.pendingBytes userID = t.pendingBytes userID := by
      unfold Tables.pendingBytes
      rw [attempts]
      apply Table.total_congr
      intro id a known
      rw [owners id a known]
    rw [shares]
    exact accounted.pending userID

theorem Live.owner (wired : Wired pk t) (canonical : ∀ value user, pk.uuid value = some user → pk.uuid user = some user)
    {userID : String} {r : ReservationRow} {s : SourceRow} {now : Int} (live : t.Live id a r s now)
    (owned : t.Owned pk r userID) : t.attemptOwner a = some userID := by
  obtain ⟨held,reserved,source⟩ := attemptRows_some.mp live.rows
  obtain ⟨r',reserved',session⟩ := wired.attempts id a held
  cases reserved.symm.trans reserved'
  obtain ⟨s',source',user⟩ := owned
  rw [session] at source'
  cases source.symm.trans source'
  obtain ⟨value,known⟩ := wired.users _ s source
  have same := canonical value _ known
  rw [user] at same
  unfold Tables.attemptOwner
  rw [source,Option.map_some,← Option.some.inj same]

theorem Accounted.effect (canonical : ∀ value user, pk.uuid value = some user → pk.uuid user = some user)
    (wired : Wired pk t) (accounted : Accounted limits t) (effect : Effect limits pk c t t') : Accounted limits t' := by
  have owners {sources : Table String SourceRow} (held : t'.sources = sources)
      (same : ∀ name, (sources.lookup name).map (·.capturedByUserID) = (t.sources.lookup name).map (·.capturedByUserID))
      (a : AttemptRow) : t'.attemptOwner a = t.attemptOwner a := by
    unfold Tables.attemptOwner
    rw [held,same]
  cases effect with
  | alike alike => exact accounted.same alike.attempts alike.parts fun _ a _ => alike.attemptOwner a
  | @bound sessionID source fresh headless user held =>
    apply accounted.same held.attempts held.parts
    intro id a known
    obtain ⟨r,s,rows,_⟩ := wired.rows known
    have old := (attemptRows_some.mp rows).2.2
    have apart : a.sessionID ≠ sessionID := by
      intro same
      rw [same,fresh] at old
      cases old
    unfold Tables.attemptOwner
    rw [held.sources,Table.lookup_insert,if_neg apart]
  | reserved _ _ held => exact accounted.same held.attempts held.parts fun _ a _ => owners held.sources (fun _ => rfl) a
  | began reservation source fresh held =>
    exact accounted.begun held rfl rfl rfl (wired.fresh fresh) (wired.unbound (wired.fresh fresh))
      (owners held.sources (Table.map_lookup_modify _ _ _ _ fun _ => rfl))
  | stored live _ owned fresh input target pending held =>
    exact accounted.grown fresh held (attemptRows_some.mp live.rows).1 (live.owner wired canonical owned)
      (live.unreceipted wired).1 rfl rfl (by simp [input,putInto]) (by simp [input,putInto]) target pending
  | sealed live _ _ _ held =>
    exact accounted.rewritten held (attemptRows_some.mp live.rows).1 (owners held.sources fun _ => rfl) rfl rfl rfl rfl
      fun _ => (live.unreceipted wired).1
  | renewed live _ held =>
    exact accounted.rewritten held (attemptRows_some.mp live.rows).1 (owners held.sources fun _ => rfl) rfl rfl rfl rfl
      fun _ => (live.unreceipted wired).1
  | rejected rows inactive held =>
    have known := (attemptRows_some.mp rows).1
    refine accounted.rewritten held known (owners held.sources fun _ => rfl) rfl rfl rfl rfl fun _ active => ?_
    have receipt := (wired.receipts _ _ known).mp active
    rw [inactive] at receipt
    cases receipt
  | @validated id userID a r s manifest part body unit size header declared state live fixed unfinished owned place payload
      target pending next held =>
    have known := (attemptRows_some.mp live.rows).1
    have moved := weight_of_modify place held.parts id
    have stored := accounted.bytes id a known
    have one : part.payload.storedBytes = body.length := by
      rw [payload]
      rfl
    have bytes : t'.storedBytes id+body.length = t.storedBytes id+size := by
      have change := moved (·.payload.storedBytes)
      rw [if_pos rfl,if_pos rfl] at change
      rw [← one]
      exact change
    apply accounted.modified held known (owners held.sources fun _ => rfl) rfl
    · intro id' w apart
      have still := weight_of_modify place held.parts id' w
      simpa [apart] using still
    · simp only [advanced,grow]
      omega
    · have inputs := moved fun part => if part.derived then 0 else 1
      rw [if_pos rfl,if_pos rfl] at inputs
      exact (accounted.inputs id a known).trans (Nat.add_right_cancel inputs).symm
    · have derived := moved fun part => if part.derived then 1 else 0
      rw [if_pos rfl,if_pos rfl] at derived
      exact (accounted.derived id a known).trans (Nat.add_right_cancel derived).symm
    · simp only [advanced,grow]
      omega
    · intro user mine _
      cases mine.symm.trans (live.owner wired canonical owned)
      refine ⟨(live.unreceipted wired).1,?_⟩
      simp only [advanced,grow]
      omega
  | kept live _ _ _ held =>
    exact accounted.rewritten held (attemptRows_some.mp live.rows).1 (owners held.sources fun _ => rfl) rfl rfl rfl rfl
      fun _ => (live.unreceipted wired).1
  | inherited live _ _ owned fresh derived _ target pending _ held =>
    exact accounted.grown fresh held (attemptRows_some.mp live.rows).1 (live.owner wired canonical owned)
      (live.unreceipted wired).1 rfl rfl (by simp [derived,inherited]) (by simp [derived,inherited]) target pending
  | @reclaimed id userID ordinal part unreachable place held =>
    obtain ⟨a,known⟩ := wired.parts id ordinal part place
    have moved := weight_of_erase place held.parts id
    have bytes := moved (·.payload.storedBytes)
    have inputs := moved fun part => if part.derived then 0 else 1
    have derived := moved fun part => if part.derived then 1 else 0
    simp only [if_true] at bytes inputs derived
    have before := accounted.bytes id a known
    unfold storedBytes at before
    apply accounted.modified held known (owners held.sources fun _ => rfl) rfl
    · intro id' w apart
      have still := weight_of_erase place held.parts id' w
      simpa [apart] using still
    · simp only [reclaimed,storedBytes]
      omega
    · have count := accounted.inputs id a known
      simp only [reclaimed,storedInputs] at count ⊢
      omega
    · have count := accounted.derived id a known
      simp only [reclaimed,storedDerived] at count ⊢
      omega
    · have bound := accounted.target id a known
      simp only [reclaimed]
      omega
    · intro user _ active
      refine ⟨active,?_⟩
      have bound := accounted.pending user
      simp only [reclaimed]
      omega
  | @dropped ids spent held =>
    have stays {id : String} {a : AttemptRow} (known : t'.attempts.lookup id = some a) :
        id ∉ ids ∧ t.attempts.lookup id = some a := by
      rw [held.attempts,Table.lookup_keep] at known
      obtain ⟨old,kept⟩ := Option.filter_eq_some_iff.mp known
      exact ⟨by simpa using kept,old⟩
    constructor
    · intro id a known
      obtain ⟨kept,old⟩ := stays known
      rw [storedBytes,weight_of_keep kept held.parts]
      exact accounted.bytes id a old
    · intro id a known
      obtain ⟨kept,old⟩ := stays known
      rw [storedInputs,weight_of_keep kept held.parts]
      exact accounted.inputs id a old
    · intro id a known
      obtain ⟨kept,old⟩ := stays known
      rw [storedDerived,weight_of_keep kept held.parts]
      exact accounted.derived id a old
    · intro id a known
      exact accounted.target id a (stays known).2
    · intro userID
      refine le_trans ?_ (accounted.pending userID)
      unfold Tables.pendingBytes
      rw [held.attempts,Table.total_keep]
      apply total_le
      intro id a
      have owner : t'.attemptOwner a = t.attemptOwner a := owners held.sources (fun _ => rfl) a
      rw [owner]
      split
      next => exact le_rfl
      next => exact Nat.zero_le _

theorem Accounted.activates (wired : Wired pk t) (accounted : Accounted limits t)
    {r : ReservationRow} {s : SourceRow} {manifest : Manifest} {observedAt : Time}
    (activates : Activates c t t' id a r s manifest observedAt) : Accounted limits t' := by
  refine accounted.rewritten activates.held (attemptRows_some.mp activates.live.rows).1 (fun a => ?_) rfl rfl rfl rfl
    fun _ => (activates.live.unreceipted wired).1
  unfold Tables.attemptOwner
  rw [activates.held.sources]
  exact Table.map_lookup_modify t.sources _ (selected id) _ (fun _ => rfl) _

/-! Every run -/

theorem Accounted.new (limits : Limits) : Accounted limits new where
  bytes id a held := by simp [Tables.new] at held
  inputs id a held := by simp [Tables.new] at held
  derived id a held := by simp [Tables.new] at held
  target id a held := by simp [Tables.new] at held
  pending userID := Nat.zero_le _

end
end Tables

/-- In every state that a run reaches, each attempt counts what is stored for it, within the
limits of a target and of a user, and a call that fails leaves all of it as it was. The
parser of identifiers gives a text that it reads as itself. -/
theorem candidates_accounted {limits : Limits} {pk : Packages} {now : Int} {m : Moment}
    (canonical : ∀ value user, pk.uuid value = some user → pk.uuid user = some user)
    (run : Run limits pk (started now) m) :
    m.tables.Accounted limits ∧
      ∀ (c : Context) (p : Principal) (call : Call) (failure : Failure),
        call.run limits pk m.tables c p = .error failure → after m.tables (call.run limits pk m.tables c p) = m.tables := by
  have step (c : Context) (t t' : Tables) (effect : Tables.Effect limits pk c t t')
      (both : Tables.Wired pk t ∧ t.Accounted limits) : Tables.Wired pk t' ∧ t'.Accounted limits :=
    ⟨both.1.effect effect,both.2.effect canonical both.1 effect⟩
  have both := run.keeps step (fun _ _ _ _ _ _ _ _ _ activates both =>
    ⟨both.1.activates activates,both.2.activates both.1 activates⟩) ⟨.new pk,.new limits⟩
  refine ⟨both.2,fun c p call failure failed => ?_⟩
  rw [failed]
  rfl

/-! A reservation, its attempt and its first part -/

def writer : String := "7b1e3c1a-0000-4000-8000-000000000001"

def candidate : String := "7b1e3c1a-0000-4000-8000-000000000002"

/-- Packages that read canonical identifiers, and digest every body alike. -/
def plainPackages : Packages where
  hash := .table []
  digest := fun _ => "0000000000000000000000000000000000000000000000000000000000000000"
  decode := fun _ => .error "candidate part is not the declared Canonical envelope"
  uuid := fun value => if isCanonicalUUID value then some value else none

def smallLimits : Limits := ⟨16,64,64,4,2,1000,100⟩

def writerPrincipal : Principal := ⟨writer,.cliAuthentication,true⟩

def writerContext (now : Int) (token : String) : Context where
  clock := fun _ => now
  now := .zero
  access := fun _ => some ⟨"team","active",⟨"team",writer,.member,true⟩⟩
  token := token
  ingest := fun n => (n,.zero)

def runCalls (t : Tables) : List (Context × Call) → Tables
  | [] => t
  | (c,call)::calls => runCalls (after t (call.run smallLimits plainPackages t c writerPrincipal)) calls

def firstCalls : List (Context × Call) :=
  [(writerContext 0 candidate,.reserve ⟨"notes","laptop","codex","session","origin"⟩),
    (writerContext 1 "begin",.begin_ ⟨candidate,"capture","","v1"⟩),
    (writerContext 2 "put",
      .put candidate 0 "0000000000000000000000000000000000000000000000000000000000000000" [1,2,3])]

theorem plainPackages_canonical (value user : String) (known : plainPackages.uuid value = some user) :
    plainPackages.uuid user = some user := by
  simp only [plainPackages] at known ⊢
  split at known
  next valid =>
    cases known
    rw [if_pos valid]
  next => cases known

theorem writer_turn (t : Tables) (now next : Int) (issued : List String) (token : String) (call : Call)
    (start : now ≤ next) (fresh : token ∉ issued) :
    Turn smallLimits plainPackages ⟨t,now,issued⟩
      ⟨after t (call.run smallLimits plainPackages t (writerContext next token) writerPrincipal),next,token::issued⟩ :=
  .call forward_const start (fun _ => le_rfl) fresh rfl rfl

theorem firstRun :
    Run smallLimits plainPackages (started 0) ⟨runCalls .new firstCalls,2,["put","begin",candidate]⟩ := by
  have reserved := writer_turn .new 0 0 [] candidate (.reserve ⟨"notes","laptop","codex","session","origin"⟩) le_rfl
    (by decide)
  have began := writer_turn (runCalls .new (firstCalls.take 1)) 0 1 [candidate] "begin"
    (.begin_ ⟨candidate,"capture","","v1"⟩) (by decide) (by decide)
  have stored := writer_turn (runCalls .new (firstCalls.take 2)) 1 2 ["begin",candidate] "put"
    (.put candidate 0 "0000000000000000000000000000000000000000000000000000000000000000" [1,2,3]) (by decide) (by decide)
  exact ((Relation.ReflTransGen.single reserved).tail began).tail stored

theorem candidates_accounted_put : ((runCalls .new firstCalls).Accounted smallLimits ∧
      ∀ (c : Context) (p : Principal) (call : Call) (failure : Failure),
        call.run smallLimits plainPackages (runCalls .new firstCalls) c p = .error failure →
          after (runCalls .new firstCalls) (call.run smallLimits plainPackages (runCalls .new firstCalls) c p) =
            runCalls .new firstCalls) ∧
      ((runCalls .new firstCalls).attempts.lookup candidate).map (·.retainedBytes) = some 3 :=
  ⟨candidates_accounted plainPackages_canonical firstRun,by decide⟩

end ATape.Publication
