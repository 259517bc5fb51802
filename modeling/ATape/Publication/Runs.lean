import ATape.Publication.Transactions

/-! Runs of the store: calls of any writers in any order, at times that never go back,
and the writes of others to the tables that are not the candidates'. -/
namespace ATape.Publication
open Authorization Canonical Foundation Go SourceIdentity
variable {id : String} {a : AttemptRow} {r : ReservationRow} {s : SourceRow} {now : Int}
namespace Tables

/-! References between the rows -/

/-- Every row refers to rows that exist, every user is known by an identifier, and the
attempts with a receipt are those that were activated. -/
structure Wired (pk : Packages) (t : Tables) : Prop where
  attempts : ∀ id a, t.attempts.lookup id = some a →
    ∃ r, t.reservations.lookup id = some r ∧ r.sessionID = a.sessionID
  reservations : ∀ id r, t.reservations.lookup id = some r → ∃ s, t.sources.lookup r.sessionID = some s
  parts : ∀ id n part, t.parts.lookup (id,n) = some part → ∃ a, t.attempts.lookup id = some a
  users : ∀ sessionID s, t.sources.lookup sessionID = some s → ∃ value, pk.uuid value = some s.capturedByUserID
  receipts : ∀ id a, t.attempts.lookup id = some a → (a.state = .activated ↔ a.activationJson.isSome)

theorem Wired.new (pk : Packages) : Wired pk new where
  attempts id a held := by simp [Tables.new] at held
  reservations id r held := by simp [Tables.new] at held
  parts id n part held := by simp [Tables.new] at held
  users sessionID s held := by simp [Tables.new] at held
  receipts id a held := by simp [Tables.new] at held

section
variable {limits : Limits} {pk : Packages} {c : Context} {t t' : Tables}

theorem Wired.rows (wired : Wired pk t) (held : t.attempts.lookup id = some a) :
    ∃ r s, t.attemptRows id = some (a,r,s) ∧ r.sessionID = a.sessionID := by
  obtain ⟨r,reserved,same⟩ := wired.attempts id a held
  obtain ⟨s,source⟩ := wired.reservations id r reserved
  exact ⟨r,s,attemptRows_some.mpr ⟨held,reserved,same ▸ source⟩,same⟩

theorem Wired.fresh (wired : Wired pk t) (absent : t.attemptRows id = none) : t.attempts.lookup id = none := by
  cases held : t.attempts.lookup id with
  | none => rfl
  | some a =>
    obtain ⟨r,s,rows,_⟩ := wired.rows held
    rw [absent] at rows
    cases rows

theorem Wired.unbound (wired : Wired pk t) (held : t.attempts.lookup id = none) (n : Nat) :
    t.parts.lookup (id,n) = none := by
  cases stored : t.parts.lookup (id,n) with
  | none => rfl
  | some part =>
    obtain ⟨a,known⟩ := wired.parts id n part stored
    rw [held] at known
    cases known

theorem Wired.modified (wired : Wired pk t) {f : AttemptRow → AttemptRow}
    {sources : Table String SourceRow} {parts : Table (String × Nat) PartRow}
    (held : t'.Holds sources t.reservations (t.attempts.modify id f) parts)
    (session : ∀ a, (f a).sessionID = a.sessionID)
    (users : ∀ name, (sources.lookup name).map (·.capturedByUserID) = (t.sources.lookup name).map (·.capturedByUserID))
    (stored : ∀ id' n part, parts.lookup (id',n) = some part → ∃ a, t.attempts.lookup id' = some a)
    (receipts : ∀ a, t.attempts.lookup id = some a → ((f a).state = .activated ↔ (f a).activationJson.isSome)) :
    Wired pk t' := by
  constructor
  case attempts =>
    intro id' a known
    rw [held.attempts,Table.lookup_modify] at known
    rw [held.reservations]
    split at known
    next =>
      obtain ⟨a',old,rfl⟩ := Option.map_eq_some_iff.mp known
      rw [session]
      exact wired.attempts id' a' old
    next => exact wired.attempts id' a known
  case reservations =>
    intro id' r known
    rw [held.reservations] at known
    rw [held.sources]
    obtain ⟨s,source⟩ := wired.reservations id' r known
    have same := users r.sessionID
    rw [source,Option.map_some,Option.map_eq_some_iff] at same
    obtain ⟨s',source',_⟩ := same
    exact ⟨s',source'⟩
  case parts =>
    intro id' n part known
    rw [held.parts] at known
    rw [held.attempts,Table.lookup_modify]
    obtain ⟨a,known⟩ := stored id' n part known
    rw [known]
    split
    next => exact ⟨f a,rfl⟩
    next => exact ⟨a,rfl⟩
  case users =>
    intro name s known
    rw [held.sources] at known
    have same := users name
    rw [known,Option.map_some,eq_comm,Option.map_eq_some_iff] at same
    obtain ⟨s',source,user⟩ := same
    exact user ▸ wired.users name s' source
  case receipts =>
    intro id' a known
    rw [held.attempts,Table.lookup_modify] at known
    split at known
    next here =>
      obtain ⟨a',old,rfl⟩ := Option.map_eq_some_iff.mp known
      exact receipts a' (here ▸ old)
    next => exact wired.receipts id' a known

theorem Live.unreceipted (wired : Wired pk t)
    (live : t.Live id a r s now) : a.state ≠ .activated ∧ a.activationJson = none := by
  have inactive : a.state ≠ .activated := by
    intro active
    have alive := live.active
    rw [active] at alive
    cases alive
  refine ⟨inactive,?_⟩
  have receipt := wired.receipts id a (attemptRows_some.mp live.rows).1
  simpa [inactive] using receipt

theorem Live.receipts (wired : Wired pk t)
    (live : t.Live id a r s now) {f : AttemptRow → AttemptRow} (state : (f a).state ≠ .activated)
    (receipt : (f a).activationJson = a.activationJson) (a' : AttemptRow) (held : t.attempts.lookup id = some a') :
    (f a').state = .activated ↔ (f a').activationJson.isSome := by
  cases (attemptRows_some.mp live.rows).1.symm.trans held
  rw [receipt,(live.unreceipted wired).2]
  simp [state]

theorem Wired.effect (wired : Wired pk t) (effect : Effect limits pk c t t') : Wired pk t' := by
  have put {id' id : String} {ordinal n : Nat} {a : AttemptRow} {part part' : PartRow}
      (known : t.attempts.lookup id = some a) (stored : (t.parts.insert (id,ordinal) part).lookup (id',n) = some part') :
      ∃ a, t.attempts.lookup id' = some a := by
    rw [Table.lookup_insert] at stored
    split at stored
    next here =>
      obtain ⟨same,_⟩ := Prod.mk.inj here
      exact ⟨a,same ▸ known⟩
    next => exact wired.parts id' n part' stored
  cases effect with
  | alike alike =>
    constructor
    · rw [alike.attempts,alike.reservations]
      exact wired.attempts
    · rw [alike.reservations,alike.sources]
      exact wired.reservations
    · rw [alike.parts,alike.attempts]
      exact wired.parts
    · rw [alike.sources]
      exact wired.users
    · rw [alike.attempts]
      exact wired.receipts
  | @bound sessionID source fresh headless user held =>
    constructor
    · rw [held.attempts,held.reservations]
      exact wired.attempts
    · intro id r known
      rw [held.reservations] at known
      rw [held.sources,Table.lookup_insert]
      split
      next => exact ⟨source,rfl⟩
      next => exact wired.reservations id r known
    · rw [held.parts,held.attempts]
      exact wired.parts
    · intro name s known
      rw [held.sources,Table.lookup_insert] at known
      split at known
      next =>
        cases known
        exact user
      next => exact wired.users name s known
    · rw [held.attempts]
      exact wired.receipts
  | @reserved r fresh source held =>
    constructor
    · intro id a known
      rw [held.attempts] at known
      rw [held.reservations,Table.lookup_insert]
      obtain ⟨r',reserved,same⟩ := wired.attempts id a known
      have apart : id ≠ c.token := by
        rintro rfl
        rw [fresh] at reserved
        cases reserved
      rw [if_neg apart]
      exact ⟨r',reserved,same⟩
    · intro id r' known
      rw [held.reservations,Table.lookup_insert] at known
      rw [held.sources]
      split at known
      next =>
        cases known
        exact Option.isSome_iff_exists.mp source
      next => exact wired.reservations id r' known
    · rw [held.parts,held.attempts]
      exact wired.parts
    · rw [held.sources]
      exact wired.users
    · rw [held.attempts]
      exact wired.receipts
  | @began id r s input leaseUntil reservation source fresh held =>
    constructor
    · intro id' a known
      rw [held.attempts,Table.lookup_insert] at known
      rw [held.reservations]
      split at known
      next here =>
        cases known
        exact ⟨r,here ▸ reservation,rfl⟩
      next => exact wired.attempts id' a known
    · intro id' r' known
      rw [held.reservations] at known
      rw [held.sources,Table.lookup_modify]
      obtain ⟨s',source'⟩ := wired.reservations id' r' known
      rw [source']
      split
      next => exact ⟨fenced s',rfl⟩
      next => exact ⟨s',rfl⟩
    · intro id' n part known
      rw [held.parts] at known
      rw [held.attempts,Table.lookup_insert]
      split
      next => exact ⟨_,rfl⟩
      next => exact wired.parts id' n part known
    · intro name s' known
      rw [held.sources,Table.lookup_modify] at known
      split at known
      next =>
        obtain ⟨s'',old,rfl⟩ := Option.map_eq_some_iff.mp known
        exact wired.users name s'' old
      next => exact wired.users name s' known
    · intro id' a known
      rw [held.attempts,Table.lookup_insert] at known
      split at known
      next =>
        cases known
        simp [newAttempt]
      next => exact wired.receipts id' a known
  | stored live _ _ _ _ _ _ held =>
    exact wired.modified held (fun _ => rfl) (fun _ => rfl)
      (fun _ _ _ stored => put (attemptRows_some.mp live.rows).1 stored) fun a known => wired.receipts _ a known
  | sealed live _ _ _ held =>
    exact wired.modified held (fun _ => rfl) (fun _ => rfl) wired.parts
      (live.receipts wired (by simp [sealedWith]) rfl)
  | renewed _ _ held =>
    exact wired.modified held (fun _ => rfl) (fun _ => rfl) wired.parts fun a known => wired.receipts _ a known
  | rejected rows inactive held =>
    refine wired.modified held (fun _ => rfl) (fun _ => rfl) wired.parts fun a known => ?_
    cases (attemptRows_some.mp rows).1.symm.trans known
    simp [rejected,inactive]
  | validated live _ _ _ _ _ _ _ next held =>
    refine wired.modified held (fun _ => rfl) (fun _ => rfl) (fun id' n part known => ?_)
      (live.receipts wired ?_ rfl)
    · rw [Table.lookup_modify] at known
      split at known
      next =>
        obtain ⟨part',old,_⟩ := Option.map_eq_some_iff.mp known
        exact wired.parts id' n part' old
      next => exact wired.parts id' n part known
    · rcases next with rfl | ⟨rfl,_⟩ <;> simp [advanced]
  | kept live _ _ next held =>
    refine wired.modified held (fun _ => rfl) (fun _ => rfl) wired.parts (live.receipts wired ?_ rfl)
    rcases next with rfl | rfl <;> simp [inherited]
  | inherited live _ _ _ _ _ _ _ _ next held =>
    refine wired.modified held (fun _ => rfl) (fun _ => rfl)
      (fun _ _ _ stored => put (attemptRows_some.mp live.rows).1 stored) (live.receipts wired ?_ rfl)
    rcases next with rfl | rfl <;> simp [inherited]
  | reclaimed _ _ held =>
    refine wired.modified held (fun _ => rfl) (fun _ => rfl) (fun id' n part known => ?_)
      fun a known => wired.receipts _ a known
    rw [Table.lookup_erase] at known
    split at known
    next => cases known
    next => exact wired.parts id' n part known
  | @dropped ids spent held =>
    constructor
    · intro id a known
      rw [held.attempts,Table.lookup_keep] at known
      rw [held.reservations,Table.lookup_keep]
      obtain ⟨old,stays⟩ := Option.filter_eq_some_iff.mp known
      obtain ⟨r,reserved,same⟩ := wired.attempts id a old
      exact ⟨r,Option.filter_eq_some_iff.mpr ⟨reserved,stays⟩,same⟩
    · intro id r known
      rw [held.reservations,Table.lookup_keep] at known
      rw [held.sources]
      exact wired.reservations id r (Option.filter_eq_some_iff.mp known).1
    · intro id n part known
      rw [held.parts,Table.lookup_keep] at known
      rw [held.attempts,Table.lookup_keep]
      obtain ⟨old,stays⟩ := Option.filter_eq_some_iff.mp known
      obtain ⟨a,owner⟩ := wired.parts id n part old
      exact ⟨a,Option.filter_eq_some_iff.mpr ⟨owner,stays⟩⟩
    · rw [held.sources]
      exact wired.users
    · intro id a known
      rw [held.attempts,Table.lookup_keep] at known
      exact wired.receipts id a (Option.filter_eq_some_iff.mp known).1

theorem Wired.activates (wired : Wired pk t)
    {manifest : Manifest} {observedAt : Time} (activates : Activates c t t' id a r s manifest observedAt) :
    Wired pk t' := by
  refine wired.modified activates.held (fun _ => rfl) (Table.map_lookup_modify _ _ _ _ fun _ => rfl) wired.parts
    fun a _ => ?_
  simp [activated]

theorem effects_keep {holds : Tables → Prop} (effects : Effects limits pk c t t')
    (step : ∀ t t', Effect limits pk c t t' → holds t → holds t') (start : holds t) : holds t' := by
  induction effects with
  | refl => exact start
  | tail _ effect ih => exact step _ _ effect ih

end

end Tables

/-! Runs -/

/-- A clock that does not go back. -/
def Forward (clock : Nat → Int) : Prop := ∀ ⦃m n : Nat⦄, m ≤ n → clock m ≤ clock n

theorem forward_const : Forward fun _ => now := fun _ _ _ => Int.le_refl now

/-- The tables at a moment, with the identifiers that were generated before it. -/
structure Moment where
  tables : Tables
  now : Int
  issued : List String

/-- A call is one transaction, which has its effect whole or not at all. Others write
tables that are not the candidates', and a transaction may be lost. -/
inductive Turn (limits : Limits) (pk : Packages) (m : Moment) : Moment → Prop
  | call {m' : Moment} {c : Context} {p : Principal} {call : Call} (clock : Forward c.clock) (start : m.now ≤ c.clock 0)
      (finish : ∀ n, c.clock n ≤ m'.now) (fresh : c.token ∉ m.issued) (issued : m'.issued = c.token::m.issued)
      (tables : m'.tables = after m.tables (call.run limits pk m.tables c p)) : Turn limits pk m m'
  | other {m' : Moment} (start : m.now ≤ m'.now) (issued : m.issued ⊆ m'.issued) (tables : m.tables.Alike m'.tables) :
      Turn limits pk m m'

abbrev Run (limits : Limits) (pk : Packages) : Moment → Moment → Prop := Relation.ReflTransGen (Turn limits pk)

def started (now : Int) : Moment := ⟨.new,now,[]⟩

theorem Turn.effects {limits : Limits} {pk : Packages} {m m' : Moment} (turn : Turn limits pk m m') :
    m.now ≤ m'.now ∧ m.issued ⊆ m'.issued ∧ (m.tables.Alike m'.tables ∨ ∃ c : Context, Forward c.clock ∧
      m.now ≤ c.clock 0 ∧ (∀ n, c.clock n ≤ m'.now) ∧ c.token ∉ m.issued ∧ c.token ∈ m'.issued ∧
      (Tables.Effects limits pk c m.tables m'.tables ∨ ∃ id a r s manifest observedAt,
        Tables.Activates c m.tables m'.tables id a r s manifest observedAt)) := by
  cases turn with
  | @call c p call clock start finish fresh issued tables =>
    refine ⟨start.trans (finish 0),by simp [issued],?_⟩
    cases ran : call.run limits pk m.tables c p with
    | error failure =>
      left
      rw [tables,ran]
      exact .refl m.tables
    | ok t =>
      right
      rw [tables,ran]
      exact ⟨c,clock,start,finish,fresh,by simp [issued],Tables.effects_of_run ran⟩
  | other start issued tables => exact ⟨start,issued,.inl tables⟩

theorem Run.keeps {limits : Limits} {pk : Packages} {holds : Tables → Prop} {m m' : Moment} (run : Run limits pk m m')
    (step : ∀ c t t', Tables.Effect limits pk c t t' → holds t → holds t')
    (activation : ∀ c t t' id a r s manifest observedAt,
      Tables.Activates c t t' id a r s manifest observedAt → holds t → holds t')
    (start : holds m.tables) : holds m'.tables := by
  induction run with
  | refl => exact start
  | tail _ turn ih =>
    obtain ⟨_,_,alike | ⟨c,_,_,_,_,_,effects | ⟨id,a,r,s,manifest,observedAt,activates⟩⟩⟩ := turn.effects
    · exact step ⟨fun _ => 0,.zero,fun _ => none,"",fun _ => (0,.zero)⟩ _ _ (.alike alike) ih
    · exact Tables.effects_keep effects (step c) ih
    · exact activation c _ _ id a r s manifest observedAt activates ih

end ATape.Publication
