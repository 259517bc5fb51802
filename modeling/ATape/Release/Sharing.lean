import ATape.Foundation.Parties
import ATape.Release.Clients

/-! What a home directory offers to a client, and how it changes while clients share it:
receipts stay, they agree across the kinds of catalogs, and what is offered gets no older. -/
namespace ATape.Release
open Foundation Node Call

def offered (place : Namespace) (o : Options) (home : Home) : Option ManagedReleaseBundle :=
  match place with
  | .legacy => home.catalog.bind fun saved => (selectLegacy o saved.catalog).toOption
  | .migration => home.migrationCatalog.bind fun saved => (selectRoutes migrationChannel o saved.catalog).toOption
  | .target => home.targetCatalog.bind fun saved => (selectRoutes targetChannel o saved.catalog).toOption

/-- Receipts of one version have the same packages. -/
def Home.Coherent (home : Home) : Prop :=
  ∀ version place place' b b', home.receipts.lookup (place,version) = some b →
    home.receipts.lookup (place',version) = some b' → releaseBundleFingerprint b.base = releaseBundleFingerprint b'.base

/-- A release that is there, and none that is older. -/
def NotOlder (before after : Option ManagedReleaseBundle) : Prop :=
  ∀ b, before = some b → ∃ b', after = some b' ∧ rank b.version ≤ rank b'.version

theorem NotOlder.refl (b : Option ManagedReleaseBundle) : NotOlder b b := fun x there => ⟨x,there,le_rfl⟩

theorem NotOlder.trans {a b c : Option ManagedReleaseBundle} (first : NotOlder a b) (second : NotOlder b c) :
    NotOlder a c := by
  intro x there
  obtain ⟨y,there',newer⟩ := first x there
  obtain ⟨z,there'',newest⟩ := second y there'
  exact ⟨z,there'',newer.trans newest⟩

/-- How the home directory changes. -/
structure Home.Leads (home home' : Home) : Prop where
  coherent : home.Coherent → home'.Coherent
  grows : home.Grows home'
  offers : ∀ place o, NotOlder (offered place o home) (offered place o home')

def discovery : Evolution Home where
  Good := Home.Coherent
  To := Home.Leads
  Others := Home.Leads
  refl s := ⟨id,.refl s,fun _ _ => .refl _⟩
  trans first second := ⟨second.coherent ∘ first.coherent,first.grows.trans second.grows,
    fun place o => (first.offers place o).trans (second.offers place o)⟩
  keeps leads good := leads.coherent good
  others_refl s := ⟨id,.refl s,fun _ _ => .refl _⟩
  others_trans first second := ⟨second.coherent ∘ first.coherent,first.grows.trans second.grows,
    fun place o => (first.offers place o).trans (second.offers place o)⟩
  others_to leads := leads

/-- The receipts of some kinds stay as they are. -/
def Leaves (frozen : Namespace → Prop) (home home' : Home) : Prop :=
  ∀ place, frozen place → ∀ version, home'.receipts.lookup (place,version) = home.receipts.lookup (place,version)

/-- A party that leaves the receipts of some kinds, whatever is answered. -/
def guarded (frozen : Namespace → Prop) : Terms Home Query.Answer where
  toEvolution := discovery
  Own := Leaves frozen
  Answers _ _ := True

/-- A bundle that may be remembered: a new receipt is of a kind that is not left alone. -/
def Allowed (frozen : Namespace → Prop) (home : Home) (b : ManagedReleaseBundle) : Prop :=
  frozen b.namespace_ → home.receipts.lookup (b.namespace_,b.version) ≠ none

variable {frozen : Namespace → Prop} {s s' : Home} {b : ManagedReleaseBundle}

theorem offered_same (same : s.SameCatalogs s') (place : Namespace) (o : Options) :
    offered place o s' = offered place o s := by
  cases place <;> simp [offered,same.legacy,same.migration,same.target]

theorem leads_marked (home : Home) (place : Namespace) : home.Leads (home.marked place) where
  coherent coherent := by
    unfold Home.Coherent
    rw [receipts_marked]
    exact coherent
  grows := grows_marked home place
  offers place' o := offered_same (same_marked home place) place' o ▸ .refl _

theorem leaves_marked (home : Home) (place : Namespace) : Leaves frozen home (home.marked place) := by
  intro place' _ version
  rw [receipts_marked]

theorem leads_record (knows : s.Knows b) (absent : s.receipts.lookup (b.namespace_,b.version) = none) :
    s.Leads (s.record b) where
  coherent coherent := by
    -- The new receipt agrees with those of its version, which its check has found to agree.
    have agrees : ∀ place x, s.receipts.lookup (place,b.version) = some x →
        releaseBundleFingerprint x.base = releaseBundleFingerprint b.base := by
      intro place x found
      by_cases own : place = b.namespace_
      · rw [own,absent] at found
        cases found
      · exact knows.2 place own x found
    intro version place place' x x' found found'
    rw [Home.record,Table.lookup_insert] at found found'
    split at found
    next own =>
      cases found
      split at found'
      next =>
        cases found'
        rfl
      next =>
        rw [Prod.mk.injEq] at own
        rw [own.2] at found'
        exact (agrees place' x' found').symm
    next =>
      split at found'
      next own =>
        cases found'
        rw [Prod.mk.injEq] at own
        rw [own.2] at found
        exact agrees place x found
      next => exact coherent version place place' x x' found found'
  grows := grows_record absent
  offers place o := offered_same ⟨rfl,rfl,rfl⟩ place o ▸ .refl _

theorem remembers_guarded (allowed : Allowed frozen s b) : Remembers (guarded frozen) s b where
  mark h _ _ := ⟨leads_marked h _,leaves_marked h _⟩
  record h leads knows absent := by
    refine ⟨leads_record knows absent,?_⟩
    intro place cold version
    rw [Home.record,Table.lookup_insert,if_neg]
    rintro own
    rw [Prod.mk.injEq] at own
    obtain ⟨x,found⟩ := Option.ne_none_iff_exists'.mp (allowed (own.1 ▸ cold))
    rw [leads.grows.receipts _ x found] at absent
    cases absent

theorem Allowed.later (allowed : Allowed frozen s b) (leads : s.Leads s') : Allowed frozen s' b := by
  intro cold absent
  obtain ⟨x,found⟩ := Option.ne_none_iff_exists'.mp (allowed cold)
  rw [leads.grows.receipts _ x found] at absent
  cases absent

theorem allowed_free (free : ¬frozen b.namespace_) : Allowed frozen s b := fun cold => absurd cold free

/-! The latest release. -/

/-- A release that was found since a state: it has a receipt, it is of a kind that is not
left alone, and it is no older than what was offered, nor newer than what is. -/
structure Found (frozen : Namespace → Prop) (o : Options) (began : Home) (b : ManagedReleaseBundle) (home : Home) :
    Prop where
  records : home.Records b
  free : ¬frozen b.namespace_
  since : ∀ before, offered b.namespace_ o began = some before → rank before.version ≤ rank b.version
  now : NotOlder (some b) (offered b.namespace_ o home)

variable {o : Options} {began : Home}

theorem Found.later (found : Found frozen o began b s) (leads : s.Leads s') : Found frozen o began b s' :=
  ⟨leads.grows.records found.records,found.free,found.since,found.now.trans (leads.offers _ o)⟩

theorem Found.earlier (found : Found frozen o s b s') (leads : began.Leads s) : Found frozen o began b s' := by
  refine ⟨found.records,found.free,?_,found.now⟩
  intro before there
  obtain ⟨after,there',newer⟩ := leads.offers b.namespace_ o before there
  exact newer.trans (found.since after there')

theorem found_between {m : Home} (free : ¬frozen b.namespace_) (first : began.Leads m)
    (second : m.Leads s) (offers : offered b.namespace_ o m = some b) (records : s.Records b) :
    Found frozen o began b s := by
  refine ⟨records,free,?_,offers ▸ second.offers b.namespace_ o⟩
  intro b₀ there
  obtain ⟨b',there',newer⟩ := first.offers b.namespace_ o b₀ there
  rw [offers] at there'
  cases there'
  exact newer

/-- Nothing that a call rejects with is ruled out. -/
def Anything (_ : Failure) : Prop := True

theorem tolerant_anything : Tolerant Anything := fun _ _ => trivial

theorem accuses_anything (m : String) : Anything (integrityError m) := trivial

theorem discovery_grows : ∀ a b, (guarded frozen).To a b → a.Grows b := fun _ _ leads => leads.grows

section Routes
variable {β ρ : Type} {C : Channel β ρ} {desk : Desk C} {collate : String → String → Bool}

structure Shelf (desk : Desk C) : Prop where
  requested : ∀ {T : Terms Home Query.Answer} {own : Failure → Prop} {held : Bool} {s : Home},
    Safe T own held s C.request fun _ d => d = s
  offers : ∀ o home, offered desk.place o home =
    (C.saved home).bind fun saved => (selectRoutes C o saved.catalog).toOption
  others : ∀ place o cached home, place ≠ desk.place → offered place o (C.save cached home) = offered place o home

theorem toOption_some {ε α : Type} {value : Except ε α} {a : α} : value.toOption = some a ↔ value = .ok a := by
  cases value <;> simp [Except.toOption]

theorem offered_some {o : Options} (shelf : Shelf desk) {home : Home} {b : ManagedReleaseBundle} :
    offered desk.place o home = some b ↔
      ∃ saved x, C.saved home = some saved ∧ C.select o saved.catalog = .ok x ∧ b = C.wrap x := by
  rw [shelf.offers,Option.bind_eq_some_iff]
  simp only [toOption_some,selectRoutes_ok]
  exact exists_congr fun saved => exists_and_left.symm

theorem leads_save (shelf : Shelf desk) {catalog : Catalog β ρ} (fits : C.family.fitsCatalog catalog = true)
    (advance : ∀ c, C.saved s = some c → routesAdvance C c.catalog catalog = true) (now : Nat) :
    s.Leads (C.save ⟨now,catalog⟩ s) where
  coherent coherent := by
    unfold Home.Coherent
    rw [desk.receipts_save]
    exact coherent
  grows := desk.grows_save _ _
  offers place o := by
    by_cases own : place = desk.place
    · subst own
      intro b there
      obtain ⟨saved,x,found,select,rfl⟩ := (offered_some shelf).mp there
      obtain ⟨x',select',newer⟩ := desk.choice.advances fits (routesAdvance_monotone (advance saved found)) select
      refine ⟨C.wrap x',(offered_some shelf).mpr ⟨_,x',desk.saved_save _ _,select',rfl⟩,?_⟩
      rw [desk.choice.version,desk.choice.version]
      exact newer
    · rw [shelf.others place o _ _ own]
      exact .refl _

/-- The latest release of a channel, where an older kind of release may be found only as
long as the catalogs of the channel were not adopted. -/
theorem safe_routes (shelf : Shelf desk) {cached : Bool} {fallback : Job DiscoveredRelease}
    (free : ¬frozen desk.place) (late : ¬C.Adopted s → ∀ d, s.Leads d →
      Safe (guarded frozen) Anything false d fallback fun r => Found frozen o d r.bundle) :
    Safe (guarded frozen) Anything false s (latestRoutes collate C o cached fallback) fun r => Found frozen o s r.bundle := by
  have at_ : ∀ x, (C.wrap x).namespace_ = desk.place := desk.wrapped
  have warm : ∀ x, ¬frozen (C.wrap x).namespace_ := fun x => (at_ x).symm ▸ free
  have asked : ∀ {own : Failure → Prop} d, Safe (guarded frozen) own false d C.request fun reply d' =>
      d' = d ∧ (reply = .missing → True) ∧ ∀ c, reply = .value c → True := by
    intro own d
    exact shelf.requested.mono fun _ d' _ same => ⟨same,fun _ => trivial,fun _ _ => trivial⟩
  refine safe_latestRoutes tolerant_anything discovery_grows desk.placed desk.choice asked ?_ ?_ ?_
  · intro m d saved x first second found select
    refine ⟨remembers_guarded (allowed_free (warm x)),.inr accuses_anything,?_⟩
    intro d' freshness later records
    refine found_between (warm x) first (discovery.trans second later) ?_ records
    rw [at_]
    exact (offered_some shelf).mpr ⟨saved,x,found,select,rfl⟩
  · intro d c x leads _ fits select
    refine safe_acceptRoutes tolerant_anything discovery_grows desk.placed (.inr accuses_anything) (.inr accuses_anything)
      (fun y _ _ _ => remembers_guarded (allowed_free (warm y))) ?_ ?_
    · intro d' _ _
      refine (desk.adoption tolerant_anything (leads_marked d' _) (leaves_marked d' _)).mono ?_
      rintro _ e _ (rfl | rfl)
      · exact .refl e
      · exact same_marked d' _
    · intro d' now later records advance
      have saves := leads_save shelf fits (fun c found => (advance c found).2) now
      refine ⟨saves,?_,?_⟩
      · intro place _ version
        rw [desk.receipts_save]
      · refine found_between (warm x) (discovery.trans leads (discovery.trans later saves)) (discovery.refl _) ?_ ?_
        · rw [at_]
          exact (offered_some shelf).mpr ⟨_,x,desk.saved_save _ _,select,rfl⟩
        · exact saves.grows.records (records x (desk.choice.selected select).2.1)
  · intro _ fresh
    refine ⟨accuses_anything,fun d leads => ?_⟩
    refine (late fresh d leads).mono ?_
    intro r d' _ found d'' later
    exact (found.earlier leads).later later

end Routes

theorem migration_shelf : Shelf migrationDesk where
  requested := safe_query fun _ _ => rfl
  offers _ _ := rfl
  others place o cached home apart := by
    cases place with
    | migration => exact absurd rfl apart
    | _ => rfl

theorem target_shelf : Shelf targetDesk where
  requested := safe_query fun _ _ => rfl
  offers _ _ := rfl
  others place o cached home apart := by
    cases place with
    | target => exact absurd rfl apart
    | _ => rfl

/-! The legacy catalog. -/

theorem selectLegacy_ok {c : ReleaseCatalog} : selectLegacy o c = .ok b ↔ c.fits = true ∧ ∃ x,
    c.bundles.find? (fun b => b.pair = pair o.captureStateContract o.updateControlProtocol) = some x ∧ b = .legacy x := by
  simp only [selectLegacy,selectReleaseBundle,decodeReleaseCatalog,bind_ok,pure_ok,decode_ok]
  constructor
  · rintro ⟨x,⟨_,⟨fits,rfl⟩,selected⟩,rfl⟩
    split at selected
    next y found =>
      cases selected
      exact ⟨fits,x,found,rfl⟩
    next => cases selected
  · rintro ⟨fits,x,found,rfl⟩
    refine ⟨x,⟨c,⟨fits,rfl⟩,?_⟩,rfl⟩
    rw [found]
    rfl

theorem selectLegacy_advances {c c' : ReleaseCatalog} (fits : c'.fits = true) (advance : legacyAdvances c c' = true)
    (select : selectLegacy o c = .ok b) : ∃ b', selectLegacy o c' = .ok b' ∧ rank b.version ≤ rank b'.version := by
  obtain ⟨_,x,found,rfl⟩ := selectLegacy_ok.mp select
  have own : x.pair = pair o.captureStateContract o.updateControlProtocol := by
    simpa using List.find?_some found
  have checked := List.all_eq_true.mp advance x (List.mem_of_find?_eq_some found)
  rw [own] at checked
  split at checked
  next y found' =>
    refine ⟨.legacy y,selectLegacy_ok.mpr ⟨fits,y,found',rfl⟩,?_⟩
    rw [Bool.and_eq_true,decide_eq_true_eq,ne_eq,compareVersion_lt,not_lt] at checked
    exact checked.1
  next => cases checked

theorem leads_saveCatalog {catalog : ReleaseCatalog} (fits : catalog.fits = true)
    (advance : ∀ c, s.catalog = some c → legacyAdvances c.catalog catalog = true) (now : Nat) :
    s.Leads (s.saveCatalog ⟨now,catalog⟩) where
  coherent coherent := coherent
  grows := ⟨fun _ _ => id,id,id,id,id⟩
  offers place o := by
    cases place with
    | legacy =>
      intro b there
      obtain ⟨saved,found,select⟩ := Option.bind_eq_some_iff.mp there
      obtain ⟨b',select',newer⟩ := selectLegacy_advances fits (advance saved found) (toOption_some.mp select)
      exact ⟨b',toOption_some.mpr select',newer⟩
    | _ => exact .refl _

theorem safe_assertLegacy {collate : String → String → Bool} {held : Bool} {T : Terms Home Query.Answer}
    {previous : Option (Cached ReleaseCatalog)} {catalog : ReleaseCatalog} {post : Unit → Home → Prop}
    (holds : (∀ c, previous = some c → legacyAdvances c.catalog catalog = true) → post () s) :
    Safe T Anything held s (assertLegacy collate previous catalog) post := by
  cases previous with
  | none => exact safe_pure (holds nofun)
  | some previous =>
    refine safe_bind (safe_failWhen (fun _ => trivial) fun _ => safe_failWhen (fun _ => trivial) fun advance => holds ?_)
    rintro c same
    cases same
    simpa using advance

theorem safe_acceptLegacy {collate : String → String → Bool} {catalog : ReleaseCatalog} {selected : ManagedReleaseBundle}
    (free : ¬frozen .legacy) (fits : catalog.fits = true) (select : selectLegacy o catalog = .ok selected)
    (leads : began.Leads s) :
    Safe (guarded frozen) Anything false s (acceptLegacy collate catalog selected) fun r => Found frozen o began r.bundle := by
  refine safe_locked_job tolerant_anything fun d others => ?_
  refine safe_bind (safe_saved trivial fun d' sees _ => ?_)
  rw [Evolution.sees_held] at sees
  subst sees
  refine safe_bind (safe_assertLegacy fun advance => ?_)
  refine safe_bind ((safe_assertAll tolerant_anything (.inr accuses_anything)).mono fun _ e _ both => ?_)
  obtain ⟨rfl,_⟩ := both
  have remembered : Safe (guarded frozen) Anything true e
      (each (fun b => do let _ ← remember (.legacy b)) catalog.bundles)
      fun _ d => e.SameCatalogs d ∧ ∀ b ∈ catalog.bundles, d.Records (.legacy b) := by
    refine safe_rememberAll tolerant_anything discovery_grows ?_ (.inr accuses_anything)
    exact fun b _ _ _ => remembers_guarded (allowed_free free)
  refine remembered.then fun _ f later both => ?_
  obtain ⟨same,records⟩ := both
  refine safe_bind (safe_query fun now _ => ?_)
  have saves : f.Leads (f.saveCatalog ⟨now,catalog⟩) := by
    refine leads_saveCatalog fits (fun c found => advance c ?_) now
    rw [← same.legacy]
    exact found
  obtain ⟨_,x,found,rfl⟩ := selectLegacy_ok.mp select
  refine safe_bind (safe_atomicJSON tolerant_anything saves (fun _ _ _ => rfl) (safe_pure ?_))
  refine found_between free (discovery.trans leads (discovery.trans others (discovery.trans later saves)))
    (discovery.refl _) ?_ ?_
  · exact toOption_some.mpr select
  · exact saves.grows.records (records x (List.mem_of_find?_eq_some found))

theorem safe_latestLegacy {collate : String → String → Bool} (free : ¬frozen .legacy) (cached : Bool) :
    Safe (guarded frozen) Anything false s (latestLegacy collate o cached) fun r => Found frozen o s r.bundle := by
  have fromSaved : ∀ m d c freshness, s.Leads m → m.Leads d → m.catalog = some c →
      Safe (guarded frozen) Anything false d (fromCache o (selectLegacy o c.catalog) freshness) fun r => Found frozen o s r.bundle := by
    intro m d c freshness first second saved
    have warm : ∀ b, selectLegacy o c.catalog = .ok b → ¬frozen b.namespace_ := by
      intro b ok
      obtain ⟨_,x,_,rfl⟩ := selectLegacy_ok.mp ok
      exact free
    refine safe_fromCache tolerant_anything (fun _ _ => trivial) ?_ (fun _ _ _ _ => .inr accuses_anything) ?_
    · exact fun b ok _ _ _ => remembers_guarded (allowed_free (warm b ok))
    · intro b ok _ d' later records
      refine found_between (warm b ok) first (discovery.trans second later) ?_ records
      obtain ⟨_,x,_,rfl⟩ := selectLegacy_ok.mp ok
      exact Option.bind_eq_some_iff.mpr ⟨c,saved,toOption_some.mpr ok⟩
  refine safe_bind (safe_throwIfAborted tolerant_anything (safe_bind (safe_saved trivial fun m seen _ => ?_)))
  have first : s.Leads m := seen.leads
  refine safe_bind (safe_lasting ?_ fun c saved => fromSaved m m c .fresh first (discovery.refl m) saved)
  have asking : Safe (guarded frozen) Anything false m (metadata (Call.query Query.catalog) ReleaseCatalog.fits)
      fun c d => d = m ∧ c.fits = true := by
    refine safe_metadata (fun _ _ _ => trivial) (safe_query fun reply _ => ⟨fun _ => trivial,?_⟩)
    exact fun c _ fits => ⟨rfl,fits⟩
  refine safe_bind (asking.attempt ?_ ?_)
  · intro cause e later _
    refine safe_bind (safe_query fun aborted _ => ?_)
    cases saved : m.catalog with
    | none => exact safe_fail trivial
    | some c =>
      simp only
      split
      next => exact fromSaved m e c .stale first later saved
      next => exact safe_fail trivial
  · rintro c e later ⟨rfl,fits⟩
    refine safe_bind (safe_lift (fun _ _ => trivial) fun b ok => ?_)
    refine safe_bind (safe_lift (fun _ _ => trivial) fun b' fine => ?_)
    obtain ⟨rfl,_⟩ := compatible_ok fine
    exact safe_acceptLegacy free fits ok first

/-! The latest release for a client. -/

/-- The kinds of releases that a client no longer finds, once catalogs that it supports were
adopted. -/
def Superseded (o : Options) (home : Home) (place : Namespace) : Prop :=
  o.updateTargetProtocol.isSome = true ∧ targetChannel.Adopted home ∧ place ≠ .target ∨
    o.supportedMigrationPlans.isSome = true ∧ migrationChannel.Adopted home ∧ place = .legacy

theorem Superseded.later {place : Namespace} (superseded : Superseded o s place) (leads : s.Leads s') :
    Superseded o s' place := by
  refine superseded.imp ?_ ?_
  · exact fun both => ⟨both.1,target_placed.grown leads.grows both.2.1,both.2.2⟩
  · exact fun both => ⟨both.1,migration_placed.grown leads.grows both.2.1,both.2.2⟩

theorem safe_latestMigration {collate : String → String → Bool} (free : ¬frozen .migration)
    (late : ¬migrationChannel.Adopted s → ¬frozen .legacy) (cached : Bool) :
    Safe (guarded frozen) Anything false s (latestMigration collate o cached) fun r => Found frozen o s r.bundle :=
  safe_routes migration_shelf free fun fresh _ _ => safe_latestLegacy (late fresh) cached

theorem safe_latest {collate : String → String → Bool} (cold : ∀ place, frozen place → Superseded o s place)
    (cached : Bool) : Safe (guarded frozen) Anything false s (latest collate o cached) fun r => Found frozen o s r.bundle := by
  have target : ¬frozen .target := by
    intro wrong
    rcases cold _ wrong with ⟨_,_,apart⟩ | ⟨_,_,same⟩
    · exact apart rfl
    · cases same
  have older : ∀ d, s.Leads d → (o.updateTargetProtocol.isSome = true → ¬targetChannel.Adopted s) →
      Safe (guarded frozen) Anything false d (if o.supportedMigrationPlans.isNone then latestLegacy collate o cached
        else latestMigration collate o cached) fun r => Found frozen o d r.bundle := by
    intro d leads fresh
    have migration : ¬frozen .migration := by
      intro wrong
      rcases cold _ wrong with ⟨able,adopted,_⟩ | ⟨_,_,same⟩
      · exact fresh able adopted
      · cases same
    have legacy : (o.supportedMigrationPlans.isSome = true → ¬migrationChannel.Adopted s) → ¬frozen .legacy := by
      intro unadopted wrong
      rcases cold _ wrong with ⟨able,adopted,_⟩ | ⟨able,adopted,_⟩
      · exact fresh able adopted
      · exact unadopted able adopted
    split
    next unable =>
      refine safe_latestLegacy (legacy fun able => ?_) cached
      simp [Option.isNone_iff_eq_none.mp unable] at able
    next able =>
      refine safe_latestMigration migration (fun unadopted => legacy fun _ adopted => ?_) cached
      exact unadopted (migration_placed.grown leads.grows adopted)
  unfold latest
  split
  next => exact safe_routes target_shelf target fun fresh d leads => older d leads fun _ => fresh
  next unable => exact older s (discovery.refl s) fun able => absurd able unable

end ATape.Release
