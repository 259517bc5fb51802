import ATape.Release.Sharing

/-! Release discovery is free of rollback and rewrite, whatever the server answers, however
the calls are interleaved and wherever they are cut short. -/
namespace ATape.Release
open Foundation Node Call

/-! What is asked for. -/

inductive Request
  | latest (o : Options) (cached : Bool)
  | exact (o : Options) (version : String)

def respond (collate : String → String → Bool) : Request → Job ManagedReleaseBundle
  | .latest o cached => do
    let found ← latest collate o cached
    pure found.bundle
  | .exact o version => exact collate o version

/-- The kinds of which a call makes no receipts, once newer catalogs that its client supports
were adopted. For the running version this is so of a target catalog only. -/
def Request.Leaves (request : Request) (began : Home) (place : Namespace) : Prop :=
  match request with
  | .latest o _ => Superseded o began place
  | .exact o version => Superseded o began place ∧
    (version = o.runtimeVersion → o.updateTargetProtocol.isSome = true ∧ targetChannel.Adopted began)

/-! One version. -/

section Exact
variable {T : Terms Home Query.Answer} {fails : Failure → Prop} {held : Bool} {frozen : Namespace → Prop}
  {s s' : Home} {b : ManagedReleaseBundle} {o : Options} {version : String} {collate : String → String → Bool}

theorem safe_repair (allowed : Allowed frozen s b) :
    Safe (guarded frozen) Anything false s (repair o b) fun b d => d.Records b := by
  refine safe_locked_job tolerant_anything fun d others => ?_
  refine safe_bind (safe_lift (fun _ _ => trivial) fun known ok => ?_)
  obtain ⟨rfl,_⟩ := compatible_ok ok
  exact safe_remember tolerant_anything (remembers_guarded (allowed.later others)) (.inr accuses_anything)
    fun _ _ _ records => records

theorem safe_descriptor {α : Type} (may : ∀ failure, fails failure) {request : Job (Reply α)} {fits : α → Bool}
    {wrap : α → ManagedReleaseBundle} {message : String} (asked : Safe T fails held s request fun _ _ => True) :
    Safe T fails held s (descriptor request fits wrap version message) fun b _ =>
      b.version = version ∧ ∃ x, b = wrap x := by
  have found : Safe T fails held s (metadata request fits) fun _ _ => True :=
    safe_metadata (fun _ _ _ => may _) (asked.mono fun _ _ _ _ => ⟨fun _ => may _,fun _ _ _ => trivial⟩)
  refine found.then fun x d _ _ => safe_bind (safe_failWhen (fun _ => may _) fun right => ?_)
  exact safe_pure ⟨not_not.mp right,x,rfl⟩

theorem safe_legacyRelease (may : ∀ failure, fails failure) :
    Safe T fails held s (legacyRelease version) fun b _ => b.version = version :=
  (safe_descriptor may (safe_query fun _ _ => trivial)).mono fun _ _ _ ends => ends.1

theorem safe_migrationRelease (may : ∀ failure, fails failure) :
    Safe T fails held s (migrationRelease o version) fun b _ => b.version = version := by
  unfold migrationRelease
  split
  next =>
    have first : Safe T Anything held s (descriptor (Call.query (Query.migrationBundle version))
        MigrationReleaseBundle.fits .migration version "The static descriptor has a different version.") fun b _ =>
          b.version = version ∧ ∃ x, b = .migration x :=
      safe_descriptor (fun _ => trivial) (safe_query fun _ _ => trivial)
    refine safe_bind (first.attempt ?_ ?_)
    · intro cause d _ _
      refine safe_bind (safe_query fun aborted _ => ?_)
      split
      next => exact safe_fail (may _)
      next =>
        split
        next => exact safe_fail (may _)
        next => exact safe_legacyRelease may
    · exact fun b d _ ends => safe_pure ends.1
  next => exact safe_legacyRelease may

def Pinned (o : Options) (home : Home) : Prop := o.updateTargetProtocol.isSome = true ∧ targetChannel.Adopted home

/-- An error that hides no target descriptor. -/
def Tells (o : Options) (home : Home) (failure : Failure) : Prop := failure = .missing → ¬Pinned o home

/-- Once the target catalog was adopted a client that supports it finds a target descriptor,
or rejects with another error than that there is none. -/
theorem safe_versionRelease (grows : ∀ a b, T.To a b → a.Grows b) :
    Safe T (Tells o s) held s (versionRelease o version) fun b _ =>
      b.version = version ∧ (b.namespace_ = .target ∨ ¬Pinned o s) := by
  have older : ∀ d, ¬Pinned o s → Safe T (Tells o s) held d (migrationRelease o version) fun b _ =>
      b.version = version ∧ (b.namespace_ = .target ∨ ¬Pinned o s) := by
    intro d free
    exact (safe_migrationRelease fun _ _ => free).mono fun _ _ _ same => ⟨same,.inr free⟩
  unfold versionRelease
  split
  next able =>
    have first : Safe T Anything held s (descriptor (Call.query (Query.targetBundle version)) TargetReleaseBundle.fits
        .target version "The static target descriptor has a different version.") fun b _ =>
          b.version = version ∧ ∃ x, b = .target x :=
      safe_descriptor (fun _ => trivial) (safe_query fun _ _ => trivial)
    refine safe_bind (first.attempt ?_ ?_)
    · intro cause d leads _
      refine safe_bind (safe_query fun aborted _ => ?_)
      split
      next =>
        refine safe_fail ?_
        intro wrong
        cases wrong
      next =>
        split
        next there =>
          refine safe_fail ?_
          exact fun absent => absurd absent there
        next =>
          have unreadable : Tells o s invalidState := by
            intro wrong
            cases wrong
          refine (safe_adoptedRoutes unreadable grows target_placed).then fun adopted e _ seen => ?_
          split
          next =>
            refine safe_fail ?_
            intro wrong
            cases wrong
          next unadopted =>
            refine older e ?_
            rintro ⟨_,already⟩
            exact unadopted (seen.2 (target_placed.grown (grows _ _ leads) already))
    · rintro b d _ ⟨right,x,rfl⟩
      exact safe_pure ⟨right,.inl rfl⟩
  next unable => exact older s fun pinned => unable pinned.1

theorem safe_npmPackages (names : List String) :
    Safe T Anything held s (npmPackages o version names) fun _ _ => True := by
  induction names generalizing s with
  | nil => exact safe_pure trivial
  | cons name names ih =>
    have first : Safe T Anything held s (npmPackage o version name) fun _ _ => True := by
      have found : Safe T Anything held s (metadata (Call.query (Query.npm name version)) fun _ => true)
          fun _ _ => True :=
        safe_metadata (fun _ _ _ => trivial) (safe_query fun _ _ => ⟨fun _ => trivial,fun _ _ _ => trivial⟩)
      refine found.then fun value d _ _ => ?_
      refine safe_bind (safe_failWhen (fun _ => trivial) fun _ => ?_)
      exact safe_bind (safe_failWhen (fun _ => trivial) fun _ => safe_pure trivial)
    exact first.then fun _ d _ _ => ih.then fun _ _ _ _ => safe_pure trivial

theorem safe_deriveRunningBundle :
    Safe T Anything held s (deriveRunningBundle o version) fun b _ => b.version = version := by
  refine (safe_npmPackages releasePackageNames).then fun packages d _ _ => ?_
  refine safe_bind (safe_lift (fun _ _ => trivial) fun bundle decoded => safe_pure ?_)
  obtain ⟨_,rfl⟩ := (decode_ok _ _ _).mp decoded
  rfl

variable {began : Home}

theorem Pinned.later (pinned : Pinned o s) (leads : s.Leads s') : Pinned o s' :=
  ⟨pinned.1,target_placed.grown leads.grows pinned.2⟩

/-- A descriptor that was found may be remembered, as far as it is the target descriptor, or
none could be missed and the version is the running one or has a legacy receipt. -/
theorem allowed_described (right : b.version = version) (either : b.namespace_ = .target ∨ ¬Pinned o began)
    (known : version = o.runtimeVersion ∨ s.receipts.lookup (.legacy,version) ≠ none) :
    Allowed ((Request.exact o version).Leaves began) s b := by
  rintro ⟨superseded,running⟩ absent
  rcases either with target | free
  · rw [target] at superseded
    rcases superseded with ⟨_,_,apart⟩ | ⟨_,_,same⟩
    · exact apart rfl
    · cases same
  · rcases superseded with ⟨able,adopted,_⟩ | ⟨_,_,legacy⟩
    · exact free ⟨able,adopted⟩
    · rcases known with same | there
      · exact free (running same)
      · rw [legacy,right] at absent
        exact there absent

theorem safe_assertProtocol {supported : Bool} {place : Namespace} {message : String} {selected : ManagedReleaseBundle} :
    Safe T Anything held s (assertProtocol supported place version message selected) fun _ d => T.Sees held s d := by
  unfold assertProtocol
  split
  next =>
    refine safe_bind (safe_receipt trivial fun d sees _ => ?_)
    exact safe_failWhen (fun _ => trivial) fun _ => sees
  next => exact safe_pure Evolution.sees_refl

theorem safe_assertAdvertised (cold : ∀ place, frozen place → Superseded o s place) {selected : ManagedReleaseBundle} :
    Safe (guarded frozen) Anything false s (assertAdvertised collate o version selected) fun _ _ => True := by
  unfold assertAdvertised
  split
  next =>
    refine safe_bind (safe_receipt trivial fun d sees _ => ?_)
    split
    next => exact safe_pure trivial
    next =>
      have cold' : ∀ place, frozen place → Superseded o d place := fun place there => (cold place there).later sees.leads
      exact (safe_latest cold' false).then fun _ _ _ _ => safe_failWhen (fun _ => trivial) fun _ => trivial
  next => exact safe_pure trivial

theorem safe_establish (leads : began.Leads s) (right : b.version = version)
    (either : b.namespace_ = .target ∨ ¬Pinned o began)
    (known : version = o.runtimeVersion ∨ s.receipts.lookup (.legacy,version) ≠ none) :
    Safe (guarded ((Request.exact o version).Leaves began)) Anything false s (establish collate o version b)
      fun b d => d.Records b := by
  refine safe_bind (safe_lift (fun _ _ => trivial) fun selected ok => ?_)
  obtain ⟨rfl,_⟩ := compatible_ok ok
  have allowed := allowed_described right either known
  have advertised : Safe (guarded ((Request.exact o version).Leaves began)) Anything false s
      (assertAdvertised collate o version selected) fun _ _ => True :=
    safe_assertAdvertised fun place both => both.1.later leads
  refine advertised.then fun _ d later _ => safe_locked_job tolerant_anything fun e others => ?_
  refine safe_assertProtocol.then fun _ f leads₁ _ => safe_assertProtocol.then fun _ g leads₂ _ => ?_
  have since : s.Leads g := discovery.trans later (discovery.trans others (discovery.trans leads₁ leads₂))
  exact safe_remember tolerant_anything (remembers_guarded (allowed.later since)) (.inr accuses_anything)
    fun _ _ _ records => records

theorem safe_described (leads : began.Leads s) {saved : Option ManagedReleaseBundle}
    (known : version = o.runtimeVersion ∨ s.receipts.lookup (.legacy,version) ≠ none)
    (recorded : ∀ x, saved = some x → s.Records x) :
    Safe (guarded ((Request.exact o version).Leaves began)) Anything false s (described collate o version saved)
      fun b d => d.Records b := by
  have kept : ∀ {d}, s.Leads d → version = o.runtimeVersion ∨ d.receipts.lookup (.legacy,version) ≠ none := by
    intro d later
    refine known.imp id fun there absent => ?_
    obtain ⟨x,found⟩ := Option.ne_none_iff_exists'.mp there
    rw [later.grows.receipts _ x found] at absent
    cases absent
  refine safe_bind ((safe_versionRelease discovery_grows).attempt ?_ ?_)
  · intro cause d later tells
    refine safe_bind (safe_query fun aborted _ => ?_)
    split
    next => exact safe_fail trivial
    next =>
      split
      next absent =>
        split
        next => exact safe_fail trivial
        next running =>
          refine safe_deriveRunningBundle.then fun b e further right => ?_
          have free : ¬Pinned o began := fun pinned => tells absent (pinned.later leads)
          exact safe_establish (discovery.trans leads (discovery.trans later further)) right (.inr free)
            (.inl (not_not.mp running))
      next =>
        split
        next x =>
          split
          next =>
            refine safe_lift (fun _ _ => trivial) fun b ok => ?_
            obtain ⟨rfl,_⟩ := compatible_ok ok
            exact later.grows.records (recorded _ rfl)
          next => exact safe_fail trivial
        next => exact safe_fail trivial
  · rintro b d later ⟨right,either⟩
    refine safe_establish (discovery.trans leads later) right (either.imp id ?_) (kept later)
    exact fun free pinned => free (pinned.later leads)

theorem allowed_stored {place : Namespace} (found : s.receipts.lookup (place,version) = some b)
    (right : b.namespace_ = place ∧ b.version = version) : Allowed frozen s b := by
  obtain ⟨rfl,rfl⟩ := right
  intro _ absent
  rw [absent] at found
  cases found

theorem records_stored {place : Namespace} (found : s.receipts.lookup (place,version) = some b)
    (right : b.namespace_ = place ∧ b.version = version) : s.Records b := by
  obtain ⟨rfl,rfl⟩ := right
  exact ⟨b,found,rfl⟩

theorem safe_targetReceipt : Safe (guarded frozen) Anything false s (targetReceipt o version) fun saved d =>
    ∀ b, saved = some b → Allowed frozen d b := by
  unfold targetReceipt
  split
  next =>
    refine (safe_adoptedRoutes trivial discovery_grows target_placed).then fun _ d _ _ => ?_
    exact safe_receipt trivial fun e _ right b found => allowed_stored found (right b found)
  next => exact safe_pure nofun

theorem safe_migrationReceipt : Safe (guarded frozen) Anything false s (migrationReceipt o version) fun saved d =>
    ∀ b, saved = some b → Allowed frozen d b := by
  unfold migrationReceipt
  split
  next =>
    refine (safe_adoptedRoutes trivial discovery_grows migration_placed).then fun _ d _ _ => ?_
    exact safe_receipt trivial fun e _ right b found => allowed_stored found (right b found)
  next => exact safe_pure nofun

theorem safe_exactAdvertised (cold : ∀ place, frozen place → Superseded o s place) :
    Safe (guarded frozen) Anything false s (exactAdvertised collate o version) fun b d => d.Records b := by
  refine (safe_latest cold false).then fun advertised d _ found => ?_
  exact safe_bind (safe_failWhen (fun _ => trivial) fun _ => safe_repair (allowed_free found.free))

theorem safe_exact : Safe (guarded ((Request.exact o version).Leaves s)) Anything false s (exact collate o version)
    fun b d => d.Records b := by
  refine safe_bind (safe_throwIfAborted tolerant_anything ?_)
  split
  next => exact safe_fail trivial
  next =>
    refine safe_targetReceipt.then fun targetSaved d leads recorded => ?_
    split
    next b => exact safe_repair (recorded b rfl)
    next =>
      refine safe_migrationReceipt.then fun migrationSaved e leads₁ recorded₁ => ?_
      split
      next b => exact safe_repair (recorded₁ b rfl)
      next =>
        refine safe_bind (safe_receipt trivial fun f sees right => ?_)
        have since : s.Leads f := discovery.trans leads (discovery.trans leads₁ sees.leads)
        cases found : f.receipts.lookup (.legacy,version) with
        | some b =>
          simp only
          split
          next => exact safe_repair (allowed_stored found (right b found))
          next =>
            refine safe_described since (.inr ?_) ?_
            · rw [found]
              nofun
            · rintro x ⟨⟩
              exact records_stored found (right b found)
        | none =>
          simp only
          split
          next => exact safe_exactAdvertised fun place both => both.1.later since
          next running => exact safe_described since (.inl (not_not.mp running)) nofun

end Exact

/-! Clients of one home. -/

def Ended (request : Request) (began : Home) (result : Except Failure ManagedReleaseBundle) (home : Home) : Prop :=
  ∀ b, result = .ok b → home.Records b ∧ ∀ o cached, request = .latest o cached → Found (Superseded o began) o began b home

theorem respond_sound (collate : String → String → Bool) :
    Sys.Sound discovery (fun _ _ => True) (fun request began => Leaves (request.Leaves began)) Ended (respond collate) := by
  intro request began _
  cases request with
  | latest o cached =>
    have found : Safe (guarded (Superseded o began)) Anything false began (latest collate o cached)
        fun r d => Found (Superseded o began) o began r.bundle d := safe_latest (fun _ => id) cached
    have safe : Safe (guarded (Superseded o began)) Anything false began (respond collate (.latest o cached))
        fun b d => Found (Superseded o began) o began b d := found.then fun _ _ _ found => safe_pure found
    refine Task.Keeps.mono safe ?_
    rintro r held' d _ ⟨free,holds,_⟩
    refine ⟨free,fun b returned => ⟨(holds b returned).records,?_⟩⟩
    rintro o' cached' ⟨⟩
    exact holds b returned
  | exact o version =>
    refine Task.Keeps.mono (safe_exact (s := began)) ?_
    rintro r held' d _ ⟨free,holds,_⟩
    exact ⟨free,fun b returned => ⟨holds b returned,nofun⟩⟩

abbrev Clients := Sys Home Query.Answer (Except Failure ManagedReleaseBundle) Request

/-- Some operations of any number of calls, each call with a number of its own. -/
def Calls (collate : String → String → Bool) (sys : Clients) (labels : List (Sys.Label Request)) (sys' : Clients) : Prop :=
  Run (Sys.Step (fun _ _ => True) (respond collate)) sys labels sys'

def Returns (sys : Clients) (p : Nat) (request : Request) (b : ManagedReleaseBundle) : Prop :=
  ∃ began, sys.launched p = some ⟨request,began,.finished (.ok b)⟩

abbrev Steady (sys : Clients) : Prop :=
  Sys.Kept discovery (fun _ _ => True) (fun request began => Leaves (request.Leaves began)) Ended sys

section Runs
variable {collate : String → String → Bool} {sys sys' : Clients} {labels : List (Sys.Label Request)} {p : Nat}
  {request : Request} {b : ManagedReleaseBundle}

theorem kept_calls {home : Home} (coherent : home.Coherent) (calls : Calls collate (.initial home) labels sys) :
    Steady sys :=
  Sys.run_kept (respond_sound collate) (Sys.kept_initial (fun _ _ leads => leads) coherent) calls

theorem Returns.ended (returns : Returns sys p request b) (kept : Steady sys) :
    ∃ began home, sys.launched p = some ⟨request,began,.finished (.ok b)⟩ ∧ began.Leads home ∧ home.Leads sys.state ∧
      Ended request began (.ok b) home := by
  obtain ⟨began,at_⟩ := returns
  obtain ⟨_,home,first,second,ended⟩ := kept.parties p _ at_
  exact ⟨began,home,at_,first,second,ended⟩

theorem Returns.records (returns : Returns sys p request b) (kept : Steady sys) : sys.state.Records b := by
  obtain ⟨_,_,_,_,second,ended⟩ := returns.ended kept
  exact second.grows.records (ended b rfl).1

theorem Returns.agrees (returns : Returns sys p request b) (kept : Steady sys) {place : Namespace}
    {saved : ManagedReleaseBundle} (found : sys.state.receipts.lookup (place,b.version) = some saved) :
    (b.namespace_ = place → managedReleaseBundleFingerprint b = managedReleaseBundleFingerprint saved) ∧
      releaseBundleFingerprint b.base = releaseBundleFingerprint saved.base := by
  obtain ⟨own,there,same⟩ := returns.records kept
  refine ⟨?_,?_⟩
  · rintro rfl
    rw [found] at there
    cases there
    exact same.symm
  · rw [← base_of_fingerprint same]
    exact kept.good b.version b.namespace_ place own saved there found

theorem Request.Leaves.later {began home : Home} {place : Namespace} (leaves : request.Leaves began place)
    (leads : began.Leads home) : request.Leaves home place := by
  cases request with
  | latest o cached => exact Superseded.later leaves leads
  | exact o version => exact ⟨leaves.1.later leads,fun running => Pinned.later (leaves.2 running) leads⟩

end Runs

/-- For calls of any clients of one home directory, with any answers and cut short anywhere:
within a kind of catalog and for the same options the latest release of a call that starts
after another has returned is not older; receipts stay, and every bundle of a version that is
ever returned agrees with its receipts; and once a client's newer catalogs were adopted, the
latest release is not of an older kind, and a call for one version returns a bundle of an
older kind only from a receipt that the call has not made, but for the running version of a
client whose target catalog was not adopted. -/
theorem discovery_safe (collate : String → String → Bool) (home : Home) (coherent : home.Coherent)
    (labels labels' : List (Sys.Label Request)) (sys sys' : Clients) (calls : Calls collate (.initial home) labels sys)
    (calls' : Calls collate sys labels' sys') :
    (∀ p q o cached cached' b b', Returns sys p (.latest o cached) b → sys.launched q = none →
      Returns sys' q (.latest o cached') b' → b.namespace_ = b'.namespace_ → rank b.version ≤ rank b'.version) ∧
    (∀ place version saved, sys.state.receipts.lookup (place,version) = some saved →
      sys'.state.receipts.lookup (place,version) = some saved ∧
        ∀ p request b, Returns sys' p request b → b.version = version →
          (b.namespace_ = place → managedReleaseBundleFingerprint b = managedReleaseBundleFingerprint saved) ∧
            releaseBundleFingerprint b.base = releaseBundleFingerprint saved.base) ∧
    (∀ q, sys.launched q = none →
      (∀ o cached b, Returns sys' q (.latest o cached) b → ¬Superseded o sys.state b.namespace_) ∧
      (∀ o version b, Returns sys' q (.exact o version) b → sys'.state.Records b) ∧
      ∀ launch next, sys'.launched q = some launch → Sys.Step (fun _ _ => True) (respond collate) sys' (.step q) next →
        Leaves (launch.call.Leaves sys.state) sys'.state next.state) := by
  have kept := kept_calls coherent calls
  have kept' : Steady sys' := Sys.run_kept (respond_sound collate) kept calls'
  have leads : sys.state.Leads sys'.state := Sys.run_leads (respond_sound collate) kept calls'
  refine ⟨?_,?_,?_⟩
  · intro p q o cached cached' b b' returns fresh returns' same
    obtain ⟨_,home,_,_,second,ended⟩ := returns.ended kept
    obtain ⟨began,_,at_,_,_,ended'⟩ := returns'.ended kept'
    have since : sys.state.Leads began := Sys.run_began (respond_sound collate) kept calls' fresh at_
    have first := (ended b rfl).2 o cached rfl
    have later := (ended' b' rfl).2 o cached' rfl
    obtain ⟨between,offers,newer⟩ := (first.now.trans ((discovery.trans second since).offers _ o)) b rfl
    rw [same] at offers
    exact newer.trans (later.since between offers)
  · intro place version saved found
    have found' := leads.grows.receipts _ saved found
    refine ⟨found',?_⟩
    rintro p request b returns rfl
    exact returns.agrees kept' found'
  · intro q fresh
    have since : ∀ launch, sys'.launched q = some launch → sys.state.Leads launch.began :=
      fun launch at_ => Sys.run_began (respond_sound collate) kept calls' fresh at_
    refine ⟨?_,?_,?_⟩
    · intro o cached b returns superseded
      obtain ⟨began,_,at_,_,_,ended⟩ := returns.ended kept'
      exact ((ended b rfl).2 o cached rfl).free (superseded.later (since _ at_))
    · exact fun o version b returns => returns.records kept'
    · intro launch next at_ step place cold version
      rcases Sys.Step.state kept' step with same | ⟨p,launch',named,at_',_,own⟩
      · rw [same]
      · cases named
        rw [at_] at at_'
        cases at_'
        exact own place (cold.later (since launch at_)) version

/-! A receipt of an older kind. A client records the legacy bundle of its running version, and
another adopts a target catalog; the legacy receipt is still returned for that version. -/

def officialLegacy (version : String) : ReleaseBundle := ⟨version,"a","update",officialPackages version⟩

theorem officialLegacy_fits : (officialLegacy "1.0.0").fits = true :=
  official_fits stable_first opaque_contracts.1 (by decide)

def legacyOptions : Options := ⟨"a","1.0.0","update",none,none⟩

def targetOptions : Options := ⟨"a","2.0.0","update",some updateTargetProtocol,none⟩

def officialAnswer : ∀ q : Query, q.Answer
  | .bundle _ => .value (officialLegacy "1.0.0")
  | q => calmAnswer .other (.value secondCatalog) q

theorem calm_officialAnswer : Calm officialAnswer := ⟨rfl,rfl,rfl⟩

theorem compatible_legacy {o : Options} (contract : o.captureStateContract = "a")
    (control : o.updateControlProtocol = "update") :
    compatible o (.legacy (officialLegacy "1.0.0")) = .ok (.legacy (officialLegacy "1.0.0")) := by
  have decoded : decode ManagedReleaseBundle.fits (.legacy (officialLegacy "1.0.0")) =
      .ok (.legacy (officialLegacy "1.0.0")) := (decode_ok _ _ _).mpr ⟨officialLegacy_fits,rfl⟩
  unfold compatible
  rw [decoded,ok_bind]
  simp [captureCompatible,ManagedReleaseBundle.base,officialLegacy,contract,control,pure,Except.pure]

section Example
variable (collate : String → String → Bool)

theorem valid_empty : Home.empty.Valid := fun _ _ _ found => nomatch found

theorem coherent_empty : Home.empty.Coherent := fun _ _ _ _ _ found => nomatch found

theorem knows_empty (b : ManagedReleaseBundle) : Home.empty.Knows b :=
  ⟨fun _ found => (nomatch found),fun _ _ _ found => (nomatch found)⟩

/-- The receipts of a client without newer catalogs. -/
def legacyReceipts : Table (Namespace × String) ManagedReleaseBundle :=
  Home.empty.receipts.insert (.legacy,"1.0.0") (.legacy (officialLegacy "1.0.0"))

theorem run_legacy : ∃ s', (exact collate legacyOptions "1.0.0").run officialAnswer .empty =
      (.ok (.legacy (officialLegacy "1.0.0")),s') ∧ Home.empty.SameCatalogs s' ∧ s'.receipts = legacyReceipts := by
  have calm := calm_officialAnswer
  obtain ⟨s',remembered,same,⟨saved,recorded,_⟩,receipts⟩ :=
    run_remember calm valid_empty (knows_empty (.legacy (officialLegacy "1.0.0")))
  refine ⟨s',?_,same,?_⟩
  · have absent : (receipt "1.0.0" .legacy).run officialAnswer .empty = (.ok none,.empty) :=
      run_receipt calm valid_empty "1.0.0" .legacy
    have asked : (metadata (Call.query (Query.bundle "1.0.0")) ReleaseBundle.fits).run officialAnswer Home.empty =
        (.ok (officialLegacy "1.0.0"),.empty) := run_metadata (run_query (Query.bundle "1.0.0")) officialLegacy_fits
    have found : (versionRelease legacyOptions "1.0.0").run officialAnswer Home.empty =
        (.ok (.legacy (officialLegacy "1.0.0")),.empty) := (run_bind_ok asked).trans rfl
    have suits : compatible legacyOptions (.legacy (officialLegacy "1.0.0")) = .ok (.legacy (officialLegacy "1.0.0")) :=
      compatible_legacy rfl rfl
    have established : (establish collate legacyOptions "1.0.0" (.legacy (officialLegacy "1.0.0"))).run officialAnswer
        Home.empty = (.ok (.legacy (officialLegacy "1.0.0")),s') := by
      unfold establish
      rw [suits,run_bind_ok (run_lift (.ok _))]
      refine (run_bind_ok (a := ()) rfl).trans ((run_locked_job calm _).trans ?_)
      exact (run_bind_ok (a := ()) rfl).trans ((run_bind_ok (a := ()) rfl).trans remembered)
    have missing : (targetReceipt legacyOptions "1.0.0").run officialAnswer Home.empty = (.ok none,.empty) := rfl
    have missing' : (migrationReceipt legacyOptions "1.0.0").run officialAnswer Home.empty = (.ok none,.empty) := rfl
    unfold exact
    rw [run_bind_ok (run_throwIfAborted calm),stable_first]
    simp only [Bool.true_eq_false,if_false]
    rw [run_bind_ok missing]
    simp only
    rw [run_bind_ok missing']
    simp only
    rw [run_bind_ok absent]
    simp only
    have running : ¬"1.0.0" ≠ legacyOptions.runtimeVersion := not_not.mpr rfl
    rw [if_neg running]
    unfold described
    rw [run_bind_ok (run_attempt _),found]
    exact established
  · rcases receipts with still | ⟨_,new⟩
    · rw [still] at recorded
      exact nomatch recorded
    · exact new

theorem second_fits : targetFamily.fitsCatalog secondCatalog = true :=
  single_fits stable_second opaque_contracts.1 counted.2

theorem select_second : targetChannel.select targetOptions secondCatalog = .ok (officialTarget "2.0.0" "a") := by
  have follows : followsTarget targetOptions (officialRoute "2.0.0" "a") = true := by
    simp [followsTarget,targetOptions,officialRoute]
  refine (selectTarget_ok _ _ _).mpr ⟨second_fits,officialRoute "2.0.0" "a",?_,?_⟩
  · simp [secondCatalog,follows]
  · simp [secondCatalog,officialTarget,officialRoute]

theorem run_adopting {s : Home} (same : Home.empty.SameCatalogs s) (receipts : s.receipts = legacyReceipts) :
    ∃ s', (latest collate targetOptions false).run officialAnswer s =
        (.ok ⟨.target (officialTarget "2.0.0" "a"),.fresh⟩,s') ∧
      s'.targetCatalog = some ⟨0,secondCatalog⟩ ∧ s'.Valid ∧
      s'.receipts.lookup (.legacy,"1.0.0") = some (.legacy (officialLegacy "1.0.0")) ∧
      ∀ place b, s'.receipts.lookup (place,"1.0.0") = some b → place = .legacy := by
  have calm := calm_officialAnswer
  have unsaved : targetChannel.saved s = none := same.target
  have found : ∀ key b, s.receipts.lookup key = some b →
      key = (.legacy,"1.0.0") ∧ b = .legacy (officialLegacy "1.0.0") := by
    intro key b there
    rw [receipts,legacyReceipts,Table.lookup_insert] at there
    split at there
    next own => exact ⟨own,(Option.some.inj there).symm⟩
    next => exact nomatch there
  have valid : s.Valid := by
    intro place version b there
    obtain ⟨own,rfl⟩ := found _ b there
    cases own
    exact ⟨rfl,officialLegacy_fits,rfl⟩
  have knows : ∀ x ∈ secondCatalog.bundles, s.Knows (targetChannel.wrap x) := by
    intro x inside
    obtain rfl := List.mem_singleton.mp inside
    have apart : ∀ place b, s.receipts.lookup (place,"2.0.0") ≠ some b := by
      intro place b there
      have own : "2.0.0" = "1.0.0" := congrArg Prod.snd (found _ b there).1
      exact absurd own (by decide)
    exact ⟨fun b there => absurd there (apart _ b),fun place _ b there => absurd there (apart place b)⟩
  have timely_ : Timely officialAnswer targetChannel.family.fitsCatalog (targetChannel.saved s) := by
    intro c there
    rw [unsaved] at there
    cases there
  have succeeds : ∀ p, targetChannel.saved s = some p → Succeeds collate targetChannel p.catalog secondCatalog := by
    intro p there
    rw [unsaved] at there
    cases there
  obtain ⟨s',accepted,saved,valid',_,records,received⟩ := run_acceptRoutes targetDesk calm second_fits ⟨valid,knows⟩
    timely_ succeeds (.target (officialTarget "2.0.0" "a"))
  have before : ∀ place b, s'.receipts.lookup (place,"1.0.0") = some b →
      place = .legacy ∧ b = .legacy (officialLegacy "1.0.0") := by
    intro place b there
    rcases received _ b there with before | ⟨x,inside,own⟩
    · obtain ⟨own,same⟩ := found _ b before
      exact ⟨congrArg Prod.fst own,same⟩
    · obtain rfl := List.mem_singleton.mp inside
      have same : "1.0.0" = "2.0.0" := congrArg Prod.snd own
      exact absurd same (by decide)
  refine ⟨s',?_,saved,valid',?_,?_⟩
  · have answered : targetChannel.request.run officialAnswer s = (.ok (.value secondCatalog),s) :=
      run_query Query.targetCatalog
    have asked : latest collate targetOptions false = latestRoutes collate targetChannel targetOptions false
      (latestLegacy collate targetOptions false) := rfl
    rw [asked,run_latestRoutes (C := targetChannel) calm timely_ targetChoice answered select_second]
    exact accepted
  · have recorded : s.Records (.legacy (officialLegacy "1.0.0")) := by
      refine ⟨.legacy (officialLegacy "1.0.0"),?_,rfl⟩
      rw [receipts,legacyReceipts,Table.lookup_insert]
      exact if_pos rfl
    obtain ⟨b,there,_⟩ := records _ recorded
    rw [← (before .legacy b there).2]
    exact there
  · exact fun place b there => (before place b there).1

theorem run_older {s : Home} (saved : s.targetCatalog = some ⟨0,secondCatalog⟩) (valid : s.Valid)
    (recorded : s.receipts.lookup (.legacy,"1.0.0") = some (.legacy (officialLegacy "1.0.0")))
    (alone : ∀ place b, s.receipts.lookup (place,"1.0.0") = some b → place = .legacy) :
    ((exact collate targetOptions "1.0.0").run officialAnswer s).1 = .ok (.legacy (officialLegacy "1.0.0")) := by
  have calm := calm_officialAnswer
  have timely_ : Timely officialAnswer targetChannel.family.fitsCatalog (targetChannel.saved s) := by
    intro c there
    have same : (⟨0,secondCatalog⟩ : Cached TargetReleaseCatalog) = c := Option.some.inj (saved.symm.trans there)
    rw [← same]
    exact ⟨second_fits,le_rfl⟩
  have unknown : (receipt "1.0.0" .target).run officialAnswer s = (.ok none,s) := by
    have absent : s.receipts.lookup (.target,"1.0.0") = none := by
      by_contra there
      obtain ⟨b,there⟩ := Option.ne_none_iff_exists'.mp there
      cases alone .target b there
    rw [run_receipt calm valid,absent]
  have known : (receipt "1.0.0" .legacy).run officialAnswer s = (.ok (some (.legacy (officialLegacy "1.0.0"))),s) := by
    rw [run_receipt calm valid,recorded]
  have none_ : (targetReceipt targetOptions "1.0.0").run officialAnswer s = (.ok none,s) :=
    (run_bind_ok (run_adoptedRoutes (C := targetChannel) calm timely_)).trans unknown
  have none' : (migrationReceipt targetOptions "1.0.0").run officialAnswer s = (.ok none,s) := rfl
  have suits : compatible targetOptions (.legacy (officialLegacy "1.0.0")) = .ok (.legacy (officialLegacy "1.0.0")) :=
    compatible_legacy rfl rfl
  have knows : s.Knows (.legacy (officialLegacy "1.0.0")) := by
    refine ⟨?_,?_⟩
    · intro b there
      have there : s.receipts.lookup (.legacy,"1.0.0") = some b := there
      rw [recorded] at there
      exact congrArg _ (Option.some.inj there).symm
    · intro place apart b there
      exact absurd (alone place b there) apart
  unfold exact
  rw [run_bind_ok (run_throwIfAborted calm),stable_first]
  simp only [Bool.true_eq_false,if_false]
  rw [run_bind_ok none_]
  simp only
  rw [run_bind_ok none']
  simp only
  rw [run_bind_ok known]
  simp only
  have unable : targetOptions.supportedMigrationPlans.isNone = true := rfl
  rw [if_pos unable]
  obtain ⟨s',remembered,_⟩ := run_remember calm valid knows
  have repaired : (repair targetOptions (.legacy (officialLegacy "1.0.0"))).run officialAnswer s =
      (.ok (.legacy (officialLegacy "1.0.0")),s') := by
    unfold repair
    rw [run_locked_job calm,suits,run_bind_ok (run_lift (.ok _))]
    exact remembered
  rw [repaired]

theorem call_returns {sys : Clients} (p : Nat) (request : Request) {b : ManagedReleaseBundle} {s' : Home}
    (kept : Steady sys) (fresh : sys.launched p = none) (free : sys.holder = none)
    (ran : (respond collate request).run officialAnswer sys.state = (.ok b,s')) :
    ∃ labels sys', Calls collate sys labels sys' ∧ Steady sys' ∧ sys'.holder = none ∧ sys'.state = s' ∧
      Returns sys' p request b ∧ ∀ q, q ≠ p → sys'.launched q = sys.launched q := by
  have answered : ∀ q, (fun (q : Query) (_ : q.Answer) => True) q (officialAnswer q) := fun _ => trivial
  obtain ⟨labels,sys',calls,ended,free',at_,others⟩ :=
    Sys.solo_call (respond_sound collate) answered request kept fresh free
  have same : (respond collate request).solo officialAnswer sys.state = (.ok b,s') := ran
  rw [same] at ended at_
  exact ⟨labels,sys',calls,Sys.run_kept (respond_sound collate) kept calls,free',ended,⟨_,at_⟩,others⟩

theorem calls_older : ∃ labels labels' sys sys', Calls collate (.initial .empty) labels sys ∧
    Calls collate sys labels' sys' ∧ Returns sys 0 (.exact legacyOptions "1.0.0") (.legacy (officialLegacy "1.0.0")) ∧
    targetChannel.Adopted sys.state ∧ sys.launched 2 = none ∧
    Returns sys' 2 (.exact targetOptions "1.0.0") (.legacy (officialLegacy "1.0.0")) := by
  have kept : Steady (.initial .empty) := Sys.kept_initial (fun _ _ leads => leads) coherent_empty
  obtain ⟨s₁,ran,same,receipts⟩ := run_legacy collate
  obtain ⟨first,sys₁,calls₁,kept₁,free₁,rfl,returns,others₁⟩ :=
    call_returns collate 0 (.exact legacyOptions "1.0.0") kept rfl rfl ran
  obtain ⟨s₂,adopting,saved,valid,recorded,alone⟩ := run_adopting collate same receipts
  have ran₂ : (respond collate (.latest targetOptions false)).run officialAnswer sys₁.state =
      (.ok (.target (officialTarget "2.0.0" "a")),s₂) := (run_bind_ok adopting).trans rfl
  have fresh₁ : sys₁.launched 1 = none := others₁ 1 (by decide)
  obtain ⟨second,sys₂,calls₂,kept₂,free₂,rfl,_,others₂⟩ := call_returns collate 1 (.latest targetOptions false) kept₁ fresh₁ free₁ ran₂
  have fresh₂ : sys₂.launched 2 = none := (others₂ 2 (by decide)).trans (others₁ 2 (by decide))
  have older := run_older collate saved valid recorded alone
  obtain ⟨third,sys₃,calls₃,_,_,_,returns',_⟩ :=
    call_returns collate 2 (.exact targetOptions "1.0.0") kept₂ fresh₂ free₂ (Prod.ext older rfl)
  refine ⟨first ++ second,third,sys₂,sys₃,calls₁.append calls₂,calls₃,?_,.inr ?_,fresh₂,returns'⟩
  · obtain ⟨began,at_⟩ := returns
    exact ⟨began,(others₂ 0 (by decide)).trans at_⟩
  · exact (congrArg Option.isSome saved).trans rfl

end Example

/-- The client that found a newer kind of release adopted returns a bundle of an older kind. -/
theorem older_kind_returned : ∃ labels labels' sys sys' b,
    Calls (fun a b => units a ≤ units b) (.initial .empty) labels sys ∧
    Calls (fun a b => units a ≤ units b) sys labels' sys' ∧ targetOptions.updateTargetProtocol.isSome = true ∧
    targetChannel.Adopted sys.state ∧ sys.launched 2 = none ∧ Returns sys' 2 (.exact targetOptions "1.0.0") b ∧
    b.namespace_ = .legacy := by
  obtain ⟨labels,labels',sys,sys',calls,calls',_,adopted,fresh,returns⟩ := calls_older fun a b => units a ≤ units b
  exact ⟨labels,labels',sys,sys',_,calls,calls',rfl,adopted,fresh,returns,rfl⟩

theorem discovery_safe_official : ∃ labels labels' sys sys' b b',
    Calls (fun a b => units a ≤ units b) (.initial .empty) labels sys ∧
    Calls (fun a b => units a ≤ units b) sys labels' sys' ∧
    Returns sys 0 (.exact legacyOptions "1.0.0") b ∧ Returns sys' 2 (.exact targetOptions "1.0.0") b' ∧
    managedReleaseBundleFingerprint b' = managedReleaseBundleFingerprint b := by
  obtain ⟨labels,labels',sys,sys',calls,calls',returns,_,_,returns'⟩ := calls_older fun a b => units a ≤ units b
  obtain ⟨saved,found,same⟩ := returns.records (kept_calls coherent_empty calls)
  have stays := (discovery_safe (fun a b => units a ≤ units b) .empty coherent_empty labels labels' sys sys' calls
    calls').2.1 _ _ _ found
  refine ⟨labels,labels',sys,sys',_,_,calls,calls',returns,returns',?_⟩
  exact ((stays.2 2 _ _ returns' rfl).1 rfl).trans same

end ATape.Release
