import ATape.Release.Rules

/-! Rules for the latest release: what a client returns from a saved catalog, from one
that it asked for, and from an older kind of catalog. -/
namespace ATape.Release
open Foundation Node Call

variable {T : Terms Home Query.Answer} {fails : Failure → Prop} {s : Home} {collate : String → String → Bool}

section Routes
variable {β ρ : Type} {C : Channel β ρ}

/-- The files of a channel are among those that stay and those that are saved. -/
structure Channel.Placed (C : Channel β ρ) : Prop where
  same : ∀ {a b : Home}, a.SameCatalogs b → C.saved b = C.saved a
  adopted : ∀ {a b : Home}, a.Grows b → C.adopted a = true → C.adopted b = true
  saved : ∀ {a b : Home}, a.Grows b → (C.saved a).isSome = true → (C.saved b).isSome = true

theorem migration_placed : migrationChannel.Placed where
  same same := same.migration
  adopted grows := grows.migrationAdopted
  saved grows := grows.migrationCatalog

theorem target_placed : targetChannel.Placed where
  same same := same.target
  adopted grows := grows.targetAdopted
  saved grows := grows.targetCatalog

def Channel.Adopted (C : Channel β ρ) (home : Home) : Prop := C.adopted home = true ∨ (C.saved home).isSome = true

theorem Channel.Placed.grown {a b : Home} (placed : C.Placed) (grows : a.Grows b) (adopted : C.Adopted a) :
    C.Adopted b := adopted.imp (placed.adopted grows) (placed.saved grows)

theorem safe_adoptedRoutes (unreadable : fails invalidState) (grows : ∀ a b, T.To a b → a.Grows b) (placed : C.Placed)
    {held : Bool} : Safe T fails held s (adoptedRoutes C) fun found d => T.Sees held s d ∧ (C.Adopted s → found = true) := by
  have seen : ∀ {d d' : Home}, T.Sees held s d → T.Sees held d d' → T.Sees held s d' := by
    intro d d' first second
    cases held
    · exact Evolution.sees_free.mpr (T.others_trans (Evolution.sees_free.mp first) (Evolution.sees_free.mp second))
    · rw [Evolution.sees_held] at first second ⊢
      exact second.trans first
  refine safe_bind (safe_query fun first _ => ?_)
  split
  next =>
    refine safe_bind (safe_marker unreadable fun d sees => safe_bind (safe_saved unreadable fun d' sees' _ => ?_))
    refine safe_pure ⟨seen sees sees',?_⟩
    rintro (marked | saved)
    · simp [placed.adopted (grows _ _ sees.leads) marked]
    · simp [placed.saved (grows _ _ (T.trans sees.leads sees'.leads)) saved]
  next =>
    refine safe_bind (safe_saved unreadable fun d sees _ => safe_bind (safe_marker unreadable fun d' sees' => ?_))
    refine safe_pure ⟨seen sees sees',?_⟩
    rintro (marked | saved)
    · simp [placed.adopted (grows _ _ (T.trans sees.leads sees'.leads)) marked]
    · simp [placed.saved (grows _ _ sees.leads) saved]

/-- A catalog that is not before a saved one. -/
def Succeeds (collate : String → String → Bool) (C : Channel β ρ) (previous catalog : Catalog β ρ) : Prop :=
  ¬(catalog.revision < previous.revision ∨ catalog.revision = previous.revision ∧
    canonicalRoutes collate C catalog ≠ canonicalRoutes collate C previous) ∧ routesAdvance C previous catalog = true

theorem safe_assertRoutes {held : Bool} {previous : Option (Cached (Catalog β ρ))} {catalog : Catalog β ρ}
    {post : Unit → Home → Prop}
    (accused : (∀ c, previous = some c → Succeeds collate C c.catalog catalog) ∨ ∀ m, fails (integrityError m))
    (holds : (∀ c, previous = some c → routesAdvance C c.catalog catalog = true) → post () s) :
    Safe T fails held s (assertRoutes collate C previous catalog) post := by
  cases previous with
  | none => exact safe_pure (holds nofun)
  | some previous =>
    have told : ∀ bad m, (bad → ¬ Succeeds collate C previous.catalog catalog) → bad → fails (integrityError m) := by
      intro bad m wrong holds
      rcases accused with succeeds | may
      · exact absurd (succeeds previous rfl) (wrong holds)
      · exact may m
    refine safe_bind (safe_failWhen (told _ _ fun bad both => both.1 bad) fun _ => ?_)
    refine safe_failWhen (told _ _ fun bad both => ?_) fun advance => holds ?_
    · rw [both.2] at bad
      cases bad
    · rintro c same
      cases same
      simpa using advance

theorem safe_acceptRoutes (tolerant : Tolerant fails) (grows : ∀ a b, T.To a b → a.Grows b) (placed : C.Placed)
    {catalog : Catalog β ρ} {selected : ManagedReleaseBundle} {post : DiscoveredRelease → Home → Prop}
    (advances : (∀ d c, T.To s d → C.saved d = some c → Succeeds collate C c.catalog catalog) ∨
      ∀ m, fails (integrityError m))
    (accused : (∀ b ∈ catalog.bundles, ∀ d, T.To s d → d.Knows (C.wrap b)) ∨ ∀ m, fails (integrityError m))
    (remembers : ∀ b ∈ catalog.bundles, ∀ d, T.To s d → Remembers T d (C.wrap b))
    (adoption : ∀ d, T.To s d → (∀ b ∈ catalog.bundles, d.Knows (C.wrap b)) →
      Safe T fails true d C.adoption fun _ d' => d.SameCatalogs d')
    (saves : ∀ d now, T.To s d → (∀ b ∈ catalog.bundles, d.Records (C.wrap b)) →
      (∀ c, C.saved d = some c → C.family.fitsCatalog c.catalog = true ∧ routesAdvance C c.catalog catalog = true) →
        T.To d (C.save ⟨now,catalog⟩ d) ∧ T.Own d (C.save ⟨now,catalog⟩ d) ∧
          post ⟨selected,.fresh⟩ (C.save ⟨now,catalog⟩ d)) :
    Safe T fails false s (acceptRoutes collate C catalog selected) post := by
  refine safe_locked_job tolerant fun d others => ?_
  have begun := T.others_to others
  refine safe_bind (safe_saved tolerant.unreadable fun d' sees fitting => ?_)
  rw [Evolution.sees_held] at sees
  subst sees
  refine safe_bind (safe_assertRoutes (advances.imp (fun all c saved => all d' c begun saved) id) fun advance => ?_)
  have known := accused.imp (fun all b member => all b member d' begun) id
  refine safe_bind ((safe_assertAll tolerant known).mono fun _ e _ both => ?_)
  obtain ⟨rfl,knows⟩ := both
  refine (adoption e begun knows).then fun _ f later same => ?_
  have remembered : Safe T fails true f (each (fun b => do let _ ← remember (C.wrap b)) catalog.bundles)
      fun _ d => f.SameCatalogs d ∧ ∀ b ∈ catalog.bundles, d.Records (C.wrap b) := by
    refine safe_rememberAll tolerant grows ?_ (accused.imp ?_ id)
    · exact fun b member d to_ => remembers b member d (T.trans begun (T.trans later to_))
    · exact fun all b member d to_ => all b member d (T.trans begun (T.trans later to_))
  refine remembered.then fun _ g last both => ?_
  obtain ⟨same',records⟩ := both
  refine safe_bind (safe_query fun now _ => ?_)
  have saved : C.saved g = C.saved e := placed.same (same.trans same')
  obtain ⟨leads,own,holds⟩ := saves g now (T.trans begun (T.trans later last)) records fun c found => by
    rw [saved] at found
    exact ⟨fitting c found,advance c found⟩
  exact safe_bind (safe_atomicJSON tolerant leads own (safe_pure holds))

theorem selectRoutes_ok {o : Options} {c : Catalog β ρ} {b : ManagedReleaseBundle} :
    selectRoutes C o c = .ok b ↔ ∃ selected, C.select o c = .ok selected ∧ b = C.wrap selected := by
  simp only [selectRoutes,bind_ok,pure_ok]
  exact exists_congr fun _ => and_congr_right fun _ => eq_comm

theorem selectRoutes_error {o : Options} {c : Catalog β ρ} {failure : Failure} (choice : Choice C)
    (refused : selectRoutes C o c = .error failure) : ∀ m, failure ≠ integrityError m := by
  unfold selectRoutes at refused
  cases selected : C.select o c with
  | error other =>
    rw [selected,error_bind] at refused
    cases refused
    exact choice.tells o c _ selected
  | ok b =>
    rw [selected,ok_bind] at refused
    cases refused

/-- The latest release is that of a saved catalog, that of a catalog that was asked for, or,
where none was adopted and there is none, one of an older kind. -/
theorem safe_latestRoutes (tolerant : Tolerant fails) (grows : ∀ a b, T.To a b → a.Grows b) (placed : C.Placed)
    (choice : Choice C) {o : Options} {cached : Bool} {fallback : Job DiscoveredRelease}
    {post : DiscoveredRelease → Home → Prop} {missing : Prop} {replied : Catalog β ρ → Prop}
    (asked : ∀ {own : Failure → Prop} d, Safe T own false d C.request fun reply d' =>
      d' = d ∧ (reply = .missing → missing) ∧ ∀ c, reply = .value c → replied c)
    (offline : ∀ m d c b, T.To s m → T.To m d → C.saved m = some c → C.select o c.catalog = .ok b →
      Remembers T d (C.wrap b) ∧ (d.Knows (C.wrap b) ∨ ∀ m, fails (integrityError m)) ∧
        ∀ d' freshness, T.To d d' → d'.Records (C.wrap b) → post ⟨C.wrap b,freshness⟩ d')
    (online : ∀ d c b, T.To s d → replied c → C.family.fitsCatalog c = true → C.select o c = .ok b →
      Safe T fails false d (acceptRoutes collate C c (C.wrap b)) post)
    (late : missing → ¬C.Adopted s → (∀ m, fails (integrityError m)) ∧ ∀ d, T.To s d →
      Safe T fails false d fallback fun r d' => ∀ d'', T.To d' d'' → post r d'') :
    Safe T fails false s (latestRoutes collate C o cached fallback) post := by
  have fromSaved : ∀ m d c freshness, T.To s m → T.To m d → C.saved m = some c →
      Safe T fails false d (fromCache o (selectRoutes C o c.catalog) freshness) post := by
    intro m d c freshness first second saved
    have at_ : ∀ b, selectRoutes C o c.catalog = .ok b → ∀ d', T.To d d' →
        Remembers T d' b ∧ (d'.Knows b ∨ ∀ m, fails (integrityError m)) ∧
          ∀ e freshness, T.To d' e → e.Records b → post ⟨b,freshness⟩ e := by
      intro b ok d' leads
      obtain ⟨selected,select,rfl⟩ := selectRoutes_ok.mp ok
      exact offline m d' c selected first (T.trans second leads) saved select
    refine safe_fromCache tolerant (fun failure refused => tolerant _ (selectRoutes_error choice refused)) ?_ ?_ ?_
    · exact fun b ok _ d' others => (at_ b ok d' (T.others_to others)).1
    · exact fun b ok d' others => (at_ b ok d' (T.others_to others)).2.1
    · intro b ok _ d' leads records
      exact (at_ b ok d' leads).2.2 d' freshness (T.refl d') records
  refine safe_bind (safe_throwIfAborted tolerant (safe_bind (safe_saved tolerant.unreadable fun m seen _ => ?_)))
  have first := seen.leads
  refine (safe_adoptedRoutes tolerant.unreadable grows placed).then fun adopted d leads found => ?_
  refine safe_bind (safe_lasting ?_ fun c saved => fromSaved m d c .fresh first leads saved)
  have asking : Safe T (fun failure => (failure = .missing → missing) ∧ ∀ m, failure ≠ integrityError m) false d
      (metadata C.request C.family.fitsCatalog) fun c d' => d' = d ∧ replied c ∧ C.family.fitsCatalog c = true := by
    refine safe_metadata (fun failure there other => ⟨fun absent => absurd absent there,other⟩) ?_
    refine (asked d).mono fun reply d' _ answered => ?_
    obtain ⟨rfl,absent,value⟩ := answered
    exact ⟨fun same => ⟨fun _ => absent same,nofun⟩,fun c same fits => ⟨rfl,value c same,fits⟩⟩
  refine safe_bind (asking.attempt ?_ ?_)
  · intro cause e later own
    refine safe_bind (safe_query fun aborted _ => ?_)
    split
    next => exact safe_fail (tolerant _ own.2)
    next =>
      split
      next absent =>
        have absent : adopted = false ∧ cause = .missing := by
          simpa using absent
        have fresh : ¬C.Adopted s := by
          intro already
          have told := found.2 (placed.grown (grows _ _ first) already)
          rw [absent.1] at told
          cases told
        obtain ⟨may,older⟩ := late (own.1 absent.2) fresh
        refine (older e (T.trans first (T.trans leads later))).then fun r e' _ holds => ?_
        refine safe_locked_job tolerant fun e'' others => ?_
        refine (safe_adoptedRoutes tolerant.unreadable grows placed).then fun again e₃ _ both => ?_
        rw [Evolution.sees_held] at both
        obtain ⟨rfl,_⟩ := both
        split
        next => exact safe_fail (may _)
        next => exact safe_pure (holds e₃ (T.others_to others))
      next =>
        cases saved : C.saved m with
        | none => exact safe_fail (tolerant _ own.2)
        | some c =>
          simp only
          split
          next => exact fromSaved m e c .stale first (T.trans leads later) saved
          next => exact safe_fail (tolerant _ own.2)
  · rintro c e later ⟨rfl,answered,fits⟩
    refine safe_bind (safe_lift (fun failure refused => tolerant _ (selectRoutes_error choice refused)) fun b ok => ?_)
    obtain ⟨selected,select,rfl⟩ := selectRoutes_ok.mp ok
    refine safe_bind (safe_lift (fun failure refused => tolerant _ (compatible_error refused)) fun b' fine => ?_)
    obtain ⟨rfl,_⟩ := compatible_ok fine
    exact online e c selected (T.trans first leads) answered fits select

end Routes
end ATape.Release
