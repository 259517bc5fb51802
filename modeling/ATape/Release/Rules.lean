import ATape.Release.Selection

/-! Rules for the calls of release discovery, whatever they rely on and promise: what
each may find, what it returns and which writes it makes. -/
namespace ATape.Release
open Foundation Node Call

variable {T : Terms Home Query.Answer} {fails : Failure → Prop} {held : Bool} {s : Home} {α : Type}

/-- Every error may happen that does not accuse the server. -/
def Tolerant (fails : Failure → Prop) : Prop := ∀ failure, (∀ m, failure ≠ integrityError m) → fails failure

theorem Tolerant.unreadable (tolerant : Tolerant fails) : fails invalidState :=
  tolerant _ (by simp [invalidState,integrityError])

theorem safe_throwIfAborted (tolerant : Tolerant fails) {post : Unit → Home → Prop} (holds : post () s) :
    Safe T fails held s throwIfAborted post := by
  refine safe_bind (safe_query fun aborted _ => ?_)
  split
  next => exact safe_fail (tolerant _ nofun)
  next => exact safe_pure holds

theorem safe_locked_job (tolerant : Tolerant fails) {run : Job α} {post : α → Home → Prop}
    (safe : ∀ s', T.Others s s' → Safe T fails true s' run post) : Safe T fails false s (locked run) post := by
  refine safe_bind (safe_throwIfAborted tolerant (safe_locked (tolerant _ nofun) fun s' others => ?_))
  exact safe_bind (safe_throwIfAborted tolerant (safe s' others))

theorem safe_metadata {request : Job (Reply α)} {fits : α → Bool} {post : α → Home → Prop}
    (tolerant : ∀ failure, failure ≠ .missing → (∀ m, failure ≠ integrityError m) → fails failure)
    (asked : Safe T fails held s request fun reply s' =>
      (reply = .missing → fails .missing) ∧ ∀ v, reply = .value v → fits v = true → post v s') :
    Safe T fails held s (metadata request fits) post := by
  refine safe_bind (asked.mono fun reply s' _ answered => ?_)
  obtain ⟨absent,holds⟩ := answered
  cases reply with
  | value v =>
    refine safe_lift ?_ ?_
    · intro failure refused
      unfold decode at refused
      split at refused
      next => cases refused
      next =>
        cases refused
        exact tolerant _ nofun nofun
    · intro a decoded
      obtain ⟨fine,rfl⟩ := (decode_ok _ _ _).mp decoded
      exact holds _ rfl fine
  | other => exact safe_fail (tolerant _ nofun nofun)
  | missing => exact safe_fail (absent rfl)
  | unavailable message => exact safe_fail (tolerant _ nofun nofun)
  | unusable message => exact safe_fail (tolerant _ nofun nofun)
  | aborted => exact safe_fail (tolerant _ nofun nofun)

theorem safe_optional (unreadable : fails invalidState) {file : Home → Option α} {check : α → Job Bool}
    {post : Option α → Home → Prop} (absent : ∀ s', T.Sees held s s' → file s' = none → post none s')
    (there : ∀ s' a, T.Sees held s s' → file s' = some a →
      Safe T fails held s' (check a) fun fine d => fine = true → post (some a) d) :
    Safe T fails held s (optional file check) post := by
  refine safe_bind (safe_query fun readable _ => ?_)
  split
  next =>
    refine safe_bind (safe_look fun s' sees => ?_)
    cases found : file s' with
    | none => exact safe_pure (absent s' sees found)
    | some a =>
      refine safe_bind ((there s' a sees found).mono fun fine d _ holds => ?_)
      split
      next right => exact safe_pure (holds right)
      next => exact safe_fail unreadable
  next => exact safe_fail unreadable

theorem safe_receipt (unreadable : fails invalidState) {version : String} {place : Namespace}
    {post : Option ManagedReleaseBundle → Home → Prop}
    (holds : ∀ s', T.Sees held s s' → (∀ b, s'.receipts.lookup (place,version) = some b →
      b.namespace_ = place ∧ b.version = version) → post (s'.receipts.lookup (place,version)) s') :
    Safe T fails held s (receipt version place) post := by
  refine safe_optional unreadable ?_ ?_
  · intro s' sees absent
    refine absent ▸ holds s' sees fun b there => ?_
    rw [absent] at there
    cases there
  · intro s' bundle sees found
    refine safe_pure fun fine => found ▸ holds s' sees fun b there => ?_
    rw [found] at there
    cases there
    simp only [Bool.and_eq_true,decide_eq_true_eq] at fine
    exact ⟨fine.1.1,fine.2⟩

theorem safe_saved (unreadable : fails invalidState) {γ : Type} {file : Home → Option (Cached γ)} {fits : γ → Bool}
    {post : Option (Cached γ) → Home → Prop}
    (holds : ∀ s', T.Sees held s s' → (∀ c, file s' = some c → fits c.catalog = true) → post (file s') s') :
    Safe T fails held s (optional file (timely fits)) post := by
  refine safe_optional unreadable ?_ ?_
  · intro s' sees absent
    refine absent ▸ holds s' sees fun c there => ?_
    rw [absent] at there
    cases there
  · intro s' saved sees found
    refine safe_bind (safe_query fun now _ => safe_pure fun timely => ?_)
    refine found ▸ holds s' sees fun c there => ?_
    rw [found] at there
    cases there
    exact (Bool.and_eq_true _ _ ▸ timely).1

theorem safe_atomicJSON (tolerant : Tolerant fails) {f : Home → Home} {post : Unit → Home → Prop}
    (leads : T.To s (f s)) (own : T.Own s (f s)) (holds : post () (f s)) :
    Safe T fails true s (atomicJSON f) post := by
  refine safe_bind (safe_query fun outcome _ => ?_)
  cases outcome with
  | written => exact safe_put leads own holds
  | failed => exact safe_fail (tolerant _ nofun)
  | unconfirmed => exact safe_bind (safe_put leads own (safe_fail (tolerant _ nofun)))

theorem safe_each {f : α → Job Unit} {inv : Home → Prop} {finished : α → Home → Prop} {values : List α}
    (stable : ∀ a s s', T.To s s' → finished a s → finished a s')
    (step : ∀ a ∈ values, ∀ s', T.To s s' → inv s' → Safe T fails held s' (f a) fun _ d => inv d ∧ finished a d)
    (start : inv s) : Safe T fails held s (each f values) fun _ d => inv d ∧ ∀ a ∈ values, finished a d := by
  induction values generalizing s with
  | nil => exact safe_pure ⟨start,nofun⟩
  | cons value values ih =>
    refine (step value List.mem_cons_self s (T.refl s) start).then ?_
    rintro _ s' leads ⟨kept,first⟩
    have rest := ih (fun a member d later => step a (List.mem_cons_of_mem _ member) d (T.trans leads later)) kept
    refine rest.mono ?_
    rintro _ d later ⟨kept,others⟩
    refine ⟨kept,?_⟩
    intro a member
    rcases List.mem_cons.mp member with rfl | member
    · exact stable _ _ _ later first
    · exact others a member

/-! Receipts. -/

/-- The receipts of a home agree with a bundle: the one in its own place is the same, those
of the same version in other places have the same packages. -/
def Home.Knows (home : Home) (bundle : ManagedReleaseBundle) : Prop :=
  (∀ saved, home.receipts.lookup (bundle.namespace_,bundle.version) = some saved →
    managedReleaseBundleFingerprint saved = managedReleaseBundleFingerprint bundle) ∧
  ∀ place, place ≠ bundle.namespace_ → ∀ other, home.receipts.lookup (place,bundle.version) = some other →
    releaseBundleFingerprint other.base = releaseBundleFingerprint bundle.base

/-- A bundle that has a receipt. -/
def Home.Records (home : Home) (bundle : ManagedReleaseBundle) : Prop :=
  ∃ saved, home.receipts.lookup (bundle.namespace_,bundle.version) = some saved ∧
    managedReleaseBundleFingerprint saved = managedReleaseBundleFingerprint bundle

theorem any_differs {saved : Option ManagedReleaseBundle} {bundle : ManagedReleaseBundle} :
    saved.any (fun saved => managedReleaseBundleFingerprint saved ≠ managedReleaseBundleFingerprint bundle) = true ↔
      ∃ found, saved = some found ∧
        managedReleaseBundleFingerprint found ≠ managedReleaseBundleFingerprint bundle := by
  cases saved <;> simp

theorem safe_assertKnownBundle (tolerant : Tolerant fails) {bundle : ManagedReleaseBundle}
    {post : Option ManagedReleaseBundle → Home → Prop} (accused : s.Knows bundle ∨ ∀ m, fails (integrityError m))
    (holds : s.Knows bundle → post (s.receipts.lookup (bundle.namespace_,bundle.version)) s) :
    Safe T fails true s (assertKnownBundle bundle) post := by
  refine safe_bind (safe_receipt tolerant.unreadable fun s' sees _ => ?_)
  rw [Evolution.sees_held] at sees
  subst sees
  refine safe_bind (safe_failWhen ?_ fun same => ?_)
  · intro changed
    rcases accused with knows | may
    · obtain ⟨saved,found,differs⟩ := any_differs.mp changed
      exact absurd (knows.1 saved found) differs
    · exact may _
  · have own : ∀ saved, s'.receipts.lookup (bundle.namespace_,bundle.version) = some saved →
        managedReleaseBundleFingerprint saved = managedReleaseBundleFingerprint bundle := by
      intro saved found
      by_contra differs
      exact same (any_differs.mpr ⟨saved,found,differs⟩)
    have checked : Safe T fails true s' (each (assertNamespace bundle)
        ([Namespace.legacy,.migration,.target].filter (· ≠ bundle.namespace_))) fun _ d => d = s' ∧
          ∀ place ∈ [Namespace.legacy,.migration,.target].filter (· ≠ bundle.namespace_), ∀ other,
            s'.receipts.lookup (place,bundle.version) = some other →
              releaseBundleFingerprint other.base = releaseBundleFingerprint bundle.base := by
      refine safe_each (fun _ _ _ _ holds => holds) ?_ rfl
      intro place member d _ still
      subst still
      refine safe_bind (safe_receipt tolerant.unreadable fun d' sees _ => ?_)
      rw [Evolution.sees_held] at sees
      subst sees
      cases found : d'.receipts.lookup (place,bundle.version) with
      | none => exact safe_pure ⟨rfl,nofun⟩
      | some other =>
        refine safe_failWhen ?_ fun same => ⟨rfl,?_⟩
        · intro differs
          rcases accused with knows | may
          · have apart : place ≠ bundle.namespace_ := by
              simpa using (List.mem_filter.mp member).2
            exact absurd (knows.2 place apart other found) differs
          · exact may _
        · intro other' found'
          cases found'
          exact not_not.mp same
    refine checked.then fun _ d _ both => ?_
    obtain ⟨rfl,others⟩ := both
    refine safe_pure (holds ⟨own,?_⟩)
    intro place apart other found
    refine others place ?_ other found
    refine List.mem_filter.mpr ⟨?_,by simpa using apart⟩
    cases place <;> simp

/-- The saved catalogs are the same. -/
structure Home.SameCatalogs (home home' : Home) : Prop where
  legacy : home'.catalog = home.catalog
  migration : home'.migrationCatalog = home.migrationCatalog
  target : home'.targetCatalog = home.targetCatalog

theorem Home.SameCatalogs.refl (home : Home) : home.SameCatalogs home := ⟨rfl,rfl,rfl⟩

theorem Home.SameCatalogs.trans {a b c : Home} (first : a.SameCatalogs b) (second : b.SameCatalogs c) :
    a.SameCatalogs c :=
  ⟨second.legacy.trans first.legacy,second.migration.trans first.migration,second.target.trans first.target⟩

def Home.marked (home : Home) : Namespace → Home
  | .legacy => home
  | .migration => home.markMigration
  | .target => home.markTarget

/-- The terms allow a bundle to be remembered. -/
structure Remembers (T : Terms Home Query.Answer) (s : Home) (bundle : ManagedReleaseBundle) : Prop where
  mark : ∀ h, T.To s h → h.Knows bundle → T.To h (h.marked bundle.namespace_) ∧ T.Own h (h.marked bundle.namespace_)
  record : ∀ h, T.To s h → h.Knows bundle → h.receipts.lookup (bundle.namespace_,bundle.version) = none →
    T.To h (h.record bundle) ∧ T.Own h (h.record bundle)

@[simp] theorem receipts_marked (home : Home) (place : Namespace) : (home.marked place).receipts = home.receipts := by
  cases place <;> rfl

theorem same_marked (home : Home) (place : Namespace) : home.SameCatalogs (home.marked place) := by
  cases place <;> exact ⟨rfl,rfl,rfl⟩

theorem knows_marked {home : Home} {place : Namespace} {bundle : ManagedReleaseBundle} (knows : home.Knows bundle) :
    (home.marked place).Knows bundle := by
  unfold Home.Knows
  rw [receipts_marked]
  exact knows

theorem records_record (home : Home) (bundle : ManagedReleaseBundle) : (home.record bundle).Records bundle :=
  ⟨bundle,by simp [Home.record],rfl⟩

theorem safe_marker (unreadable : fails invalidState) {post : Bool → Home → Prop} {file : Home → Bool}
    (holds : ∀ s', T.Sees held s s' → post (file s') s') : Safe T fails held s (marker file) post := by
  refine safe_bind (safe_optional unreadable ?_ ?_)
  · intro s' sees absent
    have off : file s' = false := by
      simpa using absent
    have told := holds s' sees
    rw [off] at told
    exact safe_pure told
  · intro s' a sees there
    have on : file s' = true := by
      by_contra off
      simp [off] at there
    have told := holds s' sees
    rw [on] at told
    exact safe_pure fun _ => safe_pure told

theorem safe_adopt (tolerant : Tolerant fails) {bundle : ManagedReleaseBundle} {post : Unit → Home → Prop}
    (leads : T.To s (s.marked bundle.namespace_)) (own : T.Own s (s.marked bundle.namespace_)) (still : post () s)
    (marked : post () (s.marked bundle.namespace_)) : Safe T fails true s (adopt bundle) post := by
  unfold adopt
  split
  next place =>
    rw [place] at leads own marked
    refine safe_bind (safe_marker tolerant.unreadable fun s' sees => ?_)
    rw [Evolution.sees_held] at sees
    subst sees
    split
    next => exact safe_pure still
    next => exact safe_atomicJSON tolerant leads own marked
  next place =>
    rw [place] at leads own marked
    refine safe_bind (safe_marker tolerant.unreadable fun s' sees => ?_)
    rw [Evolution.sees_held] at sees
    subst sees
    split
    next => exact safe_pure still
    next => exact safe_atomicJSON tolerant leads own marked
  next => exact safe_pure still

theorem safe_remember (tolerant : Tolerant fails) {bundle : ManagedReleaseBundle}
    {post : ManagedReleaseBundle → Home → Prop} (remembers : Remembers T s bundle)
    (accused : s.Knows bundle ∨ ∀ m, fails (integrityError m))
    (holds : ∀ s', T.To s s' → s.SameCatalogs s' → s'.Records bundle → post bundle s') :
    Safe T fails true s (remember bundle) post := by
  refine safe_bind (safe_assertKnownBundle tolerant accused fun knows => ?_)
  obtain ⟨leads,own⟩ := remembers.mark s (T.refl s) knows
  have adopted : Safe T fails true s (adopt bundle) fun _ d => d = s ∨ d = s.marked bundle.namespace_ :=
    safe_adopt tolerant leads own (.inl rfl) (.inr rfl)
  refine adopted.then fun _ d to_ either => ?_
  have known : d.Knows bundle := by
    rcases either with rfl | rfl
    · exact knows
    · exact knows_marked knows
  have same : s.SameCatalogs d := by
    rcases either with rfl | rfl
    · exact .refl d
    · exact same_marked s _
  have receipts : d.receipts = s.receipts := by
    rcases either with rfl | rfl
    · rfl
    · exact receipts_marked s _
  unfold recordNew
  split
  next there =>
    obtain ⟨saved,found⟩ := Option.isSome_iff_exists.mp there
    refine safe_bind (safe_pure (safe_pure (holds d to_ same ⟨saved,?_,knows.1 saved found⟩)))
    rw [receipts]
    exact found
  next absent =>
    have none_ : d.receipts.lookup (bundle.namespace_,bundle.version) = none := by
      rw [receipts]
      simpa using absent
    obtain ⟨leads',own'⟩ := remembers.record d to_ known none_
    exact safe_bind (safe_atomicJSON tolerant leads' own'
      (safe_pure (holds _ (T.trans to_ leads') (same.trans ⟨rfl,rfl,rfl⟩) (records_record d bundle))))

/-- Receipts, markers and saved catalogs stay. -/
structure Home.Grows (home home' : Home) : Prop where
  receipts : ∀ k b, home.receipts.lookup k = some b → home'.receipts.lookup k = some b
  migrationAdopted : home.migrationAdopted = true → home'.migrationAdopted = true
  targetAdopted : home.targetAdopted = true → home'.targetAdopted = true
  migrationCatalog : home.migrationCatalog.isSome = true → home'.migrationCatalog.isSome = true
  targetCatalog : home.targetCatalog.isSome = true → home'.targetCatalog.isSome = true

theorem Home.Grows.refl (home : Home) : home.Grows home := ⟨fun _ _ => id,id,id,id,id⟩

theorem Home.Grows.trans {a b c : Home} (first : a.Grows b) (second : b.Grows c) : a.Grows c :=
  ⟨fun k x found => second.receipts k x (first.receipts k x found),second.migrationAdopted ∘ first.migrationAdopted,
    second.targetAdopted ∘ first.targetAdopted,second.migrationCatalog ∘ first.migrationCatalog,
    second.targetCatalog ∘ first.targetCatalog⟩

theorem grows_marked (home : Home) (place : Namespace) : home.Grows (home.marked place) := by
  cases place
  · exact .refl home
  · exact ⟨fun _ _ => id,fun _ => rfl,id,id,id⟩
  · exact ⟨fun _ _ => id,id,fun _ => rfl,id,id⟩

theorem grows_record {home : Home} {bundle : ManagedReleaseBundle}
    (absent : home.receipts.lookup (bundle.namespace_,bundle.version) = none) : home.Grows (home.record bundle) := by
  refine ⟨?_,id,id,id,id⟩
  intro k b found
  rw [Home.record,Table.lookup_insert,if_neg]
  · exact found
  · rintro rfl
    rw [absent] at found
    cases found

theorem Home.Grows.records {home home' : Home} {bundle : ManagedReleaseBundle} (grows : home.Grows home')
    (records : home.Records bundle) : home'.Records bundle := by
  obtain ⟨saved,found,same⟩ := records
  exact ⟨saved,grows.receipts _ _ found,same⟩

section Bundles
variable {γ : Type} {wrap : γ → ManagedReleaseBundle} {bundles : List γ}

theorem safe_assertAll (tolerant : Tolerant fails)
    (accused : (∀ b ∈ bundles, s.Knows (wrap b)) ∨ ∀ m, fails (integrityError m)) :
    Safe T fails true s (each (fun b => do let _ ← assertKnownBundle (wrap b)) bundles)
      fun _ d => d = s ∧ ∀ b ∈ bundles, s.Knows (wrap b) := by
  refine safe_each (fun _ _ _ _ holds => holds) ?_ rfl
  intro b member d _ still
  subst still
  exact safe_bind (safe_assertKnownBundle tolerant (accused.imp (· b member) id) fun knows => safe_pure ⟨rfl,knows⟩)

theorem safe_rememberAll (tolerant : Tolerant fails) (grows : ∀ a b, T.To a b → a.Grows b)
    (remembers : ∀ b ∈ bundles, ∀ d, T.To s d → Remembers T d (wrap b))
    (accused : (∀ b ∈ bundles, ∀ d, T.To s d → d.Knows (wrap b)) ∨ ∀ m, fails (integrityError m)) :
    Safe T fails true s (each (fun b => do let _ ← remember (wrap b)) bundles)
      fun _ d => s.SameCatalogs d ∧ ∀ b ∈ bundles, d.Records (wrap b) := by
  refine safe_each (fun b a d later records => (grows a d later).records records) ?_ (.refl s)
  intro b member d leads same
  refine safe_bind (safe_remember tolerant (remembers b member d leads) (accused.imp (· b member d leads) id) ?_)
  exact fun d' _ same' records => safe_pure ⟨same.trans same',records⟩

end Bundles

theorem compatible_ok {o : Options} {value bundle : ManagedReleaseBundle} (ok : compatible o value = .ok bundle) :
    bundle = value ∧ compatible o bundle = .ok bundle := by
  have same : bundle = value := by
    simp only [compatible,bind_ok,decode_ok] at ok
    obtain ⟨_,⟨_,rfl⟩,ok⟩ := ok
    split at ok
    next => cases ok
    next => exact ((pure_ok _ _).mp ok).symm
  subst same
  exact ⟨rfl,ok⟩

theorem compatible_error {o : Options} {value : ManagedReleaseBundle} {failure : Failure}
    (refused : compatible o value = .error failure) : ∀ m, failure ≠ integrityError m := by
  intro m
  unfold compatible decode at refused
  split at refused
  next =>
    rw [ok_bind] at refused
    split at refused
    next =>
      cases refused
      simp [metadataError,integrityError]
    next => cases refused
  next =>
    cases refused
    simp [integrityError]

theorem safe_fromCache (tolerant : Tolerant fails) {o : Options} {bundle : Except Failure ManagedReleaseBundle}
    {freshness : Freshness} {post : DiscoveredRelease → Home → Prop}
    (told : ∀ failure, bundle = .error failure → fails failure)
    (remembers : ∀ b, bundle = .ok b → compatible o b = .ok b → ∀ d, T.Others s d → Remembers T d b)
    (accused : ∀ b, bundle = .ok b → ∀ d, T.Others s d → d.Knows b ∨ ∀ m, fails (integrityError m))
    (holds : ∀ b, bundle = .ok b → compatible o b = .ok b → ∀ d, T.To s d → d.Records b → post ⟨b,freshness⟩ d) :
    Safe T fails false s (fromCache o bundle freshness) post := by
  refine safe_bind (safe_lift told fun b same => safe_locked_job tolerant fun s' others => ?_)
  refine safe_bind (safe_lift (fun failure refused => tolerant _ (compatible_error refused)) fun known ok => ?_)
  obtain ⟨rfl,fine⟩ := compatible_ok ok
  refine safe_bind (safe_remember tolerant (remembers _ same fine s' others) (accused _ same s' others) ?_)
  exact fun d later _ records => safe_pure (holds _ same fine d (T.trans (T.others_to others) later) records)

theorem safe_lasting {γ : Type} {cached : Bool} {saved : Option (Cached γ)} {post : Option γ → Home → Prop}
    (none_ : post none s) (some_ : ∀ c, saved = some c → post (some c.catalog) s) :
    Safe T fails held s (lasting cached saved) post := by
  unfold lasting
  split
  next saved =>
    refine safe_bind (safe_query fun now _ => safe_pure ?_)
    split
    next => exact some_ saved rfl
    next => exact none_
  next => exact safe_pure none_

end ATape.Release
