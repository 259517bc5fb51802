import ATape.Release.Latest

/-! Calls that nothing disturbs: the caller does not abort, files can be read and written
and the lock is free. Such a call returns, or it rejects for what the server answered. -/
namespace ATape.Release
open Foundation Node Call

/-- Answers with which no call is cut short. -/
structure Calm (answer : ∀ q : Query, q.Answer) : Prop where
  aborted : answer .aborted = false
  readable : answer .readable = true
  write : answer .write = .written

def Home.Valid (home : Home) : Prop :=
  ∀ place version b, home.receipts.lookup (place,version) = some b →
    b.namespace_ = place ∧ b.fits = true ∧ b.version = version

variable {answer : ∀ q : Query, q.Answer} {s s' : Home} {α : Type}

theorem run_throwIfAborted (calm : Calm answer) : throwIfAborted.run answer s = (.ok (),s) := by
  refine (run_bind_ok (a := false) ?_).trans rfl
  rw [← calm.aborted]
  rfl

theorem run_locked_job (calm : Calm answer) (run : Job α) : (locked run).run answer s = run.run answer s := by
  refine (run_bind_ok (run_throwIfAborted calm)).trans ?_
  rw [run_locked]
  exact run_bind_ok (run_throwIfAborted calm)

theorem run_metadata {request : Job (Reply α)} {fits : α → Bool} {value : α}
    (answered : request.run answer s = (.ok (.value value),s)) (decodes : fits value = true) :
    (metadata request fits).run answer s = (.ok value,s) := by
  refine (run_bind_ok answered).trans ?_
  simp [decode,decodes]

theorem run_isReadable (calm : Calm answer) : isReadable.run answer s = (.ok true,s) := by
  rw [← calm.readable]
  rfl

theorem run_optional (calm : Calm answer) {file : Home → Option α} {check : α → Job Bool}
    (fine : ∀ a, file s = some a → (check a).run answer s = (.ok true,s)) :
    (optional file check).run answer s = (.ok (file s),s) := by
  refine (run_bind_ok (run_isReadable calm)).trans ((run_bind_ok (run_look file)).trans ?_)
  cases found : file s with
  | none => rfl
  | some a => exact run_bind_ok (fine a found)

theorem run_receipt (calm : Calm answer) (valid : s.Valid) (version : String) (place : Namespace) :
    (receipt version place).run answer s = (.ok (s.receipts.lookup (place,version)),s) := by
  refine run_optional calm ?_
  intro b found
  obtain ⟨there,fits,same⟩ := valid place version b found
  simp [there,fits,same]

/-- A saved catalog that fits and is not from the future. -/
def Timely {γ : Type} (answer : ∀ q : Query, q.Answer) (fits : γ → Bool) (saved : Option (Cached γ)) : Prop :=
  ∀ c, saved = some c → fits c.catalog = true ∧ c.checkedAt ≤ answer .clock

theorem run_saved (calm : Calm answer) {γ : Type} {file : Home → Option (Cached γ)} {fits : γ → Bool}
    (timely_ : Timely answer fits (file s)) : (optional file (timely fits)).run answer s = (.ok (file s),s) := by
  refine run_optional calm ?_
  intro c found
  obtain ⟨fine,before⟩ := timely_ c found
  refine (run_bind_ok (run_query Query.clock)).trans ?_
  simp [fine,before]

theorem run_atomicJSON (calm : Calm answer) (f : Home → Home) : (atomicJSON f).run answer s = (.ok (),f s) := by
  refine (run_bind_ok (a := .written) ?_).trans rfl
  rw [← calm.write]
  rfl

theorem run_marker (calm : Calm answer) (file : Home → Bool) : (marker file).run answer s = (.ok (file s),s) := by
  refine (run_bind_ok (run_optional calm fun _ _ => rfl)).trans ?_
  cases file s <;> rfl

theorem run_each {f : α → Job Unit} {inv : Home → Prop} {finished : α → Home → Prop} {values : List α}
    (step : ∀ a ∈ values, ∀ s, inv s → ∃ s', (f a).run answer s = (.ok (),s') ∧ inv s' ∧ finished a s' ∧
      ∀ b, finished b s → finished b s') (start : inv s) :
    ∃ s', (each f values).run answer s = (.ok (),s') ∧ inv s' ∧ (∀ a ∈ values, finished a s') ∧
      ∀ b, finished b s → finished b s' := by
  induction values generalizing s with
  | nil => exact ⟨s,rfl,start,nofun,fun _ => id⟩
  | cons value values ih =>
    obtain ⟨m,first,kept,done,still⟩ := step value List.mem_cons_self s start
    obtain ⟨s',rest,kept',done',still'⟩ := ih (fun a member => step a (List.mem_cons_of_mem _ member)) kept
    refine ⟨s',(run_bind_ok first).trans rest,kept',?_,fun b before => still' b (still b before)⟩
    intro a member
    rcases List.mem_cons.mp member with rfl | later
    · exact still' _ done
    · exact done' a later

theorem run_each_still {f : α → Job Unit} {values : List α} (fine : ∀ a ∈ values, (f a).run answer s = (.ok (),s)) :
    (each f values).run answer s = (.ok (),s) := by
  induction values with
  | nil => rfl
  | cons value values ih =>
    refine (run_bind_ok (fine value List.mem_cons_self)).trans (ih ?_)
    exact fun a member => fine a (List.mem_cons_of_mem _ member)

theorem run_each_error {f : α → Job Unit} {values : List α}
    (step : ∀ a ∈ values, (f a).run answer s = (.ok (),s) ∨ ∃ m, (f a).run answer s = (.error (integrityError m),s))
    (wrong : ∃ a ∈ values, (f a).run answer s ≠ (.ok (),s)) :
    ∃ m, (each f values).run answer s = (.error (integrityError m),s) := by
  induction values with
  | nil =>
    obtain ⟨_,member,_⟩ := wrong
    cases member
  | cons value values ih =>
    rcases step value List.mem_cons_self with fine | ⟨m,refused⟩
    · obtain ⟨a,member,never⟩ := wrong
      have later : a ∈ values := by
        rcases List.mem_cons.mp member with rfl | later
        · exact absurd fine never
        · exact later
      obtain ⟨m,rest⟩ := ih (fun a member => step a (List.mem_cons_of_mem _ member)) ⟨a,later,never⟩
      exact ⟨m,(run_bind_ok fine).trans rest⟩
    · exact ⟨m,run_bind_error refused⟩

/-! Receipts. -/

def others (b : ManagedReleaseBundle) : List Namespace := [Namespace.legacy,.migration,.target].filter (· ≠ b.namespace_)

theorem mem_others {b : ManagedReleaseBundle} {place : Namespace} : place ∈ others b ↔ place ≠ b.namespace_ := by
  cases place <;> simp [others]

theorem run_assertNamespace (calm : Calm answer) (valid : s.Valid) {b : ManagedReleaseBundle} {place : Namespace}
    (same : ∀ other, s.receipts.lookup (place,b.version) = some other →
      releaseBundleFingerprint other.base = releaseBundleFingerprint b.base) :
    (assertNamespace b place).run answer s = (.ok (),s) := by
  refine (run_bind_ok (run_receipt calm valid b.version place)).trans ?_
  cases found : s.receipts.lookup (place,b.version) with
  | none => rfl
  | some other => exact run_passes (not_not.mpr (same other found)) _

theorem run_assertNamespace_error (calm : Calm answer) (valid : s.Valid) {b other : ManagedReleaseBundle}
    {place : Namespace} (found : s.receipts.lookup (place,b.version) = some other)
    (differs : releaseBundleFingerprint other.base ≠ releaseBundleFingerprint b.base) :
    ∃ m, (assertNamespace b place).run answer s = (.error (integrityError m),s) := by
  refine ⟨"A known release version changed its immutable package bytes across catalog protocols.",?_⟩
  refine (run_bind_ok (run_receipt calm valid b.version place)).trans ?_
  rw [found]
  exact run_rejects differs _

theorem run_assertKnown (calm : Calm answer) (valid : s.Valid) {b : ManagedReleaseBundle} (knows : s.Knows b) :
    (assertKnownBundle b).run answer s = (.ok (s.receipts.lookup (b.namespace_,b.version)),s) := by
  refine (run_bind_ok (run_receipt calm valid b.version b.namespace_)).trans ?_
  have same : ¬((s.receipts.lookup (b.namespace_,b.version)).any fun saved =>
      managedReleaseBundleFingerprint saved ≠ managedReleaseBundleFingerprint b) = true := by
    rw [any_differs]
    rintro ⟨saved,found,differs⟩
    exact differs (knows.1 saved found)
  refine (run_bind_ok (run_passes same _)).trans ?_
  have checked : (each (assertNamespace b) (others b)).run answer s = (.ok (),s) :=
    run_each_still fun place member => run_assertNamespace calm valid (knows.2 place (mem_others.mp member))
  exact (run_bind_ok checked).trans rfl

theorem run_assertKnown_error (calm : Calm answer) (valid : s.Valid) {b : ManagedReleaseBundle} (wrong : ¬s.Knows b) :
    ∃ m, (assertKnownBundle b).run answer s = (.error (integrityError m),s) := by
  have opened : (assertKnownBundle b).run answer s = _ := run_bind_ok (run_receipt calm valid b.version b.namespace_)
  rw [opened]
  by_cases differs : ((s.receipts.lookup (b.namespace_,b.version)).any fun saved =>
      managedReleaseBundleFingerprint saved ≠ managedReleaseBundleFingerprint b) = true
  · exact ⟨_,run_bind_error (run_rejects differs _)⟩
  · rw [run_bind_ok (run_passes differs _)]
    have own : ∀ saved, s.receipts.lookup (b.namespace_,b.version) = some saved →
        managedReleaseBundleFingerprint saved = managedReleaseBundleFingerprint b := by
      intro saved found
      by_contra apart
      exact differs (any_differs.mpr ⟨saved,found,apart⟩)
    have elsewhere : ∃ place ∈ others b, ∃ other, s.receipts.lookup (place,b.version) = some other ∧
        releaseBundleFingerprint other.base ≠ releaseBundleFingerprint b.base := by
      by_contra none_
      refine wrong ⟨own,?_⟩
      intro place apart other found
      by_contra differs'
      exact none_ ⟨place,mem_others.mpr apart,other,found,differs'⟩
    have rejected : ∃ m, (each (assertNamespace b) (others b)).run answer s = (.error (integrityError m),s) := by
      refine run_each_error ?_ ?_
      · intro place _
        by_cases same : ∀ other, s.receipts.lookup (place,b.version) = some other →
            releaseBundleFingerprint other.base = releaseBundleFingerprint b.base
        · exact .inl (run_assertNamespace calm valid same)
        · obtain ⟨other,found,apart⟩ := not_forall₂.mp same
          exact .inr (run_assertNamespace_error calm valid found apart)
      · obtain ⟨place,member,other,found,apart⟩ := elsewhere
        obtain ⟨m,refused⟩ := run_assertNamespace_error calm valid found apart
        refine ⟨place,member,?_⟩
        rw [refused]
        nofun
    obtain ⟨m,refused⟩ := rejected
    exact ⟨m,run_bind_error refused⟩

theorem run_adopt (calm : Calm answer) (b : ManagedReleaseBundle) :
    (adopt b).run answer s = (.ok (),s) ∨ (adopt b).run answer s = (.ok (),s.marked b.namespace_) := by
  unfold adopt
  split
  next place =>
    have seen : targetMarker.run answer s = (.ok s.targetAdopted,s) := run_marker calm Home.targetAdopted
    rw [place,run_bind_ok seen]
    split
    next => exact .inl rfl
    next => exact .inr (run_atomicJSON calm Home.markTarget)
  next place =>
    have seen : migrationMarker.run answer s = (.ok s.migrationAdopted,s) := run_marker calm Home.migrationAdopted
    rw [place,run_bind_ok seen]
    split
    next => exact .inl rfl
    next => exact .inr (run_atomicJSON calm Home.markMigration)
  next => exact .inl rfl

theorem run_remember (calm : Calm answer) (valid : s.Valid) {b : ManagedReleaseBundle} (knows : s.Knows b) :
    ∃ s', (remember b).run answer s = (.ok b,s') ∧ s.SameCatalogs s' ∧ s'.Records b ∧
      (s'.receipts = s.receipts ∨ s.receipts.lookup (b.namespace_,b.version) = none ∧
        s'.receipts = s.receipts.insert (b.namespace_,b.version) b) := by
  have opened : (remember b).run answer s = _ := run_bind_ok (run_assertKnown calm valid knows)
  obtain ⟨m,adopted,same,receipts⟩ : ∃ m, (adopt b).run answer s = (.ok (),m) ∧ s.SameCatalogs m ∧
      m.receipts = s.receipts := by
    rcases run_adopt (s := s) calm b with still | marked
    · exact ⟨s,still,.refl s,rfl⟩
    · exact ⟨_,marked,same_marked s _,receipts_marked s _⟩
  rw [opened,run_bind_ok adopted]
  unfold recordNew
  cases found : s.receipts.lookup (b.namespace_,b.version) with
  | some saved =>
    exact ⟨m,rfl,same,⟨saved,by rw [receipts,found],knows.1 saved found⟩,.inl receipts⟩
  | none =>
    refine ⟨m.record b,run_bind_ok (run_atomicJSON calm (Home.record b)),same.trans ⟨rfl,rfl,rfl⟩,
      records_record m b,.inr ⟨rfl,?_⟩⟩
    rw [← receipts]
    rfl

/-! Catalogs with routes. -/

section Routes
variable {β ρ : Type} {C : Channel β ρ} {collate : String → String → Bool} {c : Catalog β ρ}

theorem run_adoptedRoutes (calm : Calm answer) (timely_ : Timely answer C.family.fitsCatalog (C.saved s)) :
    (adoptedRoutes C).run answer s = (.ok (C.adopted s || (C.saved s).isSome),s) := by
  have saved : (cachedRoutes C).run answer s = (.ok (C.saved s),s) := run_saved calm timely_
  have marked : (marker C.adopted).run answer s = (.ok (C.adopted s),s) := run_marker calm C.adopted
  have first : isFirst.run answer s = (.ok (answer .order),s) := run_query Query.order
  unfold adoptedRoutes
  rw [run_bind_ok first]
  split
  next => exact (run_bind_ok marked).trans ((run_bind_ok saved).trans rfl)
  next => exact (run_bind_ok saved).trans ((run_bind_ok marked).trans rfl)

theorem run_latestRoutes (calm : Calm answer) (timely_ : Timely answer C.family.fitsCatalog (C.saved s))
    (choice : Choice C) {o : Options} {b : β} {fallback : Job DiscoveredRelease}
    (answered : C.request.run answer s = (.ok (.value c),s)) (select : C.select o c = .ok b) :
    (latestRoutes collate C o false fallback).run answer s = (acceptRoutes collate C c (C.wrap b)).run answer s := by
  obtain ⟨fits,_,_,fine⟩ := choice.selected select
  have saved : (cachedRoutes C).run answer s = (.ok (C.saved s),s) := run_saved calm timely_
  have asked : (metadata C.request C.family.fitsCatalog).run answer s = (.ok c,s) := run_metadata answered fits
  have chosen : selectRoutes C o c = .ok (C.wrap b) := selectRoutes_ok.mpr ⟨b,select,rfl⟩
  unfold latestRoutes
  rw [run_bind_ok (run_throwIfAborted calm),run_bind_ok saved,run_bind_ok (run_adoptedRoutes calm timely_)]
  refine (run_bind_ok (a := none) rfl).trans ?_
  simp only
  rw [run_bind_ok (run_attempt _),asked]
  simp only
  rw [chosen,run_bind_ok (run_lift (.ok (C.wrap b))),fine,run_bind_ok (run_lift (.ok (C.wrap b)))]

theorem run_assertRoutes {previous : Option (Cached (Catalog β ρ))}
    (succeeds : ∀ p, previous = some p → Succeeds collate C p.catalog c) :
    (assertRoutes collate C previous c).run answer s = (.ok (),s) := by
  cases previous with
  | none => rfl
  | some p =>
    obtain ⟨kept,advance⟩ := succeeds p rfl
    exact (run_bind_ok (run_passes kept _)).trans (run_passes (by simp [advance]) _)

theorem run_assertRoutes_error {previous : Option (Cached (Catalog β ρ))} :
    (assertRoutes collate C previous c).run answer s = (.ok (),s) ∨
      ∃ m, (assertRoutes collate C previous c).run answer s = (.error (integrityError m),s) := by
  by_cases succeeds : ∀ p, previous = some p → Succeeds collate C p.catalog c
  · exact .inl (run_assertRoutes succeeds)
  · cases previous with
    | none => exact absurd nofun succeeds
    | some p =>
      by_cases kept : c.revision < p.catalog.revision ∨ c.revision = p.catalog.revision ∧
          canonicalRoutes collate C c ≠ canonicalRoutes collate C p.catalog
      · exact .inr ⟨_,run_bind_error (run_rejects kept _)⟩
      · have removed : routesAdvance C p.catalog c = false := by
          by_contra advance
          refine succeeds ?_
          rintro p' same
          cases same
          exact ⟨kept,by simpa using advance⟩
        refine .inr ⟨C.removed,?_⟩
        exact (run_bind_ok (run_passes kept _)).trans (run_rejects removed _)

theorem run_acceptRoutes_error (calm : Calm answer) (valid : s.Valid)
    (timely_ : Timely answer C.family.fitsCatalog (C.saved s)) {selected : ManagedReleaseBundle} {b : β}
    (member : b ∈ c.bundles) (wrong : ¬s.Knows (C.wrap b)) :
    ∃ m, (acceptRoutes collate C c selected).run answer s = (.error (integrityError m),s) := by
  have saved : (cachedRoutes C).run answer s = (.ok (C.saved s),s) := run_saved calm timely_
  have opened : (acceptRoutes collate C c selected).run answer s = _ := run_locked_job calm _
  rw [opened,run_bind_ok saved]
  have checked : (assertRoutes collate C (C.saved s) c).run answer s = (.ok (),s) ∨
      ∃ m, (assertRoutes collate C (C.saved s) c).run answer s = (.error (integrityError m),s) := run_assertRoutes_error
  rcases checked with fine | ⟨m,refused⟩
  · have known : ∀ b, (do let _ ← assertKnownBundle (C.wrap b) : Job Unit).run answer s = (.ok (),s) ∨
        ∃ m, (do let _ ← assertKnownBundle (C.wrap b) : Job Unit).run answer s = (.error (integrityError m),s) := by
      intro b
      by_cases knows : s.Knows (C.wrap b)
      · exact .inl ((run_bind_ok (run_assertKnown calm valid knows)).trans rfl)
      · obtain ⟨m,refused⟩ := run_assertKnown_error calm valid knows
        exact .inr ⟨m,run_bind_error refused⟩
    have rejected : ∃ m, (each (fun b => do let _ ← assertKnownBundle (C.wrap b)) c.bundles).run answer s =
        (.error (integrityError m),s) := by
      refine run_each_error (fun b _ => known b) ⟨b,member,?_⟩
      obtain ⟨m,refused⟩ := run_assertKnown_error calm valid wrong
      have rejected : (do let _ ← assertKnownBundle (C.wrap b) : Job Unit).run answer s = _ := run_bind_error refused
      rw [rejected]
      nofun
    obtain ⟨m,refused⟩ := rejected
    rw [run_bind_ok fine]
    exact ⟨m,run_bind_error refused⟩
  · exact ⟨m,run_bind_error refused⟩

end Routes

end ATape.Release
