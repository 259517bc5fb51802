import ATape.Release.Calm

/-! Clients of a publisher. A client keeps a receipt of every bundle that it has seen,
while the publisher forgets those that no route leads to, so that they agree as long as no
version comes back as another bundle. -/
namespace ATape.Release
open Foundation Node Call

namespace Family
variable {β ρ : Type}

def Stable (F : Family β ρ) (bs : List β) : Prop :=
  ∀ b b', F.EffectiveIn bs b → F.EffectiveIn bs b' → F.version b = F.version b' → F.fingerprint b = F.fingerprint b'

end Family

def Home.empty : Home := ⟨none,none,none,false,false,∅⟩

/-- How a channel writes its files, and what a server that has one of its catalogs
answers. -/
structure Desk {β ρ : Type} (C : Channel β ρ) where
  placed : C.Placed
  choice : Choice C
  lawful : C.family.Lawful
  place : Namespace
  wrapped : ∀ b, (C.wrap b).namespace_ = place
  fingerprint : ∀ b, managedReleaseBundleFingerprint (C.wrap b) = C.family.fingerprint b
  saved_save : ∀ cached home, C.saved (C.save cached home) = some cached
  receipts_save : ∀ cached home, (C.save cached home).receipts = home.receipts
  grows_save : ∀ cached, ∀ home : Home, home.Grows (C.save cached home)
  saved_empty : C.saved Home.empty = none
  adoption : ∀ {T : Terms Home Query.Answer} {fails : Failure → Prop} {s : Home}, Tolerant fails →
    T.To s (s.marked place) → T.Own s (s.marked place) → Safe T fails true s C.adoption fun _ d => d = s ∨ d = s.marked place
  run_adoption : ∀ {answer : ∀ q : Query, q.Answer} {s : Home}, Calm answer →
    C.adoption.run answer s = (.ok (),s) ∨ C.adoption.run answer s = (.ok (),s.marked place)
  serves : Catalog β ρ → ∀ q : Query, q.Answer → Prop
  asked : ∀ {T : Terms Home Query.Answer} {own : Failure → Prop} {held : Bool} {s : Home} {c : Catalog β ρ},
    T.Answers = serves c → Safe T own held s C.request fun reply d =>
      d = s ∧ reply ≠ .missing ∧ ∀ v, reply = .value v → v = c
  calmly : ∀ c, ∃ answer : ∀ q : Query, q.Answer, Calm answer ∧ answer .clock = 0 ∧ (∀ q, serves c q (answer q)) ∧
    ∀ s, C.request.run answer s = (.ok (.value c),s)
  way : ∀ r, ∃ o, choice.follows o r = true

section Clients
variable {β ρ : Type} {C : Channel β ρ} {desk : Desk C} {cs : List (Catalog β ρ)}
  {call : Options → Bool → Job DiscoveredRelease}

/-- A client that was served catalogs in the order of the list, some of them and maybe
more than once, and whose calls may have failed anywhere. -/
inductive Follower (desk : Desk C) (call : Options → Bool → Job DiscoveredRelease) (cs : List (Catalog β ρ)) :
    Nat → Home → Prop
  | new : Follower desk call cs 0 Home.empty
  | called (j k home c o cached r home') (follower : Follower desk call cs j home) (later : j ≤ k)
    (there : cs[k]? = some c) (ends : Task.Ends (desk.serves c) r home' (call o cached) home) :
    Follower desk call cs k home'

/-- A catalog is accepted: no check accuses the publisher, whatever else goes wrong, and a
call that nothing disturbs and that finds a route to follow saves it. -/
structure Accepts (desk : Desk C) (call : Options → Bool → Job DiscoveredRelease) (c : Catalog β ρ) (home : Home) :
    Prop where
  untroubled : ∀ o cached r home', Task.Ends (desk.serves c) r home' (call o cached) home → ∀ m, r ≠ .error (integrityError m)
  returns : ∀ o answer b, Calm answer → (∀ s, C.request.run answer s = (.ok (.value c),s)) →
    Timely answer C.family.fitsCatalog (C.saved home) → C.select o c = .ok b →
      ∃ home' now, (call o false).run answer home = (.ok ⟨C.wrap b,.fresh⟩,home') ∧ C.saved home' = some ⟨now,c⟩

/-- Every client accepts every later catalog. -/
def AcceptsAll (desk : Desk C) (call : Options → Bool → Job DiscoveredRelease) (cs : List (Catalog β ρ)) : Prop :=
  ∀ j k c home, Follower desk call cs j home → j ≤ k → cs[k]? = some c → Accepts desk call c home

/-- A bundle of one of the first catalogs. -/
def Seen (cs : List (Catalog β ρ)) (k : Nat) (x : β) : Prop := ∃ i c, i ≤ k ∧ cs[i]? = some c ∧ x ∈ c.bundles

structure Following (desk : Desk C) (cs : List (Catalog β ρ)) (k : Nat) (home : Home) : Prop where
  saved : ∀ cached, C.saved home = some cached → ∃ i, i ≤ k ∧ cs[i]? = some cached.catalog
  receipts : ∀ place version b, home.receipts.lookup (place,version) = some b →
    ∃ x, Seen cs k x ∧ b = C.wrap x ∧ place = desk.place ∧ version = C.family.version x

variable {k : Nat} {s s' : Home} {c : Catalog β ρ}

theorem Seen.mono {j : Nat} {x : β} (seen : Seen cs j x) (later : j ≤ k) : Seen cs k x := by
  obtain ⟨i,c,before,rest⟩ := seen
  exact ⟨i,c,before.trans later,rest⟩

theorem following_empty : Following desk cs 0 Home.empty := by
  refine ⟨?_,?_⟩
  · intro cached saved
    rw [desk.saved_empty] at saved
    cases saved
  · intro place version b found
    exact nomatch found

theorem Following.mono {j : Nat} (following : Following desk cs j s) (later : j ≤ k) : Following desk cs k s := by
  refine ⟨?_,?_⟩
  · intro cached saved
    obtain ⟨i,before,there⟩ := following.saved cached saved
    exact ⟨i,before.trans later,there⟩
  · intro place version b found
    obtain ⟨x,seen,rest⟩ := following.receipts place version b found
    exact ⟨x,seen.mono later,rest⟩

theorem Following.marked (following : Following desk cs k s) (place : Namespace) :
    Following desk cs k (s.marked place) := by
  refine ⟨?_,?_⟩
  · rw [desk.placed.same (same_marked s place)]
    exact following.saved
  · rw [receipts_marked]
    exact following.receipts

theorem Following.same (following : Following desk cs k s) (same : s.SameCatalogs s') {x : β} (seen : Seen cs k x)
    (receipts : s'.receipts = s.receipts ∨
      s'.receipts = s.receipts.insert ((C.wrap x).namespace_,(C.wrap x).version) (C.wrap x)) :
    Following desk cs k s' := by
  refine ⟨?_,?_⟩
  · rw [desk.placed.same same]
    exact following.saved
  · rcases receipts with still | new
    · rw [still]
      exact following.receipts
    · intro place version b found
      rw [new,Table.lookup_insert] at found
      split at found
      next own =>
        cases found
        simp only [desk.wrapped,desk.choice.version,Prod.mk.injEq] at own
        exact ⟨x,seen,rfl,own⟩
      next => exact following.receipts place version b found

theorem Following.save (following : Following desk cs k s) (there : cs[k]? = some c) (now : Nat) :
    Following desk cs k (C.save ⟨now,c⟩ s) := by
  refine ⟨?_,?_⟩
  · intro cached saved
    rw [desk.saved_save] at saved
    cases saved
    exact ⟨k,le_rfl,there⟩
  · rw [desk.receipts_save]
    exact following.receipts

/-! What a client has seen of an honest publisher. -/

variable {bs : List β} {last : Option (Catalog β ρ)} {collate : String → String → Bool}

theorem Seen.effective (desk : Desk C) (published : C.family.Published bs cs last) {x : β} (seen : Seen cs k x) :
    C.family.EffectiveIn bs x := by
  obtain ⟨i,c,_,there,member⟩ := seen
  exact (published.effective desk.lawful x).mp ⟨c,List.mem_of_getElem? there,member⟩

theorem Seen.fits (desk : Desk C) (published : C.family.Published bs cs last) {x : β} (seen : Seen cs k x) :
    C.family.fits x = true := by
  obtain ⟨i,c,_,there,member⟩ := seen
  exact (Family.fits_catalog (published.fits desk.lawful c (List.mem_of_getElem? there))).1 x member

/-- The bundles that a client may have seen are checked and no two of them have one version. -/
structure Consistent (desk : Desk C) (cs : List (Catalog β ρ)) (k : Nat) : Prop where
  fits : ∀ x, Seen cs k x → C.family.fits x = true
  same : ∀ x x', Seen cs k x → Seen cs k x' → C.family.version x = C.family.version x' →
    C.family.fingerprint x = C.family.fingerprint x'

theorem consistent_published (desk : Desk C) (published : C.family.Published bs cs last) (stable : C.family.Stable bs) :
    Consistent desk cs k where
  fits _ seen := seen.fits desk published
  same x x' seen seen' := stable x x' (seen.effective desk published) (seen'.effective desk published)

theorem Following.valid (following : Following desk cs k s) (consistent : Consistent desk cs k) : s.Valid := by
  intro place version b found
  obtain ⟨x,seen,rfl,rfl,rfl⟩ := following.receipts place version b found
  exact ⟨desk.wrapped x,(desk.choice.fits x).trans (consistent.fits x seen),desk.choice.version x⟩

theorem Following.knows (following : Following desk cs k s) (consistent : Consistent desk cs k) {x : β}
    (seen : Seen cs k x) : s.Knows (C.wrap x) := by
  refine ⟨?_,?_⟩
  · intro saved found
    obtain ⟨x',seen',rfl,_,version⟩ := following.receipts _ _ saved found
    rw [desk.fingerprint,desk.fingerprint]
    refine consistent.same x' x seen' seen ?_
    rw [← version,desk.choice.version]
  · intro place apart other found
    obtain ⟨_,_,_,own,_⟩ := following.receipts _ _ other found
    rw [desk.wrapped] at apart
    exact absurd own apart

theorem Following.succeeds (following : Following desk cs k s) (published : C.family.Published bs cs last)
    (there : cs[k]? = some c) {cached : Cached (Catalog β ρ)} (saved : C.saved s = some cached) :
    Succeeds collate C cached.catalog c := by
  obtain ⟨i,before,there'⟩ := following.saved cached saved
  have follows : C.family.Follows cached.catalog c := by
    rcases Nat.lt_or_eq_of_le before with earlier | rfl
    · obtain ⟨bound,rfl⟩ := List.getElem?_eq_some_iff.mp there
      obtain ⟨bound',same⟩ := List.getElem?_eq_some_iff.mp there'
      rw [← same]
      exact List.pairwise_iff_getElem.mp (published.pairwise desk.lawful) i k bound' bound earlier
    · rw [there'] at there
      cases there
      exact .refl _
  have fits := published.fits desk.lawful cached.catalog (List.mem_of_getElem? there')
  refine ⟨?_,monotone_routesAdvance fits follows.routes⟩
  rcases follows.revision with below | same
  · rintro (regressed | ⟨level,_⟩) <;> omega
  · rw [same]
    rintro (regressed | ⟨_,rewritten⟩)
    · exact lt_irrefl _ regressed
    · exact rewritten rfl

/-- What a client that is alone does to its home while it is served a catalog. -/
def followingTerms (desk : Desk C) (cs : List (Catalog β ρ)) (k : Nat) (c : Catalog β ρ) : Terms Home Query.Answer where
  Good _ := True
  To s s' := s.Grows s' ∧ (Following desk cs k s → Following desk cs k s')
  Others s s' := s' = s
  refl s := ⟨.refl s,id⟩
  trans first second := ⟨first.1.trans second.1,second.2 ∘ first.2⟩
  keeps _ _ := trivial
  others_refl _ := rfl
  others_trans first second := second.trans first
  others_to same := same ▸ ⟨.refl _,id⟩
  Own _ _ := True
  Answers := desk.serves c

/-- The errors that do not accuse the publisher. -/
def Innocent (failure : Failure) : Prop := ∀ m, failure ≠ integrityError m

theorem remembers_following {x : β} (seen : Seen cs k x) : Remembers (followingTerms desk cs k c) s (C.wrap x) where
  mark _ _ _ := ⟨⟨grows_marked _ _,fun following => following.marked _⟩,trivial⟩
  record _ _ _ absent :=
    ⟨⟨grows_record absent,fun following => following.same ⟨rfl,rfl,rfl⟩ seen (.inr rfl)⟩,trivial⟩

theorem tolerant_innocent : Tolerant Innocent := fun _ innocent => innocent

theorem safe_following (published : C.family.Published bs cs last) (stable : C.family.Stable bs)
    (following : Following desk cs k s) (there : cs[k]? = some c) (o : Options) (cached : Bool)
    (fallback : Job DiscoveredRelease) : Safe (followingTerms desk cs k c) Innocent false s
      (latestRoutes collate C o cached fallback) fun _ d => Following desk cs k d := by
  have consistent : Consistent desk cs k := consistent_published desk published stable
  let T := followingTerms desk cs k c
  have grows : ∀ a b, T.To a b → a.Grows b := fun _ _ leads => leads.1
  have kept : ∀ {a b}, T.To a b → Following desk cs k a → Following desk cs k b := fun leads => leads.2
  have marks : ∀ (a : Home) place, T.To a (a.marked place) :=
    fun a place => ⟨grows_marked a place,fun following => following.marked place⟩
  have member : ∀ x ∈ c.bundles, Seen cs k x := fun x member => ⟨k,c,le_rfl,there,member⟩
  have asked : ∀ {own : Failure → Prop} d, Safe T own false d C.request fun reply d' =>
      d' = d ∧ (reply = .missing → False) ∧ ∀ v, reply = .value v → v = c := fun _ => desk.asked rfl
  refine safe_latestRoutes tolerant_innocent grows desk.placed desk.choice asked ?_ ?_ fun impossible => impossible.elim
  · intro m d saved b first second found select
    obtain ⟨i,before,place⟩ := (kept first following).saved saved found
    have seen : Seen cs k b := ⟨i,saved.catalog,before,place,(desk.choice.selected select).2.1⟩
    have present := kept second (kept first following)
    exact ⟨remembers_following seen,.inl (present.knows consistent seen),fun _ _ later _ => kept later present⟩
  · rintro d v b leads rfl fits select
    have start := kept leads following
    refine safe_acceptRoutes tolerant_innocent grows desk.placed (.inl ?_) (.inl ?_) ?_ ?_ ?_
    · intro d' saved later found
      exact (kept later start).succeeds published there found
    · intro x inside d' later
      exact (kept later start).knows consistent (member x inside)
    · exact fun x inside _ _ => remembers_following (member x inside)
    · intro d' _ _
      refine (desk.adoption tolerant_innocent (marks d' desk.place) trivial).mono ?_
      rintro _ e _ (rfl | rfl)
      · exact .refl e
      · exact same_marked d' _
    · intro d' now later _ _
      exact ⟨⟨desk.grows_save _ _,fun following => following.save there now⟩,trivial,(kept later start).save there now⟩

def Asks (collate : String → String → Bool) (C : Channel β ρ) (call : Options → Bool → Job DiscoveredRelease) : Prop :=
  ∀ o cached, ∃ fallback, call o cached = latestRoutes collate C o cached fallback

theorem Follower.following (asks : Asks collate C call) (published : C.family.Published bs cs last)
    (stable : C.family.Stable bs) (follower : Follower desk call cs k s) : Following desk cs k s := by
  induction follower with
  | new => exact following_empty
  | called j k home c o cached r home' _ later there ends ih =>
    obtain ⟨fallback,same⟩ := asks o cached
    rw [same] at ends
    exact ((safe_following published stable (ih.mono later) there o cached fallback).ends ends).1.2 (ih.mono later)

theorem knows_remembered (desk : Desk C) (fits : C.family.fitsCatalog c = true) {x : β} (inside : x ∈ c.bundles)
    (agrees : s.Valid ∧ ∀ y ∈ c.bundles, s.Knows (C.wrap y))
    (receipts : s'.receipts = s.receipts ∨
      s'.receipts = s.receipts.insert ((C.wrap x).namespace_,(C.wrap x).version) (C.wrap x)) :
    s'.Valid ∧ ∀ y ∈ c.bundles, s'.Knows (C.wrap y) := by
  obtain ⟨bundles,versions,_,_⟩ := Family.fits_catalog fits
  rcases receipts with still | new
  · unfold Home.Valid Home.Knows
    rw [still]
    exact agrees
  · refine ⟨?_,?_⟩
    · intro place version b found
      rw [new,Table.lookup_insert] at found
      split at found
      next own =>
        cases found
        rw [Prod.mk.injEq] at own
        exact ⟨own.1.symm,(desk.choice.fits x).trans (bundles x inside),own.2.symm⟩
      next => exact agrees.1 place version b found
    · intro y member
      refine ⟨?_,?_⟩
      · intro saved found
        rw [new,Table.lookup_insert] at found
        split at found
        next own =>
          cases found
          rw [Prod.mk.injEq,desk.choice.version,desk.choice.version] at own
          rw [List.inj_on_of_nodup_map versions member inside own.2]
        next => exact (agrees.2 y member).1 saved found
      · intro place apart other found
        rw [new,Table.lookup_insert,if_neg] at found
        · exact (agrees.2 y member).2 place apart other found
        · rintro own
          rw [Prod.mk.injEq] at own
          exact apart (own.1.trans ((desk.wrapped x).trans (desk.wrapped y).symm))

def Receives (C : Channel β ρ) (c : Catalog β ρ) (home home' : Home) : Prop :=
  ∀ key b, home'.receipts.lookup key = some b → home.receipts.lookup key = some b ∨
    ∃ x ∈ c.bundles, key = ((C.wrap x).namespace_,(C.wrap x).version)

theorem run_acceptRoutes (desk : Desk C) {answer : ∀ q : Query, q.Answer} (calm : Calm answer)
    (fits : C.family.fitsCatalog c = true) (agrees : s.Valid ∧ ∀ x ∈ c.bundles, s.Knows (C.wrap x))
    (timely_ : Timely answer C.family.fitsCatalog (C.saved s))
    (succeeds : ∀ p, C.saved s = some p → Succeeds collate C p.catalog c) (selected : ManagedReleaseBundle) :
    ∃ s', (acceptRoutes collate C c selected).run answer s = (.ok ⟨selected,.fresh⟩,s') ∧
      C.saved s' = some ⟨answer .clock,c⟩ ∧ s'.Valid ∧ (∀ x ∈ c.bundles, s'.Records (C.wrap x)) ∧
        (∀ b, s.Records b → s'.Records b) ∧ Receives C c s s' := by
  have saved : (cachedRoutes C).run answer s = (.ok (C.saved s),s) := run_saved calm timely_
  have advanced : (assertRoutes collate C (C.saved s) c).run answer s = (.ok (),s) := run_assertRoutes succeeds
  have known : (each (fun x => do let _ ← assertKnownBundle (C.wrap x)) c.bundles).run answer s = (.ok (),s) := by
    refine run_each_still fun x inside => ?_
    exact (run_bind_ok (run_assertKnown calm agrees.1 (agrees.2 x inside))).trans rfl
  obtain ⟨m,adopted,receipts⟩ : ∃ m, C.adoption.run answer s = (.ok (),m) ∧ m.receipts = s.receipts := by
    rcases desk.run_adoption (s := s) calm with still | marked
    · exact ⟨s,still,rfl⟩
    · exact ⟨_,marked,receipts_marked s _⟩
  have start : m.Valid ∧ ∀ x ∈ c.bundles, m.Knows (C.wrap x) := by
    unfold Home.Valid Home.Knows
    rw [receipts]
    exact agrees
  have remembered : ∃ s', (each (fun x => do let _ ← remember (C.wrap x)) c.bundles).run answer m = (.ok (),s') ∧
      ((s'.Valid ∧ ∀ x ∈ c.bundles, s'.Knows (C.wrap x)) ∧ (∀ b, m.Records b → s'.Records b) ∧ Receives C c m s') ∧
        (∀ x ∈ c.bundles, s'.Records (C.wrap x)) ∧ ∀ x, m.Records (C.wrap x) → s'.Records (C.wrap x) := by
    refine run_each (fun x inside d kept => ?_) ⟨start,fun _ => id,fun _ _ => .inl⟩
    obtain ⟨d',done,_,records,receipts⟩ := run_remember calm kept.1.1 (kept.1.2 x inside)
    have still : ∀ b, d.Records b → d'.Records b := by
      rintro b ⟨z,found,alike⟩
      rcases receipts with still | ⟨absent,new⟩
      · exact ⟨z,by rw [still,found],alike⟩
      · refine ⟨z,?_,alike⟩
        rw [new,Table.lookup_insert,if_neg]
        · exact found
        · intro own
          rw [own,absent] at found
          cases found
    have received : Receives C c m d' := by
      intro key b found
      rcases receipts with same | ⟨_,new⟩
      · rw [same] at found
        exact kept.2.2 key b found
      · rw [new,Table.lookup_insert] at found
        split at found
        next own => exact .inr ⟨x,inside,own⟩
        next => exact kept.2.2 key b found
    exact ⟨d',(run_bind_ok done).trans rfl,⟨knows_remembered desk fits inside kept.1 (receipts.imp id And.right),
      fun b before => still b (kept.2.1 b before),received⟩,records,fun y => still (C.wrap y)⟩
  obtain ⟨m',remembered,⟨kept,still,received⟩,records,_⟩ := remembered
  have clock : dateNow.run answer m' = (.ok (answer .clock),m') := run_query Query.clock
  have stay : ∀ b, m'.Records b → (C.save ⟨answer .clock,c⟩ m').Records b := by
    rintro b ⟨z,found,alike⟩
    refine ⟨z,?_,alike⟩
    rw [desk.receipts_save]
    exact found
  refine ⟨C.save ⟨answer .clock,c⟩ m',?_,desk.saved_save _ _,?_,fun x inside => stay _ (records x inside),?_,?_⟩
  · have opened : (acceptRoutes collate C c selected).run answer s = _ := run_locked_job calm _
    rw [opened,run_bind_ok saved,run_bind_ok advanced,run_bind_ok known,run_bind_ok adopted,run_bind_ok remembered,
      run_bind_ok clock,run_bind_ok (run_atomicJSON calm _)]
    rfl
  · unfold Home.Valid
    rw [desk.receipts_save]
    exact kept.1
  · intro b before
    refine stay b (still b ?_)
    unfold Home.Records
    rw [receipts]
    exact before
  · intro key b found
    rw [desk.receipts_save] at found
    rw [← receipts]
    exact received key b found

theorem acceptsAll_stable (asks : Asks collate C call) (published : C.family.Published bs cs last)
    (stable : C.family.Stable bs) : AcceptsAll desk call cs := by
  intro j k c home follower later there
  have following := (follower.following asks published stable).mono later
  constructor
  · intro o cached r home' ends m refused
    obtain ⟨fallback,same⟩ := asks o cached
    rw [same] at ends
    obtain ⟨_,_,_,_,innocent⟩ := (safe_following published stable following there o cached fallback).ends ends
    exact innocent _ refused m rfl
  · intro o answer b calm answered timely_ select
    obtain ⟨fallback,same⟩ := asks o false
    have succeeds : ∀ p, C.saved home = some p → Succeeds collate C p.catalog c :=
      fun p found => following.succeeds published there found
    have consistent : Consistent desk cs k := consistent_published desk published stable
    have agrees : home.Valid ∧ ∀ x ∈ c.bundles, home.Knows (C.wrap x) :=
      ⟨following.valid consistent,fun x member => following.knows consistent ⟨k,c,le_rfl,there,member⟩⟩
    obtain ⟨home',accepted,saved,_⟩ := run_acceptRoutes desk calm (published.fits desk.lawful c (List.mem_of_getElem? there))
      agrees timely_ succeeds (C.wrap b)
    refine ⟨home',answer .clock,?_,saved⟩
    rw [same,run_latestRoutes calm timely_ desk.choice (answered home) select]
    exact accepted

theorem Desk.selects (desk : Desk C) (fits : C.family.fitsCatalog c = true) {b : β} (member : b ∈ c.bundles) :
    ∃ o x, C.select o c = .ok x := by
  have routed : ∃ r, r ∈ c.routes := by
    have checked := (Bool.and_eq_true _ _ ▸ (show _ = true from fits)).2
    obtain ⟨r,inside,_⟩ := List.any_eq_true.mp (List.all_eq_true.mp checked b member)
    exact ⟨r,inside⟩
  obtain ⟨r,inside⟩ := routed
  obtain ⟨o,follows⟩ := desk.way r
  exact ⟨o,desk.choice.found o c fits ⟨r,inside,follows⟩⟩

theorem run_ends {answers : ∀ q : Query, q.Answer → Prop} {answer : ∀ q : Query, q.Answer}
    (served : ∀ q, answers q (answer q)) {job : Job DiscoveredRelease} {r : Except Failure DiscoveredRelease}
    (ran : job.run answer s = (r,s')) : Task.Ends answers r s' job s := by
  have ends := Task.solo_ends served job s
  rw [show Task.solo answer job s = (r,s') from ran] at ends
  exact ends

theorem follower_first (desk : Desk C) (asks : Asks collate C call) {i : Nat} (there : cs[i]? = some c)
    (fits : C.family.fitsCatalog c = true) {b : β} (member : b ∈ c.bundles) :
    ∃ home, Follower desk call cs i home ∧ home.Valid ∧ C.saved home = some ⟨0,c⟩ ∧
      ∀ x ∈ c.bundles, home.Records (C.wrap x) := by
  obtain ⟨answer,calm,clock,served,answered⟩ := desk.calmly c
  obtain ⟨o,x,select⟩ := desk.selects fits member
  obtain ⟨fallback,same⟩ := asks o false
  have agrees : Home.empty.Valid ∧ ∀ x ∈ c.bundles, Home.empty.Knows (C.wrap x) := by
    have none_ : ∀ k, Home.empty.receipts.lookup k = none := fun _ => rfl
    refine ⟨?_,fun x _ => ⟨?_,?_⟩⟩
    · intro place version b found
      rw [none_] at found
      cases found
    · intro b found
      rw [none_] at found
      cases found
    · intro place _ b found
      rw [none_] at found
      cases found
  have none_ : ∀ p, C.saved Home.empty ≠ some p := by
    intro p found
    rw [desk.saved_empty] at found
    cases found
  have timely_ : Timely answer C.family.fitsCatalog (C.saved Home.empty) := fun p found => absurd found (none_ p)
  have succeeds : ∀ p, C.saved Home.empty = some p → Succeeds collate C p.catalog c :=
    fun p found => absurd found (none_ p)
  obtain ⟨home,accepted,saved,valid,records,_⟩ := run_acceptRoutes desk calm fits agrees timely_ succeeds (C.wrap x)
  rw [clock] at saved
  have ran : (call o false).run answer Home.empty = (.ok ⟨C.wrap x,.fresh⟩,home) := by
    rw [same,run_latestRoutes calm timely_ desk.choice (answered _) select]
    exact accepted
  exact ⟨home,.called 0 i Home.empty c o false _ home .new (Nat.zero_le i) there (run_ends served ran),
    valid,saved,records⟩

theorem accepts_same (asks : Asks collate C call) (published : C.family.Published bs cs last)
    (accepts : AcceptsAll desk call cs) {i j : Nat} {c' : Catalog β ρ} (earlier : i ≤ j) (there : cs[i]? = some c)
    (there' : cs[j]? = some c') {b b' : β} (member : b ∈ c.bundles) (member' : b' ∈ c'.bundles)
    (version : C.family.version b = C.family.version b') : C.family.fingerprint b = C.family.fingerprint b' := by
  have fits := published.fits desk.lawful c (List.mem_of_getElem? there)
  have fits' := published.fits desk.lawful c' (List.mem_of_getElem? there')
  obtain ⟨home,follower,valid,saved,records⟩ := follower_first desk asks there fits member
  by_contra apart
  obtain ⟨answer,calm,clock,served,answered⟩ := desk.calmly c'
  obtain ⟨o,x,select⟩ := desk.selects fits' member'
  obtain ⟨fallback,same⟩ := asks o false
  have timely_ : Timely answer C.family.fitsCatalog (C.saved home) := by
    intro p found
    rw [saved] at found
    cases found
    exact ⟨fits,Nat.zero_le _⟩
  have wrong : ¬home.Knows (C.wrap b') := by
    intro knows
    obtain ⟨z,found,alike⟩ := records b member
    rw [desk.wrapped,desk.choice.version,version] at found
    have told := knows.1 z (by rw [desk.wrapped,desk.choice.version]; exact found)
    rw [alike,desk.fingerprint,desk.fingerprint] at told
    exact apart told
  obtain ⟨m,refused⟩ : ∃ m, (acceptRoutes collate C c' (C.wrap x)).run answer home = (.error (integrityError m),home) :=
    run_acceptRoutes_error calm valid timely_ member' wrong
  have ran : (call o false).run answer home = (.error (integrityError m),home) := by
    rw [same,run_latestRoutes calm timely_ desk.choice (answered _) select]
    exact refused
  exact (accepts i j c' home follower earlier there').untroubled o false _ home (run_ends served ran) m rfl

theorem stable_accepts (asks : Asks collate C call) (published : C.family.Published bs cs last)
    (accepts : AcceptsAll desk call cs) : C.family.Stable bs := by
  intro b b' effective effective' version
  obtain ⟨c,member,inside⟩ := (published.effective desk.lawful b).mpr effective
  obtain ⟨c',member',inside'⟩ := (published.effective desk.lawful b').mpr effective'
  obtain ⟨i,there⟩ := List.getElem?_of_mem member
  obtain ⟨j,there'⟩ := List.getElem?_of_mem member'
  rcases Nat.le_total i j with earlier | later
  · exact accepts_same asks published accepts earlier there there' inside inside' version
  · exact (accepts_same asks published accepts later there' there inside' inside version.symm).symm

end Clients

/-! The two kinds of catalogs with routes. -/

def servesMigration (c : MigrationReleaseCatalog) : ∀ q : Query, q.Answer → Prop
  | .migrationCatalog,reply => reply ≠ .missing ∧ ∀ v, reply = .value v → v = c
  | _,_ => True

def servesTarget (c : TargetReleaseCatalog) : ∀ q : Query, q.Answer → Prop
  | .targetCatalog,reply => reply ≠ .missing ∧ ∀ v, reply = .value v → v = c
  | _,_ => True

/-- Answers with which nothing goes wrong, as far as the catalogs with routes go. -/
def calmAnswer (migration : Reply MigrationReleaseCatalog) (target : Reply TargetReleaseCatalog) :
    ∀ q : Query, q.Answer
  | .aborted => false
  | .clock => 0
  | .readable => true
  | .order => true
  | .write => .written
  | .catalog => .other
  | .migrationCatalog => migration
  | .targetCatalog => target
  | .bundle _ => .other
  | .migrationBundle _ => .other
  | .targetBundle _ => .other
  | .npm _ _ => .other

theorem calm_calmAnswer (migration : Reply MigrationReleaseCatalog) (target : Reply TargetReleaseCatalog) :
    Calm (calmAnswer migration target) := ⟨rfl,rfl,rfl⟩

def migrationDesk : Desk migrationChannel where
  placed := migration_placed
  choice := migrationChoice
  lawful := ⟨fun _ _ => rfl⟩
  place := .migration
  wrapped _ := rfl
  fingerprint _ := rfl
  saved_save _ _ := rfl
  receipts_save _ _ := rfl
  grows_save _ _ := ⟨fun _ _ => id,id,id,fun _ => rfl,id⟩
  saved_empty := rfl
  adoption tolerant leads own := safe_atomicJSON tolerant leads own (.inr rfl)
  run_adoption calm := .inr (run_atomicJSON calm Home.markMigration)
  serves := servesMigration
  asked same := safe_query fun reply answered => by
    rw [same] at answered
    exact ⟨rfl,answered⟩
  calmly c := by
    refine ⟨calmAnswer (.value c) .other,calm_calmAnswer _ _,rfl,?_,fun _ => rfl⟩
    intro q
    cases q with
    | migrationCatalog =>
      refine ⟨nofun,?_⟩
      intro v same
      exact (Reply.value.inj same).symm
    | _ => trivial
  way r := ⟨⟨r.fromCaptureStateContract,"",r.updateControlProtocol,none,some [(r.migrationProtocol,r.migrationId)]⟩,by
    simp [migrationChoice,followsMigration]⟩

def targetDesk : Desk targetChannel where
  placed := target_placed
  choice := targetChoice
  lawful := ⟨fun _ _ => rfl⟩
  place := .target
  wrapped _ := rfl
  fingerprint _ := rfl
  saved_save _ _ := rfl
  receipts_save _ _ := rfl
  grows_save _ _ := ⟨fun _ _ => id,id,id,id,fun _ => rfl⟩
  saved_empty := rfl
  adoption _ _ _ := safe_pure (.inl rfl)
  run_adoption _ := .inl rfl
  serves := servesTarget
  asked same := safe_query fun reply answered => by
    rw [same] at answered
    exact ⟨rfl,answered⟩
  calmly c := by
    refine ⟨calmAnswer .other (.value c),calm_calmAnswer _ _,rfl,?_,fun _ => rfl⟩
    intro q
    cases q with
    | targetCatalog =>
      refine ⟨nofun,?_⟩
      intro v same
      exact (Reply.value.inj same).symm
    | _ => trivial
  way r := ⟨⟨r.fromCaptureStateContract,"",r.updateControlProtocol,some r.updateTargetProtocol,none⟩,by
    simp [targetChoice,followsTarget]⟩

/-! A version that comes back. The second bundle takes the route of the first, which is then
forgotten, and the third has the version of the first. -/

def officialTarget (version contract : String) : TargetReleaseBundle :=
  ⟨⟨version,contract,"update",officialPackages version⟩,updateTargetProtocol,[contract]⟩

def officialRoute (version contract : String) : TargetReleaseRoute := ⟨contract,"update",updateTargetProtocol,version⟩

theorem official_target_fits {version contract : String} (stable : stableVersion version = true)
    (contractFits : isOpaqueProtocol contract = true) : targetFamily.fits (officialTarget version contract) = true := by
  have control : isOpaqueProtocol "update" = true := by decide
  simp [targetFamily,TargetReleaseBundle.fits,officialTarget,official_fits stable contractFits control,contractsFit,contractFits]

theorem officialRoute_key {version version' contract other : String} :
    targetRouteKey (officialRoute version contract) = targetRouteKey (officialRoute version' other) ↔
      contract = other := by
  constructor
  · intro same
    have parts : [contract,"update",updateTargetProtocol] = [other,"update",updateTargetProtocol] :=
      texts_injective same
    exact List.head_eq_of_cons_eq parts
  · rintro rfl
    rfl

def firstCatalog : TargetReleaseCatalog := ⟨1,[officialTarget "1.0.0" "a"],[officialRoute "1.0.0" "a"]⟩

def secondCatalog : TargetReleaseCatalog := ⟨2,[officialTarget "2.0.0" "a"],[officialRoute "2.0.0" "a"]⟩

def thirdCatalog : TargetReleaseCatalog :=
  ⟨3,[officialTarget "2.0.0" "a",officialTarget "1.0.0" "b"],[officialRoute "2.0.0" "a",officialRoute "1.0.0" "b"]⟩

theorem officialRoute_fits {version contract : String} (stable : stableVersion version = true)
    (contractFits : isOpaqueProtocol contract = true) : targetFamily.routeFits (officialRoute version contract) = true := by
  have control : isOpaqueProtocol "update" = true := by decide
  simp [targetFamily,officialRoute,stable,contractFits,control]

theorem stable_first : stableVersion "1.0.0" = true := by decide

theorem stable_second : stableVersion "2.0.0" = true := by decide

theorem opaque_contracts : isOpaqueProtocol "a" = true ∧ isOpaqueProtocol "b" = true := by decide

theorem single_fits {version contract : String} (stable : stableVersion version = true)
    (contractFits : isOpaqueProtocol contract = true) {revision : Nat} (counted : revisionFits revision = true) :
    targetFamily.fitsCatalog ⟨revision,[officialTarget version contract],[officialRoute version contract]⟩ = true := by
  have bundle := official_target_fits stable contractFits
  have route := officialRoute_fits stable contractFits
  have carries : targetFamily.carries (officialTarget version contract) (officialRoute version contract) = true := by
    simp [targetFamily,officialTarget,officialRoute]
  have version_ : targetFamily.version (officialTarget version contract) =
    targetFamily.routeVersion (officialRoute version contract) := rfl
  simp [Family.fitsCatalog,counted,bundle,route,carries,version_]

theorem third_fits : targetFamily.fitsCatalog thirdCatalog = true := by
  have older := official_target_fits stable_first opaque_contracts.2
  have newer := official_target_fits stable_second opaque_contracts.1
  have oldRoute := officialRoute_fits stable_first opaque_contracts.2
  have newRoute := officialRoute_fits stable_second opaque_contracts.1
  have keys : targetFamily.routeKey (officialRoute "2.0.0" "a") ≠ targetFamily.routeKey (officialRoute "1.0.0" "b") :=
    fun same => absurd (officialRoute_key.mp same) (by decide)
  have oldVersion : targetFamily.version (officialTarget "1.0.0" "b") = "1.0.0" := rfl
  have newVersion : targetFamily.version (officialTarget "2.0.0" "a") = "2.0.0" := rfl
  have oldRouteVersion : targetFamily.routeVersion (officialRoute "1.0.0" "b") = "1.0.0" := rfl
  have newRouteVersion : targetFamily.routeVersion (officialRoute "2.0.0" "a") = "2.0.0" := rfl
  have oldCarries : targetFamily.carries (officialTarget "1.0.0" "b") (officialRoute "1.0.0" "b") = true := by
    simp [targetFamily,officialTarget,officialRoute]
  have newCarries : targetFamily.carries (officialTarget "2.0.0" "a") (officialRoute "2.0.0" "a") = true := by
    simp [targetFamily,officialTarget,officialRoute]
  have bundles : thirdCatalog.bundles.all targetFamily.fits = true := by
    simp only [thirdCatalog,List.all_cons,List.all_nil,older,newer,Bool.and_self]
  have routes : thirdCatalog.routes.all targetFamily.routeFits = true := by
    simp only [thirdCatalog,List.all_cons,List.all_nil,oldRoute,newRoute,Bool.and_self]
  have versions : (thirdCatalog.bundles.map targetFamily.version).Nodup := by
    simp [thirdCatalog,oldVersion,newVersion]
  have distinct : (thirdCatalog.routes.map targetFamily.routeKey).Nodup := by
    simp [thirdCatalog,keys]
  have led : (thirdCatalog.bundles.all fun b => thirdCatalog.routes.any fun r =>
      targetFamily.routeVersion r = targetFamily.version b) = true := by
    simp [thirdCatalog,oldVersion,newVersion,oldRouteVersion,newRouteVersion]
  have counted : revisionFits thirdCatalog.revision = true := by decide
  have few : thirdCatalog.bundles.length ≤ 64 ∧ thirdCatalog.routes.length ≤ 256 := by
    simp [thirdCatalog]
  simp only [Family.fitsCatalog,counted,few.1,few.2,bundles,routes,versions,distinct,led,decide_true,Bool.and_self,
    Bool.true_and,Bool.and_true]
  simp [thirdCatalog,List.find?_cons,oldVersion,newVersion,oldRouteVersion,newRouteVersion,oldCarries,newCarries]

theorem counted : revisionFits 1 = true ∧ revisionFits 2 = true := by decide

theorem first_merged : targetFamily.merge none (officialTarget "1.0.0" "a") = .ok firstCatalog := by
  have fits := official_target_fits stable_first opaque_contracts.1
  have moved : targetFamily.advanceAll (officialTarget "1.0.0" "a") ["a"] ([],false) = ([officialRoute "1.0.0" "a"],true) := rfl
  refine Family.merge_moved fits nofun rfl moved ?_ (single_fits stable_first opaque_contracts.1 counted.1) ?_
  · decide
  · simp [Family.base,Family.retained,firstCatalog,targetFamily,officialTarget,officialRoute]

theorem second_merged : targetFamily.merge (some firstCatalog) (officialTarget "2.0.0" "a") = .ok secondCatalog := by
  have fits := official_target_fits stable_second opaque_contracts.1
  have newer : compareVersion "2.0.0" "1.0.0" = .gt := by decide
  have moved : targetFamily.advanceAll (officialTarget "2.0.0" "a") ["a"] ([officialRoute "1.0.0" "a"],false) =
      ([officialRoute "2.0.0" "a"],true) := by
    simp [targetFamily,officialTarget,officialRoute,Family.advanceAll,Family.advance,targetRouteKey,newer]
  refine Family.merge_moved fits ?_ ?_ moved ?_ (single_fits stable_second opaque_contracts.1 counted.2) ?_
  · rintro p ⟨⟩
    exact single_fits stable_first opaque_contracts.1 counted.1
  · simp [Family.conflicts,Family.base,firstCatalog,targetFamily,officialTarget]
  · decide
  · simp [Family.base,Family.retained,firstCatalog,secondCatalog,targetFamily,officialTarget,officialRoute]

theorem third_merged : targetFamily.merge (some secondCatalog) (officialTarget "1.0.0" "b") = .ok thirdCatalog := by
  have fits := official_target_fits stable_first opaque_contracts.2
  have keys : targetFamily.routeKey (officialRoute "2.0.0" "a") ≠ targetFamily.routeKey (officialRoute "1.0.0" "b") :=
    fun same => absurd (officialRoute_key.mp same) (by decide)
  have route : targetFamily.route (officialTarget "1.0.0" "b") "b" = officialRoute "1.0.0" "b" := rfl
  have moved : targetFamily.advanceAll (officialTarget "1.0.0" "b") ["b"] ([officialRoute "2.0.0" "a"],false) =
      ([officialRoute "2.0.0" "a",officialRoute "1.0.0" "b"],true) := by
    simp [route,Family.advanceAll,Family.advance,keys]
  refine Family.merge_moved fits ?_ ?_ moved ?_ third_fits ?_
  · rintro p ⟨⟩
    exact single_fits stable_second opaque_contracts.1 counted.2
  · simp [Family.conflicts,Family.base,secondCatalog,targetFamily,officialTarget]
  · decide
  · simp [Family.base,Family.retained,secondCatalog,thirdCatalog,targetFamily,officialTarget,officialRoute]

theorem superseding_published : targetFamily.Published [officialTarget "1.0.0" "a",officialTarget "2.0.0" "a"]
    [firstCatalog,secondCatalog] (some secondCatalog) :=
  .merged [officialTarget "1.0.0" "a"] [firstCatalog] (some firstCatalog) _ _
    (.merged [] [] none _ _ .nil first_merged) second_merged

theorem returning_published : targetFamily.Published [officialTarget "1.0.0" "a",officialTarget "2.0.0" "a",
    officialTarget "1.0.0" "b"] [firstCatalog,secondCatalog,thirdCatalog] (some thirdCatalog) :=
  .merged [officialTarget "1.0.0" "a",officialTarget "2.0.0" "a"] [firstCatalog,secondCatalog] (some secondCatalog) _ _
    superseding_published third_merged

theorem officialTarget_fingerprint {version contract contract' : String}
    (alike : targetFamily.fingerprint (officialTarget version contract) =
      targetFamily.fingerprint (officialTarget version contract')) : contract = contract' := by
  have managed : managedReleaseBundleFingerprint (.target (officialTarget version contract)) =
      managedReleaseBundleFingerprint (.target (officialTarget version contract')) := alike
  have base := base_of_fingerprint managed
  simp only [ManagedReleaseBundle.base,releaseBundleFingerprint] at base
  have left : Json.Integral (.obj ((officialTarget version contract).members "atape.release-bundle.v1")) :=
    integral_members _ _
  have right : Json.Integral (.obj ((officialTarget version contract').members "atape.release-bundle.v1")) :=
    integral_members _ _
  have same := stringify_injective left right base
  simp only [ReleaseBundle.members,Json.obj.injEq,List.cons.injEq,Prod.mk.injEq,Json.str.injEq,true_and] at same
  exact same.2.1

theorem returning_rejected (collate : String → String → Bool) :
    ¬AcceptsAll targetDesk (latestTarget collate) [firstCatalog,secondCatalog,thirdCatalog] := by
  intro accepts
  have asks : Asks collate targetChannel (latestTarget collate) := fun _ _ => ⟨_,rfl⟩
  have first : officialTarget "1.0.0" "a" ∈ firstCatalog.bundles := List.mem_singleton.mpr rfl
  have third : officialTarget "1.0.0" "b" ∈ thirdCatalog.bundles := List.mem_cons_of_mem _ (List.mem_singleton.mpr rfl)
  have same := accepts_same asks returning_published accepts (Nat.zero_le 2) rfl rfl first third rfl
  exact absurd (officialTarget_fingerprint same) (by decide)

/-- The catalogs that an honest publisher makes are accepted by every client that has seen
any of those before, if and only if no version comes back as another bundle once it had
moved a route. -/
theorem catalogs_accepted (collate : String → String → Bool) :
    (∀ bs cs last, migrationFamily.Published bs cs last →
      (AcceptsAll migrationDesk (latestMigration collate) cs ↔ migrationFamily.Stable bs)) ∧
    ∀ bs cs last, targetFamily.Published bs cs last →
      (AcceptsAll targetDesk (latestTarget collate) cs ↔ targetFamily.Stable bs) := by
  have migration : Asks collate migrationChannel (latestMigration collate) := fun _ _ => ⟨_,rfl⟩
  have target : Asks collate targetChannel (latestTarget collate) := fun _ _ => ⟨_,rfl⟩
  refine ⟨?_,?_⟩
  · intro bs cs last published
    exact ⟨stable_accepts migration published,acceptsAll_stable migration published⟩
  · intro bs cs last published
    exact ⟨stable_accepts target published,acceptsAll_stable target published⟩

theorem catalogs_accepted_superseded :
    targetFamily.Published [officialTarget "1.0.0" "a",officialTarget "2.0.0" "a"] [firstCatalog,secondCatalog]
      (some secondCatalog) ∧
    AcceptsAll targetDesk (latestTarget fun a b => units a ≤ units b) [firstCatalog,secondCatalog] := by
  refine ⟨superseding_published,((catalogs_accepted _).2 _ _ _ superseding_published).mpr ?_⟩
  have among : ∀ b, targetFamily.EffectiveIn [officialTarget "1.0.0" "a",officialTarget "2.0.0" "a"] b →
      b = officialTarget "1.0.0" "a" ∨ b = officialTarget "2.0.0" "a" := by
    rintro b ⟨earlier,later,same,_⟩
    have member : b ∈ [officialTarget "1.0.0" "a",officialTarget "2.0.0" "a"] := by
      rw [same]
      simp
    simpa using member
  have apart : targetFamily.version (officialTarget "1.0.0" "a") ≠ targetFamily.version (officialTarget "2.0.0" "a") := by
    simp [targetFamily,officialTarget]
  intro b b' effective effective' version
  rcases among b effective with rfl | rfl <;> rcases among b' effective' with rfl | rfl
  · rfl
  · exact absurd version apart
  · exact absurd version.symm apart
  · rfl

/-- A client that has seen the first catalog rejects the third, whose publisher had forgotten
the bundle of the first. -/
theorem returning_version_rejected :
    targetFamily.Published [officialTarget "1.0.0" "a",officialTarget "2.0.0" "a",officialTarget "1.0.0" "b"]
      [firstCatalog,secondCatalog,thirdCatalog] (some thirdCatalog) ∧
    ¬AcceptsAll targetDesk (latestTarget fun a b => units a ≤ units b) [firstCatalog,secondCatalog,thirdCatalog] :=
  ⟨returning_published,returning_rejected _⟩

end ATape.Release
