import ATape.Release.Discovery
import ATape.Release.Publisher

/-! What a client selects from a catalog. It is one of the bundles that the client can
follow and none that it can follow is newer, so that it does not get older where no route
does. -/
namespace ATape.Release
open Foundation Node

namespace Family
variable {β ρ : Type} {F : Family β ρ} {c c' : Catalog β ρ}

theorem fits_catalog (fits : F.fitsCatalog c = true) : (∀ b ∈ c.bundles, F.fits b = true) ∧
    (c.bundles.map F.version).Nodup ∧ (c.routes.map F.routeKey).Nodup ∧
      ∀ r ∈ c.routes, ∃ b, c.bundles.find? (fun b => F.version b = F.routeVersion r) = some b ∧ F.carries b r = true := by
  simp only [fitsCatalog,Bool.and_eq_true,List.all_eq_true,decide_eq_true_eq] at fits
  obtain ⟨⟨⟨⟨⟨⟨⟨⟨_,_⟩,bundles⟩,_⟩,_⟩,versions⟩,keys⟩,routes⟩,_⟩ := fits
  refine ⟨bundles,versions,keys,?_⟩
  intro r member
  have carried := routes r member
  split at carried
  next b found => exact ⟨b,found,carried⟩
  next => cases carried

/-- Where no route gets older. -/
def Monotone (F : Family β ρ) (c c' : Catalog β ρ) : Prop :=
  ∀ key v, F.leads c.routes key = some v → ∃ v', F.leads c'.routes key = some v' ∧ rank v ≤ rank v'

theorem leads_some {routes : List ρ} {key v : String} (leads : F.leads routes key = some v) :
    ∃ r ∈ routes, F.routeKey r = key ∧ F.routeVersion r = v := by
  obtain ⟨r,found,version⟩ := Option.map_eq_some_iff.mp leads
  exact ⟨r,List.mem_of_find?_eq_some found,by simpa using List.find?_some found,version⟩

theorem leads_member {routes : List ρ} (keys : (routes.map F.routeKey).Nodup) {r : ρ} (member : r ∈ routes) :
    F.leads routes (F.routeKey r) = some (F.routeVersion r) := by
  induction routes with
  | nil => cases member
  | cons item routes ih =>
    rw [leads_cons]
    rw [List.map_cons,List.nodup_cons] at keys
    rcases List.mem_cons.mp member with rfl | later
    · rw [if_pos rfl]
    · rw [if_neg,ih keys.2 later]
      intro same
      exact keys.1 (same ▸ List.mem_map_of_mem later)

end Family

section Routes
variable {β ρ : Type} {C : Channel β ρ} {c c' : Catalog β ρ}

theorem routesAdvance_monotone (advance : routesAdvance C c c' = true) : C.family.Monotone c c' := by
  intro key v leads
  obtain ⟨r,member,rfl,rfl⟩ := Family.leads_some leads
  have checked := List.all_eq_true.mp advance r member
  split at checked
  next after found =>
    refine ⟨C.family.routeVersion after,by simp [Family.leads,found],?_⟩
    have kept : ¬ compareVersion (C.family.routeVersion after) (C.family.routeVersion r) = .lt := by
      simpa using checked
    rw [compareVersion_lt] at kept
    exact not_lt.mp kept
  next => cases checked

theorem monotone_routesAdvance (fits : C.family.fitsCatalog c = true) (monotone : C.family.Monotone c c') :
    routesAdvance C c c' = true := by
  refine List.all_eq_true.mpr fun r member => ?_
  obtain ⟨v',leads,newer⟩ := monotone _ _ (Family.leads_member (Family.fits_catalog fits).2.2.1 member)
  obtain ⟨after,found,rfl⟩ := Option.map_eq_some_iff.mp leads
  rw [found]
  have kept : ¬ compareVersion (C.family.routeVersion after) (C.family.routeVersion r) = .lt := by
    rw [compareVersion_lt]
    exact not_lt.mpr newer
  simpa using kept

end Routes

/-- The routes that a client can follow, and what it selects among them. -/
structure Choice {β ρ : Type} (C : Channel β ρ) where
  follows : Options → ρ → Bool
  same : ∀ o r r', C.family.routeKey r = C.family.routeKey r' → follows o r = follows o r'
  newest : ∀ o c b, C.select o c = .ok b → C.family.fitsCatalog c = true ∧ ∃ r ∈ c.routes, follows o r = true ∧
    c.bundles.find? (fun b => C.family.version b = C.family.routeVersion r) = some b ∧
      ∀ r' ∈ c.routes, follows o r' = true → rank (C.family.routeVersion r') ≤ rank (C.family.routeVersion r)
  found : ∀ o c, C.family.fitsCatalog c = true → (∃ r ∈ c.routes, follows o r = true) → ∃ b, C.select o c = .ok b
  tells : ∀ o c failure, C.select o c = .error failure → ∀ m, failure ≠ integrityError m
  version : ∀ b, (C.wrap b).version = C.family.version b
  fits : ∀ b, (C.wrap b).fits = C.family.fits b
  capable : ∀ o b r, C.family.fits b = true → C.family.carries b r = true → follows o r = true →
    captureCompatible o (C.wrap b) = true ∧ (C.wrap b).base.updateControlProtocol = o.updateControlProtocol

namespace Choice
variable {β ρ : Type} {C : Channel β ρ} {o : Options} {c c' : Catalog β ρ} {b : β}

theorem selected (choice : Choice C) (select : C.select o c = .ok b) : C.family.fitsCatalog c = true ∧ b ∈ c.bundles ∧
    C.family.fits b = true ∧ compatible o (C.wrap b) = .ok (C.wrap b) := by
  obtain ⟨fits,r,member,follows,found,_⟩ := choice.newest o c b select
  obtain ⟨bundles,_,_,routes⟩ := Family.fits_catalog fits
  have inside := List.mem_of_find?_eq_some found
  obtain ⟨b',found',carries⟩ := routes r member
  rw [found] at found'
  cases found'
  obtain ⟨capable,control⟩ := choice.capable o b r (bundles b inside) carries follows
  refine ⟨fits,inside,bundles b inside,?_⟩
  have decoded : decode ManagedReleaseBundle.fits (C.wrap b) = .ok (C.wrap b) :=
    (decode_ok _ _ _).mpr ⟨(choice.fits b).trans (bundles b inside),rfl⟩
  simp [compatible,decoded,ok_bind,capable,control,pure,Except.pure]

theorem advances (choice : Choice C) (fits : C.family.fitsCatalog c' = true) (monotone : C.family.Monotone c c')
    (select : C.select o c = .ok b) :
    ∃ b', C.select o c' = .ok b' ∧ rank (C.family.version b) ≤ rank (C.family.version b') := by
  obtain ⟨fits₀,r,member,follows,found,_⟩ := choice.newest o c b select
  have leads := Family.leads_member (Family.fits_catalog fits₀).2.2.1 member
  obtain ⟨v',leads',newer⟩ := monotone _ _ leads
  obtain ⟨r',member',key,rfl⟩ := Family.leads_some leads'
  have follows' : choice.follows o r' = true := by
    rw [choice.same o r' r key]
    exact follows
  obtain ⟨b',select'⟩ := choice.found o c' fits ⟨r',member',follows'⟩
  obtain ⟨_,r'',_,_,found',newest⟩ := choice.newest o c' b' select'
  have version : C.family.version b = C.family.routeVersion r := by
    simpa using List.find?_some found
  have version' : C.family.version b' = C.family.routeVersion r'' := by
    simpa using List.find?_some found'
  refine ⟨b',select',?_⟩
  rw [version,version']
  exact newer.trans (newest r' member' follows')

end Choice

/-! The two kinds of catalogs with routes. -/

theorem texts_injective {texts texts' : List String}
    (alike : stringify (.arr (texts.map Json.str)) = stringify (.arr (texts'.map Json.str))) : texts = texts' := by
  have left : Json.Integral (.arr (texts.map Json.str)) := integral_texts texts
  have right : Json.Integral (.arr (texts'.map Json.str)) := integral_texts texts'
  have same := Json.arr.inj (stringify_injective left right alike)
  exact List.map_injective_iff.mpr (fun _ _ same => Json.str.inj same) same

def followsMigration (o : Options) (r : MigrationReleaseRoute) : Bool :=
  r.fromCaptureStateContract = o.captureStateContract && r.updateControlProtocol = o.updateControlProtocol &&
    (o.supportedMigrationPlans.getD []).any fun plan => plan.1 = r.migrationProtocol && plan.2 = r.migrationId

def followsTarget (o : Options) (r : TargetReleaseRoute) : Bool :=
  r.fromCaptureStateContract = o.captureStateContract && r.updateControlProtocol = o.updateControlProtocol &&
    r.updateTargetProtocol = o.updateTargetProtocol.getD ""

theorem newest_head {routes rest : List MigrationReleaseRoute} {first : MigrationReleaseRoute}
    (sorted : (routes.insertionSort fun a b => compareVersion b.version a.version ≠ .gt) = first::rest) :
    first ∈ routes ∧ ∀ r ∈ routes, rank r.version ≤ rank first.version := by
  have order : ∀ a b : MigrationReleaseRoute,
      compareVersion b.version a.version ≠ .gt ↔ rank b.version ≤ rank a.version := by
    intro a b
    rw [ne_eq,compareVersion_gt,not_lt]
  have total : Std.Total fun a b : MigrationReleaseRoute => compareVersion b.version a.version ≠ .gt := by
    refine ⟨fun a b => ?_⟩
    rw [order,order]
    exact le_total _ _
  have transitive : IsTrans MigrationReleaseRoute fun a b => compareVersion b.version a.version ≠ .gt := by
    refine ⟨fun a b c first second => ?_⟩
    rw [order] at first second ⊢
    exact second.trans first
  have ordered := List.pairwise_insertionSort (fun a b : MigrationReleaseRoute => compareVersion b.version a.version ≠ .gt)
    routes
  have members : ∀ r, r ∈ routes ↔ r ∈ first::rest := by
    intro r
    rw [← sorted,List.mem_insertionSort]
  rw [sorted,List.pairwise_cons] at ordered
  refine ⟨(members first).mpr List.mem_cons_self,?_⟩
  intro r member
  rcases List.mem_cons.mp ((members r).mp member) with rfl | later
  · exact le_rfl
  · exact (order _ _).mp (ordered.1 r later)

theorem selectMigration_ok (o : Options) (c : MigrationReleaseCatalog) (b : MigrationReleaseBundle) :
    selectMigrationReleaseBundle c o.compatibility = .ok b ↔ migrationFamily.fitsCatalog c = true ∧ ∃ r rest,
      ((c.routes.filter (followsMigration o)).insertionSort fun a b => compareVersion b.version a.version ≠ .gt) =
        r::rest ∧ c.bundles.find? (fun b => b.version = r.version) = some b := by
  simp only [selectMigrationReleaseBundle,decodeMigrationReleaseCatalog,Family.decodeCatalog,bind_ok,decode_ok]
  constructor
  · rintro ⟨_,⟨fits,rfl⟩,selected⟩
    refine ⟨fits,?_⟩
    split at selected
    next => cases selected
    next r rest sorted =>
      split at selected
      next b' found =>
        cases selected
        exact ⟨r,rest,sorted,found⟩
      next => cases selected
  · rintro ⟨fits,r,rest,sorted,found⟩
    refine ⟨c,⟨fits,rfl⟩,?_⟩
    have sorted' : (c.routes.filter fun r => r.fromCaptureStateContract = o.compatibility.captureStateContract &&
        r.updateControlProtocol = o.compatibility.updateControlProtocol &&
          o.compatibility.supportedMigrationPlans.any fun plan =>
            plan.1 = r.migrationProtocol && plan.2 = r.migrationId).insertionSort
              (fun a b => compareVersion b.version a.version ≠ .gt) = r::rest := sorted
    rw [sorted']
    simp only [found]
    rfl

def migrationChoice : Choice migrationChannel where
  follows := followsMigration
  same o r r' key := by
    have parts : [r.fromCaptureStateContract,r.updateControlProtocol,r.migrationProtocol,r.migrationId] =
        [r'.fromCaptureStateContract,r'.updateControlProtocol,r'.migrationProtocol,r'.migrationId] :=
      texts_injective key
    simp only [List.cons.injEq,and_true] at parts
    obtain ⟨contract,control,protocol,id⟩ := parts
    simp only [followsMigration,contract,control,protocol,id]
  newest o c b select := by
    obtain ⟨fits,r,rest,sorted,found⟩ := (selectMigration_ok o c b).mp select
    obtain ⟨member,newest⟩ := newest_head sorted
    obtain ⟨inside,follows⟩ := List.mem_filter.mp member
    exact ⟨fits,r,inside,follows,found,fun r' member' follows' => newest r' (List.mem_filter.mpr ⟨member',follows'⟩)⟩
  found o c fits follow := by
    obtain ⟨r,member,follows⟩ := follow
    cases sorted : (c.routes.filter (followsMigration o)).insertionSort
        fun a b => compareVersion b.version a.version ≠ .gt with
    | nil =>
      have perm := List.perm_insertionSort
        (fun a b : MigrationReleaseRoute => compareVersion b.version a.version ≠ .gt) (c.routes.filter (followsMigration o))
      rw [sorted] at perm
      exact nomatch perm.symm.mem_iff.mp (List.mem_filter.mpr ⟨member,follows⟩)
    | cons first rest =>
      have inside := (List.mem_filter.mp (newest_head sorted).1).1
      obtain ⟨b,found,_⟩ := (Family.fits_catalog fits).2.2.2 first inside
      exact ⟨b,(selectMigration_ok o c b).mpr ⟨fits,first,rest,sorted,found⟩⟩
  tells o c failure refused m := by
    simp only [migrationChannel,selectMigrationReleaseBundle,decodeMigrationReleaseCatalog,Family.decodeCatalog,
      decode] at refused
    split at refused
    next =>
      rw [ok_bind] at refused
      split at refused
      next =>
        cases refused
        nofun
      next =>
        split at refused
        next => cases refused
        next =>
          cases refused
          nofun
    next =>
      cases refused
      nofun
  version b := rfl
  fits b := rfl
  capable o b r fits carries follows := by
    simp only [migrationFamily,migrationChannel,Bool.and_eq_true,decide_eq_true_eq] at carries
    obtain ⟨⟨⟨control,protocol⟩,id⟩,contract⟩ := carries
    simp only [followsMigration,Bool.and_eq_true,decide_eq_true_eq] at follows
    obtain ⟨⟨contract',control'⟩,plans⟩ := follows
    rw [contract'] at contract
    refine ⟨?_,control.trans control'⟩
    cases known : o.supportedMigrationPlans with
    | none => simp [known] at plans
    | some known' =>
      rw [known,← protocol,← id] at plans
      simp only [captureCompatible,migrationChannel,known,contract,Bool.true_and]
      exact plans

theorem selectTarget_ok (o : Options) (c : TargetReleaseCatalog) (b : TargetReleaseBundle) :
    selectTargetReleaseBundle c o.compatibility = .ok b ↔ targetFamily.fitsCatalog c = true ∧ ∃ r,
      c.routes.find? (followsTarget o) = some r ∧ c.bundles.find? (fun b => b.version = r.version) = some b := by
  simp only [selectTargetReleaseBundle,decodeTargetReleaseCatalog,Family.decodeCatalog,bind_ok,decode_ok]
  constructor
  · rintro ⟨_,⟨fits,rfl⟩,selected⟩
    refine ⟨fits,?_⟩
    split at selected
    next => cases selected
    next r chosen =>
      split at selected
      next b' found =>
        cases selected
        exact ⟨r,chosen,found⟩
      next => cases selected
  · rintro ⟨fits,r,chosen,found⟩
    refine ⟨c,⟨fits,rfl⟩,?_⟩
    have chosen' : (c.routes.find? fun r => r.fromCaptureStateContract = o.compatibility.captureStateContract &&
        r.updateControlProtocol = o.compatibility.updateControlProtocol &&
          r.updateTargetProtocol = o.compatibility.updateTargetProtocol) = some r := chosen
    rw [chosen']
    simp only [found]
    rfl

def targetChoice : Choice targetChannel where
  follows := followsTarget
  same o r r' key := by
    have parts : [r.fromCaptureStateContract,r.updateControlProtocol,r.updateTargetProtocol] =
        [r'.fromCaptureStateContract,r'.updateControlProtocol,r'.updateTargetProtocol] := texts_injective key
    simp only [List.cons.injEq,and_true] at parts
    obtain ⟨contract,control,protocol⟩ := parts
    simp only [followsTarget,contract,control,protocol]
  newest o c b select := by
    obtain ⟨fits,r,chosen,found⟩ := (selectTarget_ok o c b).mp select
    have member := List.mem_of_find?_eq_some chosen
    have follows := List.find?_some chosen
    refine ⟨fits,r,member,follows,found,?_⟩
    -- The routes that a client can follow have one key, and so there is one.
    intro r' member' follows'
    have keys := (Family.fits_catalog fits).2.2.1
    have key : targetRouteKey r' = targetRouteKey r := by
      simp only [followsTarget,Bool.and_eq_true,decide_eq_true_eq] at follows follows'
      obtain ⟨⟨contract,control⟩,protocol⟩ := follows
      obtain ⟨⟨contract',control'⟩,protocol'⟩ := follows'
      simp only [targetRouteKey,contract,control,protocol,contract',control',protocol']
    have same := List.inj_on_of_nodup_map keys member' member key
    rw [same]
  found o c fits follow := by
    obtain ⟨r,member,follows⟩ := follow
    cases chosen : c.routes.find? (followsTarget o) with
    | none => exact absurd follows (List.find?_eq_none.mp chosen r member)
    | some first =>
      obtain ⟨b,found,_⟩ := (Family.fits_catalog fits).2.2.2 first (List.mem_of_find?_eq_some chosen)
      exact ⟨b,(selectTarget_ok o c b).mpr ⟨fits,first,chosen,found⟩⟩
  tells o c failure refused m := by
    simp only [targetChannel,selectTargetReleaseBundle,decodeTargetReleaseCatalog,Family.decodeCatalog,
      decode] at refused
    split at refused
    next =>
      rw [ok_bind] at refused
      split at refused
      next =>
        cases refused
        nofun
      next =>
        split at refused
        next => cases refused
        next =>
          cases refused
          nofun
    next =>
      cases refused
      nofun
  version b := rfl
  fits b := rfl
  capable o b r fits carries follows := by
    simp only [targetFamily,targetChannel,Bool.and_eq_true,decide_eq_true_eq] at carries
    obtain ⟨⟨control,protocol⟩,contract⟩ := carries
    simp only [followsTarget,Bool.and_eq_true,decide_eq_true_eq] at follows
    obtain ⟨⟨contract',control'⟩,protocol'⟩ := follows
    rw [contract'] at contract
    refine ⟨?_,control.trans control'⟩
    have known : b.updateTargetProtocol = updateTargetProtocol := by
      have parts : b.fits = true := fits
      simp only [TargetReleaseBundle.fits,Bool.and_eq_true,decide_eq_true_eq] at parts
      exact parts.1.2
    rw [← protocol] at protocol'
    simp only [captureCompatible,targetChannel,contract,Bool.and_true,decide_eq_true_eq]
    cases given : o.updateTargetProtocol with
    | none =>
      rw [given,known] at protocol'
      exact absurd protocol' (by decide)
    | some protocol =>
      rw [given] at protocol'
      exact congrArg some protocol'.symm

end ATape.Release
