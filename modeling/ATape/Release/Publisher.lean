import ATape.Release.Catalogs

/-! The publisher. What a bundle that is merged does to the routes of a catalog, and so
what a sequence of merged bundles makes of them: each route leads to the newest of the
bundles that gave it, and the bundles of the catalog are some of those that moved one. -/
namespace ATape.Release
open Foundation Node

namespace Family
variable {β ρ : Type} (F : Family β ρ)

def leads (routes : List ρ) (key : String) : Option String :=
  (routes.find? fun r => F.routeKey r = key).map F.routeVersion

def Below (routes : List ρ) (key version : String) : Prop :=
  ∀ v, F.leads routes key = some v → rank v < rank version

/-- The route of a bundle is of its version. -/
structure Lawful : Prop where
  version : ∀ b contract, F.routeVersion (F.route b contract) = F.version b

def raise (version : String) : Option String → String
  | none => version
  | some v => if rank v < rank version then version else v

@[simp] theorem leads_nil (key : String) : F.leads [] key = none := rfl

theorem leads_cons (r : ρ) (routes : List ρ) (key : String) :
    F.leads (r::routes) key = if F.routeKey r = key then some (F.routeVersion r) else F.leads routes key := by
  unfold leads
  rw [List.find?_cons]
  split <;> simp_all

theorem leads_advance (route : ρ) (routes : List ρ) (key : String) :
    F.leads (F.advance route routes).1 key =
      if F.routeKey route = key then some (raise (F.routeVersion route) (F.leads routes key)) else F.leads routes key := by
  induction routes with
  | nil =>
    rw [advance,leads_cons]
    rfl
  | cons item routes ih =>
    rw [advance]
    split
    next same =>
      split
      next newer =>
        rw [compareVersion_gt] at newer
        simp only [leads_cons,same]
        split <;> simp [raise,newer]
      next older =>
        rw [compareVersion_gt] at older
        simp only [leads_cons,same]
        split <;> simp [raise,older]
    next other =>
      simp only [leads_cons,ih]
      split
      next first =>
        rw [if_neg (fun same => other (first.trans same.symm))]
      next => rfl

theorem moved_advance (route : ρ) (routes : List ρ) :
    (F.advance route routes).2 = true ↔ F.Below routes (F.routeKey route) (F.routeVersion route) := by
  unfold Below
  induction routes with
  | nil => simp [advance]
  | cons item routes ih =>
    rw [advance]
    simp only [leads_cons]
    split
    next same => split <;> simp_all [compareVersion_gt]
    next other => simpa using ih

theorem raise_some (version v : String) : raise version (some v) = if rank v < rank version then version else v := rfl

theorem rank_raise (version : String) (v : Option String) : rank version ≤ rank (raise version v) := by
  cases v with
  | none => exact le_rfl
  | some v =>
    rw [raise_some]
    split
    next => exact le_rfl
    next older => exact not_lt.mp older

theorem raise_raise (version : String) (v : Option String) :
    raise version (some (raise version v)) = raise version v := by
  rw [raise_some,if_neg (not_lt.mpr (rank_raise version v))]

theorem raise_le (version v : String) : rank v ≤ rank (raise version (some v)) := by
  rw [raise_some]
  split
  next newer => exact newer.le
  next => exact le_rfl

variable {F}

theorem leads_advanceAll (lawful : F.Lawful) (b : β) (contracts : List String) (routes : List ρ) (changed : Bool)
    (key : String) : F.leads (F.advanceAll b contracts (routes,changed)).1 key =
      if ∃ c ∈ contracts, F.routeKey (F.route b c) = key then some (raise (F.version b) (F.leads routes key))
      else F.leads routes key := by
  induction contracts generalizing routes changed with
  | nil => simp [advanceAll]
  | cons c contracts ih =>
    rw [advanceAll,ih,leads_advance,lawful.version]
    simp only [List.mem_cons,exists_eq_or_imp]
    by_cases first : F.routeKey (F.route b c) = key
    · simp only [first,if_true,true_or,raise_raise,ite_self]
    · simp only [first,if_false,false_or]

theorem moved_advanceAll (lawful : F.Lawful) (b : β) (contracts : List String) (routes : List ρ) (changed : Bool) :
    (F.advanceAll b contracts (routes,changed)).2 = true ↔
      changed = true ∨ ∃ c ∈ contracts, F.Below routes (F.routeKey (F.route b c)) (F.version b) := by
  induction contracts generalizing routes changed with
  | nil => simp [advanceAll]
  | cons c contracts ih =>
    rw [advanceAll,ih,Bool.or_eq_true,moved_advance,lawful.version,or_assoc]
    simp only [List.mem_cons,exists_eq_or_imp]
    refine or_congr_right ?_
    by_cases moved : F.Below routes (F.routeKey (F.route b c)) (F.version b)
    · simp [moved]
    · simp only [moved,false_or]
      refine exists_congr fun other => and_congr_right fun _ => ?_
      unfold Below
      rw [leads_advance,lawful.version]
      split
      next same =>
        rw [← same]
        constructor
        · intro below
          exact absurd (below _ rfl) (not_lt.mpr (rank_raise _ _))
        · exact fun below => absurd below moved
      next => rfl

/-! What a merge does. -/

def Moves (F : Family β ρ) (routes : List ρ) (b : β) : Prop :=
  ∃ c ∈ F.contracts b, F.Below routes (F.routeKey (F.route b c)) (F.version b)

def base (previous : Option (Catalog β ρ)) : Catalog β ρ := previous.getD ⟨0,[],[]⟩

theorem merge_ok {previous : Option (Catalog β ρ)} {b : β} {c : Catalog β ρ} (lawful : F.Lawful)
    (merged : F.merge previous b = .ok c) :
    F.fits b = true ∧ F.fitsCatalog c = true ∧ F.conflicts (base previous).bundles b = false ∧
      (¬F.Moves (base previous).routes b ∧ previous = some c ∨
        F.Moves (base previous).routes b ∧ c.revision = (base previous).revision+1 ∧
          c.routes = (F.advanceAll b (F.contracts b) ((base previous).routes,false)).1 ∧
            c.bundles = F.retained (base previous).bundles b c.routes) := by
  unfold merge at merged
  simp only [bind_ok,decode_ok] at merged
  obtain ⟨_,⟨fits,rfl⟩,catalog,found,merged⟩ := merged
  have same : catalog = base previous := by
    cases previous with
    | none => exact ((pure_ok _ _).mp found).symm
    | some previous => exact ((decode_ok _ _ _).mp found).2.symm
  subst same
  split at merged
  next => cases merged
  next fresh =>
    have moved := moved_advanceAll lawful b (F.contracts b) (base previous).routes false
    simp only [Bool.false_eq_true,false_or] at moved
    split at merged
    next still =>
      obtain ⟨fitting,rfl⟩ := (decode_ok _ _ _).mp merged
      refine ⟨fits,fitting,by simpa using fresh,.inl ⟨?_,?_⟩⟩
      · intro moves
        rw [moved.mpr moves] at still
        cases still
      · cases previous with
        | none => simp [base,fitsCatalog,revisionFits] at fitting
        | some previous => rfl
    next moves =>
      split at merged
      next => cases merged
      next =>
        obtain ⟨fitting,rfl⟩ := (decode_ok _ _ _).mp merged
        exact ⟨fits,fitting,by simpa using fresh,.inr ⟨moved.mp (by simpa using moves),rfl,rfl,rfl⟩⟩

theorem merge_moved {previous : Option (Catalog β ρ)} {b : β} {c : Catalog β ρ} (fits : F.fits b = true)
    (checked : ∀ p, previous = some p → F.fitsCatalog p = true) (fresh : F.conflicts (base previous).bundles b = false)
    {routes : List ρ} (moved : F.advanceAll b (F.contracts b) ((base previous).routes,false) = (routes,true))
    (room : (base previous).revision ≠ maxSafeInteger) (fitting : F.fitsCatalog c = true)
    (same : (⟨(base previous).revision+1,F.retained (base previous).bundles b routes,routes⟩ : Catalog β ρ) = c) :
    F.merge previous b = .ok c := by
  have found : F.before previous = .ok (base previous) := by
    cases previous with
    | none => rfl
    | some p => exact (decode_ok _ _ _).mpr ⟨checked p rfl,rfl⟩
  unfold merge
  rw [(decode_ok _ _ _).mpr ⟨fits,rfl⟩,ok_bind,found,ok_bind,if_neg (by simp [fresh]),moved]
  simp only [Bool.true_eq_false,if_false,if_neg room,same]
  exact (decode_ok _ _ _).mpr ⟨fitting,rfl⟩

/-! A sequence of merges. -/

/-- The catalogs that bundles make one after the other, and the last of them. -/
inductive Published (F : Family β ρ) : List β → List (Catalog β ρ) → Option (Catalog β ρ) → Prop
  | nil : Published F [] [] none
  | merged (bs cs last b c) (before : Published F bs cs last) (ok : F.merge last b = .ok c) :
    Published F (bs++[b]) (cs++[c]) (some c)

def Gives (F : Family β ρ) (b : β) (key : String) : Prop := ∃ c ∈ F.contracts b, F.routeKey (F.route b c) = key

/-- A bundle that gives a route with a key that all earlier ones give for older versions. -/
def Effective (F : Family β ρ) (earlier : List β) (b : β) : Prop :=
  ∃ key, F.Gives b key ∧ ∀ b' ∈ earlier, F.Gives b' key → rank (F.version b') < rank (F.version b)

def EffectiveIn (F : Family β ρ) (bs : List β) (b : β) : Prop :=
  ∃ earlier later, bs = earlier++b::later ∧ F.Effective earlier b

def Describes (F : Family β ρ) (bs : List β) (routes : List ρ) : Prop :=
  ∀ key w, (∀ v, F.leads routes key = some v → rank v < w) ↔ ∀ b ∈ bs, F.Gives b key → rank (F.version b) < w

/-- Where one catalog comes after another. -/
structure Follows (F : Family β ρ) (c c' : Catalog β ρ) : Prop where
  revision : c.revision < c'.revision ∨ c = c'
  routes : ∀ key v, F.leads c.routes key = some v → ∃ v', F.leads c'.routes key = some v' ∧ rank v ≤ rank v'

theorem Follows.refl (c : Catalog β ρ) : F.Follows c c := ⟨.inr rfl,fun _ v leads => ⟨v,leads,le_rfl⟩⟩

theorem Follows.trans {a b c : Catalog β ρ} (first : F.Follows a b) (second : F.Follows b c) : F.Follows a c := by
  constructor
  · rcases first.revision with below | rfl
    · rcases second.revision with above | rfl
      · exact .inl (below.trans above)
      · exact .inl below
    · exact second.revision
  · intro key v leads
    obtain ⟨v',leads',newer⟩ := first.routes key v leads
    obtain ⟨v'',leads'',newest⟩ := second.routes key v' leads'
    exact ⟨v'',leads'',newer.trans newest⟩

theorem moves_effective {bs : List β} {routes : List ρ} {b : β} (describes : F.Describes bs routes) :
    F.Moves routes b ↔ F.Effective bs b := by
  constructor
  · rintro ⟨c,member,below⟩
    exact ⟨_,⟨c,member,rfl⟩,(describes _ _).mp below⟩
  · rintro ⟨key,⟨c,member,rfl⟩,newest⟩
    exact ⟨c,member,(describes _ _).mpr newest⟩

theorem rank_raise_lt {version : String} {o : Option String} {w : Nat ×ₗ Nat ×ₗ Nat} :
    rank (raise version o) < w ↔ rank version < w ∧ ∀ v, o = some v → rank v < w := by
  cases o with
  | none => simp [raise]
  | some v =>
    rw [raise_some]
    split
    next newer =>
      refine ⟨fun below => ⟨below,?_⟩,fun both => both.1⟩
      intro v' same
      exact Option.some.inj same ▸ newer.trans below
    next older =>
      refine ⟨fun below => ⟨(not_lt.mp older).trans_lt below,?_⟩,fun both => both.2 v rfl⟩
      intro v' same
      exact Option.some.inj same ▸ below

theorem describes_still {bs : List β} {routes : List ρ} {b : β} (describes : F.Describes bs routes)
    (still : ¬F.Moves routes b) : F.Describes (bs++[b]) routes := by
  intro key w
  rw [describes key w]
  simp only [List.mem_append,List.mem_singleton,or_imp,forall_and,forall_eq]
  refine ⟨fun below => ⟨below,?_⟩,fun both => both.1⟩
  intro gives
  by_contra above
  apply still
  obtain ⟨c,member,rfl⟩ := gives
  refine ⟨c,member,?_⟩
  intro v leads
  exact ((describes _ w).mpr below v leads).trans_le (not_lt.mp above)

theorem describes_moved {bs : List β} {routes : List ρ} {b : β} (lawful : F.Lawful) (describes : F.Describes bs routes)
    (changed : Bool) : F.Describes (bs++[b]) (F.advanceAll b (F.contracts b) (routes,changed)).1 := by
  intro key w
  rw [leads_advanceAll lawful]
  simp only [List.mem_append,List.mem_singleton,or_imp,forall_and,forall_eq]
  rw [← describes key w]
  split
  next gives =>
    simp only [Option.some.injEq,forall_eq']
    rw [rank_raise_lt,and_comm]
    exact and_congr_right fun _ => (imp_iff_right gives).symm
  next other => exact (and_iff_left fun gives => absurd gives other).symm

theorem merge_follows {last : Option (Catalog β ρ)} {b : β} {c : Catalog β ρ} (lawful : F.Lawful)
    (merged : F.merge last b = .ok c) : F.Follows (base last) c := by
  obtain ⟨_,_,_,⟨_,rfl⟩ | ⟨_,next,routes,_⟩⟩ := merge_ok lawful merged
  · exact Follows.refl c
  · refine ⟨.inl (by omega),?_⟩
    intro key v leads
    rw [routes,leads_advanceAll lawful,leads]
    split
    next => exact ⟨_,rfl,raise_le _ _⟩
    next => exact ⟨v,rfl,le_rfl⟩

theorem effectiveIn_snoc {bs : List β} {b item : β} :
    F.EffectiveIn (bs++[b]) item ↔ F.EffectiveIn bs item ∨ item = b ∧ F.Effective bs b := by
  constructor
  · rintro ⟨earlier,later,same,newest⟩
    rcases List.eq_nil_or_concat later with rfl | ⟨later,end_,rfl⟩
    · obtain ⟨rfl,new⟩ := List.append_inj' same rfl
      obtain rfl := List.head_eq_of_cons_eq new
      exact .inr ⟨rfl,newest⟩
    · have moved : bs++[b] = (earlier++item::later)++[end_] := by
        simpa using same
      exact .inl ⟨earlier,later,(List.append_inj' moved rfl).1,newest⟩
  · rintro (⟨earlier,later,rfl,newest⟩ | ⟨rfl,newest⟩)
    · exact ⟨earlier,later++[b],by simp,newest⟩
    · exact ⟨bs,[],rfl,newest⟩

theorem retained_subset {bundles : List β} {b item : β} {routes : List ρ} (kept : item ∈ F.retained bundles b routes) :
    item ∈ bundles ∨ item = b := by
  simp only [retained,List.mem_filter,List.mem_append,List.mem_singleton] at kept
  rcases kept.1 with old | new
  · exact .inl old.1
  · exact .inr new

theorem retained_new {routes : List ρ} {bundles : List β} {b : β} (lawful : F.Lawful) (moves : F.Moves routes b) :
    b ∈ F.retained bundles b (F.advanceAll b (F.contracts b) (routes,false)).1 := by
  obtain ⟨contract,member,below⟩ := moves
  simp only [retained,List.mem_filter,List.mem_append,List.mem_singleton,or_true,true_and]
  have found := leads_advanceAll lawful b (F.contracts b) routes false (F.routeKey (F.route b contract))
  rw [if_pos ⟨contract,member,rfl⟩] at found
  have raised : raise (F.version b) (F.leads routes (F.routeKey (F.route b contract))) = F.version b := by
    cases before : F.leads routes (F.routeKey (F.route b contract)) with
    | none => rfl
    | some v => rw [raise_some,if_pos (below v before)]
  rw [raised] at found
  obtain ⟨r,there,version⟩ := Option.map_eq_some_iff.mp found
  exact List.any_eq_true.mpr ⟨r,List.mem_of_find?_eq_some there,decide_eq_true version⟩

namespace Published
variable {bs : List β} {cs : List (Catalog β ρ)} {last : Option (Catalog β ρ)}

theorem describes (lawful : F.Lawful) (published : F.Published bs cs last) : F.Describes bs (base last).routes := by
  induction published with
  | nil => simp [Describes,base]
  | merged bs cs last b c _ ok ih =>
    obtain ⟨_,_,_,⟨still,rfl⟩ | ⟨_,_,routes,_⟩⟩ := merge_ok lawful ok
    · exact describes_still ih still
    · rw [show (base (some c)).routes = c.routes from rfl,routes]
      exact describes_moved lawful ih false

theorem followed (lawful : F.Lawful) (published : F.Published bs cs last) : ∀ c ∈ cs, F.Follows c (base last) := by
  induction published with
  | nil => nofun
  | merged bs cs last b c _ ok ih =>
    intro c' member
    rcases List.mem_append.mp member with earlier | new
    · exact (ih c' earlier).trans (merge_follows lawful ok)
    · rw [List.mem_singleton.mp new]
      exact Follows.refl c

theorem pairwise (lawful : F.Lawful) (published : F.Published bs cs last) : cs.Pairwise F.Follows := by
  induction published with
  | nil => exact .nil
  | merged bs cs last b c before ok ih =>
    refine List.pairwise_append.mpr ⟨ih,List.pairwise_singleton _ _,?_⟩
    intro c' earlier new member
    rw [List.mem_singleton.mp member]
    exact (before.followed lawful c' earlier).trans (merge_follows lawful ok)

theorem fits (lawful : F.Lawful) (published : F.Published bs cs last) : ∀ c ∈ cs, F.fitsCatalog c = true := by
  induction published with
  | nil => nofun
  | merged bs cs last b c _ ok ih =>
    intro c' member
    rcases List.mem_append.mp member with earlier | new
    · exact ih c' earlier
    · rw [List.mem_singleton.mp new]
      exact (merge_ok lawful ok).2.1

theorem effective_last (lawful : F.Lawful) (published : F.Published bs cs last) :
    ∀ b ∈ (base last).bundles, F.EffectiveIn bs b := by
  induction published with
  | nil => nofun
  | merged bs cs last b c before ok ih =>
    intro item member
    obtain ⟨_,_,_,⟨_,rfl⟩ | ⟨moves,_,_,bundles⟩⟩ := merge_ok lawful ok
    · exact effectiveIn_snoc.mpr (.inl (ih item member))
    · rw [show (base (some c)).bundles = c.bundles from rfl,bundles] at member
      rcases retained_subset member with old | rfl
      · exact effectiveIn_snoc.mpr (.inl (ih item old))
      · exact effectiveIn_snoc.mpr (.inr ⟨rfl,(moves_effective (before.describes lawful)).mp moves⟩)

theorem effective (lawful : F.Lawful) (published : F.Published bs cs last) :
    ∀ b, (∃ c ∈ cs, b ∈ c.bundles) ↔ F.EffectiveIn bs b := by
  induction published with
  | nil => simp [EffectiveIn]
  | merged bs cs last b c before ok ih =>
    intro item
    constructor
    · rintro ⟨c',member,inside⟩
      rcases List.mem_append.mp member with earlier | new
      · exact effectiveIn_snoc.mpr (.inl ((ih item).mp ⟨c',earlier,inside⟩))
      · rw [List.mem_singleton.mp new] at inside
        exact effective_last lawful (.merged bs cs last b c before ok) item inside
    · intro effective
      rcases effectiveIn_snoc.mp effective with earlier | ⟨rfl,newest⟩
      · obtain ⟨c',member,inside⟩ := (ih item).mpr earlier
        exact ⟨c',List.mem_append_left _ member,inside⟩
      · have moves := (moves_effective (before.describes lawful)).mpr newest
        obtain ⟨_,_,_,⟨still,_⟩ | ⟨_,_,routes,bundles⟩⟩ := merge_ok lawful ok
        · exact absurd moves still
        · refine ⟨c,by simp,?_⟩
          rw [bundles,routes]
          exact retained_new lawful moves

end Published
end Family
end ATape.Release
