import ATape.Release.Clients
import Mathlib.Data.List.Induction

/-! What a sequence of merged bundles makes of a catalog. Each route leads to the newest of the bundles that
give it, whatever their order was, and a catalog takes every bundle that it has room for, unless a bundle of
the same version is there that is another. -/
namespace ATape.Release
open Foundation Node

/-! Versions are told apart by their ranks. -/

section Numerals
open Update

def digitsValue (start : Nat) (run : List Char) : Nat := run.foldl (fun n c => 10*n+(c.toNat-48)) start

theorem digitsValue_pos {start : Nat} (positive : 0 < start) (run : List Char) : 0 < digitsValue start run := by
  induction run generalizing start with
  | nil => exact positive
  | cons c run ih =>
    have step : 0 < 10*start+(c.toNat-48) := by omega
    exact ih step

/-- A number that is written without zeros in front. -/
structure Canonical (run : List Char) : Prop where
  digits : ∀ c ∈ run, isDigit c = true
  head : run.head? ≠ some '0'

theorem digit_range {c : Char} (digit : isDigit c = true) : 48 ≤ c.toNat ∧ c.toNat ≤ 57 := by
  simp only [isDigit,Bool.and_eq_true,decide_eq_true_eq] at digit
  obtain ⟨low,high⟩ := digit
  exact ⟨low,high⟩

theorem Canonical.pos {run : List Char} (canonical : Canonical run) (filled : run ≠ []) : 0 < digitsValue 0 run := by
  cases run with
  | nil => exact absurd rfl filled
  | cons c run =>
    obtain ⟨low,-⟩ := digit_range (canonical.digits c List.mem_cons_self)
    have other : c.toNat ≠ 48 := by
      intro zero
      exact canonical.head (congrArg some (Char.toNat_inj.mp (zero.trans (by decide))))
    have step : 0 < 10*0+(c.toNat-48) := by omega
    exact digitsValue_pos step run

theorem Canonical.front {run : List Char} {c : Char} (canonical : Canonical (run++[c])) : Canonical run where
  digits d member := canonical.digits d (List.mem_append_left _ member)
  head zero := by
    cases run with
    | nil => cases zero
    | cons d run => exact canonical.head zero

theorem digitsValue_snoc (run : List Char) (c : Char) :
    digitsValue 0 (run++[c]) = 10*digitsValue 0 run+(c.toNat-48) := by
  rw [digitsValue,List.foldl_append]
  rfl

theorem canonical_inj {run run' : List Char} (canonical : Canonical run) (canonical' : Canonical run')
    (same : digitsValue 0 run = digitsValue 0 run') : run = run' := by
  induction run using List.reverseRecOn generalizing run' with
  | nil =>
    by_contra other
    have positive := canonical'.pos fun none_ => other none_.symm
    rw [← same] at positive
    exact absurd positive (Nat.lt_irrefl 0)
  | append_singleton run c ih =>
    rcases List.eq_nil_or_concat run' with rfl|⟨run',c',rfl⟩
    · have positive := canonical.pos (by simp)
      rw [same] at positive
      exact absurd positive (Nat.lt_irrefl 0)
    · rw [List.concat_eq_append] at *
      rw [digitsValue_snoc,digitsValue_snoc] at same
      obtain ⟨low,high⟩ := digit_range (canonical.digits c (by simp))
      obtain ⟨low',high'⟩ := digit_range (canonical'.digits c' (by simp))
      have last : c = c' := Char.toNat_inj.mp (by omega)
      rw [ih canonical.front canonical'.front (by omega),last]

theorem numeral_inj {run run' : List Char} {n : Nat} (read : numeral run = some n) (read' : numeral run' = some n) :
    run = run' := by
  have form : ∀ {run : List Char}, numeral run = some n → run = ['0'] ∧ n = 0 ∨
      Canonical run ∧ run ≠ [] ∧ digitsValue 0 run = n := by
    intro run read
    unfold numeral at read
    split at read
    next zero => exact .inl ⟨zero,(Option.some.inj read).symm⟩
    next =>
      split at read
      next => cases read
      next plain =>
        simp only [Bool.or_eq_true,List.isEmpty_iff,decide_eq_true_eq,Bool.not_eq_true',Bool.not_eq_false,not_or,
          List.all_eq_true] at plain
        obtain ⟨⟨filled,head⟩,digits⟩ := plain
        exact .inr ⟨⟨digits,head⟩,filled,Option.some.inj read⟩
  rcases form read with ⟨rfl,zero⟩|⟨canonical,filled,value⟩
  · rcases form read' with ⟨rfl,-⟩|⟨canonical',filled',value'⟩
    · rfl
    · have positive := canonical'.pos filled'
      omega
  · rcases form read' with ⟨rfl,zero⟩|⟨canonical',filled',value'⟩
    · have positive := canonical.pos filled
      omega
    · exact canonical_inj canonical canonical' (value.trans value'.symm)

theorem numerals_inj {value value' : String} {parts : Nat × Nat × Nat} (read : numerals value = some parts)
    (read' : numerals value' = some parts) : value = value' := by
  have form : ∀ {value : String}, numerals value = some parts → ∃ major minor patch,
      value.toList = ['.'].intercalate [major,minor,patch] ∧ numeral major = some parts.1 ∧
        numeral minor = some parts.2.1 ∧ numeral patch = some parts.2.2 := by
    intro value read
    unfold numerals at read
    split at read
    next major minor patch split_ =>
      simp only [Option.bind_eq_bind,Option.bind_eq_some_iff,Option.pure_def,Option.some.injEq] at read
      obtain ⟨a,first,b,second,c,third,rfl⟩ := read
      refine ⟨major,minor,patch,?_,first,second,third⟩
      rw [← split_,List.intercalate_splitOn]
    next => cases read
  obtain ⟨major,minor,patch,text,first,second,third⟩ := form read
  obtain ⟨major',minor',patch',text',first',second',third'⟩ := form read'
  rw [numeral_inj first first',numeral_inj second second',numeral_inj third third'] at text
  exact String.toList_inj.mp (text.trans text'.symm)

end Numerals

theorem rank_inj {v v' : String} (stable : stableVersion v = true) (stable' : stableVersion v' = true)
    (same : rank v = rank v') : v = v' := by
  have read : ∀ {v : String}, stableVersion v = true → Update.numerals v = some (versionParts v) := by
    intro v stable
    unfold stableVersion at stable
    unfold versionParts
    split at stable
    next parts => rw [parts,Option.getD_some]
    next => cases stable
  have parts : versionParts v = versionParts v' := by
    simp only [rank,toLex_inj,Prod.mk.injEq] at same
    exact Prod.ext same.1 (Prod.ext same.2.1 same.2.2)
  exact numerals_inj (read stable) (parts ▸ read stable')

namespace Family
variable {β ρ : Type}

structure Regular (F : Family β ρ) : Prop where
  lawful : F.Lawful
  carries : ∀ b r, F.carries b r = true ↔ F.Gives b (F.routeKey r)
  routeFits : ∀ b, F.fits b = true → ∀ contract ∈ F.contracts b, F.routeFits (F.route b contract) = true
  filled : ∀ b, F.fits b = true → F.contracts b ≠ []
  stable : ∀ b, F.fits b = true → stableVersion (F.version b) = true
  fingerprint : ∀ b b', F.fingerprint b = F.fingerprint b' → ∀ key, F.Gives b key ↔ F.Gives b' key
  ext : ∀ r r', F.routeKey r = F.routeKey r' → F.routeVersion r = F.routeVersion r' → r = r'

variable {F : Family β ρ}

def Newest (F : Family β ρ) (bs : List β) (key v : String) : Prop :=
  (∃ b ∈ bs, F.Gives b key ∧ F.version b = v) ∧ ∀ b ∈ bs, F.Gives b key → rank (F.version b) ≤ rank v

/-- The last of the bundles that has a version. -/
def lastOf (F : Family β ρ) (bs : List β) (v : String) : Option β := bs.reverse.find? fun b => F.version b = v

theorem lastOf_snoc (bs : List β) (b : β) (v : String) :
    F.lastOf (bs++[b]) v = if F.version b = v then some b else F.lastOf bs v := by
  unfold lastOf
  rw [List.reverse_append,List.reverse_singleton,List.singleton_append,List.find?_cons]
  split <;> simp_all

/-! The routes after a loop over the contracts of a bundle. -/

section Routes
variable {routes : List ρ} {b : β}

theorem advance_members {route r : ρ} (member : r ∈ (F.advance route routes).1) : r ∈ routes ∨ r = route := by
  induction routes with
  | nil => exact .inr (List.mem_singleton.mp member)
  | cons item routes ih =>
    rw [advance] at member
    split at member
    next =>
      split at member
      next =>
        cases List.mem_cons.mp member with
        | inl first => exact .inr first
        | inr later => exact .inl (List.mem_cons_of_mem _ later)
      next => exact .inl member
    next =>
      cases List.mem_cons.mp member with
      | inl first => exact .inl (List.mem_cons.mpr (.inl first))
      | inr later => exact (ih later).imp (List.mem_cons_of_mem _) id

theorem advance_keys {route : ρ} : ∀ key, key ∈ (F.advance route routes).1.map F.routeKey ↔
    key ∈ routes.map F.routeKey ∨ key = F.routeKey route := by
  intro key
  induction routes with
  | nil => simp [advance]
  | cons item routes ih =>
    rw [advance]
    split
    next same =>
      split
      next => simp [same,or_comm]
      next =>
        simp only [List.map_cons,List.mem_cons,same]
        tauto
    next =>
      simp only [List.map_cons,List.mem_cons,ih]
      tauto

theorem advance_distinct {route : ρ} (keys : (routes.map F.routeKey).Nodup) :
    ((F.advance route routes).1.map F.routeKey).Nodup := by
  induction routes with
  | nil => simp [advance]
  | cons item routes ih =>
    obtain ⟨fresh,keys⟩ := List.nodup_cons.mp keys
    rw [advance]
    split
    next same =>
      split
      next =>
        rw [same] at fresh
        exact List.nodup_cons.mpr ⟨fresh,keys⟩
      next => exact List.nodup_cons.mpr ⟨fresh,keys⟩
    next other =>
      refine List.nodup_cons.mpr ⟨?_,ih keys⟩
      rw [advance_keys]
      exact fun member => member.elim fresh other

theorem advanceAll_members {contracts : List String} {changed : Bool} {r : ρ}
    (member : r ∈ (F.advanceAll b contracts (routes,changed)).1) :
    r ∈ routes ∨ ∃ contract ∈ contracts, r = F.route b contract := by
  induction contracts generalizing routes changed with
  | nil => exact .inl member
  | cons contract contracts ih =>
    cases ih member with
    | inl old =>
      exact (advance_members old).imp id fun same => ⟨contract,List.mem_cons_self,same⟩
    | inr new =>
      obtain ⟨other,inside,same⟩ := new
      exact .inr ⟨other,List.mem_cons_of_mem _ inside,same⟩

theorem advanceAll_distinct {contracts : List String} {changed : Bool} (keys : (routes.map F.routeKey).Nodup) :
    ((F.advanceAll b contracts (routes,changed)).1.map F.routeKey).Nodup := by
  induction contracts generalizing routes changed with
  | nil => exact keys
  | cons contract contracts ih => exact ih (advance_distinct keys)

end Routes

/-! The invariant of a sequence of merges. -/

/-- The routes lead to the newest of some bundles. -/
structure Leads (F : Family β ρ) (bs : List β) (routes : List ρ) : Prop where
  given : ∀ b ∈ bs, ∀ key, F.Gives b key → ∃ v, F.leads routes key = some v ∧ rank (F.version b) ≤ rank v
  source : ∀ key v, F.leads routes key = some v → ∃ b ∈ bs, F.Gives b key ∧ F.version b = v

theorem Leads.still {bs : List β} {routes : List ρ} {b : β} (leads : F.Leads bs routes) (still : ¬F.Moves routes b) :
    F.Leads (bs++[b]) routes where
  given b' member key gives := by
    cases List.mem_append.mp member with
    | inl old => exact leads.given b' old key gives
    | inr new =>
      rw [List.mem_singleton.mp new] at gives ⊢
      obtain ⟨contract,inside,rfl⟩ := gives
      by_contra below
      push Not at below
      exact still ⟨contract,inside,below⟩
  source key v led := by
    obtain ⟨b',member,gives,version⟩ := leads.source key v led
    exact ⟨b',List.mem_append_left _ member,gives,version⟩

theorem raise_cases (version : String) (o : Option String) : raise version o = version ∨ o = some (raise version o) := by
  cases o with
  | none => exact .inl rfl
  | some v =>
    rw [raise_some]
    split
    next => exact .inl rfl
    next => exact .inr rfl

theorem Leads.moved (lawful : F.Lawful) {bs : List β} {routes : List ρ} {b : β} (leads : F.Leads bs routes)
    (changed : Bool) : F.Leads (bs++[b]) (F.advanceAll b (F.contracts b) (routes,changed)).1 where
  given b' member key gives := by
    rw [leads_advanceAll lawful]
    cases List.mem_append.mp member with
    | inl old =>
      obtain ⟨v,led,newer⟩ := leads.given b' old key gives
      rw [led]
      split
      next => exact ⟨_,rfl,newer.trans (raise_le _ _)⟩
      next => exact ⟨v,rfl,newer⟩
    | inr new =>
      rw [List.mem_singleton.mp new] at gives ⊢
      refine ⟨_,if_pos gives,rank_raise _ _⟩
  source key v led := by
    rw [leads_advanceAll lawful] at led
    have old : F.leads routes key = some v → ∃ b' ∈ bs++[b], F.Gives b' key ∧ F.version b' = v := by
      intro led
      obtain ⟨b',member,gives,version⟩ := leads.source key v led
      exact ⟨b',List.mem_append_left _ member,gives,version⟩
    split at led
    next gives =>
      obtain rfl := Option.some.inj led
      cases raise_cases (F.version b) (F.leads routes key) with
      | inl own => exact ⟨b,List.mem_append_right _ (List.mem_singleton_self _),gives,own.symm⟩
      | inr kept => exact old kept
    next => exact old led

theorem Leads.newest (regular : F.Regular) {bs : List β} {routes : List ρ} (leads : F.Leads bs routes)
    (fitting : ∀ b ∈ bs, F.fits b = true) (key v : String) : F.leads routes key = some v ↔ F.Newest bs key v := by
  constructor
  · intro led
    refine ⟨leads.source key v led,?_⟩
    intro b member gives
    obtain ⟨v',led',newer⟩ := leads.given b member key gives
    rwa [Option.some.inj (led.symm.trans led')]
  · rintro ⟨⟨b,member,gives,rfl⟩,top⟩
    obtain ⟨v,led,newer⟩ := leads.given b member key gives
    obtain ⟨b',member',gives',rfl⟩ := leads.source key v led
    rw [led,rank_inj (regular.stable b (fitting b member)) (regular.stable b' (fitting b' member'))
      (le_antisymm newer (top b' member' gives'))]

/-- The bundles of a catalog are merged ones, each the last of its version. -/
def Keeps (F : Family β ρ) (bs bundles : List β) : Prop :=
  ∀ b ∈ bundles, b ∈ bs ∧ ∀ b', F.lastOf bs (F.version b) = some b' → F.fingerprint b' = F.fingerprint b

theorem conflicts_false {bundles : List β} {b item : β} (fresh : F.conflicts bundles b = false)
    (versions : (bundles.map F.version).Nodup) (member : item ∈ bundles) (same : F.version item = F.version b) :
    F.fingerprint item = F.fingerprint b := by
  unfold conflicts at fresh
  split at fresh
  next existing found =>
    have version : F.version existing = F.version b := by simpa using List.find?_some found
    have one := List.inj_on_of_nodup_map versions (List.mem_of_find?_eq_some found) member (version.trans same.symm)
    rw [← one]
    simpa using fresh
  next none_ => exact absurd (decide_eq_true same) (List.find?_eq_none.mp none_ item member)

theorem Keeps.still {bs bundles : List β} {b : β} (keeps : F.Keeps bs bundles) (fresh : F.conflicts bundles b = false)
    (versions : (bundles.map F.version).Nodup) : F.Keeps (bs++[b]) bundles := by
  intro item member
  obtain ⟨old,last⟩ := keeps item member
  refine ⟨List.mem_append_left _ old,?_⟩
  intro b' found
  rw [lastOf_snoc] at found
  split at found
  next same =>
    obtain rfl := Option.some.inj found
    exact (conflicts_false fresh versions member same.symm).symm
  next => exact last b' found

theorem Keeps.moved {bs bundles : List β} {b : β} {routes : List ρ} (keeps : F.Keeps bs bundles)
    (fresh : F.conflicts bundles b = false) (versions : (bundles.map F.version).Nodup) :
    F.Keeps (bs++[b]) (F.retained bundles b routes) := by
  intro item member
  cases retained_subset member with
  | inl old => exact keeps.still fresh versions item old
  | inr new =>
    rw [new]
    refine ⟨List.mem_append_right _ (List.mem_singleton_self _),?_⟩
    intro b' found
    rw [lastOf_snoc,if_pos rfl] at found
    rw [Option.some.inj found]

/-- What holds of a catalog after some merged bundles. -/
structure Merged (F : Family β ρ) (bs : List β) (c : Catalog β ρ) : Prop where
  fits : c = ⟨0,[],[]⟩ ∨ F.fitsCatalog c = true
  fitting : ∀ b ∈ bs, F.fits b = true
  leads : F.Leads bs c.routes
  keeps : F.Keeps bs c.bundles

theorem Merged.versions {bs : List β} {c : Catalog β ρ} (merged : F.Merged bs c) : (c.bundles.map F.version).Nodup := by
  cases merged.fits with
  | inl nothing =>
    rw [nothing]
    exact List.nodup_nil
  | inr fits => exact (fits_catalog fits).2.1

theorem Merged.step (regular : F.Regular) {bs : List β} {last : Option (Catalog β ρ)} {b : β} {c : Catalog β ρ}
    (merged : F.Merged bs (base last)) (ok : F.merge last b = .ok c) : F.Merged (bs++[b]) c := by
  obtain ⟨fits,fitsCatalog,fresh,outcome⟩ := merge_ok regular.lawful ok
  have fitting : ∀ b' ∈ bs++[b], F.fits b' = true := by
    intro b' member
    cases List.mem_append.mp member with
    | inl old => exact merged.fitting b' old
    | inr new => rwa [List.mem_singleton.mp new]
  rcases outcome with ⟨still,rfl⟩|⟨-,-,routes,bundles⟩
  · exact ⟨.inr fitsCatalog,fitting,merged.leads.still still,merged.keeps.still fresh merged.versions⟩
  · refine ⟨.inr fitsCatalog,fitting,?_,?_⟩
    · rw [routes]
      exact merged.leads.moved regular.lawful false
    · rw [bundles]
      exact merged.keeps.moved fresh merged.versions

theorem Published.holds (regular : F.Regular) {bs : List β} {cs : List (Catalog β ρ)} {last : Option (Catalog β ρ)}
    (published : F.Published bs cs last) : F.Merged bs (base last) := by
  induction published with
  | nil =>
    refine ⟨.inl rfl,List.forall_mem_nil _,⟨List.forall_mem_nil _,?_⟩,List.forall_mem_nil _⟩
    intro key v led
    cases led
  | merged bs cs last b c _ ok ih => exact ih.step regular ok

/-! Merging once more. -/

theorem still_of_given {bs : List β} {routes : List ρ} {b : β} (leads : F.Leads bs routes) (member : b ∈ bs) :
    ¬F.Moves routes b := by
  rintro ⟨contract,inside,below⟩
  obtain ⟨v,led,newer⟩ := leads.given b member _ ⟨contract,inside,rfl⟩
  exact absurd (below v led) (not_lt.mpr newer)

theorem merge_still (lawful : F.Lawful) {c : Catalog β ρ} {b : β} (fits : F.fits b = true)
    (valid : F.fitsCatalog c = true) (still : ¬F.Moves c.routes b) : F.merge (some c) b =
      if F.conflicts c.bundles b = true then .error (.thrown F.immutable) else .ok c := by
  have unmoved : (F.advanceAll b (F.contracts b) (c.routes,false)).2 = false := by
    rw [← Bool.not_eq_true,moved_advanceAll lawful]
    simp only [Bool.false_eq_true,false_or]
    exact still
  have decoded : F.decodeCatalog c = .ok c := (decode_ok _ _ _).mpr ⟨valid,rfl⟩
  unfold merge
  have found : F.before (some c) = .ok c := decoded
  rw [(decode_ok _ _ _).mpr ⟨fits,rfl⟩,ok_bind,found,ok_bind]
  dsimp only
  rw [if_pos unmoved,decoded]

/-! A valid catalog takes every bundle that it has room for. -/

theorem fitsCatalog_iff {c : Catalog β ρ} : F.fitsCatalog c = true ↔ revisionFits c.revision = true ∧
    c.bundles.length ≤ 64 ∧ (∀ b ∈ c.bundles, F.fits b = true) ∧ c.routes.length ≤ 256 ∧
    (∀ r ∈ c.routes, F.routeFits r = true) ∧ (c.bundles.map F.version).Nodup ∧ (c.routes.map F.routeKey).Nodup ∧
    (∀ r ∈ c.routes, ∃ b, c.bundles.find? (fun b => F.version b = F.routeVersion r) = some b ∧ F.carries b r = true) ∧
    ∀ b ∈ c.bundles, ∃ r ∈ c.routes, F.routeVersion r = F.version b := by
  simp only [fitsCatalog,Bool.and_eq_true,decide_eq_true_eq,List.all_eq_true,List.any_eq_true,and_assoc]
  constructor
  · rintro ⟨revision,few,bundles,short,routes,versions,keys,carried,led⟩
    refine ⟨revision,few,bundles,short,routes,versions,keys,?_,led⟩
    intro r member
    have carries := carried r member
    split at carries
    next b found => exact ⟨b,found,carries⟩
    next => cases carries
  · rintro ⟨revision,few,bundles,short,routes,versions,keys,carried,led⟩
    refine ⟨revision,few,bundles,short,routes,versions,keys,?_,led⟩
    intro r member
    obtain ⟨b,found,carries⟩ := carried r member
    rw [found]
    exact carries

theorem find_version {bundles : List β} {b : β} (versions : (bundles.map F.version).Nodup) (member : b ∈ bundles)
    {v : String} (version : F.version b = v) : bundles.find? (fun b => F.version b = v) = some b := by
  cases found : bundles.find? fun b => F.version b = v with
  | none => exact absurd (decide_eq_true version) (List.find?_eq_none.mp found b member)
  | some b' =>
    have version' : F.version b' = v := by simpa using List.find?_some found
    rw [List.inj_on_of_nodup_map versions (List.mem_of_find?_eq_some found) member (version'.trans version.symm)]

def next (F : Family β ρ) (c : Catalog β ρ) (b : β) : Catalog β ρ :=
  ⟨c.revision+1,F.retained c.bundles b (F.advanceAll b (F.contracts b) (c.routes,false)).1,
    (F.advanceAll b (F.contracts b) (c.routes,false)).1⟩

theorem next_fits (regular : F.Regular) {c : Catalog β ρ} {b : β} (valid : c = ⟨0,[],[]⟩ ∨ F.fitsCatalog c = true)
    (fits : F.fits b = true) (fresh : F.conflicts c.bundles b = false) (room : c.revision < maxSafeInteger)
    (few : (F.next c b).bundles.length ≤ 64) (short : (F.next c b).routes.length ≤ 256) :
    F.fitsCatalog (F.next c b) = true := by
  have before : (∀ b ∈ c.bundles, F.fits b = true) ∧ (∀ r ∈ c.routes, F.routeFits r = true) ∧
      (c.bundles.map F.version).Nodup ∧ (c.routes.map F.routeKey).Nodup ∧
      ∀ r ∈ c.routes, ∃ b ∈ c.bundles, F.version b = F.routeVersion r ∧ F.carries b r = true := by
    cases valid with
    | inl nothing =>
      rw [nothing]
      exact ⟨List.forall_mem_nil _,List.forall_mem_nil _,List.nodup_nil,List.nodup_nil,List.forall_mem_nil _⟩
    | inr valid =>
      obtain ⟨-,-,bundles,-,routes,versions,keys,carried,-⟩ := fitsCatalog_iff.mp valid
      refine ⟨bundles,routes,versions,keys,?_⟩
      intro r member
      obtain ⟨b,found,carries⟩ := carried r member
      exact ⟨b,List.mem_of_find?_eq_some found,by simpa using List.find?_some found,carries⟩
  obtain ⟨bundles,routes,versions,keys,carried⟩ := before
  have kept : ∀ item ∈ (F.next c b).bundles, item ∈ c.bundles ∨ item = b := fun item => retained_subset
  have versions' : ((F.next c b).bundles.map F.version).Nodup := by
    refine List.Nodup.sublist (List.Sublist.map _ List.filter_sublist) ?_
    rw [List.map_append,List.map_singleton]
    refine List.Nodup.append (versions.sublist (List.Sublist.map _ List.filter_sublist)) (List.nodup_singleton _) ?_
    intro v old new
    obtain ⟨item,member,version⟩ := List.mem_map.mp old
    rw [List.mem_singleton.mp new] at version
    simpa [version] using (List.mem_filter.mp member).2
  refine fitsCatalog_iff.mpr ⟨?_,few,?_,short,?_,versions',advanceAll_distinct keys,?_,?_⟩
  · have next_ : 0 < (F.next c b).revision ∧ (F.next c b).revision ≤ maxSafeInteger := ⟨Nat.succ_pos _,room⟩
    simpa only [revisionFits,Bool.and_eq_true,decide_eq_true_eq] using next_
  · intro item member
    cases kept item member with
    | inl old => exact bundles item old
    | inr new => rwa [new]
  · intro r member
    cases advanceAll_members member with
    | inl old => exact routes r old
    | inr new =>
      obtain ⟨contract,inside,rfl⟩ := new
      exact regular.routeFits b fits contract inside
  · intro r member
    -- The bundle of a route is the new one where the version is its, and the old one otherwise.
    have there : ∀ item, item ∈ c.bundles.filter (fun item => F.version item ≠ F.version b)++[b] →
        F.version item = F.routeVersion r → item ∈ (F.next c b).bundles := by
      intro item inside version
      exact List.mem_filter.mpr ⟨inside,List.any_eq_true.mpr ⟨r,member,decide_eq_true version.symm⟩⟩
    have own : b ∈ c.bundles.filter (fun item => F.version item ≠ F.version b)++[b] :=
      List.mem_append_right _ (List.mem_singleton_self b)
    cases advanceAll_members member with
    | inl old =>
      obtain ⟨item,inside,version,carries⟩ := carried r old
      by_cases same : F.version item = F.version b
      · have alike := conflicts_false fresh versions inside same
        refine ⟨b,find_version versions' (there b own (same.symm.trans version)) (same.symm.trans version),?_⟩
        rw [regular.carries] at carries ⊢
        exact (regular.fingerprint item b alike _).mp carries
      · have apart : item ∈ c.bundles.filter fun item => F.version item ≠ F.version b :=
          List.mem_filter.mpr ⟨inside,by simpa using same⟩
        exact ⟨item,find_version versions' (there item (List.mem_append_left _ apart) version) version,carries⟩
    | inr new =>
      obtain ⟨contract,inside,same⟩ := new
      have version : F.version b = F.routeVersion r := by rw [same,regular.lawful.version]
      refine ⟨b,find_version versions' (there b own version) version,?_⟩
      rw [regular.carries,same]
      exact ⟨contract,inside,rfl⟩
  · intro item member
    obtain ⟨r,inside,version⟩ := List.any_eq_true.mp (List.mem_filter.mp member).2
    exact ⟨r,inside,of_decide_eq_true version⟩

theorem conflicts_true {bundles : List β} {b : β} (conflict : F.conflicts bundles b = true) :
    ∃ item ∈ bundles, F.version item = F.version b ∧ F.fingerprint item ≠ F.fingerprint b := by
  unfold conflicts at conflict
  split at conflict
  next existing found =>
    exact ⟨existing,List.mem_of_find?_eq_some found,by simpa using List.find?_some found,by simpa using conflict⟩
  next => cases conflict

/-- Why a valid bundle is not merged: there is another bundle of its version, or the catalog is full. -/
inductive Refused (F : Family β ρ) (c : Catalog β ρ) (b : β) : Failure → Prop
  | conflict (item : β) (member : item ∈ c.bundles) (version : F.version item = F.version b)
      (other : F.fingerprint item ≠ F.fingerprint b) : Refused F c b (.thrown F.immutable)
  | exhausted (last : c.revision = maxSafeInteger) : Refused F c b (.thrown F.exhausted)
  | bundles (many : 64 < (F.next c b).bundles.length) : Refused F c b .malformed
  | routes (many : 256 < (F.next c b).routes.length) : Refused F c b .malformed

theorem merge_refused (regular : F.Regular) {previous : Option (Catalog β ρ)} {b : β} {failure : Failure}
    (fits : F.fits b = true) (valid : ∀ c, previous = some c → F.fitsCatalog c = true)
    (refused : F.merge previous b = .error failure) : F.Refused (base previous) b failure := by
  have found : F.before previous = .ok (base previous) := by
    cases previous with
    | none => rfl
    | some c => exact (decode_ok _ _ _).mpr ⟨valid c rfl,rfl⟩
  have fitting : base previous = ⟨0,[],[]⟩ ∨ F.fitsCatalog (base previous) = true := by
    cases previous with
    | none => exact .inl rfl
    | some c => exact .inr (valid c rfl)
  unfold merge at refused
  rw [(decode_ok _ _ _).mpr ⟨fits,rfl⟩,ok_bind,found,ok_bind] at refused
  split at refused
  next conflict =>
    obtain ⟨item,member,version,other⟩ := conflicts_true conflict
    cases refused
    exact .conflict item member version other
  next fresh =>
    dsimp only at refused
    split at refused
    next still =>
      cases fitting with
      | inl nothing =>
        -- A bundle gives at least one route, and an empty catalog has none.
        obtain ⟨contract,inside⟩ := List.exists_mem_of_ne_nil _ (regular.filled b fits)
        have moved := (moved_advanceAll regular.lawful b (F.contracts b) (base previous).routes false).mpr
          (.inr ⟨contract,inside,fun v led => by rw [nothing] at led; cases led⟩)
        rw [moved] at still
        cases still
      | inr fitting =>
        rw [decodeCatalog,(decode_ok _ _ _).mpr ⟨fitting,rfl⟩] at refused
        cases refused
    next =>
      split at refused
      next last =>
        cases refused
        exact .exhausted last
      next room =>
        have below : (base previous).revision < maxSafeInteger := by
          cases fitting with
          | inl nothing =>
            have positive : 0 < maxSafeInteger := by decide
            rwa [nothing]
          | inr fitting =>
            have fine := (fitsCatalog_iff.mp fitting).1
            simp only [revisionFits,Bool.and_eq_true,decide_eq_true_eq] at fine
            omega
        have full : F.fitsCatalog (F.next (base previous) b) ≠ true := by
          intro fine
          have decoded : F.decodeCatalog (F.next (base previous) b) = .ok (F.next (base previous) b) :=
            (decode_ok _ _ _).mpr ⟨fine,rfl⟩
          rw [next] at decoded
          rw [decoded] at refused
          cases refused
        have malformed : failure = .malformed := by
          have decoded : F.decodeCatalog (F.next (base previous) b) = .error .malformed := if_neg full
          rw [next] at decoded
          rw [decoded] at refused
          exact (Except.error.inj refused).symm
        rw [malformed]
        by_contra other
        refine full (next_fits regular fitting fits (by simpa using fresh) below ?_ ?_)
        · exact not_lt.mp fun many => other (.bundles many)
        · exact not_lt.mp fun many => other (.routes many)

/-! The laws of merging. -/

structure Settles (F : Family β ρ) : Prop where
  newest : ∀ bs cs c, F.Published bs cs (some c) → ∀ key v, F.leads c.routes key = some v ↔ F.Newest bs key v
  present : ∀ bs cs c, F.Published bs cs (some c) → ∀ r ∈ c.routes, ∃ b ∈ c.bundles, F.version b = F.routeVersion r ∧
    F.carries b r = true ∧ b ∈ bs ∧ ∃ b', F.lastOf bs (F.routeVersion r) = some b' ∧ F.fingerprint b = F.fingerprint b'
  decodes : ∀ bs cs c, F.Published bs cs (some c) → F.decodeCatalog c = .ok c
  again : ∀ bs cs c, F.Published bs cs (some c) → ∀ b ∈ bs, F.merge (some c) b = .ok c ∨
    F.merge (some c) b = .error (.thrown F.immutable) ∧
      ∃ item ∈ c.bundles, item ∈ bs ∧ F.version item = F.version b ∧ F.fingerprint item ≠ F.fingerprint b ∧
        ∃ b', F.lastOf bs (F.version b) = some b' ∧ F.fingerprint item = F.fingerprint b'
  order : ∀ bs cs c bs' cs' c', F.Published bs cs (some c) → F.Published bs' cs' (some c') → bs.Perm bs' →
    c.routes.Perm c'.routes
  refused : ∀ previous b failure, F.fits b = true → (∀ c, previous = some c → F.fitsCatalog c = true) →
    F.merge previous b = .error failure → F.Refused (base previous) b failure

theorem lastOf_some {bs : List β} {b : β} (member : b ∈ bs) :
    ∃ b', F.lastOf bs (F.version b) = some b' ∧ F.version b' = F.version b := by
  cases found : F.lastOf bs (F.version b) with
  | none => exact absurd (decide_eq_true rfl) (List.find?_eq_none.mp found b (List.mem_reverse.mpr member))
  | some b' => exact ⟨b',rfl,by simpa using List.find?_some found⟩

theorem Keeps.last {bs bundles : List β} {b : β} (keeps : F.Keeps bs bundles) (member : b ∈ bundles) :
    ∃ b', F.lastOf bs (F.version b) = some b' ∧ F.fingerprint b = F.fingerprint b' := by
  obtain ⟨inside,last⟩ := keeps b member
  obtain ⟨b',found,-⟩ := lastOf_some inside
  exact ⟨b',found,(last b' found).symm⟩

theorem Newest.perm {bs bs' : List β} (perm : bs.Perm bs') {key v : String} (newest : F.Newest bs key v) :
    F.Newest bs' key v := by
  obtain ⟨⟨b,member,gives,version⟩,top⟩ := newest
  exact ⟨⟨b,perm.mem_iff.mp member,gives,version⟩,fun b' inside => top b' (perm.mem_iff.mpr inside)⟩

section Runs
variable {bs : List β} {cs : List (Catalog β ρ)} {c : Catalog β ρ}

theorem Published.valid (regular : F.Regular) (published : F.Published bs cs (some c)) : F.fitsCatalog c = true := by
  cases (published.holds regular).fits with
  | inl nothing =>
    cases published with
    | merged bs cs last b c _ ok => exact (merge_ok regular.lawful ok).2.1
  | inr valid => exact valid

theorem mem_routes (regular : F.Regular) (valid : F.fitsCatalog c = true) {r : ρ} :
    r ∈ c.routes ↔ F.leads c.routes (F.routeKey r) = some (F.routeVersion r) := by
  constructor
  · exact fun member => leads_member (fits_catalog valid).2.2.1 member
  · intro led
    obtain ⟨r',member,key,version⟩ := leads_some led
    rwa [← regular.ext r' r key version]

theorem routes_subset (regular : F.Regular) {bs' : List β} {cs' : List (Catalog β ρ)} {c' : Catalog β ρ}
    (published : F.Published bs cs (some c)) (published' : F.Published bs' cs' (some c')) (perm : bs.Perm bs') {r : ρ}
    (member : r ∈ c.routes) : r ∈ c'.routes := by
  have merged := published.holds regular
  have merged' := published'.holds regular
  rw [mem_routes regular (published.valid regular)] at member
  rw [mem_routes regular (published'.valid regular)]
  exact (merged'.leads.newest regular merged'.fitting _ _).mpr
    (((merged.leads.newest regular merged.fitting _ _).mp member).perm perm)

theorem settles (regular : F.Regular) : F.Settles where
  newest bs cs c published key v := (published.holds regular).leads.newest regular (published.holds regular).fitting key v
  present bs cs c published r member := by
    obtain ⟨b,found,carries⟩ := (fits_catalog (published.valid regular)).2.2.2 r member
    have version : F.version b = F.routeVersion r := by simpa using List.find?_some found
    have keeps := (published.holds regular).keeps
    have inside := List.mem_of_find?_eq_some found
    refine ⟨b,inside,version,carries,(keeps b inside).1,?_⟩
    rw [← version]
    exact keeps.last inside
  decodes bs cs c published := (decode_ok _ _ _).mpr ⟨published.valid regular,rfl⟩
  again bs cs c published b member := by
    have merged := published.holds regular
    rw [merge_still regular.lawful (merged.fitting b member) (published.valid regular) (still_of_given merged.leads member)]
    split
    next conflict =>
      obtain ⟨item,inside,version,other⟩ := conflicts_true conflict
      obtain ⟨b',found,same⟩ := merged.keeps.last inside
      refine .inr ⟨rfl,item,inside,(merged.keeps item inside).1,version,other,b',?_,same⟩
      rwa [← version]
    next => exact .inl rfl
  order bs cs c bs' cs' c' published published' perm := by
    have distinct := (fits_catalog (published.valid regular)).2.2.1.of_map
    have distinct' := (fits_catalog (published'.valid regular)).2.2.1.of_map
    refine (List.perm_ext_iff_of_nodup distinct distinct').mpr fun r => ⟨?_,?_⟩
    · exact routes_subset regular published published' perm
    · exact routes_subset regular published' published perm.symm
  refused previous b failure fits valid refused := merge_refused regular fits valid refused

end Runs

end Family

/-! The two families. -/

theorem contractsFit_parts {contracts : List String} {own : String} (fits : contractsFit contracts own = true) :
    contracts ≠ [] ∧ ∀ contract ∈ contracts, isOpaqueProtocol contract = true := by
  simp only [contractsFit,Bool.and_eq_true,decide_eq_true_eq,List.all_eq_true] at fits
  obtain ⟨⟨⟨⟨filled,-⟩,opaque_⟩,-⟩,-⟩ := fits
  exact ⟨List.ne_nil_of_length_pos filled,opaque_⟩

theorem ReleaseBundle.fits_parts {b : ReleaseBundle} (fits : b.fits = true) :
    stableVersion b.version = true ∧ isOpaqueProtocol b.updateControlProtocol = true := by
  simp only [ReleaseBundle.fits,Bool.and_eq_true] at fits
  obtain ⟨⟨⟨⟨⟨⟨⟨⟨version,-⟩,control⟩,-⟩,-⟩,-⟩,-⟩,-⟩,-⟩ := fits
  exact ⟨version,control⟩

theorem contractsJson_perm {contracts contracts' : List String} (same : contractsJson contracts = contractsJson contracts') :
    contracts.Perm contracts' := by
  have sorted : sortTexts contracts = sortTexts contracts' :=
    List.map_injective_iff.mpr (fun _ _ same => Json.str.inj same) (Json.arr.inj same)
  have perm : contracts.Perm (sortTexts contracts) := (List.perm_insertionSort _ _).symm
  rw [sorted] at perm
  exact perm.trans (List.perm_insertionSort _ _)

theorem migration_regular : migrationFamily.Regular where
  lawful := ⟨fun _ _ => rfl⟩
  carries b r := by
    constructor
    · intro carries
      simp only [migrationFamily,Bool.and_eq_true,decide_eq_true_eq,List.contains_iff_mem] at carries
      obtain ⟨⟨⟨control,protocol⟩,id⟩,contract⟩ := carries
      refine ⟨r.fromCaptureStateContract,contract,?_⟩
      simp only [migrationFamily,routeKey,control,protocol,id]
    · rintro ⟨contract,member,key⟩
      have parts : [contract,b.updateControlProtocol,b.migration.protocol,b.migration.id] =
          [r.fromCaptureStateContract,r.updateControlProtocol,r.migrationProtocol,r.migrationId] := texts_injective key
      simp only [List.cons.injEq,and_true] at parts
      obtain ⟨rfl,control,protocol,id⟩ := parts
      simp only [migrationFamily,control,protocol,id,decide_true,Bool.true_and,List.contains_iff_mem]
      exact member
  routeFits b fits contract member := by
    have checked : b.fits = true := fits
    simp only [MigrationReleaseBundle.fits,Bool.and_eq_true] at checked
    obtain ⟨⟨⟨base,protocol⟩,id⟩,contracts⟩ := checked
    obtain ⟨version,control⟩ := ReleaseBundle.fits_parts base
    simp only [migrationFamily,(contractsFit_parts contracts).2 contract member,protocol,id,version,control,Bool.and_self]
  filled b fits := by
    have checked : b.fits = true := fits
    simp only [MigrationReleaseBundle.fits,Bool.and_eq_true] at checked
    exact (contractsFit_parts checked.2).1
  stable b fits := by
    have checked : b.fits = true := fits
    simp only [MigrationReleaseBundle.fits,Bool.and_eq_true] at checked
    exact (ReleaseBundle.fits_parts checked.1.1.1).1
  fingerprint b b' same key := by
    have left : Json.Integral (.obj (b.members "atape.release-bundle.v2"++
        [("migration",.obj [("protocol",.str b.migration.protocol),("id",.str b.migration.id),
          ("fromCaptureStateContracts",contractsJson b.migration.fromCaptureStateContracts)])])) :=
      (Json.integralMembers_append _ _).mpr ⟨integral_members b.toReleaseBundle _,
        by simp [Json.IntegralMembers,Json.Integral,contractsJson,integral_texts]⟩
    have right : Json.Integral (.obj (b'.members "atape.release-bundle.v2"++
        [("migration",.obj [("protocol",.str b'.migration.protocol),("id",.str b'.migration.id),
          ("fromCaptureStateContracts",contractsJson b'.migration.fromCaptureStateContracts)])])) :=
      (Json.integralMembers_append _ _).mpr ⟨integral_members b'.toReleaseBundle _,
        by simp [Json.IntegralMembers,Json.Integral,contractsJson,integral_texts]⟩
    have parts := Json.obj.inj (stringify_injective left right same)
    simp only [ReleaseBundle.members,List.cons_append,List.nil_append,List.cons.injEq,Prod.mk.injEq,Json.str.injEq,
      Json.obj.injEq,true_and,and_true] at parts
    obtain ⟨-,-,control,-,protocol,id,contracts⟩ := parts
    have perm := contractsJson_perm contracts
    unfold Family.Gives
    simp only [migrationFamily,routeKey,control,protocol,id]
    exact exists_congr fun contract => and_congr_left fun _ => perm.mem_iff
  ext r r' key version := by
    have parts : [r.fromCaptureStateContract,r.updateControlProtocol,r.migrationProtocol,r.migrationId] =
        [r'.fromCaptureStateContract,r'.updateControlProtocol,r'.migrationProtocol,r'.migrationId] := texts_injective key
    simp only [List.cons.injEq,and_true] at parts
    obtain ⟨contract,control,protocol,id⟩ := parts
    cases r
    simp_all [migrationFamily]

theorem target_regular : targetFamily.Regular where
  lawful := ⟨fun _ _ => rfl⟩
  carries b r := by
    constructor
    · intro carries
      simp only [targetFamily,Bool.and_eq_true,decide_eq_true_eq,List.contains_iff_mem] at carries
      obtain ⟨⟨control,protocol⟩,contract⟩ := carries
      refine ⟨r.fromCaptureStateContract,contract,?_⟩
      simp only [targetFamily,targetRouteKey,control,protocol]
    · rintro ⟨contract,member,key⟩
      have parts : [contract,b.updateControlProtocol,b.updateTargetProtocol] =
          [r.fromCaptureStateContract,r.updateControlProtocol,r.updateTargetProtocol] := texts_injective key
      simp only [List.cons.injEq,and_true] at parts
      obtain ⟨rfl,control,protocol⟩ := parts
      simp only [targetFamily,control,protocol,decide_true,Bool.true_and,List.contains_iff_mem]
      exact member
  routeFits b fits contract member := by
    have checked : b.fits = true := fits
    simp only [TargetReleaseBundle.fits,Bool.and_eq_true] at checked
    obtain ⟨⟨base,protocol⟩,contracts⟩ := checked
    obtain ⟨version,control⟩ := ReleaseBundle.fits_parts base
    simp only [targetFamily,(contractsFit_parts contracts).2 contract member,protocol,version,control,Bool.and_self]
  filled b fits := by
    have checked : b.fits = true := fits
    simp only [TargetReleaseBundle.fits,Bool.and_eq_true] at checked
    exact (contractsFit_parts checked.2).1
  stable b fits := by
    have checked : b.fits = true := fits
    simp only [TargetReleaseBundle.fits,Bool.and_eq_true] at checked
    exact (ReleaseBundle.fits_parts checked.1.1).1
  fingerprint b b' same key := by
    have left : Json.Integral (.obj (b.members "atape.release-bundle.v3"++
        [("updateTargetProtocol",.str b.updateTargetProtocol),
          ("fromCaptureStateContracts",contractsJson b.fromCaptureStateContracts)])) :=
      (Json.integralMembers_append _ _).mpr ⟨integral_members b.toReleaseBundle _,
        by simp [Json.IntegralMembers,Json.Integral,contractsJson,integral_texts]⟩
    have right : Json.Integral (.obj (b'.members "atape.release-bundle.v3"++
        [("updateTargetProtocol",.str b'.updateTargetProtocol),
          ("fromCaptureStateContracts",contractsJson b'.fromCaptureStateContracts)])) :=
      (Json.integralMembers_append _ _).mpr ⟨integral_members b'.toReleaseBundle _,
        by simp [Json.IntegralMembers,Json.Integral,contractsJson,integral_texts]⟩
    have parts := Json.obj.inj (stringify_injective left right same)
    simp only [ReleaseBundle.members,List.cons_append,List.nil_append,List.cons.injEq,Prod.mk.injEq,Json.str.injEq,
      true_and,and_true] at parts
    obtain ⟨-,-,control,-,protocol,contracts⟩ := parts
    have perm := contractsJson_perm contracts
    unfold Family.Gives
    simp only [targetFamily,targetRouteKey,control,protocol]
    exact exists_congr fun contract => and_congr_left fun _ => perm.mem_iff
  ext r r' key version := by
    have parts : [r.fromCaptureStateContract,r.updateControlProtocol,r.updateTargetProtocol] =
        [r'.fromCaptureStateContract,r'.updateControlProtocol,r'.updateTargetProtocol] := texts_injective key
    simp only [List.cons.injEq,and_true] at parts
    obtain ⟨contract,control,protocol⟩ := parts
    cases r
    simp_all [targetFamily]

/-- Merging obeys its laws for migration bundles and for target bundles. -/
theorem merges_settle : migrationFamily.Settles ∧ targetFamily.Settles :=
  ⟨Family.settles migration_regular,Family.settles target_regular⟩

/-- A bundle that was merged and then forgotten is rejected once its version has come back as another one. -/
theorem forgotten_bundle_rejected :
    targetFamily.Published [officialTarget "1.0.0" "a",officialTarget "2.0.0" "a",officialTarget "1.0.0" "b"]
      [firstCatalog,secondCatalog,thirdCatalog] (some thirdCatalog) ∧
    mergeTargetReleaseBundle (some thirdCatalog) (officialTarget "1.0.0" "a") =
      .error (.thrown "A release version cannot change its immutable target bundle.") := by
  have merged := returning_published.holds target_regular
  have member : officialTarget "1.0.0" "a" ∈
      [officialTarget "1.0.0" "a",officialTarget "2.0.0" "a",officialTarget "1.0.0" "b"] := List.mem_cons_self
  have third : officialTarget "1.0.0" "b" ∈ thirdCatalog.bundles := List.mem_cons_of_mem _ (List.mem_singleton.mpr rfl)
  refine ⟨returning_published,?_⟩
  rw [mergeTargetReleaseBundle,Family.merge_still target_regular.lawful (merged.fitting _ member) third_fits
    (Family.still_of_given merged.leads member),if_pos]
  · rfl
  · by_contra fresh
    have version : targetFamily.version (officialTarget "1.0.0" "b") = targetFamily.version (officialTarget "1.0.0" "a") :=
      rfl
    have fresh_ : targetFamily.conflicts thirdCatalog.bundles (officialTarget "1.0.0" "a") = false := by
      simpa using fresh
    have same : targetFamily.fingerprint (officialTarget "1.0.0" "b") = targetFamily.fingerprint (officialTarget "1.0.0" "a") :=
      Family.conflicts_false fresh_ merged.versions third version
    exact absurd (officialTarget_fingerprint same) (by decide)

end ATape.Release
