import ATape.Foundation.Run
import Mathlib.Data.List.Nodup
import Mathlib.Order.Basic

/-! Registers in which the latest version wins. A register is offered records in
any order; it takes a newer one, skips an older one, and refuses a second
record of the version it holds unless the two count as the same. The record it
ends with then depends on the set of offers only. -/
namespace ATape.Foundation
namespace Register
variable {κ ρ ν σ Λ : Type} [LinearOrder ν] (version : ρ → ν) (same : ρ → ρ → Prop)

/-- The held record makes the offered one redundant. -/
def Covers (held r : ρ) : Prop := version r < version held ∨ version r = version held ∧ same r held

/-- What a register holds after an accepted offer. -/
inductive Offered : Option ρ → ρ → Option ρ → Prop
  | first (r) : Offered none r (some r)
  | newer (held r) (later : version held < version r) : Offered (some held) r (some r)
  | covered (held r) (known : Covers version same held r) : Offered (some held) r (some held)

/-- A register holds a record that covers this one. -/
def Knows (held : Option ρ) (r : ρ) : Prop := ∃ h, held = some h ∧ Covers version same h r

structure Settled (start : Option ρ) (offers : List ρ) (final : Option ρ) : Prop where
  source : ∀ r, final = some r → start = some r ∨ r ∈ offers
  latest : ∀ r, start = some r ∨ r ∈ offers → Knows version same final r

variable {version same}

theorem Covers.le {held r : ρ} (known : Covers version same held r) : version r ≤ version held := by
  rcases known with older | ⟨equal,_⟩
  · exact older.le
  · exact equal.le

theorem knows_self (equivalence : Equivalence same) (r : ρ) : Knows version same (some r) r :=
  ⟨r,rfl,.inr ⟨rfl,equivalence.refl r⟩⟩

theorem Offered.source {before next : Option ρ} {r held : ρ}
    (offered : Offered version same before r next) (found : next = some held) :
    before = some held ∨ held = r := by
  cases offered with
  | first => exact .inr (Option.some.inj found).symm
  | newer => exact .inr (Option.some.inj found).symm
  | covered => exact .inl found

theorem Offered.knows (equivalence : Equivalence same) {before next : Option ρ} {r : ρ}
    (offered : Offered version same before r next) : Knows version same next r := by
  cases offered with
  | first => exact knows_self equivalence r
  | newer => exact knows_self equivalence r
  | covered held _ known => exact ⟨held,rfl,known⟩

theorem Offered.keeps {before next : Option ρ} {r other : ρ}
    (offered : Offered version same before r next) (known : Knows version same before other) :
    Knows version same next other := by
  obtain ⟨held,found,covers⟩ := known
  cases offered with
  | first => cases found
  | newer _ _ later =>
    cases found
    exact ⟨r,rfl,.inl (covers.le.trans_lt later)⟩
  | covered => exact ⟨held,found,covers⟩

def resolve [DecidableLT ν] (version : ρ → ν) (before : Option ρ) (r : ρ) : Option ρ :=
  if before.all fun held => version held < version r then some r else before

theorem offered_resolve [DecidableLT ν] {before : Option ρ} {r : ρ}
    (agree : ∀ held, before = some held → version r = version held → same r held) :
    Offered version same before r (resolve version before r) := by
  cases before with
  | none => exact .first r
  | some held =>
    simp only [resolve,Option.all_some,decide_eq_true_eq]
    split
    next later => exact .newer held r later
    next early =>
      rcases (not_lt.mp early).lt_or_eq with older | equal
      · exact .covered held r (.inl older)
      · exact .covered held r (.inr ⟨equal,agree held rfl equal⟩)

theorem keeps_run {start final : Option ρ} {offers : List ρ} {r : ρ}
    (run : Run (Offered version same) start offers final) (known : Knows version same start r) :
    Knows version same final r := by
  induction run with
  | nil => exact known
  | cons _ _ _ _ _ head _ ih => exact ih (head.keeps known)

theorem settled_of_run (equivalence : Equivalence same) {start final : Option ρ} {offers : List ρ}
    (run : Run (Offered version same) start offers final) : Settled version same start offers final := by
  induction run with
  | nil start =>
    refine ⟨fun r found => .inl found,?_⟩
    rintro r (found | impossible)
    · exact found ▸ knows_self equivalence r
    · cases impossible
  | cons start r middle offers final head tail ih =>
    refine ⟨?_,?_⟩
    · intro held found
      rcases ih.source held found with middle | later
      · rcases head.source middle with begun | rfl
        · exact .inl begun
        · exact .inr List.mem_cons_self
      · exact .inr (List.mem_cons_of_mem _ later)
    · rintro other (found | member)
      · exact keeps_run tail (head.keeps (found ▸ knows_self equivalence other))
      · rcases List.mem_cons.mp member with rfl | later
        · exact keeps_run tail (head.knows equivalence)
        · exact ih.latest other (.inr later)

theorem eq_of_rel {a b : Option ρ} (rel : Option.Rel Eq a b) : a = b := by
  cases rel with
  | none => rfl
  | some equal => rw [equal]

theorem Settled.agree {start first second : Option ρ} {offers others : List ρ}
    (left : Settled version same start offers first) (right : Settled version same start others second)
    (alike : ∀ r, r ∈ offers ↔ r ∈ others) : Option.Rel same first second := by
  cases first with
  | none =>
    cases second with
    | none => exact .none
    | some b =>
      have offered := (right.source b rfl).imp_right (alike b).mpr
      obtain ⟨held,impossible,_⟩ := left.latest b offered
      cases impossible
  | some a =>
    have offered := (left.source a rfl).imp_right (alike a).mp
    obtain ⟨b,rfl,covers⟩ := right.latest a offered
    have back := (right.source b rfl).imp_right (alike b).mpr
    obtain ⟨a',found,covers'⟩ := left.latest b back
    cases found
    rcases covers with older | ⟨_,similar⟩
    · exact absurd older covers'.le.not_gt
    · exact .some similar

section Families
variable [DecidableEq κ] (version same) (key : ρ → κ)

/-- A family of registers after a list of offers, each made to the register of
its own key. -/
def Merged (before : κ → Option ρ) (offers : List ρ) (final : κ → Option ρ) : Prop :=
  ∀ k, Run (Offered version same) (before k) (offers.filter fun r => key r = k) (final k)

variable {version same key}

theorem merged_nil (family : κ → Option ρ) : Merged version same key family [] family :=
  fun k => .nil (family k)

theorem Merged.append {before middle final : κ → Option ρ} {first second : List ρ}
    (left : Merged version same key before first middle)
    (right : Merged version same key middle second final) :
    Merged version same key before (first++second) final := by
  intro k
  rw [List.filter_append]
  exact (left k).append (right k)

theorem merged_of_offered {before final : κ → Option ρ} {offers : List ρ}
    (distinct : (offers.map key).Nodup)
    (taken : ∀ r ∈ offers, Offered version same (before (key r)) r (final (key r)))
    (untouched : ∀ k, (∀ r ∈ offers, key r ≠ k) → final k = before k) :
    Merged version same key before offers final := by
  intro k
  by_cases offered : ∃ r ∈ offers, key r = k
  · obtain ⟨r,member,rfl⟩ := offered
    have alone : offers.filter (fun r' => key r' = key r) = [r] := by
      have once := List.Nodup.filter (fun r' => decide (key r' = key r)) (List.Nodup.of_map key distinct)
      refine List.perm_singleton.mp ((List.perm_ext_iff_of_nodup once (List.nodup_singleton r)).mpr ?_)
      intro r'
      have injective := List.inj_on_of_nodup_map distinct
      simp only [List.mem_filter,decide_eq_true_eq,List.mem_singleton]
      constructor
      · rintro ⟨member',equal⟩
        exact injective member' member equal
      · rintro rfl
        exact ⟨member,rfl⟩
    rw [alone]
    exact .one (taken r member)
  · have nobody : offers.filter (fun r => key r = k) = [] := by
      rw [List.filter_eq_nil_iff]
      intro r member equal
      exact offered ⟨r,member,by simpa using equal⟩
    rw [nobody,untouched k (fun r member equal => offered ⟨r,member,equal⟩)]
    exact .nil _

theorem merged_of_known {family : κ → Option ρ} {offers : List ρ} (distinct : (offers.map key).Nodup)
    (known : ∀ r ∈ offers, Knows version same (family (key r)) r) :
    Merged version same key family offers family := by
  apply merged_of_offered distinct
  · intro r member
    obtain ⟨held,found,covers⟩ := known r member
    rw [found]
    exact .covered held r covers
  · intro k _
    rfl

theorem Merged.settled (equivalence : Equivalence same) {before final : κ → Option ρ}
    {offers : List ρ} (merged : Merged version same key before offers final) (k : κ) :
    Settled version same (before k) (offers.filter fun r => key r = k) (final k) :=
  settled_of_run equivalence (merged k)

theorem Merged.knows (equivalence : Equivalence same) {before final : κ → Option ρ} {offers : List ρ}
    (merged : Merged version same key before offers final) {r : ρ} (member : r ∈ offers) :
    Knows version same (final (key r)) r :=
  (merged.settled equivalence (key r)).latest r (.inr (List.mem_filter.mpr ⟨member,by simp⟩))

theorem Merged.agree (equivalence : Equivalence same) {before first second : κ → Option ρ}
    {offers others : List ρ} (left : Merged version same key before offers first)
    (right : Merged version same key before others second) (alike : ∀ r, r ∈ offers ↔ r ∈ others)
    (k : κ) : Option.Rel same (first k) (second k) := by
  apply (left.settled equivalence k).agree (right.settled equivalence k)
  intro r
  simp only [List.mem_filter,alike]

end Families
end Register
end ATape.Foundation
