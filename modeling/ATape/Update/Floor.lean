import ATape.Foundation.Run
import ATape.Update.Effects

/-! The reader floor over all runs of update control. Wherever an operation is cut off,
the ledger can be read, its floor is no lower than it was, and the pointer is one that
the ledger names. -/
namespace ATape.Update
open Foundation Node Work

/-- The runtimes of a ledger that its floor accepts. -/
structure Control.Kept (c : Control) : Prop where
  fallback : c.forwardOnly = false → ∀ p, c.previous = some p → accepts c.floor p.admission = .ok true
  reached : c.phase = .completed → accepts c.floor c.target.admission = .ok true

def Home.Placed (home : Home) (c : Control) : Prop :=
  match c.phase with
  | .recovered => home.Points c.restored
  | .completed => home.Points (some c.target) ∨ c.forwardOnly = true ∧ home.Points c.baseline
  | _ => home.Points c.baseline ∨ home.Points (some c.target)

/-- The ledger that the file holds, if there is one, and the pointer agree. -/
def Home.Agrees (home : Home) : Prop :=
  home.control = none ∨ ∃ c, home.Holds c ∧ c.Kept ∧ home.Placed c

/-- What an operation makes of a home: the files agree, the floor is no lower, and a
pointer that was replaced is one of those in the ledger. -/
structure Advance (h d : Home) : Prop where
  agrees : d.Agrees
  rises : ∀ n, h.Bounded n → d.Bounded n
  own : d.pointer ≠ h.pointer → ∃ c p, d.Holds c ∧ h.Points p ∧ (p = c.baseline ∨ p = c.previous ∨ p = some c.target)

namespace Home
variable {h d : Home}

theorem Agrees.read {found : Option Control} (agrees : h.Agrees) (ok : h.ledger = .ok found) :
    (found = none ∧ h.control = none) ∨ ∃ c, found = some c ∧ h.Holds c ∧ c.Kept ∧ h.Placed c := by
  rcases agrees with absent | ⟨c,holds,kept,placed⟩
  · rcases optionalJSON_ok.mp ok with ⟨_,rfl⟩ | ⟨text,_,_,file,_⟩
    · exact .inl ⟨rfl,absent⟩
    · rw [absent] at file
      cases file
  · exact .inr ⟨c,holds.read ok,holds,kept,placed⟩

theorem Agrees.owner {c : Control} (agrees : h.Agrees) (ok : h.ledger = .ok (some c)) :
    h.Holds c ∧ c.Kept ∧ h.Placed c := by
  rcases agrees.read ok with ⟨absent,_⟩ | ⟨c',same,holds,kept,placed⟩
  · cases absent
  · cases same
    exact ⟨holds,kept,placed⟩

theorem bounded_withControl {c : Control} {floor : Option Floor}
    (prior : ∀ c₀, h.Holds c₀ → c₀.floor = floor) (sound : c.Sound)
    (higher : ∀ f, floor = some f → ∃ f', c.floor = some f' ∧
      older f'.minimumRuntimeVersion f.minimumRuntimeVersion = .ok false) (n : Nat × Nat × Nat)
    (bounded : h.Bounded n) : (h.withControl c).Bounded n := by
  obtain ⟨c₀,f,v,holds,floored,versioned,above⟩ := bounded
  obtain ⟨f',floored',ok⟩ := higher f ((prior c₀ holds).symm.trans floored)
  obtain ⟨v',w,versioned',same,below⟩ := older_ok ok
  rw [versioned] at same
  cases same
  refine ⟨c,f',v',holds_withControl sound,floored',versioned',before_trans ?_ above⟩
  simpa using below.symm

theorem bounded_withPointer (p : Option UpdateRuntimeSelection) {n : Nat × Nat × Nat} (bounded : h.Bounded n) :
    (h.withPointer p).Bounded n := bounded

theorem placed_pending {c : Control} (pending : c.phase.settled = false)
    (points : h.Points c.baseline ∨ h.Points (some c.target)) : h.Placed c := by
  unfold Placed
  cases phase : c.phase with
  | completed => simp [phase,Phase.settled] at pending
  | recovered => simp [phase,Phase.settled] at pending
  | prepared => exact points
  | begun => exact points
  | fenced => exact points
  | recovering => exact points

theorem placed_restored {c : Control} (pending : c.phase.settled = false) (points : h.Points c.restored) :
    h.Placed c := by
  apply placed_pending pending
  unfold Control.restored at points
  split at points
  next => exact .inr points
  next => exact .inl points

end Home

variable {h d : Home}

theorem same_floor {c c' : Control} (sound : c.Sound) (same : c'.floor = c.floor) :
    ∀ f, c.floor = some f → ∃ f', c'.floor = some f' ∧
      older f'.minimumRuntimeVersion f.minimumRuntimeVersion = .ok false := by
  intro f floored
  obtain ⟨_,v,_,versioned,_⟩ := older_ok (sound.facts.above f floored)
  exact ⟨f,same.trans floored,older_same versioned⟩

theorem advance_written {c : Control} {pointer p : Option UpdateRuntimeSelection} {floor : Option Floor}
    (sound : c.Sound) (kept : c.Kept) (prior : ∀ c₀, h.Holds c₀ → c₀.floor = floor)
    (higher : ∀ f, floor = some f → ∃ f', c.floor = some f' ∧
      older f'.minimumRuntimeVersion f.minimumRuntimeVersion = .ok false)
    (selected : h.Points p) (allowed : p = c.baseline ∨ p = some c.target)
    (placed : (h.withControl c).Placed c) (replaced : ((h.withControl c).withPointer pointer).Placed c)
    (written : Written h c pointer d) : Advance h d := by
  rcases written with rfl | rfl
  · refine ⟨.inr ⟨c,Home.holds_withControl sound,kept,placed⟩,Home.bounded_withControl prior sound higher,?_⟩
    intro moved
    exact absurd rfl moved
  · refine ⟨.inr ⟨c,(Home.holds_withPointer _ _).mpr (Home.holds_withControl sound),kept,replaced⟩,?_,?_⟩
    · intro n bounded
      exact Home.bounded_withControl prior sound higher n bounded
    · intro _
      refine ⟨c,p,(Home.holds_withPointer _ _).mpr (Home.holds_withControl sound),selected,?_⟩
      rcases allowed with same | same
      · exact .inl same
      · exact .inr (.inr same)

theorem kept_forward {key : String} {phase : Phase} {baseline previous : Option UpdateRuntimeSelection}
    {target : UpdateRuntimeSelection} (sound : target.Sound) : (forward key phase baseline previous target).Kept := by
  refine ⟨nofun,fun _ => ?_⟩
  obtain ⟨v,versioned⟩ := sound.versioned
  exact accepts_floor versioned

theorem advance_kept {c c' : Control} {pointer p : Option UpdateRuntimeSelection} (agrees : h.Agrees)
    (ledger : h.ledger = .ok (some c)) (sound : c'.Sound) (kept : c'.Kept) (same : c'.floor = c.floor)
    (selected : h.Points p) (allowed : p = c'.baseline ∨ p = some c'.target)
    (placed : (h.withControl c').Placed c') (replaced : ((h.withControl c').withPointer pointer).Placed c')
    (written : Written h c' pointer d) : Advance h d := by
  obtain ⟨holds,_,_⟩ := agrees.owner ledger
  apply advance_written sound kept (fun c₀ other => congrArg Control.floor (other.same holds))
    (same_floor holds.2 same) selected allowed placed replaced written

theorem advance_prepared {c : Control} {prior : Option Control} {p : Option UpdateRuntimeSelection}
    (agrees : h.Agrees) (ledger : h.ledger = .ok prior) (sound : c.Sound) (kept : c.Kept)
    (same : c.floor = prior.bind (·.floor)) (selected : h.Points p) (based : p = c.baseline)
    (pending : c.phase.settled = false) : Advance h (h.withControl c) := by
  have placed : (h.withControl c).Placed c := by
    apply Home.placed_pending pending
    rw [Home.points_withControl,← based]
    exact .inl selected
  refine ⟨.inr ⟨c,Home.holds_withControl sound,kept,placed⟩,?_,fun moved => absurd rfl moved⟩
  rcases agrees.read ledger with ⟨rfl,absent⟩ | ⟨c₀,rfl,holds,_,_⟩
  · intro n ⟨c',_,_,holds,_⟩
    rw [holds.1] at absent
    cases absent
  · exact Home.bounded_withControl (fun c₁ other => congrArg Control.floor (other.same holds)) sound
      (same_floor holds.2 same)

theorem prior_floor {prior : Option Control} (ledger : h.ledger = .ok prior) (c₀ : Control) (holds : h.Holds c₀) :
    c₀.floor = prior.bind (·.floor) := by
  rw [holds.read ledger]
  rfl

theorem advance_of_effect (agrees : h.Agrees) (effect : Effect h d) : Advance h d := by
  cases effect with
  | copied version bootstrap => exact ⟨agrees,fun n bounded => bounded,fun moved => absurd rfl moved⟩
  | prepared ledger quiet selected given admitted sound =>
    exact advance_prepared agrees ledger sound ⟨fun _ => admitted.accepted,nofun⟩ rfl (Home.points_of_selection selected)
      rfl rfl
  | @begun c p _ ledger phase selected allowed capable sound written =>
    obtain ⟨holds,kept,_⟩ := agrees.owner ledger
    have points := Home.points_of_selection selected
    apply advance_kept agrees ledger sound ⟨kept.fallback,nofun⟩ rfl points allowed _ _ written
    · apply Home.placed_pending rfl
      rcases allowed with rfl | rfl
      · exact .inl (by simpa using points)
      · exact .inr (by simpa using points)
    · apply Home.placed_pending rfl
      exact .inr (Home.points_withPointer fun s same => Option.some.inj same ▸ sound.facts.target)
  | @fenced c p _ ledger phase selected allowed capable sound written =>
    obtain ⟨holds,kept,_⟩ := agrees.owner ledger
    have points := Home.points_of_selection selected
    apply advance_written sound ⟨nofun,nofun⟩ (prior_floor ledger)
      (fun f floored => ⟨_,rfl,holds.2.facts.above f floored⟩) points allowed _ _ written
    · apply Home.placed_pending rfl
      rcases allowed with rfl | rfl
      · exact .inl (by simpa using points)
      · exact .inr (by simpa using points)
    · apply Home.placed_pending rfl
      exact .inr (Home.points_withPointer fun s same => Option.some.inj same ▸ sound.facts.target)
  | @completed c ledger phase accepted selected capable sound =>
    obtain ⟨holds,kept,_⟩ := agrees.owner ledger
    have points := Home.points_of_selection selected
    apply advance_kept agrees ledger sound ⟨kept.fallback,fun _ => accepted⟩ rfl points (.inr rfl) _ _ (.inl rfl)
    · exact some c.target
    · exact .inl (by simpa using points)
    · exact .inl (Home.points_withPointer fun s same => Option.some.inj same ▸ sound.facts.target)
  | @handed key prior target baseline previous _ ledger quiet selected admitted sound written =>
    have points := Home.points_of_selection selected
    apply advance_written sound (kept_forward sound.facts.target) (prior_floor ledger)
      (fun f floored => ⟨_,rfl,admitted.above f floored⟩) points (.inl rfl) _ _ written
    · exact .inr ⟨rfl,(Home.points_withControl _ _).mpr points⟩
    · exact .inl (Home.points_withPointer fun s same => Option.some.inj same ▸ sound.facts.target)
  | @repaired c p ledger phase bound selected allowed sound =>
    obtain ⟨holds,kept,_⟩ := agrees.owner ledger
    refine ⟨.inr ⟨c,holds,kept,?_⟩,fun n bounded => bounded,fun _ => ⟨c,p,holds,Home.points_of_selection selected,?_⟩⟩
    · unfold Home.Placed
      rw [phase]
      exact .inl (Home.points_withPointer fun s same => Option.some.inj same ▸ sound)
    · rcases allowed with same | same
      · exact .inl same
      · exact .inr (.inr same)
  | @rebound key prior previous target disk bootstrap _ ledger quiet selected copied upgrade accepted capable phase which
      sound written =>
    have points : {h with disk}.Points (some previous) := Home.points_of_selection selected
    have higher : ∀ f, prior.bind (·.floor) = some f → ∃ f', some target.floor = some f' ∧
        older f'.minimumRuntimeVersion f.minimumRuntimeVersion = .ok false := by
      intro f floored
      rw [floored] at accepted
      exact ⟨_,rfl,(accepts_ok accepted).1⟩
    have written : Written {h with disk} (forward key phase (some previous) (some previous) target) (some target) d := by
      rcases written with ⟨rfl,_⟩ | rfl
      · exact .inl rfl
      · exact .inr rfl
    have floored : ∀ c₀, {h with disk}.Holds c₀ → c₀.floor = prior.bind (·.floor) :=
      fun c₀ holds => prior_floor ledger c₀ holds
    have advance : Advance {h with disk} d := by
      apply advance_written sound (kept_forward sound.facts.target) floored higher points (.inl rfl) _ _ written
      · rcases which with rfl | rfl | rfl
        · exact .inl ((Home.points_withControl _ _).mpr points)
        · exact .inl ((Home.points_withControl _ _).mpr points)
        · exact .inr ⟨rfl,(Home.points_withControl _ _).mpr points⟩
      · have replaced : (({h with disk}.withControl (forward key phase (some previous) (some previous) target)).withPointer
            (some target)).Points (some target) :=
          Home.points_withPointer fun s same => Option.some.inj same ▸ sound.facts.target
        rcases which with rfl | rfl | rfl
        · exact .inr replaced
        · exact .inr replaced
        · exact .inl replaced
    exact ⟨advance.agrees,advance.rises,advance.own⟩
  | @restored c p _ ledger pending selected allowed restorable given written =>
    obtain ⟨holds,kept,_⟩ := agrees.owner ledger
    have points := Home.points_of_selection selected
    have own : p = c.baseline ∨ p = c.previous ∨ p = some c.target := by
      rcases allowed with same | same | same
      · exact .inl same
      · exact .inr (.inr same)
      · exact .inr (.inl same)
    have recovering := holds.2.recover (.inl rfl)
    rcases written with rfl | rfl
    · refine ⟨.inr ⟨c,holds,kept,?_⟩,fun n bounded => bounded,fun _ => ⟨c,p,holds,points,own⟩⟩
      exact Home.placed_restored pending (Home.points_withPointer given)
    · refine ⟨.inr ⟨_,Home.holds_withControl recovering,⟨kept.fallback,nofun⟩,?_⟩,?_,fun _ =>
        ⟨_,p,Home.holds_withControl recovering,points,own⟩⟩
      · apply Home.placed_restored rfl
        rw [Home.points_withControl]
        exact Home.points_withPointer given
      · intro n bounded
        exact Home.bounded_withControl (fun c₀ holds => prior_floor ledger c₀ holds) recovering (same_floor holds.2 rfl) n
          (Home.bounded_withPointer c.restored bounded)
  | @recovered c ledger phase selected restorable sound =>
    obtain ⟨holds,kept,_⟩ := agrees.owner ledger
    refine ⟨.inr ⟨_,Home.holds_withControl sound,⟨kept.fallback,nofun⟩,?_⟩,?_,fun moved => absurd rfl moved⟩
    · show (h.withControl _).Points c.restored
      rw [Home.points_withControl]
      exact Home.points_of_selection selected
    · exact Home.bounded_withControl (prior_floor ledger) sound (same_floor holds.2 rfl)

end ATape.Update
