import ATape.Capture.Operations
import Mathlib.Logic.Function.Basic

/-! What the journal is for, without its rows: a scope has a standing, a
capture has a phase and a prepared unit is a piece that is owed until it is
settled. The steps are the transitions a journal may make; the invariants say
that one capture at a time is open in a scope, that completion means exactly
that nothing is owed, and that only pieces nobody needs have been dropped. -/
namespace ATape.Capture.Lifecycle
open Foundation

structure Standing where
  checkpoint : Option String
  coverage : Option String
  deriving DecidableEq

structure Phase where
  state : CaptureState
  receipt : Option String
  expected : Option String
  purpose : CapturePurpose
  tracked : Bool

structure Piece where
  disposition : UnitDisposition
  body : Option ByteArray

structure View where
  standing : ScopeKey → Option Standing
  phase : CaptureKey → Option Phase
  piece : UnitKey → Option Piece

def unresolved (p : Phase) : Prop := p.state = .preparing ∨ p.state = .sealed

def Resolved (p : Phase) (kind : CaptureUnitKind) (disposition : UnitDisposition) : Prop :=
  p.state = .abandoned ∨ (kind = .canonical ∧ p.receipt.isSome) ∨
    (kind = .raw ∧ disposition ≠ .pending)

namespace View

def owes (v : View) (c : CaptureKey) : Prop :=
  ∃ u p, v.piece u = some p ∧ u.capture = c ∧ u.kind = .raw ∧ p.disposition = .pending

def finish (p : Phase) : Phase := if p.receipt.isSome then {p with state := .completed} else p

open Classical in
noncomputable def complete (v : View) (c : CaptureKey) : View :=
  if v.owes c then v else {v with phase := Function.update v.phase c ((v.phase c).map finish)}

noncomputable def activate (v : View) (c : CaptureKey) (p : Phase) (standing : Standing)
    (receipt next : String) : View where
  standing := if p.purpose = .publication then
    Function.update v.standing c.scope
      (some ⟨some next,if p.tracked then some c.id else standing.coverage⟩) else v.standing
  phase := Function.update v.phase c (some {p with state := .activated, receipt := some receipt})
  piece := v.piece

end View

/-- A transition, labelled with the activation it makes, if it makes one. -/
inductive Step : View → Option (CaptureKey × String) → View → Prop
  | idle (v) : Step v none v
  | opened (v key) (fresh : v.standing key = none) :
      Step v none {v with standing := Function.update v.standing key (some ⟨none,none⟩)}
  | reserved (v c) (standing : Standing) (p : Phase) (known : v.standing c.scope = some standing)
      (fresh : v.phase c = none)
      (alone : ∀ d q, d.scope = c.scope → v.phase d = some q → ¬unresolved q)
      (current : standing.checkpoint = p.expected) (state : p.state = .preparing)
      (receipt : p.receipt = none) :
      Step v none {v with phase := Function.update v.phase c (some p)}
  | prepared (v u bytes) (p : Phase) (owner : v.phase u.capture = some p) (state : p.state = .preparing)
      (fresh : v.piece u = none) :
      Step v none {v with piece := Function.update v.piece u (some ⟨.pending,some bytes⟩)}
  | sealed (v c) (p : Phase) (owner : v.phase c = some p) (state : p.state = .preparing) :
      Step v none {v with phase := Function.update v.phase c (some {p with state := .sealed})}
  | acknowledged (v u) (p : Phase) (piece : Piece) (owner : v.phase u.capture = some p)
      (state : p.state = .sealed) (channel : u.kind = .canonical) (found : v.piece u = some piece) :
      Step v none {v with piece := Function.update v.piece u (some {piece with disposition := .acknowledged})}
  | activated (v c) (p : Phase) (standing : Standing) (receipt next : String)
      (owner : v.phase c = some p) (state : p.state = .sealed)
      (known : v.standing c.scope = some standing) (current : standing.checkpoint = p.expected) :
      Step v (some (c,receipt)) ((v.activate c p standing receipt next).complete c)
  | settled (v c pieces) (only : ∀ u, pieces u = v.piece u ∨
        u.capture = c ∧ u.kind = .raw ∧ ∃ p d, v.piece u = some p ∧ d ≠ .pending ∧
          pieces u = some {p with disposition := d}) :
      Step v none (View.complete {v with piece := pieces} c)
  | abandoned (v c) (p : Phase) (owner : v.phase c = some p) (still : unresolved p) :
      Step v none {v with phase := Function.update v.phase c (some {p with state := .abandoned})}
  | reclaimed (v c pieces) (p : Phase) (owner : v.phase c = some p)
      (only : ∀ u, pieces u = v.piece u ∨ u.capture = c ∧ ∃ q, v.piece u = some q ∧
        Resolved p u.kind q.disposition ∧ pieces u = some {q with body := none}) :
      Step v none {v with piece := pieces}

structure Sound (v : View) : Prop where
  alone : ∀ c d p q, c.scope = d.scope → v.phase c = some p → v.phase d = some q →
    unresolved p → unresolved q → c = d
  receipt : ∀ c p, v.phase c = some p →
    (p.receipt.isSome ↔ p.state = .activated ∨ p.state = .completed)
  finished : ∀ c p, v.phase c = some p → (p.state = .completed ↔ p.receipt.isSome ∧ ¬v.owes c)
  owned : ∀ u piece, v.piece u = some piece → ∃ p, v.phase u.capture = some p
  dropped : ∀ u piece p, v.piece u = some piece → v.phase u.capture = some p →
    piece.body = none → Resolved p u.kind piece.disposition

/-- `Sound` while the capture `c` is still to be completed. -/
structure Settling (c : CaptureKey) (v : View) : Prop where
  alone : ∀ c d p q, c.scope = d.scope → v.phase c = some p → v.phase d = some q →
    unresolved p → unresolved q → c = d
  receipt : ∀ c p, v.phase c = some p →
    (p.receipt.isSome ↔ p.state = .activated ∨ p.state = .completed)
  others : ∀ d p, d ≠ c → v.phase d = some p → (p.state = .completed ↔ p.receipt.isSome ∧ ¬v.owes d)
  closed : ∀ p, v.phase c = some p → p.state = .completed → ¬v.owes c
  owned : ∀ u piece, v.piece u = some piece → ∃ p, v.phase u.capture = some p
  dropped : ∀ u piece p, v.piece u = some piece → v.phase u.capture = some p →
    piece.body = none → Resolved p u.kind piece.disposition

theorem unresolved_receipt {v : View} (sound : Sound v) {c : CaptureKey} {p : Phase}
    (owner : v.phase c = some p) (still : unresolved p) : p.receipt = none := by
  have known := sound.receipt c p owner
  cases found : p.receipt with
  | none => rfl
  | some receipt =>
    rw [found] at known
    rcases still with same | same <;> rcases known.mp rfl with other | other <;>
      rw [same] at other <;> cases other

private theorem owes_congr {v w : View} (c : CaptureKey)
    (same : ∀ u, u.capture = c → u.kind = .raw →
      ((∃ p, w.piece u = some p ∧ p.disposition = .pending) ↔
        ∃ p, v.piece u = some p ∧ p.disposition = .pending)) : w.owes c ↔ v.owes c := by
  constructor
  · rintro ⟨u,p,found,inside,raw,pending⟩
    obtain ⟨q,there,still⟩ := (same u inside raw).mp ⟨p,found,pending⟩
    exact ⟨u,q,there,inside,raw,still⟩
  · rintro ⟨u,p,found,inside,raw,pending⟩
    obtain ⟨q,there,still⟩ := (same u inside raw).mpr ⟨p,found,pending⟩
    exact ⟨u,q,there,inside,raw,still⟩

theorem complete_phase (v : View) (c d : CaptureKey) (p : Phase)
    (found : (v.complete c).phase d = some p) :
    ∃ q, v.phase d = some q ∧
      (p = q ∧ (d = c → v.owes c ∨ q.receipt = none) ∨
        d = c ∧ ¬v.owes c ∧ q.receipt.isSome ∧ p = {q with state := .completed}) := by
  unfold View.complete at found
  split at found
  next pending => exact ⟨p,found,.inl ⟨rfl,fun _ => .inl pending⟩⟩
  next idle =>
    by_cases same : d = c
    · subst same
      simp only [Function.update_self,Option.map_eq_some_iff] at found
      obtain ⟨q,there,done⟩ := found
      refine ⟨q,there,?_⟩
      unfold View.finish at done
      split at done
      next given => exact .inr ⟨rfl,idle,given,done.symm⟩
      next missing => exact .inl ⟨done.symm,fun _ => .inr (by simpa using missing)⟩
    · simp only [Function.update_of_ne same] at found
      exact ⟨p,found,.inl ⟨rfl,fun equal => absurd equal same⟩⟩

@[simp] theorem complete_piece (v : View) (c : CaptureKey) : (v.complete c).piece = v.piece := by
  unfold View.complete
  split <;> rfl

@[simp] theorem complete_standing (v : View) (c : CaptureKey) :
    (v.complete c).standing = v.standing := by
  unfold View.complete
  split <;> rfl

@[simp] theorem complete_owes (v : View) (c d : CaptureKey) : (v.complete c).owes d ↔ v.owes d := by
  simp [View.owes]

theorem complete_isSome (v : View) (c d : CaptureKey) (p : Phase) (found : v.phase d = some p) :
    ∃ q, (v.complete c).phase d = some q := by
  unfold View.complete
  split
  · exact ⟨p,found⟩
  · by_cases same : d = c
    · subst same
      simp [found]
    · simp [same,found]

theorem Settling.complete {v : View} {c : CaptureKey} (base : Settling c v) :
    Sound (v.complete c) where
  alone := by
    intro d e p q same left right still open'
    obtain ⟨p',before,which⟩ := complete_phase v c d p left
    obtain ⟨q',before',which'⟩ := complete_phase v c e q right
    rcases which with ⟨rfl,_⟩ | ⟨_,_,_,rfl⟩
    · rcases which' with ⟨rfl,_⟩ | ⟨_,_,_,rfl⟩
      · exact base.alone d e _ _ same before before' still open'
      · rcases open' with bad | bad <;> cases bad
    · rcases still with bad | bad <;> cases bad
  receipt := by
    intro d p found
    obtain ⟨q,before,which⟩ := complete_phase v c d p found
    rcases which with ⟨rfl,_⟩ | ⟨_,_,given,rfl⟩
    · exact base.receipt d _ before
    · simp [given]
  finished := by
    intro d p found
    rw [complete_owes]
    obtain ⟨q,before,which⟩ := complete_phase v c d p found
    rcases which with ⟨rfl,reason⟩ | ⟨rfl,idle,given,rfl⟩
    · by_cases same : d = c
      · subst same
        have known := base.receipt d _ before
        constructor
        · intro done
          exact ⟨known.mpr (.inr done),base.closed _ before done⟩
        · rintro ⟨given,idle⟩
          rcases reason rfl with pending | missing
          · exact absurd pending idle
          · simp [missing] at given
      · exact base.others d _ same before
    · simp [given,idle]
  owned := by
    intro u piece found
    rw [complete_piece] at found
    obtain ⟨p,there⟩ := base.owned u piece found
    exact complete_isSome v c _ p there
  dropped := by
    intro u piece p found owner gone
    rw [complete_piece] at found
    obtain ⟨q,before,which⟩ := complete_phase v c _ p owner
    have needless := base.dropped u piece q found before gone
    rcases which with ⟨rfl,_⟩ | ⟨_,_,given,rfl⟩
    · exact needless
    · rcases needless with bad | rest | rest
      · have known := (base.receipt _ q before).mp given
        rw [bad] at known
        rcases known with known | known <;> cases known
      · exact .inr (.inl ⟨rest.1,given⟩)
      · exact .inr (.inr rest)

private theorem sound_reserved {v : View} (sound : Sound v) (c : CaptureKey) (p : Phase)
    (fresh : v.phase c = none)
    (alone : ∀ d q, d.scope = c.scope → v.phase d = some q → ¬unresolved q)
    (state : p.state = .preparing) (receipt : p.receipt = none) :
    Sound {v with phase := Function.update v.phase c (some p)} where
  alone := by
    intro d e q r same left right still open'
    by_cases first : d = c
    · by_cases second : e = c
      · rw [first,second]
      · subst first
        simp only [Function.update_of_ne second] at right
        exact absurd open' (alone e r same.symm right)
    · simp only [Function.update_of_ne first] at left
      by_cases second : e = c
      · subst second
        exact absurd still (alone d q same left)
      · simp only [Function.update_of_ne second] at right
        exact sound.alone d e q r same left right still open'
  receipt := by
    intro d q found
    by_cases same : d = c
    · subst same
      simp only [Function.update_self,Option.some.injEq] at found
      subst found
      simp [receipt,state]
    · simp only [Function.update_of_ne same] at found
      exact sound.receipt d q found
  finished := by
    intro d q found
    by_cases same : d = c
    · subst same
      simp only [Function.update_self,Option.some.injEq] at found
      subst found
      simp [receipt,state]
    · simp only [Function.update_of_ne same] at found
      exact sound.finished d q found
  owned := by
    intro u piece found
    obtain ⟨q,there⟩ := sound.owned u piece found
    by_cases same : u.capture = c
    · rw [same,fresh] at there
      cases there
    · exact ⟨q,by simpa [same] using there⟩
  dropped := by
    intro u piece q found owner gone
    by_cases same : u.capture = c
    · obtain ⟨r,there⟩ := sound.owned u piece found
      rw [same,fresh] at there
      cases there
    · simp only [Function.update_of_ne same] at owner
      exact sound.dropped u piece q found owner gone

private theorem sound_moved {v : View} (sound : Sound v) (c : CaptureKey) (p : Phase)
    (state : CaptureState) (owner : v.phase c = some p) (still : unresolved p)
    (target : state = .sealed ∨ state = .abandoned) :
    Sound {v with phase := Function.update v.phase c (some {p with state})} where
  alone := by
    intro d e q r same left right still' open'
    by_cases first : d = c
    · by_cases second : e = c
      · rw [first,second]
      · subst first
        simp only [Function.update_of_ne second] at right
        exact sound.alone d e p r same owner right still open'
    · simp only [Function.update_of_ne first] at left
      by_cases second : e = c
      · subst second
        exact sound.alone d e q p same left owner still' still
      · simp only [Function.update_of_ne second] at right
        exact sound.alone d e q r same left right still' open'
  receipt := by
    intro d q found
    by_cases same : d = c
    · subst same
      simp only [Function.update_self,Option.some.injEq] at found
      subst found
      have missing := unresolved_receipt sound owner still
      rcases target with rfl | rfl <;> simp [missing]
    · simp only [Function.update_of_ne same] at found
      exact sound.receipt d q found
  finished := by
    intro d q found
    by_cases same : d = c
    · subst same
      simp only [Function.update_self,Option.some.injEq] at found
      subst found
      have missing := unresolved_receipt sound owner still
      rcases target with rfl | rfl <;> simp [missing]
    · simp only [Function.update_of_ne same] at found
      exact sound.finished d q found
  owned := by
    intro u piece found
    obtain ⟨q,there⟩ := sound.owned u piece found
    by_cases same : u.capture = c
    · exact ⟨{p with state},by simp [same]⟩
    · exact ⟨q,by simpa [same] using there⟩
  dropped := by
    intro u piece q found owner' gone
    by_cases same : u.capture = c
    · subst same
      simp only [Function.update_self,Option.some.injEq] at owner'
      subst owner'
      have missing := unresolved_receipt sound owner still
      rcases sound.dropped u piece p found owner gone with bad | ⟨_,given⟩ | rest
      · rcases still with other | other <;> rw [bad] at other <;> cases other
      · simp [missing] at given
      · exact .inr (.inr rest)
    · simp only [Function.update_of_ne same] at owner'
      exact sound.dropped u piece q found owner' gone

private theorem sound_prepared {v : View} (sound : Sound v) (u : UnitKey) (bytes : ByteArray) (p : Phase)
    (owner : v.phase u.capture = some p) (state : p.state = .preparing) :
    Sound {v with piece := Function.update v.piece u (some ⟨.pending,some bytes⟩)} where
  alone := sound.alone
  receipt := sound.receipt
  finished := by
    intro c q found
    have before := sound.finished c q found
    by_cases same : c = u.capture
    · subst same
      have equal : q = p := Option.some.inj (found.symm.trans owner)
      subst equal
      have missing := unresolved_receipt sound found (.inl state)
      simp [missing,state]
    · rw [before]
      refine and_congr_right fun _ => not_congr (owes_congr c ?_).symm
      intro w inside _
      have other : w ≠ u := fun equal => same (by rw [← inside,equal])
      simp [other]
  owned := by
    intro w piece found
    by_cases same : w = u
    · subst same
      exact ⟨p,owner⟩
    · simp only [Function.update_of_ne same] at found
      exact sound.owned w piece found
  dropped := by
    intro w piece q found owner' gone
    by_cases same : w = u
    · subst same
      simp only [Function.update_self,Option.some.injEq] at found
      subst found
      cases gone
    · simp only [Function.update_of_ne same] at found
      exact sound.dropped w piece q found owner' gone

private theorem sound_acknowledged {v : View} (sound : Sound v) (u : UnitKey) (piece : Piece)
    (channel : u.kind = .canonical) (found : v.piece u = some piece) :
    Sound {v with piece := Function.update v.piece u (some {piece with disposition := .acknowledged})} where
  alone := sound.alone
  receipt := sound.receipt
  finished := by
    intro c q there
    rw [sound.finished c q there]
    refine and_congr_right fun _ => not_congr (owes_congr c ?_).symm
    intro w _ raw
    have other : w ≠ u := fun equal => by rw [equal,channel] at raw; cases raw
    simp [other]
  owned := by
    intro w other there
    by_cases same : w = u
    · subst same
      exact sound.owned w piece found
    · simp only [Function.update_of_ne same] at there
      exact sound.owned w other there
  dropped := by
    intro w other q there owner gone
    by_cases same : w = u
    · subst same
      simp only [Function.update_self,Option.some.injEq] at there
      subst there
      rcases sound.dropped w piece q found owner gone with done | rest | ⟨raw,_⟩
      · exact .inl done
      · exact .inr (.inl rest)
      · rw [channel] at raw
        cases raw
    · simp only [Function.update_of_ne same] at there
      exact sound.dropped w other q there owner gone

private theorem settling_activated {v : View} (sound : Sound v) (c : CaptureKey) (p : Phase)
    (standing : Standing) (receipt next : String) (owner : v.phase c = some p)
    (state : p.state = .sealed) : Settling c (v.activate c p standing receipt next) where
  alone := by
    intro d e q r same left right still open'
    by_cases first : d = c
    · subst first
      simp only [View.activate,Function.update_self,Option.some.injEq] at left
      subst left
      rcases still with bad | bad <;> cases bad
    · simp only [View.activate,Function.update_of_ne first] at left
      by_cases second : e = c
      · subst second
        simp only [View.activate,Function.update_self,Option.some.injEq] at right
        subst right
        rcases open' with bad | bad <;> cases bad
      · simp only [View.activate,Function.update_of_ne second] at right
        exact sound.alone d e q r same left right still open'
  receipt := by
    intro d q found
    by_cases same : d = c
    · subst same
      simp only [View.activate,Function.update_self,Option.some.injEq] at found
      subst found
      simp
    · simp only [View.activate,Function.update_of_ne same] at found
      exact sound.receipt d q found
  others := by
    intro d q other found
    simp only [View.activate,Function.update_of_ne other] at found
    exact sound.finished d q found
  closed := by
    intro q found done
    simp only [View.activate,Function.update_self,Option.some.injEq] at found
    subst found
    cases done
  owned := by
    intro u piece found
    obtain ⟨q,there⟩ := sound.owned u piece found
    by_cases same : u.capture = c
    · exact ⟨_,by simp [View.activate,same]; rfl⟩
    · exact ⟨q,by simpa [View.activate,same] using there⟩
  dropped := by
    intro u piece q found owner' gone
    by_cases same : u.capture = c
    · subst same
      simp only [View.activate,Function.update_self,Option.some.injEq] at owner'
      subst owner'
      rcases sound.dropped u piece p found owner gone with bad | ⟨channel,_⟩ | rest
      · rw [state] at bad
        cases bad
      · exact .inr (.inl ⟨channel,rfl⟩)
      · exact .inr (.inr rest)
    · simp only [View.activate,Function.update_of_ne same] at owner'
      exact sound.dropped u piece q found owner' gone

private theorem settling_settled {v : View} (sound : Sound v) (c : CaptureKey)
    (pieces : UnitKey → Option Piece) (only : ∀ u, pieces u = v.piece u ∨
      u.capture = c ∧ u.kind = .raw ∧ ∃ p d, v.piece u = some p ∧ d ≠ .pending ∧
        pieces u = some {p with disposition := d}) : Settling c {v with piece := pieces} where
  alone := sound.alone
  receipt := sound.receipt
  others := by
    intro d p other found
    rw [sound.finished d p found]
    refine and_congr_right fun _ => not_congr (owes_congr d ?_).symm
    intro u inside _
    rcases only u with same | ⟨there,_⟩
    · simp only [same]
    · exact absurd (inside.symm.trans there) other
  closed := by
    intro p found done pending
    refine ((sound.finished c p found).mp done).2 ?_
    obtain ⟨u,q,there,inside,raw,owed⟩ := pending
    rcases only u with same | ⟨_,_,r,d,_,settled,there'⟩
    · exact ⟨u,q,same.symm.trans there,inside,raw,owed⟩
    · have equal : q = {r with disposition := d} := Option.some.inj (there.symm.trans there')
      subst equal
      exact absurd owed settled
  owned := by
    intro u piece found
    rcases only u with same | ⟨_,_,r,d,there,_⟩
    · exact sound.owned u piece (same.symm.trans found)
    · exact sound.owned u r there
  dropped := by
    intro u piece p found owner gone
    rcases only u with same | ⟨_,raw,r,d,there,settled,there'⟩
    · exact sound.dropped u piece p (same.symm.trans found) owner gone
    · have equal : piece = {r with disposition := d} := Option.some.inj (found.symm.trans there')
      subst equal
      exact .inr (.inr ⟨raw,settled⟩)

private theorem sound_reclaimed {v : View} (sound : Sound v) (c : CaptureKey) (p : Phase)
    (pieces : UnitKey → Option Piece) (owner : v.phase c = some p)
    (only : ∀ u, pieces u = v.piece u ∨ u.capture = c ∧ ∃ q, v.piece u = some q ∧
      Resolved p u.kind q.disposition ∧ pieces u = some {q with body := none}) :
    Sound {v with piece := pieces} where
  alone := sound.alone
  receipt := sound.receipt
  finished := by
    intro d q found
    rw [sound.finished d q found]
    refine and_congr_right fun _ => not_congr (owes_congr d ?_).symm
    intro u _ _
    rcases only u with same | ⟨_,r,there,_,there'⟩
    · simp only [same]
    · simp [there,there']
  owned := by
    intro u piece found
    rcases only u with same | ⟨_,r,there,_⟩
    · exact sound.owned u piece (same.symm.trans found)
    · exact sound.owned u r there
  dropped := by
    intro u piece q found owner' gone
    rcases only u with same | ⟨inside,r,_,needless,there'⟩
    · exact sound.dropped u piece q (same.symm.trans found) owner' gone
    · have equal : piece = {r with body := none} := Option.some.inj (found.symm.trans there')
      subst equal
      have holder : q = p := Option.some.inj (owner'.symm.trans (inside ▸ owner))
      subst holder
      exact needless

theorem Sound.step {v w : View} {event : Option (CaptureKey × String)} (sound : Sound v)
    (step : Step v event w) : Sound w := by
  cases step with
  | idle => exact sound
  | opened => exact ⟨sound.alone,sound.receipt,sound.finished,sound.owned,sound.dropped⟩
  | reserved c standing p known fresh alone current state receipt =>
    exact sound_reserved sound c p fresh alone state receipt
  | prepared u bytes p owner state fresh => exact sound_prepared sound u bytes p owner state
  | sealed c p owner state => exact sound_moved sound c p _ owner (.inl state) (.inl rfl)
  | acknowledged u p piece owner state channel found =>
    exact sound_acknowledged sound u piece channel found
  | activated c p standing receipt next owner state known current =>
    exact (settling_activated sound c p standing receipt next owner state).complete
  | settled c pieces only => exact (settling_settled sound c pieces only).complete
  | abandoned c p owner still => exact sound_moved sound c p _ owner still (.inr rfl)
  | reclaimed c pieces p owner only => exact sound_reclaimed sound c p pieces owner only

/-- A capture keeps its reservation and its receipt, and a terminal state. -/
structure Kept (p q : Phase) : Prop where
  expected : q.expected = p.expected
  purpose : q.purpose = p.purpose
  tracked : q.tracked = p.tracked
  receipt : ∀ r, p.receipt = some r → q.receipt = some r
  completed : p.state = .completed → q.state = .completed
  abandoned : p.state = .abandoned → q.state = .abandoned

theorem Kept.refl (p : Phase) : Kept p p := ⟨rfl,rfl,rfl,fun _ => id,id,id⟩

theorem Kept.trans {p q r : Phase} (first : Kept p q) (second : Kept q r) : Kept p r where
  expected := second.expected.trans first.expected
  purpose := second.purpose.trans first.purpose
  tracked := second.tracked.trans first.tracked
  receipt := fun x held => second.receipt x (first.receipt x held)
  completed := fun done => second.completed (first.completed done)
  abandoned := fun done => second.abandoned (first.abandoned done)

private theorem kept_moved {p : Phase} (still : unresolved p) (missing : p.receipt = none)
    (state : CaptureState) (receipt : Option String) : Kept p {p with state, receipt} where
  expected := rfl
  purpose := rfl
  tracked := rfl
  receipt := by simp [missing]
  completed := by rcases still with same | same <;> simp [same]
  abandoned := by rcases still with same | same <;> simp [same]

private theorem kept_complete {v : View} (c d : CaptureKey) (p : Phase) (found : v.phase d = some p)
    (receipt : p.state = .abandoned → p.receipt = none) :
    ∃ q, (v.complete c).phase d = some q ∧ Kept p q := by
  obtain ⟨q,after⟩ := complete_isSome v c d p found
  obtain ⟨r,before,which⟩ := complete_phase v c d q after
  have same : r = p := Option.some.inj (before.symm.trans found)
  subst same
  refine ⟨q,after,?_⟩
  rcases which with ⟨rfl,_⟩ | ⟨_,_,given,rfl⟩
  · exact .refl q
  · refine ⟨rfl,rfl,rfl,fun _ => id,fun _ => rfl,fun bad => ?_⟩
    rw [receipt bad] at given
    cases given

theorem abandoned_receipt {v : View} (sound : Sound v) {c : CaptureKey} {p : Phase}
    (owner : v.phase c = some p) (gone : p.state = .abandoned) : p.receipt = none := by
  have known := sound.receipt c p owner
  cases found : p.receipt with
  | none => rfl
  | some receipt =>
    rw [found] at known
    rcases known.mp rfl with other | other <;> rw [gone] at other <;> cases other

private theorem kept_updated {v : View} {c d : CaptureKey} {p q r : Phase} (owner : v.phase c = some p)
    (found : v.phase d = some q) (kept : Kept p r) :
    ∃ q', Function.update v.phase c (some r) d = some q' ∧ Kept q q' := by
  by_cases same : d = c
  · subst same
    have equal : q = p := Option.some.inj (found.symm.trans owner)
    subst equal
    exact ⟨r,by simp,kept⟩
  · exact ⟨q,by simpa [same] using found,.refl q⟩

theorem Step.kept {v w : View} {event : Option (CaptureKey × String)} (sound : Sound v)
    (step : Step v event w) (d : CaptureKey) (q : Phase)
    (found : v.phase d = some q) : ∃ q', w.phase d = some q' ∧ Kept q q' := by
  cases step with
  | idle => exact ⟨q,found,.refl q⟩
  | opened => exact ⟨q,found,.refl q⟩
  | reserved c standing p known fresh alone current state receipt =>
    have other : d ≠ c := fun equal => by rw [equal,fresh] at found; cases found
    exact ⟨q,by simpa [other] using found,.refl q⟩
  | prepared => exact ⟨q,found,.refl q⟩
  | sealed c p owner state =>
    exact kept_updated owner found
      (kept_moved (.inl state) (unresolved_receipt sound owner (.inl state)) _ p.receipt)
  | acknowledged => exact ⟨q,found,.refl q⟩
  | activated c p standing receipt next owner state known current =>
    obtain ⟨r,middle,first⟩ := kept_updated owner found
      (kept_moved (.inr state) (unresolved_receipt sound owner (.inr state)) .activated (some receipt))
    have settling := settling_activated sound c p standing receipt next owner state
    have middle : (v.activate c p standing receipt next).phase d = some r := middle
    obtain ⟨q',after,second⟩ := kept_complete c d r middle (by
      intro gone
      have known := settling.receipt d r middle
      cases held : r.receipt with
      | none => rfl
      | some x =>
        rw [held] at known
        rcases known.mp rfl with other | other <;> rw [gone] at other <;> cases other)
    exact ⟨q',after,first.trans second⟩
  | settled c pieces only => exact kept_complete c d q found (abandoned_receipt sound found)
  | abandoned c p owner still =>
    exact kept_updated owner found
      (kept_moved still (unresolved_receipt sound owner still) _ p.receipt)
  | reclaimed => exact ⟨q,found,.refl q⟩

theorem Step.preparing {v w : View} {event : Option (CaptureKey × String)} (step : Step v event w)
    (d : CaptureKey) (q : Phase) (found : w.phase d = some q) (state : q.state = .preparing) :
    v.phase d = none ∨ v.phase d = some q := by
  have updated (c : CaptureKey) (r : Phase) (moved : r.state ≠ .preparing)
      (after : Function.update v.phase c (some r) d = some q) : v.phase d = none ∨ v.phase d = some q := by
    by_cases same : d = c
    · subst same
      simp only [Function.update_self,Option.some.injEq] at after
      rw [after] at moved
      exact absurd state moved
    · rw [Function.update_of_ne same] at after
      exact .inr after
  have completed (x : View) (c : CaptureKey) (after : (x.complete c).phase d = some q) :
      x.phase d = some q := by
    obtain ⟨r,before,which⟩ := complete_phase x c d q after
    rcases which with ⟨rfl,_⟩ | ⟨_,_,_,rfl⟩
    · exact before
    · cases state
  cases step with
  | reserved c standing p known fresh =>
    by_cases same : d = c
    · exact .inl (same ▸ fresh)
    · exact .inr (by simpa [same] using found)
  | sealed c p owner => exact updated c _ (by simp) found
  | activated c p standing receipt next owner =>
    have middle := completed _ c found
    exact updated c {p with state := .activated, receipt := some receipt} (by simp) middle
  | settled c pieces only => exact .inr (completed {v with piece := pieces} c found)
  | abandoned c p owner => exact updated c _ (by simp) found
  | _ => exact .inr found

/-- The standing of a known scope moves only when a publication of it, made
against the current checkpoint, is activated. -/
theorem Step.advance {v w : View} {event : Option (CaptureKey × String)} (sound : Sound v)
    (step : Step v event w) (key : ScopeKey) (standing : Standing)
    (known : v.standing key = some standing) (moved : w.standing key ≠ some standing) :
    ∃ id receipt p q, event = some (⟨key,id⟩,receipt) ∧ v.phase ⟨key,id⟩ = some p ∧
      p.receipt = none ∧ p.purpose = .publication ∧ p.expected = standing.checkpoint ∧
      w.phase ⟨key,id⟩ = some q ∧ q.receipt = some receipt := by
  cases step with
  | opened other fresh =>
    have different : key ≠ other := fun equal => by rw [equal,fresh] at known; cases known
    simp [different,known] at moved
  | activated c p current receipt next owner state standing' same =>
    rw [complete_standing] at moved
    unfold View.activate at moved
    split at moved
    next publication =>
      by_cases inside : key = c.scope
      · subst inside
        have equal : current = standing := Option.some.inj (standing'.symm.trans known)
        subst equal
        obtain ⟨q,after⟩ := complete_isSome (v.activate c p current receipt next) c c
          {p with state := .activated, receipt := some receipt} (by simp [View.activate])
        obtain ⟨r,before,which⟩ := complete_phase _ _ _ _ after
        simp only [View.activate,Function.update_self,Option.some.injEq] at before
        subst before
        refine ⟨c.id,receipt,p,q,rfl,owner,unresolved_receipt sound owner (.inr state),publication,
          same.symm,after,?_⟩
        rcases which with ⟨rfl,_⟩ | ⟨_,_,_,rfl⟩ <;> rfl
      · simp [inside,known] at moved
    next => exact absurd known moved
  | settled => simp [known] at moved
  | _ => exact absurd known moved

theorem Step.body {v w : View} {event : Option (CaptureKey × String)} (step : Step v event w)
    (u : UnitKey) (q : Piece) (found : v.piece u = some q) :
    ∃ q', w.piece u = some q' ∧ (q'.body = q.body ∨ q'.body = none ∧
      ∃ p, v.phase u.capture = some p ∧ Resolved p u.kind q.disposition) := by
  cases step with
  | prepared other bytes p owner state fresh =>
    have different : u ≠ other := fun equal => by rw [equal,fresh] at found; cases found
    exact ⟨q,by simpa [different] using found,.inl rfl⟩
  | acknowledged other p piece owner state channel there =>
    by_cases same : u = other
    · subst same
      have equal : piece = q := Option.some.inj (there.symm.trans found)
      subst equal
      exact ⟨{piece with disposition := .acknowledged},by simp,.inl rfl⟩
    · exact ⟨q,by simpa [same] using found,.inl rfl⟩
  | activated => exact ⟨q,by simpa [View.activate] using found,.inl rfl⟩
  | settled c pieces only =>
    rw [complete_piece]
    rcases only u with same | ⟨_,_,r,d,there,_,after⟩
    · exact ⟨q,same.trans found,.inl rfl⟩
    · have equal : r = q := Option.some.inj (there.symm.trans found)
      subst equal
      exact ⟨_,after,.inl rfl⟩
  | reclaimed c pieces p owner only =>
    rcases only u with same | ⟨inside,r,there,needless,after⟩
    · exact ⟨q,same.trans found,.inl rfl⟩
    · have equal : r = q := Option.some.inj (there.symm.trans found)
      subst equal
      exact ⟨_,after,.inr ⟨rfl,p,by rw [inside]; exact owner,needless⟩⟩
  | _ => exact ⟨q,found,.inl rfl⟩

theorem Step.standing {v w : View} {event : Option (CaptureKey × String)} (step : Step v event w) (key : ScopeKey) (standing : Standing)
    (known : v.standing key = some standing) : ∃ after, w.standing key = some after := by
  cases step with
  | opened other fresh =>
    by_cases same : key = other
    · exact ⟨⟨none,none⟩,by simp [same]⟩
    · exact ⟨standing,by simpa [same] using known⟩
  | activated c p current receipt next owner state standing' same =>
    rw [complete_standing]
    unfold View.activate
    split
    · by_cases inside : key = c.scope
      · exact ⟨_,by simp [inside]; rfl⟩
      · exact ⟨standing,by simpa [inside] using known⟩
    · exact ⟨standing,known⟩
  | settled => exact ⟨standing,by simpa using known⟩
  | _ => exact ⟨standing,known⟩

end ATape.Capture.Lifecycle
