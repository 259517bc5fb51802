import ATape.Foundation.Run
import ATape.Foundation.Shared

/-! The parties of a shared state together. They are interleaved between any two
operations and any of them may crash there; what each keeps by itself holds of every
run. -/
namespace ATape.Foundation
variable {σ ι : Type} {ω : ι → Type} {ρ κ : Type}

inductive Progress (σ : Type) {ι : Type} (ω : ι → Type) (ρ : Type) : Type
  | running (rest : Task σ ω ρ)
  | finished (result : ρ)
  | crashed

/-- A program that was started: what was called, the state at that time and how far it is. -/
structure Launch (σ : Type) {ι : Type} (ω : ι → Type) (ρ κ : Type) where
  call : κ
  began : σ
  progress : Progress σ ω ρ

structure Sys (σ : Type) {ι : Type} (ω : ι → Type) (ρ κ : Type) where
  state : σ
  holder : Option Nat
  launched : Nat → Option (Launch σ ω ρ κ)

namespace Sys

def initial (s : σ) : Sys σ ω ρ κ := ⟨s,none,fun _ => none⟩

def place (sys : Sys σ ω ρ κ) (p : Nat) (launch : Launch σ ω ρ κ) : Sys σ ω ρ κ :=
  {sys with launched := fun q => if q = p then some launch else sys.launched q}

/-- One party further in its program. -/
def continue_ (sys : Sys σ ω ρ κ) (p : Nat) (c : κ) (b : σ) (rest : Task σ ω ρ) : Sys σ ω ρ κ :=
  sys.place p ⟨c,b,.running rest⟩

inductive Label (κ : Type)
  | start (p : Nat) (call : κ)
  | step (p : Nat)
  | crash (p : Nat)

/-- One operation of one party. The lock is had by one party at a time. -/
inductive Step (answers : ∀ q, ω q → Prop) (code : κ → Task σ ω ρ) : Sys σ ω ρ κ → Label κ → Sys σ ω ρ κ → Prop
  | start (sys p c) (fresh : sys.launched p = none) :
    Step answers code sys (.start p c) (sys.continue_ p c sys.state (code c))
  | read (sys p c b next) (at_ : sys.launched p = some ⟨c,b,.running (.read next)⟩) :
    Step answers code sys (.step p) (sys.continue_ p c b (next sys.state))
  | write (sys p c b f next) (at_ : sys.launched p = some ⟨c,b,.running (.write f next)⟩) :
    Step answers code sys (.step p) ({sys with state := f sys.state}.continue_ p c b next)
  | ask (sys p c b q next a) (at_ : sys.launched p = some ⟨c,b,.running (.ask q next)⟩) (answered : answers q a) :
    Step answers code sys (.step p) (sys.continue_ p c b (next a))
  | refuse (sys p c b next) (at_ : sys.launched p = some ⟨c,b,.running (.acquire next)⟩) :
    Step answers code sys (.step p) (sys.continue_ p c b (next false))
  | acquire (sys p c b next) (at_ : sys.launched p = some ⟨c,b,.running (.acquire next)⟩) (free : sys.holder = none) :
    Step answers code sys (.step p) ({sys with holder := some p}.continue_ p c b (next true))
  | release (sys p c b next) (at_ : sys.launched p = some ⟨c,b,.running (.release next)⟩) (own : sys.holder = some p) :
    Step answers code sys (.step p) ({sys with holder := none}.continue_ p c b next)
  | finish (sys p c b r) (at_ : sys.launched p = some ⟨c,b,.running (.done r)⟩) :
    Step answers code sys (.step p) (sys.place p ⟨c,b,.finished r⟩)
  | crash (sys p c b rest) (at_ : sys.launched p = some ⟨c,b,.running rest⟩) :
    Step answers code sys (.crash p)
      ({sys with holder := if sys.holder = some p then none else sys.holder}.place p ⟨c,b,.crashed⟩)

variable (E : Evolution σ) (answers : ∀ q, ω q → Prop) (G : κ → σ → σ → σ → Prop) (post : κ → σ → ρ → σ → Prop)

/-- The terms of a party, by what was called and the state at that time. -/
def terms (c : κ) (b : σ) : Terms σ ω := {E with Own := G c b,Answers := answers}

/-- A party that has kept its side since it was started. -/
def Keeping (launch : Launch σ ω ρ κ) (held : Bool) (state : σ) : Prop :=
  match launch.progress with
  | .running t => ∃ s, E.To launch.began s ∧ E.Sees held s state ∧
    t.Keeps (terms E answers G launch.call launch.began) (fun r held s => held = false ∧ post launch.call launch.began r s) held s
  | .finished r => held = false ∧ ∃ s, E.To launch.began s ∧ E.To s state ∧ post launch.call launch.began r s
  | .crashed => held = false

structure Kept (sys : Sys σ ω ρ κ) : Prop where
  shared : E.Open
  good : E.Good sys.state
  parties : ∀ p launch, sys.launched p = some launch →
    Keeping E answers G post launch (decide (sys.holder = some p)) sys.state
  owned : ∀ p, sys.holder = some p → sys.launched p ≠ none

/-- What every program does by itself when it is started in a good state. -/
def Sound (code : κ → Task σ ω ρ) : Prop :=
  ∀ c s, E.Good s → (code c).Keeps (terms E answers G c s) (fun r held s' => held = false ∧ post c s r s') false s

variable {E answers G post} {code : κ → Task σ ω ρ} {sys sys' : Sys σ ω ρ κ} {label : Label κ}

theorem Keeping.later {launch : Launch σ ω ρ κ} {state state' : σ} (shared : E.Open)
    (keeping : Keeping E answers G post launch false state) (leads : E.To state state') : Keeping E answers G post launch false state' := by
  unfold Keeping at keeping ⊢
  split
  next t running =>
    rw [running] at keeping
    obtain ⟨s,since,sees,keeps⟩ := keeping
    exact ⟨s,since,Evolution.sees_free.mpr (E.others_trans sees.others (shared _ _ leads)),keeps⟩
  next r finished =>
    rw [finished] at keeping
    obtain ⟨free,s,since,then_,holds⟩ := keeping
    exact ⟨free,s,since,E.trans then_ leads,holds⟩
  next => rfl

theorem Kept.place (kept : Kept E answers G post sys) (state : σ) (holder : Option Nat) {p : Nat} {launch : Launch σ ω ρ κ}
    (leads : E.To sys.state state) (others : ∀ q, q ≠ p → (holder = some q ↔ sys.holder = some q))
    (alone : ∀ q, q ≠ p → sys.holder = some q → state = sys.state)
    (keeping : Keeping E answers G post launch (decide (holder = some p)) state) :
    Kept E answers G post (Sys.place {sys with state,holder} p launch) where
  shared := kept.shared
  good := E.keeps leads kept.good
  parties q launch' placed := by
    simp only [Sys.place] at placed ⊢
    split at placed
    next same =>
      cases placed
      rw [same]
      exact keeping
    next other =>
      have before := kept.parties q launch' placed
      by_cases holds : sys.holder = some q
      · rw [alone q other holds,decide_eq_true ((others q other).mpr holds)]
        rw [decide_eq_true holds] at before
        exact before
      · rw [decide_eq_false (fun held => holds ((others q other).mp held))]
        rw [decide_eq_false holds] at before
        exact before.later kept.shared leads
  owned q held := by
    simp only [Sys.place] at held ⊢
    split
    next => simp
    next other => exact kept.owned q ((others q other).mp held)

theorem Kept.continue_ {p : Nat} {c : κ} {b : σ} {t rest : Task σ ω ρ} (kept : Kept E answers G post sys)
    (at_ : sys.launched p = some ⟨c,b,.running t⟩)
    (goes : ∀ s, E.To b s → E.Sees (decide (sys.holder = some p)) s sys.state →
      t.Keeps (terms E answers G c b) (fun r held s => held = false ∧ post c b r s) (decide (sys.holder = some p)) s →
        ∃ s', E.To b s' ∧ E.Sees (decide (sys.holder = some p)) s' sys.state ∧
          rest.Keeps (terms E answers G c b) (fun r held s => held = false ∧ post c b r s) (decide (sys.holder = some p)) s') :
    Kept E answers G post (sys.continue_ p c b rest) := by
  obtain ⟨s,since,sees,keeps⟩ := kept.parties p _ at_
  obtain ⟨s',since',sees',keeps'⟩ := goes s since sees keeps
  exact kept.place sys.state sys.holder (E.refl _) (fun q _ => Iff.rfl) (fun q _ _ => rfl)
    ⟨s',since',sees',keeps'⟩

theorem Step.kept (sound : Sound E answers G post code) (kept : Kept E answers G post sys) (step : Step answers code sys label sys') :
    Kept E answers G post sys' := by
  cases step with
  | start p c fresh =>
    have free : sys.holder ≠ some p := fun held => kept.owned p held fresh
    refine kept.place sys.state sys.holder (E.refl _) (fun q _ => Iff.rfl) (fun q _ _ => rfl) ?_
    rw [decide_eq_false free]
    exact ⟨sys.state,E.refl _,Evolution.sees_refl,sound c sys.state kept.good⟩
  | read p c b next at_ =>
    refine kept.continue_ at_ ?_
    intro s since sees keeps
    exact ⟨sys.state,E.trans since sees.leads,Evolution.sees_refl,keeps sys.state sees⟩
  | write p c b f next at_ =>
    obtain ⟨s,since,sees,held,leads,own,rest⟩ := kept.parties p _ at_
    rw [held,Evolution.sees_held] at sees
    subst sees
    refine kept.place _ sys.holder leads (fun q _ => Iff.rfl) ?_ ?_
    · intro q other holds
      have mine := of_decide_eq_true held
      rw [holds] at mine
      exact absurd (Option.some.inj mine) other
    · exact ⟨f sys.state,E.trans since leads,Evolution.sees_refl,rest⟩
  | ask p c b q next a at_ answered =>
    refine kept.continue_ at_ ?_
    intro s since sees keeps
    exact ⟨s,since,sees,keeps a answered⟩
  | refuse p c b next at_ =>
    refine kept.continue_ at_ ?_
    intro s since sees keeps
    exact ⟨s,since,sees,by rw [keeps.1]; exact keeps.2.1⟩
  | acquire p c b next at_ free =>
    obtain ⟨s,since,sees,_,_,got⟩ := kept.parties p _ at_
    refine kept.place sys.state (some p) (E.refl _) ?_ (fun q _ _ => rfl) ?_
    · intro q other
      rw [free]
      exact ⟨fun same => absurd (Option.some.inj same).symm other,nofun⟩
    · rw [decide_eq_true rfl]
      exact ⟨sys.state,E.trans since sees.leads,Evolution.sees_refl,got sys.state sees.others⟩
  | release p c b next at_ own =>
    obtain ⟨s,since,sees,_,rest⟩ := kept.parties p _ at_
    refine kept.place sys.state none (E.refl _) ?_ (fun q _ _ => rfl) ?_
    · intro q other
      rw [own]
      exact ⟨nofun,fun same => absurd (Option.some.inj same).symm other⟩
    · rw [decide_eq_false nofun]
      exact ⟨s,since,Evolution.sees_free.mpr sees.others,rest⟩
  | finish p c b r at_ =>
    obtain ⟨s,since,sees,free,holds⟩ := kept.parties p _ at_
    exact kept.place sys.state sys.holder (E.refl _) (fun q _ => Iff.rfl) (fun q _ _ => rfl)
      ⟨free,s,since,sees.leads,holds⟩
  | crash p c b rest at_ =>
    refine kept.place sys.state _ (E.refl _) ?_ (fun q _ _ => rfl) ?_
    · intro q other
      split
      next mine =>
        rw [mine]
        exact ⟨nofun,fun same => absurd (Option.some.inj same).symm other⟩
      next => exact Iff.rfl
    · apply decide_eq_false
      split
      next => nofun
      next other => exact other

theorem Step.state (kept : Kept E answers G post sys) (step : Step answers code sys label sys') :
    sys'.state = sys.state ∨ ∃ p launch, label = .step p ∧ sys.launched p = some launch ∧
      E.To sys.state sys'.state ∧ G launch.call launch.began sys.state sys'.state := by
  cases step with
  | write p c b f next at_ =>
    obtain ⟨s,since,sees,held,leads,own,rest⟩ := kept.parties p _ at_
    rw [held,Evolution.sees_held] at sees
    subst sees
    exact .inr ⟨p,_,rfl,at_,leads,own⟩
  | _ => exact .inl rfl

theorem Step.leads (kept : Kept E answers G post sys) (step : Step answers code sys label sys') : E.To sys.state sys'.state := by
  rcases Step.state kept step with same | ⟨_,_,_,_,leads,_⟩
  · rw [same]
    exact E.refl _
  · exact leads

theorem kept_initial {s : σ} (shared : E.Open) (good : E.Good s) :
    Kept E answers G post (initial s : Sys σ ω ρ κ) :=
  ⟨shared,good,nofun,nofun⟩

variable {labels : List (Label κ)}

theorem run_kept (sound : Sound E answers G post code) (kept : Kept E answers G post sys) (run : Run (Step answers code) sys labels sys') :
    Kept E answers G post sys' :=
  run.invariant (fun _ _ _ kept step => Step.kept sound kept step) kept

theorem run_leads (sound : Sound E answers G post code) (kept : Kept E answers G post sys) (run : Run (Step answers code) sys labels sys') :
    E.To sys.state sys'.state := by
  induction run with
  | nil => exact E.refl _
  | cons s label middle labels final head _ ih =>
    exact E.trans (Step.leads kept head) (ih (Step.kept sound kept head))

theorem place_began {launch launch' : Launch σ ω ρ κ} {p q : Nat} {s : σ}
    (before : ∀ launch', sys.launched q = some launch' → E.To s launch'.began)
    (placed : (if q = p then some launch else sys.launched q) = some launch') (mine : q = p → E.To s launch.began) :
    E.To s launch'.began := by
  split at placed
  next same =>
    cases placed
    exact mine same
  next => exact before _ placed

theorem begun_before {c : κ} {b : σ} {progress : Progress σ ω ρ} {p q : Nat} {s : σ}
    (at_ : sys.launched p = some ⟨c,b,progress⟩)
    (before : ∀ launch, sys.launched q = some launch → E.To s launch.began) (same : q = p) : E.To s b := by
  subst same
  exact before _ at_

theorem Step.began {q : Nat} {s : σ} (since : E.To s sys.state)
    (before : ∀ launch, sys.launched q = some launch → E.To s launch.began) (step : Step answers code sys label sys') :
    ∀ launch, sys'.launched q = some launch → E.To s launch.began := by
  intro launch placed
  cases step with
  | start p c fresh => exact place_began before placed fun _ => since
  | read p c b next at_ => exact place_began before placed (begun_before at_ before)
  | write p c b f next at_ => exact place_began before placed (begun_before at_ before)
  | ask p c b _ next a at_ _ => exact place_began before placed (begun_before at_ before)
  | refuse p c b next at_ => exact place_began before placed (begun_before at_ before)
  | acquire p c b next at_ free => exact place_began before placed (begun_before at_ before)
  | release p c b next at_ own => exact place_began before placed (begun_before at_ before)
  | finish p c b r at_ => exact place_began before placed (begun_before at_ before)
  | crash p c b rest at_ => exact place_began before placed (begun_before at_ before)

theorem run_began (sound : Sound E answers G post code) (kept : Kept E answers G post sys) (run : Run (Step answers code) sys labels sys')
    {q : Nat} (fresh : sys.launched q = none) {launch : Launch σ ω ρ κ} (placed : sys'.launched q = some launch) :
    E.To sys.state launch.began := by
  have later : ∀ s, E.To s sys.state → (∀ launch, sys.launched q = some launch → E.To s launch.began) →
      ∀ launch, sys'.launched q = some launch → E.To s launch.began := by
    clear fresh placed
    induction run with
    | nil => exact fun _ _ before => before
    | cons first label middle labels final head _ ih =>
      intro s since before
      exact ih (Step.kept sound kept head) s (E.trans since (Step.leads kept head)) (Step.began since before head)
  exact later sys.state (E.refl _) (by simp [fresh]) launch placed

/-- A run in which one party moves, at whose end it is as given and the lock is free. -/
def Arrives (answers : ∀ q, ω q → Prop) (code : κ → Task σ ω ρ) (sys : Sys σ ω ρ κ) (p : Nat)
    (launch : Launch σ ω ρ κ) (state : σ) : Prop :=
  ∃ labels sys', Run (Step answers code) sys labels sys' ∧ sys'.state = state ∧ sys'.holder = none ∧
    sys'.launched p = some launch ∧ ∀ q, q ≠ p → sys'.launched q = sys.launched q

@[simp] theorem place_same (p : Nat) (launch : Launch σ ω ρ κ) : (sys.place p launch).launched p = some launch := by
  simp [Sys.place]

theorem Arrives.after {p : Nat} {launch placed : Launch σ ω ρ κ} {state s : σ} {holder : Option Nat}
    (step : Step answers code sys label (Sys.place {sys with state := s,holder} p placed))
    (arrives : Arrives answers code (Sys.place {sys with state := s,holder} p placed) p launch state) :
    Arrives answers code sys p launch state := by
  obtain ⟨labels,sys',run,ended,free,at_,others⟩ := arrives
  refine ⟨label::labels,sys',.cons _ _ _ _ _ step run,ended,free,at_,?_⟩
  intro q other
  rw [others q other]
  simp [Sys.place,other]

theorem solo_run {answer : ∀ q, ω q} (sound : Sound E answers G post code) (answered : ∀ q, answers q (answer q))
    {t : Task σ ω ρ} {p : Nat} {c : κ} {b : σ} (kept : Kept E answers G post sys)
    (at_ : sys.launched p = some ⟨c,b,.running t⟩) (alone : ∀ q, sys.holder = some q → q = p) :
    Arrives answers code sys p ⟨c,b,.finished (t.solo answer sys.state).1⟩ (t.solo answer sys.state).2 := by
  induction t generalizing sys with
  | done r =>
    obtain ⟨s,_,_,free,_⟩ := kept.parties p _ at_
    refine ⟨[.step p],_,Run.one (.finish sys p c b r at_),rfl,?_,place_same p _,?_⟩
    · cases holder : sys.holder with
      | none => exact holder
      | some q =>
        have mine := alone q holder
        subst mine
        exact absurd holder (of_decide_eq_false free)
    · intro q other
      simp [Sys.place,other]
  | read next ih =>
    have step : Step answers code sys (.step p) _ := .read sys p c b next at_
    exact Arrives.after step (ih _ (Step.kept sound kept step) (place_same p _) alone)
  | write f next ih =>
    have step : Step answers code sys (.step p) _ := .write sys p c b f next at_
    exact Arrives.after step (ih (Step.kept sound kept step) (place_same p _) alone)
  | ask q next ih =>
    have step : Step answers code sys (.step p) _ := .ask sys p c b q next (answer q) at_ (answered q)
    exact Arrives.after step (ih _ (Step.kept sound kept step) (place_same p _) alone)
  | acquire next ih =>
    obtain ⟨s,_,_,free,_⟩ := kept.parties p _ at_
    have unheld : sys.holder = none := by
      cases holder : sys.holder with
      | none => rfl
      | some q =>
        have mine := alone q holder
        subst mine
        exact absurd holder (of_decide_eq_false free)
    have step : Step answers code sys (.step p) _ := .acquire sys p c b next at_ unheld
    refine Arrives.after step (ih _ (Step.kept sound kept step) (place_same p _) ?_)
    intro q same
    exact (Option.some.inj same).symm
  | release next ih =>
    obtain ⟨s,_,_,held,_⟩ := kept.parties p _ at_
    have step : Step answers code sys (.step p) _ := .release sys p c b next at_ (of_decide_eq_true held)
    exact Arrives.after step (ih (Step.kept sound kept step) (place_same p _) nofun)

theorem solo_call {answer : ∀ q, ω q} (sound : Sound E answers G post code) (answered : ∀ q, answers q (answer q))
    {p : Nat} (c : κ) (kept : Kept E answers G post sys) (fresh : sys.launched p = none) (free : sys.holder = none) :
    Arrives answers code sys p ⟨c,sys.state,.finished ((code c).solo answer sys.state).1⟩
      ((code c).solo answer sys.state).2 := by
  have step : Step answers code sys (.start p c) _ := .start sys p c fresh
  refine Arrives.after step (solo_run sound answered (Step.kept sound kept step) (place_same p _) ?_)
  intro q same
  exact nomatch free.symm.trans same

end Sys
end ATape.Foundation
