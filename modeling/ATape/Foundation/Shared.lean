import Mathlib.Algebra.Order.Ring.Int
import Mathlib.Data.List.Sort
import Mathlib.Data.Prod.Lex
import Mathlib.Tactic.Ring

/-! Programs over a shared state with one lock. A program is what it does next and, for
each thing that it may find there, the rest. The rules below prove a program against
whatever others may do to the state between its operations. -/
namespace ATape.Foundation

/-- A program up to its next operation. A question is answered from outside, and the
lock may be refused. -/
inductive Task (σ : Type) {ι : Type} (ω : ι → Type) (ρ : Type) : Type
  | done (result : ρ)
  | read (next : σ → Task σ ω ρ)
  | write (f : σ → σ) (next : Task σ ω ρ)
  | ask (q : ι) (next : ω q → Task σ ω ρ)
  | acquire (next : Bool → Task σ ω ρ)
  | release (next : Task σ ω ρ)

variable {σ ι : Type} {ω : ι → Type} {ρ τ ε α β κ : Type}

def Task.bind : Task σ ω ρ → (ρ → Task σ ω τ) → Task σ ω τ
  | .done r,f => f r
  | .read next,f => .read fun s => (next s).bind f
  | .write g next,f => .write g (next.bind f)
  | .ask q next,f => .ask q fun a => (next a).bind f
  | .acquire next,f => .acquire fun got => (next got).bind f
  | .release next,f => .release (next.bind f)

/-- A program that returns or rejects. -/
def Call (σ : Type) {ι : Type} (ω : ι → Type) (ε α : Type) : Type := Task σ ω (Except ε α)

namespace Call

/-- What follows a result: an error ends the program. -/
def after (next : α → Call σ ω ε β) : Except ε α → Task σ ω (Except ε β)
  | .ok a => next a
  | .error failure => .done (.error failure)

instance : Monad (Call σ ω ε) where
  pure a := Task.done (.ok a)
  bind first next := Task.bind first (after next)

def fail (failure : ε) : Call σ ω ε α := Task.done (.error failure)

def failWhen (bad : Prop) [Decidable bad] (failure : ε) : Call σ ω ε Unit :=
  if bad then fail failure else pure ()

/-- A computation that looks at nothing. -/
def lift (value : Except ε α) : Call σ ω ε α := Task.done value

def look (f : σ → α) : Call σ ω ε α := Task.read fun s => Task.done (.ok (f s))

def put (f : σ → σ) : Call σ ω ε Unit := Task.write f (Task.done (.ok ()))

def query (q : ι) : Call σ ω ε (ω q) := Task.ask q fun a => Task.done (.ok a)

/-- The program whose errors are caught. -/
def attempt (call : Call σ ω ε α) : Call σ ω ε (Except ε α) := Task.bind call fun r => Task.done (.ok r)

/-- The program run with the lock, which is given back however it ends. -/
def locked (busy : ε) (call : Call σ ω ε α) : Call σ ω ε α :=
  Task.acquire fun
    | true => Task.bind call fun r => Task.release (Task.done r)
    | false => Task.done (.error busy)

end Call

/-! How the state may change while a party waits, and what it proves then. -/

/-- An order in which the states follow each other, and a property that they keep; and
how others may change the state, as far as a party is concerned. -/
structure Evolution (σ : Type) where
  Good : σ → Prop
  To : σ → σ → Prop
  Others : σ → σ → Prop
  refl : ∀ s, To s s
  trans : ∀ {a b c}, To a b → To b c → To a c
  keeps : ∀ {s s'}, To s s' → Good s → Good s'
  others_refl : ∀ s, Others s s
  others_trans : ∀ {a b c}, Others a b → Others b c → Others a c
  others_to : ∀ {s s'}, Others s s' → To s s'

namespace Evolution
variable (E : Evolution σ)

/-- The states that a party may find: without the lock others may have written. -/
def Sees (held : Bool) (s s' : σ) : Prop := if held then s' = s else E.Others s s'

variable {E} {held : Bool} {s s' : σ}

theorem Sees.others (sees : E.Sees held s s') : E.Others s s' := by
  unfold Sees at sees
  split at sees
  · rw [sees]
    exact E.others_refl s
  · exact sees

theorem Sees.leads (sees : E.Sees held s s') : E.To s s' := E.others_to sees.others

/-- Others may do whatever the evolution allows. -/
def Open (E : Evolution σ) : Prop := ∀ s s', E.To s s' → E.Others s s'

@[simp] theorem sees_held : E.Sees true s s' ↔ s' = s := by
  simp [Sees]

@[simp] theorem sees_free : E.Sees false s s' ↔ E.Others s s' := by
  simp [Sees]

theorem sees_refl : E.Sees held s s := by
  cases held
  · exact sees_free.mpr (E.others_refl s)
  · exact sees_held.mpr rfl

end Evolution

/-- What a party relies on and promises: the evolution of the state, the writes that it
allows itself and the answers that it may be given. -/
structure Terms (σ : Type) {ι : Type} (ω : ι → Type) extends Evolution σ where
  Own : σ → σ → Prop
  Answers : ∀ q, ω q → Prop

namespace Task
variable (T : Terms σ ω)

/-- A program that keeps its side: it writes under the lock only, and only what the
evolution and its own promise allow, and it ends as the postcondition says. -/
def Keeps (post : ρ → Bool → σ → Prop) : Task σ ω ρ → Bool → σ → Prop
  | .done r,held,s => post r held s
  | .read next,held,s => ∀ s', T.Sees held s s' → (next s').Keeps post held s'
  | .write f next,held,s => held = true ∧ T.To s (f s) ∧ T.Own s (f s) ∧ next.Keeps post held (f s)
  | .ask q next,held,s => ∀ a, T.Answers q a → (next a).Keeps post held s
  | .acquire next,held,s =>
    held = false ∧ (next false).Keeps post false s ∧ ∀ s', T.Others s s' → (next true).Keeps post true s'
  | .release next,held,s => held = true ∧ next.Keeps post false s

variable {T} {post : ρ → Bool → σ → Prop}

theorem Keeps.mono {other : ρ → Bool → σ → Prop} {t : Task σ ω ρ} {held : Bool} {s : σ}
    (keeps : t.Keeps T post held s) (weaker : ∀ r held' s', T.To s s' → post r held' s' → other r held' s') :
    t.Keeps T other held s := by
  induction t generalizing held s with
  | done r => exact weaker _ _ _ (T.refl s) keeps
  | read next ih =>
    intro s' sees
    exact ih s' (keeps s' sees) fun r h d leads => weaker r h d (T.trans sees.leads leads)
  | write f next ih =>
    obtain ⟨owned,leads,own,rest⟩ := keeps
    exact ⟨owned,leads,own,ih rest fun r h d later => weaker r h d (T.trans leads later)⟩
  | ask q next ih => exact fun a answered => ih a (keeps a answered) weaker
  | acquire next ih =>
    obtain ⟨free,refused,got⟩ := keeps
    refine ⟨free,ih false refused weaker,?_⟩
    intro s' others
    exact ih true (got s' others) fun r h d later => weaker r h d (T.trans (T.others_to others) later)
  | release next ih => exact ⟨keeps.1,ih keeps.2 weaker⟩

theorem keeps_bind {post : τ → Bool → σ → Prop} {t : Task σ ω ρ} {f : ρ → Task σ ω τ} {held : Bool} {s : σ}
    (keeps : t.Keeps T (fun r held' s' => (f r).Keeps T post held' s') held s) :
    (t.bind f).Keeps T post held s := by
  induction t generalizing held s with
  | done r => exact keeps
  | read next ih => exact fun s' sees => ih s' (keeps s' sees)
  | write g next ih => exact ⟨keeps.1,keeps.2.1,keeps.2.2.1,ih keeps.2.2.2⟩
  | ask q next ih => exact fun a answered => ih a (keeps a answered)
  | acquire next ih => exact ⟨keeps.1,ih false keeps.2.1,fun s' others => ih true (keeps.2.2 s' others)⟩
  | release next ih => exact ⟨keeps.1,ih keeps.2⟩

end Task

namespace Call
variable (T : Terms σ ω) (fails : ε → Prop)

/-- A call that keeps its side and, when it returns, its postcondition; the errors that it
may reject with are limited. It ends with the lock as it began. -/
def Safe (held : Bool) (s : σ) (call : Call σ ω ε α) (post : α → σ → Prop) : Prop :=
  Task.Keeps T (fun r held' s' => held' = held ∧ (∀ a, r = .ok a → post a s') ∧ ∀ failure, r = .error failure → fails failure)
    call held s

variable {T} {fails} {held : Bool} {s : σ} {post : α → σ → Prop}

theorem Safe.mono {call : Call σ ω ε α} {other : α → σ → Prop} (safe : Safe T fails held s call post)
    (weaker : ∀ a s', T.To s s' → post a s' → other a s') : Safe T fails held s call other :=
  Task.Keeps.mono safe fun _ _ s' leads ends =>
    ⟨ends.1,fun a same => weaker a s' leads (ends.2.1 a same),ends.2.2⟩

theorem safe_ok {a : α} (holds : post a s) : Safe T fails held s (Task.done (.ok a) : Call σ ω ε α) post := by
  refine ⟨rfl,?_,nofun⟩
  intro b same
  cases same
  exact holds

theorem safe_pure {a : α} (holds : post a s) : Safe T fails held s (pure a : Call σ ω ε α) post := safe_ok holds

theorem safe_fail {failure : ε} (may : fails failure) : Safe T fails held s (fail failure : Call σ ω ε α) post := by
  refine ⟨rfl,nofun,?_⟩
  intro other same
  cases same
  exact may

theorem safe_lift {value : Except ε α} (may : ∀ failure, value = .error failure → fails failure)
    (holds : ∀ a, value = .ok a → post a s) : Safe T fails held s (lift value : Call σ ω ε α) post :=
  ⟨rfl,holds,may⟩

theorem safe_failWhen {bad : Prop} [Decidable bad] {failure : ε} {post : Unit → σ → Prop}
    (may : bad → fails failure) (holds : ¬bad → post () s) :
    Safe T fails held s (failWhen bad failure : Call σ ω ε Unit) post := by
  unfold failWhen
  split
  next wrong => exact safe_fail (may wrong)
  next fine => exact safe_pure (holds fine)

theorem safe_look {f : σ → α} (holds : ∀ s', T.Sees held s s' → post (f s') s') :
    Safe T fails held s (look f : Call σ ω ε α) post :=
  fun s' sees => safe_ok (holds s' sees)

theorem safe_query {q : ι} {post : ω q → σ → Prop} (holds : ∀ a, T.Answers q a → post a s) :
    Safe T fails held s (query q : Call σ ω ε (ω q)) post :=
  fun a answered => safe_ok (holds a answered)

theorem safe_put {f : σ → σ} {post : Unit → σ → Prop} (leads : T.To s (f s)) (own : T.Own s (f s))
    (holds : post () (f s)) : Safe T fails true s (put f : Call σ ω ε Unit) post :=
  ⟨rfl,leads,own,safe_ok holds⟩

theorem safe_bind {first : Call σ ω ε α} {next : α → Call σ ω ε β} {post : β → σ → Prop}
    (safe : Safe T fails held s first fun a s' => Safe T fails held s' (next a) post) :
    Safe T fails held s (first >>= next) post := by
  refine Task.keeps_bind (Task.Keeps.mono safe ?_)
  rintro r held' s' _ ⟨rfl,rest,may⟩
  cases r with
  | ok a => exact rest a rfl
  | error failure => exact safe_fail (may failure rfl)

theorem Safe.then {first : Call σ ω ε α} {next : α → Call σ ω ε β} {last : β → σ → Prop}
    (safe : Safe T fails held s first post)
    (rest : ∀ a s', T.To s s' → post a s' → Safe T fails held s' (next a) last) :
    Safe T fails held s (first >>= next) last :=
  safe_bind (safe.mono rest)

theorem Safe.attempt {own : ε → Prop} {call : Call σ ω ε α} {last : Except ε α → σ → Prop}
    (safe : Safe T own held s call post) (caught : ∀ failure s', T.To s s' → own failure → last (.error failure) s')
    (holds : ∀ a s', T.To s s' → post a s' → last (.ok a) s') : Safe T fails held s (attempt call) last := by
  refine Task.keeps_bind (Task.Keeps.mono safe ?_)
  rintro r held' s' leads ⟨rfl,ends,may⟩
  cases r with
  | ok a => exact safe_ok (holds a s' leads (ends a rfl))
  | error failure => exact safe_ok (caught failure s' leads (may failure rfl))

theorem safe_locked {busy : ε} {call : Call σ ω ε α} (may : fails busy)
    (safe : ∀ s', T.Others s s' → Safe T fails true s' call post) : Safe T fails false s (locked busy call) post := by
  refine ⟨rfl,safe_fail may,?_⟩
  intro s' others
  refine Task.keeps_bind (Task.Keeps.mono (safe s' others) ?_)
  rintro r held' d _ ⟨rfl,ends⟩
  exact ⟨rfl,rfl,ends⟩

end Call

/-! A program that runs by itself. -/

namespace Task

/-- A program that ends with a result and a state, with some of the answers that it may be
given. -/
def Ends (answers : ∀ q, ω q → Prop) (r : ρ) (s' : σ) : Task σ ω ρ → σ → Prop
  | .done r',s => r' = r ∧ s = s'
  | .read next,s => (next s).Ends answers r s' s
  | .write f next,s => next.Ends answers r s' (f s)
  | .ask q next,s => ∃ a, answers q a ∧ (next a).Ends answers r s' s
  | .acquire next,s => ∃ got, (next got).Ends answers r s' s
  | .release next,s => next.Ends answers r s' s

theorem Keeps.ends {T : Terms σ ω} {post : ρ → Bool → σ → Prop} {t : Task σ ω ρ} {held : Bool} {s s' : σ} {r : ρ}
    (keeps : t.Keeps T post held s) (ends : t.Ends T.Answers r s' s) : T.To s s' ∧ ∃ held', post r held' s' := by
  induction t generalizing held s with
  | done r' =>
    obtain ⟨rfl,rfl⟩ := ends
    exact ⟨T.refl s,held,keeps⟩
  | read next ih => exact ih s (keeps s Evolution.sees_refl) ends
  | write f next ih =>
    obtain ⟨leads,holds⟩ := ih keeps.2.2.2 ends
    exact ⟨T.trans keeps.2.1 leads,holds⟩
  | ask q next ih =>
    obtain ⟨a,answered,ends⟩ := ends
    exact ih a (keeps a answered) ends
  | acquire next ih =>
    obtain ⟨got,ends⟩ := ends
    cases got
    · exact ih false keeps.2.1 ends
    · exact ih true (keeps.2.2 s (T.others_refl s)) ends
  | release next ih => exact ih keeps.2 ends

/-- A program with the same answer to the same question, and the lock whenever it asks. -/
def solo (answer : ∀ q, ω q) : Task σ ω ρ → σ → ρ × σ
  | .done r,s => (r,s)
  | .read next,s => (next s).solo answer s
  | .write f next,s => next.solo answer (f s)
  | .ask q next,s => (next (answer q)).solo answer s
  | .acquire next,s => (next true).solo answer s
  | .release next,s => next.solo answer s

variable {answer : ∀ q, ω q}

theorem solo_ends {answers : ∀ q, ω q → Prop} (answered : ∀ q, answers q (answer q)) (t : Task σ ω ρ) (s : σ) :
    t.Ends answers (t.solo answer s).1 (t.solo answer s).2 s := by
  induction t generalizing s with
  | done r => exact ⟨rfl,rfl⟩
  | read next ih => exact ih s s
  | write f next ih => exact ih (f s)
  | ask q next ih => exact ⟨answer q,answered q,ih _ s⟩
  | acquire next ih => exact ⟨true,ih true s⟩
  | release next ih => exact ih s

theorem solo_bind (t : Task σ ω ρ) (f : ρ → Task σ ω τ) (s : σ) :
    (t.bind f).solo answer s = (f (t.solo answer s).1).solo answer (t.solo answer s).2 := by
  induction t generalizing s with
  | done r => rfl
  | read next ih => exact ih s s
  | write g next ih => exact ih (g s)
  | ask q next ih => exact ih _ s
  | acquire next ih => exact ih true s
  | release next ih => exact ih s

end Task

namespace Call
variable {answer : ∀ q, ω q} {s s' : σ}

/-- A call that runs by itself. -/
def run (answer : ∀ q, ω q) (call : Call σ ω ε α) (s : σ) : Except ε α × σ := Task.solo answer call s

@[simp] theorem run_pure (a : α) : (pure a : Call σ ω ε α).run answer s = (.ok a,s) := rfl

@[simp] theorem run_fail (failure : ε) : (fail failure : Call σ ω ε α).run answer s = (.error failure,s) := rfl

@[simp] theorem run_lift (value : Except ε α) : (lift value : Call σ ω ε α).run answer s = (value,s) := rfl

@[simp] theorem run_look (f : σ → α) : (look f : Call σ ω ε α).run answer s = (.ok (f s),s) := rfl

@[simp] theorem run_put (f : σ → σ) : (put f : Call σ ω ε Unit).run answer s = (.ok (),f s) := rfl

@[simp] theorem run_query (q : ι) : (query q : Call σ ω ε (ω q)).run answer s = (.ok (answer q),s) := rfl

theorem run_passes {bad : Prop} [Decidable bad] (fine : ¬bad) (failure : ε) :
    (failWhen bad failure : Call σ ω ε Unit).run answer s = (.ok (),s) := by
  rw [failWhen,if_neg fine]
  rfl

theorem run_rejects {bad : Prop} [Decidable bad] (wrong : bad) (failure : ε) :
    (failWhen bad failure : Call σ ω ε Unit).run answer s = (.error failure,s) := by
  rw [failWhen,if_pos wrong]
  rfl

theorem run_bind (first : Call σ ω ε α) (next : α → Call σ ω ε β) :
    (first >>= next).run answer s = Task.solo answer (after next (first.run answer s).1) (first.run answer s).2 :=
  Task.solo_bind first (after next) s

theorem run_bind_ok {first : Call σ ω ε α} {next : α → Call σ ω ε β} {a : α}
    (ended : first.run answer s = (.ok a,s')) : (first >>= next).run answer s = (next a).run answer s' := by
  rw [run_bind,ended]
  rfl

theorem run_bind_error {first : Call σ ω ε α} {next : α → Call σ ω ε β} {failure : ε}
    (ended : first.run answer s = (.error failure,s')) : (first >>= next).run answer s = (.error failure,s') := by
  rw [run_bind,ended]
  rfl

theorem run_attempt (call : Call σ ω ε α) :
    (attempt call).run answer s = (.ok (call.run answer s).1,(call.run answer s).2) :=
  Task.solo_bind call (fun r => Task.done (Except.ok r)) s

theorem run_locked (busy : ε) (call : Call σ ω ε α) : (locked busy call).run answer s = call.run answer s :=
  Task.solo_bind call (fun r => Task.release (Task.done r)) s

end Call

end ATape.Foundation
