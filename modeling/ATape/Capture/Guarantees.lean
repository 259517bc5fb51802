import ATape.Capture.History

/-! What the journal guarantees after any history of calls by any owners. -/
namespace ATape.Capture
open Foundation Lifecycle

namespace Journal

/-- A capture that is neither activated nor abandoned. -/
def Pending (row : CaptureRow) : Prop :=
  row.state ≠ .activated ∧ row.state ≠ .completed ∧ row.state ≠ .abandoned

structure Guarantees (env : Settings) (s : Journal) : Prop where
  single : ∀ c d p q, c.scope = d.scope → s.captures.lookup c = some p → s.captures.lookup d = some q →
    Pending p → Pending q → c = d
  fenced : ∀ call owner s', call.owner = some owner → s.Stale owner → Performs env s call s' →
    (∃ failure, s.perform env call = .error failure) ∧ s' = s
  guarded : ∀ call s', ¬s.Expected call → Performs env s call s' →
    ((∃ failure, s.perform env call = .error failure) ∨ s.Replayed env call) ∧ s' = s
  standing : ∀ call s' key scope, Performs env s call s' → s.scopes.lookup key = some scope →
    ∃ scope', s'.scopes.lookup key = some scope' ∧
      (scope'.checkpoint = scope.checkpoint ∧ scope'.canonicalCoverage = scope.canonicalCoverage ∨
        s.Publishes call s' key scope)
  once : ∀ call s₁ calls s₂ call' s₃ c, Performs env s call s₁ → Run (Performs env) s₁ calls s₂ →
    Performs env s₂ call' s₃ → s.Advances call s₁ c → ¬s₂.Advances call' s₃ c
  terminal : ∀ c row calls s', s.captures.lookup c = some row → Run (Performs env) s calls s' →
    row.state = .completed ∨ row.state = .abandoned →
      ∃ row', s'.captures.lookup c = some row' ∧ row'.state = row.state
  completed : ∀ c row, s.captures.lookup c = some row →
    (row.state = .completed ↔ row.activationReceipt ≠ none ∧ ∀ u unit, s.units.lookup u = some unit →
      u.capture = c → u.kind = .raw → unit.disposition ≠ .pending)
  retained : ∀ call s' u unit, Performs env s call s' → s.units.lookup u = some unit →
    ∃ unit', s'.units.lookup u = some unit' ∧ (unit'.body = unit.body ∨ unit'.body = none ∧
      ∃ row, s.captures.lookup u.capture = some row ∧ (row.state = .abandoned ∨
        (u.kind = .canonical ∧ row.activationReceipt ≠ none) ∨
        (u.kind = .raw ∧ unit.disposition ≠ .pending)))

private theorem pending_unresolved (row : CaptureRow) (pending : Pending row) :
    Lifecycle.unresolved row.phase := by
  obtain ⟨activated,completed,abandoned⟩ := pending
  unfold Lifecycle.unresolved
  cases state : row.state with
  | preparing => exact .inl state
  | sealed => exact .inr state
  | activated => exact absurd state activated
  | completed => exact absurd state completed
  | abandoned => exact absurd state abandoned

private theorem not_owes (s : Journal) (c : CaptureKey) : ¬s.view.owes c ↔
    ∀ u unit, s.units.lookup u = some unit → u.capture = c → u.kind = .raw → unit.disposition ≠ .pending := by
  simp only [View.owes,view,Option.map_eq_some_iff]
  constructor
  · intro idle u unit found inside raw pending
    exact idle ⟨u,unit.piece,⟨unit,found,rfl⟩,inside,raw,pending⟩
  · rintro settled ⟨u,_,⟨unit,found,rfl⟩,inside,raw,pending⟩
    exact settled u unit found inside raw pending

/-- The guarantees hold after every history of the journal. -/
theorem history_guarantees (env : Settings) (calls : List Call) (s : Journal)
    (history : History env calls s) : s.Guarantees env := by
  have sound := history_sound history
  constructor
  · intro c d p q same left right first second
    exact sound.alone c d p.phase q.phase same (by simp [view,left]) (by simp [view,right])
      (pending_unresolved p first) (pending_unresolved q second)
  · intro call owner s' carries stale step
    obtain ⟨failure,refused⟩ := stale_fails env s call owner carries stale
    refine ⟨⟨failure,refused⟩,?_⟩
    cases step with
    | rolledBack => rfl
    | committed _ ok =>
      rw [refused] at ok
      cases ok
  · intro call s' wrong step
    cases performed : s.perform env call with
    | error failure =>
      refine ⟨.inl ⟨failure,rfl⟩,?_⟩
      cases step with
      | rolledBack => rfl
      | committed _ ok =>
        rw [performed] at ok
        cases ok
    | ok after =>
      obtain ⟨same,replayed⟩ := unexpected env s after call wrong performed
      refine ⟨.inr replayed,?_⟩
      cases step with
      | rolledBack => rfl
      | committed _ ok =>
        rw [performed] at ok
        cases ok
        exact same
  · intro call s' key scope step known
    exact performs_standing env s s' call sound step key scope known
  · intro call s₁ calls s₂ call' s₃ c first between second advances
    exact advance_once env s s₁ s₂ s₃ call call' calls sound first between second c advances
  · intro c row calls s' found run final
    obtain ⟨row',there,kept⟩ := history_kept sound run c row found
    refine ⟨row',there,?_⟩
    rcases final with done | gone
    · rw [done]
      exact kept.completed done
    · rw [gone]
      exact kept.abandoned gone
  · intro c row found
    have known := sound.finished c row.phase (by simp [view,found])
    rw [not_owes] at known
    simpa [CaptureRow.phase,Option.isSome_iff_ne_none] using known
  · intro call s' u unit step found
    obtain ⟨event,moved,_⟩ := performs_step env s s' call step
    obtain ⟨q,after,body⟩ := moved.body u unit.piece (by simp [view,found])
    simp only [view,Option.map_eq_some_iff] at after
    obtain ⟨unit',there,rfl⟩ := after
    refine ⟨unit',there,?_⟩
    rcases body with same | ⟨gone,p,owner,needless⟩
    · exact .inl same
    · simp only [view,Option.map_eq_some_iff] at owner
      obtain ⟨row,owner,rfl⟩ := owner
      exact .inr ⟨gone,row,owner,by
        simpa [Resolved,CaptureRow.phase,UnitRow.piece,Option.isSome_iff_ne_none] using needless⟩

def play (env : Settings) : Journal → List Call → Except CaptureJournalError Journal
  | s,[] => .ok s
  | s,call::calls => match s.perform env call with
    | .ok s' => play env s' calls
    | .error failure => .error failure

theorem play_run (env : Settings) (s s' : Journal) (calls : List Call) (ok : play env s calls = .ok s') :
    Run (Performs env) s calls s' := by
  induction calls generalizing s with
  | nil =>
    cases ok
    exact .nil _
  | cons call calls ih =>
    simp only [play] at ok
    split at ok
    next middle performed => exact .cons _ _ _ _ _ (.committed s call middle performed) (ih middle ok)
    next => cases ok

section Example

def exampleSettings : Settings where
  limits := ⟨1024,4096,8192,16,some 8,64,by decide,by decide,by decide,by decide,by decide,by simp⟩
  digest bytes := if bytes = "abc".toUTF8 then
    "ba7816bf8f01cfea414140de5dae2223b00361a396177a9cb410ff61f20015ad" else ""

def exampleOwner : CaptureOwner := ⟨⟨"project","adapter","session","origin"⟩,1⟩

def exampleReservation : CaptureReservation := ⟨some true,none,"first",none,"{}",false⟩

def exampleCalls : List Call :=
  let fingerprint := "ba7816bf8f01cfea414140de5dae2223b00361a396177a9cb410ff61f20015ad"
  [.claim exampleOwner.scope,
    .reserve exampleOwner exampleReservation,
    .append exampleOwner "first" ⟨.canonical,0,"abc".toUTF8⟩,
    .record exampleOwner "first" ⟨⟨.session,"s"⟩,fingerprint,"1",none⟩,
    .record exampleOwner "first" ⟨⟨.thread,"t"⟩,fingerprint,"1",none⟩,
    .bindRecord exampleOwner "first" ⟨.session,"s"⟩ (.unit 0 none),
    .bindRecord exampleOwner "first" ⟨.thread,"t"⟩ (.unit 0 none)]

def exampleSeal : Call :=
  .sealCapture exampleOwner "first" ⟨some ⟨some ⟨1,1,0,0⟩,none⟩,1,0,"next","{}"⟩

def exampleActivation : Call := .settle exampleOwner "first" (.activated "{}")

def examplePrepared : Journal := after created (play exampleSettings created exampleCalls)

def exampleSealed : Journal := after created (examplePrepared.perform exampleSettings exampleSeal)

def exampleActivated : Journal := after created (exampleSealed.perform exampleSettings exampleActivation)

private theorem example_computed : (play exampleSettings created exampleCalls).isOk = true ∧
    (examplePrepared.perform exampleSettings exampleSeal).isOk = true ∧
    (exampleSealed.perform exampleSettings exampleActivation).isOk = true ∧
    (exampleActivated.perform exampleSettings (.reserve exampleOwner exampleReservation)).isOk = true ∧
    (exampleActivated.scopes.lookup ⟨"project","adapter","session"⟩).map ScopeRow.checkpoint = some (some "next") ∧
    (exampleActivated.captures.lookup ⟨⟨"project","adapter","session"⟩,"first"⟩).isSome = true ∧
    (exampleSealed.coverage exampleOwner).toOption ≠ (examplePrepared.coverage exampleOwner).toOption ∧
    (exampleActivated.ownerScope exampleOwner).isOk = true ∧ examplePrepared.retainedBytes = 3 := by decide

theorem prepared_history : History exampleSettings exampleCalls examplePrepared :=
  play_run _ _ _ _ (ok_after _ _ example_computed.1)

theorem prepared_bytes : examplePrepared.retainedBytes = 3 := by
  obtain ⟨_,_,_,_,_,_,_,_,bytes⟩ := example_computed
  exact bytes

private theorem sealed_step : Performs exampleSettings examplePrepared exampleSeal exampleSealed :=
  .committed _ _ _ (ok_after _ _ example_computed.2.1)

private theorem activated_step : Performs exampleSettings exampleSealed exampleActivation exampleActivated :=
  .committed _ _ _ (ok_after _ _ example_computed.2.2.1)

private theorem activated_history : History exampleSettings
    (exampleCalls++[exampleSeal,exampleActivation]) exampleActivated :=
  prepared_history.append (.cons _ _ _ _ _ sealed_step (.one activated_step))

/-- The guarantees at a history that ends with an activation: the capture of
the activation owes nothing and is therefore completed. -/
theorem example_completed : ∃ row, exampleActivated.captures.lookup ⟨⟨"project","adapter","session"⟩,"first"⟩ =
    some row ∧ (row.state = .completed ↔ row.activationReceipt ≠ none ∧
      ∀ u unit, exampleActivated.units.lookup u = some unit →
        u.capture = ⟨⟨"project","adapter","session"⟩,"first"⟩ → u.kind = .raw →
          unit.disposition ≠ .pending) := by
  have guarantees := history_guarantees exampleSettings (exampleCalls++[exampleSeal,exampleActivation])
    exampleActivated activated_history
  obtain ⟨_,_,_,_,_,stored,_⟩ := example_computed
  obtain ⟨row,found⟩ := Option.isSome_iff_exists.mp stored
  exact ⟨row,found,guarantees.completed _ row found⟩

/-- An exact repetition of a reservation succeeds although the checkpoint it
expects has been replaced since; and a seal moves the observed pointers that
`coverage` returns. -/
theorem replay_and_observation :
    (∃ s', ¬exampleActivated.Expected (.reserve exampleOwner exampleReservation) ∧
      History exampleSettings (exampleCalls++[exampleSeal,exampleActivation]) exampleActivated ∧
      exampleActivated.perform exampleSettings (.reserve exampleOwner exampleReservation) = .ok s') ∧
    History exampleSettings exampleCalls examplePrepared ∧
      Performs exampleSettings examplePrepared exampleSeal exampleSealed ∧
      (exampleSealed.coverage exampleOwner).toOption ≠ (examplePrepared.coverage exampleOwner).toOption := by
  obtain ⟨_,_,_,replayed,checkpoint,_,observed,owned,_⟩ := example_computed
  refine ⟨⟨_,?_,activated_history,ok_after created _ replayed⟩,prepared_history,sealed_step,observed⟩
  intro expected
  cases read : exampleActivated.ownerScope exampleOwner with
  | error failure =>
    rw [read] at owned
    cases owned
  | ok pair =>
    obtain ⟨key,scope⟩ := pair
    obtain ⟨named,known,_,_⟩ := ownerScope_ok _ _ key scope read
    have place : key = ⟨"project","adapter","session"⟩ := by
      have named' : scopeKey exampleOwner.scope = .ok ⟨"project","adapter","session"⟩ := by rfl
      exact Except.ok.inj (named.symm.trans named')
    subst place
    rw [known] at checkpoint
    have current := (expected _ scope read).1
    simp only [Option.map_some,Option.some.injEq] at checkpoint
    rw [checkpoint] at current
    cases current

end Example
end Journal
end ATape.Capture
