import ATape.Foundation.Attempts

/-! Programs of statements whose writes are allowed where they are made. What every allowed write keeps is
kept by such a program. -/
namespace ATape.Foundation

section Guarded
variable {δ ω ε α β : Type} [Writes δ ω] {allowed : ω → δ → Prop}

def Guarded (allowed : ω → δ → Prop) : δ → List ω → Prop
  | _,[] => True
  | db,write::writes => allowed write db ∧ Guarded allowed (Writes.apply write db) writes

theorem Guarded.append {db : δ} {first second : List ω} (left : Guarded allowed db first)
    (right : Guarded allowed (drafted db first) second) : Guarded allowed db (first++second) := by
  induction first generalizing db with
  | nil => exact right
  | cons write first ih =>
    obtain ⟨allows,left⟩ := left
    exact ⟨allows,ih left right⟩

theorem Guarded.one {db : δ} {write : ω} (allows : allowed write db) : Guarded allowed db [write] := ⟨allows,trivial⟩

theorem Guarded.related {R : δ → δ → Prop} (reflexive : ∀ db, R db db) (transitive : ∀ a b c, R a b → R b c → R a c)
    (keep : ∀ write db, allowed write db → R db (Writes.apply write db)) {db : δ} {writes : List ω}
    (guarded : Guarded allowed db writes) : R db (drafted db writes) := by
  induction writes generalizing db with
  | nil => exact reflexive db
  | cons write writes ih =>
    obtain ⟨allows,rest⟩ := guarded
    exact transitive _ _ _ (keep write db allows) (ih rest)

/-- A program adds allowed writes only. -/
def Tx.Guards (allowed : ω → δ → Prop) (x : Tx δ ω ε α) : Prop :=
  ∀ world work, Guarded allowed work.base work.writes → (x world work).2.base = work.base ∧
    Guarded allowed work.base (x world work).2.writes

theorem halt_guards (why : Halt ε) : (halt why : Tx δ ω ε α).Guards allowed := fun _ _ guarded => ⟨rfl,guarded⟩

theorem pure_guards (a : α) : (pure a : Tx δ ω ε α).Guards allowed := fun _ _ guarded => ⟨rfl,guarded⟩

theorem bind_guards {x : Tx δ ω ε α} {f : α → Tx δ ω ε β} (first : x.Guards allowed) (next : ∀ a, (f a).Guards allowed) :
    (x >>= f).Guards allowed := by
  intro world work guarded
  obtain ⟨base,guarded⟩ := first world work guarded
  simp only [bind]
  cases run : x world work with
  | mk result work' =>
    rw [run] at base guarded
    cases result with
    | ok a =>
      obtain ⟨base',guarded'⟩ := next a world work' (base ▸ guarded)
      exact ⟨base'.trans base,base ▸ guarded'⟩
    | error halt => exact ⟨base,guarded⟩

theorem statement_guards {s : Int → δ → Option (α × List ω)}
    (allows : ∀ now db a writes, s now db = some (a,writes) → Guarded allowed db writes) :
    (statement s : Tx δ ω ε α).Guards allowed := by
  intro world work guarded
  have nothing : Guarded allowed work.base (work.writes++[]) := by rwa [List.append_nil]
  unfold statement
  split
  next => exact ⟨rfl,nothing⟩
  next =>
    split
    next a writes answer => exact ⟨rfl,guarded.append (allows _ _ a writes answer)⟩
    next => exact ⟨rfl,nothing⟩

theorem draw_guards : (draw : Tx δ ω ε String).Guards allowed := by
  intro world work guarded
  have nothing : Guarded allowed work.base (work.writes++[]) := by rwa [List.append_nil]
  unfold draw
  split
  next => exact ⟨rfl,nothing⟩
  next => exact ⟨rfl,nothing⟩

theorem Tx.Guards.related {x : Tx δ ω ε α} (guards : x.Guards allowed) {R : δ → δ → Prop} (reflexive : ∀ db, R db db)
    (transitive : ∀ a b c, R a b → R b c → R a c) (keep : ∀ write db, allowed write db → R db (Writes.apply write db))
    (attempt : Attempt δ) : R attempt.base (attempt.ended x).after := by
  obtain ⟨base,guarded⟩ := guards attempt.world (Draft.start attempt.base) trivial
  have base : (attempt.ended x).work.base = attempt.base := base
  unfold Ended.after
  split
  next =>
    rw [Draft.db,base]
    exact guarded.related reflexive transitive keep
  next =>
    rw [base]
    exact reflexive _

end Guarded
end ATape.Foundation
