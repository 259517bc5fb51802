import ATape.Foundation.Table

/-! Tables that lose no row. A row may rise in an order, and the rows of a part of the table
may be beyond the reach of a write. -/
namespace ATape.Foundation.Table
variable {κ ρ : Type} {le : ρ → ρ → Prop} {on : κ → ρ → Prop} {base rows rows' rows'' : Table κ ρ}

def Rises (le : ρ → ρ → Prop) (rows rows' : Table κ ρ) [DecidableEq κ] : Prop :=
  ∀ k row, rows.lookup k = some row → ∃ row', rows'.lookup k = some row' ∧ le row row'

/-- The rows that a predicate holds of are the same. -/
def Keeps (on : κ → ρ → Prop) (rows rows' : Table κ ρ) [DecidableEq κ] : Prop :=
  ∀ k row, on k row → (rows'.lookup k = some row ↔ rows.lookup k = some row)

variable [DecidableEq κ]

theorem Rises.refl (reflexive : ∀ row, le row row) (rows : Table κ ρ) : Rises le rows rows :=
  fun _ row known => ⟨row,known,reflexive row⟩

theorem Rises.trans (transitive : ∀ a b c, le a b → le b c → le a c) (first : Rises le rows rows')
    (second : Rises le rows' rows'') : Rises le rows rows'' := by
  intro k row known
  obtain ⟨row',known',up⟩ := first k row known
  obtain ⟨row'',known'',up'⟩ := second k row' known'
  exact ⟨row'',known'',transitive _ _ _ up up'⟩

theorem Rises.insert {k : κ} {row : ρ} (fresh : rows.lookup k = none) (rises : Rises le base rows) :
    Rises le base (rows.insert k row) := by
  intro k' row' known
  obtain ⟨row'',known',up⟩ := rises k' row' known
  refine ⟨row'',?_,up⟩
  rw [lookup_insert,if_neg]
  · exact known'
  · rintro rfl
    rw [fresh] at known'
    cases known'

theorem Rises.modify {k : κ} {f : ρ → ρ} (rises : Rises le base rows)
    (step : ∀ row row', base.lookup k = some row → rows.lookup k = some row' → le row row' → le row (f row')) :
    Rises le base (rows.modify k f) := by
  intro k' row known
  obtain ⟨row',known',up⟩ := rises k' row known
  rw [lookup_modify,known']
  split
  next here => exact ⟨f row',rfl,step row row' (here ▸ known) (here ▸ known') up⟩
  next => exact ⟨row',rfl,up⟩

theorem Keeps.refl (rows : Table κ ρ) : Keeps on rows rows := fun _ _ _ => Iff.rfl

theorem Keeps.trans (first : Keeps on rows rows') (second : Keeps on rows' rows'') : Keeps on rows rows'' :=
  fun k row holds => (second k row holds).trans (first k row holds)

theorem Keeps.mono {on' : κ → ρ → Prop} (keeps : Keeps on rows rows') (less : ∀ k row, on' k row → on k row) :
    Keeps on' rows rows' := fun k row holds => keeps k row (less k row holds)

theorem Keeps.insert {k : κ} {row : ρ} (fresh : rows.lookup k = none) (other : ¬on k row) :
    Keeps on rows (rows.insert k row) := by
  intro k' row' holds
  rw [lookup_insert]
  split
  next here =>
    subst here
    rw [fresh]
    constructor
    · rintro ⟨⟩
      exact absurd holds other
    · rintro ⟨⟩
  next => exact Iff.rfl

theorem Keeps.modify {k : κ} {f : ρ → ρ} (other : ∀ row, rows.lookup k = some row → ¬on k row ∧ ¬on k (f row)) :
    Keeps on rows (rows.modify k f) := by
  intro k' row holds
  rw [lookup_modify]
  split
  next here =>
    subst here
    rw [Option.map_eq_some_iff]
    constructor
    · rintro ⟨row',known,rfl⟩
      exact absurd holds (other row' known).2
    · intro known
      exact absurd holds (other row known).1
  next => exact Iff.rfl

end ATape.Foundation.Table
