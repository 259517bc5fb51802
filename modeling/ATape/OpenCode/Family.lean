import ATape.OpenCode.Traversal
import Mathlib.Logic.Relation

/-! The family of a source: the root of a session and every session below it. -/
namespace ATape.OpenCode
open Foundation

/-- A session row names its parent. -/
def Link (db : Database) (parent child : String) : Prop :=
  ∃ row ∈ db.rows .session, cell row "id" = .text child ∧ cell row "parent_id" = .text parent

abbrev Reaches (db : Database) : String → String → Prop := Relation.ReflTransGen (Link db)

def rowCount (db : Database) (table : Table) (sessionId : String) : ℕ :=
  (db.rows table).countP fun row => cell row "session_id" = .text sessionId

/-- The rows of a thread as they are counted. -/
def weight (db : Database) (sessionId : String) : ℕ := 1+rowCount db .message sessionId+rowCount db .part sessionId

section Admission
variable {engine : Engine} {db : Database} {limits : OpenCodeSourceLimits} {interrupted : Interrupted}

theorem nullable_ok {α : Type} {read : Cell → Result α} {value : Cell} {found : Option α}
    (ok : nullable read value = .ok found) :
    value = .null ∧ found = none ∨ ∃ a, read value = .ok a ∧ found = some a := by
  unfold nullable at ok
  split at ok
  next =>
    cases ok
    exact .inl ⟨rfl,rfl⟩
  next =>
    simp only [bind_ok,pure_ok] at ok
    obtain ⟨a,read_,rfl⟩ := ok
    exact .inr ⟨a,read_,rfl⟩

theorem session_ok {id : String} {s : OpenCodeSession} (ok : session engine db id = .ok s) :
    s.id = id ∧ ∃ row, db.find .session id = some row ∧
      ∀ parent, s.parentId = some parent → cell row "parent_id" = .text parent := by
  simp only [session,bind_ok,present_ok,pure_ok] at ok
  obtain ⟨key,keyed,row,found,_,_,_,_,_,_,_,_,_,_,_,_,own,named,_,_,parentId,parents,_,_,_,_,_,_,_,_,_,_,rfl⟩ := ok
  have same : id = key := Cell.text.inj (text_valid keyed)
  subst same
  have named' := (find_ok found).2
  rw [named'] at named
  refine ⟨(Cell.text.inj (text_valid named)).symm,row,found,?_⟩
  intro parent there
  rcases nullable_ok parents with ⟨_,none_⟩ | ⟨other,read,some_⟩
  · simp only at there
    rw [none_] at there
    cases there
  · simp only at there
    rw [some_] at there
    cases there
    exact text_valid read

theorem session_link {id parent : String} {s : OpenCodeSession} (ok : session engine db id = .ok s)
    (there : s.parentId = some parent) : Link db parent id := by
  obtain ⟨_,row,found,parents⟩ := session_ok ok
  obtain ⟨inside,named⟩ := find_ok found
  exact ⟨row,inside,named,parents parent there⟩

theorem climb_ok {fuel checks : ℕ} {ancestors : List String} {start root : OpenCodeSession} {checks' : ℕ}
    (own : session engine db start.id = .ok start) (room : ancestors.length+fuel = limits.threads+1)
    (few : ancestors.length ≤ limits.threads)
    (ok : climb engine db limits interrupted fuel checks ancestors start = .ok (root,checks')) :
    root.parentId = none ∧ session engine db root.id = .ok root ∧ Reaches db root.id start.id := by
  induction fuel generalizing checks ancestors start with
  | zero => omega
  | succ fuel ih =>
    unfold climb at ok
    split at ok
    next none_ =>
      cases ok
      exact ⟨none_,own,.refl⟩
    next parent there =>
      simp only [bind_ok,failWhen_ok] at ok
      obtain ⟨_,_,_,fits,above,found,ok⟩ := ok
      obtain ⟨same,_⟩ := session_ok found
      have own' : session engine db above.id = .ok above := by rwa [same]
      have room' : (parent::ancestors).length+fuel = limits.threads+1 := by simp; omega
      have few' : (parent::ancestors).length ≤ limits.threads := by simp; omega
      obtain ⟨top,found',reaches⟩ := ih own' room' few' ok
      refine ⟨top,found',reaches.tail ?_⟩
      rw [same]
      exact session_link own there

theorem admitRows_ok {table : Table} {current : OpenCodeSession} {admitted admitted' : ℕ} (few : admitted ≤ limits.records)
    (ok : admitRows db limits table current admitted = .ok admitted') :
    admitted' = admitted+rowCount db table current.id ∧ admitted' ≤ limits.records := by
  simp only [admitRows,bind_ok,failWhen_ok,pure_ok] at ok
  obtain ⟨_,fits,rfl⟩ := ok
  unfold amount at fits ⊢
  unfold rowCount
  omega

theorem admitSession_ok {current : OpenCodeSession} {admitted admitted' : ℕ}
    (ok : admitSession db limits current admitted = .ok admitted') :
    admitted' = admitted+weight db current.id ∧ admitted' ≤ limits.records ∧
      ∀ part ∈ db.rows .part, strayPart db current.id part = false := by
  simp only [admitSession,bind_ok,failWhen_ok,pure_ok] at ok
  obtain ⟨_,fits,messages,admittedMessages,parts,admittedParts,_,_,_,whole,_,_,rfl⟩ := ok
  obtain ⟨rfl,few⟩ := admitRows_ok (Nat.not_lt.mp fits) admittedMessages
  obtain ⟨rfl,few'⟩ := admitRows_ok few admittedParts
  refine ⟨by unfold weight; omega,few',?_⟩
  intro part inside
  by_contra stray
  exact whole (List.any_eq_true.mpr ⟨part,inside,by simpa using stray⟩)

theorem children_ok {current : OpenCodeSession} {size : ℕ} {ids : List String}
    (ok : children db limits current size = .ok ids) :
    (∀ child, Link db current.id child ↔ child ∈ ids) ∧ ids.length ≤ limits.threads-size := by
  simp only [children,bind_ok,failWhen_ok,pure_ok] at ok
  obtain ⟨_,few,named,read,rfl⟩ := ok
  have few := Nat.not_lt.mp few
  have whole : ((db.rows .session).filter fun row => cell row "parent_id" = .text current.id).take
      (limits.threads-size+1) = (db.rows .session).filter fun row => cell row "parent_id" = .text current.id := by
    refine List.take_of_length_le ?_
    rw [List.length_take] at few
    omega
  rw [whole] at few read
  have each := (mapM_ok _ _ _).mp read
  refine ⟨?_,?_⟩
  · intro child
    rw [Node.sortTexts,List.mem_insertionSort]
    constructor
    · rintro ⟨row,inside,own,parent⟩
      have chosen : row ∈ (db.rows .session).filter fun row => cell row "parent_id" = .text current.id :=
        List.mem_filter.mpr ⟨inside,by simpa using parent⟩
      obtain ⟨id,member,ok⟩ := forall₂_mem_left each chosen
      rw [own] at ok
      rwa [Cell.text.inj (text_valid ok)]
    · intro member
      obtain ⟨row,chosen,ok⟩ := forall₂_mem each member
      obtain ⟨inside,parent⟩ := List.mem_filter.mp chosen
      exact ⟨row,inside,text_valid ok,by simpa using parent⟩
  · rw [Node.sortTexts,List.length_insertionSort,← each.length_eq]
    exact few

theorem addChildren_ok {visited visited' ids : List String} {added : List OpenCodeSession}
    (ok : addChildren engine db visited ids = .ok (added,visited')) :
    added.map (·.id) = ids ∧ ids.Nodup ∧ (∀ id ∈ ids, id ∉ visited) ∧
      (∀ child ∈ added, session engine db child.id = .ok child) ∧ ∀ id, id ∈ visited' ↔ id ∈ ids ∨ id ∈ visited := by
  induction ids generalizing visited added with
  | nil =>
    cases ok
    simp
  | cons id ids ih =>
    unfold addChildren at ok
    simp only [bind_ok,failWhen_ok,pure_ok,Prod.mk.injEq] at ok
    obtain ⟨_,new,child,found,⟨others,_⟩,rest,rfl,rfl⟩ := ok
    obtain ⟨named,distinct,fresh,found',within⟩ := ih rest
    obtain ⟨own,_⟩ := session_ok found
    refine ⟨by rw [List.map_cons,own,named],?_,?_,?_,?_⟩
    · exact List.nodup_cons.mpr ⟨fun inside => fresh id inside List.mem_cons_self,distinct⟩
    · exact List.forall_mem_cons.mpr ⟨new,fun id inside known => fresh id inside (List.mem_cons_of_mem _ known)⟩
    · exact List.forall_mem_cons.mpr ⟨by rwa [own],found'⟩
    · intro other
      rw [within]
      simp only [List.mem_cons]
      tauto

structure Exploring (engine : Engine) (db : Database) (limits : OpenCodeSourceLimits) (root : String) (visited : List String)
    (explored waiting : List OpenCodeSession) (admitted : ℕ) : Prop where
  distinct : ((explored++waiting).map (·.id)).Nodup
  known : ∀ s ∈ explored++waiting, s.id ∈ visited
  few : (explored++waiting).length ≤ limits.threads
  found : ∀ s ∈ explored++waiting, session engine db s.id = .ok s
  reached : ∀ s ∈ explored++waiting, Reaches db root s.id
  top : ∃ s ∈ explored++waiting, s.id = root
  closed : ∀ s ∈ explored, ∀ child, Link db s.id child → ∃ c ∈ explored++waiting, c.id = child
  counted : admitted = (explored.map fun s => weight db s.id).sum
  bounded : admitted ≤ limits.records
  whole : ∀ s ∈ explored, ∀ part ∈ db.rows .part, strayPart db s.id part = false

theorem Exploring.step {root : String} {visited visited' ids : List String} {explored waiting added : List OpenCodeSession}
    {current : OpenCodeSession} {admitted admitted' : ℕ}
    (exploring : Exploring engine db limits root visited explored (current::waiting) admitted)
    (admits : admitSession db limits current admitted = .ok admitted')
    (below : children db limits current (explored.length+1+waiting.length) = .ok ids)
    (adds : addChildren engine db visited ids = .ok (added,visited')) :
    Exploring engine db limits root visited' (explored++[current]) (waiting++added) admitted' := by
  obtain ⟨distinct,known,few,found,reached,top,closed,counted,_,whole⟩ := exploring
  obtain ⟨rfl,bounded,here⟩ := admitSession_ok admits
  obtain ⟨links,room⟩ := children_ok below
  obtain ⟨named,single,fresh,found',within⟩ := addChildren_ok adds
  have split : explored++[current]++(waiting++added) = explored++current::waiting++added := by simp
  have own : current ∈ explored++current::waiting := by simp
  have members : ∀ {p : OpenCodeSession → Prop}, (∀ s ∈ explored++current::waiting, p s) → (∀ s ∈ added, p s) →
      ∀ s ∈ explored++[current]++(waiting++added), p s := by
    intro p first second s inside
    rw [split] at inside
    exact (List.mem_append.mp inside).elim (first s) (second s)
  have among : ∀ s ∈ added, s.id ∈ ids := fun s inside => named ▸ List.mem_map_of_mem inside
  constructor
  · rw [split,List.map_append,List.nodup_append]
    refine ⟨distinct,named ▸ single,?_⟩
    intro id member other member' same
    obtain ⟨s,inside,rfl⟩ := List.mem_map.mp member
    rw [named] at member'
    exact fresh other member' (same ▸ known s inside)
  · exact members (fun s inside => (within _).mpr (.inr (known s inside))) fun s inside => (within _).mpr (.inl (among s inside))
  · have size : added.length = ids.length := by rw [← named,List.length_map]
    simp only [List.length_append,List.length_cons,List.length_nil] at few ⊢
    omega
  · exact members found found'
  · refine members reached fun s inside => ?_
    exact (reached current own).tail ((links s.id).mpr (among s inside))
  · obtain ⟨s,inside,same⟩ := top
    exact ⟨s,by rw [split]; exact List.mem_append_left _ inside,same⟩
  · intro s inside child link
    rcases List.mem_append.mp inside with inside | inside
    · obtain ⟨c,there,same⟩ := closed s inside child link
      exact ⟨c,by rw [split]; exact List.mem_append_left _ there,same⟩
    · obtain rfl := List.mem_singleton.mp inside
      have listed : child ∈ added.map (·.id) := named ▸ (links child).mp link
      obtain ⟨c,there,same⟩ := List.mem_map.mp listed
      exact ⟨c,by rw [split]; exact List.mem_append_right _ there,same⟩
  · rw [counted,List.map_append,List.sum_append]
    simp
  · exact bounded
  · intro s inside
    rcases List.mem_append.mp inside with inside | inside
    · exact whole s inside
    · obtain rfl := List.mem_singleton.mp inside
      exact here

theorem explore_ok {root : String} {fuel checks admitted : ℕ} {visited : List String}
    {explored waiting : List OpenCodeSession} {family : Family} (room : explored.length+fuel = limits.threads)
    (exploring : Exploring engine db limits root visited explored waiting admitted)
    (ok : explore engine db limits interrupted fuel checks visited explored waiting admitted = .ok family) :
    ∃ visited, Exploring engine db limits root visited family.threads [] family.admitted := by
  induction fuel generalizing checks visited explored waiting admitted with
  | zero =>
    cases ok
    have few := exploring.few
    rw [List.length_append] at few
    have none_ : waiting = [] := List.length_eq_zero_iff.mp (by omega)
    subst none_
    rw [List.append_nil]
    exact ⟨visited,exploring⟩
  | succ fuel ih =>
    cases waiting with
    | nil =>
      cases ok
      exact ⟨visited,exploring⟩
    | cons current waiting =>
      unfold explore at ok
      simp only [bind_ok] at ok
      obtain ⟨_,_,_,admits,ids,below,⟨added,_⟩,adds,ok⟩ := ok
      have room' : (explored++[current]).length+fuel = limits.threads := by simp; omega
      exact ih room' (exploring.step admits below adds) ok

end Admission
end ATape.OpenCode
