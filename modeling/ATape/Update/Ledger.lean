import ATape.Update.Steps

/-! What the two files say. A ledger that was written is read back, and what it says of
the pointer and of the floor holds wherever an operation was cut off. -/
namespace ATape.Update
open Foundation Node Work

theorem before_trans {a b c : Nat × Nat × Nat} (first : ¬before a b) (second : ¬before b c) : ¬before a c := by
  unfold before at *
  omega

theorem older_ok {left right : String} {below : Bool} (ok : older left right = .ok below) :
    ∃ a b, version left = .ok a ∧ version right = .ok b ∧ below = decide (before a b) := by
  simp only [older,bind_ok,pure_ok] at ok
  obtain ⟨a,first,b,second,rfl⟩ := ok
  exact ⟨a,b,first,second,rfl⟩

theorem older_same {value : String} {v : Nat × Nat × Nat} (ok : version value = .ok v) :
    older value value = .ok false := by
  have self : ¬before v v := by
    unfold before
    omega
  simp [older,ok,ok_bind,self,pure,Except.pure]

theorem accepts_ok {floor : Floor} {runtime : UpdateRuntimeAdmission}
    (ok : accepts (some floor) runtime = .ok true) :
    older runtime.version floor.minimumRuntimeVersion = .ok false ∧
      runtime.captureStateContract = floor.captureStateContract := by
  simp only [accepts,bind_ok,pure_ok,Bool.and_eq_true,Bool.not_eq_true',decide_eq_true_eq] at ok
  obtain ⟨below,ok,rfl,same⟩ := ok
  exact ⟨ok,same⟩

theorem accepts_floor {s : UpdateRuntimeSelection} {v : Nat × Nat × Nat} (ok : version s.version = .ok v) :
    accepts (some s.floor) s.admission = .ok true := by
  simp [accepts,UpdateRuntimeSelection.floor,UpdateRuntimeSelection.admission,older_same ok,ok_bind,pure,Except.pure]

theorem UpdateRuntimeSelection.Sound.versioned {s : UpdateRuntimeSelection} (sound : s.Sound) :
    ∃ v, Update.version s.version = .ok v := by
  simp only [UpdateRuntimeSelection.Sound,decodeUpdateRuntimeSelection,bind_ok] at sound
  obtain ⟨_,_,v,ok,_⟩ := sound
  exact ⟨v,ok⟩

/-- What a ledger that may be written says. -/
structure Control.Facts (c : Control) : Prop where
  fits : c.fits = true
  target : c.target.Sound
  baseline : ∀ s, c.baseline = some s → s.Sound
  previous : ∀ s, c.previous = some s → s.Sound
  fallback : c.baseline.isSome = true → c.baseline = c.previous
  above : ∀ f, c.floor = some f → older c.target.version f.minimumRuntimeVersion = .ok false
  boundary : c.forwardOnly = true → c.floor = some c.target.floor ∧ c.phase ≠ .prepared ∧ c.phase ≠ .begun
  fenced : c.phase = .fenced → c.forwardOnly = true
  compatible : c.phase = .completed → c.forwardOnly = false → ∀ p, c.previous = some p →
    p.captureStateContract = c.target.captureStateContract

theorem decodeOptional_ok {selected : Option UpdateRuntimeSelection} {u : Unit} :
    decodeOptional selected = .ok u ↔ ∀ s, selected = some s → s.Sound := by
  cases selected with
  | none => simp [decodeOptional]
  | some s =>
    simp only [decodeOptional,bind_ok,decodeUpdateRuntimeSelection_ok,pure_ok,Option.some.injEq]
    constructor
    · rintro ⟨_,⟨sound,_⟩,_⟩ _ rfl
      exact sound
    · intro sound
      exact ⟨s,⟨sound s rfl,rfl⟩,trivial⟩

theorem decodeFloor_ok {target : UpdateRuntimeSelection} {floor : Option Floor} {u : Unit} :
    decodeFloor target floor = .ok u ↔ ∀ f, floor = some f →
      older target.version f.minimumRuntimeVersion = .ok false := by
  cases floor with
  | none => simp [decodeFloor]
  | some f =>
    simp only [decodeFloor,bind_ok,failWhen_ok,Bool.not_eq_true,Option.some.injEq]
    constructor
    · rintro ⟨_,_,below,ok,rfl⟩ _ rfl
      exact ok
    · intro above
      have ok := above f rfl
      obtain ⟨_,v,_,versioned,_⟩ := older_ok ok
      exact ⟨v,versioned,false,ok,rfl⟩

theorem Control.sound_iff (c : Control) : c.Sound ↔ c.Facts := by
  simp only [Control.Sound,decodeControl,checkControl,bind_ok,failWhen_ok,decodeOptional_ok,decodeFloor_ok,
    decodeUpdateRuntimeSelection_ok,exists_const,pure_ok,not_not,not_and,not_or,Option.any_eq_true,
    decide_eq_true_eq,not_exists,and_true,ne_eq]
  constructor
  · rintro ⟨fits,_,⟨target,_⟩,baseline,previous,fallback,above,boundary,fenced,compatible⟩
    exact ⟨fits,target,baseline,previous,fallback,above,boundary,fenced,
      fun phase backward p same => compatible phase (by simp [backward]) p same⟩
  · rintro ⟨fits,target,baseline,previous,fallback,above,boundary,fenced,compatible⟩
    exact ⟨fits,c.target,⟨target,rfl⟩,baseline,previous,fallback,above,boundary,fenced,
      fun phase backward p same => compatible phase (by simpa using backward) p same⟩

theorem Control.Sound.facts {c : Control} (sound : c.Sound) : c.Facts := c.sound_iff.mp sound

theorem Control.Sound.recover {c : Control} (sound : c.Sound) {phase : Phase}
    (which : phase = .recovering ∨ phase = .recovered) : {c with phase}.Sound := by
  obtain ⟨fits,target,baseline,previous,fallback,above,boundary,fenced,compatible⟩ := sound.facts
  apply (Control.sound_iff _).mpr
  refine ⟨fits,target,baseline,previous,fallback,above,?_,?_,?_⟩
  · intro forward
    refine ⟨(boundary forward).1,?_⟩
    rcases which with rfl | rfl <;> exact ⟨nofun,nofun⟩
  · intro fenced
    rcases which with rfl | rfl <;> cases fenced
  · intro completed
    rcases which with rfl | rfl <;> cases completed

namespace Home

def Holds (home : Home) (c : Control) : Prop := home.control = some (fileText c.json) ∧ c.Sound

def Points (home : Home) : Option UpdateRuntimeSelection → Prop
  | none => home.pointer = none
  | some selected => ∃ text j, home.pointer = some text ∧ Json.parse text = some j ∧ selectionOf j = .ok selected

def Bounded (home : Home) (n : Nat × Nat × Nat) : Prop :=
  ∃ c f v, home.Holds c ∧ c.floor = some f ∧ version f.minimumRuntimeVersion = .ok v ∧ ¬before v n

end Home

theorem controlOf_json {c : Control} (sound : c.Sound) : controlOf c.json = .ok c := by
  simp only [controlOf,readControlJson_json,present_some,ok_bind]
  exact sound

theorem selectionOf_json {s : UpdateRuntimeSelection} (sound : s.Sound) : selectionOf s.json = .ok s := by
  simp only [selectionOf,readSelectionJson_json,present_some,ok_bind]
  exact sound

theorem readBoundedJSON_ok {text : String} {j : Json} :
    readBoundedJSON text = .ok j ↔ Go.len text ≤ readLimit ∧ Json.parse text = some j := by
  unfold readBoundedJSON
  split
  next short =>
    cases Json.parse text <;> simp [short]
  next long => simp [long]

theorem optionalJSON_ok {α : Type} {file : Option String} {decode : Json → Except Failure α} {a : Option α} :
    optionalJSON file decode = .ok a ↔ file = none ∧ a = none ∨ ∃ text j value, file = some text ∧
      Go.len text ≤ readLimit ∧ Json.parse text = some j ∧ decode j = .ok value ∧ a = some value := by
  cases file with
  | none => simp [optionalJSON,eq_comm]
  | some text =>
    simp only [optionalJSON,bind_ok,readBoundedJSON_ok,pure_ok,reduceCtorEq,false_and,false_or,Option.some.injEq]
    constructor
    · rintro ⟨j,⟨short,parsed⟩,value,ok,rfl⟩
      exact ⟨text,j,value,rfl,short,parsed,ok,rfl⟩
    · rintro ⟨_,j,value,rfl,short,parsed,ok,rfl⟩
      exact ⟨j,⟨short,parsed⟩,value,ok,rfl⟩

namespace Home
variable {home : Home}

theorem Holds.same {c c' : Control} (first : home.Holds c) (second : home.Holds c') : c = c' := by
  have texts := first.1.symm.trans second.1
  have alike := fileText_injective (integral_control c) (integral_control c') (Option.some.inj texts)
  have read := readControlJson_json c
  rw [alike,readControlJson_json] at read
  exact (Option.some.inj read).symm

theorem Points.same {p p' : Option UpdateRuntimeSelection} (first : home.Points p) (second : home.Points p') :
    p = p' := by
  cases p with
  | none =>
    cases p' with
    | none => rfl
    | some s' =>
      obtain ⟨text,j,file,_⟩ := second
      rw [first] at file
      cases file
  | some s =>
    obtain ⟨text,j,file,parsed,ok⟩ := first
    cases p' with
    | none =>
      rw [second] at file
      cases file
    | some s' =>
      obtain ⟨text',j',file',parsed',ok'⟩ := second
      rw [file] at file'
      cases file'
      rw [parsed] at parsed'
      cases parsed'
      rw [ok] at ok'
      cases ok'
      rfl

theorem points_of_selection {p : Option UpdateRuntimeSelection} (ok : home.selection = .ok p) : home.Points p := by
  rcases optionalJSON_ok.mp ok with ⟨absent,rfl⟩ | ⟨text,j,s,file,_,parsed,decoded,rfl⟩
  · exact absent
  · exact ⟨text,j,file,parsed,decoded⟩

theorem Holds.parsed {c : Control} (holds : home.Holds c) :
    home.control = some (fileText c.json) ∧ Json.parse (fileText c.json) = some c.json ∧ controlOf c.json = .ok c :=
  ⟨holds.1,parse_fileText (integral_control c),controlOf_json holds.2⟩

theorem Holds.read {c : Control} {found : Option Control} (holds : home.Holds c) (ok : home.ledger = .ok found) :
    found = some c := by
  obtain ⟨file,parsed,decoded⟩ := holds.parsed
  rcases optionalJSON_ok.mp ok with ⟨absent,_⟩ | ⟨text,j,c',file',_,parsed',decoded',rfl⟩
  · rw [file] at absent
    cases absent
  · rw [file] at file'
    cases file'
    rw [parsed] at parsed'
    cases parsed'
    rw [decoded] at decoded'
    cases decoded'
    rfl

theorem Holds.ledger {c : Control} (holds : home.Holds c) (short : Go.len (fileText c.json) ≤ readLimit) :
    home.ledger = .ok (some c) := by
  obtain ⟨file,parsed,decoded⟩ := holds.parsed
  exact optionalJSON_ok.mpr (.inr ⟨_,_,c,file,short,parsed,decoded,rfl⟩)

theorem holds_withControl {c : Control} (sound : c.Sound) : (home.withControl c).Holds c := ⟨rfl,sound⟩

@[simp] theorem points_withControl (c : Control) (p : Option UpdateRuntimeSelection) :
    (home.withControl c).Points p ↔ home.Points p := by
  cases p <;> rfl

@[simp] theorem holds_withPointer (p : Option UpdateRuntimeSelection) (c : Control) :
    (home.withPointer p).Holds c ↔ home.Holds c := Iff.rfl

theorem points_withPointer {p : Option UpdateRuntimeSelection} (sound : ∀ s, p = some s → s.Sound) :
    (home.withPointer p).Points p := by
  cases p with
  | none => rfl
  | some s => exact ⟨_,_,rfl,parse_fileText (integral_selection s),selectionOf_json (sound s rfl)⟩

end Home
end ATape.Update
