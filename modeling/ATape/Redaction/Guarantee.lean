import ATape.Redaction.Masking

/-! The guarantee of the redaction, for every text, configuration and library of
expressions; and a literal that it leaves, within a marker. -/
namespace ATape.Redaction
open Foundation

/-- Every span to be hidden is in a replaced region unless it lies in a marker, the
regions are unions of overlapping candidates, everything else is kept in order, and
no region cuts a marker that was there before. -/
theorem text_masks {re2 : Text → Option Expression} (lawful : Lawful re2) {configuration : RedactionConfiguration}
    {engine : Engine} (built : createEngine re2 configuration = .ok engine) {input result : Text}
    {output output' : Report} {fieldName : Option Text}
    (ok : engine.text input output fieldName = .ok (result,output')) :
    ∃ regions runs, engine.Masks input fieldName result regions runs := by
  obtain ⟨marked,known,literals⟩ := createEngine_ok built
  have filled : ∀ v ∈ engine.literals, v ≠ [] := by
    intro v member
    rw [literals] at member
    have size := (configuration.lengths v member).1
    exact List.length_pos_iff.mp (by omega)
  simp only [Engine.text,bind_ok,failWhen_ok,exists_const] at ok
  obtain ⟨_,_,found,collected,ok⟩ := ok
  cases found with
  | inl rule =>
    simp only [bind_ok,pure_ok,Prod.mk.injEq] at ok
    obtain ⟨_,_,rfl,_⟩ := ok
    obtain ⟨r,listed,rfl,hides⟩ := collectRules_hides _ _ collected
    exact ⟨_,_,field_masks lawful marked known filled (List.fst_mem_of_mem_zipIdx listed) hides⟩
  | inr c =>
    simp only [bind_ok,pure_ok,failWhen_ok,exists_const,Prod.mk.injEq] at ok
    obtain ⟨c',scanned,_,_,_,rfl,_⟩ := ok
    obtain ⟨spans,shown⟩ := collectRules_spans _ _ _ collected
    have exact_ := foldlM_spans (fun c span c' ok => add_spans ok) _ _ _ scanned
    apply regions_masks lawful marked known filled
    · intro rule member
      obtain ⟨i,below,same⟩ := List.mem_iff_getElem.mp member
      apply shown (rule,i)
      rw [List.mk_mem_zipIdx_iff_getElem?,List.getElem?_eq_getElem below,same]
    · intro x
      rw [exact_,spans]
      simp only [List.not_mem_nil,false_or]

/-! A library that matches nothing, so that literals only are hidden. -/

def quiet (_ : Text) : Option Expression := some ⟨3,fun _ => []⟩

theorem quiet_lawful : Lawful quiet := by
  intro source e compiled text found member
  cases compiled
  cases member

def literalsOnly (values : List Text) (lengths : ∀ v ∈ values, 8 ≤ v.length ∧ v.length ≤ 4096) :
    RedactionConfiguration :=
  ⟨[],values,fun _ none => absurd none List.not_mem_nil,lengths⟩

def quietEngine (configuration : RedactionConfiguration) : Engine := after ⟨[],[]⟩ (createEngine quiet configuration)

theorem quiet_text (configuration : RedactionConfiguration) (input result : Text)
    (ok : ((quietEngine configuration).text input ⟨0,∅⟩ none).toOption.map Prod.fst = some result) :
    ∃ output, (quietEngine configuration).text input ⟨0,∅⟩ none = .ok (result,output) := by
  cases text : (quietEngine configuration).text input ⟨0,∅⟩ none with
  | error failure =>
    rw [text] at ok
    cases ok
  | ok found =>
    rw [text] at ok
    cases ok
    exact ⟨found.2,rfl⟩

def password : RedactionConfiguration := literalsOnly [units "swordfish"] (by decide)

theorem text_masks_password : ∃ output' regions runs,
    (quietEngine password).text (units "key=swordfish!") ⟨0,∅⟩ none = .ok (units "key=[REDACTED]!",output') ∧
      (quietEngine password).Masks (units "key=swordfish!") none (units "key=[REDACTED]!") regions runs := by
  have built := ok_after ⟨[],[]⟩ (createEngine quiet password) (by decide)
  obtain ⟨output',ok⟩ := quiet_text password (units "key=swordfish!") (units "key=[REDACTED]!") (by decide +kernel)
  obtain ⟨regions,runs,masks⟩ := text_masks quiet_lawful built ok
  exact ⟨output',regions,runs,ok,masks⟩

/-! A literal that is part of a marker stays in the text. -/

def markerWord : RedactionConfiguration := literalsOnly [units "REDACTED"] (by decide)

theorem quiet_captured {configuration : RedactionConfiguration} {engine : Engine}
    (built : createEngine quiet configuration = .ok engine) {input : Text} {start finish : Nat}
    (captured : engine.Captured input none start finish) :
    ∃ v ∈ configuration.secretValues, Occurs v input start ∧ finish = start+v.length := by
  obtain ⟨_,known,literals⟩ := createEngine_ok built
  cases captured with
  | literal value start member occurs => exact ⟨value,literals ▸ member,occurs,rfl⟩
  | rule rule start finish member finds =>
    obtain ⟨_,_,value,compiled,found,listed,_⟩ := finds
    obtain ⟨source,same⟩ := known rule member value compiled
    cases same
    cases listed
  | field rule member hides =>
    obtain ⟨applies,_,field,_⟩ := hides
    obtain ⟨e,some_⟩ := Option.isSome_iff_exists.mp field
    simp [Rule.applies,some_] at applies

/-- The text of a marker is kept with the literal in it: there is no way to read the
output as the input with unions of candidates replaced and no literal kept. -/
theorem marker_keeps_literal : ∃ output',
    (quietEngine markerWord).text (units "[REDACTED]") ⟨0,∅⟩ none = .ok (units "[REDACTED]",output') ∧
      createEngine quiet markerWord = .ok (quietEngine markerWord) ∧ Lawful quiet ∧
      ¬ ∃ regions runs, Span.Replaced 0 (units "[REDACTED]") regions runs (units "[REDACTED]") ∧
        (∃ candidates : List (Span Unit), (∀ x ∈ candidates, ∃ start finish,
          (quietEngine markerWord).Captured (units "[REDACTED]") none start finish ∧
            ¬ (quietEngine markerWord).Guarded (units "[REDACTED]") start finish ∧
            Extended (quietEngine markerWord) (units "[REDACTED]") start finish x) ∧
          ∀ r ∈ regions, Span.Joined candidates r) ∧
        ∀ run ∈ runs, ∀ value ∈ (quietEngine markerWord).literals, ∀ k, ¬ Occurs value run.2 k := by
  have built := ok_after ⟨[],[]⟩ (createEngine quiet markerWord) (by decide)
  obtain ⟨output',ok⟩ := quiet_text markerWord (units "[REDACTED]") (units "[REDACTED]") (by decide +kernel)
  obtain ⟨_,_,literals⟩ := createEngine_ok built
  refine ⟨output',ok,built,quiet_lawful,?_⟩
  rintro ⟨regions,runs,replaced,⟨candidates,free,joined⟩,kept⟩
  have guarded : ∀ start finish, (quietEngine markerWord).Captured (units "[REDACTED]") none start finish →
      (quietEngine markerWord).Guarded (units "[REDACTED]") start finish := by
    intro start finish captured
    obtain ⟨v,member,occurs,ends⟩ := quiet_captured built captured
    have value : v = units "REDACTED" := List.mem_singleton.mp member
    subst value
    have bounded := occurs.bounded (by decide)
    refine ⟨0,10,⟨redacted,?_,⟨[],by decide⟩,by decide⟩,Nat.zero_le _,?_⟩
    · exact mem_markers (.inr rfl)
    · have size : (units "[REDACTED]").length = 10 := by decide
      rw [ends]
      omega
  have none : regions = [] := by
    apply List.eq_nil_iff_forall_not_mem.mpr
    intro r member
    obtain ⟨⟨x,listed,_⟩,_,_⟩ := joined r member
    obtain ⟨start,finish,captured,apart,_⟩ := free x listed
    exact apart (guarded start finish captured)
  subst none
  have literal : Occurs (units "REDACTED") (units "[REDACTED]") 1 := ⟨units "]",by decide⟩
  apply kept _ replaced.whole (units "REDACTED") _ 1 literal
  rw [show (quietEngine markerWord).literals = [units "REDACTED"] from literals]
  exact List.mem_singleton_self _

end ATape.Redaction
