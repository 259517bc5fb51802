import ATape.Redaction.Markers

/-! What the masked text shows: every sensitive span lies in a replaced region, each
region is the union of overlapping candidates, and the rest of the text is kept. -/
namespace ATape.Redaction
open Foundation

variable {engine : Engine} {input : Text}

/-- A candidate together with the markers that it crosses. -/
structure Extended {π : Type} (engine : Engine) (input : Text) (start finish : Nat) (x : Span π) : Prop where
  holds : x.start ≤ start ∧ finish ≤ x.finish
  starts : x.start = start ∨ ∃ b, engine.MarkerAt input x.start b ∧ x.start < finish ∧ start < b
  finishes : x.finish = finish ∨ ∃ a, engine.MarkerAt input a x.finish ∧ a < finish ∧ start < x.finish
  crossing : ∀ a b, engine.MarkerAt input a b → a < finish → start < b → x.start ≤ a ∧ b ≤ x.finish

private theorem extend_spec (guarded : List (Span Unit)) (apart : guarded.Pairwise Span.Before)
    (filled : ∀ m ∈ guarded, m.start < m.finish) (s : Found) (later : ∀ m ∈ guarded, s.start < m.finish) :
    ((extend guarded s).start ≤ s.start ∧ s.finish ≤ (extend guarded s).finish) ∧
      ((extend guarded s).start = s.start ∨
        ∃ m ∈ guarded, m.start = (extend guarded s).start ∧ m.start < s.finish) ∧
      ((extend guarded s).finish = s.finish ∨
        ∃ m ∈ guarded, m.finish = (extend guarded s).finish ∧ m.start < s.finish) ∧
      ∀ m ∈ guarded, m.start < s.finish → (extend guarded s).start ≤ m.start ∧ m.finish ≤ (extend guarded s).finish := by
  induction guarded generalizing s with
  | nil =>
    refine ⟨⟨Nat.le_refl _,Nat.le_refl _⟩,.inl rfl,.inl rfl,?_⟩
    intro m none
    cases none
  | cons marker others ih =>
    obtain ⟨below,rest⟩ := List.pairwise_cons.mp apart
    have gap : ∀ m ∈ others, marker.finish ≤ m.start := below
    have wide := filled marker List.mem_cons_self
    unfold extend
    split
    next past =>
      refine ⟨⟨Nat.le_refl _,Nat.le_refl _⟩,.inl rfl,.inl rfl,?_⟩
      intro m member meets
      rcases List.mem_cons.mp member with rfl | after
      · omega
      · have := gap m after
        omega
    next crosses =>
      have ends := later marker List.mem_cons_self
      rw [if_pos ends]
      obtain ⟨⟨lower,upper⟩,starts,finishes,inside⟩ := ih rest (fun m member => filled m (List.mem_cons_of_mem _ member))
        {s with start := min s.start marker.start, finish := max s.finish marker.finish}
        (by
          intro m member
          have := later m (List.mem_cons_of_mem _ member)
          change min s.start marker.start < m.finish
          omega)
      simp only at lower upper starts finishes inside
      generalize extend others
        {s with start := min s.start marker.start, finish := max s.finish marker.finish} = x at *
      refine ⟨⟨by clear starts finishes; omega,by clear starts finishes; omega⟩,?_,?_,?_⟩
      · clear finishes
        rcases starts with same | ⟨m,member,same,_⟩
        · by_cases wider : s.start ≤ marker.start
          · exact .inl (by omega)
          · exact .inr ⟨marker,List.mem_cons_self,by omega,by omega⟩
        · have := gap m member
          omega
      · clear starts
        rcases finishes with same | ⟨m,member,same,meets⟩
        · by_cases longer : marker.finish ≤ s.finish
          · exact .inl (by omega)
          · exact .inr ⟨marker,List.mem_cons_self,by omega,by omega⟩
        · have := gap m member
          exact .inr ⟨m,List.mem_cons_of_mem _ member,same,by omega⟩
      · clear starts finishes
        intro m member meets
        rcases List.mem_cons.mp member with rfl | after
        · omega
        · exact inside m after (by omega)

theorem place_spec (marked : engine.Marked) (s : Found) :
    (place (engine.protectedSpans input) s = none →
      ∃ a b, engine.MarkerAt input a b ∧ a ≤ s.start ∧ s.finish ≤ b) ∧
      ∀ x, place (engine.protectedSpans input) s = some x → Extended engine input s.start s.finish x ∧
        (s.start < s.finish → ¬ ∃ a b, engine.MarkerAt input a b ∧ a ≤ s.start ∧ s.finish ≤ b) := by
  have members : ∀ m, m ∈ engine.protectedSpans input ↔ engine.MarkerAt input m.start m.finish :=
    (protectedSpans_spec marked).1
  have apart : (engine.protectedSpans input).Pairwise Span.Before := (protectedSpans_spec marked).2
  generalize engine.protectedSpans input = guarded at members apart
  have filled : ∀ m ∈ guarded, m.start < m.finish := fun m member => (((members m).mp member).filled marked).1
  have ordered : guarded.Pairwise fun a b => a.finish ≤ b.finish := by
    apply apart.imp_of_mem
    intro a b _ member before
    have := filled b member
    unfold Span.Before at before
    omega
  obtain ⟨early,late⟩ := Span.search_parts s.start ordered
  unfold place
  simp only
  generalize Span.search guarded s.start (guarded.length+1) 0 guarded.length = low at early late
  split
  next hidden =>
    refine ⟨fun _ => ?_,fun x none => absurd none (by simp)⟩
    obtain ⟨first,found,inside⟩ := (Option.any_eq_true _ _).mp hidden
    rw [Bool.and_eq_true,decide_eq_true_eq,decide_eq_true_eq] at inside
    exact ⟨_,_,(members first).mp (List.mem_of_getElem? found),inside⟩
  next crosses =>
    refine ⟨fun none => absurd none (by simp),fun x placed => ?_⟩
    cases placed
    have part : guarded.drop low ⊆ guarded := List.drop_subset _ _
    obtain ⟨holds,starts,finishes,inside⟩ := extend_spec (guarded.drop low) (apart.sublist (List.drop_sublist _ _))
      (fun m member => filled m (part member)) s late
    refine ⟨⟨holds,?_,?_,?_⟩,?_⟩
    · rcases starts with same | ⟨m,member,same,meets⟩
      · exact .inl same
      · have here := (members m).mp (part member)
        rw [same] at here meets
        exact .inr ⟨_,here,meets,late m member⟩
    · rcases finishes with same | ⟨m,member,same,meets⟩
      · exact .inl same
      · have here := (members m).mp (part member)
        have after := late m member
        rw [same] at here after
        exact .inr ⟨_,here,meets,after⟩
    · intro a b here meets after
      have member : (⟨a,b,()⟩ : Span Unit) ∈ guarded := (members ⟨a,b,()⟩).mpr here
      rw [← List.take_append_drop low guarded,List.mem_append] at member
      rcases member with before | inside'
      · have ends : b ≤ s.start := early _ before
        omega
      · exact inside _ inside' meets
    · rintro nonempty ⟨a,b,here,starts',finishes'⟩
      have member : (⟨a,b,()⟩ : Span Unit) ∈ guarded := (members ⟨a,b,()⟩).mpr here
      rw [← List.take_append_drop low guarded,List.mem_append] at member
      rcases member with before | after
      · have ends : b ≤ s.start := early _ before
        omega
      · -- the marker around the span is the first that ends after its start
        cases rest : guarded.drop low with
        | nil =>
          rw [rest] at after
          cases after
        | cons first others =>
          have found : guarded[low]? = some first := by
            rw [← List.head?_drop,rest]
            rfl
          have ends := late first (by rw [rest]; exact List.mem_cons_self)
          rw [found,Option.any_some,Bool.and_eq_true,decide_eq_true_eq,decide_eq_true_eq] at crosses
          rw [rest] at after
          rcases List.mem_cons.mp after with same | later
          · subst same
            exact crosses ⟨starts',finishes'⟩
          · have order := apart.sublist (List.drop_sublist low guarded)
            rw [rest] at order
            have gap : first.finish ≤ a := (List.pairwise_cons.mp order).1 _ later
            omega

theorem extend_mark (guarded : List (Span Unit)) (s : Found) : (extend guarded s).mark = s.mark := by
  induction guarded generalizing s with
  | nil => rfl
  | cons marker others ih =>
    unfold extend
    split
    · rfl
    · split <;> rw [ih]

theorem place_mark {guarded : List (Span Unit)} {s x : Found} (placed : place guarded s = some x) :
    x.mark = s.mark := by
  unfold place at placed
  simp only at placed
  split at placed
  · cases placed
  · cases placed
    exact extend_mark _ s

/-! Collecting the candidates -/

theorem add_spans {guarded : List (Span Unit)} {c c' : Collected} {span : Found}
    (ok : add guarded c span = .ok c') (x : Found) : x ∈ c'.spans ↔ x ∈ c.spans ∨ place guarded span = some x := by
  unfold add at ok
  rw [bind_ok] at ok
  obtain ⟨_,_,ok⟩ := ok
  cases placed : place guarded span with
  | none =>
    rw [placed] at ok
    cases ok
    simp
  | some y =>
    rw [placed] at ok
    simp only [bind_ok,pure_ok] at ok
    obtain ⟨_,_,rfl⟩ := ok
    rw [List.mem_append,List.mem_singleton,Option.some.injEq]
    exact or_congr_right eq_comm

theorem foldlM_spans {α : Type} {f : Collected → α → Except UnsafeRedaction Collected} {source : α → Found → Prop}
    (each : ∀ c a c', f c a = .ok c' → ∀ x, x ∈ c'.spans ↔ x ∈ c.spans ∨ source a x) (as : List α)
    (c c' : Collected) (ok : as.foldlM f c = .ok c') (x : Found) :
    x ∈ c'.spans ↔ x ∈ c.spans ∨ ∃ a ∈ as, source a x := by
  induction as generalizing c with
  | nil =>
    rw [List.foldlM_nil,pure_ok] at ok
    subst ok
    simp
  | cons a as ih =>
    rw [List.foldlM_cons,bind_ok] at ok
    obtain ⟨middle,first,rest⟩ := ok
    rw [ih middle rest,each c a middle first,or_assoc]
    simp only [List.mem_cons,exists_eq_or_imp]

def Rule.Finds (rule : Rule) (input : Text) (fieldName : Option Text) (start finish : Nat) : Prop :=
  rule.applies fieldName = true ∧ rule.hinted input = true ∧ ∃ value, rule.value = some value ∧
    ∃ found ∈ value.finds input, rule.capture found = some (start,finish) ∧ start ≠ finish

def Rule.Hides (rule : Rule) (markers : List Text) (input : Text) (fieldName : Option Text) : Prop :=
  rule.applies fieldName = true ∧ rule.value = none ∧ rule.field.isSome = true ∧ input ∉ markers

theorem addMatch_spans {guarded : List (Span Unit)} {rule : Rule} {priority : Nat} {c c' : Collected}
    {found : Nat → Option (Nat × Nat)} (ok : addMatch guarded rule priority c found = .ok c') (x : Found) :
    x ∈ c'.spans ↔ x ∈ c.spans ∨ ∃ start finish, rule.capture found = some (start,finish) ∧ start ≠ finish ∧
      place guarded ⟨start,finish,rule,priority⟩ = some x := by
  unfold addMatch at ok
  cases captured : rule.capture found with
  | none =>
    rw [captured] at ok
    cases ok
    simp
  | some span =>
    obtain ⟨start,finish⟩ := span
    rw [captured] at ok
    simp only at ok
    split at ok
    next empty =>
      split at ok
      · cases ok
        rw [iff_self_or]
        rintro ⟨_,_,same,apart,_⟩
        cases same
        exact absurd empty.symm apart
      · cases ok
    next filled =>
      rw [add_spans ok]
      constructor
      · rintro (old | placed)
        · exact .inl old
        · exact .inr ⟨start,finish,rfl,Ne.symm filled,placed⟩
      · rintro (old | ⟨_,_,same,_,placed⟩)
        · exact .inl old
        · cases same
          exact .inr placed

/-- The spans that are added by some rules, none of which hides the field. -/
def Collects (guarded : List (Span Unit)) (markers : List Text) (input : Text) (fieldName : Option Text)
    (rules : List (Rule × Nat)) (c c' : Collected) : Prop :=
  (∀ x, x ∈ c'.spans ↔ x ∈ c.spans ∨ ∃ r ∈ rules, ∃ start finish, r.1.Finds input fieldName start finish ∧
    place guarded ⟨start,finish,r⟩ = some x) ∧ ∀ r ∈ rules, ¬ r.1.Hides markers input fieldName

theorem collectRules_spans {guarded : List (Span Unit)} {markers : List Text} {fieldName : Option Text}
    (rules : List (Rule × Nat)) (c c' : Collected)
    (ok : collectRules guarded markers input fieldName rules c = .ok (.inr c')) :
    Collects guarded markers input fieldName rules c c' := by
  induction rules generalizing c with
  | nil =>
    simp only [collectRules,pure_ok,Sum.inr.injEq] at ok
    subst ok
    simp [Collects]
  | cons r rules ih =>
    obtain ⟨rule,priority⟩ := r
    -- a rule that adds nothing
    have skipped : (∀ start finish, ¬ rule.Finds input fieldName start finish) →
        ¬ rule.Hides markers input fieldName →
        collectRules guarded markers input fieldName rules c = .ok (.inr c') →
        Collects guarded markers input fieldName ((rule,priority)::rules) c c' := by
      intro nothing shown rest
      obtain ⟨spans,others⟩ := ih c rest
      refine ⟨?_,?_⟩
      · intro x
        rw [spans]
        simp only [List.mem_cons,exists_eq_or_imp]
        constructor
        · rintro (old | found)
          · exact .inl old
          · exact .inr (.inr found)
        · rintro (old | ⟨start,finish,here,_⟩ | found)
          · exact .inl old
          · exact absurd here (nothing start finish)
          · exact .inr found
      · intro r member
        rcases List.mem_cons.mp member with rfl | later
        · exact shown
        · exact others r later
    unfold collectRules at ok
    split at ok
    next applies =>
      split at ok
      next none =>
        split at ok
        next => cases ok
        next shown =>
          apply skipped _ _ ok
          · rintro start finish ⟨_,_,value,some,_⟩
            rw [none] at some
            cases some
          · rintro ⟨_,_,field,fresh⟩
            exact shown ⟨field,fresh⟩
      next value some =>
        have shown : ¬ rule.Hides markers input fieldName := by
          rintro ⟨_,none,_⟩
          rw [some] at none
          cases none
        split at ok
        next hinted =>
          rw [bind_ok] at ok
          obtain ⟨middle,here,rest⟩ := ok
          have first := foldlM_spans (fun c a c' ok => addMatch_spans ok) _ _ _ here
          obtain ⟨spans,others⟩ := ih middle rest
          refine ⟨?_,?_⟩
          · intro x
            rw [spans,first,or_assoc]
            simp only [List.mem_cons,exists_eq_or_imp]
            apply or_congr_right
            apply or_congr_left
            constructor
            · rintro ⟨found,member,start,finish,captured,apart,placed⟩
              exact ⟨start,finish,⟨applies,hinted,value,some,found,member,captured,apart⟩,placed⟩
            · rintro ⟨start,finish,⟨_,_,value',some',found,member,captured,apart⟩,placed⟩
              rw [some] at some'
              cases some'
              exact ⟨found,member,start,finish,captured,apart,placed⟩
          · intro r member
            rcases List.mem_cons.mp member with rfl | later
            · exact shown
            · exact others r later
        next unhinted =>
          apply skipped _ shown ok
          rintro start finish ⟨_,hinted,_⟩
          exact unhinted hinted
    next unapplied =>
      apply skipped _ _ ok
      · rintro start finish ⟨applies,_⟩
        exact unapplied applies
      · rintro ⟨applies,_⟩
        exact unapplied applies

theorem collectRules_hides {guarded : List (Span Unit)} {markers : List Text} {fieldName : Option Text}
    (rules : List (Rule × Nat)) (c : Collected) {rule : Rule}
    (ok : collectRules guarded markers input fieldName rules c = .ok (.inl rule)) :
    ∃ r ∈ rules, r.1 = rule ∧ rule.Hides markers input fieldName := by
  induction rules generalizing c with
  | nil => simp [collectRules] at ok
  | cons r rules ih =>
    obtain ⟨first,priority⟩ := r
    have later : ∀ c, collectRules guarded markers input fieldName rules c = .ok (.inl rule) →
        ∃ r ∈ (first,priority)::rules, r.1 = rule ∧ rule.Hides markers input fieldName := by
      intro c ok
      obtain ⟨r,member,same,hides⟩ := ih c ok
      exact ⟨r,List.mem_cons_of_mem _ member,same,hides⟩
    unfold collectRules at ok
    split at ok
    next applies =>
      split at ok
      next none =>
        split at ok
        next hides =>
          cases ok
          exact ⟨_,List.mem_cons_self,rfl,applies,none,hides⟩
        next => exact later c ok
      next value some =>
        split at ok
        next =>
          rw [bind_ok] at ok
          obtain ⟨middle,_,rest⟩ := ok
          exact later middle rest
        next => exact later c ok
    next => exact later c ok

/-! The engine -/

def Lawful (re2 : Text → Option Expression) : Prop :=
  ∀ source e, re2 source = some e → ∀ text, ∀ found ∈ e.finds text, ∀ group start finish,
    found group = some (start,finish) → start ≤ finish ∧ finish ≤ text.length

theorem compileExpression_ok {re2 : Text → Option Expression} {source : Option Text} {e : Option Expression}
    (ok : compileExpression re2 source = .ok e) (value : Expression) (some_ : e = some value) :
    ∃ text, re2 text = some value := by
  unfold compileExpression at ok
  cases source with
  | none =>
    cases ok
    cases some_
  | some text =>
    simp only at ok
    split at ok
    next => cases ok
    next found compiled =>
      cases ok
      cases some_
      exact ⟨text,compiled⟩

theorem compile_ok {re2 : Text → Option Expression} {pattern : RedactionPattern} {special : Special} {id : String}
    {builtin : Bool} {rule : Rule} (ok : compile re2 pattern special id builtin = .ok rule) :
    (∀ value, rule.value = some value → ∃ text, re2 text = some value) ∧
      rule.marker = if builtin then special.marker.getD redacted
        else units "[REDACTED:"++pattern.type.map upperCase++units "]" := by
  simp only [compile,bind_ok,pure_ok] at ok
  obtain ⟨value,compiled,_,_,_,_,rfl⟩ := ok
  exact ⟨compileExpression_ok compiled,rfl⟩

theorem unbracketed {body : Text} (all : body.all (fun c => c != 91 && c != 93) = true) :
    ∀ c ∈ body, c ≠ 91 ∧ c ≠ 93 := by
  simpa using all

theorem redacted_marker : IsMarker redacted ∧ IsMarker (units "[REDACTED PRIVATE KEY]") ∧
    IsMarker (units "[REDACTED DIAGNOSTIC]") :=
  ⟨⟨by decide,units "REDACTED",by decide,unbracketed (by decide)⟩,
    ⟨by decide,units "REDACTED PRIVATE KEY",by decide,unbracketed (by decide)⟩,
    ⟨by decide,units "REDACTED DIAGNOSTIC",by decide,unbracketed (by decide)⟩⟩

theorem upperCase_plain {c : UInt16}
    (plain : 48 ≤ c ∧ c ≤ 57 ∨ 65 ≤ c ∧ c ≤ 90 ∨ 97 ≤ c ∧ c ≤ 122 ∨ c = 95 ∨ c = 45) :
    upperCase c ≠ 91 ∧ upperCase c ≠ 93 := by
  unfold upperCase
  simp only [UInt16.le_iff_toNat_le,← UInt16.toNat_inj,ne_eq] at plain ⊢
  split
  next lower =>
    have below : (32 : UInt16) ≤ c := by
      rw [UInt16.le_iff_toNat_le]
      exact Nat.le_trans (by decide) lower.1
    rw [UInt16.toNat_sub_of_le _ _ below]
    simp only [UInt16.reduceToNat] at *
    omega
  next =>
    simp only [UInt16.reduceToNat] at *
    omega

theorem custom_marker {type : Text} (plain : ∀ c ∈ type, 48 ≤ c ∧ c ≤ 57 ∨ 65 ≤ c ∧ c ≤ 90 ∨ 97 ≤ c ∧ c ≤ 122 ∨
    c = 95 ∨ c = 45) : IsMarker (units "[REDACTED:"++type.map upperCase++units "]") := by
  refine ⟨?_,units "REDACTED:"++type.map upperCase,?_,?_⟩
  · have start : units "[REDACTED" <+: units "[REDACTED:" := by decide
    rw [List.append_assoc]
    exact start.trans (List.prefix_append _ _)
  · have open_ : units "[REDACTED:" = 91::units "REDACTED:" := by decide
    have close : units "]" = [93] := by decide
    rw [open_,close]
    rfl
  · intro c member
    rcases List.mem_append.mp member with fixed | given
    · exact unbracketed (by decide) c fixed
    · obtain ⟨c',known,rfl⟩ := List.mem_map.mp given
      exact upperCase_plain (plain c' known)

theorem createEngine_ok {re2 : Text → Option Expression} {configuration : RedactionConfiguration}
    (ok : createEngine re2 configuration = .ok engine) : engine.Marked ∧
      (∀ rule ∈ engine.rules, ∀ value, rule.value = some value → ∃ text, re2 text = some value) ∧
      engine.literals = configuration.secretValues := by
  simp only [createEngine,bind_ok,pure_ok,mapM_ok] at ok
  obtain ⟨old,olds,builtin,builtins,custom,customs,rfl⟩ := ok
  obtain ⟨plain,key,diagnostic⟩ := redacted_marker
  have rules : ∀ rule ∈ old++(builtin++custom), IsMarker rule.marker ∧
      ∀ value, rule.value = some value → ∃ text, re2 text = some value := by
    intro rule member
    rcases List.mem_append.mp member with first | other
    · obtain ⟨p,listed,compiled⟩ := forall₂_mem olds first
      obtain ⟨values,marker⟩ := compile_ok compiled
      refine ⟨?_,values⟩
      have special : p.1.2.marker = none ∨ p.1.2.marker = some (units "[REDACTED PRIVATE KEY]") := by
        have known : ∀ p ∈ legacy, p.2.marker = none ∨ p.2.marker = some (units "[REDACTED PRIVATE KEY]") := by
          decide
        exact known p.1 (List.fst_mem_of_mem_zipIdx listed)
      rw [marker,if_pos rfl]
      rcases special with none | some_
      · rw [none]
        exact plain
      · rw [some_]
        exact key
    · rcases List.mem_append.mp other with second | third
      · obtain ⟨p,_,compiled⟩ := forall₂_mem builtins second
        obtain ⟨values,marker⟩ := compile_ok compiled
        exact ⟨by rw [marker,if_pos rfl]; exact plain,values⟩
      · obtain ⟨p,listed,compiled⟩ := forall₂_mem customs third
        obtain ⟨values,marker⟩ := compile_ok compiled
        refine ⟨?_,values⟩
        rw [marker,if_neg (by decide)]
        exact custom_marker (configuration.types p.1 (List.fst_mem_of_mem_zipIdx listed)).2.2
  refine ⟨?_,fun rule member => (rules rule member).2,rfl⟩
  intro marker member
  rw [Engine.markers,List.mem_reverse,List.mem_dedup,List.mem_reverse,List.mem_append] at member
  rcases member with ruled | fixed
  · obtain ⟨rule,known,rfl⟩ := List.mem_map.mp ruled
    exact (rules rule known).1
  · simp only [List.mem_cons,List.not_mem_nil,or_false] at fixed
    rcases fixed with rfl | rfl | rfl
    · exact plain
    · exact key
    · exact diagnostic

/-- A span that the engine is asked to hide: an occurrence of a literal, what a rule
captures, or the whole of a sensitive field. -/
inductive Engine.Captured (engine : Engine) (input : Text) (fieldName : Option Text) : Nat → Nat → Prop
  | literal (value start) (member : value ∈ engine.literals) (occurs : Occurs value input start) :
      Captured engine input fieldName start (start+value.length)
  | rule (rule start finish) (member : rule ∈ engine.rules) (finds : rule.Finds input fieldName start finish) :
      Captured engine input fieldName start finish
  | field (rule) (member : rule ∈ engine.rules) (hides : rule.Hides engine.markers input fieldName) :
      Captured engine input fieldName 0 input.length

/-- A span lies within a marker that was there before. -/
def Engine.Guarded (engine : Engine) (input : Text) (start finish : Nat) : Prop :=
  ∃ a b, engine.MarkerAt input a b ∧ a ≤ start ∧ finish ≤ b

/-- The output is the input with some regions replaced by markers. They cover what is
to be hidden, each is the union of overlapping candidates, and none cuts a marker. -/
structure Engine.Masks (engine : Engine) (input : Text) (fieldName : Option Text) (output : Text)
    (regions : List (Span Text)) (runs : List (Nat × Text)) : Prop where
  replaced : Span.Replaced 0 input regions runs output
  disjoint : regions.Pairwise Span.Before
  markers : ∀ r ∈ regions, r.mark ∈ engine.markers
  covers : ∀ start finish, engine.Captured input fieldName start finish → ¬ engine.Guarded input start finish →
    ∃ r ∈ regions, r.start ≤ start ∧ finish ≤ r.finish
  unions : ∃ candidates : List (Span Unit), (∀ x ∈ candidates, ∃ start finish,
    engine.Captured input fieldName start finish ∧ ¬ engine.Guarded input start finish ∧
      Extended engine input start finish x) ∧ ∀ r ∈ regions, Span.Joined candidates r
  literals : ∀ run ∈ runs, ∀ value ∈ engine.literals, ∀ k, Occurs value run.2 k →
    engine.Guarded input (run.1+k) (run.1+k+value.length)
  intact : ∀ a b, engine.MarkerAt input a b → ∀ r ∈ regions,
    b ≤ r.start ∨ r.finish ≤ a ∨ (r.start ≤ a ∧ b ≤ r.finish)

theorem replaced_masked (regions : List Found) (place : Nat) (order : regions.Pairwise Span.Before)
    (inside : ∀ r ∈ regions, place ≤ r.start ∧ r.start ≤ r.finish ∧ r.finish ≤ input.length) :
    ∃ runs, Span.Replaced place (input.drop place)
      (regions.map fun r => ⟨r.start,r.finish,r.mark.1.marker⟩) runs (masked input place regions) := by
  induction regions generalizing place with
  | nil => exact ⟨_,.done place _⟩
  | cons r regions ih =>
    obtain ⟨below,rest⟩ := List.pairwise_cons.mp order
    obtain ⟨after,filled,bounded⟩ := inside r List.mem_cons_self
    obtain ⟨runs,later⟩ := ih r.finish rest (by
      intro r' member
      have gap : r.finish ≤ r'.start := below r' member
      exact ⟨gap,(inside r' (List.mem_cons_of_mem _ member)).2⟩)
    have kept : ((input.take r.start).drop place).length = r.start-place := by
      rw [List.length_drop,List.length_take]
      omega
    have lost : ((input.take r.finish).drop r.start).length = r.finish-r.start := by
      rw [List.length_drop,List.length_take]
      omega
    have split : input.drop place =
        (input.take r.start).drop place++((input.take r.finish).drop r.start++input.drop r.finish) := by
      have second : (input.take r.finish).drop r.start++input.drop r.finish = input.drop r.start := by
        conv => rhs; rw [← List.take_append_drop r.finish input]
        rw [List.drop_append_of_le_length (by rw [List.length_take]; omega)]
      rw [second]
      conv => lhs; rw [← List.take_append_drop r.start input]
      rw [List.drop_append_of_le_length (by rw [List.length_take]; omega)]
    rw [split]
    exact ⟨_,.cut place _ _ _ ⟨r.start,r.finish,r.mark.1.marker⟩ _ runs _ (by change r.start = _; omega)
      (by change r.finish = r.start+_; omega) later⟩

theorem before_order (spans : List Found) : (spans.mergeSort before).Pairwise fun a b => a.start ≤ b.start := by
  have sorted : (spans.mergeSort before).Pairwise fun a b => before a b = true := by
    apply List.pairwise_mergeSort
    · intro a b c first second
      simp only [before,Bool.or_eq_true,Bool.and_eq_true,decide_eq_true_eq] at first second ⊢
      omega
    · intro a b
      simp only [before,Bool.or_eq_true,Bool.and_eq_true,decide_eq_true_eq]
      omega
  apply sorted.imp
  intro a b order
  simp only [before,Bool.or_eq_true,Bool.and_eq_true,decide_eq_true_eq] at order
  omega

theorem mem_markers {rule : Rule} (member : rule ∈ engine.rules ∨ rule = literalRule) :
    rule.marker ∈ engine.markers := by
  rw [Engine.markers,List.mem_reverse,List.mem_dedup,List.mem_reverse,List.mem_append]
  rcases member with known | rfl
  · exact .inl (List.mem_map.mpr ⟨rule,known,rfl⟩)
  · exact .inr List.mem_cons_self

section Text
variable {re2 : Text → Option Expression} {fieldName : Option Text}

theorem Rule.Finds.bounded (lawful : Lawful re2) {rule : Rule} {start finish : Nat}
    (known : ∀ value, rule.value = some value → ∃ text, re2 text = some value)
    (finds : rule.Finds input fieldName start finish) : start < finish ∧ finish ≤ input.length := by
  obtain ⟨_,_,value,compiled,found,member,captured,apart⟩ := finds
  obtain ⟨source,same⟩ := known value compiled
  obtain ⟨group,_,here⟩ := List.exists_of_findSome?_eq_some captured
  have bounds := lawful source value same input found member group start finish here
  omega

theorem Engine.Captured.bounded (lawful : Lawful re2)
    (known : ∀ rule ∈ engine.rules, ∀ value, rule.value = some value → ∃ text, re2 text = some value)
    (filled : ∀ v ∈ engine.literals, v ≠ []) {start finish : Nat}
    (captured : engine.Captured input fieldName start finish) : finish ≤ input.length := by
  cases captured with
  | literal value start member occurs => exact occurs.bounded (filled value member)
  | rule rule start finish member finds => exact (finds.bounded lawful (known rule member)).2
  | field rule member hides => exact Nat.le_refl _

theorem field_masks (lawful : Lawful re2) (marked : engine.Marked)
    (known : ∀ rule ∈ engine.rules, ∀ value, rule.value = some value → ∃ text, re2 text = some value)
    (filled : ∀ v ∈ engine.literals, v ≠ []) {rule : Rule} (member : rule ∈ engine.rules)
    (hides : rule.Hides engine.markers input fieldName) :
    engine.Masks input fieldName rule.marker [⟨0,input.length,rule.marker⟩] [(0,[]),(input.length,[])] where
  replaced := by
    have whole := Span.Replaced.cut 0 [] input [] ⟨0,input.length,rule.marker⟩ [] _ [] rfl (by simp) (.done _ _)
    simpa using whole
  disjoint := List.pairwise_singleton _ _
  markers r here := by
    rw [List.mem_singleton.mp here]
    exact mem_markers (.inl member)
  covers start finish captured _ :=
    ⟨_,List.mem_singleton_self _,Nat.zero_le _,captured.bounded lawful known filled⟩
  unions := by
    refine ⟨[⟨0,input.length,()⟩],?_,?_⟩
    · intro x here
      rw [List.mem_singleton.mp here]
      refine ⟨_,_,.field rule member hides,?_,⟨⟨Nat.le_refl _,Nat.le_refl _⟩,.inl rfl,.inl rfl,?_⟩⟩
      · -- a marker around the field would be the field
        rintro ⟨a,b,⟨marker,listed,occurs,ends⟩,first,last⟩
        have start : a = 0 := Nat.le_zero.mp first
        subst start
        have size : input.length ≤ marker.length := by
          omega
        have same : marker = input := occurs.eq_of_length_le size
        exact hides.2.2.2 (same ▸ listed)
      · intro a b here _ _
        exact ⟨Nat.zero_le _,(here.filled marked).2⟩
    · intro r here
      rw [List.mem_singleton.mp here]
      refine ⟨⟨_,List.mem_singleton_self _,rfl,Nat.le_refl _,Nat.le_refl _⟩,
        ⟨_,List.mem_singleton_self _,rfl,Nat.le_refl _,Nat.le_refl _⟩,?_⟩
      intro p above below
      exact ⟨_,List.mem_singleton_self _,⟨Nat.le_refl _,Nat.le_refl _⟩,above,below⟩
  literals run here value listed k occurs := by
    have empty : run.2 = [] := by
      simp only [List.mem_cons,List.not_mem_nil,or_false] at here
      rcases here with rfl | rfl <;> rfl
    rw [empty,Occurs,List.drop_nil,List.prefix_nil] at occurs
    exact absurd occurs (filled value listed)
  intact a b here r listed := by
    rw [List.mem_singleton.mp listed]
    exact .inr (.inr ⟨Nat.zero_le _,(here.filled marked).2⟩)

theorem Extended.intact {π : Type} (marked : engine.Marked) {start finish : Nat} {x : Span π}
    (extended : Extended engine input start finish x) {a b p : Nat} (here : engine.MarkerAt input a b)
    (inside : a ≤ p ∧ p < b) (within : x.start ≤ p ∧ p < x.finish) :
    x.start ≤ a ∧ b ≤ x.finish := by
  by_cases left : p < start
  · -- the place belongs to the marker that the candidate was extended over
    rcases extended.starts with same | ⟨b',there,before,after⟩
    · omega
    · have same := there.apart marked here
      have crossing := extended.crossing _ _ there before after
      omega
  · by_cases right : finish ≤ p
    · rcases extended.finishes with same | ⟨a',there,before,after⟩
      · omega
      · have same := there.apart marked here
        have crossing := extended.crossing _ _ there before after
        omega
    · exact extended.crossing a b here (by omega) (by omega)

theorem regions_masks (lawful : Lawful re2) (marked : engine.Marked)
    (known : ∀ rule ∈ engine.rules, ∀ value, rule.value = some value → ∃ text, re2 text = some value)
    (filled : ∀ v ∈ engine.literals, v ≠ []) (shown : ∀ rule ∈ engine.rules, ¬ rule.Hides engine.markers input fieldName)
    {c : Collected} (collected : ∀ x, x ∈ c.spans ↔
      (∃ r ∈ engine.rules.zipIdx, ∃ start finish, r.1.Finds input fieldName start finish ∧
        place (engine.protectedSpans input) ⟨start,finish,r⟩ = some x) ∨
      ∃ span ∈ literalMatcher engine.literals input,
        place (engine.protectedSpans input) ⟨span.1,span.2,literalRule,engine.rules.length⟩ = some x) :
    ∃ regions runs, engine.Masks input fieldName (masked input 0 (Engine.regions c)) regions runs := by
  have sources : ∀ x ∈ c.spans, ∃ start finish, start < finish ∧ finish ≤ input.length ∧
      engine.Captured input fieldName start finish ∧ ¬ engine.Guarded input start finish ∧
      Extended engine input start finish x ∧ x.mark.1.marker ∈ engine.markers := by
    intro x member
    rcases (collected x).mp member with ⟨r,listed,start,finish,finds,placed⟩ | ⟨span,listed,placed⟩
    · have rule := List.fst_mem_of_mem_zipIdx listed
      obtain ⟨nonempty,bounded⟩ := finds.bounded lawful (known r.1 rule)
      obtain ⟨extended,free⟩ := (place_spec marked _).2 x placed
      refine ⟨start,finish,nonempty,bounded,.rule r.1 start finish rule finds,free nonempty,extended,?_⟩
      rw [place_mark placed]
      exact mem_markers (.inl rule)
    · obtain ⟨value,member,occurs,ends⟩ := (literalMatcher_mem filled input span.1 span.2).mp listed
      have positive := List.length_pos_iff.mpr (filled value member)
      have bounded := occurs.bounded (filled value member)
      obtain ⟨extended,free⟩ := (place_spec marked _).2 x placed
      refine ⟨span.1,span.2,by omega,by omega,?_,free (by change span.1 < span.2; omega),extended,?_⟩
      · rw [ends]
        exact .literal value span.1 member occurs
      · rw [place_mark placed]
        exact mem_markers (.inr rfl)
  have wide : ∀ x ∈ c.spans, x.start < x.finish ∧ x.finish ≤ input.length := by
    intro x member
    obtain ⟨start,finish,nonempty,bounded,_,_,extended,_⟩ := sources x member
    have holds := extended.holds
    rcases extended.finishes with same | ⟨a,here,_⟩
    · omega
    · have := here.filled marked
      omega
  obtain ⟨disjoint,inside,joined⟩ := Span.merge_spec prefer (before_order c.spans)
  have part : ∀ x, x ∈ c.spans.mergeSort before ↔ x ∈ c.spans := fun x => List.mem_mergeSort
  have regions : ∀ r ∈ Engine.regions c, r.start < r.finish ∧ r.finish ≤ input.length := by
    intro r member
    obtain ⟨⟨a,first,starts,within⟩,⟨b,last,finishes,_⟩,_⟩ := joined r member
    have := wide a ((part a).mp first)
    have := wide b ((part b).mp last)
    have ends : a.finish ≤ r.finish := within.2
    omega
  obtain ⟨runs,replaced⟩ := replaced_masked (Engine.regions c) 0 disjoint
    fun r member => ⟨Nat.zero_le _,(regions r member).1.le,(regions r member).2⟩
  have covers : ∀ start finish, engine.Captured input fieldName start finish →
      ¬ engine.Guarded input start finish → ∃ r ∈ Engine.regions c, r.start ≤ start ∧ finish ≤ r.finish := by
    intro start finish captured free
    have placed : ∀ s : Found, s.start = start → s.finish = finish →
        (∀ x, place (engine.protectedSpans input) s = some x → x ∈ c.spans) →
        ∃ r ∈ Engine.regions c, r.start ≤ start ∧ finish ≤ r.finish := by
      intro s starts finishes listed
      cases put : place (engine.protectedSpans input) s with
      | none =>
        obtain ⟨a,b,here,above,below⟩ := (place_spec marked s).1 put
        exact absurd ⟨a,b,here,by omega,by omega⟩ free
      | some x =>
        obtain ⟨r,member,within⟩ := inside x ((part x).mpr (listed x put))
        have holds := ((place_spec marked s).2 x put).1.holds
        have bounds : r.start ≤ x.start ∧ x.finish ≤ r.finish := within
        exact ⟨r,member,by omega,by omega⟩
    cases captured with
    | literal value start member occurs =>
      apply placed ⟨start,start+value.length,literalRule,engine.rules.length⟩ rfl rfl
      intro x put
      have listed := (literalMatcher_mem filled input start _).mpr ⟨value,member,occurs,rfl⟩
      exact (collected x).mpr (.inr ⟨_,listed,put⟩)
    | rule rule start finish member finds =>
      obtain ⟨i,below,same⟩ := List.mem_iff_getElem.mp member
      have listed : (rule,i) ∈ engine.rules.zipIdx := by
        rw [List.mk_mem_zipIdx_iff_getElem?,List.getElem?_eq_getElem below,same]
      apply placed ⟨start,finish,rule,i⟩ rfl rfl
      intro x put
      exact (collected x).mpr (.inl ⟨(rule,i),listed,start,finish,finds,put⟩)
    | field rule member hides => exact absurd hides (shown rule member)
  have apart := replaced.apart.2
  refine ⟨_,runs,replaced,?_,?_,?_,?_,?_,?_⟩
  · rw [List.pairwise_map]
    exact disjoint
  · intro r member
    obtain ⟨r',listed,rfl⟩ := List.mem_map.mp member
    have keep : ∀ a b : Rule × Nat, a.1.marker ∈ engine.markers → b.1.marker ∈ engine.markers →
        (prefer a b).1.marker ∈ engine.markers := by
      intro a b first second
      unfold prefer
      split
      · exact second
      · exact first
    apply Span.merge_mark keep _ r' listed
    intro s here
    obtain ⟨_,_,_,_,_,_,_,marker⟩ := sources s ((part s).mp here)
    exact marker
  · intro start finish captured free
    obtain ⟨r,member,bounds⟩ := covers start finish captured free
    exact ⟨_,List.mem_map.mpr ⟨r,member,rfl⟩,bounds⟩
  · refine ⟨(c.spans.mergeSort before).map fun s => ⟨s.start,s.finish,()⟩,?_,?_⟩
    · intro x member
      obtain ⟨s,listed,rfl⟩ := List.mem_map.mp member
      obtain ⟨start,finish,_,_,captured,free,extended,_⟩ := sources s ((part s).mp listed)
      exact ⟨start,finish,captured,free,extended.holds,extended.starts,extended.finishes,extended.crossing⟩
    · intro r member
      obtain ⟨r',listed,rfl⟩ := List.mem_map.mp member
      exact (joined r' listed).remark (fun _ => ()) _
  · intro run member value listed k occurs
    by_contra free
    have positive := List.length_pos_iff.mpr (filled value listed)
    have size := occurs.bounded (filled value listed)
    have stands : Occurs value input (run.1+k) := by
      obtain ⟨rest,split⟩ := replaced.run member
      rw [Nat.sub_zero,List.drop_zero] at split
      rw [← Occurs.drop,← split,Occurs,List.drop_append_of_le_length (by omega)]
      exact occurs.trans (List.prefix_append _ _)
    obtain ⟨r,known',bounds⟩ := covers _ _ (.literal value _ listed stands) free
    have gap := (apart run member).2 _ (List.mem_map.mpr ⟨r,known',rfl⟩)
    simp only at gap
    omega
  · intro a b here r member
    obtain ⟨r',listed,rfl⟩ := List.mem_map.mp member
    by_cases left : b ≤ r'.start
    · exact .inl left
    · by_cases right : r'.finish ≤ a
      · exact .inr (.inl right)
      · refine .inr (.inr ?_)
        have filled' := here.filled marked
        have nonempty := (regions r' listed).1
        have between : r'.start ≤ max a r'.start ∧ max a r'.start < r'.finish := by omega
        obtain ⟨s,known',within,place⟩ := (joined r' listed).covers
          (fun s here => (wide s ((part s).mp here)).1) between.1 between.2
        obtain ⟨start,finish,_,_,_,_,extended,_⟩ := sources s ((part s).mp known')
        have holds := extended.intact marked here ⟨Nat.le_max_left _ _,by omega⟩ place
        have bounds : r'.start ≤ s.start ∧ s.finish ≤ r'.finish := within
        change r'.start ≤ a ∧ b ≤ r'.finish
        omega

end Text

end ATape.Redaction
