import ATape.Foundation.Outcome
import ATape.Foundation.Spans
import ATape.Redaction.Catalog
import Mathlib.Data.List.Dedup

/-! The engine of the redaction: what each rule and each literal matches in a text
is merged into regions, and each region is replaced by a marker. -/
namespace ATape.Redaction
open Foundation

inductive UnsafeRedaction
  | limit | redaction | expression
deriving DecidableEq

def ContentBytes : Nat := 32*1024*1024

def lonelyBytes (unit : UInt16) : Nat := if unit < 0x80 then 1 else if unit < 0x800 then 2 else 3

/-- The size of a text as UTF-8, where a lone surrogate becomes U+FFFD. -/
def bytes : Text → Nat
  | [] => 0
  | [unit] => lonelyBytes unit
  | unit::next::rest =>
    if 0xD800 ≤ unit ∧ unit ≤ 0xDBFF ∧ 0xDC00 ≤ next ∧ next ≤ 0xDFFF then 4+bytes rest
    else lonelyBytes unit+bytes (next::rest)

/-- A compiled regular expression: for each match in a text the span of each group
that took part in it. -/
structure Expression where
  groupCount : Nat
  finds : Text → List (Nat → Option (Nat × Nat))

def Expression.find (e : Expression) (text : Text) : Bool := !(e.finds text).isEmpty

structure Rule where
  id : String
  type : Text
  value : Option Expression
  field : Option Expression
  groups : List Nat
  marker : Text
  skipEmptyCapture : Bool
  candidate : Option (Text → Bool)

structure RuleStats where
  id : String
  type : Text
  found : Nat

structure Report where
  found : Nat
  rules : Table String RuleStats

def record (report : Report) (rule : Rule) : Except UnsafeRedaction Report := do
  failWhen (10000 < report.found+1) .limit
  pure ⟨report.found+1,report.rules.insert rule.id
    ⟨rule.id,rule.type,((report.rules.lookup rule.id).map (·.found)).getD 0+1⟩⟩

/-- What a user configures. A type is a short ASCII name; a literal is neither short
nor very long. -/
structure RedactionConfiguration where
  patterns : List RedactionPattern
  secretValues : List Text
  types : ∀ p ∈ patterns, 1 ≤ p.type.length ∧ p.type.length ≤ 40 ∧
    ∀ c ∈ p.type, 48 ≤ c ∧ c ≤ 57 ∨ 65 ≤ c ∧ c ≤ 90 ∨ 97 ≤ c ∧ c ≤ 122 ∨ c = 95 ∨ c = 45
  lengths : ∀ v ∈ secretValues, 8 ≤ v.length ∧ v.length ≤ 4096

def upperCase (c : UInt16) : UInt16 := if 97 ≤ c ∧ c ≤ 122 then c-32 else c

def redacted : Text := units "[REDACTED]"

def compileExpression (re2 : Text → Option Expression) : Option Text → Except UnsafeRedaction (Option Expression)
  | none => pure none
  | some source =>
    match re2 source with
    | none => .error .expression
    | some e => pure (some e)

/-- Compiles a pattern, which may not match the empty text. -/
def compile (re2 : Text → Option Expression) (pattern : RedactionPattern) (special : Special) (id : String)
    (builtin : Bool) : Except UnsafeRedaction Rule := do
  let value ← compileExpression re2 pattern.pattern
  let field ← compileExpression re2 pattern.field_pattern
  failWhen ((value.map (·.groupCount)).getD 0 < pattern.capture_group.getD 0 ∨ value.any (·.find []) = true)
    .redaction
  pure
    { id
      type := pattern.type
      value
      field
      groups := special.groups.getD [pattern.capture_group.getD 0]
      marker :=
        if builtin then special.marker.getD redacted
        else units "[REDACTED:"++pattern.type.map upperCase++units "]"
      skipEmptyCapture := builtin
      candidate := if builtin then candidateOf pattern else none }

structure Engine where
  rules : List Rule
  literals : List Text

def createEngine (re2 : Text → Option Expression) (configuration : RedactionConfiguration) :
    Except UnsafeRedaction Engine := do
  let old ← legacy.zipIdx.mapM fun p => compile re2 p.1.1 p.1.2 ("atape:"++toString p.2) true
  let builtin ← catalog.zipIdx.mapM fun p => compile re2 p.1 .none ("catalog:"++toString p.2) true
  let custom ← configuration.patterns.zipIdx.mapM fun p => compile re2 p.1 .none ("custom:"++toString p.2) false
  pure ⟨old++(builtin++custom),configuration.secretValues⟩

def literalRule : Rule := ⟨"exact",units "exact_value",none,none,[0],redacted,false,none⟩

def Engine.markers (engine : Engine) : List Text :=
  (engine.rules.map (·.marker)++
    [redacted,units "[REDACTED PRIVATE KEY]",units "[REDACTED DIAGNOSTIC]"]).reverse.dedup.reverse

/-! Existing markers -/

/-- The places of a marker, each after the one before. -/
def markerSpans (input marker : Text) : Nat → Nat → List (Span Unit)
  | 0,_ => []
  | fuel+1,offset =>
    match indexOf marker (input.drop offset) offset with
    | none => []
    | some found => ⟨found,found+marker.length,()⟩::markerSpans input marker fuel (found+marker.length)

def Engine.protectedSpans (engine : Engine) (input : Text) : List (Span Unit) :=
  if includes input (units "[REDACTED") then
    (engine.markers.flatMap fun marker => markerSpans input marker (input.length+1) 0).mergeSort
      fun left right => left.start ≤ right.start
  else []

/-! Candidates -/

abbrev Found := Span (Rule × Nat)

/-- Extends a span over the markers that it crosses. -/
def extend : List (Span Unit) → Found → Found
  | [],span => span
  | marker::others,span =>
    if span.finish ≤ marker.start then span
    else if span.start < marker.finish then
      extend others {span with start := min span.start marker.start, finish := max span.finish marker.finish}
    else extend others span

/-- The span as it is masked, unless it lies in a marker. -/
def place (guarded : List (Span Unit)) (span : Found) : Option Found :=
  let low := Span.search guarded span.start (guarded.length+1) 0 guarded.length
  if (guarded[low]?).any fun first => first.start ≤ span.start && span.finish ≤ first.finish then none
  else some (extend (guarded.drop low) span)

structure Collected where
  candidatesSeen : Nat
  spans : List Found

def add (guarded : List (Span Unit)) (c : Collected) (span : Found) : Except UnsafeRedaction Collected := do
  failWhen (100000 < c.candidatesSeen+1) .limit
  match place guarded span with
  | none => pure {c with candidatesSeen := c.candidatesSeen+1}
  | some placed => do
    failWhen (10000 ≤ c.spans.length) .limit
    pure ⟨c.candidatesSeen+1,c.spans++[placed]⟩

def Rule.capture (rule : Rule) (found : Nat → Option (Nat × Nat)) : Option (Nat × Nat) := rule.groups.findSome? found

def addMatch (guarded : List (Span Unit)) (rule : Rule) (priority : Nat) (c : Collected)
    (found : Nat → Option (Nat × Nat)) : Except UnsafeRedaction Collected :=
  match rule.capture found with
  | none => pure c
  | some (start,finish) =>
    if finish = start then if rule.skipEmptyCapture then pure c else .error .redaction
    else add guarded c ⟨start,finish,rule,priority⟩

def Rule.applies (rule : Rule) (fieldName : Option Text) : Bool :=
  rule.field.all fun field => fieldName.any fun name => name ≠ [] && field.find name

def Rule.hinted (rule : Rule) (input : Text) : Bool := rule.candidate.all fun candidate => candidate input

def collectRules (guarded : List (Span Unit)) (markers : List Text) (input : Text) (fieldName : Option Text) :
    List (Rule × Nat) → Collected → Except UnsafeRedaction (Rule ⊕ Collected)
  | [],c => pure (.inr c)
  | (rule,priority)::rules,c =>
    if rule.applies fieldName then
      match rule.value with
      | none =>
        if rule.field.isSome ∧ input ∉ markers then pure (.inl rule)
        else collectRules guarded markers input fieldName rules c
      | some value =>
        if rule.hinted input then do
          let c ← (value.finds input).foldlM (addMatch guarded rule priority) c
          collectRules guarded markers input fieldName rules c
        else collectRules guarded markers input fieldName rules c
    else collectRules guarded markers input fieldName rules c

/-! The masked text -/

def before (left right : Found) : Bool :=
  left.start < right.start ||
    left.start = right.start && (right.finish < left.finish ||
      left.finish = right.finish && left.mark.2 ≤ right.mark.2)

/-- The rule of the smaller place. -/
def prefer (prior next : Rule × Nat) : Rule × Nat := if next.2 < prior.2 then next else prior

/-- The text from a place on, with the spans replaced by the markers of their rules. -/
def masked (input : Text) : Nat → List Found → Text
  | finish,[] => input.drop finish
  | finish,span::spans =>
    (input.take span.start).drop finish++(span.mark.1.marker++masked input span.finish spans)

def Engine.regions (c : Collected) : List Found := Span.merge prefer (c.spans.mergeSort before)

def Engine.text (engine : Engine) (input : Text) (output : Report) (fieldName : Option Text) :
    Except UnsafeRedaction (Text × Report) := do
  failWhen (ContentBytes < bytes input) .limit
  let guarded := engine.protectedSpans input
  failWhen (10000 < guarded.length) .limit
  let collected ← collectRules guarded engine.markers input fieldName engine.rules.zipIdx ⟨0,[]⟩
  match collected with
  | .inl rule => do
    let output ← record output rule
    pure (rule.marker,output)
  | .inr c => do
    let c ← (literalMatcher engine.literals input).foldlM
      (fun c span => add guarded c ⟨span.1,span.2,literalRule,engine.rules.length⟩) c
    let output ← (regions c).foldlM (fun output span => record output span.mark.1) output
    failWhen (ContentBytes < bytes (masked input 0 (regions c))) .limit
    pure (masked input 0 (regions c),output)

end ATape.Redaction
