import ATape.Go.Reading
import ATape.Ingestion.Message

/-! Where the ingestor panics: a time of a zone of a day or more is read, but cannot be written for
its digest. -/
namespace ATape.Ingestion
open Foundation Go SourceIdentity Authorization
open Canonical (SessionRecord ThreadRecord EventRecord UsageRecord WriteBatch timeJson sourceTimeJson)

theorem bind_error {ε α β : Type} (first : Except ε α) (next : α → Except ε β) (failure : ε) :
    (first >>= next) = .error failure ↔
      first = .error failure ∨ ∃ value, first = .ok value ∧ next value = .error failure := by
  cases first with
  | error other => simp [bind,Except.bind]
  | ok value => simp [bind,Except.bind]

def Panics {α : Type} (run : Except Rejection α) : Prop := ∃ message, run = .error (.panic message)

def Passes {α : Type} (run : Except Rejection α) : Prop := ∃ value, run = .ok value

/-- A timestamp that is read, of a zone of a day or more. -/
def Far (value : String) : Prop :=
  ∃ t, parseRFC3339 value = some t ∧ t.truncateMicrosecond.isZero = false ∧ 1440 ≤ t.offset.natAbs

section Steps
variable {α β γ : Type} {far : Prop}

theorem passes_bind {first : Except Rejection α} {next : α → Except Rejection β} :
    Passes (first >>= next) ↔ ∃ value, first = .ok value ∧ Passes (next value) := by
  simp only [Passes,bind_ok]
  tauto

theorem panics_bind {first : Except Rejection α} {next : α → Except Rejection β} :
    Panics (first >>= next) ↔ Panics first ∨ ∃ value, first = .ok value ∧ Panics (next value) := by
  simp only [Panics,bind_error]
  constructor
  · rintro ⟨message,early|⟨value,ok,late⟩⟩
    · exact .inl ⟨message,early⟩
    · exact .inr ⟨value,ok,message,late⟩
  · rintro (⟨message,early⟩|⟨value,ok,message,late⟩)
    · exact ⟨message,.inl early⟩
    · exact ⟨message,.inr ⟨value,ok,late⟩⟩

theorem calm_failWhen (bad : Prop) [Decidable bad] (field text : String) :
    ¬Panics (failWhen bad (.validation field text)) := by
  rintro ⟨message,panics⟩
  unfold failWhen at panics
  split at panics <;> cases panics

theorem calm_present (value : Option α) (field text : String) : ¬Panics (present value (.validation field text)) := by
  rintro ⟨message,panics⟩
  cases value <;> cases panics

theorem calm_bind {first : Except Rejection α} {next : α → Except Rejection β} (early : ¬Panics first)
    (late : ∀ value, ¬Panics (next value)) : ¬Panics (first >>= next) := by
  rw [panics_bind]
  rintro (panics|⟨value,-,panics⟩)
  · exact early panics
  · exact late value panics

theorem calm_pure (value : α) : ¬Panics (pure value) := by
  rintro ⟨message,panics⟩
  cases panics

theorem panics_behind {first : Except Rejection α} (calm : ¬Panics first) {next : α → Except Rejection β}
    {next' : α → Except Rejection γ} (later : ∀ value, Panics (next value) ↔ far ∧ Passes (next' value)) :
    Panics (first >>= next) ↔ far ∧ Passes (first >>= next') := by
  rw [panics_bind,passes_bind]
  constructor
  · rintro (panics|⟨value,ok,panics⟩)
    · exact absurd panics calm
    · exact ⟨((later value).mp panics).1,value,ok,((later value).mp panics).2⟩
  · rintro ⟨holds,value,ok,passes⟩
    exact .inr ⟨value,ok,(later value).mpr ⟨holds,passes⟩⟩

end Steps

theorem calm_required (field value : String) (maxBytes : Nat) : ¬Panics (required field value maxBytes) :=
  calm_bind (calm_failWhen _ _ _) fun _ => calm_failWhen _ _ _

theorem calm_timestamp (field value : String) : ¬Panics (timestamp field value) :=
  calm_bind (calm_present _ _ _) fun _ => calm_bind (calm_failWhen _ _ _) fun _ => calm_pure _

theorem far_read {field value : String} (far : Far value) : ∃ t, timestamp field value = .ok t := by
  obtain ⟨t,read,known,-⟩ := far
  exact ⟨t,by simp [timestamp,read,known,present,failWhen,bind,Except.bind,pure,Except.pure]⟩

theorem far_written {field value : String} {t : Time} (read : timestamp field value = .ok t) :
    t.isZero = false ∧ (t.marshalText = none ↔ Far value) := by
  obtain ⟨parsed,known⟩ := timestamp_ok read
  refine ⟨?_,?_⟩
  · rw [← Bool.not_eq_true]
    intro zero
    rw [truncate_zero t zero] at known
    cases known
  · have strict := parse_strict parsed
    unfold Time.marshalText
    constructor
    · intro unwritten
      refine ⟨t,parsed,known,Nat.not_lt.mp ?_⟩
      intro short
      rw [if_pos (strict.mpr short)] at unwritten
      cases unwritten
    · rintro ⟨u,same,-,long⟩
      cases parsed.symm.trans same
      exact if_neg fun written => Nat.not_lt.mpr long (strict.mp written)

section Timestamps
variable {β γ : Type}

theorem panics_timestamp {field value : String} {next : Time → Except Rejection β} {next' : Time → Except Rejection γ}
    (later : ∀ t, timestamp field value = .ok t → (Panics (next t) ↔ Far value ∧ Passes (next' momentTime))) :
    Panics (timestamp field value >>= next) ↔ Far value ∧ Passes (timestamp field moment >>= next') := by
  rw [panics_bind,moment_read,passes_bind]
  constructor
  · rintro (panics|⟨t,read,panics⟩)
    · exact absurd panics (calm_timestamp _ _)
    · exact ⟨((later t read).mp panics).1,momentTime,rfl,((later t read).mp panics).2⟩
  · rintro ⟨far,_,⟨⟩,passes⟩
    obtain ⟨t,read⟩ := @far_read field value far
    exact .inr ⟨t,read,(later t read).mpr ⟨far,passes⟩⟩

theorem panics_sourceTimestamp {field value profile : String} {unknown : Bool} {next : Time → Except Rejection β}
    {next' : Time → Except Rejection γ} (absent : ¬Panics (next .zero))
    (later : ∀ t, timestamp field value = .ok t → (Panics (next t) ↔ Far value ∧ Passes (next' momentTime))) :
    Panics (sourceTimestamp field value unknown profile >>= next) ↔
      Far value ∧ Passes (sourceTimestamp field moment unknown profile >>= next') := by
  cases unknown with
  | false => exact panics_timestamp later
  | true =>
    have other : moment ≠ "" := by decide
    simp only [sourceTimestamp,if_true,other,ne_eq,not_false_eq_true,or_true]
    constructor
    · intro panics
      rcases panics_bind.mp panics with early|⟨t,ok,late⟩
      · exact absurd early (calm_bind (calm_failWhen _ _ _) fun _ => calm_pure _)
      · obtain ⟨-,-,ok⟩ := (bind_ok _ _ _).mp ok
        cases ok
        exact absurd late absent
    · rintro ⟨-,_,passes⟩
      cases passes

end Timestamps

theorem panics_digest {h : Hash} {body : Option Json} : Panics (digest h body) ↔ body = none := by
  cases body with
  | none => exact ⟨fun _ => rfl,fun _ => ⟨_,rfl⟩⟩
  | some body =>
    constructor
    · rintro ⟨message,panics⟩
      cases panics
    · intro none_
      cases none_

theorem panics_digested {h : Hash} {body : Option Json} {α : Type} (record : String → α) :
    Panics (digest h body >>= fun d => pure (record d)) ↔ body = none := by
  rw [panics_bind,panics_digest]
  constructor
  · rintro (none_|⟨_,-,panics⟩)
    · exact none_
    · exact absurd panics (calm_pure _)
  · exact .inl

theorem passes_digested {h : Hash} {body : Option Json} {α : Type} (record : String → α) :
    Passes (digest h body >>= fun d => pure (record d)) ↔ body ≠ none := by
  cases body with
  | none =>
    constructor
    · rintro ⟨_,ok⟩
      cases ok
    · exact fun some_ => absurd rfl some_
  | some body => exact ⟨fun _ => Option.some_ne_none _,fun _ => ⟨_,rfl⟩⟩

theorem timeJson_none {t : Time} : timeJson t = none ↔ t.marshalText = none := Option.map_eq_none_iff

theorem sourceTimeJson_none {t : Time} (known : t.isZero = false) : sourceTimeJson t = none ↔ t.marshalText = none := by
  rw [sourceTimeJson,known,if_neg Bool.false_ne_true,Option.map_eq_none_iff,timeJson_none]

theorem zero_written : ∃ j, timeJson .zero = some j :=
  Option.isSome_iff_exists.mp moment_written.2.2

theorem event_unwritten {e : EventRecord} (observed : e.observedAt = .zero) (received : e.receivedAt = .zero) :
    e.json = none ↔ sourceTimeJson e.occurredAt = none := by
  obtain ⟨j,zero⟩ := zero_written
  rw [EventRecord.json,observed,received,zero]
  cases sourceTimeJson e.occurredAt with
  | none => exact ⟨fun _ => rfl,fun _ => rfl⟩
  | some occurred => exact ⟨fun none_ => absurd none_ (Option.some_ne_none _),fun none_ => absurd none_ (Option.some_ne_none _)⟩

theorem calm_error {α : Type} (field text : String) :
    ¬Panics (.error (.validation field text) : Except Rejection α) := by
  rintro ⟨message,panics⟩
  cases panics

theorem calm_optional (field value : String) (maxBytes : ℕ) : ¬Panics (optional field value maxBytes) :=
  calm_failWhen _ _ _

theorem calm_rawReference (h : Hash) (principal : Principal) (batch : Batch) (sessionID field : String)
    (reference : RawReference) : ¬Panics (normalizeRawReference h principal batch sessionID field reference) := by
  unfold normalizeRawReference
  split
  next =>
    refine calm_bind (calm_required _ _ _) fun _ => ?_
    refine calm_bind (calm_optional _ _ _) fun _ => ?_
    exact calm_bind (calm_failWhen _ _ _) fun _ => calm_pure _
  next =>
    split
    next =>
      refine calm_bind (calm_required _ _ _) fun _ => ?_
      exact calm_bind (calm_failWhen _ _ _) fun _ => calm_pure _
    next => exact calm_error _ _

theorem calm_toolProjection (profile field : String) (input : Event) : ¬Panics (toolProjection profile field input) := by
  unfold toolProjection
  split
  next => exact calm_pure _
  next =>
    refine calm_bind (calm_failWhen _ _ _) fun _ => ?_
    refine calm_bind (calm_present _ _ _) fun tool => ?_
    refine calm_bind (calm_failWhen _ _ _) fun _ => ?_
    refine calm_bind (calm_failWhen _ _ _) fun _ => ?_
    refine calm_bind (calm_failWhen _ _ _) fun _ => ?_
    exact calm_bind (calm_failWhen _ _ _) fun _ => calm_pure _

theorem calm_childThread (ids : Table String String) (field : String) (child : Option String) :
    ¬Panics (childThread ids field child) := by
  cases child with
  | none => exact calm_pure _
  | some source => exact calm_bind (calm_present _ _ _) fun _ => calm_pure _

theorem panics_record {h : Hash} {α : Type} {field value : String} {t : Time} {body body' : Option Json}
    (read : timestamp field value = .ok t) (unwritten : body = none ↔ t.marshalText = none) (written : body' ≠ none)
    (record record' : String → α) :
    Panics (digest h body >>= fun d => pure (record d)) ↔
      Far value ∧ Passes (digest h body' >>= fun d => pure (record' d)) := by
  rw [panics_digested,passes_digested,unwritten,(far_written read).2]
  exact ⟨fun far => ⟨far,written⟩,fun both => both.1⟩

section Records
variable {h : Hash} {principal : Principal} {batch : Batch} {scope sessionID : String} {ids : Table String String}

theorem normalizeEvent_panics {index : ℕ} {seen : List String} {input : Event} :
    Panics (normalizeEvent h principal batch scope sessionID ids index seen input) ↔ Far input.occurredAt ∧
      Passes (normalizeEvent h principal batch scope sessionID ids index seen {input with occurredAt := moment}) := by
  unfold normalizeEvent
  refine panics_behind (calm_required _ _ _) fun _ => ?_
  refine panics_behind (calm_failWhen _ _ _) fun _ => ?_
  refine panics_behind (calm_present _ _ _) fun threadID => ?_
  refine panics_behind (calm_failWhen _ _ _) fun _ => ?_
  refine panics_behind (calm_failWhen _ _ _) fun _ => ?_
  refine panics_behind (calm_failWhen _ _ _) fun _ => ?_
  refine panics_behind (calm_failWhen _ _ _) fun _ => ?_
  refine panics_behind (calm_failWhen _ _ _) fun _ => ?_
  refine panics_behind (calm_failWhen _ _ _) fun _ => ?_
  refine panics_behind (calm_rawReference _ _ _ _ _ _) fun rawRef => ?_
  refine panics_behind (calm_failWhen _ _ _) fun _ => ?_
  refine panics_behind (calm_required _ _ _) fun _ => ?_
  refine panics_behind (calm_required _ _ _) fun _ => ?_
  refine panics_sourceTimestamp ?_ fun t read => ?_
  · refine calm_bind (calm_failWhen _ _ _) fun _ => ?_
    refine calm_bind (calm_toolProjection _ _ _) fun _ => ?_
    refine calm_bind (calm_childThread _ _ _) fun _ => ?_
    rw [panics_digested,event_unwritten rfl rfl]
    exact Option.some_ne_none none
  · refine panics_behind (calm_failWhen _ _ _) fun _ => ?_
    refine panics_behind (calm_toolProjection _ _ _) fun _ => ?_
    refine panics_behind (calm_childThread _ _ _) fun _ => ?_
    refine panics_record read ?_ ?_ _ _
    · rw [event_unwritten rfl rfl]
      exact sourceTimeJson_none (far_written read).1
    · rw [ne_eq,event_unwritten rfl rfl,moment_written.2.1]
      exact Option.some_ne_none _

theorem normalizeUsageRecord_panics {index : ℕ} {seen : List String} {input : Usage} :
    Panics (normalizeUsageRecord h scope sessionID ids index seen input) ↔ Far input.occurredAt ∧
      Passes (normalizeUsageRecord h scope sessionID ids index seen {input with occurredAt := moment}) := by
  unfold normalizeUsageRecord
  refine panics_behind (calm_required _ _ _) fun _ => ?_
  refine panics_behind (calm_present _ _ _) fun threadID => ?_
  refine panics_behind (calm_failWhen _ _ _) fun _ => ?_
  refine panics_behind (calm_failWhen _ _ _) fun _ => ?_
  refine panics_behind (calm_failWhen _ _ _) fun _ => ?_
  refine panics_timestamp fun t read => ?_
  refine panics_behind (calm_failWhen _ _ _) fun _ => ?_
  refine panics_behind (calm_failWhen _ _ _) fun _ => ?_
  refine panics_behind (calm_failWhen _ _ _) fun _ => ?_
  refine panics_record read ?_ ?_ _ _
  · rw [UsageRecord.json,Option.map_eq_none_iff,timeJson_none]
  · rw [ne_eq,UsageRecord.json,Option.map_eq_none_iff,moment_written.1]
    exact Option.some_ne_none _

theorem calm_collectThreadIDs (index : ℕ) (threads : List Thread) (ids : Table String String) :
    ¬Panics (collectThreadIDs h scope index ids threads) := by
  induction threads generalizing index ids with
  | nil => exact calm_pure _
  | cons thread threads ih => exact calm_bind (calm_required _ _ _) fun _ => calm_bind (calm_failWhen _ _ _) fun _ => ih _ _

theorem calm_checkParents (index : ℕ) (threads : List Thread) : ¬Panics (checkParents ids index threads) := by
  induction threads generalizing index with
  | nil => exact calm_pure _
  | cons thread threads ih =>
    exact calm_bind (calm_failWhen _ _ _) fun _ => calm_bind (calm_failWhen _ _ _) fun _ => ih _

theorem calm_normalizeThreadIDs (threads : List Thread) : ¬Panics (normalizeThreadIDs h scope threads) := by
  refine calm_bind (calm_collectThreadIDs _ _ _) fun ids => ?_
  refine calm_bind (calm_failWhen _ _ _) fun _ => ?_
  refine calm_bind (calm_checkParents _ _) fun _ => ?_
  exact calm_bind (calm_failWhen _ _ _) fun _ => calm_pure _

theorem calm_normalizeThreads (index : ℕ) (threads : List Thread) :
    ¬Panics (normalizeThreads h scope sessionID ids index threads) := by
  induction threads generalizing index with
  | nil => exact calm_pure _
  | cons thread threads ih =>
    refine calm_bind ?_ fun record => calm_bind (ih _) fun records => calm_pure _
    refine calm_bind (calm_failWhen _ _ _) fun _ => ?_
    refine calm_bind (calm_failWhen _ _ _) fun _ => ?_
    refine calm_bind (calm_failWhen _ _ _) fun _ => ?_
    refine calm_bind (calm_optional _ _ _) fun _ => ?_
    rw [panics_digested]
    exact Option.some_ne_none _

theorem calm_sourceTimestamp (field value : String) (unknown : Bool) (profile : String) :
    ¬Panics (sourceTimestamp field value unknown profile) := by
  unfold sourceTimestamp
  split
  next => exact calm_bind (calm_failWhen _ _ _) fun _ => calm_pure _
  next => exact calm_timestamp _ _

theorem calm_checkBatch (principal : Principal) (batch : Batch) : ¬Panics (checkBatch principal batch) := by
  refine calm_bind (calm_failWhen _ _ _) fun _ => ?_
  refine calm_bind (calm_failWhen _ _ _) fun _ => ?_
  refine calm_bind (calm_required _ _ _) fun _ => ?_
  refine calm_bind (calm_timestamp _ _) fun observedAt => ?_
  iterate 6 refine calm_bind (calm_required _ _ _) fun _ => ?_
  refine calm_bind (calm_failWhen _ _ _) fun _ => ?_
  iterate 2 refine calm_bind (calm_required _ _ _) fun _ => ?_
  iterate 2 refine calm_bind (calm_failWhen _ _ _) fun _ => ?_
  refine calm_bind (calm_sourceTimestamp _ _ _ _) fun updatedAt => ?_
  refine calm_bind (calm_failWhen _ _ _) fun _ => ?_
  iterate 4 refine calm_bind (calm_optional _ _ _) fun _ => ?_
  exact calm_bind (calm_failWhen _ _ _) fun _ => calm_bind (calm_failWhen _ _ _) fun _ => calm_pure _

end Records

/-! The loops over the records. -/

section Loop
variable {α β : Type} (step : ℕ → List String → α → Except Rejection β) (mark : α → String)

/-- Records one by one, with the marks of the earlier ones. -/
def normalizeEach : ℕ → List String → List α → Except Rejection (List β)
  | _,_,[] => pure []
  | index,seen,input::others => do
    let record ← step index seen input
    let records ← normalizeEach (index+1) (mark input::seen) others
    pure (record::records)

theorem normalizeEach_panics (index : ℕ) (seen : List String) (inputs : List α) :
    Panics (normalizeEach step mark index seen inputs) ↔ ∃ before input after, inputs = before++input::after ∧
      Passes (normalizeEach step mark index seen before) ∧
        Panics (step (index+before.length) ((before.map mark).reverse++seen) input) := by
  induction inputs generalizing index seen with
  | nil =>
    constructor
    · exact fun panics => absurd panics (calm_pure _)
    · rintro ⟨before,input,after,same,-⟩
      simp at same
  | cons first others ih =>
    rw [normalizeEach,panics_bind]
    constructor
    · rintro (panics|⟨record,ok,panics⟩)
      · exact ⟨[],first,others,rfl,⟨[],rfl⟩,panics⟩
      · rw [panics_bind] at panics
        rcases panics with panics|⟨_,_,panics⟩
        · obtain ⟨before,input,after,rfl,⟨records,passes⟩,panics⟩ := (ih _ _).mp panics
          refine ⟨first::before,input,after,rfl,⟨record::records,?_⟩,?_⟩
          · rw [normalizeEach,ok,ok_bind,passes]
            rfl
          · rw [List.length_cons,List.map_cons,List.reverse_cons,List.append_assoc,List.singleton_append,← Nat.add_assoc,
              Nat.add_right_comm]
            exact panics
        · exact absurd panics (calm_pure _)
    · rintro ⟨before,input,after,same,passes,panics⟩
      cases before with
      | nil =>
        obtain ⟨rfl,rfl⟩ := List.cons.inj same
        exact .inl panics
      | cons _ before =>
        obtain ⟨rfl,rfl⟩ := List.cons.inj same
        rw [normalizeEach,passes_bind] at passes
        obtain ⟨record,ok,passes⟩ := passes
        obtain ⟨records,rest,-⟩ := passes_bind.mp passes
        refine .inr ⟨record,ok,panics_bind.mpr (.inl ((ih _ _).mpr ⟨before,input,after,rfl,⟨records,rest⟩,?_⟩))⟩
        rw [List.length_cons,List.map_cons,List.reverse_cons,List.append_assoc,List.singleton_append,← Nat.add_assoc,
          Nat.add_right_comm] at panics
        exact panics

end Loop

def eventMark (input : Event) : String := sourceKey [input.sourceThreadID,input.sourceEventID]

def usageMark (scope : String) (input : Usage) : String :=
  sourceKey [scope,"usage",input.sourceThreadID,input.sourceUsageID]

theorem normalizeEvents_each (h : Hash) (principal : Principal) (batch : Batch) (scope sessionID : String)
    (ids : Table String String) (index : ℕ) (seen : List String) (inputs : List Event) :
    normalizeEvents h principal batch scope sessionID ids index seen inputs =
      normalizeEach (normalizeEvent h principal batch scope sessionID ids) eventMark index seen inputs := by
  induction inputs generalizing index seen with
  | nil => rfl
  | cons input inputs ih =>
    rw [normalizeEvents,normalizeEach]
    simp only [ih]
    rfl

theorem normalizeUsageRecords_each (h : Hash) (scope sessionID : String) (ids : Table String String) (index : ℕ)
    (seen : List String) (inputs : List Usage) : normalizeUsageRecords h scope sessionID ids index seen inputs =
      normalizeEach (normalizeUsageRecord h scope sessionID ids) (usageMark scope) index seen inputs := by
  induction inputs generalizing index seen with
  | nil => rfl
  | cons input inputs ih =>
    rw [normalizeUsageRecords,normalizeEach]
    cases ok : normalizeUsageRecord h scope sessionID ids index seen input with
    | error failure => rfl
    | ok record =>
      rw [ok_bind,ok_bind,(normalizeUsageRecord_ok ok).1.sourceKey]
      exact congrArg (· >>= _) (ih _ _)

section Batches
variable (h : Hash) (principal : Principal) (batch : Batch)

/-- The session of a batch. -/
def batchSession : String :=
  sessionID h batch.projectID principal.userID batch.source.installationID batch.source.adapterID
    batch.session.sourceSessionID

/-- The batch passes the checks in front of its events, with these ids for its threads. -/
structure Opened (ids : Table String String) : Prop where
  checked : Passes (checkBatch principal batch)
  tree : normalizeThreadIDs h (batchScope principal batch) batch.threads = .ok ids
  threads : Passes (normalizeThreads h (batchScope principal batch) (batchSession h principal batch) ids 0 batch.threads)

/-- The timestamps for which a digest is computed when they are read: everything in front of them
passes its checks, and so does the rest of their own record. -/
inductive Reached : String → Prop
  | event {ids : Table String String} (opened : Opened h principal batch ids) {before after : List Event} {input : Event}
      (place : batch.events = before++input::after)
      (earlier : Passes (normalizeEvents h principal batch (batchScope principal batch) (batchSession h principal batch)
        ids 0 [] before))
      (own : Passes (normalizeEvent h principal batch (batchScope principal batch) (batchSession h principal batch) ids
        before.length (before.map eventMark).reverse {input with occurredAt := moment})) : Reached input.occurredAt
  | usage {ids : Table String String} (opened : Opened h principal batch ids)
      (events : Passes (normalizeEvents h principal batch (batchScope principal batch) (batchSession h principal batch)
        ids 0 [] batch.events))
      (few : batch.usage.length ≤ 500) {before after : List Usage} {input : Usage}
      (place : batch.usage = before++input::after)
      (earlier : Passes (normalizeUsageRecords h (batchScope principal batch) (batchSession h principal batch) ids 0 []
        before))
      (own : Passes (normalizeUsageRecord h (batchScope principal batch) (batchSession h principal batch) ids
        before.length (before.map (usageMark (batchScope principal batch))).reverse {input with occurredAt := moment})) :
      Reached input.occurredAt
  | session {ids : Table String String} (opened : Opened h principal batch ids)
      (events : Passes (normalizeEvents h principal batch (batchScope principal batch) (batchSession h principal batch)
        ids 0 [] batch.events))
      (usage : Passes (normalizeUsage h (batchScope principal batch) (batchSession h principal batch) ids batch.usage)) :
      Reached batch.session.updatedAt

variable {h principal batch}

theorem normalizeEvents_panics {ids : Table String String} :
    Panics (normalizeEvents h principal batch (batchScope principal batch) (batchSession h principal batch) ids 0 []
      batch.events) ↔ ∃ before input after, batch.events = before++input::after ∧
        Passes (normalizeEvents h principal batch (batchScope principal batch) (batchSession h principal batch)
          ids 0 [] before) ∧ Far input.occurredAt ∧
        Passes (normalizeEvent h principal batch (batchScope principal batch) (batchSession h principal batch) ids
          before.length (before.map eventMark).reverse {input with occurredAt := moment}) := by
  rw [normalizeEvents_each,normalizeEach_panics]
  simp only [normalizeEvents_each,normalizeEvent_panics,Nat.zero_add,List.append_nil]

theorem normalizeUsage_panics {ids : Table String String} :
    Panics (normalizeUsage h (batchScope principal batch) (batchSession h principal batch) ids batch.usage) ↔
      batch.usage.length ≤ 500 ∧ ∃ before input after, batch.usage = before++input::after ∧
        Passes (normalizeUsageRecords h (batchScope principal batch) (batchSession h principal batch) ids 0 [] before) ∧
        Far input.occurredAt ∧
        Passes (normalizeUsageRecord h (batchScope principal batch) (batchSession h principal batch) ids
          before.length (before.map (usageMark (batchScope principal batch))).reverse
          {input with occurredAt := moment}) := by
  rw [normalizeUsage,normalizeUsageRecords_each,panics_bind,normalizeEach_panics]
  simp only [normalizeUsageRecords_each,normalizeUsageRecord_panics,Nat.zero_add,List.append_nil,failWhen_ok,
    exists_const,Nat.not_lt]
  constructor
  · rintro (panics|panics)
    · exact absurd panics (calm_failWhen _ _ _)
    · exact panics
  · exact .inr

theorem checkBatch_updated {observedAt updatedAt : Time} (checked : checkBatch principal batch = .ok (observedAt,updatedAt)) :
    sourceTimestamp "session.updatedAt" batch.session.updatedAt batch.session.updatedAtUnknown
      batch.canonicalProfileVersion = .ok updatedAt := by
  simp only [checkBatch,bind_ok,failWhen_ok,pure_ok,required_ok,optional_ok,exists_const] at checked
  obtain ⟨_,_,_,_,_,_,_,_,_,_,_,_,_,_,_,_,_,read,_,_,_,_,_,_,_,same⟩ := checked
  cases same
  exact read

theorem not_far_empty : ¬Far "" := by
  rintro ⟨t,read,-⟩
  cases read

theorem normalizeSession_panics {observedAt updatedAt : Time}
    (checked : checkBatch principal batch = .ok (observedAt,updatedAt)) :
    Panics (normalizeSession h principal batch updatedAt) ↔ Far batch.session.updatedAt := by
  have read := checkBatch_updated checked
  have unknown := (checkBatch_ok checked).2
  rw [normalizeSession,panics_digested,SessionRecord.json,Option.map_eq_none_iff]
  unfold sourceTimestamp at read
  split at read
  next absent =>
    obtain ⟨-,-,read⟩ := (bind_ok _ _ _).mp read
    cases read
    rw [unknown absent]
    exact ⟨fun none_ => absurd none_ (Option.some_ne_none _),fun far => absurd far not_far_empty⟩
  next =>
    obtain ⟨known,written⟩ := far_written read
    rw [sourceTimeJson_none known,written]

theorem normalizeBatch_panics :
    Panics (normalizeBatch h principal batch) ↔ ∃ value, Reached h principal batch value ∧ Far value := by
  rw [normalizeBatch,panics_bind]
  constructor
  · rintro (panics|⟨⟨observedAt,updatedAt⟩,checked,panics⟩)
    · exact absurd panics (calm_checkBatch _ _)
    rcases panics_bind.mp panics with panics|⟨ids,tree,panics⟩
    · exact absurd panics (calm_normalizeThreadIDs _)
    rcases panics_bind.mp panics with panics|⟨threads,threads_,panics⟩
    · exact absurd panics (calm_normalizeThreads _ _)
    have opened : Opened h principal batch ids := ⟨⟨_,checked⟩,tree,⟨_,threads_⟩⟩
    rcases panics_bind.mp panics with panics|⟨events,events_,panics⟩
    · obtain ⟨before,input,after,place,earlier,far,own⟩ := normalizeEvents_panics.mp panics
      exact ⟨_,.event opened place earlier own,far⟩
    rcases panics_bind.mp panics with panics|⟨usage,usage_,panics⟩
    · obtain ⟨few,before,input,after,place,earlier,far,own⟩ := normalizeUsage_panics.mp panics
      exact ⟨_,.usage opened ⟨_,events_⟩ few place earlier own,far⟩
    rcases panics_bind.mp panics with panics|⟨session,-,panics⟩
    · exact ⟨_,.session opened ⟨_,events_⟩ ⟨_,usage_⟩,(normalizeSession_panics checked).mp panics⟩
    · exact absurd panics (calm_pure _)
  · rintro ⟨value,reached,far⟩
    cases reached with
    | event opened place earlier own =>
      obtain ⟨⟨⟨observedAt,updatedAt⟩,checked⟩,tree,threads,threads_⟩ := opened
      have panics := normalizeEvents_panics.mpr ⟨_,_,_,place,earlier,far,own⟩
      exact .inr ⟨_,checked,panics_bind.mpr (.inr ⟨_,tree,panics_bind.mpr (.inr ⟨_,threads_,
        panics_bind.mpr (.inl panics)⟩)⟩)⟩
    | usage opened events few place earlier own =>
      obtain ⟨⟨⟨observedAt,updatedAt⟩,checked⟩,tree,threads,threads_⟩ := opened
      obtain ⟨events,events_⟩ := events
      have panics := normalizeUsage_panics.mpr ⟨few,_,_,_,place,earlier,far,own⟩
      exact .inr ⟨_,checked,panics_bind.mpr (.inr ⟨_,tree,panics_bind.mpr (.inr ⟨_,threads_,
        panics_bind.mpr (.inr ⟨_,events_,panics_bind.mpr (.inl panics)⟩)⟩)⟩)⟩
    | session opened events usage =>
      obtain ⟨⟨⟨observedAt,updatedAt⟩,checked⟩,tree,threads,threads_⟩ := opened
      obtain ⟨events,events_⟩ := events
      obtain ⟨usage,usage_⟩ := usage
      have panics := (normalizeSession_panics (h:=h) checked).mpr far
      exact .inr ⟨_,checked,panics_bind.mpr (.inr ⟨_,tree,panics_bind.mpr (.inr ⟨_,threads_,
        panics_bind.mpr (.inr ⟨_,events_,panics_bind.mpr (.inr ⟨_,usage_,panics_bind.mpr (.inl panics)⟩)⟩)⟩)⟩)⟩

/-- A batch is refused or written, unless it panics. -/
theorem normalizeBatch_settled (h : Hash) (principal : Principal) (batch : Batch) :
    ((∃ w, normalizeBatch h principal batch = .ok w) ∨
      ∃ field message, normalizeBatch h principal batch = .error (.validation field message)) ↔
      ∀ value, Reached h principal batch value → ¬Far value := by
  have panics := @normalizeBatch_panics h principal batch
  cases result : normalizeBatch h principal batch with
  | ok w =>
    rw [result] at panics
    refine ⟨fun _ value reached far => ?_,fun _ => .inl ⟨w,rfl⟩⟩
    obtain ⟨_,impossible⟩ := panics.mpr ⟨value,reached,far⟩
    cases impossible
  | error failure =>
    rw [result] at panics
    cases failure with
    | validation field message =>
      refine ⟨fun _ value reached far => ?_,fun _ => .inr ⟨field,message,rfl⟩⟩
      obtain ⟨_,impossible⟩ := panics.mpr ⟨value,reached,far⟩
      cases impossible
    | panic message =>
      obtain ⟨value,reached,far⟩ := panics.mp ⟨message,rfl⟩
      constructor
      · rintro (⟨w,impossible⟩|⟨field,text,impossible⟩)
        · cases impossible
        · cases impossible
      · exact fun near => absurd far (near value reached)

end Batches

def farText : String := "2026-01-02T03:04:05+24:00"

/-- A batch of one event, a day east of UTC. -/
def farBatch : Batch :=
  let near := Message.batch ⟨"b1","Notes","codex","main","hello",1,1⟩
  {near with events := near.events.map fun e => {e with occurredAt := farText}}

/-- The ingestor panics. -/
theorem farBatch_panics :
    normalizeBatch (.table []) writer farBatch = .error (.panic "marshal validated canonical value") := by
  decide

end ATape.Ingestion
