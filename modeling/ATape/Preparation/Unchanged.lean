import ATape.Capture.Tallies
import ATape.Preparation.Comparison
import Mathlib.Data.List.Perm.Subperm

/-! A view that compares as unchanged projects exactly the records that were published. Its records are told apart as
they are looked up, each of them is one of the capture, and there are as many of each kind. -/
namespace ATape.Preparation
open Capture Foundation Node

/-- A capture that still has its records has this one. -/
def Member (s : Journal) (c : CaptureKey) (identity : Identity) : Prop :=
  (∃ row, s.captures.lookup c = some row ∧ row.recordsRetired = false) ∧
    ∃ record, s.captureRecords.lookup ⟨c,identity.record⟩ = some record ∧ record.fingerprint = identity.fingerprint ∧
      record.projectionVersion = identity.profile

/-- The text by which records are told apart. -/
def recordText {α : Type} (h : Host α) (record : CaptureRecordKey) : String :=
  h.sourceFingerprint (.arr [.str (Journal.kindText record.kind),.str record.key])

section Archive
variable {α : Type} (h : Host α) (profile : String)

def archiveFrame (enabled : Bool) (frame : Frame α) : Except Failure (List Identity) :=
  if enabled then do
    let (key,_,fingerprint) ← rawSourceRecord h frame.recordKey frame.raw
    .ok [⟨⟨.raw,key⟩,fingerprint,rawProjectionProfile profile⟩]
  else .ok []

def archiveFrames (enabled : Bool) : List (Frame α) → Except Failure (List Identity)
  | [] => .ok []
  | frame::frames => do
    let here ← archiveFrame h profile enabled frame
    let rest ← archiveFrames enabled frames
    .ok (here++rest)

theorem archiveFrames_append (enabled : Bool) (first second : List (Frame α)) (left right : List Identity)
    (before : archiveFrames h profile enabled first = .ok left)
    (after : archiveFrames h profile enabled second = .ok right) :
    archiveFrames h profile enabled (first++second) = .ok (left++right) := by
  induction first generalizing left with
  | nil =>
    cases before
    exact after
  | cons frame first ih =>
    simp only [archiveFrames,bind_ok,Except.ok.injEq] at before
    obtain ⟨here,archived,rest,later,rfl⟩ := before
    simp [archiveFrames,bind_ok,archived,ih rest later]

theorem archiveFrames_raw {h : Host α} {profile : String} {enabled : Bool} {frames : List (Frame α)}
    {archived : List Identity} (ok : archiveFrames h profile enabled frames = .ok archived) :
    ∀ identity ∈ archived, identity.record.kind = .raw := by
  induction frames generalizing archived with
  | nil =>
    cases ok
    simp
  | cons frame frames ih =>
    simp only [archiveFrames,bind_ok,Except.ok.injEq] at ok
    obtain ⟨here,read,rest,later,rfl⟩ := ok
    intro identity member
    rcases List.mem_append.mp member with first | second
    · unfold archiveFrame at read
      split at read
      next =>
        simp only [bind_ok,Except.ok.injEq] at read
        obtain ⟨_,_,rfl⟩ := read
        rw [List.mem_singleton.mp first]
      next =>
        cases read
        cases first
    · exact ih later identity second

def readFrames : List (Page α) → List (Frame α)
  | [] => []
  | page::pages => page.frames++if page.done then [] else readFrames pages

end Archive

theorem go_ok {β : Type} (result : Except Failure β) (b : β) : go result = .ok b ↔ result = .ok b := by
  cases result with
  | error _ => simp [go,Except.mapError]
  | ok _ => simp [go,Except.mapError]

theorem liftJournal_ok {β : Type} (result : Except CaptureJournalError β) (b : β) :
    liftJournal result = .ok b ↔ result = .ok b := by
  cases result with
  | error _ => simp [liftJournal,Except.mapError]
  | ok _ => simp [liftJournal,Except.mapError]

theorem recordStatus_ok {s : Journal} {owner : CaptureOwner} {id : String} {identity : CaptureRecordKey} {key : ScopeKey}
    {status : RecordStatus} (named : scopeKey owner.scope = .ok key)
    (ok : recordStatus s owner id identity = .ok (some status)) :
    Member s ⟨key,id⟩ ⟨identity,status.fingerprint,status.projectionVersion⟩ := by
  simp only [recordStatus,bind_ok] at ok
  obtain ⟨⟨key',scope⟩,owned,row,found,_,live,_,_,ok⟩ := ok
  obtain ⟨named',_⟩ := Journal.ownerScope_ok s owner key' scope owned
  rw [named] at named'
  cases named'
  simp only [Journal.retainedMembership,failWhen_ok,Bool.not_eq_true] at live
  refine ⟨⟨row,Journal.capture_ok s _ row found,live⟩,?_⟩
  split at ok
  next => cases ok
  next record held =>
    simp only [bind_ok,Except.ok.injEq,Option.some.injEq] at ok
    obtain ⟨_,_,version,read,rfl⟩ := ok
    cases Journal.recordVersion_ok _ _ _ _ _ _ read
    exact ⟨record,held,rfl,rfl⟩

/-- What a comparison has found so far: identities of the source that are members of the capture, and archived ones that
are members of the Raw capture. -/
structure Agreed {α : Type} (h : Host α) (s : Journal) (c : CaptureKey) (raw : Option CaptureKey)
    (found archived : List Identity) (p : Progress) : Prop where
  seen : p.seen.Perm ((found++archived).map fun identity => recordText h identity.record)
  distinct : p.seen.Nodup
  published : ∀ identity ∈ found, Member s c identity
  raws : p.rawChanged = false → ∀ identity ∈ archived, ∃ c', raw = some c' ∧ Member s c' identity
  count : p.rawCount = archived.length

section Steps
variable {α : Type} {h : Host α} {d : Delivery} {s : Journal} {owner : CaptureOwner} {view : View α}
  {input : ComparisonInput} {baseline : Baseline} {projection : Projection α} {key : ScopeKey}
  {found archived : List Identity} {p p' : Progress}

theorem unique_ok {record : CaptureRecordKey} (ok : unique h input record p = .ok p') :
    recordText h record ∉ p.seen ∧ p' = {p with seen := p.seen++[recordText h record]} := by
  simp only [unique,bind_ok,failWhen_ok,Except.ok.injEq,exists_const] at ok
  obtain ⟨_,fresh,rfl⟩ := ok
  exact ⟨by simpa [recordText] using fresh,rfl⟩

theorem seen_extended {record : CaptureRecordKey} {all : List Identity} {identity : Identity} (same : identity.record = record)
    {before : List Identity} (moved : all.Perm (identity::before))
    (seen : p.seen.Perm (before.map fun identity => recordText h identity.record)) :
    (p.seen++[recordText h record]).Perm (all.map fun identity => recordText h identity.record) := by
  subst same
  refine List.Perm.trans ?_ (moved.map _).symm
  rw [List.map_cons]
  exact (List.perm_append_singleton _ _).trans (seen.cons _)

theorem distinct_extended {text : String} (distinct : p.seen.Nodup) (fresh : text ∉ p.seen) : (p.seen++[text]).Nodup :=
  List.nodup_append.mpr ⟨distinct,List.nodup_singleton _,by
    intro a member b other
    rw [List.mem_singleton.mp other]
    rintro rfl
    exact fresh member⟩

theorem matched_ok {identity : Identity} {raw : Option CaptureKey} (named : scopeKey owner.scope = .ok key)
    (profile : identity.profile = projection.profile) (agreed : Agreed h s ⟨key,baseline.id⟩ raw found archived p)
    (ok : matched h s owner input baseline projection identity p = .ok p') :
    Agreed h s ⟨key,baseline.id⟩ raw (found++[identity]) archived p' := by
  simp only [matched,bind_ok,go_ok,liftJournal_ok,failWhen_ok,Except.ok.injEq] at ok
  obtain ⟨p₁,once,prior,read,_,same,rfl⟩ := ok
  obtain ⟨fresh,rfl⟩ := unique_ok once
  cases prior with
  | none => simp at same
  | some status =>
    simp only [Option.any_some,Bool.and_eq_false_iff,decide_eq_false_iff_not,not_or,not_not] at same
    obtain ⟨⟨_,fingerprint⟩,version⟩ := same
    have member : Member s ⟨key,baseline.id⟩ identity := by
      have read' := recordStatus_ok named read
      rw [fingerprint,version,← profile] at read'
      exact read'
    refine ⟨?_,distinct_extended agreed.distinct fresh,?_,agreed.raws,agreed.count⟩
    · apply seen_extended rfl ?_ agreed.seen
      rw [List.append_assoc]
      exact List.perm_middle
    · intro other listed
      rcases List.mem_append.mp listed with earlier | last
      · exact agreed.published other earlier
      · rw [List.mem_singleton.mp last]
        exact member

theorem matches_ok {identities : List Identity} {raw : Option CaptureKey} (named : scopeKey owner.scope = .ok key)
    (profile : ∀ identity ∈ identities, identity.profile = projection.profile)
    (agreed : Agreed h s ⟨key,baseline.id⟩ raw found archived p)
    (ok : identities.foldlM (fun p identity => matched h s owner input baseline projection identity p) p = .ok p') :
    Agreed h s ⟨key,baseline.id⟩ raw (found++identities) archived p' := by
  induction identities generalizing found p with
  | nil =>
    cases ok
    rw [List.append_nil]
    exact agreed
  | cons identity identities ih =>
    simp only [List.foldlM_cons,bind_ok] at ok
    obtain ⟨middle,first,rest⟩ := ok
    have step := matched_ok named (profile identity List.mem_cons_self) agreed first
    have run := ih (fun other listed => profile other (List.mem_cons_of_mem _ listed)) step rest
    simpa using run

theorem rawDiffers_ok {raw : RawComparison} {masked : Except Unavailable Json} {fingerprint : String}
    {prior : Option RecordStatus} (ok : rawDiffers d s owner projection raw masked fingerprint prior = .ok false) :
    ∃ status, prior = some status ∧ status.fingerprint = fingerprint ∧
      status.projectionVersion = rawProjectionProfile projection.profile := by
  unfold rawDiffers at ok
  split at ok
  next => cases ok
  next status =>
    split at ok
    next => cases ok
    next same =>
      simp only [not_or,not_not] at same
      exact ⟨status,rfl,same.1,same.2⟩

theorem compareRaw_ok {raw : RawComparison} {frame : Frame α} (named : scopeKey owner.scope = .ok key)
    (agreed : Agreed h s ⟨key,baseline.id⟩ (baseline.raw.map fun r => ⟨key,r.1⟩) found archived p)
    (ok : compareRaw h d s owner input baseline projection raw frame p = .ok p') :
    ∃ more, archiveFrame h projection.profile true frame = .ok more ∧
      Agreed h s ⟨key,baseline.id⟩ (baseline.raw.map fun r => ⟨key,r.1⟩) found (archived++more) p' := by
  simp only [compareRaw,bind_ok,go_ok] at ok
  obtain ⟨⟨text,masked,fingerprint⟩,read,p₁,once,ok⟩ := ok
  obtain ⟨fresh,rfl⟩ := unique_ok once
  have one (newest : Identity) (same : newest.record = ⟨.raw,text⟩) : (p.seen++[recordText h ⟨.raw,text⟩]).Perm
      ((found++(archived++[newest])).map fun identity => recordText h identity.record) := by
    apply seen_extended same ?_ agreed.seen
    rw [← List.append_assoc]
    exact List.perm_append_singleton _ _
  refine ⟨[⟨⟨.raw,text⟩,fingerprint,rawProjectionProfile projection.profile⟩],by simp [archiveFrame,bind_ok,read],?_⟩
  have seen := one ⟨⟨.raw,text⟩,fingerprint,rawProjectionProfile projection.profile⟩ rfl
  have distinct := distinct_extended agreed.distinct fresh
  split at ok
  next changed =>
    cases ok
    refine ⟨seen,distinct,agreed.published,?_,by simp [agreed.count]⟩
    intro same
    rw [changed] at same
    cases same
  next kept =>
    split at ok
    next => cases ok
    next id row reads =>
      simp only [bind_ok,go_ok,liftJournal_ok,Except.ok.injEq] at ok
      obtain ⟨prior,status,differs,decided,rfl⟩ := ok
      refine ⟨seen,distinct,agreed.published,?_,by simp [agreed.count]⟩
      intro same
      cases same
      obtain ⟨held,rfl,rfl,version⟩ := rawDiffers_ok decided
      intro other listed
      rcases List.mem_append.mp listed with earlier | last
      · exact agreed.raws (by simpa using kept) other earlier
      · rw [List.mem_singleton.mp last]
        refine ⟨⟨key,id⟩,by simp [reads],?_⟩
        rw [← version]
        exact recordStatus_ok named status

theorem compareFrame_ok {frame : Frame α} {c c' : Counters} (named : scopeKey owner.scope = .ok key)
    (agreed : Agreed h s ⟨key,baseline.id⟩ (baseline.raw.map fun r => ⟨key,r.1⟩) found archived p)
    (ok : compareFrame h d s owner view input baseline projection frame (c,p) = .ok (c',p')) :
    ∃ ready more, projectFrame h view projection frame c = .ok (c',ready) ∧
      archiveFrame h projection.profile input.raw.isSome frame = .ok more ∧
      Agreed h s ⟨key,baseline.id⟩ (baseline.raw.map fun r => ⟨key,r.1⟩) (found++ready.identities projection.profile)
        (archived++more) p' := by
  simp only [compareFrame,bind_ok,go_ok] at ok
  obtain ⟨_,_,_,_,⟨c₁,ready⟩,projected,p₁,same,ok⟩ := ok
  have profile : ∀ identity ∈ ready.identities projection.profile, identity.profile = projection.profile := by
    intro identity listed
    simp only [Ready.identities,List.mem_append,List.mem_map] at listed
    obtain ⟨_,_,rfl⟩ | ⟨_,_,rfl⟩ := listed
    · rfl
    · rfl
  have counted : Agreed h s ⟨key,baseline.id⟩ (baseline.raw.map fun r => ⟨key,r.1⟩) found archived
      {p with frameCount := p.frameCount+1} :=
    ⟨agreed.seen,agreed.distinct,agreed.published,agreed.raws,agreed.count⟩
  have step := matches_ok named profile counted same
  split at ok
  next none =>
    cases ok
    exact ⟨ready,[],projected,by simp [archiveFrame,none],by simpa using step⟩
  next raw given =>
    simp only [bind_ok,Except.ok.injEq,Prod.mk.injEq] at ok
    obtain ⟨p₂,compared,rfl,rfl⟩ := ok
    obtain ⟨more,read,after⟩ := compareRaw_ok named step compared
    exact ⟨ready,more,projected,by simpa [given] using read,after⟩

theorem compareFrames_ok {frames : List (Frame α)} {c c' : Counters} (named : scopeKey owner.scope = .ok key)
    (agreed : Agreed h s ⟨key,baseline.id⟩ (baseline.raw.map fun r => ⟨key,r.1⟩) found archived p)
    (ok : frames.foldlM (fun state frame => compareFrame h d s owner view input baseline projection frame state) (c,p) =
      .ok (c',p')) :
    ∃ ready more, projectFrames h view projection frames c = .ok (c',ready) ∧
      archiveFrames h projection.profile input.raw.isSome frames = .ok more ∧
      Agreed h s ⟨key,baseline.id⟩ (baseline.raw.map fun r => ⟨key,r.1⟩)
        (found++ready.flatMap fun r => r.identities projection.profile) (archived++more) p' := by
  induction frames generalizing found archived c p with
  | nil =>
    cases ok
    exact ⟨[],[],rfl,rfl,by simpa using agreed⟩
  | cons frame frames ih =>
    simp only [List.foldlM_cons,bind_ok] at ok
    obtain ⟨⟨c₁,p₁⟩,first,rest⟩ := ok
    obtain ⟨ready,more,projected,read,step⟩ := compareFrame_ok named agreed first
    obtain ⟨later,others,projected',read',run⟩ := ih step rest
    refine ⟨ready::later,more++others,by simp [projectFrames,bind_ok,projected,projected'],
      by simp [archiveFrames,bind_ok,read,read'],by simpa using run⟩

theorem comparePages_ok {pages : List (Page α)} {c c' : Counters} (named : scopeKey owner.scope = .ok key)
    (agreed : Agreed h s ⟨key,baseline.id⟩ (baseline.raw.map fun r => ⟨key,r.1⟩) found archived p)
    (ok : comparePages h d s owner view input baseline projection pages (c,p) = .ok (c',p')) :
    ∃ ready more, projectPages h view projection pages c = .ok (c',ready) ∧
      archiveFrames h projection.profile input.raw.isSome (readFrames pages) = .ok more ∧
      Agreed h s ⟨key,baseline.id⟩ (baseline.raw.map fun r => ⟨key,r.1⟩)
        (found++ready.flatMap fun r => r.identities projection.profile) (archived++more) p' := by
  induction pages generalizing found archived c p with
  | nil => cases ok
  | cons page pages ih =>
    simp only [comparePages,bind_ok,go_ok] at ok
    obtain ⟨c₁,opened,⟨c₂,p₂⟩,framed,ok⟩ := ok
    obtain ⟨ready,more,projected,read,step⟩ := compareFrames_ok named agreed framed
    split at ok
    next last =>
      cases ok
      exact ⟨ready,more,by simp [projectPages,bind_ok,opened,projected,last],by simpa [readFrames,last] using read,step⟩
    next others =>
      obtain ⟨later,rest,projected',read',run⟩ := ih step ok
      refine ⟨ready++later,more++rest,by simp [projectPages,bind_ok,opened,projected,others,projected'],?_,
        by simpa using run⟩
      simp only [readFrames,if_neg others]
      exact archiveFrames_append h projection.profile _ _ _ _ _ read read'

end Steps

section Counts
variable {α : Type} {h : Host α} {view : View α} {projection : Projection α}

theorem projectEvents_ok {events : List (AdapterEvent α)} {c c' : Counters} {before after : List (Projected (AdapterEvent α))}
    (ok : events.foldlM (projectEvent h view projection) (c,before) = .ok (c',after)) :
    c'.events+before.length = c.events+after.length ∧ c'.usage = c.usage := by
  induction events generalizing c before with
  | nil =>
    cases ok
    exact ⟨rfl,rfl⟩
  | cons event events ih =>
    simp only [List.foldlM_cons,bind_ok,projectEvent,failWhen_ok,exists_const,Except.ok.injEq] at ok
    obtain ⟨_,⟨_,_,rfl⟩,rest⟩ := ok
    obtain ⟨events,usage⟩ := ih rest
    simp only [List.length_append,List.length_singleton] at events
    exact ⟨by omega,usage⟩

theorem projectUsages_ok {samples : List (AdapterUsage α)} {c c' : Counters} {before after : List (Projected (AdapterUsage α))}
    (ok : samples.foldlM (projectUsage h view) (c,before) = .ok (c',after)) :
    c'.usage+before.length = c.usage+after.length ∧ c'.events = c.events := by
  induction samples generalizing c before with
  | nil =>
    cases ok
    exact ⟨rfl,rfl⟩
  | cons sample samples ih =>
    simp only [List.foldlM_cons,bind_ok,projectUsage,failWhen_ok,exists_const,Except.ok.injEq] at ok
    obtain ⟨_,⟨_,_,rfl⟩,rest⟩ := ok
    obtain ⟨usage,events⟩ := ih rest
    simp only [List.length_append,List.length_singleton] at usage
    exact ⟨by omega,events⟩

theorem projectFrame_counts {frame : Frame α} {c c' : Counters} {ready : Ready α}
    (ok : projectFrame h view projection frame c = .ok (c',ready)) :
    c'.events = c.events+ready.events.length ∧ c'.usage = c.usage+ready.usage.length := by
  simp only [projectFrame,bind_ok,failWhen_ok,exists_const] at ok
  obtain ⟨_,ok⟩ := ok
  split at ok
  next =>
    cases ok
    exact ⟨rfl,rfl⟩
  next =>
    simp only [bind_ok,Except.ok.injEq,Prod.mk.injEq] at ok
    obtain ⟨slice,_,⟨c₁,events⟩,first,⟨c₂,usage⟩,second,rfl,rfl⟩ := ok
    obtain ⟨counted,kept⟩ := projectEvents_ok first
    obtain ⟨sampled,same⟩ := projectUsages_ok second
    simp only [List.length_nil] at counted sampled
    dsimp only at counted sampled kept same ⊢
    omega

def kindCount (kind : CaptureRecordKind) (identities : List Identity) : ℕ :=
  identities.countP fun identity => identity.record.kind = kind

theorem kindCount_identities (profile : String) (ready : Ready α) :
    kindCount .session (ready.identities profile) = 0 ∧ kindCount .thread (ready.identities profile) = 0 ∧
      kindCount .event (ready.identities profile) = ready.events.length ∧
      kindCount .usage (ready.identities profile) = ready.usage.length := by
  refine ⟨?_,?_,?_,?_⟩
  all_goals simp [kindCount,Ready.identities,List.countP_append,List.countP_map,Function.comp_def]

def Counts (profile : String) (c c' : Counters) (ready : List (Ready α)) : Prop :=
  let identities := ready.flatMap fun r => r.identities profile
  kindCount .session identities = 0 ∧ kindCount .thread identities = 0 ∧
    c'.events = c.events+kindCount .event identities ∧ c'.usage = c.usage+kindCount .usage identities

theorem Counts.append {profile : String} {c c₁ c' : Counters} {first second : List (Ready α)}
    (before : Counts profile c c₁ first) (after : Counts profile c₁ c' second) :
    Counts profile c c' (first++second) := by
  simp only [Counts,kindCount,List.flatMap_append,List.countP_append] at before after ⊢
  omega

theorem projectFrames_counts {frames : List (Frame α)} {c c' : Counters} {ready : List (Ready α)} (profile : String)
    (ok : projectFrames h view projection frames c = .ok (c',ready)) : Counts profile c c' ready := by
  induction frames generalizing c ready with
  | nil =>
    cases ok
    exact ⟨rfl,rfl,rfl,rfl⟩
  | cons frame frames ih =>
    simp only [projectFrames,bind_ok,Except.ok.injEq,Prod.mk.injEq] at ok
    obtain ⟨⟨c₁,one⟩,first,⟨c₂,rest⟩,later,rfl,rfl⟩ := ok
    obtain ⟨events,usage⟩ := projectFrame_counts first
    obtain ⟨session,thread,event,sample⟩ := kindCount_identities profile one
    have here : Counts profile c c₁ [one] := by
      simp only [Counts,List.flatMap_cons,List.flatMap_nil,List.append_nil]
      omega
    exact here.append (ih later)

theorem projectPages_counts {pages : List (Page α)} {c c' : Counters} {ready : List (Ready α)} (profile : String)
    (ok : projectPages h view projection pages c = .ok (c',ready)) : Counts profile c c' ready := by
  induction pages generalizing c ready with
  | nil => cases ok
  | cons page pages ih =>
    simp only [projectPages,bind_ok] at ok
    obtain ⟨c₁,opened,⟨c₂,here⟩,framed,ok⟩ := ok
    have same : c₁.events = c.events ∧ c₁.usage = c.usage := by
      simp only [projectPage,bind_ok,failWhen_ok,exists_const,Except.ok.injEq] at opened
      obtain ⟨_,rfl⟩ := opened
      exact ⟨rfl,rfl⟩
    have counted := projectFrames_counts profile framed
    have first : Counts profile c c₂ here := by
      unfold Counts at counted ⊢
      omega
    split at ok
    next =>
      cases ok
      exact first
    next =>
      simp only [bind_ok,Except.ok.injEq,Prod.mk.injEq] at ok
      obtain ⟨⟨c₃,rest⟩,later,rfl,rfl⟩ := ok
      exact first.append (ih later)

theorem canonicalSourceProjection_ok {owner : CaptureOwner} {transformVersion : String}
    (ok : canonicalSourceProjection h owner view transformVersion = .ok projection) :
    view.target.threads = view.threads.length ∧ projection.threads.length = view.threads.length := by
  simp only [canonicalSourceProjection,bind_ok,failWhen_ok,exists_const,not_or,not_not,Except.ok.injEq] at ok
  obtain ⟨_,_,_,⟨_,_,_,threads,_⟩,_,masked,prepared,rfl⟩ := ok
  simp only [Host.prepareCanonicalSlice,bind_ok,failWhen_ok,exists_const,Except.ok.injEq] at prepared
  obtain ⟨_,_,_,rfl⟩ := prepared
  exact ⟨threads,by simp⟩

end Counts

theorem all_members {s : Journal} {c : CaptureKey} {identities : List Identity} {kind : CaptureRecordKind}
    (distinct : (identities.map Identity.record).Nodup) (members : ∀ identity ∈ identities, Member s c identity)
    (enough : s.recordTotal c kind ≤ kindCount kind identities) (identity : Identity) (right : identity.record.kind = kind)
    (member : ∃ record, s.captureRecords.lookup ⟨c,identity.record⟩ = some record ∧
      record.fingerprint = identity.fingerprint ∧ record.projectionVersion = identity.profile) : identity ∈ identities := by
  let chosen := identities.filter fun identity => identity.record.kind = kind
  let keys : List MemberKey := chosen.map fun identity => ⟨c,identity.record⟩
  let rows := (s.captureRecords.rows.filter fun row => row.1.capture = c ∧ row.1.record.kind = kind).map Prod.fst
  have apart : keys.Nodup := by
    have records : (chosen.map Identity.record).Nodup := distinct.sublist (List.filter_sublist.map _)
    have same : keys = (chosen.map Identity.record).map fun record => ⟨c,record⟩ := by simp [keys]
    rw [same]
    exact records.map (by intro a b equal; cases equal; rfl)
  have inside : keys ⊆ rows := by
    intro m listed
    obtain ⟨other,chosen',rfl⟩ := List.mem_map.mp listed
    obtain ⟨here,kind'⟩ := List.mem_filter.mp chosen'
    obtain ⟨_,record,found,_⟩ := members other here
    exact List.mem_map.mpr ⟨(⟨c,other.record⟩,record),by simpa [found] using kind',rfl⟩
  have long : rows.length ≤ keys.length := by
    have total : rows.length = s.recordTotal c kind := by simp [rows,Journal.recordTotal]
    have length : keys.length = kindCount kind identities := by
      simp [keys,chosen,kindCount,List.countP_eq_length_filter]
    omega
  have equal : keys.Perm rows := (List.Nodup.subperm apart inside).perm_of_length_le long
  obtain ⟨record,found,fingerprint,profile⟩ := member
  have listed : (⟨c,identity.record⟩ : MemberKey) ∈ keys := by
    apply equal.mem_iff.mpr
    exact List.mem_map.mpr ⟨(⟨c,identity.record⟩,record),by simp [found,right],rfl⟩
  obtain ⟨other,chosen',same⟩ := List.mem_map.mp listed
  have here := (List.mem_filter.mp chosen').1
  obtain ⟨_,record',found',fingerprint',profile'⟩ := members other here
  simp only [MemberKey.mk.injEq,true_and] at same
  rw [same,found] at found'
  cases found'
  have whole : other = identity := by
    cases other
    cases identity
    simp_all
  exact whole ▸ here

theorem sortTexts_perm {first second : List String}
    (same : stringify (.arr ((sortTexts first).map .str)) = stringify (.arr ((sortTexts second).map .str))) :
    first.Perm second := by
  have integral : ∀ texts : List String, (Json.arr (texts.map .str)).Integral := by
    intro texts
    unfold Json.Integral
    induction texts with
    | nil => trivial
    | cons text texts ih => exact ⟨trivial,ih⟩
  have equal := stringify_injective (integral _) (integral _) same
  simp only [Json.arr.injEq] at equal
  have sorted : sortTexts first = sortTexts second := List.map_injective_iff.mpr (fun _ _ => Json.str.inj) equal
  unfold sortTexts at sorted
  have left := List.perm_insertionSort (fun a b : String => units a ≤ units b) first
  rw [sorted] at left
  exact left.symm.trans (List.perm_insertionSort _ second)

def publishedRecords (s : Journal) (c : CaptureKey) : Set Identity :=
  {identity | identity.record.kind ≠ .raw ∧ ∃ record, s.captureRecords.lookup ⟨c,identity.record⟩ = some record ∧
    record.fingerprint = identity.fingerprint ∧ record.projectionVersion = identity.profile}

def archivedRecords (s : Journal) (c : CaptureKey) : Set Identity :=
  {identity | identity.record.kind = .raw ∧ ∃ record, s.captureRecords.lookup ⟨c,identity.record⟩ = some record ∧
    record.fingerprint = identity.fingerprint ∧ record.projectionVersion = identity.profile}

structure Published {α : Type} (h : Host α) (s : Journal) (key : ScopeKey) (owner : CaptureOwner) (transformVersion : String)
    (view : View α) (baseline : Baseline) (prior : SourceMetadata) : Prop where
  capture : s.captures.lookup ⟨key,baseline.id⟩ = some baseline.row
  activated : baseline.row.activationReceipt ≠ none
  profile : prior.canonicalProfileVersion.getD .v2 = view.canonicalProfile
  checkpoint : view.sourceCheckpoint.isSome = true → prior.sourceCheckpoint = view.sourceCheckpoint ∧
    prior.sourceFailures = view.sourceFailures.map h.maskFailure ∧ prior.sourceFailuresTruncated = view.sourceFailuresTruncated
  retained : prior.retainedThreadIds.Perm view.target.retainedThreadIds
  target : baseline.counts = ⟨1,view.target.threads,view.target.events,view.target.usage⟩
  records : ∃ projection ready, view.projected h owner transformVersion = .ok (projection,ready,baseline.counts) ∧
    let identities := headerIdentities h projection++ready.flatMap fun r => r.identities projection.profile
    (identities.map Identity.record).Nodup ∧ {identity | identity ∈ identities} = publishedRecords s ⟨key,baseline.id⟩

structure Archived {α : Type} (h : Host α) (s : Journal) (key : ScopeKey) (owner : CaptureOwner) (transformVersion : String)
    (view : View α) (baseline : Baseline) : Prop where
  records : ∃ id row projection archived, baseline.raw = some (id,row) ∧ s.captures.lookup ⟨key,id⟩ = some row ∧
    canonicalSourceProjection h owner view transformVersion = .ok projection ∧
    archiveFrames h projection.profile true (readFrames view.pages) = .ok archived ∧
    (archived.map Identity.record).Nodup ∧ {identity | identity ∈ archived} = archivedRecords s ⟨key,id⟩

section Sound
variable {α : Type} {h : Host α} {d : Delivery} {s : Journal} {owner : CaptureOwner} {view : View α}
  {input : ComparisonInput} {baseline : Baseline} {key : ScopeKey}

theorem inspect_ok {id : String} {row : CaptureRow} (named : scopeKey owner.scope = .ok key)
    (ok : inspect s owner id = .ok row) : s.captures.lookup ⟨key,id⟩ = some row := by
  simp only [inspect,bind_ok] at ok
  obtain ⟨⟨key',scope⟩,owned,found⟩ := ok
  obtain ⟨named',_⟩ := Journal.ownerScope_ok s owner key' scope owned
  rw [named] at named'
  cases named'
  exact Journal.capture_ok s _ row found

theorem sourceComparisonContext_ok (named : scopeKey owner.scope = .ok key)
    (ok : sourceComparisonContext d s owner = .ok (some baseline)) :
    s.coverage owner = .ok baseline.coverage ∧ baseline.coverage.canonicalCaptureId = some baseline.id ∧
      s.captures.lookup ⟨key,baseline.id⟩ = some baseline.row ∧ baseline.row.activationReceipt ≠ none ∧
      (∃ manifest records, baseline.row.sealJson = some manifest ∧ manifest.records = some records ∧
        records.canonical = some baseline.counts) ∧
      ∀ id row, baseline.raw = some (id,row) → s.captures.lookup ⟨key,id⟩ = some row := by
  simp only [sourceComparisonContext,bind_ok,liftJournal_ok] at ok
  obtain ⟨coverage,covered,ok⟩ := ok
  split at ok
  next => cases ok
  next id known =>
    simp only [bind_ok,liftJournal_ok,failWhen_ok,exists_const,present_ok,not_or] at ok
    obtain ⟨row,inspected,_,counts,counted,⟨_,activated⟩,ok⟩ := ok
    have manifested : ∃ manifest records, row.sealJson = some manifest ∧ manifest.records = some records ∧
        records.canonical = some counts := by
      simp only [Option.bind_eq_some_iff] at counted
      obtain ⟨records,⟨manifest,sealed',listed⟩,canonical⟩ := counted
      exact ⟨manifest,records,sealed',listed,canonical⟩
    split at ok
    next =>
      cases ok
      refine ⟨covered,known,inspect_ok named inspected,activated,manifested,?_⟩
      intro id' row' none
      cases none
    next rawId _ =>
      simp only [bind_ok,liftJournal_ok,Except.ok.injEq,Option.some.injEq] at ok
      obtain ⟨raw,found,rfl⟩ := ok
      refine ⟨covered,known,inspect_ok named inspected,activated,manifested,?_⟩
      intro id' row' same
      cases same
      exact inspect_ok named found

theorem kindCount_headers (h : Host α) (projection : Projection α) : kindCount .session (headerIdentities h projection) = 1 ∧
    kindCount .thread (headerIdentities h projection) = projection.threads.length ∧
    kindCount .event (headerIdentities h projection) = 0 ∧ kindCount .usage (headerIdentities h projection) = 0 := by
  refine ⟨?_,?_,?_,?_⟩
  all_goals simp [kindCount,headerIdentities,List.countP_map,Function.comp_def]

theorem agreed_records {found archived : List Identity} {p : Progress} {c : CaptureKey} {raw : Option CaptureKey}
    {records : CaptureRecordManifest} {manifest : CaptureSeal} {row : CaptureRow} (tallied : s.Tallied)
    (agreed : Agreed h s c raw found archived p) (capture : s.captures.lookup c = some row)
    (sealed' : row.sealJson = some manifest) (listed : manifest.records = some records)
    (canonical : ∀ identity ∈ found, identity.record.kind ≠ .raw)
    (enough : ∀ kind ≠ CaptureRecordKind.raw, Journal.expectedRecords records kind ≤ kindCount kind found) :
    (found.map Identity.record).Nodup ∧ {identity | identity ∈ found} = publishedRecords s c := by
  have distinct : (found.map Identity.record).Nodup := by
    have texts := agreed.seen.nodup_iff.mp agreed.distinct
    rw [List.map_append] at texts
    have own : ((found.map Identity.record).map (recordText h)).Nodup := by
      simpa [List.map_map,Function.comp_def] using (List.nodup_append.mp texts).1
    exact own.of_map _
  refine ⟨distinct,Set.ext fun identity => ⟨?_,?_⟩⟩
  · intro member
    exact ⟨canonical identity member,(agreed.published identity member).2⟩
  · rintro ⟨kind,held⟩
    apply all_members distinct agreed.published ?_ identity rfl held
    have bounded := tallied.within c row manifest records capture sealed' listed identity.record.kind
    have counted := enough identity.record.kind kind
    omega

theorem headers_agreed {projection : Projection α} {p : Progress} (named : scopeKey owner.scope = .ok key)
    (ok : (headerIdentities h projection).foldlM
      (fun p identity => matched h s owner input baseline projection identity p) ⟨[],false,0,0⟩ = .ok p) :
    Agreed h s ⟨key,baseline.id⟩ (baseline.raw.map fun r => ⟨key,r.1⟩) (headerIdentities h projection) [] p := by
  have profile : ∀ identity ∈ headerIdentities h projection, identity.profile = projection.profile := by
    intro identity listed
    simp only [headerIdentities,List.mem_cons,List.mem_map] at listed
    obtain rfl | ⟨_,_,rfl⟩ := listed
    · rfl
    · rfl
  have start : Agreed h s ⟨key,baseline.id⟩ (baseline.raw.map fun r => ⟨key,r.1⟩) [] [] ⟨[],false,0,0⟩ :=
    ⟨List.Perm.refl _,List.nodup_nil,by simp,by simp,rfl⟩
  simpa using matches_ok named profile start ok

theorem compareSource_ok {prior : SourceMetadata} {diagnostics : Option (List String × Bool)} {answer : SourceComparisonResult}
    {row : CaptureRow} {manifest : CaptureSeal} {records : CaptureRecordManifest} (tallied : s.Tallied)
    (named : scopeKey owner.scope = .ok key) (capture : s.captures.lookup ⟨key,baseline.id⟩ = some row)
    (sealed' : row.sealJson = some manifest) (listed : manifest.records = some records)
    (counted : records.canonical = some baseline.counts)
    (ok : compareSource h d s owner view input baseline prior diagnostics = .ok answer) :
    prior.canonicalProfileVersion.getD .v2 = view.canonicalProfile ∧
      (view.sourceCheckpoint.isSome = true → prior.sourceCheckpoint = view.sourceCheckpoint ∧
        some prior.sourceFailures = diagnostics.map Prod.fst ∧
        prior.sourceFailuresTruncated = view.sourceFailuresTruncated) ∧
      prior.retainedThreadIds.Perm view.target.retainedThreadIds ∧
      baseline.counts = ⟨1,view.target.threads,view.target.events,view.target.usage⟩ ∧
      ∃ projection ready, canonicalSourceProjection h owner view input.transformVersion = .ok projection ∧
        view.projected h owner input.transformVersion = .ok (projection,ready,baseline.counts) ∧
        let identities := headerIdentities h projection++ready.flatMap fun r => r.identities projection.profile
        (identities.map Identity.record).Nodup ∧
        {identity | identity ∈ identities} = publishedRecords s ⟨key,baseline.id⟩ ∧
        (answer.raw = .unchanged → ∃ raw, baseline.raw = some raw ∧ ∃ archived,
          archiveFrames h projection.profile true (readFrames view.pages) = .ok archived ∧
          (archived.map Identity.record).Nodup ∧ (∀ identity ∈ archived, Member s ⟨key,raw.1⟩ identity) ∧
          ((raw.2.sealJson.bind CaptureSeal.records).bind CaptureRecordManifest.raw).map RawManifest.records =
            some (archived.length : ℤ)) := by
  simp only [compareSource,bind_ok,go_ok,failWhen_ok,exists_const,not_and,not_or,not_not] at ok
  obtain ⟨profile,checkpoint,failures,projection,opened,⟨session,thread,event,usage⟩,retained,p₀,headers,⟨c,p⟩,paged,
    counts,finished,ok⟩ := ok
  have first := headers_agreed named headers
  have opened' : Agreed h s ⟨key,baseline.id⟩ (baseline.raw.map fun r => ⟨key,r.1⟩) (headerIdentities h projection) []
      {p₀ with rawChanged := input.raw.any (rawRequired baseline projection)} :=
    ⟨first.seen,first.distinct,first.published,by simp,first.count⟩
  obtain ⟨ready,archived,projected,read,agreed⟩ := comparePages_ok named opened' paged
  obtain ⟨sessions,threads,events,samples⟩ := projectPages_counts projection.profile projected
  obtain ⟨oneSession,ownThreads,noEvents,noUsage⟩ := kindCount_headers h projection
  obtain ⟨declared,masked⟩ := canonicalSourceProjection_ok opened
  have finished' := finished
  simp only [finishProjection,bind_ok,failWhen_ok,exists_const,not_or,not_not,Except.ok.injEq] at finished'
  obtain ⟨⟨allEvents,allUsage⟩,rfl⟩ := finished'
  simp only [Counters.start,Nat.zero_add] at events samples
  have whole : baseline.counts = ⟨1,view.target.threads,view.target.events,view.target.usage⟩ := by
    cases held : baseline.counts
    simp_all
  have same : (⟨1,projection.threads.length,c.events,c.usage⟩ : RecordCounts) = baseline.counts := by
    rw [whole,masked,← declared,allEvents,allUsage]
  have kinds : ∀ identity ∈ headerIdentities h projection++ready.flatMap fun r => r.identities projection.profile,
      identity.record.kind ≠ .raw := by
    intro identity member
    simp only [headerIdentities,Ready.identities,List.mem_append,List.mem_cons,List.mem_map,List.mem_flatMap] at member
    obtain (rfl | ⟨_,_,rfl⟩) | ⟨_,_,⟨_,_,rfl⟩ | ⟨_,_,rfl⟩⟩ := member
    all_goals simp
  have enough : ∀ kind ≠ CaptureRecordKind.raw, Journal.expectedRecords records kind ≤
      kindCount kind (headerIdentities h projection++ready.flatMap fun r => r.identities projection.profile) := by
    intro kind canonical
    have parts : kindCount kind (headerIdentities h projection++ready.flatMap fun r => r.identities projection.profile) =
        kindCount kind (headerIdentities h projection)+
          kindCount kind (ready.flatMap fun r => r.identities projection.profile) := List.countP_append
    rw [parts]
    cases kind with
    | session => simp [Journal.expectedRecords,counted,whole,sessions,oneSession]
    | thread => simp [Journal.expectedRecords,counted,whole,threads,ownThreads,masked,declared]
    | event => simp [Journal.expectedRecords,counted,whole,noEvents,← allEvents,events]
    | usage => simp [Journal.expectedRecords,counted,whole,noUsage,← allUsage,samples]
    | raw => exact absurd rfl canonical
  obtain ⟨distinct,equal⟩ := agreed_records tallied agreed capture sealed' listed kinds enough
  have viewed : view.projected h owner input.transformVersion = .ok (projection,ready,baseline.counts) := by
    simp only [View.projected,bind_ok,opened,Except.ok.injEq,exists_eq_left']
    exact ⟨(c,ready),projected,_,finished,by rw [same]⟩
  refine ⟨profile.symm,?_,sortTexts_perm retained,whole,projection,ready,opened,viewed,distinct,equal,?_⟩
  · intro given
    exact ⟨checkpoint given,failures given⟩
  · intro answered
    simp only [Except.ok.injEq] at ok
    subst ok
    dsimp only at answered
    split at answered
    next => cases answered
    next raw given =>
      split at answered
      next => cases answered
      next kept =>
        simp only [not_or,not_not,Bool.not_eq_true] at kept
        obtain ⟨still,manifested⟩ := kept
        cases held : baseline.raw with
        | none => simp [held] at manifested
        | some other =>
          have members := agreed.raws still
          have texts := agreed.seen.nodup_iff.mp agreed.distinct
          rw [List.nil_append,List.map_append] at texts
          have own : ((archived.map Identity.record).map (recordText h)).Nodup := by
            simpa [List.map_map,Function.comp_def] using (List.nodup_append.mp texts).2.1
          refine ⟨other,rfl,archived,by simpa [given] using read,own.of_map _,?_,?_⟩
          · intro identity member
            obtain ⟨c',same',there⟩ := members identity member
            simp only [held,Option.map_some,Option.some.injEq] at same'
            rw [same']
            exact there
          · have count := agreed.count
            rw [List.nil_append] at count
            simpa [held,count] using manifested

end Sound

/-- A source that compares as unchanged is what its activated capture has: the same records with the same fingerprints
under the same profile, the same declared counts and retained threads; and where Raw is unchanged too, its frames are
those that were archived. -/
theorem unchanged_exact {α : Type} {steps : List (Settings × Call)} {s : Journal}
    (reached : Run Journal.Serves Journal.created steps s) (env : Settings) (h : Host α) (d : Delivery)
    (owner : CaptureOwner) (input : ComparisonInput) (source : Except Failure (View α)) (answer : SourceComparisonResult)
    (compared : comparePublicationSource env h d s owner input source = .ok answer)
    (unchanged : answer.canonical = .unchanged) :
    ∃ view key baseline stored prior, source = .ok view ∧ scopeKey owner.scope = .ok key ∧
      s.coverage owner = .ok baseline.coverage ∧ baseline.coverage.canonicalCaptureId = some baseline.id ∧
      Journal.storedMetadata env baseline.row.sourceMetadata baseline.row.sourceMetadataSha
        baseline.row.sourceMetadataBytes = .ok stored ∧ d.decodeMetadata stored = some prior ∧
      Published h s key owner input.transformVersion view baseline prior ∧
      (answer.raw = .unchanged → Archived h s key owner input.transformVersion view baseline) := by
  have tallied := Journal.history_tallied reached
  simp only [comparePublicationSource,bind_ok,failWhen_ok,exists_const] at compared
  obtain ⟨_,_,_,_,context,opened,compared⟩ := compared
  split at compared
  next =>
    cases compared
    cases unchanged
  next baseline =>
    simp only [bind_ok,liftJournal_ok,present_ok] at compared
    obtain ⟨view,fresh,stored,metadata,prior,decoded,compared⟩ := compared
    obtain ⟨key,named⟩ : ∃ key, scopeKey owner.scope = .ok key := by
      simp only [sourceComparisonContext,bind_ok,liftJournal_ok,Journal.coverage] at opened
      obtain ⟨_,⟨⟨key,scope⟩,owned,_⟩,_⟩ := opened
      exact ⟨key,(Journal.ownerScope_ok s owner key scope owned).1⟩
    obtain ⟨covered,known,capture,activated,⟨manifest,records,sealed',listed,counted⟩,raws⟩ :=
      sourceComparisonContext_ok named opened
    split at compared
    next =>
      cases compared
      cases unchanged
    next => cases compared
    next result same =>
      simp only [bind_ok,failWhen_ok,exists_const,Except.ok.injEq] at compared
      obtain ⟨_,_,_,rfl⟩ := compared
      obtain ⟨profile,checkpoint,retained,target,projection,ready,projected,viewed,distinct,equal,raw⟩ :=
        compareSource_ok tallied named capture sealed' listed counted same
      refine ⟨view,key,baseline,stored,prior,fresh,named,covered,known,metadata,decoded,
        ⟨capture,activated,profile,?_,retained,target,projection,ready,viewed,distinct,equal⟩,?_⟩
      · intro given
        obtain ⟨pointer,failures,truncated⟩ := checkpoint given
        refine ⟨pointer,?_,truncated⟩
        cases absent : view.sourceCheckpoint with
        | none => simp [absent] at given
        | some _ => simpa [absent] using failures
      · intro answered
        obtain ⟨⟨id,row⟩,held,archived,read,apart,members,manifested⟩ := raw answered
        have there := raws id row held
        refine ⟨id,row,projection,archived,held,there,projected,read,apart,Set.ext fun identity => ⟨?_,?_⟩⟩
        · intro member
          exact ⟨archiveFrames_raw read identity member,(members identity member).2⟩
        · rintro ⟨kind,found⟩
          simp only [Option.map_eq_some_iff,Option.bind_eq_some_iff] at manifested
          obtain ⟨raw',⟨records',⟨manifest',sealed'',listed'⟩,rawed⟩,counts⟩ := manifested
          apply all_members apart members ?_ identity kind found
          dsimp only
          have bounded := tallied.within ⟨key,id⟩ row manifest' records' there sealed'' listed' .raw
          have whole : kindCount .raw archived = archived.length := by
            apply List.countP_eq_length.mpr
            intro other member
            simpa using archiveFrames_raw read other member
          simp only [Journal.expectedRecords,rawed,Option.map_some,Option.getD_some,counts] at bounded
          omega

section Example

/-- A host whose digests tell texts of even length from those of odd length. -/
def exampleHost : Host Unit where
  digest bytes := String.ofList (List.replicate 64 (if bytes.size%2 = 0 then 'a' else 'b'))
  validatePage _ _ := true
  redactable _ := true
  maskSession := id
  maskThread := id
  maskEvent := id
  maskUsage := id
  sessionJson session := .obj [("sourceSessionId",.str session.sourceSessionId)]
  threadJson thread := .obj [("sourceThreadId",.str thread.sourceThreadId)]
  eventJson _ _ _ event := .obj [("sourceEventId",.str event.sourceEventId)]
  usageJson sample := .obj [("sourceUsageId",.str sample.sourceUsageId)]
  maskFailure := id
  redactRaw _ := .error .redaction

def exampleDelivery : Delivery where
  bound row := row.sealJson.isSome
  rawAuthority _ := none
  decodeMetadata
    | none => some ⟨none,none,[],[],false⟩
    | some _ => none

def exampleView : View Unit where
  profile := "p"
  canonicalProfileVersion := none
  sourceId := "session"
  originKey := "origin"
  session := ⟨"session",0,()⟩
  threads := [⟨"t",none,()⟩]
  target := ⟨0,0,1,[]⟩
  sourceCheckpoint := none
  sourceFailures := []
  sourceFailuresTruncated := false
  pages := [⟨[],true⟩]

def exampleCalls : List Call :=
  let owner := Journal.exampleOwner
  let profile := "atape.host-canonical.v1:1:p"
  let session := exampleHost.sourceFingerprint (exampleHost.sessionJson ⟨"session",0,()⟩)
  let thread := exampleHost.sourceFingerprint (exampleHost.threadJson ⟨"t",none,()⟩)
  [.claim owner.scope,
    .reserve owner Journal.exampleReservation,
    .append owner "first" ⟨.canonical,0,"abc".toUTF8⟩,
    .record owner "first" ⟨⟨.session,"session"⟩,session,profile,none⟩,
    .record owner "first" ⟨⟨.thread,"t"⟩,thread,profile,none⟩,
    .bindRecord owner "first" ⟨.session,"session"⟩ (.unit 0 none),
    .bindRecord owner "first" ⟨.thread,"t"⟩ (.unit 0 none),
    Journal.exampleSeal,Journal.exampleActivation]

def exampleJournal : Journal := after Journal.created (Journal.play Journal.exampleSettings Journal.created exampleCalls)

def exampleInput : ComparisonInput := ⟨"1",true,10,1000,none⟩

def exampleComparison : Except Failure SourceComparisonResult :=
  comparePublicationSource Journal.exampleSettings exampleHost exampleDelivery exampleJournal Journal.exampleOwner exampleInput
    (.ok exampleView)

private theorem example_compared : (Journal.play Journal.exampleSettings Journal.created exampleCalls).isOk = true ∧
    exampleComparison.toOption.map SourceComparisonResult.canonical = some .unchanged := by decide

/-- A view that was published as it is. -/
theorem unchanged_exact_published : ∃ key baseline prior, exampleJournal.coverage Journal.exampleOwner = .ok baseline.coverage ∧
    Published exampleHost exampleJournal key Journal.exampleOwner "1" exampleView baseline prior := by
  obtain ⟨played,compared⟩ := example_compared
  have run := Journal.served (Journal.play_run _ _ _ _ (ok_after Journal.created _ played))
  cases answered : exampleComparison with
  | error _ => simp [answered,Except.toOption] at compared
  | ok answer =>
    rw [answered] at compared
    obtain ⟨view,key,baseline,_,prior,same,_,covered,_,_,_,published,_⟩ :=
      unchanged_exact run Journal.exampleSettings exampleHost exampleDelivery Journal.exampleOwner exampleInput
        (.ok exampleView) answer answered (by simpa [Except.toOption] using compared)
    cases same
    exact ⟨key,baseline,prior,covered,published⟩

end Example
end ATape.Preparation
