import ATape.Analytics.Results
import ATape.Go.Plain

/-! Queries and the cursors of their pages. A cursor holds a position and the digest of the query that it
belongs to. -/
namespace ATape.SessionAnalytics
open Foundation Go SourceIdentity

/-- The text whose digest binds a cursor to its query. Newer versions bind more filters. -/
def bindingBody (sessionID : String) (q : Query) : Json :=
  let shared : List Json := [.str sessionID,.str q.snapshot,.str q.metric,.str q.thread,.str q.tool,.str q.capability,
    .str q.server]
  if q.analyticsVersion ≥ tokenActivityVersion then
    .arr (.int q.analyticsVersion::(shared++[.str q.range,.str q.file,.str q.operation,.str q.model,.str q.tokenRange]))
  else if q.analyticsVersion ≥ stableToolVersion then
    .arr (.int q.analyticsVersion::(shared++[.str q.range,.str q.file,.str q.operation]))
  else if q.analyticsVersion ≥ activityVersion then .arr (.int q.analyticsVersion::(shared++[.str q.range]))
  else .arr (.int version::shared)

def binding (h : Hash) (sessionID : String) (q : Query) : String := h.hex (marshal (bindingBody sessionID q))

def cursorText (binding : String) (offset : ℕ) : String := encodedJSON (.obj [("b",.str binding),("o",.int offset)])

/-- A field of a cursor; names are compared without case, and the last member counts. -/
def cursorField (members : List (String × Json)) (lower upper : String) : Option Json :=
  (members.reverse.find? fun m => m.1 = lower || m.1 = upper).map Prod.snd

/-- The binding and offset of a cursor that has no other fields. -/
def decodeCursor (text : String) : Option (String × ℤ) := do
  let bytes ← decodeRawURL text
  let chars ← utf8Decode bytes
  match ← Json.parse (String.ofList chars) with
  | .obj members => do
    if members.any fun m => m.1 ∉ ["b","B","o","O"] then none
    let binding ← match cursorField members "b" "B" with
      | none => some ""
      | some .null => some ""
      | some (.str text) => some text
      | some _ => none
    let offset ← match cursorField members "o" "O" with
      | none => some 0
      | some .null => some 0
      | some (.num literal) => atoi literal.toList
      | some _ => none
    pure (binding,offset)
  | .null => pure ("",0)
  | _ => none

def boundedFields (sessionID : String) (q : Query) : List (String × String × ℕ) :=
  [("sessionId",sessionID,500),("snapshot",q.snapshot,200),("thread",q.thread,500),("tool",q.tool,500),
    ("capability",q.capability,500),("server",q.server,500),("range",q.range,512),("file",q.file,500),
    ("operation",q.operation,500),("model",q.model,500),("tokenRange",q.tokenRange,512)]

def checkMetric (q : Query) : Except Failure Unit :=
  if q.metric ∈ ["tools","failed_tools","unknown_tools","user_inputs","thoughts","threads","mcp_tools","skills"] then pure ()
  else if q.metric = "records" then
    failWhen (q.analyticsVersion < activityVersion)
      (.invalidQuery "metric" "records requires analytics version 3, 4 or 5")
  else if q.metric = "files" then
    failWhen (q.analyticsVersion < stableToolVersion) (.invalidQuery "metric" "files requires analytics version 4 or 5")
  else if q.metric = "token_records" then
    failWhen (q.analyticsVersion ≠ tokenActivityVersion ∨ q.snapshot = "" ∨ q.tokenRange = "")
      (.invalidQuery "metric" "token_records requires analytics version 5, snapshot and tokenRange")
  else .error (.invalidQuery "metric" "is not supported")

/-- The query with its defaults, if it is a valid one. -/
def checkQuery (order : MapOrder) (sessionID : String) (q : Query) : Except Failure Query := do
  let q := {q with analyticsVersion := if q.analyticsVersion = 0 then version else q.analyticsVersion}
  failWhen (q.analyticsVersion ∉ [version,activityVersion,stableToolVersion,tokenActivityVersion])
    (.invalidQuery "analyticsVersion" "is not supported")
  match (order.visit 0 (boundedFields sessionID q)).find? fun f => f.2.2 < len f.2.1 with
  | some f => .error (.invalidQuery f.1 "must be bounded UTF-8")
  | none => do
    failWhen (sessionID = "") (.invalidQuery "sessionId" "is required")
    let q := {q with metric := if q.metric = "" then "tools" else q.metric}
    checkMetric q
    failWhen (q.range ≠ "" ∧ (q.analyticsVersion < activityVersion ∨ q.metric ≠ "records" ∨ q.snapshot = ""))
      (.invalidQuery "range" "requires version 3, 4 or 5 records and snapshot")
    failWhen (q.model ≠ "" ∧ q.analyticsVersion < tokenActivityVersion)
      (.invalidQuery "model" "requires analytics version 5")
    failWhen (q.tokenRange ≠ "" ∧ (q.analyticsVersion < tokenActivityVersion ∨ q.metric ≠ "token_records" ∨
        q.snapshot = "" ∨ q.range ≠ ""))
      (.invalidQuery "tokenRange" "requires version 5 token_records and snapshot without range")
    failWhen (q.tool ≠ "" ∧ q.metric ∉ ["tools","failed_tools","unknown_tools"])
      (.invalidQuery "tool" "only applies to tool metrics")
    failWhen (q.capability ≠ "" ∧ q.metric ∉ ["mcp_tools","skills"])
      (.invalidQuery "capability" "only applies to MCP or Skill metrics")
    failWhen (q.server ≠ "" ∧ q.metric ≠ "mcp_tools") (.invalidQuery "server" "only applies to MCP metrics")
    failWhen (q.file ≠ "" ∧ q.metric ≠ "files") (.invalidQuery "file" "only applies to file activity")
    failWhen (q.operation ≠ "" ∧ (q.metric ≠ "files" ∨ q.operation ∉ ["read","edit","search"]))
      (.invalidQuery "operation" "requires file activity and read, edit or search")
    let q := {q with limit := if q.limit = 0 then 20 else q.limit}
    failWhen (q.limit < 1 ∨ q.limit > 100) (.invalidQuery "limit" "must be between 1 and 100")
    pure q

def badCursor : Failure := .invalidQuery "cursor" "must match this session, snapshot and filters"

/-- The offset of the cursor of a query. -/
def checkCursor (h : Hash) (sessionID : String) (q : Query) : Except Failure ℕ :=
  if q.cursor = "" then pure 0
  else do
    failWhen (q.snapshot = "" ∨ len q.cursor > 1024) badCursor
    let cursor ← present (decodeCursor q.cursor) badCursor
    failWhen (cursor.1 ≠ binding h sessionID q ∨ cursor.2 < 1 ∨ cursor.2 > maxFacts) badCursor
    pure cursor.2.toNat

def validateQuery (h : Hash) (order : MapOrder) (sessionID : String) (q : Query) : Except Failure (Query × ℕ) := do
  let q ← checkQuery order sessionID q
  let offset ← checkCursor h sessionID q
  pure (q,offset)

/-! What a valid query is. -/

theorem checkMetric_ok {q : Query} : checkMetric q = .ok () ↔
    q.metric ∈ ["tools","failed_tools","unknown_tools","user_inputs","thoughts","threads","mcp_tools","skills"] ∨
      q.metric = "records" ∧ ¬q.analyticsVersion < activityVersion ∨
      q.metric = "files" ∧ ¬q.analyticsVersion < stableToolVersion ∨
      q.metric = "token_records" ∧ q.analyticsVersion = tokenActivityVersion ∧ q.snapshot ≠ "" ∧ q.tokenRange ≠ "" := by
  unfold checkMetric
  split
  next plain => exact iff_of_true rfl (.inl plain)
  next special =>
    split
    next records => simp [records]
    next =>
      split
      next files => simp [files]
      next =>
        split
        next tokens => simp [tokens]
        next => simp_all

def Query.defaults (q : Query) : Query :=
  {q with
    analyticsVersion := if q.analyticsVersion = 0 then version else q.analyticsVersion
    metric := if q.metric = "" then "tools" else q.metric
    limit := if q.limit = 0 then 20 else q.limit}

structure Query.Allowed (sessionID : String) (q : Query) : Prop where
  supported : q.analyticsVersion ∈ [version,activityVersion,stableToolVersion,tokenActivityVersion]
  bounded : ∀ f ∈ boundedFields sessionID q, len f.2.1 ≤ f.2.2
  session : sessionID ≠ ""
  metric : checkMetric q = .ok ()
  range : ¬(q.range ≠ "" ∧ (q.analyticsVersion < activityVersion ∨ q.metric ≠ "records" ∨ q.snapshot = ""))
  model : ¬(q.model ≠ "" ∧ q.analyticsVersion < tokenActivityVersion)
  tokenRange : ¬(q.tokenRange ≠ "" ∧ (q.analyticsVersion < tokenActivityVersion ∨ q.metric ≠ "token_records" ∨
    q.snapshot = "" ∨ q.range ≠ ""))
  tool : ¬(q.tool ≠ "" ∧ q.metric ∉ ["tools","failed_tools","unknown_tools"])
  capability : ¬(q.capability ≠ "" ∧ q.metric ∉ ["mcp_tools","skills"])
  server : ¬(q.server ≠ "" ∧ q.metric ≠ "mcp_tools")
  file : ¬(q.file ≠ "" ∧ q.metric ≠ "files")
  operation : ¬(q.operation ≠ "" ∧ (q.metric ≠ "files" ∨ q.operation ∉ ["read","edit","search"]))
  limit : ¬(q.limit < 1 ∨ q.limit > 100)

theorem boundedFields_find (order : MapOrder) (sessionID : String) (q : Query) :
    ((order.visit 0 (boundedFields sessionID q)).find? fun f => f.2.2 < len f.2.1) = none ↔
      ∀ f ∈ boundedFields sessionID q, len f.2.1 ≤ f.2.2 := by
  rw [List.find?_eq_none]
  simp only [(order.perm 0 (boundedFields sessionID q)).mem_iff,decide_eq_true_eq,Nat.not_lt]

theorem checkQuery_ok {order : MapOrder} {sessionID : String} {q v : Query} :
    checkQuery order sessionID q = .ok v ↔ v = q.defaults ∧ q.defaults.Allowed sessionID := by
  unfold checkQuery
  simp only [bind_ok,failWhen_ok,exists_const]
  rw [not_not]
  constructor
  · rintro ⟨supported,ok⟩
    split at ok
    next => cases ok
    next free =>
      simp only [bind_ok,failWhen_ok,exists_const,pure_ok] at ok
      obtain ⟨session,_,metric,range,model,tokenRange,tool,capability,server,file,operation,limit,rfl⟩ := ok
      exact ⟨rfl,supported,(boundedFields_find _ _ _).mp free,session,metric,range,model,tokenRange,tool,capability,server,
        file,operation,limit⟩
  · rintro ⟨rfl,allowed⟩
    refine ⟨allowed.supported,?_⟩
    split
    next f found =>
      have free := (boundedFields_find order sessionID q.defaults).mpr allowed.bounded
      exact absurd (found.symm.trans free) (by simp)
    next free =>
      simp only [bind_ok,failWhen_ok,exists_const,pure_ok]
      exact ⟨allowed.session,(),allowed.metric,allowed.range,allowed.model,allowed.tokenRange,allowed.tool,
        allowed.capability,allowed.server,allowed.file,allowed.operation,allowed.limit,rfl⟩

theorem Query.Allowed.narrow {sessionID : String} {q : Query} (allowed : q.Allowed sessionID) :
    (q.analyticsVersion < activityVersion → q.range = "") ∧
      (q.analyticsVersion < stableToolVersion → q.file = "" ∧ q.operation = "") ∧
      (q.analyticsVersion < tokenActivityVersion → q.model = "" ∧ q.tokenRange = "") := by
  refine ⟨?_,?_,?_⟩
  · intro old
    by_contra some_
    exact allowed.range ⟨some_,.inl old⟩
  · intro old
    have other : q.metric ≠ "files" := by
      intro files
      have fine := allowed.metric
      rw [checkMetric_ok,files] at fine
      simp [old] at fine
    constructor
    · by_contra some_
      exact allowed.file ⟨some_,other⟩
    · by_contra some_
      exact allowed.operation ⟨some_,.inl other⟩
  · intro old
    constructor
    · by_contra some_
      exact allowed.model ⟨some_,old⟩
    · by_contra some_
      exact allowed.tokenRange ⟨some_,.inl old⟩

/-- The query for the page at a cursor of a snapshot. -/
def Query.page (q : Query) (snapshot cursor : String) (limit : ℤ) : Query := {q with snapshot,cursor,limit}

theorem bindingBody_integral (sessionID : String) (q : Query) : (bindingBody sessionID q).Integral := by
  unfold bindingBody
  dsimp only
  split
  next => simp [Json.Integral,Json.IntegralItems,Json.int]
  next =>
    split
    next => simp [Json.Integral,Json.IntegralItems,Json.int]
    next => split <;> simp [Json.Integral,Json.IntegralItems,Json.int]

theorem bindingBody_version {sessionID : String} {q : Query} (allowed : q.Allowed sessionID) :
    ∃ rest, bindingBody sessionID q = .arr (.int q.analyticsVersion::rest) := by
  unfold bindingBody
  dsimp only
  split
  next => exact ⟨_,rfl⟩
  next =>
    split
    next => exact ⟨_,rfl⟩
    next =>
      split
      next => exact ⟨_,rfl⟩
      next old =>
        have first : q.analyticsVersion = version := by
          have supported := allowed.supported
          simp only [version,activityVersion,stableToolVersion,tokenActivityVersion,List.mem_cons,List.not_mem_nil,
            or_false,ge_iff_le] at supported old ⊢
          omega
        exact ⟨_,by rw [first]⟩

theorem bindingBody_inj {sessionID sessionID' : String} {q q' : Query} (allowed : q.Allowed sessionID)
    (allowed' : q'.Allowed sessionID') (same : bindingBody sessionID q = bindingBody sessionID' q') :
    sessionID = sessionID' ∧ q.snapshot = q'.snapshot ∧ q.page "" "" 0 = q'.page "" "" 0 := by
  have versions : q.analyticsVersion = q'.analyticsVersion := by
    obtain ⟨rest,body⟩ := bindingBody_version allowed
    obtain ⟨rest',body'⟩ := bindingBody_version allowed'
    rw [body,body',Json.arr.injEq,List.cons.injEq,Json.int_inj] at same
    exact Int.ofNat_inj.mp same.1
  obtain ⟨range,files,models⟩ := allowed.narrow
  obtain ⟨range',files',models'⟩ := allowed'.narrow
  unfold bindingBody at same
  dsimp only at same
  rw [← versions] at same range' files' models'
  simp only [Query.page,Query.mk.injEq,true_and]
  split at same
  next => simp_all
  next old =>
    have old : q.analyticsVersion < tokenActivityVersion := by omega
    obtain ⟨model,tokenRange⟩ := models old
    obtain ⟨model',tokenRange'⟩ := models' old
    split at same
    next => simp_all
    next older =>
      have older : q.analyticsVersion < stableToolVersion := by omega
      obtain ⟨file,operation⟩ := files older
      obtain ⟨file',operation'⟩ := files' older
      split at same
      next => simp_all
      next oldest =>
        have oldest : q.analyticsVersion < activityVersion := by omega
        have none_ := range oldest
        have none' := range' oldest
        simp_all

/-! What a cursor is. -/

theorem decodeCursor_cursorText (bound : String) (offset : ℕ) :
    decodeCursor (cursorText bound offset) = some (bound,(offset : ℤ)) := by
  have integral : (Json.obj [("b",.str bound),("o",.int offset)]).Integral :=
    ⟨trivial,⟨offset,rfl⟩,trivial⟩
  have read := @Json.parse_written escaping _ integral [] (.inl rfl)
  have number := atoi_int offset
  rw [Int.toString_eq_repr] at number
  rw [List.append_nil] at read
  unfold decodeCursor cursorText encodedJSON
  rw [decode_encodeRawURL]
  simp only [Option.bind_eq_bind,Option.bind_some,utf8Decode_utf8,marshal,String.toList_ofList,read]
  simp [cursorField,Json.int,number]

theorem cursorText_short (h : Hash) (text : String) {offset : ℕ} (small : offset ≤ maxFacts) :
    len (cursorText (h.hex text) offset) ≤ 1024 := by
  have digits : (toString (offset : ℤ)).toList.length ≤ 6 := by
    have text : (toString (offset : ℤ)).toList = Nat.toDigits 10 offset := by simp [Int.toString_eq_repr,Int.repr_eq_if]
    rw [text,Nat.length_toDigits_le_iff (by decide) (by decide)]
    unfold maxFacts at small
    omega
  have size : (utf8 (marshal (.obj [("b",.str (h.hex text)),("o",.int offset)])).toList).length ≤ 4*84 := by
    apply (utf8_length_le _).trans
    apply Nat.mul_le_mul_left
    have value := quoted_plain fun c member => plain_of_hex (h.digits text c member)
    rw [h.length] at value
    have names : ∀ name ∈ ["b","o"], (Json.quoted escaping name).length = 3 := by decide
    have b := names "b" (by decide)
    have o := names "o" (by decide)
    simp only [marshal,String.toList_ofList,Json.write,Json.writeMembers,Json.int,List.length_append,List.length_cons,
      List.length_nil,value,b,o]
    omega
  have short := encodeRawURL_short (utf8 (marshal (.obj [("b",.str (h.hex text)),("o",.int offset)])).toList)
  unfold cursorText encodedJSON
  omega

theorem cursorText_nonempty (bound : String) (offset : ℕ) : cursorText bound offset ≠ "" := by
  intro empty
  have read := decodeCursor_cursorText bound offset
  rw [empty] at read
  cases read

theorem checkCursor_issued (h : Hash) (sessionID : String) (q : Query) {offset : ℕ} (named : q.snapshot ≠ "")
    (own : q.cursor = cursorText (binding h sessionID q) offset) (some_ : 1 ≤ offset) (small : offset ≤ maxFacts) :
    checkCursor h sessionID q = .ok offset := by
  have short : len q.cursor ≤ 1024 := own ▸ cursorText_short h _ small
  have fine : ¬(q.snapshot = "" ∨ len q.cursor > 1024) := by
    rintro (none_|long)
    · exact named none_
    · omega
  have mine : ¬((binding h sessionID q,(offset : ℤ)).1 ≠ binding h sessionID q ∨ (offset : ℤ) < 1 ∨ (offset : ℤ) > maxFacts) := by
    rintro (other|low|high)
    · exact other rfl
    · omega
    · omega
  unfold checkCursor
  rw [if_neg (own ▸ cursorText_nonempty _ _),failWhen_neg _ fine,ok_bind,own,decodeCursor_cursorText,present_some,
    ok_bind,failWhen_neg _ mine,ok_bind]
  rfl

theorem checkCursor_bound {h : Hash} {sessionID bound : String} {q : Query} {offset offset' : ℕ}
    (own : q.cursor = cursorText bound offset) (ok : checkCursor h sessionID q = .ok offset') :
    bound = binding h sessionID q ∧ offset' = offset := by
  unfold checkCursor at ok
  rw [if_neg (own ▸ cursorText_nonempty _ _)] at ok
  obtain ⟨_,-,ok⟩ := (bind_ok _ _ _).mp ok
  rw [own,decodeCursor_cursorText,present_some,ok_bind,bind_ok] at ok
  obtain ⟨_,fine,ok⟩ := ok
  rw [failWhen_ok] at fine
  constructor
  · by_contra other
    exact fine (.inl other)
  · exact ((pure_ok _ _).mp ok).symm

theorem Query.Allowed.page {sessionID : String} {q : Query} (allowed : q.Allowed sessionID) {snapshot : String}
    (cursor : String) {limit : ℤ} (named : snapshot ≠ "") (short : len snapshot ≤ 200) (low : 1 ≤ limit) (high : limit ≤ 100) :
    (q.page snapshot cursor limit).Allowed sessionID where
  supported := allowed.supported
  bounded := by
    have bounded := allowed.bounded
    simp only [boundedFields,List.forall_mem_cons] at bounded ⊢
    exact ⟨bounded.1,short,bounded.2.2⟩
  session := allowed.session
  metric := by
    have metric := allowed.metric
    rw [checkMetric_ok] at metric ⊢
    rcases metric with plain|records|files|⟨tokens,version_,_,range⟩
    · exact .inl plain
    · exact .inr (.inl records)
    · exact .inr (.inr (.inl files))
    · exact .inr (.inr (.inr ⟨tokens,version_,named,range⟩))
  range := by
    rintro ⟨some_,old|other|none_⟩
    · exact allowed.range ⟨some_,.inl old⟩
    · exact allowed.range ⟨some_,.inr (.inl other)⟩
    · exact named none_
  model := allowed.model
  tokenRange := by
    rintro ⟨some_,old|other|none_|ranged⟩
    · exact allowed.tokenRange ⟨some_,.inl old⟩
    · exact allowed.tokenRange ⟨some_,.inr (.inl other)⟩
    · exact named none_
    · exact allowed.tokenRange ⟨some_,.inr (.inr (.inr ranged))⟩
  tool := allowed.tool
  capability := allowed.capability
  server := allowed.server
  file := allowed.file
  operation := allowed.operation
  limit := by
    rintro (small|large)
    · exact absurd low (not_le.mpr small)
    · exact absurd high (not_le.mpr large)

end ATape.SessionAnalytics
