import ATape.Foundation.Utf8
import Mathlib.Data.List.GetD

/-! Raw content on its way to the server: the collector cuts it into chunks of a bounded number of
bytes and gives each its offset. -/
namespace ATape.RawTransport
open Foundation

def rawTransportChunkBytes : ℕ := 3*1024*1024

/-- `new TextDecoder("utf-8",{ fatal: true }).decode(bytes)`, which drops a byte order mark in front. -/
def textDecode (bytes : List UInt8) : Option (List Char) :=
  (utf8Decode bytes).map fun text => match text with
    | '\uFEFF'::text => text
    | text => text

/-- The end of a chunk is moved back to the first byte of a character. -/
def stepBack (encoded : List UInt8) (start : ℕ) : ℕ → ℕ
  | 0 => 0
  | stop+1 => if stop+1 < encoded.length ∧ start < stop+1 ∧ continuation (encoded.getD (stop+1) 0) = true
    then stepBack encoded start stop else stop+1

/-- The loop, round by round. Bytes that are not decoded are an exception. -/
def splitFrom (limit : ℕ) (encoded : List UInt8) : ℕ → ℕ → Option (List (List Char))
  | 0,_ => none
  | rounds+1,start =>
    if start < encoded.length then do
      let stop := stepBack encoded start (min (start+limit) encoded.length)
      let chunk ← textDecode ((encoded.take stop).drop start)
      let chunks ← splitFrom limit encoded rounds stop
      pure (chunk::chunks)
    else pure []

/-- The loop ends in as many rounds as there are bytes. -/
def splitRawTransportChunks (content : List Char) : Option (List (List Char)) :=
  if (utf8 content).length = 0 then pure [[]]
  else splitFrom rawTransportChunkBytes (utf8 content) ((utf8 content).length+1) 0

/-- The server offsets of chunks, one behind the other. -/
def serverOffsets (serverOffset : ℕ) : List (List Char) → List ℕ
  | [] => []
  | chunk::chunks => serverOffset::serverOffsets (serverOffset+(utf8 chunk).length) chunks

section Cutting
variable {limit : ℕ}

theorem getD_behind {first second third : List UInt8} {j : ℕ} (inside : j < second.length) :
    (first++(second++third)).getD (first.length+j) 0 = second.getD j 0 := by
  rw [List.getD_append_right _ _ _ _ (Nat.le_add_right _ _),Nat.add_sub_cancel_left,List.getD_append _ _ _ _ inside]

theorem stepBack_spec {before run later : List Char} {c : Char} (some_ : run ≠ []) (extra : ℕ) (short : extra < c.utf8Size) :
    stepBack (utf8 before++utf8 run++(String.utf8EncodeChar c++utf8 later)) (utf8 before).length
      ((utf8 before++utf8 run).length+extra) = (utf8 before++utf8 run).length := by
  obtain ⟨first,rest,shape,lead,tails⟩ := utf8EncodeChar_shape c
  have size : (String.utf8EncodeChar c).length = c.utf8Size := String.length_utf8EncodeChar c
  have byte : ∀ j < c.utf8Size, (utf8 before++utf8 run++(String.utf8EncodeChar c++utf8 later)).getD
      ((utf8 before++utf8 run).length+j) 0 = (first::rest).getD j 0 := by
    intro j inside
    rw [getD_behind (size ▸ inside),shape]
  have ahead : (utf8 before).length < (utf8 before++utf8 run).length := by
    obtain ⟨d,run,rfl⟩ := List.exists_cons_of_ne_nil some_
    have positive := d.utf8Size_pos
    simp only [utf8_length,List.length_append,List.map_cons,List.sum_cons]
    omega
  induction extra with
  | zero =>
    have stays := byte 0 short
    rw [Nat.add_zero] at stays ⊢
    obtain ⟨k,same⟩ : ∃ k, (utf8 before++utf8 run).length = k+1 := Nat.exists_eq_add_one.mpr (by omega)
    rw [same] at stays ⊢
    unfold stepBack
    rw [stays,List.getD_cons_zero,lead]
    simp
  | succ extra ih =>
    have moves := byte (extra+1) short
    rw [shape,List.length_cons] at size
    have inside : extra < rest.length := by omega
    have tail : continuation (rest.getD extra 0) = true := by
      rw [List.getD_eq_getElem _ _ inside]
      exact tails _ (List.getElem_mem inside)
    have back := ih (by omega)
    rw [← Nat.add_assoc] at moves ⊢
    have ahead' : (utf8 before++utf8 run).length+extra+1 <
        (utf8 before++utf8 run++(String.utf8EncodeChar c++utf8 later)).length := by
      simp only [List.length_append,shape,List.length_cons]
      omega
    have behind : (utf8 before).length < (utf8 before++utf8 run).length+extra+1 := by omega
    rw [stepBack,moves,List.getD_cons_succ,tail,if_pos ⟨ahead',behind,rfl⟩,back]

theorem stepBack_cut (four : 4 ≤ limit) (before text : List Char) :
    stepBack (utf8 before++utf8 text) (utf8 before).length
        (min ((utf8 before).length+limit) (utf8 before++utf8 text).length) =
      (utf8 before++utf8 (cut limit limit text).1).length := by
  obtain ⟨small,next⟩ := cut_spec four limit text
  have whole := cut_whole limit limit text
  rcases next with all|⟨c,run,later,behind,none_,-⟩
  · rw [all,List.flatten_nil,List.append_nil] at whole
    rw [whole] at small ⊢
    have end_ : min ((utf8 before).length+limit) (utf8 before++utf8 text).length = (utf8 before++utf8 text).length := by
      rw [List.length_append]
      omega
    rw [end_]
    cases count : (utf8 before++utf8 text).length with
    | zero => rfl
    | succ stop =>
      unfold stepBack
      rw [count,if_neg fun more => Nat.lt_irrefl _ more.1]
  · have first : (cut limit limit text).1 ≠ [] := by
      intro nothing
      rw [nothing] at none_
      have bound := c.utf8Size_le_four
      simp only [utf8,List.flatMap_nil,List.length_nil] at none_
      omega
    have text_ : utf8 text = utf8 (cut limit limit text).1++(String.utf8EncodeChar c++utf8 (run++later.flatten)) := by
      conv_lhs => rw [← whole,behind,List.flatten_cons,List.cons_append,utf8_append]
      rfl
    obtain ⟨extra,same⟩ : ∃ extra, limit = (utf8 (cut limit limit text).1).length+extra := Nat.exists_eq_add_of_le small
    have short : extra < c.utf8Size := by omega
    have end_ : min ((utf8 before).length+limit) (utf8 before++utf8 text).length =
        (utf8 before++utf8 (cut limit limit text).1).length+extra := by
      rw [text_]
      simp only [List.length_append,String.length_utf8EncodeChar]
      omega
    rw [end_,text_,← List.append_assoc]
    exact stepBack_spec first extra short

theorem splitFrom_runs (four : 4 ≤ limit) (before text : List Char) (rounds : ℕ) (enough : text.length < rounds) :
    splitFrom limit (utf8 before++utf8 text) rounds (utf8 before).length =
      (runs limit text).mapM fun run => textDecode (utf8 run) := by
  induction rounds generalizing before text with
  | zero => exact absurd enough (Nat.not_lt_zero _)
  | succ rounds ih =>
    unfold splitFrom
    by_cases nothing : text = []
    · subst nothing
      have end_ : ¬(utf8 before).length < (utf8 before++utf8 []).length := by simp [utf8]
      rw [if_neg end_]
      rfl
    · obtain ⟨first,behind⟩ := runs_cons four nothing
      have more : (utf8 before).length < (utf8 before++utf8 text).length := by
        obtain ⟨c,text,rfl⟩ := List.exists_cons_of_ne_nil nothing
        have positive := c.utf8Size_pos
        simp only [utf8_length,List.length_append,List.map_cons,List.sum_cons]
        omega
      have whole := cut_whole limit limit text
      have chunk : (List.take (utf8 before++utf8 (cut limit limit text).1).length (utf8 before++utf8 text)).drop
          (utf8 before).length = utf8 (cut limit limit text).1 := by
        conv_lhs => rw [← whole,utf8_append,← List.append_assoc]
        rw [List.take_left',List.drop_left']
        · rfl
        · rw [whole]
      have rest : splitFrom limit (utf8 before++utf8 text) rounds (utf8 before++utf8 (cut limit limit text).1).length =
          (cut limit limit text).2.mapM fun run => textDecode (utf8 run) := by
        have shorter : ((cut limit limit text).2.flatten).length < rounds := by
          have lengths := congrArg List.length whole
          have positive := List.length_pos_of_ne_nil first
          rw [List.length_append] at lengths
          omega
        have later := ih (before++(cut limit limit text).1) _ shorter
        have same : utf8 (before++(cut limit limit text).1)++utf8 (cut limit limit text).2.flatten =
            utf8 before++utf8 text := by rw [← utf8_append,List.append_assoc,whole,utf8_append]
        rw [same,utf8_append,behind] at later
        exact later
      rw [if_pos more,stepBack_cut four]
      simp only [chunk,rest,runs,if_neg nothing,List.mapM_cons]

def unmarked : List Char → List Char
  | '\uFEFF'::text => text
  | text => text

theorem textDecode_utf8 (text : List Char) : textDecode (utf8 text) = some (unmarked text) := by
  rw [textDecode,utf8Decode_utf8,Option.map_some]
  rfl

theorem unmarked_cases (text : List Char) :
    text = '\uFEFF'::unmarked text ∨ (text.head? ≠ some '\uFEFF' ∧ unmarked text = text) := by
  unfold unmarked
  split
  next => exact .inl rfl
  next text other =>
    refine .inr ⟨?_,rfl⟩
    intro first
    obtain ⟨rest,same⟩ := List.head?_eq_some_iff.mp first
    exact other rest same

theorem unmarked_length_le (text : List Char) : (unmarked text).length ≤ text.length := by
  rcases unmarked_cases text with marked|⟨-,whole⟩
  · conv_rhs => rw [marked]
    exact Nat.le_succ _
  · rw [whole]

theorem unmarked_flatten (texts : List (List Char)) :
    (texts.map unmarked).flatten.length ≤ texts.flatten.length ∧
      ((texts.map unmarked).flatten = texts.flatten ↔ ∀ text ∈ texts, text.head? ≠ some '\uFEFF') := by
  induction texts with
  | nil => simp
  | cons text texts ih =>
    obtain ⟨shorter,same⟩ := ih
    have first := unmarked_length_le text
    rw [List.map_cons,List.flatten_cons,List.flatten_cons,List.length_append,List.length_append,List.forall_mem_cons]
    refine ⟨Nat.add_le_add first shorter,?_⟩
    rcases unmarked_cases text with marked|⟨other,whole⟩
    · have lost : (unmarked text++(texts.map unmarked).flatten).length < (text++texts.flatten).length := by
        conv_rhs => rw [marked]
        simp only [List.length_append,List.length_cons]
        omega
      have head : text.head? = some '\uFEFF' := by rw [marked,List.head?_cons]
      constructor
      · intro equal
        rw [equal] at lost
        exact absurd lost (Nat.lt_irrefl _)
      · intro none_
        exact absurd head none_.1
    · rw [whole,List.append_cancel_left_eq,same]
      exact ⟨fun rest => ⟨other,rest⟩,fun all => all.2⟩

end Cutting

theorem length_le_utf8 (text : List Char) : text.length ≤ (utf8 text).length := by
  rw [utf8_length]
  induction text with
  | nil => exact le_rfl
  | cons c text ih =>
    have positive := c.utf8Size_pos
    rw [List.length_cons,List.map_cons,List.sum_cons]
    omega

theorem splitRawTransportChunks_runs {content : List Char} (some_ : content ≠ []) :
    splitRawTransportChunks content = some ((runs rawTransportChunkBytes content).map unmarked) := by
  have bytes : (utf8 content).length ≠ 0 := by
    obtain ⟨c,text,rfl⟩ := List.exists_cons_of_ne_nil some_
    have positive := c.utf8Size_pos
    simp only [utf8_length,List.map_cons,List.sum_cons]
    omega
  have enough : content.length < (utf8 content).length+1 := by
    exact Nat.lt_succ_of_le (length_le_utf8 content)
  have split := @splitFrom_runs rawTransportChunkBytes (by decide) [] content _ enough
  rw [splitRawTransportChunks,if_neg bytes]
  simp only [utf8,List.flatMap_nil,List.nil_append,List.length_nil] at split ⊢
  rw [split]
  have each : (fun run => textDecode (utf8 run)) = fun run => some (unmarked run) := funext textDecode_utf8
  simp only [utf8] at each
  rw [each]
  exact List.mapM_pure

theorem serverOffsets_prefixes (serverOffset : ℕ) (chunks : List (List Char)) :
    serverOffsets serverOffset chunks =
      (List.range chunks.length).map fun i => serverOffset+(utf8 (chunks.take i).flatten).length := by
  induction chunks generalizing serverOffset with
  | nil => rfl
  | cons chunk chunks ih =>
    rw [serverOffsets,ih,List.length_cons,List.range_succ_eq_map,List.map_cons,List.map_map]
    refine congrArg₂ List.cons (by simp [utf8]) (List.map_congr_left fun i _ => ?_)
    simp only [Function.comp,List.take_succ_cons,List.flatten_cons,utf8_append,List.length_append]
    omega

/-- Chunks in which nothing of the content is lost. -/
structure Lossless (content : List Char) (chunks : List (List Char)) : Prop where
  small : ∀ chunk ∈ chunks, (utf8 chunk).length ≤ rawTransportChunkBytes
  filled : ∀ chunk ∈ chunks, chunk = [] → content = []
  whole : chunks.flatten = content
  offsets : ∀ serverOffset, ∃ befores : List (List Char), befores.length = chunks.length ∧
    serverOffsets serverOffset chunks = befores.map (fun before => serverOffset+(utf8 before).length) ∧
      ∀ before ∈ befores, before <+: content

/-- A content is cut in any case, and nothing of it is lost when no chunk has a byte order mark in
front. -/
theorem splitRawTransportChunks_lossless (content : List Char) :
    ∃ chunks, splitRawTransportChunks content = some chunks ∧
      (Lossless content chunks ↔ ∀ run ∈ runs rawTransportChunkBytes content, run.head? ≠ some '\uFEFF') := by
  have offsets : ∀ chunks : List (List Char), chunks.flatten = content → ∀ serverOffset,
      ∃ befores : List (List Char), befores.length = chunks.length ∧
        serverOffsets serverOffset chunks = befores.map (fun before => serverOffset+(utf8 before).length) ∧
          ∀ before ∈ befores, before <+: content := by
    intro chunks whole serverOffset
    refine ⟨(List.range chunks.length).map fun i => (chunks.take i).flatten,by simp,?_,?_⟩
    · rw [serverOffsets_prefixes,List.map_map]
      rfl
    · intro before member
      obtain ⟨i,-,rfl⟩ := List.mem_map.mp member
      exact ⟨(chunks.drop i).flatten,by rw [← List.flatten_append,List.take_append_drop,whole]⟩
  by_cases none_ : content = []
  · subst none_
    refine ⟨[[]],rfl,?_⟩
    have lossless : Lossless [] [[]] := ⟨by simp [utf8],fun _ _ _ => rfl,rfl,offsets _ rfl⟩
    exact ⟨fun _ => List.forall_mem_nil _,fun _ => lossless⟩
  · refine ⟨_,splitRawTransportChunks_runs none_,?_⟩
    obtain ⟨-,same⟩ := unmarked_flatten (runs rawTransportChunkBytes content)
    rw [runs_flatten] at same
    constructor
    · intro lossless
      exact same.mp lossless.whole
    · intro unmarked_
      have whole : (runs rawTransportChunkBytes content).map unmarked = runs rawTransportChunkBytes content := by
        refine (List.map_congr_left ?_).trans (List.map_id _)
        intro run member
        rcases unmarked_cases run with marked|⟨-,all⟩
        · exact absurd (by rw [marked,List.head?_cons]) (unmarked_ run member)
        · exact all
      rw [whole]
      refine ⟨?_,?_,runs_flatten _ _,offsets _ (runs_flatten _ _)⟩
      · intro run member
        exact (runs_small (by decide) member).2
      · intro run member nothing
        exact absurd nothing (runs_small (by decide) member).1

/-- A content that is a byte order mark is lost. -/
theorem splitRawTransportChunks_mark : splitRawTransportChunks ['\uFEFF'] = some [[]] ∧
    ¬Lossless ['\uFEFF'] [[]] :=
  ⟨by decide,fun lossless => by cases lossless.whole⟩

end ATape.RawTransport
