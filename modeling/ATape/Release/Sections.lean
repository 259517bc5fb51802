import ATape.Foundation.JsonLayout
import ATape.Foundation.Occurrences
import ATape.Release.Bundles

/-! The section of a release body that holds its bundle between two markers. -/
namespace ATape.Release
open Foundation Node

def releaseBundleProtocol : String := "atape.release-bundle.v1"

def sectionStart : List Char := "<!-- atape.release-bundle.v1:start -->".toList

def sectionEnd : List Char := "<!-- atape.release-bundle.v1:end -->".toList

def releaseBundleSection (bundle : ReleaseBundle) : Except Failure String := do
  let bundle ← decodeReleaseBundle bundle
  let value ← present (Json.parse (releaseBundleFingerprint bundle)) .malformed
  .ok (String.ofList (sectionStart++ '\n'::Json.lay escaping 0 value++ '\n'::sectionEnd))

/-! Bundles that are read from JSON. The last of the members of one name counts, and no other names are allowed. -/

def textOf (name : String) (members : List (String × Json)) : Option String :=
  match Json.member name members.reverse with
  | some (.str text) => some text
  | _ => none

def onlyNames (names : List String) (members : List (String × Json)) : Bool := members.all fun m => names.contains m.1

def ReleasePackage.read : Json → Option ReleasePackage
  | .obj members =>
    if onlyNames ["name","integrity","tarball"] members = false then none
    else do pure ⟨← textOf "name" members,← textOf "integrity" members,← textOf "tarball" members⟩
  | _ => none

def ReleaseBundle.read : Json → Option ReleaseBundle
  | .obj members =>
    if onlyNames ["protocol","version","captureStateContract","updateControlProtocol","packages"] members = false then none
    else do
      let protocol ← textOf "protocol" members
      if protocol ≠ releaseBundleProtocol then none
      else
        let version ← textOf "version" members
        let captureStateContract ← textOf "captureStateContract" members
        let updateControlProtocol ← textOf "updateControlProtocol" members
        match Json.member "packages" members.reverse with
        | some (.arr items) =>
          let packages ← items.mapM ReleasePackage.read
          pure {version,captureStateContract,updateControlProtocol,packages}
        | _ => none
  | _ => none

/-! Bodies. -/

/-- The blanks of `\s` and of `trim`. -/
def isSpace (c : Char) : Bool :=
  decide (0x09 ≤ c.toNat ∧ c.toNat ≤ 0x0d) || decide (0x2000 ≤ c.toNat ∧ c.toNat ≤ 0x200a) ||
    [0x20,0xa0,0x1680,0x2028,0x2029,0x202f,0x205f,0x3000,0xfeff].contains c.toNat

def trim (text : List Char) : List Char := ((text.dropWhile isSpace).reverse.dropWhile isSpace).reverse

def commentMark : List Char := ['<', '!', '-', '-']

def bundleName : List Char := "atape.release-bundle.".toList

/-- The pattern `<!--\s*atape\.release-bundle\.`. -/
def machineMarker : Pattern := fun text =>
  if commentMark <+: text ∧ bundleName <+: (text.drop 4).dropWhile isSpace then
    some (4+((text.drop 4).takeWhile isSpace).length+bundleName.length)
  else none

def unsupported (text : List Char) : Bool :=
  match machineMarker text with
  | some n => !(decide ("v1:start -->".toList <+: text.drop n) || decide ("v1:end -->".toList <+: text.drop n))
  | none => false

def releaseBundleFromBody (body : String) : Except Failure (Option ReleaseBundle) := do
  let text := body.toList
  failWhen (text.tails.any unsupported = true)
    (.thrown "Release body contains an unsupported or malformed bundle section.")
  let starts := occurrences (word sectionStart) 0 text+1
  let ends := occurrences (word sectionEnd) 0 text+1
  let machineMarkers := occurrences machineMarker 0 text
  if starts = 1 ∧ ends = 1 ∧ machineMarkers = 0 then .ok none
  else do
    failWhen (starts ≠ 2 ∨ ends ≠ 2 ∨ machineMarkers ≠ 2)
      (.thrown "Release body must contain one complete bundle section.")
    let start ← present (firstPlace sectionStart text) (.thrown "Release bundle section is malformed.")
    let start := start+sectionStart.length
    let finish ← present (firstPlace sectionEnd text) (.thrown "Release bundle section is malformed.")
    failWhen (finish < start) (.thrown "Release bundle section is malformed.")
    let value ← present (Json.parse (String.ofList (trim ((text.take finish).drop start)))) .malformed
    let bundle ← present (ReleaseBundle.read value) .malformed
    let bundle ← decodeReleaseBundle bundle
    .ok (some bundle)

/-! Markers begin with the comment and take no quotes. -/

theorem dropWhile_apart {p : Char → Bool} {d : Char} (other : p d = false) (text rest : List Char) :
    (text++d::rest).dropWhile p = text.dropWhile p++d::rest := by
  induction text with
  | nil => rw [List.nil_append,List.dropWhile_cons_of_neg (by simp [other])]; rfl
  | cons c text ih =>
    rw [List.cons_append,List.dropWhile_cons,List.dropWhile_cons]
    split
    next => exact ih
    next => rfl

theorem takeWhile_apart {p : Char → Bool} {d : Char} (other : p d = false) (text rest : List Char) :
    (text++d::rest).takeWhile p = text.takeWhile p := by
  induction text with
  | nil => rw [List.nil_append,List.takeWhile_cons_of_neg (by simp [other])]; rfl
  | cons c text ih =>
    rw [List.cons_append,List.takeWhile_cons,List.takeWhile_cons]
    split
    next => rw [ih]
    next => rfl

def MarkerLetter (c : Char) : Prop := isSpace c = true ∨ c ∈ commentMark.tail ∨ c ∈ bundleName

theorem machineMarker_headed : Headed machineMarker '<' MarkerLetter := by
  have blank : isSpace '<' = false := by decide
  have absent : '<' ∉ bundleName := by decide
  refine ⟨?_,?_,?_,?_⟩
  · intro c text n found
    unfold machineMarker at found
    split at found
    next both => exact (List.cons_prefix_cons.mp both.1).1.symm
    next => cases found
  · intro text n found
    unfold machineMarker at found
    split at found
    next =>
      cases found
      omega
    next => cases found
  · intro c text n found
    unfold machineMarker at found
    split at found
    next both =>
      obtain ⟨⟨rest,whole⟩,name⟩ := both
      obtain ⟨after,named⟩ := name
      obtain ⟨rfl,rfl⟩ : '<' = c ∧ ['!', '-', '-']++rest = text := List.cons.inj whole
      cases found
      have parts := List.takeWhile_append_dropWhile (p := isSpace) (l := rest)
      have cut : (('<'::(['!', '-', '-']++rest)).drop 4) = rest := rfl
      rw [cut] at named ⊢
      rw [← named] at parts
      have front : (['!', '-', '-']++rest).take (4+(rest.takeWhile isSpace).length+bundleName.length-1) =
          ['!', '-', '-']++(rest.takeWhile isSpace++bundleName) := by
        have size : 4+(rest.takeWhile isSpace).length+bundleName.length-1 =
            (['!', '-', '-']++(rest.takeWhile isSpace++bundleName)).length := by
          simp only [List.length_append,List.length_cons,List.length_nil]
          omega
        have text : ['!', '-', '-']++rest = ['!', '-', '-']++(rest.takeWhile isSpace++bundleName)++after := by
          rw [List.append_assoc,List.append_assoc,parts]
        rw [size]
        conv => lhs; rw [text]
        exact List.take_left
      rw [front]
      intro member
      rcases List.mem_append.mp member with mark|member
      · exact absurd mark (by decide)
      · rcases List.mem_append.mp member with space|named
        · have same := List.mem_takeWhile_imp space
          rw [blank] at same
          cases same
        · exact absent named
    next => cases found
  · intro c text d rest other
    obtain ⟨space,other⟩ := not_or.mp other
    obtain ⟨mark,name⟩ := not_or.mp other
    have solid : isSpace d = false := Bool.not_eq_true _ ▸ space
    unfold machineMarker
    by_cases front : commentMark <+: c::text
    · obtain ⟨behind,whole⟩ := front
      obtain ⟨rfl,rfl⟩ : '<' = c ∧ ['!', '-', '-']++behind = text := List.cons.inj whole
      have cut : ('<'::(['!', '-', '-']++behind)).drop 4 = behind := rfl
      have cut' : ('<'::(['!', '-', '-']++behind++d::rest)).drop 4 = behind++d::rest := rfl
      have first : commentMark <+: '<'::(['!', '-', '-']++behind) := ⟨behind,rfl⟩
      have first' : commentMark <+: '<'::(['!', '-', '-']++behind++d::rest) := ⟨behind++d::rest,rfl⟩
      simp only [cut,cut',first,first',dropWhile_apart solid,takeWhile_apart solid,prefix_apart name]
    · have front' : ¬commentMark <+: c::(text++d::rest) := by
        intro both
        obtain ⟨head,tail⟩ := List.cons_prefix_cons.mp both
        exact front (List.cons_prefix_cons.mpr ⟨head,(prefix_apart mark).mp tail⟩)
      rw [if_neg fun both => front' both.1,if_neg fun both => front both.1]

/-! The text of a section. -/

theorem occurrences_escaped {p : Pattern} {inside : Char → Prop} (headed : Headed p '<' inside) (quote : ¬inside '"')
    (backslash : ¬inside '\\') {text : List Char} (printable : ∀ c ∈ text, 0x20 ≤ c.toNat) (front : List Char) :
    occurrences p 0 (front++text.flatMap escapeChar) = occurrences p 0 (front++text) := by
  induction text generalizing front with
  | nil => rfl
  | cons c text ih =>
    obtain ⟨visible,printable⟩ := List.forall_mem_cons.mp printable
    have behind := ih printable []
    rw [List.nil_append,List.nil_append] at behind
    rw [List.flatMap_cons]
    by_cases isQuote : c = '"'
    · subst isQuote
      have escaped : escapeChar '"' = ['\\','"'] := rfl
      have plain := occurrences_apart headed [] quote (by decide) (text.flatMap escapeChar)
      rw [List.nil_append] at plain
      rw [escaped,List.cons_append,List.singleton_append,occurrences_apart headed front backslash (by decide),plain,
        occurrences_apart headed front quote (by decide),behind]
      simp [occurrences]
    · by_cases isBackslash : c = '\\'
      · subst isBackslash
        have escaped : escapeChar '\\' = ['\\','\\'] := rfl
        have plain := occurrences_apart headed [] backslash (by decide) (text.flatMap escapeChar)
        rw [List.nil_append] at plain
        rw [escaped,List.cons_append,List.singleton_append,occurrences_apart headed front backslash (by decide),plain,
          occurrences_apart headed front backslash (by decide),behind]
        simp [occurrences]
      · have own : escapeChar c = [c] := by
          unfold escapeChar
          split <;> first | contradiction | (exact absurd visible (by decide)) | exact if_neg (not_lt.mpr visible)
        have moved := ih printable (front++[c])
        rw [List.append_assoc,List.append_assoc] at moved
        rw [own,moved]
        rfl

/-- The bracket that opens a marker. -/
def Unmarked (text : List Char) : Prop := '<' ∉ text

theorem escaped_unmarked {text : List Char} (plain : Unmarked text) : Unmarked (text.flatMap escapeChar) := by
  intro member
  obtain ⟨c,inside,written⟩ := List.mem_flatMap.mp member
  have own : c = '<' := by
    unfold escapeChar at written
    split at written
    case h_8 =>
      split at written
      next small =>
        have digits : ∀ n < 16, n.digitChar ≠ '<' := by decide
        simp only [Json.hexEscape,List.mem_cons,List.not_mem_nil,or_false] at written
        rcases written with same|same|same|same|same|same
        · cases same
        · cases same
        · exact absurd same.symm (digits _ (Nat.mod_lt _ (by decide)))
        · exact absurd same.symm (digits _ (Nat.mod_lt _ (by decide)))
        · exact absurd same.symm (digits _ (Nat.mod_lt _ (by decide)))
        · exact absurd same.symm (digits _ (Nat.mod_lt _ (by decide)))
      next => exact (List.mem_singleton.mp written).symm
    all_goals exact absurd written (by decide)
  exact plain (own ▸ inside)

/-! The texts of a bundle, its contracts apart, hold no marker. -/

theorem numeral_unmarked {run : List Char} (valid : (Update.numeral run).isSome) : Unmarked run := by
  unfold Update.numeral at valid
  split at valid
  next zero =>
    rw [zero]
    unfold Unmarked
    decide
  next =>
    split at valid
    next => cases valid
    next plain =>
      simp only [Bool.or_eq_true,List.isEmpty_iff,decide_eq_true_eq,Bool.not_eq_true',Bool.not_eq_false,not_or,
        List.all_eq_true] at plain
      intro member
      exact absurd (plain.2 '<' member) (by decide)

theorem version_unmarked {version : String} (stable : stableVersion version = true) : Unmarked version.toList := by
  unfold stableVersion at stable
  split at stable
  next major minor patch read =>
    unfold Update.numerals at read
    split at read
    next first second third parts =>
      simp only [Option.bind_eq_bind,Option.bind_eq_some_iff,Option.pure_def,Option.some.injEq] at read
      obtain ⟨_,one,_,two,_,three,-⟩ := read
      have text : ['.'].intercalate (version.toList.splitOn '.') = version.toList := List.intercalate_splitOn _
      rw [parts] at text
      intro member
      rw [← text] at member
      simp only [List.intercalate,List.intersperse,List.flatten_cons,List.flatten_nil,List.append_nil,
        List.mem_append,List.mem_singleton] at member
      rcases member with member|member|member|member|member
      · exact numeral_unmarked (by rw [one]; rfl) member
      · exact absurd member (by decide)
      · exact numeral_unmarked (by rw [two]; rfl) member
      · exact absurd member (by decide)
      · exact numeral_unmarked (by rw [three]; rfl) member
    next => cases read
  next => cases stable

theorem name_unmarked {name : String} (valid : isPackageName name = true) : Unmarked name.toList := by
  unfold isPackageName at valid
  obtain ⟨-,valid⟩ := Bool.and_eq_true_iff.mp valid
  split at valid
  next first rest cut =>
    have text := List.dropPrefix?_eq_some_iff.mp cut
    obtain ⟨head,whole,same⟩ := text
    obtain ⟨front,rest_⟩ := Bool.and_eq_true_iff.mp valid
    intro member
    rw [whole] at member
    rcases List.mem_append.mp member with inside|inside
    · rw [beq_iff_eq.mp same] at inside
      exact absurd inside (by decide)
    · rcases List.mem_cons.mp inside with own|inside
      · rw [← own] at front
        exact absurd front (by decide)
      · exact absurd (List.all_eq_true.mp rest_ '<' inside) (by decide)
  next => cases valid

theorem integrity_unmarked {integrity : String} (valid : isIntegrity integrity = true) : Unmarked integrity.toList := by
  unfold isIntegrity Update.shaped at valid
  obtain ⟨length,each⟩ := Bool.and_eq_true_iff.mp valid
  have strict : ("sha512-".toList.map (fun c d => decide (d = c))++
      .replicate 85 (fun c => Update.isWord c || c = '+' || c = '/')++
        (fun c => c = 'A' || c = 'Q' || c = 'g' || c = 'w')::.replicate 2 fun c => decide (c = '=')).all
          (fun class_ => !class_ '<') = true := by decide
  generalize ("sha512-".toList.map (fun c d => decide (d = c))++
      .replicate 85 (fun c => Update.isWord c || c = '+' || c = '/')++
        (fun c => c = 'A' || c = 'Q' || c = 'g' || c = 'w')::.replicate 2 fun c => decide (c = '=') :
          List (Char → Bool)) = classes at length each strict
  intro member
  have chars : (classes.zip integrity.toList).map Prod.snd = integrity.toList :=
    List.map_snd_zip (of_decide_eq_true length).le
  rw [← chars] at member
  obtain ⟨place,inside,char⟩ := List.mem_map.mp member
  have taken := List.all_eq_true.mp each place inside
  have refused := List.all_eq_true.mp strict place.1 (List.of_mem_zip inside).1
  rw [char] at taken
  rw [taken] at refused
  cases refused

theorem tarball_unmarked {name version : String} (named : Unmarked name.toList) (numbered : Unmarked version.toList) :
    Unmarked (tarballOf name version).toList := by
  have rest : Unmarked (name.drop "@atape/".length).toString.toList := by
    intro member
    refine named ?_
    simp at member
    exact List.mem_of_mem_drop member
  unfold Unmarked tarballOf at *
  simp only [String.toList_append,List.mem_append,not_or]
  exact ⟨⟨⟨⟨⟨⟨by decide,named⟩,by decide⟩,rest⟩,by decide⟩,numbered⟩,by decide⟩

/-! The text between the markers. -/

theorem line_unmarked (depth : ℕ) : Unmarked (Json.line depth) := by
  intro member
  rcases List.mem_cons.mp member with other|other
  · exact absurd other (by decide)
  · exact absurd (List.eq_of_mem_replicate other) (by decide)

theorem quoted_unmarked {text : String} (plain : Unmarked text.toList) : Unmarked (Json.quoted escaping text) := by
  have escaped := escaped_unmarked plain
  unfold Unmarked Json.quoted escaping at *
  simp only [List.mem_append,List.mem_cons,List.not_mem_nil,or_false,not_or]
  exact ⟨⟨by decide,escaped⟩,by decide⟩

theorem package_unmarked {p : ReleasePackage} (name : Unmarked p.name.toList) (integrity : Unmarked p.integrity.toList)
    (tarball : Unmarked p.tarball.toList) (depth : ℕ) : Unmarked (Json.lay escaping depth p.json) := by
  have own := line_unmarked depth
  have inner := line_unmarked (depth+1)
  have first : Unmarked (Json.quoted escaping "name") := quoted_unmarked (by unfold Unmarked; decide)
  have second : Unmarked (Json.quoted escaping "integrity") := quoted_unmarked (by unfold Unmarked; decide)
  have third : Unmarked (Json.quoted escaping "tarball") := quoted_unmarked (by unfold Unmarked; decide)
  have name := quoted_unmarked name
  have integrity := quoted_unmarked integrity
  have tarball := quoted_unmarked tarball
  unfold Unmarked at *
  simp [ReleasePackage.json,Json.lay,Json.layMembers,own,inner,first,second,third,name,integrity,tarball]

theorem items_unmarked {items : List Json} (each : ∀ j ∈ items, ∀ depth, Unmarked (Json.lay escaping depth j)) (depth : ℕ) :
    Unmarked (Json.layItems escaping depth items) := by
  have own := line_unmarked depth
  have inner := line_unmarked (depth+1)
  induction items with
  | nil =>
    unfold Unmarked at *
    simp [Json.layItems,own]
  | cons j items ih =>
    obtain ⟨first,rest⟩ := List.forall_mem_cons.mp each
    have head := first (depth+1)
    have tail := ih rest
    unfold Unmarked at *
    simp [Json.layItems,inner,head,tail]

theorem array_unmarked {items : List Json} (each : ∀ j ∈ items, ∀ depth, Unmarked (Json.lay escaping depth j)) (depth : ℕ) :
    Unmarked (Json.lay escaping depth (.arr items)) := by
  cases items with
  | nil =>
    unfold Unmarked
    simp [Json.lay]
  | cons j items =>
    obtain ⟨first,rest⟩ := List.forall_mem_cons.mp each
    have inner := line_unmarked (depth+1)
    have head := first (depth+1)
    have tail := items_unmarked rest depth
    unfold Unmarked at *
    simp [Json.lay,inner,head,tail]

theorem fits_parts {b : ReleaseBundle} (valid : b.fits = true) : stableVersion b.version = true ∧
    isOpaqueProtocol b.captureStateContract = true ∧ isOpaqueProtocol b.updateControlProtocol = true ∧
      ∀ p ∈ b.packages, p.fits = true ∧ p.tarball = tarballOf p.name b.version := by
  unfold ReleaseBundle.fits at valid
  simp only [Bool.and_eq_true,List.all_eq_true,decide_eq_true_eq] at valid
  obtain ⟨⟨⟨⟨⟨⟨⟨⟨stable,contract⟩,control⟩,-⟩,-⟩,packages⟩,-⟩,-⟩,tarballs⟩ := valid
  exact ⟨stable,contract,control,fun p member => ⟨packages p member,tarballs p member⟩⟩

theorem laid_packages {b : ReleaseBundle} (valid : b.fits = true) (depth : ℕ) :
    Unmarked (Json.lay escaping depth (.arr ((sortPackages b.packages).map ReleasePackage.json))) := by
  obtain ⟨stable,-,-,packages⟩ := fits_parts valid
  apply array_unmarked
  intro j member
  obtain ⟨p,inside,rfl⟩ := List.mem_map.mp member
  obtain ⟨fits,tarball⟩ := packages p ((List.mem_insertionSort _).mp inside)
  unfold ReleasePackage.fits at fits
  simp only [Bool.and_eq_true] at fits
  have named := name_unmarked fits.1.1
  refine package_unmarked named (integrity_unmarked fits.1.2) ?_
  rw [tarball]
  exact tarball_unmarked named (version_unmarked stable)

theorem laid_parts {b : ReleaseBundle} (valid : b.fits = true) : ∃ before between after,
    Unmarked before ∧ Unmarked between ∧ Unmarked after ∧
      Json.lay escaping 0 (.obj (b.members releaseBundleProtocol)) =
        before++ '"'::(b.captureStateContract.toList.flatMap escapeChar++ '"'::(between++
          '"'::(b.updateControlProtocol.toList.flatMap escapeChar++ '"'::after))) := by
  obtain ⟨stable,-,-,-⟩ := fits_parts valid
  have protocol : Unmarked (Json.quoted escaping releaseBundleProtocol) := quoted_unmarked (by unfold Unmarked; decide)
  have names : ∀ name ∈ ["protocol","version","captureStateContract","updateControlProtocol","packages"],
      Unmarked (Json.quoted escaping name) := by
    intro name member
    apply quoted_unmarked
    revert name
    unfold Unmarked
    decide
  have version := quoted_unmarked (version_unmarked stable)
  have packages := laid_packages valid 1
  have line := line_unmarked 1
  have last := line_unmarked 0
  have one := names "protocol" (by decide)
  have two := names "version" (by decide)
  have three := names "captureStateContract" (by decide)
  have four := names "updateControlProtocol" (by decide)
  have five := names "packages" (by decide)
  refine ⟨'\x7b'::Json.line 1++Json.quoted escaping "protocol"++ ':':: ' '::Json.quoted escaping releaseBundleProtocol++
      ','::Json.line 1++Json.quoted escaping "version"++ ':':: ' '::Json.quoted escaping b.version++
      ','::Json.line 1++Json.quoted escaping "captureStateContract"++[':', ' '],
    ','::Json.line 1++Json.quoted escaping "updateControlProtocol"++[':', ' '],
    ','::Json.line 1++Json.quoted escaping "packages"++ ':':: ' '::
      Json.lay escaping 1 (.arr ((sortPackages b.packages).map ReleasePackage.json))++Json.line 0++['\x7d'],?_,?_,?_,?_⟩
  · unfold Unmarked at *
    simp [line,one,two,three,protocol,version]
  · unfold Unmarked at *
    simp [line,four]
  · unfold Unmarked at *
    simp [line,last,five,packages]
  · simp only [ReleaseBundle.members,Json.lay,Json.layMembers,List.append_assoc,List.cons_append,List.nil_append]
    simp [Json.quoted,escaping]

end ATape.Release
