import ATape.Release.Sections

/-! Reading a section back from a body. It is found when no other marker is in the body, and refused otherwise. -/
namespace ATape.Release
open Foundation Node

def hasMarker (text : String) : Bool := text.toList.tails.any fun rest => (machineMarker rest).isSome

theorem hasMarker_iff (text : String) : hasMarker text = false ↔ occurrences machineMarker 0 text.toList = 0 := by
  unfold hasMarker
  induction text.toList with
  | nil => decide
  | cons c rest ih =>
    rw [List.tails_cons,List.any_cons,Bool.or_eq_false_iff,ih,occurrences_cons machineMarker_headed]
    cases machineMarker (c::rest) <;> simp

theorem start_head : sectionStart = '<'::sectionStart.tail := by decide

theorem end_head : sectionEnd = '<'::sectionEnd.tail := by decide

theorem start_headed : Headed (word sectionStart) '<' (· ∈ sectionStart.tail) := by
  have headed := word_headed (show '<' ∉ sectionStart.tail by decide)
  rwa [← start_head] at headed

theorem end_headed : Headed (word sectionEnd) '<' (· ∈ sectionEnd.tail) := by
  have headed := word_headed (show '<' ∉ sectionEnd.tail by decide)
  rwa [← end_head] at headed

/-! The markers of the two sections. -/

theorem start_parts : sectionStart = commentMark++ ' '::(bundleName++"v1:start -->".toList) := by decide

theorem end_parts : sectionEnd = commentMark++ ' '::(bundleName++"v1:end -->".toList) := by decide

theorem machineMarker_named (rest : List Char) : machineMarker (commentMark++ ' '::(bundleName++rest)) = some 26 := by
  obtain ⟨first,others,name,solid⟩ : ∃ first others, bundleName = first::others ∧ isSpace first = false :=
    ⟨_,_,rfl,by decide⟩
  have cut : (commentMark++ ' '::(bundleName++rest)).drop 4 = ' '::(bundleName++rest) := rfl
  have behind : (' '::(bundleName++rest)).dropWhile isSpace = bundleName++rest := by
    rw [List.dropWhile_cons_of_pos (by decide),name,List.cons_append,List.dropWhile_cons_of_neg (by simp [solid])]
  have blank : (' '::(bundleName++rest)).takeWhile isSpace = [' '] := by
    rw [List.takeWhile_cons_of_pos (by decide),name,List.cons_append,List.takeWhile_cons_of_neg (by simp [solid])]
  have size : bundleName.length = 21 := by decide
  unfold machineMarker
  rw [cut,behind,if_pos ⟨List.prefix_append _ _,List.prefix_append _ _⟩,blank,size]
  rfl

theorem marker_behind (version rest : List Char) :
    (commentMark++ ' '::(bundleName++(version++rest))).drop 26 = version++rest := by
  have front : commentMark++ ' '::(bundleName++(version++rest)) = (commentMark++ ' '::bundleName)++(version++rest) := by simp
  have size : (commentMark++ ' '::bundleName).length = 26 := by decide
  rw [front,← size,List.drop_left]

theorem unsupported_start (rest : List Char) : unsupported (sectionStart++rest) = false := by
  have text : sectionStart++rest = commentMark++ ' '::(bundleName++("v1:start -->".toList++rest)) := by
    rw [start_parts]
    simp
  unfold unsupported
  rw [text,machineMarker_named]
  dsimp only
  rw [marker_behind,decide_eq_true (List.prefix_append _ _)]
  rfl

theorem unsupported_end (rest : List Char) : unsupported (sectionEnd++rest) = false := by
  have text : sectionEnd++rest = commentMark++ ' '::(bundleName++("v1:end -->".toList++rest)) := by
    rw [end_parts]
    simp
  unfold unsupported
  rw [text,machineMarker_named]
  dsimp only
  rw [marker_behind,decide_eq_true (List.prefix_append _ _),Bool.or_true]
  rfl

theorem unsupported_marker (text : List Char) (found : unsupported text = true) : (machineMarker text).isSome := by
  unfold unsupported at found
  cases marker : machineMarker text with
  | none =>
    rw [marker] at found
    cases found
  | some n => rfl

theorem start_marker (rest : List Char) : (machineMarker (sectionStart++rest)).isSome := by
  have text : sectionStart++rest = commentMark++ ' '::(bundleName++("v1:start -->".toList++rest)) := by
    rw [start_parts]
    simp
  rw [text,machineMarker_named]
  rfl

theorem end_marker (rest : List Char) : (machineMarker (sectionEnd++rest)).isSome := by
  have text : sectionEnd++rest = commentMark++ ' '::(bundleName++("v1:end -->".toList++rest)) := by
    rw [end_parts]
    simp
  rw [text,machineMarker_named]
  rfl

theorem start_not_end (rest : List Char) : word sectionEnd (sectionStart++rest) = none := by
  apply if_neg
  intro front
  rw [start_parts,end_parts] at front
  simp only [List.append_assoc,List.cons_append] at front
  have behind := (List.cons_prefix_cons.mp ((List.prefix_append_right_inj commentMark).mp front)).2
  have differ := (List.prefix_append_right_inj bundleName).mp behind
  have text : "v1:start -->".toList++rest = ['v', '1', ':', 's']++("tart -->".toList++rest) := rfl
  have text' : "v1:end -->".toList = ['v', '1', ':', 'e']++"nd -->".toList := rfl
  rw [text,text'] at differ
  simp at differ

theorem end_not_start (rest : List Char) : word sectionStart (sectionEnd++rest) = none := by
  apply if_neg
  intro front
  rw [start_parts,end_parts] at front
  simp only [List.append_assoc,List.cons_append] at front
  have behind := (List.cons_prefix_cons.mp ((List.prefix_append_right_inj commentMark).mp front)).2
  have differ := (List.prefix_append_right_inj bundleName).mp behind
  have text : "v1:end -->".toList++rest = ['v', '1', ':', 'e']++("nd -->".toList++rest) := rfl
  have text' : "v1:start -->".toList = ['v', '1', ':', 's']++"tart -->".toList := rfl
  rw [text,text'] at differ
  simp at differ

theorem occurrences_unmarked {letters : List Char} (headed : Headed (word letters) '<' (· ∈ letters.tail))
    (marker : ∀ rest, (machineMarker (letters++rest)).isSome) {text : List Char}
    (absent : occurrences machineMarker 0 text = 0) : occurrences (word letters) 0 text = 0 := by
  induction text with
  | nil => rfl
  | cons c rest ih =>
    rw [occurrences_cons machineMarker_headed] at absent
    rw [occurrences_cons headed,ih (by omega)]
    cases found : word letters (c::rest) with
    | none => rfl
    | some n =>
      unfold word at found
      split at found
      next front =>
        obtain ⟨after,whole⟩ := front
        have here := marker after
        rw [whole] at here
        rw [if_pos here] at absent
        omega
      next => cases found

/-! A body around a section. -/

/-- A body: what is before the section, its value, and what is behind it. -/
def bodyText (front laid back : List Char) : List Char :=
  front++sectionStart++ '\n'::laid++ '\n'::sectionEnd++back

section Body
variable {b : ReleaseBundle} (valid : b.fits = true) (front back : List Char)

theorem opaque_printable {value : String} (opaque_ : isOpaqueProtocol value = true) : ∀ c ∈ value.toList, 0x20 ≤ c.toNat := by
  intro c member
  unfold isOpaqueProtocol at opaque_
  simp only [Bool.and_eq_true,List.all_eq_true,decide_eq_true_eq] at opaque_
  exact (opaque_.2 c member).1

include valid

theorem occurrences_body {p : Pattern} {inside : Char → Prop} (headed : Headed p '<' inside) (quote : ¬inside '"')
    (backslash : ¬inside '\\') (bracket : ¬inside '<') :
    occurrences p 0 (bodyText front (Json.lay escaping 0 (.obj (b.members releaseBundleProtocol))) back) =
      occurrences p 0 front+occurrences p 0 b.captureStateContract.toList+
        occurrences p 0 b.updateControlProtocol.toList+occurrences p 0 back+
        (if (p (sectionStart++('\n'::Json.lay escaping 0 (.obj (b.members releaseBundleProtocol))++
          '\n'::sectionEnd++back))).isSome then 1 else 0)+
        if (p (sectionEnd++back)).isSome then 1 else 0 := by
  obtain ⟨stable,contract,control,-⟩ := fits_parts valid
  obtain ⟨before,between,after,plainBefore,plainBetween,plainAfter,laid⟩ := laid_parts valid
  have startTail : '<' ∉ sectionStart.tail := by decide
  have endTail : '<' ∉ sectionEnd.tail := by decide
  have single : '<' ∉ ['\n'] := by decide
  rw [laid]
  have first := occurrences_escaped headed quote backslash (opaque_printable contract) []
  have second := occurrences_escaped headed quote backslash (opaque_printable control) []
  rw [List.nil_append,List.nil_append] at first second
  -- the parts from the end to the beginning
  have last : occurrences p 0 (sectionEnd++back) =
      (if (p (sectionEnd++back)).isSome then 1 else 0)+occurrences p 0 back := by
    conv => lhs; rw [end_head]
    rw [List.cons_append,occurrences_cons headed,occurrences_pass headed endTail,← List.cons_append,← end_head]
  have tail : occurrences p 0 (after++ '\n'::(sectionEnd++back)) = occurrences p 0 (sectionEnd++back) := by
    have passed := occurrences_pass headed single (sectionEnd++back)
    rw [occurrences_pass headed plainAfter]
    exact passed
  have middle : occurrences p 0 (before++ '"'::(b.captureStateContract.toList.flatMap escapeChar++ '"'::(between++
      '"'::(b.updateControlProtocol.toList.flatMap escapeChar++ '"'::(after++ '\n'::(sectionEnd++back)))))) =
      occurrences p 0 b.captureStateContract.toList+(occurrences p 0 b.updateControlProtocol.toList+
        occurrences p 0 (sectionEnd++back)) := by
    rw [occurrences_apart headed before quote (by decide),occurrences_none headed plainBefore,
      occurrences_apart headed _ quote (by decide),occurrences_apart headed between quote (by decide),
      occurrences_none headed plainBetween,occurrences_apart headed _ quote (by decide),tail,first,second]
    omega
  have text : ∀ X : List Char, bodyText front X back = front++ '<'::(sectionStart.tail++('\n'::(X++ '\n'::(sectionEnd++back)))) := by
    intro X
    unfold bodyText
    conv => lhs; rw [start_head]
    simp
  have own : ∀ X : List Char, '<'::(sectionStart.tail++('\n'::(X++ '\n'::(sectionEnd++back)))) =
      sectionStart++('\n'::X++ '\n'::sectionEnd++back) := by
    intro X
    conv => rhs; rw [start_head]
    simp
  have newline : ∀ X : List Char, occurrences p 0 ('\n'::X) = occurrences p 0 X := fun X => occurrences_pass headed single X
  rw [text,occurrences_append headed front bracket,occurrences_cons headed,own,occurrences_pass headed startTail,newline]
  simp only [List.append_assoc,List.cons_append] at middle ⊢
  rw [middle,last]
  omega

end Body

/-! The value of a section is read back. -/

def ReleaseBundle.sorted (b : ReleaseBundle) : ReleaseBundle := {b with packages := sortPackages b.packages}

theorem sortPackages_perm (packages : List ReleasePackage) : (sortPackages packages).Perm packages := List.perm_insertionSort _ _

theorem sortPackages_again (packages : List ReleasePackage) : sortPackages (sortPackages packages) = sortPackages packages := by
  have total : Std.Total fun a b : ReleasePackage => units a.name ≤ units b.name := ⟨fun a b => le_total _ _⟩
  have transitive : IsTrans ReleasePackage fun a b => units a.name ≤ units b.name := ⟨fun _ _ _ => le_trans⟩
  exact List.Pairwise.insertionSort_eq (List.pairwise_insertionSort _ packages)

theorem sorted_fits {b : ReleaseBundle} (valid : b.fits = true) : b.sorted.fits = true := by
  have perm := sortPackages_perm b.packages
  have all : ∀ q : ReleasePackage → Bool, (sortPackages b.packages).all q = b.packages.all q := fun q => perm.all_eq
  have any : ∀ q : ReleasePackage → Bool, (sortPackages b.packages).any q = b.packages.any q := fun q => perm.any_eq
  have distinct : ((sortPackages b.packages).map ReleasePackage.name).Nodup ↔ (b.packages.map ReleasePackage.name).Nodup :=
    (perm.map _).nodup_iff
  unfold ReleaseBundle.fits ReleaseBundle.sorted at *
  simpa only [all,any,distinct,perm.length_eq] using valid

theorem read_package (p : ReleasePackage) : ReleasePackage.read p.json = some p := by
  simp [ReleasePackage.read,ReleasePackage.json,onlyNames,textOf]

theorem read_packages (packages : List ReleasePackage) :
    packages.mapM (ReleasePackage.read ∘ ReleasePackage.json) = some packages := by
  induction packages with
  | nil => rfl
  | cons p packages ih => simp [List.mapM_cons,read_package,ih]

theorem read_bundle (b : ReleaseBundle) : ReleaseBundle.read (.obj (b.members releaseBundleProtocol)) = some b.sorted := by
  simp [ReleaseBundle.read,ReleaseBundle.members,onlyNames,textOf,read_packages,ReleaseBundle.sorted]

theorem trim_laid (members : List (String × Json)) (filled : members ≠ []) :
    trim ('\n'::Json.lay escaping 0 (.obj members)++['\n']) = Json.lay escaping 0 (.obj members) := by
  have ends : ∀ others, ∃ front, Json.layMembers escaping 0 others = front++['\x7d'] := by
    intro others
    induction others with
    | nil => exact ⟨_,Json.layMembers.eq_1 escaping 0⟩
    | cons m others ih =>
      obtain ⟨front,whole⟩ := ih
      rw [Json.layMembers,whole]
      exact ⟨_,(List.append_assoc _ _ _).symm⟩
  obtain ⟨⟨name,first⟩,others,rfl⟩ := List.exists_cons_of_ne_nil filled
  obtain ⟨front,whole⟩ := ends others
  obtain ⟨middle,text⟩ : ∃ middle, Json.lay escaping 0 (.obj ((name,first)::others)) = '\x7b'::(middle++['\x7d']) := by
    rw [Json.lay,whole]
    exact ⟨Json.line 1++Json.quoted escaping name++ ':':: ' '::Json.lay escaping 1 first++front,by simp⟩
  have open_ : isSpace '\x7b' = false := by decide
  have close : isSpace '\x7d' = false := by decide
  have newline : isSpace '\n' = true := by decide
  rw [text]
  unfold trim
  rw [List.cons_append,List.dropWhile_cons_of_pos newline,List.cons_append,List.dropWhile_cons_of_neg (by simp [open_])]
  simp [newline,close]

/-! A section is read back where no other marker is. -/

section Read
variable {b : ReleaseBundle} (valid : b.fits = true) (front back : List Char)
include valid

theorem markers_body : occurrences machineMarker 0
    (bodyText front (Json.lay escaping 0 (.obj (b.members releaseBundleProtocol))) back) =
      occurrences machineMarker 0 front+occurrences machineMarker 0 b.captureStateContract.toList+
        occurrences machineMarker 0 b.updateControlProtocol.toList+occurrences machineMarker 0 back+2 := by
  have quote : ¬MarkerLetter '"' := by
    unfold MarkerLetter
    decide
  have backslash : ¬MarkerLetter '\\' := by
    unfold MarkerLetter
    decide
  have bracket : ¬MarkerLetter '<' := by
    unfold MarkerLetter
    decide
  rw [occurrences_body valid front back machineMarker_headed quote backslash bracket,if_pos (start_marker _),
    if_pos (end_marker _)]

theorem fromBody_section (absent : occurrences machineMarker 0 front = 0) (absent' : occurrences machineMarker 0 back = 0)
    (contract : occurrences machineMarker 0 b.captureStateContract.toList = 0)
    (control : occurrences machineMarker 0 b.updateControlProtocol.toList = 0) :
    releaseBundleFromBody (String.ofList
      (bodyText front (Json.lay escaping 0 (.obj (b.members releaseBundleProtocol))) back)) = .ok (some b.sorted) := by
  have markers := markers_body valid front back
  rw [absent,absent',contract,control] at markers
  have starts := occurrences_body valid front back start_headed (by decide) (by decide) (by decide)
  rw [occurrences_unmarked start_headed start_marker absent,occurrences_unmarked start_headed start_marker absent',
    occurrences_unmarked start_headed start_marker contract,occurrences_unmarked start_headed start_marker control,
    end_not_start,word_found] at starts
  have ends := occurrences_body valid front back end_headed (by decide) (by decide) (by decide)
  rw [occurrences_unmarked end_headed end_marker absent,occurrences_unmarked end_headed end_marker absent',
    occurrences_unmarked end_headed end_marker contract,occurrences_unmarked end_headed end_marker control,
    List.append_assoc,start_not_end,word_found] at ends
  generalize laid : Json.lay escaping 0 (.obj (b.members releaseBundleProtocol)) = value at markers starts ends ⊢
  have bracket : ¬MarkerLetter '<' := by
    unfold MarkerLetter
    decide
  -- between the two markers there is none
  have text : bodyText front value back =
      front++ '<'::((sectionStart.tail++ '\n'::value++['\n'])++ '<'::(sectionEnd.tail++back)) := by
    unfold bodyText
    conv => lhs; rw [start_head,end_head]
    simp
  have own : '<'::((sectionStart.tail++ '\n'::value++['\n'])++ '<'::(sectionEnd.tail++back)) =
      sectionStart++('\n'::value++['\n']++ '<'::(sectionEnd.tail++back)) := by
    conv => rhs; rw [start_head]
    simp
  have own' : '<'::(sectionEnd.tail++back) = sectionEnd++back := by
    conv => rhs; rw [end_head]
    rfl
  have inner := markers
  rw [text,occurrences_append machineMarker_headed front bracket,occurrences_cons machineMarker_headed,own,
    if_pos (start_marker _),occurrences_append machineMarker_headed _ bracket,occurrences_cons machineMarker_headed,own',
    if_pos (end_marker _)] at inner
  have supported : ¬(bodyText front value back).tails.any unsupported = true := by
    have empty : unsupported [] = false := by decide
    rw [text,tails_pass machineMarker_headed unsupported_marker absent bracket,List.tails_cons,List.any_cons,own,
      unsupported_start,tails_pass machineMarker_headed unsupported_marker (by omega) bracket,List.tails_cons,List.any_cons,
      own',unsupported_end,tails_none machineMarker_headed unsupported_marker (by omega) empty]
    decide
  -- where the value begins and where it ends
  have begins : firstPlace sectionStart (bodyText front value back) = some front.length := by
    have found := firstPlace_append (show '<' ∉ sectionStart.tail by decide)
      (by rw [← start_head]; exact occurrences_unmarked start_headed start_marker absent)
      ('\n'::value++ '\n'::sectionEnd++back)
    rw [← start_head] at found
    rw [← found]
    unfold bodyText
    simp
  have finishes : firstPlace sectionEnd (bodyText front value back) = some (front++sectionStart++ '\n'::value++['\n']).length := by
    have whole : bodyText front value back = front++sectionStart++ '\n'::value++['\n']++ '<'::(sectionEnd.tail++back) := by
      rw [own']
      unfold bodyText
      simp
    have before : occurrences (word sectionEnd) 0 (front++sectionStart++ '\n'::value++['\n']) = 0 := by
      rw [whole,occurrences_append end_headed _ (by decide),occurrences_cons end_headed,own',word_found] at ends
      simp only [Option.isSome_some,if_true,Option.isSome_none,Bool.false_eq_true,if_false] at ends
      omega
    have found := firstPlace_append (show '<' ∉ sectionEnd.tail by decide) (by rw [← end_head]; exact before) back
    rw [← end_head] at found
    rw [whole,own',← found,List.append_assoc _ sectionEnd back]
  have slice : ((bodyText front value back).take (front++sectionStart++ '\n'::value++['\n']).length).drop
      (front.length+sectionStart.length) = '\n'::value++['\n'] := by
    have whole : bodyText front value back = (front++sectionStart++ '\n'::value++['\n'])++(sectionEnd++back) := by
      unfold bodyText
      simp
    have size : front.length+sectionStart.length = (front++sectionStart).length := List.length_append.symm
    rw [whole,List.take_left,size,List.append_assoc _ ('\n'::value),List.drop_left]
  have trimmed := trim_laid (b.members releaseBundleProtocol) (List.cons_ne_nil _ _)
  have parsed := Json.parse_laid escaping (show Json.Integral (.obj (b.members releaseBundleProtocol)) from
    integral_members b releaseBundleProtocol)
  rw [laid] at trimmed parsed
  have forward : ¬(front++sectionStart++ '\n'::value++['\n']).length < front.length+sectionStart.length := by
    simp only [List.length_append]
    omega
  have decoded : decodeReleaseBundle b.sorted = .ok b.sorted := if_pos (sorted_fits valid)
  simp only [Option.isSome_some,if_true,Option.isSome_none,Bool.false_eq_true,if_false] at starts ends
  unfold releaseBundleFromBody
  rw [String.toList_ofList]
  dsimp only
  rw [failWhen_neg _ supported,ok_bind,starts,ends,markers,if_neg (by decide),failWhen_neg _ (by decide),ok_bind,begins,present_some,ok_bind,finishes,
    present_some,ok_bind,failWhen_neg _ forward,ok_bind,slice,trimmed,parsed,present_some,ok_bind,read_bundle,present_some,
    ok_bind,decoded,ok_bind]

theorem fromBody_refused (marked : occurrences machineMarker 0 front+occurrences machineMarker 0 b.captureStateContract.toList+
    occurrences machineMarker 0 b.updateControlProtocol.toList+occurrences machineMarker 0 back ≠ 0) :
    ∃ message, releaseBundleFromBody (String.ofList
      (bodyText front (Json.lay escaping 0 (.obj (b.members releaseBundleProtocol))) back)) = .error (.thrown message) := by
  have markers := markers_body valid front back
  unfold releaseBundleFromBody
  rw [String.toList_ofList]
  dsimp only
  by_cases malformed : (bodyText front (Json.lay escaping 0 (.obj (b.members releaseBundleProtocol))) back).tails.any
      unsupported = true
  · rw [failWhen_pos _ malformed]
    exact ⟨_,rfl⟩
  · rw [failWhen_neg _ malformed,ok_bind,if_neg (by omega),failWhen_pos _ (by omega)]
    exact ⟨_,rfl⟩

end Read

theorem section_text {b : ReleaseBundle} (valid : b.fits = true) : releaseBundleSection b = .ok
    (String.ofList (bodyText [] (Json.lay escaping 0 (.obj (b.members releaseBundleProtocol))) [])) := by
  have decoded : decodeReleaseBundle b = .ok b := if_pos valid
  have written := Json.parse_written escaping (show Json.Integral (.obj (b.members releaseBundleProtocol)) from
    integral_members b releaseBundleProtocol) (.inl rfl)
  have parsed : Json.parse (releaseBundleFingerprint b) = some (.obj (b.members releaseBundleProtocol)) := by
    rwa [List.append_nil] at written
  rw [releaseBundleSection,decoded,ok_bind,parsed,present_some,ok_bind,bodyText,List.append_nil,List.nil_append]

theorem body_append (front back : String) (laid : List Char) :
    front++String.ofList (bodyText [] laid [])++back = String.ofList (bodyText front.toList laid back.toList) := by
  apply String.toList_inj.mp
  simp [bodyText]

/-- A section in a body without other markers is read back as its bundle, and a body with another one is refused. -/
theorem section_read_back (b : ReleaseBundle) (valid : b.fits = true) (front back : String) : ∃ text,
    releaseBundleSection b = .ok text ∧
      ((hasMarker front || hasMarker b.captureStateContract || hasMarker b.updateControlProtocol || hasMarker back) = false →
        ∃ b', releaseBundleFromBody (front++text++back) = .ok (some b') ∧ b'.version = b.version ∧
          b'.captureStateContract = b.captureStateContract ∧ b'.updateControlProtocol = b.updateControlProtocol ∧
          b'.packages.Perm b.packages ∧ releaseBundleFingerprint b' = releaseBundleFingerprint b) ∧
      ((hasMarker front || hasMarker b.captureStateContract || hasMarker b.updateControlProtocol || hasMarker back) = true →
        ∃ message, releaseBundleFromBody (front++text++back) = .error (.thrown message)) := by
  refine ⟨_,section_text valid,?_,?_⟩
  · intro clean
    simp only [Bool.or_eq_false_iff,hasMarker_iff] at clean
    obtain ⟨⟨⟨before,contract⟩,control⟩,behind⟩ := clean
    refine ⟨b.sorted,?_,rfl,rfl,rfl,sortPackages_perm _,?_⟩
    · rw [body_append]
      exact fromBody_section valid _ _ before behind contract control
    · simp [releaseBundleFingerprint,ReleaseBundle.members,ReleaseBundle.sorted,sortPackages_again]
  · intro marked
    rw [body_append]
    apply fromBody_refused valid
    intro none_
    have clean : (hasMarker front || hasMarker b.captureStateContract || hasMarker b.updateControlProtocol ||
        hasMarker back) = false := by
      simp only [Bool.or_eq_false_iff,hasMarker_iff]
      omega
    rw [clean] at marked
    cases marked

/-- The bundle of a version whose contracts are these. -/
def officialBundle (contract : String) : ReleaseBundle := ⟨"1.0.0",contract,"atape.update-control.v1",officialPackages "1.0.0"⟩

theorem section_read_back_official : ∃ text, releaseBundleSection (officialBundle "atape.capture.v1") = .ok text ∧
    ∃ b', releaseBundleFromBody ("Notes\n\n"++text++"\n") = .ok (some b') ∧
      releaseBundleFingerprint b' = releaseBundleFingerprint (officialBundle "atape.capture.v1") := by
  obtain ⟨text,written,read,-⟩ := section_read_back (officialBundle "atape.capture.v1")
    (official_fits (by decide) (by decide) (by decide)) "Notes\n\n" "\n"
  obtain ⟨b',found,-,-,-,-,same⟩ := read (by decide)
  exact ⟨text,written,b',found,same⟩

/-- A body with the marker of another version in front of the section is refused, and so is a section whose contract
is the marker of its end. -/
theorem markers_refused :
    ((officialBundle "atape.capture.v1").fits = true ∧
      ∃ text, releaseBundleSection (officialBundle "atape.capture.v1") = .ok text ∧
        ∃ message, releaseBundleFromBody ("<!-- atape.release-bundle.v2:start -->"++text) = .error (.thrown message)) ∧
    (officialBundle "<!-- atape.release-bundle.v1:end -->").fits = true ∧
      ∃ text, releaseBundleSection (officialBundle "<!-- atape.release-bundle.v1:end -->") = .ok text ∧
        ∃ message, releaseBundleFromBody text = .error (.thrown message) := by
  have valid : (officialBundle "atape.capture.v1").fits = true :=
    official_fits (by decide) (by decide) (by decide)
  have valid' : (officialBundle "<!-- atape.release-bundle.v1:end -->").fits = true :=
    official_fits (by decide) (by decide) (by decide)
  refine ⟨⟨valid,_,section_text valid,?_⟩,valid',_,section_text valid',?_⟩
  · have front : occurrences machineMarker 0 "<!-- atape.release-bundle.v2:start -->".toList = 1 := by decide
    obtain ⟨message,refused⟩ := fromBody_refused valid "<!-- atape.release-bundle.v2:start -->".toList [] (by omega)
    have body := body_append "<!-- atape.release-bundle.v2:start -->" ""
      (Json.lay escaping 0 (.obj ((officialBundle "atape.capture.v1").members releaseBundleProtocol)))
    rw [String.append_empty,String.toList_empty] at body
    exact ⟨message,by rw [body,refused]⟩
  · have contract : occurrences machineMarker 0
        (officialBundle "<!-- atape.release-bundle.v1:end -->").captureStateContract.toList = 1 := by decide
    exact fromBody_refused valid' [] [] (by omega)

end ATape.Release
