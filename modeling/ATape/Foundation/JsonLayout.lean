import ATape.Foundation.JsonText

/-! Writing JSON values with each item and each member on a line of its own, two blanks further in than what it
belongs to. The reader takes such a text back as well. -/
namespace ATape.Foundation
namespace Json
variable (e : Escaping)

def line (depth : ℕ) : List Char := '\n'::List.replicate (2*depth) ' '

mutual

def lay : ℕ → Json → List Char
  | _,.null => ['n','u','l','l']
  | _,.bool true => ['t','r','u','e']
  | _,.bool false => ['f','a','l','s','e']
  | _,.num literal => literal.toList
  | _,.str text => quoted e text
  | _,.arr [] => ['[',']']
  | depth,.arr (first::others) => '['::line (depth+1)++lay (depth+1) first++layItems depth others
  | _,.obj [] => ['\x7b','\x7d']
  | depth,.obj ((name,first)::others) =>
    '\x7b'::line (depth+1)++quoted e name++ ':':: ' '::lay (depth+1) first++layMembers depth others

def layItems : ℕ → List Json → List Char
  | depth,[] => line depth++[']']
  | depth,first::others => ','::line (depth+1)++lay (depth+1) first++layItems depth others

def layMembers : ℕ → List (String × Json) → List Char
  | depth,[] => line depth++['\x7d']
  | depth,(name,first)::others =>
    ','::line (depth+1)++quoted e name++ ':':: ' '::lay (depth+1) first++layMembers depth others

end

/-! Blanks in front of a token are skipped. -/

theorem skip_run {run : List Char} (blank : ∀ c ∈ run, isBlank c = true) (text : List Char) : skip (run++text) = skip text :=
  List.dropWhile_append_of_pos blank

theorem line_blank (depth : ℕ) : ∀ c ∈ line depth, isBlank c = true := by
  intro c member
  rcases List.mem_cons.mp member with rfl|space
  · decide
  · rw [List.eq_of_mem_replicate space]
    decide

theorem skip_line (depth : ℕ) (text : List Char) : skip (line depth++text) = skip text := skip_run (line_blank depth) text

theorem value_line (fuel depth : ℕ) (text : List Char) : value fuel (line depth++text) = value fuel text := by
  cases fuel with
  | zero => rfl
  | succ fuel => rw [value,value,skip_line]

theorem value_space (fuel : ℕ) (text : List Char) : value fuel (' '::text) = value fuel text := by
  cases fuel with
  | zero => rfl
  | succ fuel => rw [value,value,skip,List.dropWhile_cons_of_pos (by decide),skip]

theorem items_line (fuel depth : ℕ) (text : List Char) : items fuel (line depth++text) = items fuel text := by
  cases fuel with
  | zero => rfl
  | succ fuel => rw [items,items,value_line]

theorem members_line (fuel depth : ℕ) (text : List Char) : members fuel (line depth++text) = members fuel text := by
  cases fuel with
  | zero => rfl
  | succ fuel => rw [members,members,skip_line]

theorem stops_line (depth : ℕ) (text : List Char) : Stops (line depth++text) := stops_cons (by decide)

theorem stops_layItems (depth : ℕ) (values : List Json) (rest : List Char) : Stops (layItems e depth values++rest) := by
  cases values with
  | nil =>
    rw [layItems,List.append_assoc]
    exact stops_line depth _
  | cons first others => simpa [layItems] using stops_cons (by decide)

theorem stops_layMembers (depth : ℕ) (values : List (String × Json)) (rest : List Char) :
    Stops (layMembers e depth values++rest) := by
  rcases values with _|⟨⟨name,first⟩,others⟩
  · rw [layMembers,List.append_assoc]
    exact stops_line depth _
  · simpa [layMembers] using stops_cons (by decide)

theorem lay_head (depth : ℕ) (j : Json) (integral : Integral j) :
    ∃ c tail, lay e depth j = c::tail ∧ isBlank c = false ∧ c ≠ ']' ∧ c ≠ '\x7d' := by
  cases j with
  | null => exact ⟨'n',_,by rw [lay],by decide⟩
  | bool value => cases value <;> exact ⟨_,_,by rw [lay],by decide⟩
  | num literal =>
    obtain ⟨c,tail,written,head⟩ := write_head e (.num literal) integral
    exact ⟨c,tail,by rw [lay,← written,write],head⟩
  | str text => exact ⟨'"',_,by rw [lay,quoted]; rfl,by decide⟩
  | arr values =>
    cases values with
    | nil => exact ⟨'[',_,by rw [lay],by decide⟩
    | cons => exact ⟨'[',_,by rw [lay,List.cons_append,List.cons_append],by decide⟩
  | obj values =>
    rcases values with _|⟨⟨name,first⟩,others⟩
    · exact ⟨'\x7b',_,by rw [lay],by decide⟩
    · exact ⟨'\x7b',_,by rw [lay,List.cons_append,List.cons_append,List.cons_append],by decide⟩

mutual

theorem value_laid : ∀ (j : Json) (depth fuel : ℕ) (rest : List Char), Integral j → Stops rest →
    size j ≤ fuel → value fuel (lay e depth j++rest) = some (j,rest)
  | .null,_,fuel,rest,integral,stops,enough => value_written e .null fuel rest integral stops enough
  | .bool true,_,fuel,rest,integral,stops,enough => value_written e (.bool true) fuel rest integral stops enough
  | .bool false,_,fuel,rest,integral,stops,enough => value_written e (.bool false) fuel rest integral stops enough
  | .num literal,_,fuel,rest,integral,stops,enough => value_written e (.num literal) fuel rest integral stops enough
  | .str text,_,fuel,rest,integral,stops,enough => value_written e (.str text) fuel rest integral stops enough
  | .arr [],_,fuel,rest,integral,stops,enough => value_written e (.arr []) fuel rest integral stops enough
  | .obj [],_,fuel,rest,integral,stops,enough => value_written e (.obj []) fuel rest integral stops enough
  | .arr (first::others),_,0,_,_,_,enough => absurd enough (by simp [size])
  | .arr (first::others),depth,fuel+1,rest,integral,_,enough => by
    have read := items_laid first others depth fuel rest integral (by simp [size] at enough; omega)
    obtain ⟨c,tail,head,visible,open_,_⟩ := lay_head e (depth+1) first integral.1
    have unclosed : expect [']'] (skip (lay e (depth+1) first++layItems e depth others++rest)) = none := by
      rw [head,List.cons_append,List.cons_append,skip_cons visible]
      simp [expect,Ne.symm open_]
    rw [List.append_assoc] at read unclosed
    rw [lay,value]
    simp only [List.cons_append,List.append_assoc]
    rw [skip_cons (by decide)]
    simp only [skip_line,unclosed,items_line,read,Option.map_some]
  | .obj ((name,first)::others),_,0,_,_,_,enough => absurd enough (by simp [size])
  | .obj ((name,first)::others),depth,fuel+1,rest,integral,_,enough => by
    have read := members_laid name first others depth fuel rest integral (by simp [size] at enough; omega)
    rw [lay,value]
    simp only [List.cons_append,List.append_assoc] at read ⊢
    rw [skip_cons (by decide)]
    have unclosed : expect ['\x7d'] (skip (quoted e name++ ':':: ' '::(lay e (depth+1) first++
        (layMembers e depth others++rest)))) = none := by
      rw [quoted,List.append_assoc,List.cons_append,skip_cons (by decide)]
      simp [expect]
    simp only [skip_line,unclosed,members_line,read,Option.map_some]

theorem items_laid : ∀ (first : Json) (others : List Json) (depth fuel : ℕ) (rest : List Char),
    IntegralItems (first::others) → sizeItems (first::others) ≤ fuel →
    items fuel (lay e (depth+1) first++layItems e depth others++rest) = some (first::others,rest)
  | _,_,_,0,_,_,enough => absurd enough (by simp [sizeItems])
  | first,[],depth,fuel+1,rest,integral,enough => by
    have read := value_laid first (depth+1) fuel (layItems e depth []++rest) integral.1 (stops_layItems e depth [] rest)
      (by simp [sizeItems] at enough; omega)
    rw [items,List.append_assoc,read]
    simp [layItems,skip_line,skip_cons (show isBlank ']' = false by decide)]
  | first,second::others,depth,fuel+1,rest,integral,enough => by
    have read := value_laid first (depth+1) fuel (layItems e depth (second::others)++rest) integral.1
      (stops_layItems e depth (second::others) rest) (by simp [sizeItems] at enough; omega)
    have more := items_laid second others depth fuel rest integral.2 (by simp [sizeItems] at enough ⊢; omega)
    rw [items,List.append_assoc,read]
    rw [List.append_assoc] at more
    simp [layItems,skip_cons (show isBlank ',' = false by decide),items_line,more]

theorem members_laid : ∀ (name : String) (first : Json) (others : List (String × Json)) (depth fuel : ℕ)
    (rest : List Char), IntegralMembers ((name,first)::others) → sizeMembers ((name,first)::others) ≤ fuel →
    members fuel (quoted e name++ ':':: ' '::lay e (depth+1) first++layMembers e depth others++rest) =
      some ((name,first)::others,rest)
  | _,_,_,_,0,_,_,enough => absurd enough (by simp [sizeMembers])
  | name,first,[],depth,fuel+1,rest,integral,enough => by
    have named := chars_text e name (':':: ' '::(lay e (depth+1) first++(layMembers e depth []++rest))) fuel
      (by simp [sizeMembers] at enough; omega)
    have read := value_laid first (depth+1) fuel (layMembers e depth []++rest) integral.1
      (stops_layMembers e depth [] rest) (by simp [sizeMembers] at enough; omega)
    simp [members,quoted,expect,skip_cons (show isBlank '"' = false by decide),named,
      skip_cons (show isBlank ':' = false by decide),value_space,read]
    simp [layMembers,skip_line,skip_cons (show isBlank '\x7d' = false by decide)]
  | name,first,(name',second)::others,depth,fuel+1,rest,integral,enough => by
    have named := chars_text e name
      (':':: ' '::(lay e (depth+1) first++(layMembers e depth ((name',second)::others)++rest))) fuel
      (by simp [sizeMembers] at enough; omega)
    have read := value_laid first (depth+1) fuel (layMembers e depth ((name',second)::others)++rest) integral.1
      (stops_layMembers e depth _ rest) (by simp [sizeMembers] at enough; omega)
    have more := members_laid name' second others depth fuel rest integral.2
      (by simp [sizeMembers] at enough ⊢; omega)
    simp only [List.cons_append,List.append_assoc] at more
    simp [members,quoted,expect,skip_cons (show isBlank '"' = false by decide),named,
      skip_cons (show isBlank ':' = false by decide),value_space,read]
    simp [layMembers,skip_cons (show isBlank ',' = false by decide),members_line,more]

end

mutual

theorem write_le_lay : ∀ (depth : ℕ) (j : Json), (write e j).length ≤ (lay e depth j).length
  | _,.null => by rw [write,lay]
  | _,.bool true => by rw [write,lay]
  | _,.bool false => by rw [write,lay]
  | _,.num literal => by rw [write,lay]
  | _,.str text => by rw [write,lay]
  | _,.arr [] => by rw [write,lay]
  | _,.obj [] => by rw [write,lay]
  | depth,.arr (first::others) => by
    have head := write_le_lay (depth+1) first
    have tail := writeItems_le_layItems depth others
    simp only [write,lay,List.length_append,List.length_cons]
    omega
  | depth,.obj ((name,first)::others) => by
    have head := write_le_lay (depth+1) first
    have tail := writeMembers_le_layMembers depth others
    simp only [write,lay,List.length_append,List.length_cons]
    omega

theorem writeItems_le_layItems : ∀ (depth : ℕ) (values : List Json),
    (writeItems e values).length ≤ (layItems e depth values).length
  | depth,[] => by
    simp only [writeItems,layItems,List.length_append]
    omega
  | depth,first::others => by
    have head := write_le_lay (depth+1) first
    have tail := writeItems_le_layItems depth others
    simp only [writeItems,layItems,List.length_append,List.length_cons]
    omega

theorem writeMembers_le_layMembers : ∀ (depth : ℕ) (values : List (String × Json)),
    (writeMembers e values).length ≤ (layMembers e depth values).length
  | depth,[] => by
    simp only [writeMembers,layMembers,List.length_append]
    omega
  | depth,(name,first)::others => by
    have head := write_le_lay (depth+1) first
    have tail := writeMembers_le_layMembers depth others
    simp only [writeMembers,layMembers,List.length_append,List.length_cons]
    omega

end

theorem parse_laid {j : Json} (integral : Integral j) : parse (String.ofList (lay e 0 j)) = some j := by
  have enough := (size_le e j integral).trans (write_le_lay e 0 j)
  have read := value_laid e j 0 (2*(lay e 0 j).length+2) [] integral stops_nil (by omega)
  rw [List.append_nil] at read
  rw [parse,String.toList_ofList,read]
  rfl

end Json
end ATape.Foundation
