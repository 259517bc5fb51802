import ATape.Foundation.Table

/-! The scan for configured literals: a trie of the literals, in which each node is
linked to the one of its longest proper suffix, read along the text. A text is a
sequence of UTF-16 code units. -/
namespace ATape.Redaction
open Foundation

abbrev Text := List UInt16

structure Node where
  next : Table UInt16 Nat
  fail : Nat
  lengths : List Nat

def Node.empty : Node := ⟨∅,0,[]⟩

abbrev Nodes := List Node

def node (nodes : Nodes) (index : Nat) : Node := nodes.getD index .empty

/-- The child of a node under a character. -/
def child (nodes : Nodes) (index : Nat) (char : UInt16) : Option Nat := (node nodes index).next.lookup char

/-- One character of a literal: to the child, which is made if there is none. -/
def insertChar (state : Nodes × Nat) (char : UInt16) : Nodes × Nat :=
  match child state.1 state.2 char with
  | some next => (state.1,next)
  | none =>
    (state.1.modify state.2 (fun n => {n with next := n.next.insert char state.1.length})++[.empty],
      state.1.length)

def insertLiteral (nodes : Nodes) (value : Text) : Nodes :=
  let state := value.foldl insertChar (nodes,0)
  state.1.modify state.2 fun n => {n with lengths := n.lengths++[value.length]}

/-- Back along the failure links to a node that has a child under the character. -/
def follow (nodes : Nodes) (char : UInt16) : Nat → Nat → Nat
  | 0,index => index
  | fuel+1,index =>
    if index ≠ 0 ∧ child nodes index char = none then follow nodes char fuel (node nodes index).fail
    else index

def linkChild (parent : Nat) (nodes : Nodes) (edge : UInt16 × Nat) : Nodes :=
  let failure := follow nodes edge.1 nodes.length (node nodes parent).fail
  let fail := (child nodes failure edge.1).getD 0
  nodes.modify edge.2 fun n => {n with fail, lengths := n.lengths++(node nodes fail).lengths}

def edges (nodes : Nodes) (index : Nat) : List (UInt16 × Nat) := (node nodes index).next.rows.reverse

/-- Breadth first over the nodes. -/
def link : Nat → List Nat → Nodes → Nodes
  | 0,_,nodes => nodes
  | _,[],nodes => nodes
  | fuel+1,parent::queue,nodes =>
    link fuel (queue++(edges nodes parent).map Prod.snd) ((edges nodes parent).foldl (linkChild parent) nodes)

def literalNodes (values : List Text) : Nodes :=
  let nodes := values.foldl insertLiteral [.empty]
  link nodes.length ((edges nodes 0).map Prod.snd) nodes

/-- The literals that end at each place of the text, from a node reached before. -/
def scan (nodes : Nodes) : Nat → Nat → Text → List (Nat × Nat)
  | _,_,[] => []
  | position,index,char::text =>
    let next := (child nodes (follow nodes char nodes.length index) char).getD 0
    (node nodes next).lengths.map (fun length => (position+1-length,position+1))++
      scan nodes (position+1) next text

def literalMatcher (values : List Text) (text : Text) : List (Nat × Nat) := scan (literalNodes values) 0 0 text

/-! The trie. Each node stands for a word: the characters on the way to it. -/

structure Trie (nodes : Nodes) (word : Nat → Text) : Prop where
  root : word 0 = [] ∧ 0 < nodes.length
  edge : ∀ i c j, i < nodes.length → (child nodes i c = some j ↔ j < nodes.length ∧ word j = word i++[c])
  inj : ∀ i j, i < nodes.length → j < nodes.length → word i = word j → i = j
  parent : ∀ j, j < nodes.length → j ≠ 0 → ∃ i c, i < j ∧ word j = word i++[c]

structure Built (nodes : Nodes) (word : Nat → Text) (values : List Text) : Prop where
  trie : Trie nodes word
  placed : ∀ v ∈ values, ∃ i, i < nodes.length ∧ word i = v
  lengths : ∀ i, i < nodes.length → (node nodes i).lengths.Perm ((values.filter (· = word i)).map List.length)
  unlinked : ∀ i, i < nodes.length → (node nodes i).fail = 0

theorem node_modify (nodes : Nodes) (f : Node → Node) (index i : Nat) (inside : index < nodes.length) :
    node (nodes.modify index f) i = if i = index then f (node nodes i) else node nodes i := by
  unfold node
  rw [List.getD_eq_getElem?_getD,List.getD_eq_getElem?_getD,List.getElem?_modify]
  by_cases same : i = index
  · subst same
    simp [List.getElem?_eq_getElem inside]
  · simp [same,Ne.symm same]

theorem node_append_old (nodes : Nodes) (n : Node) {i : Nat} (inside : i < nodes.length) :
    node (nodes++[n]) i = node nodes i := by
  unfold node
  rw [List.getD_eq_getElem?_getD,List.getD_eq_getElem?_getD,List.getElem?_append_left inside]

theorem node_append_new (nodes : Nodes) (n : Node) : node (nodes++[n]) nodes.length = n := by
  unfold node
  rw [List.getD_eq_getElem?_getD,List.getElem?_append_right (Nat.le_refl _)]
  simp

theorem Trie.depth {nodes : Nodes} {word : Nat → Text} (trie : Trie nodes word) :
    ∀ i, i < nodes.length → (word i).length ≤ i := by
  intro i
  induction i using Nat.strong_induction_on with
  | _ i ih =>
    intro inside
    by_cases root : i = 0
    · rw [root,trie.root.1]
      exact Nat.le_refl _
    · obtain ⟨j,c,below,step⟩ := trie.parent i inside root
      have := ih j below (by omega)
      rw [step,List.length_append,List.length_singleton]
      omega

theorem Trie.stuck {nodes : Nodes} {word : Nat → Text} {index : Nat} {char : UInt16} (trie : Trie nodes word)
    (inside : index < nodes.length) (fresh : child nodes index char = none) (j : Nat) (known : j < nodes.length) :
    word j ≠ word index++[char] := by
  intro same
  have found := (trie.edge index char j inside).mpr ⟨known,same⟩
  rw [fresh] at found
  cases found

section Grow
variable {nodes : Nodes} {word : Nat → Text} {values : List Text} {index : Nat} {char : UInt16}

/-- The trie with one more leaf. -/
def grow (nodes : Nodes) (index : Nat) (char : UInt16) : Nodes :=
  nodes.modify index (fun n => {n with next := n.next.insert char nodes.length})++[.empty]

def growWord (nodes : Nodes) (word : Nat → Text) (index : Nat) (char : UInt16) (i : Nat) : Text :=
  if i = nodes.length then word index++[char] else word i

theorem grow_length : (grow nodes index char).length = nodes.length+1 := by
  simp [grow]

theorem grow_node (inside : index < nodes.length) {i : Nat} (old : i < nodes.length) :
    node (grow nodes index char) i = if i = index then
      {node nodes i with next := (node nodes i).next.insert char nodes.length} else node nodes i := by
  have here : i < (nodes.modify index fun n => {n with next := n.next.insert char nodes.length}).length := by
    simpa using old
  rw [grow,node_append_old _ _ here,node_modify _ _ _ _ inside]

theorem grow_leaf : node (grow nodes index char) nodes.length = .empty := by
  have leaf := node_append_new (nodes.modify index fun n => {n with next := n.next.insert char nodes.length}) .empty
  rwa [List.length_modify] at leaf

theorem grow_child (inside : index < nodes.length) {i : Nat} (old : i < nodes.length) (c : UInt16) :
    child (grow nodes index char) i c =
      if i = index ∧ c = char then some nodes.length else child nodes i c := by
  unfold child
  rw [grow_node inside old]
  by_cases same : i = index
  · subst same
    simp
  · simp [same]

theorem growWord_old {i : Nat} (old : i < nodes.length) : growWord nodes word index char i = word i := by
  rw [growWord,if_neg (by omega)]

theorem growWord_leaf : growWord nodes word index char nodes.length = word index++[char] := by
  rw [growWord,if_pos rfl]

theorem Trie.grow (trie : Trie nodes word) (inside : index < nodes.length) (fresh : child nodes index char = none) :
    Trie (grow nodes index char) (growWord nodes word index char) where
  root := by
    have positive := trie.root.2
    rw [growWord_old positive,grow_length]
    exact ⟨trie.root.1,by omega⟩
  edge i c j bound := by
    rw [grow_length] at bound ⊢
    by_cases leaf : i = nodes.length
    · -- below the leaf there is nothing yet
      subst leaf
      rw [child,grow_leaf,growWord_leaf]
      constructor
      · intro found
        cases found
      · rintro ⟨below,same⟩
        exfalso
        by_cases last : j = nodes.length
        · subst last
          rw [growWord_leaf] at same
          have sizes := congrArg List.length same
          simp at sizes
        · have old : j < nodes.length := by omega
          rw [growWord_old old] at same
          have deep : j ≠ 0 := by
            rintro rfl
            rw [trie.root.1] at same
            simp at same
          obtain ⟨above,c',before,step⟩ := trie.parent j old deep
          rw [same] at step
          obtain ⟨rest,_⟩ := List.append_inj' step rfl
          exact trie.stuck inside fresh above (by omega) rest.symm
    · have old : i < nodes.length := by omega
      rw [grow_child inside old,growWord_old old]
      by_cases last : j = nodes.length
      · subst last
        rw [growWord_leaf]
        constructor
        · intro found
          split at found
          next here => exact ⟨by omega,by rw [here.1,here.2]⟩
          next =>
            have := ((trie.edge i c _ old).mp found).1
            omega
        · rintro ⟨_,same⟩
          obtain ⟨place,letter⟩ := List.append_inj' same rfl
          cases letter
          rw [if_pos ⟨trie.inj i index old inside place.symm,rfl⟩]
      · constructor
        · intro found
          split at found
          next =>
            cases found
            exact absurd rfl last
          next =>
            obtain ⟨below,same⟩ := (trie.edge i c j old).mp found
            exact ⟨by omega,by rw [growWord_old below,same]⟩
        · rintro ⟨below,same⟩
          have known : j < nodes.length := by omega
          rw [growWord_old known] at same
          rw [if_neg]
          · exact (trie.edge i c j old).mpr ⟨known,same⟩
          · rintro ⟨rfl,rfl⟩
            exact trie.stuck inside fresh j known same
  inj i j bound bound' same := by
    rw [grow_length] at bound bound'
    by_cases leaf : i = nodes.length <;> by_cases leaf' : j = nodes.length
    · omega
    · subst leaf
      rw [growWord_leaf,growWord_old (by omega)] at same
      exact absurd same.symm (trie.stuck inside fresh j (by omega))
    · subst leaf'
      rw [growWord_leaf,growWord_old (by omega)] at same
      exact absurd same (trie.stuck inside fresh i (by omega))
    · rw [growWord_old (by omega),growWord_old (by omega)] at same
      exact trie.inj i j (by omega) (by omega) same
  parent j bound deep := by
    rw [grow_length] at bound
    by_cases leaf : j = nodes.length
    · subst leaf
      exact ⟨index,char,inside,by rw [growWord_leaf,growWord_old inside]⟩
    · obtain ⟨i,c,below,step⟩ := trie.parent j (by omega) deep
      exact ⟨i,c,below,by rw [growWord_old (by omega),growWord_old (by omega),step]⟩

theorem Built.grow (built : Built nodes word values) (inside : index < nodes.length)
    (fresh : child nodes index char = none) :
    Built (grow nodes index char) (growWord nodes word index char) values where
  trie := built.trie.grow inside fresh
  placed v member := by
    obtain ⟨i,below,same⟩ := built.placed v member
    exact ⟨i,by rw [grow_length]; omega,by rw [growWord_old below,same]⟩
  lengths i bound := by
    rw [grow_length] at bound
    by_cases leaf : i = nodes.length
    · subst leaf
      have nothing : values.filter (· = word index++[char]) = [] := by
        apply List.filter_eq_nil_iff.mpr
        intro v member same
        obtain ⟨j,below,named⟩ := built.placed v member
        exact built.trie.stuck inside fresh j below (named.trans (of_decide_eq_true same))
      rw [grow_leaf,growWord_leaf,nothing]
      exact .nil
    · have old : i < nodes.length := by omega
      rw [grow_node inside old,growWord_old old]
      have before := built.lengths i old
      split <;> exact before
  unlinked i bound := by
    rw [grow_length] at bound
    by_cases leaf : i = nodes.length
    · rw [leaf,grow_leaf]
      rfl
    · have old : i < nodes.length := by omega
      rw [grow_node inside old,← built.unlinked i old]
      split <;> rfl

end Grow

theorem insertChar_built {nodes : Nodes} {word : Nat → Text} {values : List Text} {index : Nat}
    (built : Built nodes word values) (inside : index < nodes.length) (char : UInt16) :
    ∃ word', Built (insertChar (nodes,index) char).1 word' values ∧
      (insertChar (nodes,index) char).2 < (insertChar (nodes,index) char).1.length ∧
      word' (insertChar (nodes,index) char).2 = word index++[char] := by
  unfold insertChar
  cases found : child nodes index char with
  | some next =>
    obtain ⟨below,same⟩ := (built.trie.edge index char next inside).mp found
    exact ⟨word,built,below,same⟩
  | none =>
    refine ⟨_,built.grow inside found,?_,growWord_leaf⟩
    change nodes.length < (grow nodes index char).length
    rw [grow_length]
    omega

theorem insertChars_built {values : List Text} (chars : Text) (nodes : Nodes) (word : Nat → Text) (index : Nat)
    (built : Built nodes word values) (inside : index < nodes.length) :
    ∃ word', Built (chars.foldl insertChar (nodes,index)).1 word' values ∧
      (chars.foldl insertChar (nodes,index)).2 < (chars.foldl insertChar (nodes,index)).1.length ∧
      word' (chars.foldl insertChar (nodes,index)).2 = word index++chars := by
  induction chars generalizing nodes word index with
  | nil => exact ⟨word,built,inside,(List.append_nil _).symm⟩
  | cons char chars ih =>
    obtain ⟨word',built',inside',step⟩ := insertChar_built built inside char
    obtain ⟨final,done,bounded,same⟩ := ih _ word' _ built' inside'
    refine ⟨final,done,bounded,?_⟩
    rw [step,List.append_assoc] at same
    exact same

theorem modify_child (nodes : Nodes) (f : Node → Node) (index i : Nat) (c : UInt16) (inside : index < nodes.length)
    (same : ∀ n, (f n).next = n.next) : child (nodes.modify index f) i c = child nodes i c := by
  unfold child
  rw [node_modify _ _ _ _ inside]
  split
  · rw [same]
  · rfl

theorem Trie.modify {nodes : Nodes} {word : Nat → Text} (trie : Trie nodes word) (f : Node → Node) (index : Nat)
    (inside : index < nodes.length) (same : ∀ n, (f n).next = n.next) : Trie (nodes.modify index f) word where
  root := by
    rw [List.length_modify]
    exact trie.root
  edge i c j bound := by
    rw [List.length_modify] at bound ⊢
    rw [modify_child _ _ _ _ _ inside same]
    exact trie.edge i c j bound
  inj i j := by
    rw [List.length_modify]
    exact trie.inj i j
  parent j := by
    rw [List.length_modify]
    exact trie.parent j

theorem insertLiteral_built {nodes : Nodes} {word : Nat → Text} {values : List Text}
    (built : Built nodes word values) (value : Text) :
    ∃ word', Built (insertLiteral nodes value) word' (values++[value]) := by
  obtain ⟨word',read,inside,same⟩ := insertChars_built value nodes word 0 built built.trie.root.2
  rw [built.trie.root.1,List.nil_append] at same
  refine ⟨word',read.trie.modify _ _ inside fun _ => rfl,?_,?_,?_⟩
  · intro v member
    rw [insertLiteral,List.length_modify]
    rcases List.mem_append.mp member with old | new
    · exact read.placed v old
    · rw [List.mem_singleton.mp new]
      exact ⟨_,inside,same⟩
  · intro i bound
    rw [insertLiteral,List.length_modify] at bound
    rw [insertLiteral,node_modify _ _ _ _ inside,List.filter_append,List.map_append]
    split
    next here =>
      have last : [value].filter (· = word' i) = [value] := by simp [here,same]
      rw [last]
      exact (read.lengths i bound).append_right _
    next apart =>
      have other : value ≠ word' i := by
        intro named
        exact apart (read.trie.inj _ _ bound inside (named.symm.trans same.symm))
      have last : [value].filter (· = word' i) = [] := by simp [other]
      rw [last,List.map_nil,List.append_nil]
      exact read.lengths i bound
  · intro i bound
    rw [insertLiteral,List.length_modify] at bound
    rw [insertLiteral,node_modify _ _ _ _ inside]
    split <;> exact read.unlinked i bound

theorem insertLiterals_built (values : List Text) :
    ∃ word, Built (values.foldl insertLiteral [.empty]) word values := by
  have grown : ∀ (others earlier : List Text) (nodes : Nodes) (word : Nat → Text), Built nodes word earlier →
      ∃ word', Built (others.foldl insertLiteral nodes) word' (earlier++others) := by
    intro others
    induction others with
    | nil => exact fun earlier nodes word built => ⟨word,by rwa [List.append_nil]⟩
    | cons value others ih =>
      intro earlier nodes word built
      obtain ⟨word',next⟩ := insertLiteral_built built value
      obtain ⟨final,done⟩ := ih _ _ word' next
      exact ⟨final,by rwa [List.append_assoc] at done⟩
  apply grown values [] [.empty] fun _ => []
  refine ⟨⟨⟨rfl,Nat.zero_lt_one⟩,?_,?_,?_⟩,?_,?_,?_⟩
  · intro i c j bound
    have first : i = 0 := by simpa using bound
    subst first
    simp [child,node,Node.empty]
  · intro i j bound bound' _
    have first : i = 0 := by simpa using bound
    have second : j = 0 := by simpa using bound'
    omega
  · intro j bound deep
    have first : j = 0 := by simpa using bound
    exact absurd first deep
  · intro v member
    cases member
  · intro i bound
    have first : i = 0 := by simpa using bound
    subst first
    exact .nil
  · intro i bound
    have first : i = 0 := by simpa using bound
    subst first
    rfl

end ATape.Redaction
