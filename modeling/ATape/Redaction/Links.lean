import ATape.Foundation.Dictionary
import ATape.Foundation.Fold
import ATape.Redaction.Literals
import Mathlib.Data.List.Perm.Subperm

/-! The links of the trie, and what reading a text along them reports. Going breadth
first, all nodes of a smaller depth are linked before a node is. -/
namespace ATape.Redaction
open Foundation

section Link
open Classical
open Dictionary (longest longest_known longest_of_known longest_suffix suffix_longest longest_extend longest_append)

def Known (n : Nat) (word : Nat → Text) (text : Text) : Prop := ∃ i, i < n ∧ word i = text

/-- A node leads to the longest proper suffix of its word, and knows every literal
that its word ends with, as often as it is listed. -/
def Linked (n : Nat) (word : Nat → Text) (values : List Text) (i : Nat) (found : Node) : Prop :=
  (i ≠ 0 → found.fail < n ∧ word found.fail = longest (Known n word) (word i).tail) ∧
    found.lengths.Perm ((values.filter (· <:+ word i)).map List.length)

/-- A node that is not linked yet knows its own literals only. -/
def Own (word : Nat → Text) (values : List Text) (i : Nat) (found : Node) : Prop :=
  found.fail = 0 ∧ found.lengths.Perm ((values.filter (· = word i)).map List.length)

theorem perm_filter_or {α : Type} {p q r : α → Bool} {l : List α} (both : ∀ a ∈ l, r a = (p a || q a))
    (apart : ∀ a ∈ l, p a = true → q a = false) : (l.filter p++l.filter q).Perm (l.filter r) := by
  have split := List.filter_append_perm p (l.filter r)
  rw [List.filter_filter,List.filter_filter] at split
  have first : l.filter (fun a => p a && r a) = l.filter p := by
    apply List.filter_congr
    intro a member
    rw [both a member]
    cases p a <;> rfl
  have second : l.filter (fun a => !p a && r a) = l.filter q := by
    apply List.filter_congr
    intro a member
    rw [both a member]
    cases here : p a
    · rfl
    · rw [apart a member here]
      rfl
  rwa [first,second] at split

variable {nodes : Nodes} {word : Nat → Text} {values : List Text}

theorem Trie.known_root (trie : Trie nodes word) : Known nodes.length word [] := ⟨0,trie.root.2,trie.root.1⟩

theorem Trie.known_closed (trie : Trie nodes word) (text : Text) (c : UInt16)
    (known : Known nodes.length word (text++[c])) : Known nodes.length word text := by
  obtain ⟨j,below,same⟩ := known
  have deep : j ≠ 0 := by
    rintro rfl
    rw [trie.root.1] at same
    simp at same
  obtain ⟨i,c',before,step⟩ := trie.parent j below deep
  rw [same] at step
  obtain ⟨rest,_⟩ := List.append_inj' step rfl
  exact ⟨i,by omega,rest.symm⟩

theorem Trie.eq_root (trie : Trie nodes word) {i : Nat} (inside : i < nodes.length) (empty : word i = []) : i = 0 :=
  trie.inj i 0 inside trie.root.2 (empty.trans trie.root.1.symm)

theorem Trie.read (trie : Trie nodes word) {index : Nat} (inside : index < nodes.length) {char : UInt16}
    (ends : index = 0 ∨ child nodes index char ≠ none) :
    (child nodes index char).getD 0 < nodes.length ∧
      word ((child nodes index char).getD 0) = longest (Known nodes.length word) (word index++[char]) := by
  cases found : child nodes index char with
  | some next =>
    obtain ⟨below,same⟩ := (trie.edge index char next inside).mp found
    rw [Option.getD_some,same]
    exact ⟨below,(longest_of_known ⟨next,below,same⟩).symm⟩
  | none =>
    have root : index = 0 := ends.resolve_right fun other => other found
    subst root
    rw [Option.getD_none,trie.root.1,List.nil_append,longest,if_neg]
    · exact ⟨trie.root.2,rfl⟩
    · rintro ⟨j,below,same⟩
      apply trie.stuck inside found j below
      rw [trie.root.1]
      exact same

theorem follow_read (trie : Trie nodes word) {depth : Nat}
    (linked : ∀ i, i < nodes.length → (word i).length ≤ depth → Linked nodes.length word values i (node nodes i))
    (char : UInt16) (fuel index : Nat) (inside : index < nodes.length) (shallow : (word index).length ≤ depth)
    (enough : (word index).length ≤ fuel) :
    (child nodes (follow nodes char fuel index) char).getD 0 < nodes.length ∧
      word ((child nodes (follow nodes char fuel index) char).getD 0) =
        longest (Known nodes.length word) (word index++[char]) := by
  induction fuel generalizing index with
  | zero =>
    have empty : word index = [] := List.length_eq_zero_iff.mp (by omega)
    exact trie.read inside (.inl (trie.eq_root inside empty))
  | succ fuel ih =>
    unfold follow
    split
    next back =>
      obtain ⟨below,link⟩ := (linked index inside shallow).1 back.1
      cases here : word index with
      | nil => exact absurd (trie.eq_root inside here) back.1
      | cons first rest =>
        rw [here,List.tail_cons] at link
        have shorter : (longest (Known nodes.length word) rest).length ≤ rest.length := (longest_suffix rest).length_le
        rw [here,List.length_cons] at shallow enough
        have stuck : ¬ Known nodes.length word (first::rest++[char]) := by
          rintro ⟨j,known,same⟩
          exact trie.stuck inside back.2 j known (by rw [here,same])
        rw [longest_extend trie.known_root trie.known_closed stuck,← link]
        apply ih _ below
        · rw [link]
          omega
        · rw [link]
          omega
    next ends =>
      apply trie.read inside
      by_cases root : index = 0
      · exact .inl root
      · exact .inr fun none => ends ⟨root,none⟩

theorem linkChild_linked (trie : Trie nodes word) {p j : Nat} {c : UInt16}
    (inside : p < nodes.length) (deep : p ≠ 0) (below : j < nodes.length) (step : word j = word p++[c])
    (linked : ∀ i, i < nodes.length → (word i).length ≤ (word p).length →
      Linked nodes.length word values i (node nodes i))
    (placed : ∀ v ∈ values, Known nodes.length word v) (own : Own word values j (node nodes j)) :
    Linked nodes.length word values j (node (linkChild p nodes (c,j)) j) ∧
      ∀ i, i ≠ j → node (linkChild p nodes (c,j)) i = node nodes i := by
  obtain ⟨back,link⟩ := (linked p inside (Nat.le_refl _)).1 deep
  have shorter : (word (node nodes p).fail).length < (word p).length := by
    cases here : word p with
    | nil => exact absurd (trie.eq_root inside here) deep
    | cons first rest =>
      rw [link,here,List.tail_cons,List.length_cons]
      have shorter : (longest (Known nodes.length word) rest).length ≤ rest.length := (longest_suffix rest).length_le
      omega
  have bounded := trie.depth _ back
  obtain ⟨known,read⟩ := follow_read trie linked c nodes.length _ back (by omega) (by omega)
  have tail : (word j).tail = (word p).tail++[c] := by
    rw [step]
    cases here : word p with
    | nil => exact absurd (trie.eq_root inside here) deep
    | cons first rest => rfl
  have target : word ((child nodes (follow nodes c nodes.length (node nodes p).fail) c).getD 0) =
      longest (Known nodes.length word) (word j).tail := by
    rw [read,link,tail,← longest_append trie.known_root trie.known_closed]
  have near : (word ((child nodes (follow nodes c nodes.length (node nodes p).fail) c).getD 0)).length ≤
      (word p).length := by
    rw [target]
    apply (longest_suffix _).length_le.trans
    rw [tail,List.length_append,List.length_tail,List.length_singleton]
    omega
  refine ⟨?_,?_⟩
  · rw [linkChild,node_modify _ _ _ _ below,if_pos rfl]
    refine ⟨fun _ => ⟨known,target⟩,(own.2.append (linked _ known near).2).trans ?_⟩
    rw [← List.map_append]
    -- a literal that ends the word is the word or ends its longest proper suffix
    apply (perm_filter_or ?_ ?_).map
    · intro v member
      rw [← Bool.decide_or]
      apply decide_eq_decide.mpr
      constructor
      · intro suffix
        by_cases whole : v = word j
        · exact .inl whole
        · right
          rw [target]
          apply suffix_longest _ (placed v member)
          cases here : word j with
          | nil =>
            rw [here] at suffix whole
            exact absurd (List.eq_nil_of_suffix_nil suffix) whole
          | cons first rest =>
            rw [here] at suffix whole
            exact (List.suffix_cons_iff.mp suffix).resolve_left whole
      · rintro (rfl | suffix)
        · exact List.suffix_rfl
        · rw [target] at suffix
          exact (suffix.trans (longest_suffix _)).trans (List.tail_suffix _)
    · intro v _ whole
      apply decide_eq_false
      intro suffix
      have size := suffix.length_le
      rw [of_decide_eq_true whole,step,List.length_append,List.length_singleton] at size
      omega
  · intro i apart
    rw [linkChild,node_modify _ _ _ _ below,if_neg apart]

theorem linkChild_keeps (trie : Trie nodes word) (p : Nat) {edge : UInt16 × Nat} (below : edge.2 < nodes.length) :
    (linkChild p nodes edge).length = nodes.length ∧ Trie (linkChild p nodes edge) word ∧
      ∀ i c, child (linkChild p nodes edge) i c = child nodes i c := by
  unfold linkChild
  exact ⟨List.length_modify _ _ _,trie.modify _ _ below fun _ => rfl,
    fun i c => modify_child _ _ _ _ _ below fun _ => rfl⟩

theorem linkChildren_linked {p : Nat} (deep : p ≠ 0) (es : List (UInt16 × Nat)) (nodes : Nodes)
    (trie : Trie nodes word) (inside : p < nodes.length) (distinct : (es.map Prod.snd).Nodup)
    (below : ∀ e ∈ es, e.2 < nodes.length ∧ word e.2 = word p++[e.1])
    (linked : ∀ i, i < nodes.length → (word i).length ≤ (word p).length →
      Linked nodes.length word values i (node nodes i))
    (placed : ∀ v ∈ values, Known nodes.length word v) (own : ∀ e ∈ es, Own word values e.2 (node nodes e.2)) :
    (es.foldl (linkChild p) nodes).length = nodes.length ∧ Trie (es.foldl (linkChild p) nodes) word ∧
      (∀ i c, child (es.foldl (linkChild p) nodes) i c = child nodes i c) ∧
      (∀ i, i ∉ es.map Prod.snd → node (es.foldl (linkChild p) nodes) i = node nodes i) ∧
      ∀ e ∈ es, Linked nodes.length word values e.2 (node (es.foldl (linkChild p) nodes) e.2) := by
  induction es generalizing nodes with
  | nil => exact ⟨rfl,trie,fun _ _ => rfl,fun _ _ => rfl,fun e member => absurd member List.not_mem_nil⟩
  | cons e es ih =>
    rw [List.map_cons,List.nodup_cons] at distinct
    obtain ⟨known,step⟩ := below e List.mem_cons_self
    obtain ⟨size,trie',same⟩ := linkChild_keeps trie p known
    obtain ⟨first,others⟩ := linkChild_linked trie inside deep known step linked placed (own e List.mem_cons_self)
    have deeper : (word e.2).length = (word p).length+1 := by
      rw [step,List.length_append,List.length_singleton]
    obtain ⟨size',trie'',same',kept,rest⟩ := ih (linkChild p nodes e) trie' (by omega) distinct.2
      (by
        intro e' member
        rw [size]
        exact below e' (List.mem_cons_of_mem _ member))
      (by
        intro i bound shallow
        rw [size] at bound ⊢
        rw [others i]
        · exact linked i bound shallow
        · rintro rfl
          omega)
      (by
        rw [size]
        exact placed)
      (by
        intro e' member
        rw [others e'.2]
        · exact own e' (List.mem_cons_of_mem _ member)
        · intro twice
          exact distinct.1 (List.mem_map.mpr ⟨e',member,twice⟩))
    rw [List.foldl_cons]
    refine ⟨size'.trans size,trie'',fun i c => (same' i c).trans (same i c),?_,?_⟩
    · intro i apart
      rw [List.map_cons,List.mem_cons,not_or] at apart
      rw [kept i apart.2,others i apart.1]
    · intro e' member
      rcases List.mem_cons.mp member with rfl | later
      · rw [kept _ distinct.1]
        exact first
      · rw [← size]
        exact rest e' later

theorem mem_edges (nodes : Nodes) (i : Nat) (c : UInt16) (j : Nat) :
    (c,j) ∈ edges nodes i ↔ child nodes i c = some j := by
  rw [edges,List.mem_reverse,Table.mem_rows]
  rfl

theorem Trie.edges_distinct (trie : Trie nodes word) {i : Nat} (inside : i < nodes.length) :
    ((edges nodes i).map Prod.snd).Nodup := by
  have rows : (edges nodes i).Nodup := by
    rw [edges,List.nodup_reverse,Table.rows]
    apply List.Nodup.map_on _ (List.NodupKeys.nodup (node nodes i).next.nodupKeys)
    rintro ⟨c,j⟩ _ ⟨c',j'⟩ _ same
    cases same
    rfl
  apply List.Nodup.map_on _ rows
  rintro ⟨c,j⟩ member ⟨c',j'⟩ member' same
  cases same
  obtain ⟨_,step⟩ := (trie.edge i c j inside).mp ((mem_edges nodes i c j).mp member)
  obtain ⟨_,step'⟩ := (trie.edge i c' j inside).mp ((mem_edges nodes i c' j).mp member')
  obtain ⟨_,letter⟩ := List.append_inj' (step.symm.trans step') rfl
  cases letter
  rfl

/-- The nodes taken from the queue, and those still in it. -/
structure Linking (nodes : Nodes) (word : Nat → Text) (values : List Text) (finished queue : List Nat) : Prop where
  trie : Trie nodes word
  placed : ∀ v ∈ values, Known nodes.length word v
  distinct : (finished++queue).Nodup
  inside : ∀ i ∈ finished++queue, i ≠ 0 ∧ i < nodes.length
  linked : ∀ i, i < nodes.length → i = 0 ∨ i ∈ finished++queue → Linked nodes.length word values i (node nodes i)
  own : ∀ i, i < nodes.length → i ≠ 0 → i ∉ finished++queue → Own word values i (node nodes i)
  children : ∀ i, i < nodes.length → i = 0 ∨ i ∈ finished → ∀ c j, child nodes i c = some j → j ∈ finished++queue
  parents : ∀ j ∈ finished++queue, ∀ i c, i < nodes.length → word j = word i++[c] → i = 0 ∨ i ∈ finished
  sorted : queue.Pairwise fun a b => (word a).length ≤ (word b).length
  near : ∀ a ∈ queue, ∀ b ∈ queue, (word b).length ≤ (word a).length+1

theorem Linking.shallow {finished queue : List Nat} {p : Nat}
    (linking : Linking nodes word values finished (p::queue)) :
    ∀ i, i < nodes.length → (word i).length ≤ (word p).length → i = 0 ∨ i ∈ finished++p::queue := by
  intro i
  induction i using Nat.strong_induction_on with
  | _ i ih =>
    intro inside shallow
    by_cases root : i = 0
    · exact .inl root
    · obtain ⟨j,c,below,step⟩ := linking.trie.parent i inside root
      have deeper : (word i).length = (word j).length+1 := by
        rw [step,List.length_append,List.length_singleton]
      have edge := (linking.trie.edge j c i (by omega)).mpr ⟨inside,step⟩
      have done : j = 0 ∨ j ∈ finished := by
        rcases ih j below (by omega) (by omega) with first | member
        · exact .inl first
        · rcases List.mem_append.mp member with finished | waiting
          · exact .inr finished
          · exfalso
            rcases List.mem_cons.mp waiting with rfl | later
            · omega
            · have := List.rel_of_pairwise_cons linking.sorted later
              omega
      exact .inr (linking.children j (by omega) done c i edge)

theorem Linking.step {finished queue : List Nat} {p : Nat}
    (linking : Linking nodes word values finished (p::queue)) :
    Linking ((edges nodes p).foldl (linkChild p) nodes) word values (finished++[p])
      (queue++(edges nodes p).map Prod.snd) := by
  have trie := linking.trie
  obtain ⟨deep,inside⟩ := linking.inside p (by simp)
  have below : ∀ e ∈ edges nodes p, e.2 < nodes.length ∧ word e.2 = word p++[e.1] := by
    rintro ⟨c,j⟩ member
    exact (trie.edge p c j inside).mp ((mem_edges nodes p c j).mp member)
  have fresh : ∀ e ∈ edges nodes p, e.2 ≠ 0 ∧ e.2 ∉ finished++p::queue := by
    intro e member
    obtain ⟨known,step⟩ := below e member
    refine ⟨?_,?_⟩
    · intro root
      rw [root,trie.root.1] at step
      simp at step
    · intro seen
      rcases linking.parents e.2 seen p e.1 inside step with root | done
      · exact deep root
      · exact (List.nodup_append.mp linking.distinct).2.2 p done p List.mem_cons_self rfl
  have distinct := trie.edges_distinct inside
  obtain ⟨size,trie',same,kept,linked⟩ := linkChildren_linked deep (edges nodes p) nodes trie inside distinct below
    (fun i bound shallow => linking.linked i bound (linking.shallow i bound shallow)) linking.placed
    (fun e member => linking.own e.2 (below e member).1 (fresh e member).1 (fresh e member).2)
  have regroup : (finished++[p])++(queue++(edges nodes p).map Prod.snd) =
      (finished++p::queue)++(edges nodes p).map Prod.snd := by simp
  have deeper : ∀ j ∈ (edges nodes p).map Prod.snd, (word j).length = (word p).length+1 := by
    intro j member
    obtain ⟨e,listed,rfl⟩ := List.mem_map.mp member
    rw [(below e listed).2,List.length_append,List.length_singleton]
  have waiting : ∀ b ∈ queue, (word p).length ≤ (word b).length ∧ (word b).length ≤ (word p).length+1 := by
    intro b member
    exact ⟨List.rel_of_pairwise_cons linking.sorted member,
      linking.near p List.mem_cons_self b (List.mem_cons_of_mem _ member)⟩
  refine ⟨trie',by rw [size]; exact linking.placed,?_,?_,?_,?_,?_,?_,?_,?_⟩
  · rw [regroup]
    apply linking.distinct.append distinct
    intro j seen member
    obtain ⟨e,listed,rfl⟩ := List.mem_map.mp member
    exact (fresh e listed).2 seen
  · intro i member
    rw [regroup] at member
    rw [size]
    rcases List.mem_append.mp member with old | new
    · exact linking.inside i old
    · obtain ⟨e,listed,rfl⟩ := List.mem_map.mp new
      exact ⟨(fresh e listed).1,(below e listed).1⟩
  · intro i bound seen
    rw [regroup] at seen
    rw [size] at bound ⊢
    by_cases new : i ∈ (edges nodes p).map Prod.snd
    · obtain ⟨e,listed,rfl⟩ := List.mem_map.mp new
      exact linked e listed
    · rw [kept i new]
      apply linking.linked i bound
      rcases seen with root | member
      · exact .inl root
      · exact .inr ((List.mem_append.mp member).resolve_right new)
  · intro i bound deep' unseen
    rw [regroup,List.mem_append,not_or] at unseen
    rw [size] at bound
    rw [kept i unseen.2]
    exact linking.own i bound deep' unseen.1
  · intro i bound done c j edge
    rw [size] at bound
    rw [same] at edge
    rw [regroup]
    by_cases here : i = p
    · subst here
      exact List.mem_append_right _ (List.mem_map.mpr ⟨(c,j),(mem_edges nodes i c j).mpr edge,rfl⟩)
    · apply List.mem_append_left
      apply linking.children i bound _ c j edge
      rcases done with root | member
      · exact .inl root
      · rcases List.mem_append.mp member with old | new
        · exact .inr old
        · exact absurd (List.mem_singleton.mp new) here
  · intro j member i c bound step
    rw [regroup] at member
    rw [size] at bound
    rcases List.mem_append.mp member with old | new
    · rcases linking.parents j old i c bound step with root | done
      · exact .inl root
      · exact .inr (List.mem_append_left _ done)
    · obtain ⟨e,listed,rfl⟩ := List.mem_map.mp new
      obtain ⟨place,_⟩ := List.append_inj' (step.symm.trans (below e listed).2) rfl
      rw [trie.inj i p bound inside place]
      exact .inr (by simp)
  · rw [List.pairwise_append]
    refine ⟨(List.pairwise_cons.mp linking.sorted).2,?_,?_⟩
    · apply List.pairwise_of_forall_mem_list
      intro a member b member'
      rw [deeper a member,deeper b member']
    · intro a member b member'
      rw [deeper b member']
      exact (waiting a member).2
  · intro a member b member'
    have bounds : ∀ b ∈ queue++(edges nodes p).map Prod.snd,
        (word p).length ≤ (word b).length ∧ (word b).length ≤ (word p).length+1 := by
      intro b member
      rcases List.mem_append.mp member with old | new
      · exact waiting b old
      · rw [deeper b new]
        omega
    have first := bounds a member
    have second := bounds b member'
    omega

theorem link_linked (fuel : Nat) {finished queue : List Nat} (nodes : Nodes)
    (linking : Linking nodes word values finished queue) (enough : nodes.length ≤ fuel+finished.length) :
    (link fuel queue nodes).length = nodes.length ∧ Trie (link fuel queue nodes) word ∧
      ∀ i, i < nodes.length → Linked nodes.length word values i (node (link fuel queue nodes) i) := by
  induction fuel generalizing finished queue nodes with
  | zero =>
    -- the root is never queued, so not every node can be finished
    exfalso
    have part : (0::finished).Nodup := by
      refine List.nodup_cons.mpr ⟨?_,(List.nodup_append.mp linking.distinct).1⟩
      intro member
      exact (linking.inside 0 (List.mem_append_left _ member)).1 rfl
    have subset : 0::finished ⊆ List.range nodes.length := by
      intro i member
      rw [List.mem_range]
      rcases List.mem_cons.mp member with rfl | later
      · exact linking.trie.root.2
      · exact (linking.inside i (List.mem_append_left _ later)).2
    have := (List.subperm_of_subset part subset).length_le
    rw [List.length_cons,List.length_range] at this
    omega
  | succ fuel ih =>
    cases queue with
    | nil =>
      refine ⟨rfl,linking.trie,?_⟩
      have closed : ∀ i, i < nodes.length → i = 0 ∨ i ∈ finished := by
        intro i
        induction i using Nat.strong_induction_on with
        | _ i ih' =>
          intro inside
          by_cases root : i = 0
          · exact .inl root
          · obtain ⟨j,c,below,step⟩ := linking.trie.parent i inside root
            have edge := (linking.trie.edge j c i (by omega)).mpr ⟨inside,step⟩
            have member := linking.children j (by omega) (ih' j below (by omega)) c i edge
            rw [List.append_nil] at member
            exact .inr member
      intro i inside
      apply linking.linked i inside
      rw [List.append_nil]
      exact closed i inside
    | cons p queue =>
      have next := linking.step
      have size : ((edges nodes p).foldl (linkChild p) nodes).length = nodes.length := by
        apply foldl_keep List.length
        intro nodes e
        exact List.length_modify _ _ _
      obtain ⟨length,trie,linked⟩ := ih _ next (by rw [size,List.length_append,List.length_singleton]; omega)
      rw [size] at length linked
      exact ⟨length,trie,linked⟩

theorem Built.linking (built : Built nodes word values) (filled : ∀ v ∈ values, v ≠ []) :
    Linking nodes word values [] ((edges nodes 0).map Prod.snd) := by
  have trie := built.trie
  have below : ∀ e ∈ edges nodes 0, e.2 < nodes.length ∧ word e.2 = [e.1] := by
    rintro ⟨c,j⟩ member
    have edge := (trie.edge 0 c j trie.root.2).mp ((mem_edges nodes 0 c j).mp member)
    rw [trie.root.1] at edge
    exact edge
  have single : ∀ j ∈ (edges nodes 0).map Prod.snd, ∃ c, j < nodes.length ∧ word j = [c] := by
    intro j member
    obtain ⟨e,listed,rfl⟩ := List.mem_map.mp member
    exact ⟨e.1,below e listed⟩
  have own : ∀ i, i < nodes.length → Own word values i (node nodes i) :=
    fun i inside => ⟨built.unlinked i inside,built.lengths i inside⟩
  refine ⟨trie,?_,?_,?_,?_,fun i inside _ _ => own i inside,?_,?_,?_,?_⟩
  · intro v member
    exact built.placed v member
  · exact trie.edges_distinct trie.root.2
  · intro i member
    obtain ⟨c,inside,step⟩ := single i member
    refine ⟨?_,inside⟩
    rintro rfl
    rw [trie.root.1] at step
    cases step
  · intro i inside seen
    obtain ⟨unlinked,lengths⟩ := own i inside
    have short : (word i).tail = [] := by
      rcases seen with rfl | member
      · rw [trie.root.1]
        rfl
      · obtain ⟨c,_,step⟩ := single i member
        rw [step]
        rfl
    refine ⟨fun _ => ?_,?_⟩
    · rw [unlinked,short]
      exact trie.root.symm
    · have same : values.filter (· <:+ word i) = values.filter (· = word i) := by
        apply List.filter_congr
        intro v member
        apply decide_eq_decide.mpr
        refine ⟨fun suffix => ?_,fun whole => by rw [whole]⟩
        cases here : word i with
        | nil =>
          rw [here] at suffix
          exact absurd (List.eq_nil_of_suffix_nil suffix) (filled v member)
        | cons first rest =>
          rw [here,List.tail_cons] at short
          subst short
          rw [here] at suffix
          rcases List.suffix_cons_iff.mp suffix with whole | empty
          · exact whole
          · exact absurd (List.eq_nil_of_suffix_nil empty) (filled v member)
      rw [same]
      exact lengths
  · rintro i inside (rfl | member) c j edge
    · exact List.mem_map.mpr ⟨(c,j),(mem_edges nodes 0 c j).mpr edge,rfl⟩
    · cases member
  · intro j member i c inside step
    obtain ⟨c',_,one⟩ := single j member
    rw [one] at step
    obtain ⟨empty,_⟩ := List.append_inj' (show []++[c'] = word i++[c] from step) rfl
    exact .inl (trie.eq_root inside empty.symm)
  · apply List.pairwise_of_forall_mem_list
    intro a member b member'
    obtain ⟨c,_,step⟩ := single a member
    obtain ⟨c',_,step'⟩ := single b member'
    rw [step,step']
    exact Nat.le_refl _
  · intro a member b member'
    obtain ⟨c,_,step⟩ := single a member
    obtain ⟨c',_,step'⟩ := single b member'
    rw [step,step']
    simp

theorem literalNodes_linked (filled : ∀ v ∈ values, v ≠ []) :
    ∃ word, Trie (literalNodes values) word ∧ (∀ v ∈ values, Known (literalNodes values).length word v) ∧
      ∀ i, i < (literalNodes values).length →
        Linked (literalNodes values).length word values i (node (literalNodes values) i) := by
  obtain ⟨word,built⟩ := insertLiterals_built values
  have linking := built.linking filled
  obtain ⟨size,trie,linked⟩ := link_linked (values.foldl insertLiteral [.empty]).length _ linking (Nat.le_add_right _ _)
  have same : (literalNodes values).length = (values.foldl insertLiteral [.empty]).length := size
  refine ⟨word,trie,?_,?_⟩
  · rw [same]
    exact linking.placed
  · rw [same]
    exact linked

/-! Reading a text. -/

theorem scan_count (trie : Trie nodes word)
    (linked : ∀ i, i < nodes.length → Linked nodes.length word values i (node nodes i))
    (placed : ∀ v ∈ values, Known nodes.length word v) (rest read : Text) (index : Nat) (inside : index < nodes.length)
    (reached : word index = longest (Known nodes.length word) read) (start finish : Nat) :
    (scan nodes read.length index rest).count (start,finish) =
      if read.length < finish ∧ finish ≤ read.length+rest.length then
        values.countP fun v => v <:+ read++rest.take (finish-read.length) ∧ start = finish-v.length
      else 0 := by
  induction rest generalizing read index with
  | nil =>
    rw [if_neg (by rw [List.length_nil]; omega)]
    rfl
  | cons char rest ih =>
    have shallow := trie.depth index inside
    obtain ⟨below,step⟩ := follow_read trie (fun i bound _ => linked i bound) char nodes.length index inside
      (Nat.le_refl _) (by omega)
    rw [reached,← longest_append trie.known_root trie.known_closed] at step
    have later := ih (read++[char]) _ below step
    rw [List.length_append,List.length_singleton] at later
    -- the literals that end at this character
    have here : ((node nodes ((child nodes (follow nodes char nodes.length index) char).getD 0)).lengths.map
        fun length => (read.length+1-length,read.length+1)).count (start,finish) =
        values.countP fun v => v <:+ read++[char] ∧ start = read.length+1-v.length ∧ finish = read.length+1 := by
      rw [((linked _ below).2.map _).count_eq,List.map_map,List.count_eq_countP,List.countP_map,List.countP_filter,step]
      apply List.countP_congr
      intro v member
      have ends : v <:+ longest (Known nodes.length word) (read++[char]) ↔ v <:+ read++[char] :=
        ⟨fun suffix => suffix.trans (longest_suffix _),fun suffix => suffix_longest suffix (placed v member)⟩
      simp only [Function.comp,ends,beq_iff_eq,Prod.mk.injEq,Bool.and_eq_true,decide_eq_true_eq]
      rw [and_comm,eq_comm (a := start),eq_comm (a := finish)]
    rw [scan,List.count_append,later,here]
    by_cases first : finish = read.length+1
    · subst first
      have size : read.length+1-read.length = 1 := by omega
      rw [if_neg (by omega),if_pos (by rw [List.length_cons]; omega),Nat.add_zero,size]
      apply List.countP_congr
      intro v _
      rw [decide_eq_true_eq,decide_eq_true_eq]
      simp
    · have nothing : (values.countP fun v => v <:+ read++[char] ∧ start = read.length+1-v.length ∧
          finish = read.length+1) = 0 := by
        rw [List.countP_eq_zero]
        intro v _ found
        exact first (of_decide_eq_true found).2.2
      rw [nothing,Nat.zero_add]
      by_cases more : read.length+1 < finish ∧ finish ≤ read.length+1+rest.length
      · obtain ⟨k,size⟩ : ∃ k, finish-read.length = k+1 := ⟨finish-read.length-1,by omega⟩
        have size' : finish-(read.length+1) = k := by omega
        rw [if_pos more,if_pos (by rw [List.length_cons]; omega),size,size',List.take_succ_cons]
        simp
      · rw [if_neg more,if_neg (by rw [List.length_cons]; omega)]

end Link

/-- A literal stands in the text at a place. -/
def Occurs (value text : Text) (start : Nat) : Prop := value <+: text.drop start

theorem Occurs.bounded {value text : Text} {start : Nat} (occurs : Occurs value text start) (filled : value ≠ []) :
    start+value.length ≤ text.length := by
  have size := occurs.length_le
  have positive := List.length_pos_iff.mpr filled
  rw [List.length_drop] at size
  omega

theorem suffix_occurs {v : Text} (filled : v ≠ []) (text : Text) (start finish : Nat) :
    ((0 < finish ∧ finish ≤ text.length) ∧ v <:+ text.take finish ∧ start = finish-v.length) ↔
      Occurs v text start ∧ finish = start+v.length := by
  constructor
  · intro ends
    obtain ⟨⟨positive,bounded⟩,⟨front,split⟩,starts⟩ := ends
    have size := congrArg List.length split
    rw [List.length_append,List.length_take,Nat.min_eq_left bounded] at size
    refine ⟨⟨text.drop finish,?_⟩,by omega⟩
    have place : start = front.length := by omega
    have whole : text = front++(v++text.drop finish) := by
      rw [← List.append_assoc,split,List.take_append_drop]
    rw [place]
    conv => rhs; rw [whole]
    rw [List.drop_left]
  · intro stands
    obtain ⟨occurs,ends⟩ := stands
    have bounded := occurs.bounded filled
    have positive := List.length_pos_iff.mpr filled
    obtain ⟨rest,split⟩ := occurs
    refine ⟨⟨by omega,by omega⟩,⟨text.take start,?_⟩,by omega⟩
    have whole : text = text.take start++(v++rest) := by
      rw [split,List.take_append_drop]
    have front : (text.take start).length = start := by
      rw [List.length_take]
      omega
    have total : (text.take start++v).length = finish := by
      rw [List.length_append]
      omega
    conv => rhs; rw [whole,← List.append_assoc,← total,List.take_left]

instance (value text : Text) (start : Nat) : Decidable (Occurs value text start) :=
  inferInstanceAs (Decidable (value <+: text.drop start))

theorem literalMatcher_count {values : List Text} (filled : ∀ v ∈ values, v ≠ []) (text : Text) (start finish : Nat) :
    (literalMatcher values text).count (start,finish) =
      values.countP fun v => Occurs v text start ∧ finish = start+v.length := by
  obtain ⟨word,trie,placed,linked⟩ := literalNodes_linked filled
  have scanned := scan_count trie linked placed text [] 0 trie.root.2 trie.root.1 start finish
  rw [List.length_nil,Nat.zero_add,Nat.sub_zero] at scanned
  rw [literalMatcher,scanned]
  by_cases reached : 0 < finish ∧ finish ≤ text.length
  · rw [if_pos reached]
    apply List.countP_congr
    intro v member
    have occurs := suffix_occurs (filled v member) text start finish
    simp only [reached,true_and] at occurs
    simp only [List.nil_append,decide_eq_true_eq]
    exact occurs
  · rw [if_neg reached,eq_comm,List.countP_eq_zero]
    intro v member found
    exact reached ((suffix_occurs (filled v member) text start finish).mpr (of_decide_eq_true found)).1

theorem literalMatcher_mem {values : List Text} (filled : ∀ v ∈ values, v ≠ []) (text : Text) (start finish : Nat) :
    (start,finish) ∈ literalMatcher values text ↔
      ∃ v ∈ values, Occurs v text start ∧ finish = start+v.length := by
  rw [← List.count_pos_iff,literalMatcher_count filled,List.countP_pos_iff]
  simp only [decide_eq_true_eq]

theorem occurs_between {v : Text} (filled : v ≠ []) (text : Text) (start finish : Nat) :
    (Occurs v text start ∧ finish = start+v.length) ↔
      (start ≤ finish ∧ finish ≤ text.length) ∧ v = (text.take finish).drop start := by
  constructor
  · intro stands
    obtain ⟨occurs,ends⟩ := stands
    have bounded := occurs.bounded filled
    refine ⟨⟨by omega,by omega⟩,?_⟩
    have size : finish-start = v.length := by omega
    rw [List.drop_take,size]
    exact List.prefix_iff_eq_take.mp occurs
  · intro cut
    obtain ⟨⟨order,bounded⟩,between⟩ := cut
    have size := congrArg List.length between
    rw [List.length_drop,List.length_take] at size
    refine ⟨?_,by omega⟩
    rw [between,List.drop_take,Occurs]
    exact List.take_prefix _ _

/-- A span is reported iff the text between its ends is a literal, as often as that literal is listed. -/
theorem literalMatcher_exact {values : List Text} (filled : ∀ v ∈ values, v ≠ []) (text : Text) :
    (∀ start finish, (start,finish) ∈ literalMatcher values text ↔
      (start ≤ finish ∧ finish ≤ text.length) ∧ (text.take finish).drop start ∈ values) ∧
    (∀ start finish, (literalMatcher values text).count (start,finish) =
      if start ≤ finish ∧ finish ≤ text.length then values.count ((text.take finish).drop start) else 0) ∧
    (values.Nodup → (literalMatcher values text).Nodup) := by
  have counted : ∀ start finish, (literalMatcher values text).count (start,finish) =
      if start ≤ finish ∧ finish ≤ text.length then values.count ((text.take finish).drop start) else 0 := by
    intro start finish
    rw [literalMatcher_count filled]
    by_cases inside : start ≤ finish ∧ finish ≤ text.length
    · rw [if_pos inside,List.count_eq_countP]
      apply List.countP_congr
      intro v member
      have between := occurs_between (filled v member) text start finish
      simp only [inside,true_and] at between
      simpa using between
    · rw [if_neg inside,List.countP_eq_zero]
      intro v member found
      exact inside ((occurs_between (filled v member) text start finish).mp (of_decide_eq_true found)).1
  refine ⟨?_,counted,?_⟩
  · intro start finish
    rw [← List.count_pos_iff,counted]
    split
    next inside => simp [inside]
    next outside => simp [outside]
  · intro distinct
    apply List.nodup_iff_count_le_one.mpr
    intro span
    rw [counted span.1 span.2]
    split
    · exact List.nodup_iff_count_le_one.mp distinct _
    · exact Nat.zero_le 1

theorem literalMatcher_exact_nested : (literalMatcher [[97,98],[98],[97,98,97]] [97,98,97]).Nodup ∧
    (1,2) ∈ literalMatcher [[97,98],[98],[97,98,97]] [97,98,97] := by
  have filled : ∀ v ∈ ([[97,98],[98],[97,98,97]] : List Text), v ≠ [] := by decide
  have found := literalMatcher_exact filled [97,98,97]
  exact ⟨found.2.2 (by decide),(found.1 1 2).mpr (by decide)⟩

/-- A literal that is listed twice is reported twice. -/
theorem literalMatcher_twice : literalMatcher [[97],[97]] [97] = [(0,1),(0,1)] ∧
    ¬(literalMatcher [[97],[97]] [97]).Nodup := by decide

end ATape.Redaction
