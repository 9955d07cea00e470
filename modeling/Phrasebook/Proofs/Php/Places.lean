import Mathlib.Data.List.Lex
import Phrasebook.Php.Tree

namespace Phrasebook.Php

namespace Node

@[simp]
theorem tokens_branch (kind : Kind) (children : List Node) :
    (Node.branch kind children).tokens = tokens.listTokens children := by rw [tokens]

@[simp]
theorem listTokens_nil : tokens.listTokens [] = [] := rfl

@[simp]
theorem listTokens_cons (node : Node) (nodes : List Node) :
    tokens.listTokens (node :: nodes) = node.tokens ++ tokens.listTokens nodes := rfl

@[simp]
theorem listTokens_append (nodes others : List Node) :
    tokens.listTokens (nodes ++ others) = tokens.listTokens nodes ++ tokens.listTokens others := by
  induction nodes with
  | nil => rfl
  | cons node nodes ih => rw [List.cons_append, listTokens_cons, listTokens_cons, ih, List.append_assoc]

def at? (node : Node) : List Nat → Option Node
  | [] => some node
  | i :: address => node.children[i]?.bind (·.at? address)

@[simp]
theorem at?_nil (node : Node) : node.at? [] = some node := rfl

theorem at?_cons_eq_some {node found : Node} {i : Nat} {address : List Nat} :
    node.at? (i :: address) = some found ↔
      ∃ child, node.children[i]? = some child ∧ child.at? address = some found := by
  rw [at?, Option.bind_eq_some_iff]

theorem mem_listPreorder {nodes : List Node} {other : Node} :
    other ∈ preorder.listPreorder nodes ↔ ∃ node ∈ nodes, other ∈ node.preorder := by
  induction nodes with
  | nil => simp [preorder.listPreorder]
  | cons node nodes ih => simp [preorder.listPreorder, ih]

/-- A node and all below it in the order of `preorder`, with their addresses. -/
def addressed : Node → List (List Nat × Node)
  | .leaf token => [([], .leaf token)]
  | .missing => [([], .missing)]
  | .branch kind children => ([], .branch kind children) :: listAddressed 0 children
where
  listAddressed (first : Nat) : List Node → List (List Nat × Node)
    | [] => []
    | child :: children =>
      child.addressed.map (fun (address, node) => (first :: address, node)) ++ listAddressed (first + 1) children

mutual

theorem map_snd_addressed (node : Node) : node.addressed.map Prod.snd = node.preorder := by
  cases node with
  | leaf token => rfl
  | missing => rfl
  | branch kind children =>
      rw [addressed, preorder, List.map_cons, map_snd_listAddressed 0 children]

theorem map_snd_listAddressed (first : Nat) (nodes : List Node) :
    (addressed.listAddressed first nodes).map Prod.snd = preorder.listPreorder nodes := by
  cases nodes with
  | nil => rfl
  | cons node nodes =>
      have same : (node.addressed.map fun (address, node) => (first :: address, node)).map Prod.snd =
          node.addressed.map Prod.snd := by
        rw [List.map_map]
        rfl
      rw [addressed.listAddressed, preorder.listPreorder, List.map_append, same, map_snd_addressed node,
        map_snd_listAddressed (first + 1) nodes]

end

mutual

theorem mem_addressed {node found : Node} {address : List Nat} :
    (address, found) ∈ node.addressed ↔ node.at? address = some found := by
  cases node with
  | leaf token => cases address <;> simp [addressed, at?, children, eq_comm]
  | missing => cases address <;> simp [addressed, at?, children, eq_comm]
  | branch kind children =>
      rw [addressed, List.mem_cons, mem_listAddressed]
      cases address with
      | nil => simp [eq_comm]
      | cons i address => simp [at?_cons_eq_some, Node.children]

theorem mem_listAddressed {nodes : List Node} {found : Node} {first : Nat} {address : List Nat} :
    (address, found) ∈ addressed.listAddressed first nodes ↔
      ∃ i further child, address = (first + i) :: further ∧ nodes[i]? = some child ∧
        child.at? further = some found := by
  cases nodes with
  | nil => simp [addressed.listAddressed]
  | cons node nodes =>
      rw [addressed.listAddressed, List.mem_append, mem_listAddressed]
      constructor
      · rintro (here | ⟨i, further, child, rfl, child?, found⟩)
        · obtain ⟨⟨further, other⟩, mem, same⟩ := List.mem_map.1 here
          cases same
          exact ⟨0, further, node, rfl, rfl, mem_addressed.1 mem⟩
        · exact ⟨i + 1, further, child, by rw [Nat.add_right_comm, Nat.add_assoc], child?, found⟩
      · rintro ⟨i, further, child, rfl, child?, found⟩
        cases i with
        | zero =>
            cases child?
            exact .inl (List.mem_map.2 ⟨(further, _), mem_addressed.2 found, rfl⟩)
        | succ i => exact .inr ⟨i, further, child, by rw [Nat.add_right_comm, Nat.add_assoc], child?, found⟩

end

mutual

theorem pairwise_addressed (node : Node) : (node.addressed.map Prod.fst).Pairwise (· < ·) := by
  cases node with
  | leaf token => exact List.pairwise_singleton _ _
  | missing => exact List.pairwise_singleton _ _
  | branch kind children =>
      rw [addressed, List.map_cons, List.pairwise_cons]
      refine ⟨fun address here => ?_, pairwise_listAddressed 0 children⟩
      obtain ⟨⟨_, found⟩, mem, rfl⟩ := List.mem_map.1 here
      obtain ⟨i, further, _, rfl, _⟩ := mem_listAddressed.1 mem
      exact List.nil_lt_cons _ _

theorem pairwise_listAddressed (first : Nat) (nodes : List Node) :
    ((addressed.listAddressed first nodes).map Prod.fst).Pairwise (· < ·) := by
  cases nodes with
  | nil => exact List.Pairwise.nil
  | cons node nodes =>
      have same : (node.addressed.map fun (address, node) => (first :: address, node)).map Prod.fst =
          (node.addressed.map Prod.fst).map (first :: ·) := by
        rw [List.map_map, List.map_map]
        rfl
      rw [addressed.listAddressed, List.map_append, same, List.pairwise_append]
      refine ⟨?_, pairwise_listAddressed (first + 1) nodes, fun address here other there => ?_⟩
      · rw [List.pairwise_map]
        exact (pairwise_addressed node).imp fun less => List.cons_lt_cons_iff.2 (.inr ⟨rfl, less⟩)
      · obtain ⟨address, _, rfl⟩ := List.mem_map.1 here
        obtain ⟨⟨_, found⟩, mem, rfl⟩ := List.mem_map.1 there
        obtain ⟨i, further, _, rfl, _⟩ := mem_listAddressed.1 mem
        exact List.cons_lt_cons_iff.2 (.inl (by omega))

end

theorem not_lt_of_prefix {address other : List Nat} (inside : other <+: address) : ¬ address < other := by
  obtain ⟨further, rfl⟩ := inside
  induction other with
  | nil => exact List.not_lt_nil _
  | cons i other ih =>
      intro less
      rcases List.cons_lt_cons_iff.1 less with left | ⟨_, less⟩
      · exact Nat.lt_irrefl _ left
      · exact ih less

def tokensBefore (node : Node) : List Nat → Nat
  | [] => 0
  | i :: address =>
    (tokens.listTokens (node.children.take i)).length +
      (match node.children[i]? with
       | some child => child.tokensBefore address
       | none => 0)

theorem tokens_eq_listTokens_children {node : Node} {i : Nat} {child : Node} (child? : node.children[i]? = some child) :
    node.tokens = tokens.listTokens node.children := by
  cases node with
  | leaf token => simp [children] at child?
  | missing => simp [children] at child?
  | branch kind children => rw [tokens_branch, Node.children]

theorem split_children {nodes : List Node} {i : Nat} {child : Node} (child? : nodes[i]? = some child) :
    tokens.listTokens nodes =
      tokens.listTokens (nodes.take i) ++ child.tokens ++ tokens.listTokens (nodes.drop (i + 1)) := by
  obtain ⟨less, here⟩ := List.getElem?_eq_some_iff.1 child?
  have split : nodes = nodes.take i ++ child :: nodes.drop (i + 1) := by
    rw [← here, List.getElem_cons_drop, List.take_append_drop]
  conv => lhs; rw [split]
  rw [listTokens_append, listTokens_cons, List.append_assoc]

theorem slice {node found : Node} {address : List Nat} (found? : node.at? address = some found) :
    ∃ front back, node.tokens = front ++ found.tokens ++ back ∧ front.length = node.tokensBefore address := by
  induction address generalizing node with
  | nil =>
      cases found?
      exact ⟨[], [], by simp, rfl⟩
  | cons i address ih =>
      obtain ⟨child, child?, found?⟩ := at?_cons_eq_some.1 found?
      obtain ⟨front, back, split, length⟩ := ih found?
      refine ⟨tokens.listTokens (node.children.take i) ++ front,
        back ++ tokens.listTokens (node.children.drop (i + 1)), ?_, ?_⟩
      · rw [tokens_eq_listTokens_children child?, split_children child?, split]
        simp only [List.append_assoc]
      · rw [List.length_append, length, tokensBefore, child?]

theorem tokensBefore_mono {node one two : Node} {address other : List Nat} (less : address < other)
    (one? : node.at? address = some one) (two? : node.at? other = some two) :
    node.tokensBefore address ≤ node.tokensBefore other := by
  induction address generalizing node other with
  | nil => exact Nat.zero_le _
  | cons i address ih =>
      cases other with
      | nil => exact absurd less (List.not_lt_nil _)
      | cons j other =>
          obtain ⟨child, child?, one?⟩ := at?_cons_eq_some.1 one?
          obtain ⟨child', child'?, two?⟩ := at?_cons_eq_some.1 two?
          simp only [tokensBefore, child?, child'?]
          rcases List.cons_lt_cons_iff.1 less with left | ⟨rfl, inner⟩
          · obtain ⟨front, back, split, length⟩ := slice one?
            have within : child.tokensBefore address ≤ child.tokens.length := by
              rw [split, List.length_append, List.length_append]
              omega
            have upTo : node.children.take (i + 1) = node.children.take i ++ [child] := by
              obtain ⟨bound, here⟩ := List.getElem?_eq_some_iff.1 child?
              rw [List.take_succ_eq_append_getElem bound, here]
            have parts : node.children.take j =
                node.children.take (i + 1) ++ (node.children.take j).drop (i + 1) := by
              conv => lhs; rw [← List.take_append_drop (i + 1) (node.children.take j), List.take_take,
                Nat.min_eq_left left]
            rw [parts, upTo]
            simp only [listTokens_append, listTokens_cons, listTokens_nil, List.length_append, List.append_nil]
            omega
          · rw [child?] at child'?
            cases child'?
            exact Nat.add_le_add_left (ih inner one? two?) _

end Node

def startOf (tokens : List Token) (i : Nat) : Nat :=
  ((tokens.take i).flatMap Token.source).length +
    match tokens[i]? with
    | some token => token.gap.length
    | none => 0

theorem startOf_mono (tokens : List Token) {i j : Nat} (le : i ≤ j) : startOf tokens i ≤ startOf tokens j := by
  rcases Nat.eq_or_lt_of_le le with rfl | less
  · exact Nat.le_refl _
  · have parts : tokens.take j = tokens.take (i + 1) ++ (tokens.take j).drop (i + 1) := by
      conv => lhs; rw [← List.take_append_drop (i + 1) (tokens.take j), List.take_take, Nat.min_eq_left less]
    rw [startOf, startOf, parts]
    cases here : tokens[i]? with
    | none =>
        have all : tokens.take i = tokens.take (i + 1) := by
          have short := List.getElem?_eq_none_iff.1 here
          rw [List.take_of_length_le short, List.take_of_length_le (by omega)]
        rw [all]
        simp only [List.flatMap_append, List.length_append]
        omega
    | some token =>
        obtain ⟨bound, same⟩ := List.getElem?_eq_some_iff.1 here
        rw [List.take_succ_eq_append_getElem bound, same]
        simp only [List.flatMap_append, List.flatMap_cons, List.flatMap_nil, List.length_append, Token.source]
        omega

namespace Node

def start (root : Node) (address : List Nat) : Nat := startOf root.tokens (root.tokensBefore address)

theorem start_mono {root one two : Node} {address other : List Nat} (less : address < other)
    (one? : root.at? address = some one) (two? : root.at? other = some two) :
    root.start address ≤ root.start other :=
  startOf_mono _ (tokensBefore_mono less one? two?)

end Node

end Phrasebook.Php
