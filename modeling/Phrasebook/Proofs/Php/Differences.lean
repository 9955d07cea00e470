import Phrasebook.Proofs.Php.Stripping
import Phrasebook.Proofs.Php.Sites

namespace Phrasebook.Php

namespace Node

mutual

theorem tokens_strip (node : Node) : node.strip.tokens = node.tokens.map Token.strip := by
  cases node with
  | leaf | missing => rfl
  | branch kind children =>
      rw [strip_branch, tokens_branch, tokens_branch]
      exact listTokens_strip children

theorem listTokens_strip (nodes : List Node) :
    tokens.listTokens (nodes.map strip) = (tokens.listTokens nodes).map Token.strip := by
  cases nodes with
  | nil => rfl
  | cons node nodes =>
      rw [List.map_cons, listTokens_cons, listTokens_cons, List.map_append, tokens_strip node, listTokens_strip nodes]

end

theorem length_tokens_of_strip {node other : Node} (same : node.strip = other.strip) :
    node.tokens.length = other.tokens.length := by
  have tokens := congrArg tokens same
  rw [tokens_strip, tokens_strip] at tokens
  simpa using congrArg List.length tokens

mutual

theorem eq_of_strip {node other : Node} (same : node.strip = other.strip) (tokens : node.tokens = other.tokens) :
    node = other := by
  cases node with
  | leaf token =>
      cases other with
      | leaf => rw [(List.cons.inj tokens).1]
      | missing | branch => cases same
  | missing =>
      cases other with
      | missing => rfl
      | leaf | branch => cases same
  | branch kind children =>
      cases other with
      | leaf | missing => cases same
      | branch kind' others =>
          rw [strip_branch, strip_branch] at same
          rw [tokens_branch, tokens_branch] at tokens
          obtain ⟨rfl, below⟩ := Node.branch.inj same
          rw [eq_of_stripAll below tokens]

theorem eq_of_stripAll {nodes others : List Node} (same : nodes.map strip = others.map strip)
    (tokens : tokens.listTokens nodes = tokens.listTokens others) : nodes = others := by
  cases nodes with
  | nil =>
      cases others with
      | nil => rfl
      | cons => cases same
  | cons node nodes =>
      cases others with
      | nil => cases same
      | cons other others =>
          obtain ⟨here, there⟩ := List.cons.inj same
          obtain ⟨one, two⟩ := List.append_inj tokens (length_tokens_of_strip here)
          rw [eq_of_strip here one, eq_of_stripAll there two]

end

variable {one two : Token} {front : List Token}

/-- Two trees with the same tokens but for one, which has some tokens before it, and the same without blanks and
comments. -/
structure Differ (one two : Token) (front : List Token) (node other : Node) : Prop where
  strip : node.strip = other.strip
  tokens : ∃ back, node.tokens = front ++ one :: back ∧ other.tokens = front ++ two :: back

structure ListDiffer (one two : Token) (front : List Token) (nodes others : List Node) : Prop where
  strip : nodes.map Node.strip = others.map Node.strip
  tokens : ∃ back, Node.tokens.listTokens nodes = front ++ one :: back ∧
    Node.tokens.listTokens others = front ++ two :: back

theorem Differ.length_lt {node other : Node} (differ : Differ one two front node other) :
    front.length < node.tokens.length := by
  obtain ⟨back, tokens, -⟩ := differ.tokens
  rw [tokens, List.length_append, List.length_cons]
  omega

theorem differ_cons {node : Node} {nodes others : List Node} (differ : ListDiffer one two front (node :: nodes) others) :
    ∃ other others', others = other :: others' ∧
      ((∃ front', front = node.tokens ++ front' ∧ node = other ∧ ListDiffer one two front' nodes others') ∨
        Differ one two front node other ∧ nodes = others') := by
  obtain ⟨strip, back, left, right⟩ := differ
  cases others with
  | nil => cases strip
  | cons other others =>
      obtain ⟨here, there⟩ := List.cons.inj strip
      have size := length_tokens_of_strip here
      rw [listTokens_cons] at left right
      refine ⟨other, others, rfl, ?_⟩
      rcases List.append_eq_append_iff.1 left with ⟨front', rfl, rest⟩ | ⟨within, tokens, rest⟩
      · rw [List.append_assoc] at right
        obtain ⟨same, rest'⟩ := List.append_inj right size.symm
        exact .inl ⟨front', rfl, eq_of_strip here same.symm, there, back, rest, rest'⟩
      · cases within with
        | nil =>
            rw [List.append_nil] at tokens
            obtain ⟨same, rest'⟩ := List.append_inj right (by rw [← size, tokens])
            exact .inl ⟨[], by simp [tokens], eq_of_strip here (by rw [tokens, same]), there, back, rest.symm, rest'⟩
        | cons token within =>
            obtain ⟨rfl, rfl⟩ := List.cons.inj rest
            have split : other.tokens ++ Node.tokens.listTokens others =
                front ++ two :: within ++ Node.tokens.listTokens nodes := by rw [right]; simp
            obtain ⟨same, rest'⟩ := List.append_inj split (by
              rw [← size, tokens]
              simp)
            exact .inr ⟨⟨here, within, tokens, same⟩, eq_of_stripAll there rest'.symm⟩

/-- A place behind some tokens of a tree does not lie inside of a node that passes a test: the node ends before the place,
or begins behind it. -/
def Outside (test : Node → Bool) (place : Nat) (root : Node) : Prop :=
  ∀ address node, root.at? address = some node → test node = true →
    place ≤ root.tokensBefore address ∨ root.tokensBefore address + node.tokens.length ≤ place

def ListOutside (test : Node → Bool) (place : Nat) (nodes : List Node) : Prop :=
  ∀ i node, nodes[i]? = some node → ∀ address other, node.at? address = some other → test other = true →
    place ≤ (Node.tokens.listTokens (nodes.take i)).length + node.tokensBefore address ∨
      (Node.tokens.listTokens (nodes.take i)).length + node.tokensBefore address + other.tokens.length ≤ place

section Outside

variable {test : Node → Bool} {place : Nat} {node : Node} {nodes : List Node}

theorem Outside.children {kind : Kind} (outside : Outside test place (.branch kind nodes)) :
    ListOutside test place nodes := by
  intro i child child? address other other? passes
  have found := outside (i :: address) other (at?_cons_eq_some.2 ⟨child, child?, other?⟩) passes
  simpa only [tokensBefore, Node.children, child?] using found

theorem ListOutside.head (outside : ListOutside test place (node :: nodes)) : Outside test place node := by
  intro address other other? passes
  simpa using outside 0 node rfl address other other? passes

theorem ListOutside.tail (outside : ListOutside test (node.tokens.length + place) (node :: nodes)) :
    ListOutside test place nodes := by
  intro i child child? address other other? passes
  have found := outside (i + 1) child child? address other other? passes
  simp only [List.take_succ_cons, listTokens_cons, List.length_append] at found
  omega

theorem Outside.front_eq_nil {other : Node} (outside : Outside test front.length node)
    (differ : Differ one two front node other) (passes : test node = true) : front = [] := by
  have size := differ.length_lt
  rcases outside [] node rfl passes with none | all
  · exact List.length_eq_zero_iff.1 (Nat.le_zero.1 none)
  · rw [tokensBefore] at all
    omega

end Outside

end Node

open Node

def isSolid : Node → Bool
  | .branch .name _ => true
  | .branch .qualifiedName _ => true
  | .branch .string _ => true
  | .branch .nowdoc _ => true
  | .branch .encapsed parts => parts.all isPlainPart
  | .branch .heredoc parts => parts.all isPlainPart
  | _ => false

theorem isPlainPart_strip (node : Node) : isPlainPart node.strip = isPlainPart node := by
  cases node with
  | leaf | missing => rfl
  | branch =>
      rw [strip_branch]
      rfl

theorem markupBefore_strip (node : Node) : markupBefore node.strip = markupBefore node := by
  rw [markupBefore, markupBefore, tokens_strip]
  cases node.tokens with
  | nil => rfl
  | cons token tokens => simp [Token.strip, List.countP_filter]

section Differ

variable {one two : Token} {front : List Token} {node other : Node} {nodes others : List Node}

theorem Node.Differ.cases (differ : Differ one two front node other) :
    (∃ token token', node = .leaf token ∧ other = .leaf token') ∨
      ∃ kind nodes others, node = .branch kind nodes ∧ other = .branch kind others ∧
        ListDiffer one two front nodes others := by
  obtain ⟨strip, back, left, right⟩ := differ
  cases node with
  | missing =>
      rw [Node.tokens] at left
      simp at left
  | leaf token =>
      cases other with
      | leaf token' => exact .inl ⟨token, token', rfl, rfl⟩
      | missing | branch => cases strip
  | branch kind nodes =>
      cases other with
      | leaf | missing => cases strip
      | branch kind' others =>
          rw [strip_branch, strip_branch] at strip
          rw [tokens_branch] at left right
          obtain ⟨rfl, below⟩ := Node.branch.inj strip
          exact .inr ⟨kind, nodes, others, rfl, rfl, below, back, left, right⟩

theorem Node.ListDiffer.all_isPlainPart (differ : ListDiffer one two front nodes others) :
    nodes.all isPlainPart = others.all isPlainPart := by
  have same := congrArg (List.all · isPlainPart) differ.strip
  simpa only [List.all_map, Function.comp_def, isPlainPart_strip] using same

theorem Node.Differ.text_eq (differ : Differ one two [] node other) (same : one.lexeme = two.lexeme) :
    node.text = other.text := by
  obtain ⟨back, left, right⟩ := differ.tokens
  simp only [text, left, right, List.nil_append, same]

theorem calleeName?_differ (differ : Differ one two front node other) (same : one.lexeme = two.lexeme)
    (outside : Outside isSolid front.length node) : calleeName? node = calleeName? other := by
  have text (solid : isSolid node = true) : node.text = other.text := by
    obtain rfl := outside.front_eq_nil differ solid
    exact differ.text_eq same
  rcases differ.cases with ⟨_, _, rfl, rfl⟩ | ⟨kind, nodes, others, rfl, rfl, below⟩
  · rfl
  · cases kind
    case name => rw [calleeName?, calleeName?, text rfl]
    case qualifiedName => rw [calleeName?, calleeName?, text rfl]
    all_goals rfl

theorem literal?_differ (differ : Differ one two front node other) (same : one.lexeme = two.lexeme)
    (outside : Outside isSolid front.length node) : literal? node = literal? other := by
  have text (solid : isSolid node = true) : node.text = other.text := by
    obtain rfl := outside.front_eq_nil differ solid
    exact differ.text_eq same
  rcases differ.cases with ⟨_, _, rfl, rfl⟩ | ⟨kind, nodes, others, rfl, rfl, below⟩
  · rfl
  · have parts := below.all_isPlainPart
    cases kind
    case string => rw [literal?, literal?, text rfl]
    case nowdoc => rw [literal?, literal?, text rfl]
    case encapsed | heredoc =>
      rw [literal?, literal?, ← parts]
      split
      · rename_i plain
        rw [text plain]
      · rfl
    all_goals rfl

theorem Node.ListDiffer.ne_nil (differ : ListDiffer one two front nodes others) : nodes ≠ [] ∧ others ≠ [] := by
  obtain ⟨back, left, right⟩ := differ.tokens
  refine ⟨?_, ?_⟩
  · rintro rfl
    simp at left
  · rintro rfl
    simp at right

theorem literal?_getLast?_differ (differ : ListDiffer one two front nodes others) (same : one.lexeme = two.lexeme)
    (outside : ListOutside isSolid front.length nodes) :
    nodes.getLast?.bind literal? = others.getLast?.bind literal? := by
  induction nodes generalizing front others with
  | nil => exact absurd rfl differ.ne_nil.1
  | cons node nodes ih =>
      obtain ⟨other, others, rfl, ⟨front, rfl, rfl, below⟩ | ⟨here, rfl⟩⟩ := differ_cons differ
      · rw [List.length_append] at outside
        have last := ih below outside.tail
        obtain ⟨some, some'⟩ := below.ne_nil
        rwa [List.getLast?_cons_of_ne_nil some, List.getLast?_cons_of_ne_nil some']
      · cases nodes with
        | nil => exact literal?_differ here same outside.head
        | cons => rw [List.getLast?_cons_cons, List.getLast?_cons_cons]

theorem ownValues_differ (differ : Differ one two front node other) (same : one.lexeme = two.lexeme)
    (outside : Outside isSolid front.length node) :
    (ownValues node).map (·.bind literal?) = (ownValues other).map (·.bind literal?) := by
  rcases differ.cases with ⟨_, _, rfl, rfl⟩ | ⟨kind, parts, parts', rfl, rfl, inside⟩
  · rfl
  · cases kind
    case argument => exact congrArg ([·]) (literal?_getLast?_differ inside same outside.children)
    all_goals rfl

theorem argumentValues_differ (differ : ListDiffer one two front nodes others) (same : one.lexeme = two.lexeme)
    (outside : ListOutside isSolid front.length nodes) :
    (argumentValues nodes).map (·.bind literal?) = (argumentValues others).map (·.bind literal?) := by
  induction nodes generalizing front others with
  | nil => exact absurd rfl differ.ne_nil.1
  | cons node nodes ih =>
      obtain ⟨other, others, rfl, ⟨front, rfl, rfl, below⟩ | ⟨here, rfl⟩⟩ := differ_cons differ
      · rw [List.length_append] at outside
        simp only [argumentValues_cons, List.map_append, ih below outside.tail]
      · have markup : markupBefore node = markupBefore other := by
          rw [← markupBefore_strip, here.strip, markupBefore_strip]
        simp only [argumentValues_cons, List.map_append, markup, ownValues_differ here same outside.head]

theorem nthArgument?_bind (arguments : Node) (index : Nat) : (nthArgument? arguments index).bind literal? =
    (((argumentValues (arguments.children.drop 1)).map (·.bind literal?))[index]?).join := by
  rw [nthArgument?, List.getElem?_map]
  cases (argumentValues (arguments.children.drop 1))[index]? <;> rfl

theorem nthArgument?_differ (differ : Differ one two front node other) (same : one.lexeme = two.lexeme)
    (outside : Outside isSolid front.length node) (index : Nat) :
    (nthArgument? node index).bind literal? = (nthArgument? other index).bind literal? := by
  rcases differ.cases with ⟨_, _, rfl, rfl⟩ | ⟨kind, nodes, others, rfl, rfl, below⟩
  · rfl
  · have opened := outside.children
    rw [nthArgument?_bind, nthArgument?_bind, Node.children, Node.children]
    cases nodes with
    | nil => exact absurd rfl below.ne_nil.1
    | cons opening nodes =>
        obtain ⟨opening', others, rfl, ⟨front, rfl, rfl, further⟩ | ⟨-, rfl⟩⟩ := differ_cons below
        · rw [List.length_append] at opened
          rw [List.drop_one, List.drop_one, List.tail_cons, List.tail_cons, argumentValues_differ further same opened.tail]
        · rfl

theorem occurrence?_call (table : FunctionTable) (callee arguments : Node) :
    occurrence? table (.branch .call [callee, arguments]) = (calleeName? callee).bind fun name =>
      (table.get? name).bind fun function => ((nthArgument? arguments function.argument).bind literal?).bind fun text =>
        some ⟨name, String.ofList text⟩ := by
  simp only [Option.bind_assoc]
  rfl

theorem occurrence?_differ (table : FunctionTable) (differ : Differ one two front node other)
    (same : one.lexeme = two.lexeme) (outside : Outside isSolid front.length node) (shaped : Shaped node) :
    occurrence? table node = occurrence? table other := by
  rcases differ.cases with ⟨_, _, rfl, rfl⟩ | ⟨kind, nodes, others, rfl, rfl, below⟩
  · rfl
  by_cases call : kind = .call
  · subst call
    obtain ⟨callee, inner, rfl⟩ := shaped
    have opened := outside.children
    obtain ⟨callee', others, rfl, ⟨front, rfl, rfl, further⟩ | ⟨here, rfl⟩⟩ := differ_cons below
    · rw [List.length_append] at opened
      have opened := opened.tail
      obtain ⟨arguments, others, rfl, ⟨front, rfl, -, none⟩ | ⟨here, rfl⟩⟩ := differ_cons further
      · exact absurd rfl none.ne_nil.1
      · simp only [occurrence?_call, nthArgument?_differ here same opened.head]
    · rw [occurrence?_call, occurrence?_call, calleeName?_differ here same opened.head]
  · have none (children : List Node) : callParts? (.branch kind children) = Option.none := by
      unfold callParts?
      split
      · rename_i same
        exact absurd (Node.branch.inj same).1 call
      · rfl
    rw [occurrence?, occurrence?, none, none]

mutual

theorem occurrences_differ (table : FunctionTable) {node other : Node} {front : List Token}
    (differ : Differ one two front node other) (same : one.lexeme = two.lexeme)
    (outside : Outside isSolid front.length node) (shaped : node.All Shaped) :
    occurrences table node = occurrences table other := by
  have here := occurrence?_differ table differ same outside shaped.here
  cases node with
  | missing => exact absurd differ.length_lt (Nat.not_lt_zero _)
  | leaf token =>
      rcases differ.cases with ⟨_, _, -, rfl⟩ | ⟨_, _, _, branch, -⟩
      · rw [occurrences, occurrences, preorder, preorder, List.filterMap_cons, List.filterMap_cons, here]
      · cases branch
  | branch kind nodes =>
      rcases differ.cases with ⟨_, _, leaf, -⟩ | ⟨_, _, others, branch, rfl, below⟩
      · cases leaf
      · obtain ⟨rfl, rfl⟩ := Node.branch.inj branch
        have inner := listOccurrences_differ table below same outside.children (all_branch.1 shaped).2
        rw [occurrences, occurrences, preorder, preorder, List.filterMap_cons, List.filterMap_cons, here, inner]

theorem listOccurrences_differ (table : FunctionTable) {nodes others : List Node} {front : List Token}
    (differ : ListDiffer one two front nodes others) (same : one.lexeme = two.lexeme)
    (outside : ListOutside isSolid front.length nodes) (shaped : ∀ node ∈ nodes, node.All Shaped) :
    (preorder.listPreorder nodes).filterMap (occurrence? table) =
      (preorder.listPreorder others).filterMap (occurrence? table) := by
  cases nodes with
  | nil => exact absurd rfl differ.ne_nil.1
  | cons node nodes =>
      obtain ⟨shapedHere, shapedThere⟩ := List.forall_mem_cons.1 shaped
      obtain ⟨other, others, rfl, ⟨front, rfl, rfl, below⟩ | ⟨here, rfl⟩⟩ := differ_cons differ
      · rw [List.length_append] at outside
        rw [preorder.listPreorder, preorder.listPreorder, List.filterMap_append, List.filterMap_append,
          listOccurrences_differ table below same outside.tail shapedThere]
      · rw [preorder.listPreorder, preorder.listPreorder, List.filterMap_append, List.filterMap_append]
        exact congrArg (· ++ _) (occurrences_differ table here same outside.head shapedHere)

end

end Differ

end Phrasebook.Php
