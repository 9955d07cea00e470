import Phrasebook.Proofs.Php.Totality
import Phrasebook.Proofs.Php.Reads
import Phrasebook.Proofs.Php.Places
import Phrasebook.Proofs.Php.Lexemes

namespace Phrasebook.Php

open Node

section Derivations

variable {σ : Type} {grammar : σ → Rule σ}

theorem Derives.tokens_eq {rule : Rule σ} {frame : List Node} {tokens : List Token} {out : Outcome}
    (derives : Derives grammar rule frame tokens out) {moved : Bool} {frame' : List Node} {rest : List Token}
    (ends : out = .done moved frame' rest) :
    Node.tokens.listTokens frame'.reverse ++ rest = Node.tokens.listTokens frame.reverse ++ tokens := by
  induction derives generalizing moved frame' rest with
  | skip | markup | manyStill | manyEnd | optionNone | given | ahead | apart =>
      cases ends
      rfl
  | lexeme passes =>
      cases ends
      simp [Node.tokens]
  | lexemeStuck | markupStuck | seqStuck | manyStuck | optionStuck | attemptStuck | nodeStuck | extendStuck
  | extendNone | givenStuck | aheadStuck | apartStuck => cases ends
  | @seq _ _ _ _ _ _ _ out one two ih₁ ih₂ | @manyStep _ _ _ _ _ out one two ih₁ ih₂ =>
      cases out with
      | stuck => cases ends
      | done moved frame rest =>
          cases ends
          rw [ih₂ rfl, ih₁ rfl]
  | altFirst one ih | option one ih | attempt one ih | call one ih => exact ih ends
  | altSecond one two ih₁ ih₂ => exact ih₂ (Outcome.done_of_farther ends)
  | node one ih =>
      cases ends
      simpa using ih rfl
  | extend one ih =>
      cases ends
      simpa using ih rfl

def Rule.Builds (grammar : σ → Rule σ) (holds : Node → Prop) : Rule σ → Prop
  | .seq first second => first.Builds grammar holds ∧ second.Builds grammar holds
  | .alt first second => first.Builds grammar holds ∧ second.Builds grammar holds
  | .many rule => rule.Builds grammar holds
  | .option rule => rule.Builds grammar holds
  | .attempt rule => rule.Builds grammar holds
  | .node kind rule => rule.Builds grammar holds ∧
      ∀ tokens moved nodes rest, Derives grammar rule [] tokens (.done moved nodes rest) →
        holds (.branch kind nodes.reverse)
  | .extend kind rule => rule.Builds grammar holds ∧
      ∀ newest tokens moved nodes rest, Derives grammar rule [newest] tokens (.done moved nodes rest) →
        holds (.branch kind nodes.reverse)
  | _ => True

def Rule.avoids (kinds : List Kind) : Rule σ → Bool
  | .seq first second => first.avoids kinds && second.avoids kinds
  | .alt first second => first.avoids kinds && second.avoids kinds
  | .many rule => rule.avoids kinds
  | .option rule => rule.avoids kinds
  | .attempt rule => rule.avoids kinds
  | .node kind rule => !kinds.contains kind && rule.avoids kinds
  | .extend kind rule => !kinds.contains kind && rule.avoids kinds
  | _ => true

theorem Rule.Builds.of_avoids {holds : Node → Prop} {kinds : List Kind}
    (others : ∀ kind children, kinds.contains kind = false → holds (.branch kind children)) {rule : Rule σ}
    (avoids : rule.avoids kinds = true) : rule.Builds grammar holds := by
  induction rule with
  | seq first second ih₁ ih₂ | alt first second ih₁ ih₂ =>
      rw [Rule.avoids, Bool.and_eq_true] at avoids
      exact ⟨ih₁ avoids.1, ih₂ avoids.2⟩
  | many rule ih | option rule ih | attempt rule ih => exact ih avoids
  | node kind rule ih =>
      rw [Rule.avoids, Bool.and_eq_true, Bool.not_eq_true'] at avoids
      exact ⟨ih avoids.2, fun _ _ _ _ _ => others _ _ avoids.1⟩
  | extend kind rule ih =>
      rw [Rule.avoids, Bool.and_eq_true, Bool.not_eq_true'] at avoids
      exact ⟨ih avoids.2, fun _ _ _ _ _ _ => others _ _ avoids.1⟩
  | skip | lexeme | markup | given | ahead | apart | call => trivial

theorem Rule.Builds.choice {holds : Node → Prop} {rules : List (Rule σ)}
    (all : ∀ rule ∈ rules, rule.Builds grammar holds) : (Rule.choice rules).Builds grammar holds := by
  induction rules with
  | nil => trivial
  | cons rule rules ih =>
      obtain ⟨here, there⟩ := List.forall_mem_cons.1 all
      cases rules with
      | nil => exact here
      | cons => exact ⟨here, ih there⟩

def Node.All (holds : Node → Prop) (node : Node) : Prop := ∀ other ∈ node.preorder, holds other

theorem Node.all_branch {holds : Node → Prop} {kind : Kind} {children : List Node} :
    (Node.branch kind children).All holds ↔ holds (.branch kind children) ∧ ∀ child ∈ children, child.All holds := by
  simp only [Node.All, preorder, List.mem_cons, forall_eq_or_imp, mem_listPreorder]
  refine and_congr_right fun _ => ⟨fun all child mem other below => all other ⟨child, mem, below⟩, ?_⟩
  rintro all other ⟨child, mem, below⟩
  exact all child mem other below

theorem Node.All.here {holds : Node → Prop} {node : Node} (all : node.All holds) : holds node := by
  cases node with
  | branch => exact (Node.all_branch.1 all).1
  | leaf | missing => exact all _ List.mem_cons_self

theorem Node.All.child {holds : Node → Prop} {node child : Node} (all : node.All holds)
    (mem : child ∈ node.children) : child.All holds := by
  cases node with
  | branch => exact (Node.all_branch.1 all).2 child mem
  | leaf | missing => exact absurd mem List.not_mem_nil

theorem Node.All.at {holds : Node → Prop} {node found : Node} {address : List Nat} (all : node.All holds)
    (found? : node.at? address = some found) : found.All holds := by
  induction address generalizing node with
  | nil =>
      cases found?
      exact all
  | cons i address ih =>
      obtain ⟨child, child?, found?⟩ := at?_cons_eq_some.1 found?
      exact ih (all.child (List.mem_of_getElem? child?)) found?

theorem Derives.builds {holds : Node → Prop} (leaves : ∀ token, holds (.leaf token))
    (symbols : ∀ symbol, (grammar symbol).Builds grammar holds) {rule : Rule σ} {frame : List Node}
    {tokens : List Token} {out : Outcome} (derives : Derives grammar rule frame tokens out)
    (builds : rule.Builds grammar holds) (all : ∀ node ∈ frame, node.All holds) {moved : Bool} {frame' : List Node}
    {rest : List Token} (ends : out = .done moved frame' rest) : ∀ node ∈ frame', node.All holds := by
  -- Only `node` and `extend` make branches. What they stand for follows from the derivation of their children, which
  -- is why the property is proved of derivations and not of rules.
  induction derives generalizing moved frame' rest with
  | skip | markup | manyStill | manyEnd | optionNone | given | ahead | apart =>
      cases ends
      exact all
  | @lexeme _ token _ _ passes =>
      cases ends
      refine List.forall_mem_cons.2 ⟨fun other mem => ?_, all⟩
      rw [List.mem_singleton.1 mem]
      exact leaves token
  | lexemeStuck | markupStuck | seqStuck | manyStuck | optionStuck | attemptStuck | nodeStuck | extendStuck
  | extendNone | givenStuck | aheadStuck | apartStuck => cases ends
  | @seq _ _ _ _ _ _ _ out one two ih₁ ih₂ =>
      cases out with
      | stuck => cases ends
      | done moved frame rest =>
          cases ends
          exact ih₂ builds.2 (ih₁ builds.1 all rfl) rfl
  | altFirst one ih => exact ih builds.1 all ends
  | altSecond one two ih₁ ih₂ => exact ih₂ builds.2 all (Outcome.done_of_farther ends)
  | @manyStep _ _ _ _ _ out one others ih₁ ih₂ =>
      cases out with
      | stuck => cases ends
      | done moved frame rest =>
          cases ends
          exact ih₂ builds (ih₁ builds all rfl) rfl
  | option one ih | attempt one ih => exact ih builds all ends
  | @node _ _ _ _ _ nodes _ one ih =>
      cases ends
      have below := ih builds.1 (fun _ mem => by cases mem) rfl
      refine List.forall_mem_cons.2 ⟨Node.all_branch.2 ⟨builds.2 _ _ _ _ one, fun child mem => ?_⟩, all⟩
      exact below child (List.mem_reverse.1 mem)
  | @extend _ _ newest _ _ _ nodes _ one ih =>
      cases ends
      obtain ⟨first, others⟩ := List.forall_mem_cons.1 all
      have below := ih builds.1 (by simpa using first) rfl
      refine List.forall_mem_cons.2 ⟨Node.all_branch.2 ⟨builds.2 _ _ _ _ _ one, fun child mem => ?_⟩, others⟩
      exact below child (List.mem_reverse.1 mem)
  | call one ih => exact ih (symbols _) all ends

end Derivations

inductive IsStringPart : Node → Prop
  | chunk {token : Token} (kind : token.lexeme.kind = .chunk) : IsStringPart (.leaf token)
  | substitution {parts : List Node} : IsStringPart (.branch .substitution parts)

def IsInterpolated (opens : Lexeme → Prop) (nodes : List Node) : Prop :=
  ∃ opener parts closer, nodes = .leaf opener :: (parts ++ [.leaf closer]) ∧ opens opener.lexeme ∧
    closer.lexeme.kind = .closer ∧ ∀ part ∈ parts, IsStringPart part

/-- A call has a callee and arguments, a single-quoted string is one token, and what has substitutions stands between
its marks. -/
def Shaped : Node → Prop
  | .branch .call parts => ∃ callee inner, parts = [callee, .branch .arguments inner]
  | .branch .string parts => ∃ token, parts = [.leaf token] ∧ token.lexeme.kind = .single
  | .branch .encapsed parts => IsInterpolated (·.openQuote? = some '"') parts
  | .branch .heredoc parts => IsInterpolated (·.kind = .opener) parts
  | _ => True

def shapedKinds : List Kind := [.call, .string, .encapsed, .heredoc]

theorem shaped_of_kind {kind : Kind} {children : List Node} (other : shapedKinds.contains kind = false) :
    Shaped (.branch kind children) := by
  cases kind <;> trivial

theorem Reads.of_stringParts {frame frame' : List Node} {tokens rest : List Token}
    (reads : Reads (.many (.call .stringPart)) frame tokens frame' rest) :
    ∃ parts : List Node, frame' = parts.reverse ++ frame ∧ ∀ part ∈ parts, IsStringPart part := by
  induction size : tokens.length using Nat.strong_induction_on generalizing frame tokens with
  | h size ih =>
      subst size
      rcases reads.of_many with ⟨rfl, _⟩ | ⟨frame₁, tokens₁, shorter, one, others⟩
      · exact ⟨[], rfl, fun _ mem => by cases mem⟩
      · obtain ⟨parts, rfl, all⟩ := ih _ shorter others rfl
        obtain ⟨part, rfl, isPart⟩ : ∃ part, frame₁ = part :: frame ∧ IsStringPart part := by
          rcases one.of_call.of_alt with chunk | inner
          · obtain ⟨token, kind, _, rfl⟩ := chunk.of_lexeme
            exact ⟨_, rfl, .chunk (by simpa using kind)⟩
          · obtain ⟨nodes, _, rfl⟩ := inner.of_node
            exact ⟨_, rfl, .substitution⟩
        exact ⟨part :: parts, by simp, List.forall_mem_cons.2 ⟨isPart, all⟩⟩

theorem Reads.isInterpolated {test : Lexeme → Bool} {opens : Lexeme → Prop}
    (passes : ∀ lexeme, test lexeme = true → opens lexeme) {tokens rest : List Token} {nodes : List Node}
    (reads : Reads (Rule.sequence [.lexeme test, .many (.call .stringPart), Rule.kind .closer]) [] tokens nodes rest) :
    IsInterpolated opens nodes.reverse := by
  obtain ⟨_, _, first, others⟩ := reads.of_seq
  obtain ⟨_, _, inner, last⟩ := others.of_seq
  obtain ⟨opener, opened, _, rfl⟩ := first.of_lexeme
  obtain ⟨parts, rfl, all⟩ := inner.of_stringParts
  obtain ⟨closer, closed, _, rfl⟩ := last.of_lexeme
  exact ⟨opener, parts, closer, by simp, passes _ opened, by simpa using closed, all⟩

theorem builds_suffix (last : Bool) : (suffix last).Builds grammar Shaped := by
  refine .choice (List.forall_mem_cons.2 ⟨⟨⟨by cases last <;> trivial, trivial⟩, ?_⟩, ?_⟩)
  · intro newest tokens moved nodes rest derives
    obtain ⟨_, _, callable, arguments⟩ := Reads.of_seq ⟨moved, derives⟩
    obtain ⟨rfl, rfl⟩ := callable.of_joined.of_given
    obtain ⟨inner, _, rfl⟩ := arguments.of_call.of_node
    exact ⟨newest, inner.reverse, rfl⟩
  · intro rule mem
    have avoids : rule.avoids shapedKinds = true := by
      revert rule
      rw [← List.all_eq_true]
      cases last <;> rfl
    exact .of_avoids (fun _ _ => shaped_of_kind) avoids

theorem builds_scopeCall : (Rule.node .call (.seq (.attempt (.seq (.node .name scopeWord) (.ahead (Rule.sym "("))))
    (.call .arguments))).Builds grammar Shaped := by
  refine ⟨.of_avoids (fun _ _ => shaped_of_kind) rfl, fun tokens moved nodes rest derives => ?_⟩
  obtain ⟨_, _, callee, arguments⟩ := Reads.of_seq ⟨moved, derives⟩
  obtain ⟨_, _, name, next⟩ := callee.of_attempt.of_seq
  obtain ⟨rfl, rfl⟩ := next.of_ahead
  obtain ⟨word, _, rfl⟩ := name.of_node
  obtain ⟨inner, _, rfl⟩ := arguments.of_call.of_node
  exact ⟨_, inner.reverse, rfl⟩

theorem builds_string : (Rule.node .string (Rule.kind .single)).Builds grammar Shaped := by
  refine ⟨trivial, fun tokens moved nodes rest derives => ?_⟩
  obtain ⟨token, kind, _, rfl⟩ := Reads.of_lexeme ⟨moved, derives⟩
  exact ⟨token, rfl, by simpa using kind⟩

theorem builds_interpolated {kind : Kind} {test : Lexeme → Bool} (opens : Lexeme → Prop)
    (shaped : ∀ nodes, IsInterpolated opens nodes → Shaped (.branch kind nodes))
    (passes : ∀ lexeme, test lexeme = true → opens lexeme) :
    (Rule.node kind (Rule.sequence [.lexeme test, .many (.call .stringPart), Rule.kind .closer])).Builds grammar
      Shaped :=
  ⟨⟨trivial, trivial, trivial⟩, fun _ moved _ _ derives =>
    shaped _ (Reads.isInterpolated passes ⟨moved, derives⟩)⟩

theorem builds_base (last : Bool) : (grammar (.base last)).Builds grammar Shaped := by
  refine ⟨.of_avoids (fun _ _ => shaped_of_kind) rfl, trivial, .choice fun rule mem => ?_⟩
  simp only [List.mem_cons, List.not_mem_nil, or_false] at mem
  rcases mem with rfl | rfl | rfl | rfl | rfl | rfl | rfl | rfl | rfl | rfl | rfl | rfl | rfl | rfl | rfl
  all_goals try exact .of_avoids (fun _ _ => shaped_of_kind) rfl
  · exact builds_string
  · refine builds_interpolated (·.openQuote? = some '"') (fun _ between => between) fun lexeme passes => ?_
    simp only [Bool.and_eq_true, beq_iff_eq, Bool.not_eq_true'] at passes
    rw [Lexeme.openQuote?, if_pos ⟨passes.1.1, passes.2⟩, passes.1.2]
  · refine builds_interpolated (·.kind = .opener) (fun _ between => between) fun lexeme passes => ?_
    simp only [Bool.and_eq_true, beq_iff_eq] at passes
    exact passes.1
  · exact builds_scopeCall

theorem builds_grammar (phrase : Phrase) : (grammar phrase).Builds grammar Shaped := by
  cases phrase with
  | base last => exact builds_base last
  | suffix last => exact builds_suffix last
  | statement last | ifTail last | switchCases last | type last | expression last | element last | operand last
  | prefixed last | primary last | closure last | creation last | classReference last | name last =>
      exact .of_avoids (fun _ _ => shaped_of_kind) (by cases last <;> rfl)
  | _ => exact .of_avoids (fun _ _ => shaped_of_kind) rfl

theorem root_of_derives {source : List Char} {moved : Bool} {frame : List Node} {rest : List Token}
    (derives : Derives grammar (.call .program) [] (lex source) (.done moved frame rest)) :
    rest = [] ∧ ∃ nodes, frame = [.branch .program nodes] := by
  have reads : Reads (.call .program) [] (lex source) frame rest := ⟨moved, derives⟩
  obtain ⟨nodes, inner, rfl⟩ := reads.of_call.of_node
  obtain ⟨_, tokens, ⟨_, statements⟩, finish⟩ := inner.of_seq
  obtain ⟨token, kind, rfl, _⟩ := finish.of_lexeme
  have kind : token.lexeme.kind = .finish := by simpa using kind
  obtain ⟨before, split⟩ := statements.suffix
  obtain ⟨front, last, whole, _, unfinished⟩ := lex_finish source
  refine ⟨?_, _, rfl⟩
  -- A token before the last is not of kind `finish`.
  by_contra some
  have split' : front ++ [last] = before ++ [token] ++ rest := by
    rw [← whole, ← split, Outcome.rest, List.append_assoc]
    rfl
  rw [← List.dropLast_append_getLast some, ← List.append_assoc] at split'
  have parts := (List.append_inj' split' rfl).1
  exact unfinished token (by simp [parts]) kind

theorem parse_cases (source : List Char) :
    (∃ moved, Derives grammar (.call .program) [] (lex source) (.done moved [parse source] [])) ∨
    ∃ rest, readProgram (lex source) = .error rest ∧ parse source = faultyTree (lex source) rest := by
  rw [parse]
  cases read : readProgram (lex source) with
  | ok root =>
      obtain ⟨moved, frame, rest, derives⟩ := derives_of_readProgram read
      obtain ⟨rfl, nodes, same⟩ := root_of_derives derives
      obtain ⟨rfl, rfl⟩ := List.cons.inj same
      exact .inl ⟨moved, derives⟩
  | error rest => exact .inr ⟨rest, rfl, rfl⟩

theorem all_leaf {holds : Node → Prop} {token : Token} (here : holds (.leaf token)) :
    (Node.leaf token).All holds := fun other mem => by
  rw [List.mem_singleton.1 mem]
  exact here

theorem all_faultyTree {holds : Node → Prop} (leaf : ∀ token, holds (.leaf token)) (missing : holds .missing)
    (program : ∀ children, holds (.branch .program children)) (error : ∀ children, holds (.branch .error children))
    (tokens rest : List Token) : (faultyTree tokens rest).All holds := by
  have leaves (tokens : List Token) : ∀ child ∈ tokens.map Node.leaf, child.All holds := fun child mem => by
    obtain ⟨token, _, rfl⟩ := List.mem_map.1 mem
    exact all_leaf (leaf token)
  refine Node.all_branch.2 ⟨program _, fun child mem => ?_⟩
  rcases List.mem_append.1 mem with read | mem
  · exact leaves _ child read
  · unfold misplaced at mem
    split at mem
    · cases mem
    · rcases List.mem_cons.1 mem with rfl | mem
      · intro other mem
        rw [List.mem_singleton.1 mem]
        exact missing
      · rw [List.mem_singleton.1 mem]
        exact all_leaf (leaf _)
    · rw [List.mem_singleton.1 mem]
      refine Node.all_branch.2 ⟨error _, fun child mem => ?_⟩
      rcases List.mem_cons.1 mem with rfl | mem
      · exact all_leaf (leaf _)
      · exact leaves _ child mem

theorem shaped_parse (source : List Char) : (parse source).All Shaped := by
  rcases parse_cases source with ⟨moved, derives⟩ | ⟨rest, _, same⟩
  · exact derives.builds (fun _ => trivial) builds_grammar trivial (fun _ mem => by cases mem) rfl _
      List.mem_cons_self
  · rw [same]
    exact all_faultyTree (fun _ => trivial) trivial (fun _ => trivial) (fun _ => trivial) _ _

theorem listTokens_map_leaf (tokens : List Token) : Node.tokens.listTokens (tokens.map .leaf) = tokens := by
  induction tokens with
  | nil => rfl
  | cons token tokens ih => rw [List.map_cons, listTokens_cons, ih, Node.tokens]; rfl

theorem tokens_faultyTree {tokens rest : List Token} (suffix : rest <:+ tokens) :
    (faultyTree tokens rest).tokens = tokens := by
  have others : Node.tokens.listTokens (misplaced rest) = rest := by
    unfold misplaced
    split
    · rfl
    · simp [Node.tokens]
    · simp [listTokens_map_leaf, Node.tokens]
  rw [faultyTree, tokens_branch, listTokens_append, listTokens_map_leaf, others]
  obtain ⟨front, rfl⟩ := suffix
  simp

theorem tokens_parse (source : List Char) : (parse source).tokens = lex source := by
  rcases parse_cases source with ⟨moved, derives⟩ | ⟨rest, error, same⟩
  · simpa using derives.tokens_eq rfl
  · rw [same, tokens_faultyTree (suffix_of_readProgram error)]

theorem Node.tokens_infix {root node : Node} (mem : node ∈ root.preorder) : node.tokens <:+: root.tokens := by
  rw [← map_snd_addressed] at mem
  obtain ⟨⟨address, node⟩, there, rfl⟩ := List.mem_map.1 mem
  obtain ⟨front, back, split, _⟩ := slice (mem_addressed.1 there)
  exact ⟨front, back, split.symm⟩

end Phrasebook.Php
