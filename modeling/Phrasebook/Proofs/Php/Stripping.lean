import Phrasebook.Proofs.Php.Neighbours

namespace Phrasebook.Php

def Token.strip (token : Token) : Token := ⟨token.before.filter (·.kind == .markup), token.lexeme⟩

@[simp]
theorem Token.lexeme_strip (token : Token) : token.strip.lexeme = token.lexeme := rfl

@[simp]
theorem Token.afterMarkup_strip (token : Token) : token.strip.afterMarkup = token.afterMarkup := by
  simp [Token.afterMarkup, Token.strip]

namespace Node

def strip : Node → Node
  | .leaf token => .leaf token.strip
  | .missing => .missing
  | .branch kind children => .branch kind (stripAll children)
where
  stripAll : List Node → List Node
    | [] => []
    | child :: children => child.strip :: stripAll children

theorem stripAll_eq (nodes : List Node) : strip.stripAll nodes = nodes.map strip := by
  induction nodes with
  | nil => rfl
  | cons node nodes ih => rw [strip.stripAll, ih, List.map_cons]

@[simp]
theorem strip_leaf (token : Token) : (Node.leaf token).strip = .leaf token.strip := by rw [strip]

@[simp]
theorem strip_branch (kind : Kind) (children : List Node) :
    (Node.branch kind children).strip = .branch kind (children.map strip) := by
  rw [strip, stripAll_eq]

@[simp]
theorem isKind_strip (kind : Kind) (node : Node) : node.strip.isKind kind = node.isKind kind := by
  cases node with
  | branch => simp [isKind]
  | leaf | missing => simp [strip, isKind]

end Node

def Blind (test : Node → Bool) : Prop := ∀ node : Node, test node.strip = test node

theorem Blind.or {test other : Node → Bool} (one : Blind test) (two : Blind other) :
    Blind fun node => test node || other node :=
  fun node => congrArg₂ Bool.or (one node) (two node)

theorem Blind.and {test other : Node → Bool} (one : Blind test) (two : Blind other) :
    Blind fun node => test node && other node :=
  fun node => congrArg₂ Bool.and (one node) (two node)

theorem Blind.not {test : Node → Bool} (one : Blind test) : Blind fun node => !test node :=
  fun node => congrArg _ (one node)

theorem blind_isKind (kind : Kind) : Blind (·.isKind kind) := Node.isKind_strip kind

theorem blind_isVariable : Blind isVariable := by
  intro node
  cases node with
  | leaf | missing => rfl
  | branch kind children =>
      rw [Node.strip_branch]
      cases kind
      case cast => simp [isVariable, List.getLast?_map, Option.any_map]
      all_goals rfl

mutual

theorem isOpen_strip (node : Node) : isOpen node.strip = isOpen node := by
  cases node with
  | leaf | missing => rfl
  | branch kind children =>
      rw [Node.strip_branch]
      cases kind
      case bracket => exact isOpenIn_strip children
      case element => exact isOpenIn_strip children
      all_goals rfl

theorem isOpenIn_strip (nodes : List Node) : isOpenIn (nodes.map Node.strip) = isOpenIn nodes := by
  cases nodes with
  | nil => rfl
  | cons node nodes => rw [List.map_cons, isOpenIn, isOpenIn, isOpen_strip node, isOpenIn_strip nodes]

end

mutual

theorem isPatternOf_strip (kind : Kind) (node : Node) : isPatternOf kind node.strip = isPatternOf kind node := by
  cases node with
  | leaf | missing => rfl
  | branch k children => rw [Node.strip_branch, isPatternOf, isPatternOf, isPatternIn_strip kind children]

theorem isPatternIn_strip (kind : Kind) (nodes : List Node) :
    isPatternIn kind (nodes.map Node.strip) = isPatternIn kind nodes := by
  cases nodes with
  | nil => rfl
  | cons node nodes =>
      have rest := isPatternIn_strip kind nodes
      cases node with
      | leaf | missing => exact rest
      | branch k children =>
          rw [List.map_cons, Node.strip_branch]
          cases k
          case element => rw [isPatternIn, isPatternIn, endsInTarget_strip kind false children, rest]
          all_goals exact rest

theorem endsInTarget_strip (kind : Kind) (found : Bool) (nodes : List Node) :
    endsInTarget kind found (nodes.map Node.strip) = endsInTarget kind found nodes := by
  cases nodes with
  | nil => rfl
  | cons node nodes =>
      cases node with
      | leaf token =>
          rw [List.map_cons, Node.strip_leaf, endsInTarget, endsInTarget, Token.lexeme_strip,
            endsInTarget_strip kind found nodes]
      | missing => exact endsInTarget_strip kind _ nodes
      | branch k children =>
          have pattern := isPatternOf_strip kind (.branch k children)
          have assigned := blind_isVariable (.branch k children)
          rw [Node.strip_branch] at pattern assigned
          rw [List.map_cons, Node.strip_branch, endsInTarget, endsInTarget, pattern, assigned,
            endsInTarget_strip kind _ nodes]
          all_goals nofun

end

theorem blind_isOpen : Blind isOpen := isOpen_strip

theorem blind_isPattern : Blind isPattern := Blind.or (isPatternOf_strip .list) (isPatternOf_strip .bracket)

theorem blind_isEmptyList : Blind isEmptyList := by
  intro node
  cases node with
  | leaf | missing => rfl
  | branch kind children =>
      rw [Node.strip_branch]
      cases kind
      case bracket => rcases children with _ | ⟨_, _ | ⟨_, _ | _⟩⟩ <;> rfl
      all_goals rfl

theorem blind_isCallable : Blind isCallable := by
  intro node
  cases node with
  | leaf | missing => rfl
  | branch kind children =>
      have assigned := blind_isVariable (.branch kind children)
      have opened := blind_isOpen (.branch kind children)
      rw [Node.strip_branch] at assigned opened ⊢
      cases kind
      case bracket => exact congrArg Bool.not opened
      case cast => simp [isCallable, Node.isKind]
      all_goals rfl

theorem blind_isModifier : Blind isModifier := by
  intro node
  cases node with
  | leaf | missing => rfl
  | branch kind children =>
      rw [Node.strip_branch]
      rfl

section Rules

variable {σ : Type}

def Rule.tests : Rule σ → List (Node → Bool)
  | .given test => [test]
  | .seq first second => first.tests ++ second.tests
  | .alt first second => first.tests ++ second.tests
  | .many rule => rule.tests
  | .option rule => rule.tests
  | .attempt rule => rule.tests
  | .node _ rule => rule.tests
  | .extend _ rule => rule.tests
  | .ahead rule => rule.tests
  | .apart rule => rule.tests
  | _ => []

def Outcome.strip : Outcome → Outcome
  | .done moved frame rest => .done moved (frame.map Node.strip) (rest.map Token.strip)
  | .stuck moved rest => .stuck moved (rest.map Token.strip)

theorem Outcome.strip_after (moved : Bool) (out : Outcome) : (out.after moved).strip = out.strip.after moved := by
  cases out <;> rfl

theorem Outcome.strip_farther (moved : Bool) (rest : List Token) (out : Outcome) :
    (out.farther moved rest).strip = out.strip.farther moved (rest.map Token.strip) := by
  cases out with
  | done => rfl
  | stuck m others =>
      by_cases further : others.length < rest.length <;> cases moved <;> cases m <;>
        simp [Outcome.farther, Outcome.strip, further]

/-- A reader that reads the same with and without blanks and comments. -/
def Reader.Natural (reader : Reader) : Prop :=
  ∀ frame tokens, reader (frame.map Node.strip) (tokens.map Token.strip) = (reader frame tokens).strip

theorem Reader.Natural.iterate {reader : Reader} (natural : reader.Natural) (bound : Nat) (moved : Bool) :
    Reader.Natural (reader.iterate bound moved) := by
  induction bound generalizing moved with
  | zero => exact fun _ _ => rfl
  | succ bound ih =>
      intro frame tokens
      rw [Reader.iterate, Reader.iterate, natural frame tokens]
      rcases reader frame tokens with ⟨_ | _, frame', rest⟩ | ⟨_ | _, rest⟩
      · rfl
      · exact ih true frame' rest
      · rfl
      · rfl

theorem natural_follow {symbols : σ → Reader} (natural : ∀ symbol, (symbols symbol).Natural) (bound : Nat) (rule : Rule σ)
    (blind : ∀ test ∈ rule.tests, Blind test) : Reader.Natural (rule.follow symbols bound) := by
  -- No case looks at a gap: lexemes and markup stay when a token is stripped, and the tests of nodes are blind by
  -- assumption.
  induction rule with
  | skip => exact fun _ _ => rfl
  | lexeme test =>
      intro frame tokens
      cases tokens with
      | nil => rfl
      | cons token rest =>
          simp only [Rule.follow, List.map_cons, Token.lexeme_strip]
          split <;> simp [Outcome.strip]
  | markup =>
      intro frame tokens
      cases tokens with
      | nil => rfl
      | cons token rest =>
          simp only [Rule.follow, List.map_cons, Token.afterMarkup_strip]
          split <;> simp [Outcome.strip]
  | seq first second ih₁ ih₂ =>
      intro frame tokens
      obtain ⟨blind₁, blind₂⟩ := List.forall_mem_append.1 blind
      rw [Rule.follow, Rule.follow, ih₁ blind₁]
      cases first.follow symbols bound frame tokens with
      | done moved frame' rest =>
          exact (congrArg (Outcome.after moved) (ih₂ blind₂ frame' rest)).trans (Outcome.strip_after _ _).symm
      | stuck => rfl
  | alt first second ih₁ ih₂ =>
      intro frame tokens
      obtain ⟨blind₁, blind₂⟩ := List.forall_mem_append.1 blind
      rw [Rule.follow, Rule.follow, ih₁ blind₁, ih₂ blind₂]
      cases first.follow symbols bound frame tokens with
      | done => rfl
      | stuck moved rest => exact (Outcome.strip_farther _ _ _).symm
  | many rule ih => exact (ih blind).iterate bound false
  | option rule ih =>
      intro frame tokens
      rw [Rule.follow, Rule.follow, ih blind]
      rcases rule.follow symbols bound frame tokens with _ | ⟨_ | _, _⟩ <;> rfl
  | attempt rule ih =>
      intro frame tokens
      rw [Rule.follow, Rule.follow, ih blind]
      cases rule.follow symbols bound frame tokens <;> rfl
  | node kind rule ih =>
      intro frame tokens
      have inner := ih blind [] tokens
      rw [List.map_nil] at inner
      rw [Rule.follow, Rule.follow, inner]
      cases rule.follow symbols bound [] tokens <;> simp [Outcome.strip]
  | extend kind rule ih =>
      intro frame tokens
      cases frame with
      | nil => rfl
      | cons newest frame =>
          have inner := ih blind [newest] tokens
          rw [List.map_singleton] at inner
          rw [List.map_cons, Rule.follow, Rule.follow, inner]
          cases rule.follow symbols bound [newest] tokens <;> simp [Outcome.strip]
  | given test =>
      intro frame tokens
      cases frame with
      | nil => rfl
      | cons newest frame =>
          rw [List.map_cons, Rule.follow, Rule.follow, blind test List.mem_cons_self]
          split <;> rfl
  | ahead rule ih | apart rule ih =>
      intro frame tokens
      rw [Rule.follow, Rule.follow, ih blind]
      cases rule.follow symbols bound frame tokens <;> rfl
  | call symbol => exact natural symbol

theorem natural_readSymbolOf {grammar : σ → Rule σ} (blind : ∀ symbol, ∀ test ∈ (grammar symbol).tests, Blind test)
    (bound depth : Nat) (symbol : σ) : Reader.Natural (readSymbolOf grammar bound depth symbol) := by
  induction depth generalizing symbol with
  | zero => exact fun _ _ => rfl
  | succ depth ih => exact natural_follow ih bound (grammar symbol) (blind symbol)

end Rules

theorem blind_grammar (phrase : Phrase) : ∀ test ∈ (grammar phrase).tests, Blind test := by
  have isBase : Blind isBase := blind_isCallable.or (blind_isKind .classConstant)
  have isValue : Blind fun node => !isOpen node := blind_isOpen.not
  have all : ∀ test ∈ Phrase.all.flatMap fun phrase => (grammar phrase).tests, Blind test := by
    repeat' first
      | exact List.forall_mem_nil _
      | refine List.forall_mem_cons.2 ⟨?_, ?_⟩
    all_goals first
      | exact blind_isVariable
      | exact isValue
      | exact isBase
      | exact blind_isCallable
      | exact blind_isModifier
      | exact blind_isKind .variable
      | exact blind_isKind .scope
      | exact blind_isVariable.or blind_isEmptyList
      | exact blind_isPattern.and blind_isEmptyList.not
  exact fun test mem => all test (List.mem_flatMap.2 ⟨phrase, phrase.mem_all, mem⟩)

theorem readProgram_strip (tokens : List Token) : readProgram (tokens.map Token.strip) =
    ((readProgram tokens).map Node.strip).mapError (·.map Token.strip) := by
  have natural := natural_readSymbolOf blind_grammar tokens.length (phraseCount * (tokens.length + 1)) .program [] tokens
  rw [List.map_nil] at natural
  rw [readProgram, readProgram, List.length_map, natural]
  rcases readSymbolOf grammar tokens.length (phraseCount * (tokens.length + 1)) .program [] tokens with
    ⟨_, _ | _, _⟩ | _ <;> rfl

theorem strip_parse {source other : List Char} (same : (lex source).map Token.strip = (lex other).map Token.strip)
    (faultless : (parse source).firstFault? = none) : (parse other).strip = (parse source).strip := by
  obtain ⟨moved, derives⟩ := derives_of_faultless faultless
  have stripped := readProgram_strip (lex source)
  rw [readProgram_of_derives derives, same, readProgram_strip (lex other)] at stripped
  rw [parse.eq_1 other]
  cases read : readProgram (lex other) with
  | ok root =>
      rw [read] at stripped
      exact Except.ok.inj stripped
  | error rest =>
      rw [read] at stripped
      cases stripped

end Phrasebook.Php
