import Mathlib.Data.List.Chain
import Phrasebook.Proofs.Php.Shapes

/-!
# Tokens side by side

What the rules say about the tokens that are read by them: which lexemes are read at all, and which may stand next to each
other. Both are computed from the rules, once for each phrase.
-/

namespace Phrasebook.Php

section Rules

variable {σ : Type}

namespace Rule

def accepts (symbols : σ → Bool) (lexeme : Lexeme) : Rule σ → Bool
  | .lexeme test => test lexeme
  | .seq first second => first.accepts symbols lexeme || second.accepts symbols lexeme
  | .alt first second => first.accepts symbols lexeme || second.accepts symbols lexeme
  | .many rule => rule.accepts symbols lexeme
  | .option rule => rule.accepts symbols lexeme
  | .attempt rule => rule.accepts symbols lexeme
  | .node _ rule => rule.accepts symbols lexeme
  | .extend _ rule => rule.accepts symbols lexeme
  | .call symbol => symbols symbol
  | _ => false

def mayBegin (known : σ → Bool) (lexemes : List Lexeme) : Rule σ → Bool
  | .lexeme test => lexemes.any test
  | .seq first second =>
    first.mayBegin known lexemes || (!first.moves known && second.mayBegin known lexemes)
  | .alt first second => first.mayBegin known lexemes || second.mayBegin known lexemes
  | .many rule => rule.mayBegin known lexemes
  | .option rule => rule.mayBegin known lexemes
  | .attempt rule => rule.mayBegin known lexemes
  | .node _ rule => rule.mayBegin known lexemes
  | .extend _ rule => rule.mayBegin known lexemes
  | _ => false

def mayEnd (known : σ → Bool) (lexeme : Lexeme) : Rule σ → Bool
  | .lexeme test => test lexeme
  | .seq first second => second.mayEnd known lexeme || (!second.moves known && first.mayEnd known lexeme)
  | .alt first second => first.mayEnd known lexeme || second.mayEnd known lexeme
  | .many rule => rule.mayEnd known lexeme
  | .option rule => rule.mayEnd known lexeme
  | .attempt rule => rule.mayEnd known lexeme
  | .node _ rule => rule.mayEnd known lexeme
  | .extend _ rule => rule.mayEnd known lexeme
  | _ => false

/-- Whether a rule itself may read a lexeme and one of some others right after it. -/
def mayJoin (known : σ → Bool) (lexeme : Lexeme) (others : List Lexeme) : Rule σ → Bool
  | .seq first second => first.mayJoin known lexeme others || second.mayJoin known lexeme others ||
    (first.mayEnd known lexeme && second.mayBegin known others)
  | .alt first second => first.mayJoin known lexeme others || second.mayJoin known lexeme others
  | .many rule => rule.mayJoin known lexeme others || (rule.mayEnd known lexeme && rule.mayBegin known others)
  | .option rule => rule.mayJoin known lexeme others
  | .attempt rule => rule.mayJoin known lexeme others
  | .node _ rule => rule.mayJoin known lexeme others
  | .extend _ rule => rule.mayJoin known lexeme others
  | _ => false

end Rule

variable {grammar : σ → Rule σ} {rule : Rule σ} {frame : List Node} {tokens : List Token} {out : Outcome}

theorem Derives.reads {symbols : σ → Bool} {lexeme : Lexeme}
    (known : ∀ symbol, symbols symbol = false → (grammar symbol).accepts symbols lexeme = false)
    (derives : Derives grammar rule frame tokens out) (accepts : rule.accepts symbols lexeme = false) :
    ∃ used, tokens = used ++ out.rest ∧ ∀ token ∈ used, token.lexeme ≠ lexeme := by
  have nothing (tokens : List Token) : ∃ used, tokens = used ++ tokens ∧ ∀ token ∈ used, token.lexeme ≠ lexeme :=
    ⟨[], rfl, fun _ mem => by cases mem⟩
  induction derives with
  | skip | lexemeStuck | markup | markupStuck | manyStill | manyEnd | optionNone | attemptStuck | extendNone | given
  | givenStuck | ahead | aheadStuck | apart | apartStuck => exact nothing _
  | @lexeme test token frame rest passes =>
      refine ⟨[token], rfl, fun other mem same => ?_⟩
      rw [List.mem_singleton.1 mem] at same
      rw [same, show test lexeme = false from accepts] at passes
      cases passes
  | @seq _ _ _ _ _ _ _ out one two ih₁ ih₂ =>
      rw [Rule.accepts, Bool.or_eq_false_iff] at accepts
      obtain ⟨used, rfl, others⟩ := ih₁ accepts.1
      obtain ⟨used', same, others'⟩ := ih₂ accepts.2
      refine ⟨used ++ used', ?_, fun token mem => (List.mem_append.1 mem).elim (others token) (others' token)⟩
      cases out <;> simpa [Outcome.rest, Outcome.after] using same
  | @manyStep _ _ _ _ _ out one two ih₁ ih₂ =>
      obtain ⟨used, rfl, others⟩ := ih₁ accepts
      obtain ⟨used', same, others'⟩ := ih₂ accepts
      refine ⟨used ++ used', ?_, fun token mem => (List.mem_append.1 mem).elim (others token) (others' token)⟩
      cases out <;> simpa [Outcome.rest, Outcome.after] using same
  | @altSecond _ _ _ _ moved rest out one two ih₁ ih₂ =>
      rw [Rule.accepts, Bool.or_eq_false_iff] at accepts
      rcases out.rest_farther moved rest with same | same <;> rw [same]
      · exact ih₂ accepts.2
      · exact ih₁ accepts.1
  | seqStuck _ ih | altFirst _ ih =>
      rw [Rule.accepts, Bool.or_eq_false_iff] at accepts
      exact ih accepts.1
  | manyStuck _ ih | option _ ih | optionStuck _ ih | attempt _ ih | node _ ih | nodeStuck _ ih | extend _ ih
  | extendStuck _ ih => exact ih accepts
  | call _ ih => exact ih (known _ accepts)

/-! ## Side by side -/

/-- No symbol begins with one of some lexemes or ends with another one, or has them side by side. -/
structure Separates (grammar : σ → Rule σ) (known : σ → Bool) (lexeme : Lexeme) (others : List Lexeme) : Prop where
  moves : ∀ symbol, known symbol = true → (grammar symbol).moves known = true
  mayBegin : ∀ symbol, (grammar symbol).mayBegin known others = false
  mayEnd : ∀ symbol, (grammar symbol).mayEnd known lexeme = false
  mayJoin : ∀ symbol, (grammar symbol).mayJoin known lexeme others = false

structure Rule.HasRead (known : σ → Bool) (lexeme : Lexeme) (others : List Lexeme) (rule : Rule σ)
    (used : List Token) : Prop where
  chain : used.IsChain fun token next => token.lexeme = lexeme → next.lexeme ∉ others
  first : ∀ token ∈ used.head?, token.lexeme ∈ others → rule.mayBegin known others = true
  last : ∀ token ∈ used.getLast?, token.lexeme = lexeme → rule.mayEnd known lexeme = true
  some : rule.moves known = true → used ≠ []

namespace Rule.HasRead

variable {known : σ → Bool} {lexeme : Lexeme} {others : List Lexeme} {first second : Rule σ} {used used' : List Token}

theorem nil (still : rule.moves known = false) : rule.HasRead known lexeme others [] where
  chain := .nil
  first _ mem := by cases mem
  last _ mem := by cases mem
  some moves := by
    rw [still] at moves
    cases moves

theorem imp {other : Rule σ} (did : rule.HasRead known lexeme others used)
    (mayBegin : rule.mayBegin known others = true → other.mayBegin known others = true)
    (mayEnd : rule.mayEnd known lexeme = true → other.mayEnd known lexeme = true)
    (moves : other.moves known = true → rule.moves known = true) : other.HasRead known lexeme others used where
  chain := did.chain
  first token mem same := mayBegin (did.first token mem same)
  last token mem same := mayEnd (did.last token mem same)
  some moved := did.some (moves moved)

theorem append (one : first.HasRead known lexeme others used) (two : second.HasRead known lexeme others used')
    (apart : (first.mayEnd known lexeme && second.mayBegin known others) = false)
    (mayBegin : (first.mayBegin known others || (!first.moves known && second.mayBegin known others)) = true →
      rule.mayBegin known others = true)
    (mayEnd : (second.mayEnd known lexeme || (!second.moves known && first.mayEnd known lexeme)) = true →
      rule.mayEnd known lexeme = true)
    (moves : rule.moves known = true → (first.moves known || second.moves known) = true) :
    rule.HasRead known lexeme others (used ++ used') where
  chain := by
    refine one.chain.append two.chain fun token last next head same mem => ?_
    rw [one.last token last same, two.first next head mem] at apart
    cases apart
  first token mem same := by
    rw [List.head?_append, Option.mem_def, Option.or_eq_some_iff] at mem
    refine mayBegin ?_
    rcases mem with mem | ⟨none, mem⟩
    · rw [one.first token mem same, Bool.true_or]
    · have still : first.moves known ≠ true := fun moves => one.some moves (List.head?_eq_none_iff.1 none)
      rw [two.first token mem same, Bool.eq_false_iff.2 still, Bool.not_false, Bool.and_self, Bool.or_true]
  last token mem same := by
    rw [List.getLast?_append, Option.mem_def, Option.or_eq_some_iff] at mem
    refine mayEnd ?_
    rcases mem with mem | ⟨none, mem⟩
    · rw [two.last token mem same, Bool.true_or]
    · have still : second.moves known ≠ true := fun moves => two.some moves (List.getLast?_eq_none_iff.1 none)
      rw [one.last token mem same, Bool.eq_false_iff.2 still, Bool.not_false, Bool.and_self, Bool.or_true]
  some moved := by
    rcases Bool.or_eq_true_iff.1 (moves moved) with moved | moved
    · exact List.append_ne_nil_of_left_ne_nil (one.some moved) _
    · exact List.append_ne_nil_of_right_ne_nil _ (two.some moved)

end Rule.HasRead

theorem Derives.hasRead {known : σ → Bool} {lexeme : Lexeme} {others : List Lexeme}
    (separates : Separates grammar known lexeme others) (derives : Derives grammar rule frame tokens out)
    (apart : rule.mayJoin known lexeme others = false) {moved : Bool} {frame' : List Node} {rest : List Token}
    (ends : out = .done moved frame' rest) : ∃ used, tokens = used ++ rest ∧ rule.HasRead known lexeme others used := by
  -- What is read in parts is joined by `HasRead.append`: `mayJoin` is false of a sequence or a repetition only if the
  -- end of the first part and the beginning of the second do not go together.
  induction derives generalizing moved frame' rest with
  | skip | markup | manyStill | manyEnd | optionNone | given | ahead | apart =>
      cases ends
      exact ⟨[], rfl, .nil rfl⟩
  | @lexeme test token frame rest passes =>
      cases ends
      refine ⟨[token], rfl, List.isChain_singleton _, fun other mem same => ?_, fun other mem same => ?_,
        fun _ => List.cons_ne_nil _ _⟩
      · cases mem
        exact List.any_eq_true.2 ⟨_, same, passes⟩
      · cases mem
        exact same ▸ passes
  | lexemeStuck | markupStuck | seqStuck | manyStuck | optionStuck | attemptStuck | nodeStuck | extendStuck
  | extendNone | givenStuck | aheadStuck | apartStuck => cases ends
  | @seq _ _ _ _ _ _ _ out one two ih₁ ih₂ =>
      cases out with
      | stuck => cases ends
      | done =>
          cases ends
          simp only [Rule.mayJoin, Bool.or_eq_false_iff] at apart
          obtain ⟨used, rfl, did⟩ := ih₁ apart.1.1 rfl
          obtain ⟨used', rfl, did'⟩ := ih₂ apart.1.2 rfl
          exact ⟨used ++ used', (List.append_assoc _ _ _).symm, did.append did' apart.2 id id id⟩
  | @manyStep _ _ _ _ _ out one two ih₁ ih₂ =>
      cases out with
      | stuck => cases ends
      | done =>
          cases ends
          have both := apart
          simp only [Rule.mayJoin, Bool.or_eq_false_iff] at both
          obtain ⟨used, rfl, did⟩ := ih₁ both.1 rfl
          obtain ⟨used', rfl, did'⟩ := ih₂ apart rfl
          refine ⟨used ++ used', (List.append_assoc _ _ _).symm, did.append did' both.2 ?_ ?_ nofun⟩
          all_goals
            intro may
            simp only [Rule.mayBegin, Rule.mayEnd, Bool.or_eq_true, Bool.and_eq_true] at may ⊢
            exact may.elim id And.right
  | altFirst one ih =>
      simp only [Rule.mayJoin, Bool.or_eq_false_iff] at apart
      obtain ⟨used, same, did⟩ := ih apart.1 ends
      exact ⟨used, same, did.imp (fun may => by simp [Rule.mayBegin, may]) (fun may => by simp [Rule.mayEnd, may])
        fun moves => (Bool.and_eq_true_iff.1 moves).1⟩
  | altSecond one two ih₁ ih₂ =>
      simp only [Rule.mayJoin, Bool.or_eq_false_iff] at apart
      obtain ⟨used, same, did⟩ := ih₂ apart.2 (Outcome.done_of_farther ends)
      exact ⟨used, same, did.imp (fun may => by simp [Rule.mayBegin, may]) (fun may => by simp [Rule.mayEnd, may])
        fun moves => (Bool.and_eq_true_iff.1 moves).2⟩
  | option one ih =>
      obtain ⟨used, same, did⟩ := ih apart ends
      exact ⟨used, same, did.imp id id nofun⟩
  | attempt one ih =>
      obtain ⟨used, same, did⟩ := ih apart ends
      exact ⟨used, same, did.imp id id id⟩
  | node one ih | extend one ih =>
      cases ends
      obtain ⟨used, same, did⟩ := ih apart rfl
      exact ⟨used, same, did.imp id id id⟩
  | @call symbol _ _ _ one ih =>
      obtain ⟨used, same, did⟩ := ih (separates.mayJoin symbol) ends
      refine ⟨used, same, did.imp (fun may => ?_) (fun may => ?_) (separates.moves symbol)⟩
      · rw [separates.mayBegin] at may
        cases may
      · rw [separates.mayEnd] at may
        cases may

end Rules

/-! ## Sources without faults -/

theorem accepts_stray (text : List Char) : ∀ phrase, (grammar phrase).accepts (fun _ => false) ⟨.stray, text⟩ = false :=
  Phrase.forall_eq (fun phrase => (grammar phrase).accepts (fun _ => false) ⟨.stray, text⟩) false rfl

theorem accepts_finish (phrase : Phrase) (other : (phrase == .program) = false) :
    (grammar phrase).accepts (· == .program) ⟨.finish, []⟩ = false := by
  have same := Phrase.forall_eq (fun phrase => phrase != .program &&
    (grammar phrase).accepts (· == .program) ⟨.finish, []⟩) false rfl phrase
  simpa [bne, other] using same

def star : List Lexeme := ["*", "*=", "**", "**="].map fun text => ⟨.symbol, text.toList⟩

def greater : List Lexeme := [">", ">=", ">>", ">>="].map fun text => ⟨.symbol, text.toList⟩

theorem separates_slash : Separates grammar Phrase.moves ⟨.symbol, ['/']⟩ star where
  moves := grammar_ranked.moves
  mayBegin := Phrase.forall_eq _ false rfl
  mayEnd := Phrase.forall_eq _ false rfl
  mayJoin := Phrase.forall_eq _ false rfl

theorem separates_question : Separates grammar Phrase.moves ⟨.symbol, ['?']⟩ greater where
  moves := grammar_ranked.moves
  mayBegin := Phrase.forall_eq _ false rfl
  mayEnd := Phrase.forall_eq _ false rfl
  mayJoin := Phrase.forall_eq _ false rfl

theorem findFaultIn_leaves (offset : Nat) (tokens : List Token) (nodes : List Node) :
    ∃ after, Node.findFaultIn offset (tokens.map .leaf ++ nodes) = Node.findFaultIn after nodes := by
  induction tokens generalizing offset with
  | nil => exact ⟨offset, rfl⟩
  | cons token tokens ih =>
      obtain ⟨after, same⟩ := ih (offset + token.source.length)
      exact ⟨after, same⟩

theorem firstFault?_faultyTree {tokens rest : List Token} (some : rest ≠ []) :
    (faultyTree tokens rest).firstFault? ≠ none := by
  obtain ⟨after, same⟩ := findFaultIn_leaves 0 (tokens.take (tokens.length - rest.length)) (misplaced rest)
  have fault : ∃ found, Node.findFaultIn after (misplaced rest) = .inl found := by
    unfold misplaced
    split
    · exact absurd rfl some
    · exact ⟨_, rfl⟩
    · exact ⟨_, rfl⟩
  obtain ⟨found, fault⟩ := fault
  have whole : Node.findFault 0 (faultyTree tokens rest) = .inl found := by
    rw [faultyTree, Node.findFault, if_neg (by decide), same, fault]
  rw [Node.firstFault?, whole]
  exact Option.some_ne_none _

theorem ne_nil_of_stuck {source : List Char} {moved : Bool} {rest : List Token}
    (derives : Derives grammar (.call .program) [] (lex source) (.stuck moved rest)) : rest ≠ [] := by
  have unread {rest : List Token} {rule : Rule Phrase} {out : Outcome} (derives : Derives grammar rule [] (lex source) out)
      (accepts : rule.accepts (· == .program) ⟨.finish, []⟩ = false) (same : out.rest = rest) : rest ≠ [] := by
    rintro rfl
    obtain ⟨used, split, others⟩ := derives.reads accepts_finish accepts
    obtain ⟨front, last, whole, finish, _⟩ := lex_finish source
    rw [same, List.append_nil] at split
    exact others last (by simp [← split, whole]) finish
  cases derives with
  | call one =>
      rw [grammar] at one
      cases one with
      | nodeStuck one =>
          generalize ends : Outcome.stuck moved rest = out at one
          cases one with
          | seqStuck one => exact unread one rfl (by rw [← ends]; rfl)
          | @seq _ _ _ _ _ _ _ out one two =>
              have some := unread one rfl rfl
              cases two with
              | lexeme => cases ends
              | lexemeStuck =>
                  cases ends
                  exact some

theorem derives_of_faultless {source : List Char} (faultless : (parse source).firstFault? = none) :
    ∃ moved, Derives grammar (.call .program) [] (lex source) (.done moved [parse source] []) := by
  rcases parse_cases source with derived | ⟨rest, error, same⟩
  · exact derived
  · refine absurd faultless ?_
    rw [same]
    refine firstFault?_faultyTree ?_
    obtain ⟨out, derives, read⟩ := readProgram_eq (lex source)
    rw [error] at read
    rcases out with ⟨moved, _ | ⟨root, frame⟩, rest'⟩ | ⟨moved, rest'⟩
    · obtain ⟨_, _, none⟩ := Reads.of_node (Reads.of_call ⟨moved, derives⟩)
      cases none
    · cases read
    · cases read
      exact ne_nil_of_stuck derives

/-- What a source without faults has in common with its tokens: each begins a token, and what would be the beginning of a
comment or of markup, had it an end, does not stand in it. -/
structure Tidy (tokens : List Token) : Prop where
  noStray : ∀ token ∈ tokens, token.lexeme.kind ≠ .stray
  slash : tokens.IsChain fun token next => token.lexeme = ⟨.symbol, ['/']⟩ → next.lexeme ∉ star
  question : tokens.IsChain fun token next => token.lexeme = ⟨.symbol, ['?']⟩ → next.lexeme ∉ greater

theorem chain_of_faultless {source : List Char} {lexeme : Lexeme} {others : List Lexeme}
    (separates : Separates grammar Phrase.moves lexeme others) (faultless : (parse source).firstFault? = none) :
    (lex source).IsChain fun token next => token.lexeme = lexeme → next.lexeme ∉ others := by
  obtain ⟨moved, derives⟩ := derives_of_faultless faultless
  obtain ⟨used, same, did⟩ := derives.hasRead separates rfl rfl
  rw [same, List.append_nil]
  exact did.chain

theorem tidy_of_faultless {source : List Char} (faultless : (parse source).firstFault? = none) :
    Tidy (lex source) where
  noStray := by
    intro token mem stray
    obtain ⟨moved, derives⟩ := derives_of_faultless faultless
    have lexeme : token.lexeme = ⟨.stray, token.lexeme.text⟩ := by rw [← stray]
    obtain ⟨used, same, others⟩ := derives.reads (fun phrase _ => accepts_stray token.lexeme.text phrase) rfl
    rw [Outcome.rest, List.append_nil] at same
    exact others token (same ▸ mem) lexeme
  slash := chain_of_faultless separates_slash faultless
  question := chain_of_faultless separates_question faultless

end Phrasebook.Php
