import Phrasebook.Proofs.Php.Reading
import Phrasebook.Proofs.Php.Refusal

namespace Phrasebook.Php

/-- A rule reads the tokens before `rest`, and turns one frame into the other. -/
def Reads (rule : Rule Phrase) (frame : List Node) (tokens : List Token) (frame' : List Node)
    (rest : List Token) : Prop :=
  ∃ moved, Derives grammar rule frame tokens (.done moved frame' rest)

def Sticks (rule : Rule Phrase) (frame : List Node) (tokens : List Token) : Prop :=
  ∃ moved rest, Derives grammar rule frame tokens (.stuck moved rest)

section Forms

variable {rule one two : Rule Phrase} {frame frame₁ frame₂ nodes : List Node} {token : Token}
  {tokens tokens₁ rest : List Token} {test : Lexeme → Bool} {kind : Kind}

namespace Sticks

theorem refused (refuses : rule.refuses grammar token.lexeme token.afterMarkup = true) :
    Sticks rule frame (token :: tokens) :=
  ⟨false, token :: tokens, Derives.refused refuses⟩

theorem seq (first : Sticks one frame tokens) : Sticks (.seq one two) frame tokens := by
  obtain ⟨moved, rest, first⟩ := first
  exact ⟨moved, rest, .seqStuck first⟩

theorem seq_of_reads (first : Reads one frame tokens frame₁ tokens₁) (second : Sticks two frame₁ tokens₁) :
    Sticks (.seq one two) frame tokens := by
  obtain ⟨moved, first⟩ := first
  obtain ⟨moved', rest, second⟩ := second
  exact ⟨moved || moved', rest, Derives.seq first second⟩

theorem lexeme_seq (second : Sticks two (.leaf token :: frame) tokens) :
    Sticks (.seq (.lexeme test) two) frame (token :: tokens) := by
  obtain ⟨moved, rest, second⟩ := second
  by_cases passes : test token.lexeme = true
  · exact ⟨_, rest, .seq (.lexeme passes) second⟩
  · refine seq ⟨false, token :: tokens, .lexemeStuck fun other here => ?_⟩
    cases here
    simpa using passes

theorem alt (first : Sticks one frame tokens) (second : Sticks two frame tokens) :
    Sticks (.alt one two) frame tokens := by
  obtain ⟨moved, rest, first⟩ := first
  obtain ⟨moved', rest', second⟩ := second
  have both := Derives.altSecond first second
  simp only [Outcome.farther] at both
  split at both
  · exact ⟨_, _, both⟩
  · split at both
    · exact ⟨_, _, both⟩
    · split at both
      · exact ⟨_, _, both⟩
      · exact ⟨_, _, both⟩

theorem attempt (this : Sticks rule frame tokens) : Sticks (.attempt rule) frame tokens := by
  obtain ⟨moved, rest, this⟩ := this
  exact ⟨false, tokens, .attemptStuck this⟩

theorem node (this : Sticks rule [] tokens) : Sticks (.node kind rule) frame tokens := by
  obtain ⟨moved, rest, this⟩ := this
  exact ⟨moved, rest, .nodeStuck this⟩

theorem apart (this : Reads rule frame tokens frame₁ rest) : Sticks (.apart rule) frame tokens := by
  obtain ⟨moved, this⟩ := this
  exact ⟨false, tokens, .apartStuck this⟩

theorem call {phrase : Phrase} (this : Sticks (grammar phrase) frame tokens) :
    Sticks (.call phrase) frame tokens := by
  obtain ⟨moved, rest, this⟩ := this
  exact ⟨moved, rest, .call this⟩

end Sticks

namespace Reads

theorem lexeme (passes : test token.lexeme = true) :
    Reads (.lexeme test) frame (token :: rest) (.leaf token :: frame) rest :=
  ⟨true, .lexeme passes⟩

theorem seq (first : Reads one frame tokens frame₁ tokens₁) (second : Reads two frame₁ tokens₁ frame₂ rest) :
    Reads (.seq one two) frame tokens frame₂ rest := by
  obtain ⟨moved, first⟩ := first
  obtain ⟨moved', second⟩ := second
  exact ⟨moved || moved', Derives.seq first second⟩

theorem left (this : Reads one frame tokens frame₁ rest) : Reads (.alt one two) frame tokens frame₁ rest := by
  obtain ⟨moved, this⟩ := this
  exact ⟨moved, .altFirst this⟩

theorem right (other : Sticks one frame tokens) (this : Reads two frame tokens frame₁ rest) :
    Reads (.alt one two) frame tokens frame₁ rest := by
  obtain ⟨moved, this⟩ := this
  obtain ⟨moved', rest', other⟩ := other
  exact ⟨moved, .altSecond other this⟩

theorem choice {rules : List (Rule Phrase)} (index : Nat)
    (refuses : (rules.take index).all (·.refuses grammar token.lexeme token.afterMarkup) = true)
    (this : rules[index]? = some rule) (reads : Reads rule frame (token :: tokens) frame₁ rest) :
    Reads (Rule.choice rules) frame (token :: tokens) frame₁ rest := by
  induction rules generalizing index with
  | nil => cases this
  | cons first others ih =>
      cases index with
      | zero =>
          cases this
          cases others with
          | nil => exact reads
          | cons => exact left reads
      | succ index =>
          simp only [List.take_succ_cons, List.all_cons, Bool.and_eq_true] at refuses
          cases others with
          | nil => cases this
          | cons => exact right (.refused refuses.1) (ih index refuses.2 this)

theorem node (this : Reads rule [] tokens nodes rest) :
    Reads (.node kind rule) frame tokens (.branch kind nodes.reverse :: frame) rest := by
  obtain ⟨moved, this⟩ := this
  exact ⟨moved, .node this⟩

theorem extend {newest : Node} (this : Reads rule [newest] tokens nodes rest) :
    Reads (.extend kind rule) (newest :: frame) tokens (.branch kind nodes.reverse :: frame) rest := by
  obtain ⟨moved, this⟩ := this
  exact ⟨moved, .extend this⟩

theorem given {test : Node → Bool} {newest : Node} (passes : test newest = true) :
    Reads (.given test) (newest :: frame) tokens (newest :: frame) tokens :=
  ⟨false, .given passes⟩

theorem call {phrase : Phrase} (this : Reads (grammar phrase) frame tokens frame₁ rest) :
    Reads (.call phrase) frame tokens frame₁ rest := by
  obtain ⟨moved, this⟩ := this
  exact ⟨moved, .call this⟩

theorem option (this : Reads rule frame tokens frame₁ rest) :
    Reads (.option rule) frame tokens frame₁ rest := by
  obtain ⟨moved, this⟩ := this
  exact ⟨moved, .option this⟩

theorem attempt (this : Reads rule frame tokens frame₁ rest) :
    Reads (.attempt rule) frame tokens frame₁ rest := by
  obtain ⟨moved, this⟩ := this
  exact ⟨moved, .attempt this⟩

theorem attempt_passed (other : Sticks rule frame tokens) :
    Reads (.option (.attempt rule)) frame tokens frame tokens := by
  obtain ⟨moved, rest, other⟩ := other
  exact ⟨false, .optionNone (.attemptStuck other)⟩

theorem ahead (this : Reads rule frame tokens frame₁ rest) : Reads (.ahead rule) frame tokens frame tokens := by
  obtain ⟨moved, this⟩ := this
  exact ⟨false, .ahead this⟩

theorem apart (other : Sticks rule frame tokens) : Reads (.apart rule) frame tokens frame tokens := by
  obtain ⟨moved, rest, other⟩ := other
  exact ⟨false, .apart other⟩

theorem passed (passes : rule.passes grammar token.lexeme token.afterMarkup = true) :
    Reads rule frame (token :: tokens) frame (token :: tokens) :=
  ⟨false, Derives.passed passes⟩

theorem skipped (passes : [true, false].all (rule.passes grammar token.lexeme) = true) :
    Reads rule frame (token :: tokens) frame (token :: tokens) :=
  passed (List.all_eq_true.1 passes _ (by cases token.afterMarkup <;> decide))

theorem many (this : Reads rule frame tokens frame₁ tokens₁) (moves : rule.moves Phrase.moves = true)
    (others : Reads (.many rule) frame₁ tokens₁ frame₂ rest) : Reads (.many rule) frame tokens frame₂ rest := by
  obtain ⟨moved, this⟩ := this
  obtain ⟨moved', others⟩ := others
  have did := this.moved grammar_ranked moves rfl
  subst did
  exact ⟨true, Derives.manyStep this others⟩

theorem not_markup (plain : token.afterMarkup = false) :
    Reads (.apart .markup) frame (token :: tokens) frame (token :: tokens) := by
  refine ⟨false, .apart (.markupStuck fun other here => ?_)⟩
  cases here
  exact plain

theorem joined {last : Bool} (plain : token.afterMarkup = false)
    (this : Reads rule frame (token :: tokens) frame₁ rest) :
    Reads (Php.joined last rule) frame (token :: tokens) frame₁ rest := by
  cases last with
  | false => exact this
  | true => exact seq (not_markup plain) this

theorem of_seq (this : Reads (.seq one two) frame tokens frame₂ rest) :
    ∃ frame₁ tokens₁, Reads one frame tokens frame₁ tokens₁ ∧ Reads two frame₁ tokens₁ frame₂ rest := by
  obtain ⟨moved, this⟩ := this
  generalize same : Outcome.done moved frame₂ rest = out at this
  cases this with
  | @seq _ _ _ _ _ frame₁ tokens₁ out first second =>
      cases out with
      | stuck => cases same
      | done moved' frame' rest' =>
          cases same
          exact ⟨frame₁, tokens₁, ⟨_, first⟩, ⟨_, second⟩⟩
  | seqStuck => cases same

theorem of_apart (this : Reads (.apart rule) frame tokens frame₁ rest) :
    Sticks rule frame tokens ∧ frame₁ = frame ∧ rest = tokens := by
  obtain ⟨moved, this⟩ := this
  cases this with
  | apart other => exact ⟨⟨_, _, other⟩, rfl, rfl⟩

theorem of_lexeme (this : Reads (.lexeme test) frame tokens frame₁ rest) :
    ∃ token, test token.lexeme = true ∧ tokens = token :: rest ∧ frame₁ = .leaf token :: frame := by
  obtain ⟨moved, this⟩ := this
  cases this with
  | lexeme passes => exact ⟨_, passes, rfl, rfl⟩

theorem of_alt (this : Reads (.alt one two) frame tokens frame₁ rest) :
    Reads one frame tokens frame₁ rest ∨ Reads two frame tokens frame₁ rest := by
  obtain ⟨moved, this⟩ := this
  generalize same : Outcome.done moved frame₁ rest = out at this
  cases this with
  | altFirst first =>
      cases same
      exact .inl ⟨_, first⟩
  | altSecond first second =>
      rw [Outcome.done_of_farther same.symm] at second
      exact .inr ⟨_, second⟩

theorem of_node (this : Reads (.node kind rule) frame tokens frame₁ rest) :
    ∃ nodes, Reads rule [] tokens nodes rest ∧ frame₁ = .branch kind nodes.reverse :: frame := by
  obtain ⟨moved, this⟩ := this
  cases this with
  | node inner => exact ⟨_, ⟨_, inner⟩, rfl⟩

theorem of_attempt (this : Reads (.attempt rule) frame tokens frame₁ rest) :
    Reads rule frame tokens frame₁ rest := by
  obtain ⟨moved, this⟩ := this
  cases this with
  | attempt inner => exact ⟨_, inner⟩

theorem of_ahead (this : Reads (.ahead rule) frame tokens frame₁ rest) : frame₁ = frame ∧ rest = tokens := by
  obtain ⟨moved, this⟩ := this
  cases this with
  | ahead => exact ⟨rfl, rfl⟩

theorem of_joined {last : Bool} (this : Reads (Php.joined last rule) frame tokens frame₁ rest) :
    Reads rule frame tokens frame₁ rest := by
  cases last with
  | false => exact this
  | true =>
      obtain ⟨_, _, plain, goes⟩ := this.of_seq
      obtain ⟨_, rfl, rfl⟩ := plain.of_apart
      exact goes

theorem of_given {test : Node → Bool} (this : Reads (.given test) frame tokens frame₁ rest) :
    frame₁ = frame ∧ rest = tokens := by
  obtain ⟨moved, this⟩ := this
  cases this with
  | given => exact ⟨rfl, rfl⟩

theorem of_call {phrase : Phrase} (this : Reads (.call phrase) frame tokens frame₁ rest) :
    Reads (grammar phrase) frame tokens frame₁ rest := by
  obtain ⟨moved, this⟩ := this
  cases this with
  | call inner => exact ⟨_, inner⟩

theorem of_many (this : Reads (.many rule) frame tokens frame₂ rest) :
    (frame₂ = frame ∧ rest = tokens) ∨ ∃ frame₁ tokens₁, tokens₁.length < tokens.length ∧
      Reads rule frame tokens frame₁ tokens₁ ∧ Reads (.many rule) frame₁ tokens₁ frame₂ rest := by
  obtain ⟨moved, this⟩ := this
  generalize same : Outcome.done moved frame₂ rest = out at this
  cases this with
  | @manyStep _ _ _ frame₁ tokens₁ out one others =>
      cases out with
      | stuck => cases same
      | done =>
          cases same
          have shorter : tokens₁.length + 1 ≤ tokens.length := one.shorter
          exact .inr ⟨frame₁, tokens₁, shorter, ⟨_, one⟩, ⟨_, others⟩⟩
  | manyStill =>
      cases same
      exact .inl ⟨rfl, rfl⟩
  | manyEnd =>
      cases same
      exact .inl ⟨rfl, rfl⟩
  | manyStuck => cases same

end Reads

theorem Sticks.joined {last : Bool} (this : Sticks rule frame (token :: tokens)) :
    Sticks (Php.joined last rule) frame (token :: tokens) := by
  cases last with
  | false => exact this
  | true =>
      cases marked : token.afterMarkup with
      | false => exact seq_of_reads (.not_markup marked) this
      | true => exact seq (.apart ⟨false, .markup marked⟩)

theorem Sticks.of_alt (this : Sticks (.alt one two) frame tokens) :
    Sticks one frame tokens ∧ Sticks two frame tokens := by
  obtain ⟨moved, rest, this⟩ := this
  generalize same : Outcome.stuck moved rest = out at this
  cases this with
  | altFirst => cases same
  | @altSecond _ _ _ _ _ _ out first second =>
      cases out with
      | stuck => exact ⟨⟨_, _, first⟩, ⟨_, _, second⟩⟩
      | done => cases same

theorem Sticks.of_seq (this : Sticks (.seq one two) frame tokens) :
    Sticks one frame tokens ∨ ∃ frame₁ tokens₁, Reads one frame tokens frame₁ tokens₁ ∧ Sticks two frame₁ tokens₁ := by
  obtain ⟨moved, rest, this⟩ := this
  generalize same : Outcome.stuck moved rest = out at this
  cases this with
  | @seq _ _ _ _ _ frame₁ tokens₁ out first second =>
      cases out with
      | stuck => exact .inr ⟨frame₁, tokens₁, ⟨_, first⟩, ⟨_, _, second⟩⟩
      | done => cases same
  | seqStuck first => exact .inl ⟨_, _, first⟩

end Forms

end Phrasebook.Php
