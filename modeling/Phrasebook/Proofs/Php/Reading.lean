import Phrasebook.Php.Parse
import Phrasebook.Proofs.Php.Derivation

namespace Phrasebook.Php

namespace Phrase

def moves : Phrase → Bool
  | .statements => false
  | .switchCases _ => false
  | _ => true

/-- A rank above those of the phrases that a phrase calls before it has read a token. -/
def rank : Phrase → Nat
  | .program => 9
  | .statements => 8
  | .ifTail _ => 8
  | .statement _ => 7
  | .argument => 7
  | .expression _ => 6
  | .foreachTarget => 6
  | .element _ => 5
  | .operand _ => 4
  | .primary _ => 3
  | .base _ => 2
  | .closure _ => 1
  | .suffix _ => 1
  | .member => 1
  | .enumMember => 1
  | .classReference _ => 1
  | _ => 0

def all : List Phrase :=
  [.program, .statements, .tryTail, .declaration, .classBody, .enumBody, .member, .enumMember, .hooks, .parameters,
    .attributes, .arguments, .argument, .simpleVariable, .stringPart, .foreachTarget] ++
  [statement, ifTail, switchCases, type, expression, element, operand, prefixed, primary, base, suffix, closure, creation, classReference,
    name].flatMap fun phrase => [phrase false, phrase true]

theorem mem_all (phrase : Phrase) : phrase ∈ all := by
  cases phrase <;> first | decide | (rename_i last; cases last <;> decide)

theorem forall_eq (test : Phrase → Bool) (value : Bool) (same : all.all (test · == value) = true) (phrase : Phrase) :
    test phrase = value :=
  beq_iff_eq.1 (List.all_eq_true.1 same phrase phrase.mem_all)

end Phrase

theorem grammar_ranked : Ranked grammar Phrase.moves Phrase.rank phraseCount where
  moves phrase known := by
    have same := Phrase.forall_eq (fun phrase => phrase.moves && !(grammar phrase).moves Phrase.moves) false rfl phrase
    simpa [known] using same
  below := Phrase.forall_eq _ true rfl
  lt phrase := of_decide_eq_true (Phrase.forall_eq (fun phrase => decide (phrase.rank < phraseCount)) true rfl phrase)

theorem readSymbolOf_program {tokens : List Token} {out : Outcome}
    (derives : Derives grammar (.call .program) [] tokens out) :
    readSymbolOf grammar tokens.length (phraseCount * (tokens.length + 1)) .program [] tokens = out := by
  have below : (Rule.call Phrase.program).callsBelow Phrase.moves Phrase.rank phraseCount 10 = true := rfl
  have deep : phraseCount * tokens.length + 10 ≤ phraseCount * (tokens.length + 1) := by
    rw [Nat.mul_add]
    exact Nat.add_le_add_left (by decide) _
  have read := derives.follow grammar_ranked below (by decide) (Nat.le_refl _) deep
  rwa [Rule.follow] at read

theorem readProgram_of_derives {tokens : List Token} {moved : Bool} {root : Node} {frame : List Node}
    {rest : List Token} (derives : Derives grammar (.call .program) [] tokens (.done moved (root :: frame) rest)) :
    readProgram tokens = .ok root := by
  rw [readProgram, readSymbolOf_program derives]

end Phrasebook.Php
