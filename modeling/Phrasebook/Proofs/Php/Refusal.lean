import Phrasebook.Proofs.Php.Derivation

namespace Phrasebook.Php

inductive Verdict
  | stuck
  | still
  | either
  | unclear
  deriving DecidableEq

namespace Verdict

def seq : Verdict → Verdict → Verdict
  | stuck, _ => stuck
  | still, second => second
  | either, stuck => stuck
  | either, still => either
  | either, either => either
  | _, _ => unclear

def alt : Verdict → Verdict → Verdict
  | stuck, second => second
  | still, _ => still
  | either, stuck => either
  | either, still => still
  | either, either => either
  | _, _ => unclear

def optional : Verdict → Verdict
  | unclear => unclear
  | _ => still

def branch : Verdict → Verdict
  | stuck => stuck
  | _ => unclear

def apart : Verdict → Verdict
  | stuck => still
  | still => stuck
  | verdict => verdict

end Verdict

variable {σ : Type}

namespace Rule

def verdict (symbols : σ → Verdict) (lexeme : Lexeme) (marked : Bool) : Rule σ → Verdict
  | .skip => .still
  | .lexeme test => if test lexeme then .unclear else .stuck
  | .markup => if marked then .still else .stuck
  | .seq first second => (first.verdict symbols lexeme marked).seq (second.verdict symbols lexeme marked)
  | .alt first second => (first.verdict symbols lexeme marked).alt (second.verdict symbols lexeme marked)
  | .many rule => (rule.verdict symbols lexeme marked).optional
  | .option rule => (rule.verdict symbols lexeme marked).optional
  | .attempt rule => rule.verdict symbols lexeme marked
  | .node _ rule => (rule.verdict symbols lexeme marked).branch
  | .extend _ rule => (rule.verdict symbols lexeme marked).branch
  | .given _ => .either
  | .ahead rule => rule.verdict symbols lexeme marked
  | .apart rule => (rule.verdict symbols lexeme marked).apart
  | .call symbol => symbols symbol

end Rule

def symbolVerdict (grammar : σ → Rule σ) (lexeme : Lexeme) (marked : Bool) : (depth : Nat) → σ → Verdict
  | 0, _ => .unclear
  | depth + 1, symbol => (grammar symbol).verdict (symbolVerdict grammar lexeme marked depth) lexeme marked

variable {grammar : σ → Rule σ}

theorem Outcome.farther_false (out : Outcome) (rest : List Token) : out.farther false rest = out := by
  cases out <;> rfl

/-- A rule ends at some tokens, on every frame, as a verdict says. -/
def Verdict.Holds (grammar : σ → Rule σ) (rule : Rule σ) (tokens : List Token) (frame : List Node) :
    Verdict → Prop
  | stuck => Derives grammar rule frame tokens (.stuck false tokens)
  | still => Derives grammar rule frame tokens (.done false frame tokens)
  | either => Derives grammar rule frame tokens (.stuck false tokens) ∨
      Derives grammar rule frame tokens (.done false frame tokens)
  | unclear => True

section Holds

variable {rule first second : Rule σ} {tokens : List Token} {frame : List Node} {a b : Verdict}

theorem Verdict.Holds.seq (one : a.Holds grammar first tokens frame) (two : b.Holds grammar second tokens frame) :
    (a.seq b).Holds grammar (.seq first second) tokens frame := by
  have past {out : Outcome} (did : Derives grammar first frame tokens (.done false frame tokens))
      (further : Derives grammar second frame tokens out) :
      Derives grammar (.seq first second) frame tokens out :=
    Outcome.after_false out ▸ Derives.seq did further
  cases a with
  | stuck => exact .seqStuck one
  | still =>
      cases b with
      | stuck => exact past one two
      | still => exact past one two
      | either => exact two.imp (past one) (past one)
      | unclear => trivial
  | either =>
      cases b with
      | stuck => exact one.elim .seqStuck fun did => past did two
      | still => exact one.imp .seqStuck fun did => past did two
      | either =>
          rcases one with failed | did
          · exact Or.inl (.seqStuck failed)
          · exact two.imp (past did) (past did)
      | unclear => trivial
  | unclear => cases b <;> trivial

theorem Verdict.Holds.alt (one : a.Holds grammar first tokens frame) (two : b.Holds grammar second tokens frame) :
    (a.alt b).Holds grammar (.alt first second) tokens frame := by
  have past {out : Outcome} (failed : Derives grammar first frame tokens (.stuck false tokens))
      (further : Derives grammar second frame tokens out) :
      Derives grammar (.alt first second) frame tokens out :=
    Outcome.farther_false out tokens ▸ Derives.altSecond failed further
  cases a with
  | stuck =>
      cases b with
      | stuck => exact past one two
      | still => exact past one two
      | either => exact two.imp (past one) (past one)
      | unclear => trivial
  | still => exact .altFirst one
  | either =>
      cases b with
      | stuck => exact one.imp (past · two) .altFirst
      | still => exact one.elim (past · two) .altFirst
      | either =>
          rcases one with failed | did
          · exact two.imp (past failed) (past failed)
          · exact Or.inr (.altFirst did)
      | unclear => trivial
  | unclear => cases b <;> trivial

theorem Verdict.Holds.apart (one : a.Holds grammar rule tokens frame) :
    a.apart.Holds grammar (.apart rule) tokens frame := by
  cases a with
  | stuck => exact .apart one
  | still => exact .apartStuck one
  | either => exact one.symm.imp .apartStuck .apart
  | unclear => trivial

end Holds

theorem Rule.verdict_holds {symbols : σ → Verdict} {token : Token} {rest : List Token}
    (known : ∀ symbol frame, (symbols symbol).Holds grammar (.call symbol) (token :: rest) frame)
    (rule : Rule σ) (frame : List Node) :
    (rule.verdict symbols token.lexeme token.afterMarkup).Holds grammar rule (token :: rest) frame := by
  -- A verdict knows the first lexeme only, so a rule that reads it is unclear from there on, and nothing is to show.
  induction rule generalizing frame with
  | skip => exact .skip
  | lexeme test =>
      rw [verdict]
      split
      · trivial
      · rename_i fails
        refine .lexemeStuck fun other here => ?_
        cases here
        simpa using fails
  | markup =>
      rw [verdict]
      split
      · rename_i marked
        exact .markup marked
      · rename_i fails
        refine .markupStuck fun other here => ?_
        cases here
        simpa using fails
  | seq first second ih₁ ih₂ => exact (ih₁ frame).seq (ih₂ frame)
  | alt first second ih₁ ih₂ => exact (ih₁ frame).alt (ih₂ frame)
  | many rule ih =>
      have one := ih frame
      rw [verdict]
      cases a : rule.verdict symbols token.lexeme token.afterMarkup with
      | stuck => exact .manyEnd (by rwa [a] at one)
      | still => exact .manyStill (by rwa [a] at one)
      | either =>
          rw [a] at one
          exact one.elim .manyEnd .manyStill
      | unclear => trivial
  | option rule ih =>
      have one := ih frame
      rw [verdict]
      cases a : rule.verdict symbols token.lexeme token.afterMarkup with
      | stuck => exact .optionNone (by rwa [a] at one)
      | still => exact .option (by rwa [a] at one)
      | either =>
          rw [a] at one
          exact one.elim .optionNone .option
      | unclear => trivial
  | attempt rule ih =>
      have one := ih frame
      rw [verdict]
      cases a : rule.verdict symbols token.lexeme token.afterMarkup with
      | stuck => exact .attemptStuck (by rwa [a] at one)
      | still => exact .attempt (by rwa [a] at one)
      | either =>
          rw [a] at one
          exact one.imp .attemptStuck .attempt
      | unclear => trivial
  | node kind rule ih =>
      have one := ih []
      rw [verdict]
      cases a : rule.verdict symbols token.lexeme token.afterMarkup with
      | stuck => exact .nodeStuck (by rwa [a] at one)
      | still | either | unclear => trivial
  | extend kind rule ih =>
      rw [verdict]
      cases a : rule.verdict symbols token.lexeme token.afterMarkup with
      | stuck =>
          cases frame with
          | nil => exact .extendNone
          | cons newest frame =>
              have one := ih [newest]
              exact .extendStuck (by rwa [a] at one)
      | still | either | unclear => trivial
  | given test =>
      by_cases passes : ∀ newest ∈ frame.head?, test newest = false
      · exact Or.inl (.givenStuck passes)
      · cases frame with
        | nil => exact absurd (fun _ here => nomatch here) passes
        | cons newest frame =>
            refine Or.inr (.given ?_)
            simpa using passes
  | ahead rule ih =>
      have one := ih frame
      rw [verdict]
      cases a : rule.verdict symbols token.lexeme token.afterMarkup with
      | stuck => exact .aheadStuck (by rwa [a] at one)
      | still => exact .ahead (by rwa [a] at one)
      | either =>
          rw [a] at one
          exact one.imp .aheadStuck .ahead
      | unclear => trivial
  | apart rule ih => exact (ih frame).apart
  | call symbol => exact known symbol frame

theorem symbolVerdict_holds (token : Token) (rest : List Token) (depth : Nat) (symbol : σ) (frame : List Node) :
    (symbolVerdict grammar token.lexeme token.afterMarkup depth symbol).Holds grammar (.call symbol)
      (token :: rest) frame := by
  induction depth generalizing symbol frame with
  | zero => trivial
  | succ depth ih =>
      have one := Rule.verdict_holds ih (grammar symbol) frame
      rw [symbolVerdict]
      cases a : (grammar symbol).verdict (symbolVerdict grammar token.lexeme token.afterMarkup depth)
          token.lexeme token.afterMarkup with
      | stuck => exact .call (by rwa [a] at one)
      | still => exact .call (by rwa [a] at one)
      | either =>
          rw [a] at one
          exact one.imp .call .call
      | unclear => trivial

def verdictDepth : Nat := 12

theorem derives_of_verdict (rule : Rule σ) (token : Token) (rest : List Token) (frame : List Node) :
    (rule.verdict (symbolVerdict grammar token.lexeme token.afterMarkup verdictDepth) token.lexeme
      token.afterMarkup).Holds grammar rule (token :: rest) frame :=
  Rule.verdict_holds (symbolVerdict_holds token rest verdictDepth) rule frame

def Rule.refuses (grammar : σ → Rule σ) (rule : Rule σ) (lexeme : Lexeme) (marked : Bool) : Bool :=
  rule.verdict (symbolVerdict grammar lexeme marked verdictDepth) lexeme marked == .stuck

theorem Derives.refused {rule : Rule σ} {token : Token} {rest : List Token} {frame : List Node}
    (refuses : rule.refuses grammar token.lexeme token.afterMarkup = true) :
    Derives grammar rule frame (token :: rest) (.stuck false (token :: rest)) := by
  have holds : (rule.verdict (symbolVerdict grammar token.lexeme token.afterMarkup verdictDepth) token.lexeme
      token.afterMarkup).Holds grammar rule (token :: rest) frame := derives_of_verdict rule token rest frame
  rwa [beq_iff_eq.1 refuses] at holds

def Rule.passes (grammar : σ → Rule σ) (rule : Rule σ) (lexeme : Lexeme) (marked : Bool) : Bool :=
  rule.verdict (symbolVerdict grammar lexeme marked verdictDepth) lexeme marked == .still

theorem Derives.passed {rule : Rule σ} {token : Token} {rest : List Token} {frame : List Node}
    (passes : rule.passes grammar token.lexeme token.afterMarkup = true) :
    Derives grammar rule frame (token :: rest) (.done false frame (token :: rest)) := by
  have holds : (rule.verdict (symbolVerdict grammar token.lexeme token.afterMarkup verdictDepth) token.lexeme
      token.afterMarkup).Holds grammar rule (token :: rest) frame := derives_of_verdict rule token rest frame
  rwa [beq_iff_eq.1 passes] at holds

end Phrasebook.Php
