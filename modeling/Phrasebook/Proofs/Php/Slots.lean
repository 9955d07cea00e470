import Phrasebook.Extraction
import Phrasebook.Proofs.Php.Reads
import Phrasebook.Proofs.Php.Lexing

namespace Phrasebook.Php

/-- Where code of a template stands in PHP. -/
inductive Slot
  | condition
  /-- In parentheses after an exclamation mark, in other parentheses. -/
  | negated
  | arguments
  | further
  | printed
  | counting
  | iterating
  deriving DecidableEq, Repr

namespace Slot

open Rule

def nextArgument : Rule Phrase := .seq (.attempt (.seq (sym ",") (.apart (sym ")")))) (.call .argument)

def rule : Slot → Rule Phrase
  | .condition => value false
  | .negated => .seq (.apart (sequence [keywords castWords, sym ")",
      .alt (.call (.operand false)) (.call (.operand true))])) (value false)
  | .arguments => .alt (.node .placeholder (.attempt (.seq (sym "...") (.ahead (sym ")")))))
      (.seq (.option (commaList (.call .argument) (sym ")"))) (.option (sym ",")))
  | .further => sequence
      [.apart (sym ")"), .call .argument, .many nextArgument, .option (sym ","), .option (sym ",")]
  | .printed => expressions true
  | .counting => sequence
      [.option (expressions false), sym ";", .option (expressions false), sym ";", .option (expressions false)]
  | .iterating => sequence [value false, keyword "as", .call .foreachTarget]

/-- Whether some tokens can stand after the stop. A negation ends there: with an operand after it, the name of a type
in its parentheses would be a cast. -/
def precedes : Slot → List Token → Prop
  | .negated, rest => ∃ token others, rest = token :: others ∧
      ∀ last, (Rule.call (.operand last)).refuses grammar token.lexeme token.afterMarkup = true
  | _, _ => True

def lead : Slot → List Char
  | .further | .printed => [' ']
  | _ => []

def stop : Slot → String
  | .printed => ";"
  | _ => ")"

def lexed (slot : Slot) (code : List Char) : List Token :=
  lexFrom [] [] (slot.lead ++ code ++ slot.stop.toList)

def tokens (slot : Slot) (code : List Char) : List Token := (slot.lexed code).dropLast.dropLast

def gap (slot : Slot) (code : List Char) : List Skipped :=
  match (slot.lexed code).dropLast.getLast? with
  | some token => token.before
  | none => []

def stopAfter (slot : Slot) (code : List Char) : Token := .symbol (slot.gap code) slot.stop

def nodes (slot : Slot) (code : List Char) : List Node :=
  let tokens := slot.lexed code
  match slot.rule.follow (readSymbolOf grammar tokens.length (phraseCount * (tokens.length + 1))) tokens.length []
      tokens with
  | .done _ frame _ => frame.reverse
  | .stuck _ _ => []

def calls (table : FunctionTable) (slot : Slot) (code : List Char) : List Occurrence :=
  (slot.nodes code).flatMap (occurrences table)

/-- Code that is whole where it stands. -/
structure Fits (slot : Slot) (code : List Char) : Prop where
  lexes : ∀ rest, lexFrom [] [] (slot.lead ++ code ++ slot.stop.toList ++ rest) =
    slot.tokens code ++ lexFrom [] (slot.gap code) (slot.stop.toList ++ rest)
  reads : ∀ frame rest, slot.precedes rest → Reads slot.rule frame (slot.tokens code ++ slot.stopAfter code :: rest)
    ((slot.nodes code).reverse ++ frame) (slot.stopAfter code :: rest)

end Slot

end Phrasebook.Php
