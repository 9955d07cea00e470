import Phrasebook.Php.Tree

namespace Phrasebook.Php

inductive Rule (σ : Type) where
  | skip
  | lexeme (test : Lexeme → Bool)
  /-- Reads nothing, where markup stands before the next token. -/
  | markup
  | seq (first second : Rule σ)
  | alt (first second : Rule σ)
  | many (rule : Rule σ)
  | option (rule : Rule σ)
  /-- Forgets on failure that it has read anything. -/
  | attempt (rule : Rule σ)
  | node (kind : Kind) (rule : Rule σ)
  /-- Puts the newest node and what the rule builds under a branch. -/
  | extend (kind : Kind) (rule : Rule σ)
  | given (test : Node → Bool)
  | ahead (rule : Rule σ)
  | apart (rule : Rule σ)
  | call (symbol : σ)

/-- How following a rule ends. `moved` says whether it read a token. -/
inductive Outcome where
  | done (moved : Bool) (frame : List Node) (rest : List Token)
  | stuck (moved : Bool) (rest : List Token)

namespace Outcome

def after (moved : Bool) : Outcome → Outcome
  | .done m frame rest => .done (moved || m) frame rest
  | .stuck m rest => .stuck (moved || m) rest

def farther (moved : Bool) (rest : List Token) : Outcome → Outcome
  | .done m frame rest' => .done m frame rest'
  | .stuck m rest' =>
    if !moved then .stuck m rest'
    else if !m then .stuck moved rest
    else if rest'.length < rest.length then .stuck m rest' else .stuck moved rest

end Outcome

abbrev Reader := List Node → List Token → Outcome

def Reader.iterate (reader : Reader) : (bound : Nat) → (moved : Bool) → Reader
  | 0, moved, frame, tokens => .done moved frame tokens
  | bound + 1, moved, frame, tokens =>
    match reader frame tokens with
    | .done true frame rest => Reader.iterate reader bound true frame rest
    | .done false _ _ => .done moved frame tokens
    | .stuck true rest => .stuck true rest
    | .stuck false _ => .done moved frame tokens

namespace Rule

variable {σ : Type}

/-- Follows a rule, given how the symbols are read; `bound` limits each repetition. -/
def follow (symbols : σ → Reader) (bound : Nat) : Rule σ → Reader
  | .skip, frame, tokens => .done false frame tokens
  | .lexeme test, frame, tokens =>
    match tokens with
    | [] => .stuck false []
    | token :: rest =>
      if test token.lexeme then .done true (.leaf token :: frame) rest else .stuck false tokens
  | .markup, frame, tokens =>
    match tokens with
    | [] => .stuck false []
    | token :: _ => if token.afterMarkup then .done false frame tokens else .stuck false tokens
  | .seq first second, frame, tokens =>
    match follow symbols bound first frame tokens with
    | .done moved frame rest => (follow symbols bound second frame rest).after moved
    | .stuck moved rest => .stuck moved rest
  | .alt first second, frame, tokens =>
    match follow symbols bound first frame tokens with
    | .done moved frame rest => .done moved frame rest
    | .stuck moved rest => (follow symbols bound second frame tokens).farther moved rest
  | .many rule, frame, tokens => Reader.iterate (follow symbols bound rule) bound false frame tokens
  | .option rule, frame, tokens =>
    match follow symbols bound rule frame tokens with
    | .done moved frame rest => .done moved frame rest
    | .stuck true rest => .stuck true rest
    | .stuck false _ => .done false frame tokens
  | .attempt rule, frame, tokens =>
    match follow symbols bound rule frame tokens with
    | .done moved frame rest => .done moved frame rest
    | .stuck _ _ => .stuck false tokens
  | .node kind rule, frame, tokens =>
    match follow symbols bound rule [] tokens with
    | .done moved nodes rest => .done moved (.branch kind nodes.reverse :: frame) rest
    | .stuck moved rest => .stuck moved rest
  | .extend kind rule, frame, tokens =>
    match frame with
    | [] => .stuck false tokens
    | newest :: frame =>
      match follow symbols bound rule [newest] tokens with
      | .done moved nodes rest => .done moved (.branch kind nodes.reverse :: frame) rest
      | .stuck moved rest => .stuck moved rest
  | .given test, frame, tokens =>
    match frame with
    | [] => .stuck false tokens
    | newest :: _ => if test newest then .done false frame tokens else .stuck false tokens
  | .ahead rule, frame, tokens =>
    match follow symbols bound rule frame tokens with
    | .done _ _ _ => .done false frame tokens
    | .stuck _ _ => .stuck false tokens
  | .apart rule, frame, tokens =>
    match follow symbols bound rule frame tokens with
    | .done _ _ _ => .stuck false tokens
    | .stuck _ _ => .done false frame tokens
  | .call symbol, frame, tokens => symbols symbol frame tokens

end Rule

/-- Reads a symbol of a grammar, with symbols nested at most `depth` deep. -/
def readSymbolOf {σ : Type} (grammar : σ → Rule σ) (bound : Nat) : (depth : Nat) → σ → Reader
  | 0, _, _, tokens => .stuck false tokens
  | depth + 1, symbol, frame, tokens =>
    (grammar symbol).follow (readSymbolOf grammar bound depth) bound frame tokens

namespace Rule

variable {σ : Type}

def never : Rule σ := .lexeme fun _ => false

def sequence : List (Rule σ) → Rule σ
  | [] => .skip
  | [rule] => rule
  | rule :: rules => .seq rule (sequence rules)

def choice : List (Rule σ) → Rule σ
  | [] => never
  | [rule] => rule
  | rule :: rules => .alt rule (choice rules)

def kind (k : LexemeKind) : Rule σ := .lexeme fun l => l.kind == k

def sym (text : String) : Rule σ := .lexeme fun l => l.kind == .symbol && l.text == text.toList

def isWordAmong (words : List String) (l : Lexeme) : Bool :=
  l.kind == .word && (words.map String.toList).contains (l.text.map Char.toLower)

def keyword (text : String) : Rule σ := .lexeme (isWordAmong [text])

def keywords (texts : List String) : Rule σ := .lexeme (isWordAmong texts)

def exactly (text : String) : Rule σ := .lexeme fun l => l.kind == .word && l.text == text.toList

def wordBut (texts : List String) : Rule σ :=
  .lexeme fun l => l.kind == .word && !isWordAmong texts l

/-- A list separated by commas, with a comma at its end allowed before what `closer` reads. -/
def commaList (item closer : Rule σ) : Rule σ :=
  .seq item (.seq (.many (.seq (.attempt (.seq (sym ",") (.apart closer))) item)) (.option (sym ",")))

def commas (item : Rule σ) : Rule σ := .seq item (.many (.seq (sym ",") item))

end Rule

end Phrasebook.Php
