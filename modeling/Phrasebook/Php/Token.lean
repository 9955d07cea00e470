namespace Phrasebook.Php

inductive LexemeKind
  | word
  | number
  | single
  | nowdoc
  | opener
  | chunk
  | closer
  | symbol
  | stray
  | finish
  deriving DecidableEq, Repr

structure Lexeme where
  kind : LexemeKind
  text : List Char
  deriving DecidableEq, Repr

inductive SkippedKind
  | blank
  | comment
  | markup
  deriving DecidableEq, Repr

structure Skipped where
  kind : SkippedKind
  text : List Char
  deriving DecidableEq, Repr

structure Token where
  before : List Skipped
  lexeme : Lexeme
  deriving DecidableEq, Repr

namespace Token

def gap (token : Token) : List Char := token.before.flatMap (·.text)

def source (token : Token) : List Char := token.gap ++ token.lexeme.text

def afterMarkup (token : Token) : Bool := token.before.any (·.kind == .markup)

end Token

end Phrasebook.Php
