import Phrasebook.Php.Grammar
import Phrasebook.Php.Lexer

namespace Phrasebook.Php

/-- The number of phrases. No phrase begins with itself, so reading cannot enter more phrases than this
between two tokens. -/
def phraseCount : Nat := 46

/-- Reads all tokens by the grammar; fails with the tokens from the one at which the reading got stuck. -/
def readProgram (tokens : List Token) : Except (List Token) Node :=
  match readSymbolOf grammar tokens.length (phraseCount * (tokens.length + 1)) .program [] tokens with
  | .done _ (root :: _) _ => .ok root
  | .done _ [] rest => .error rest
  | .stuck _ rest => .error rest

/-- What stands for tokens that the grammar does not admit. -/
def misplaced (tokens : List Token) : List Node :=
  match tokens with
  | [] => []
  | [finish] => [.missing, .leaf finish]
  | token :: tokens => [.branch .error (.leaf token :: tokens.map .leaf)]

def faultyTree (tokens rest : List Token) : Node :=
  .branch .program ((tokens.take (tokens.length - rest.length)).map .leaf ++ misplaced rest)

def parse (source : List Char) : Node :=
  match readProgram (lex source) with
  | .ok root => root
  | .error rest => faultyTree (lex source) rest

def firstError? (source : List Char) : Option (Place × Bool) :=
  (parse source).firstFault?.map fun (offset, fault) =>
    (.after (source.take offset), !fault.isKind .error)

end Phrasebook.Php
