import Phrasebook.Php.Token

namespace Phrasebook.Php

inductive Kind
  | program
  | error
  | call
  | arguments
  | argument
  | placeholder
  | unpacking
  | name
  | qualifiedName
  | relativeName
  | scope
  | number
  | constant
  | string
  | nowdoc
  | encapsed
  | heredoc
  | shell
  | substitution
  | variable
  | subscript
  | member
  | staticProperty
  | staticCall
  | classConstant
  | parenthesized
  /-- A list in square brackets, which may turn out to be a pattern. -/
  | bracket
  | hole
  | element
  | array
  | list
  | assignment
  | update
  | unary
  | cast
  | operation
  | creation
  | bareCreation
  | expression
  | closure
  | statement
  | block
  | declaration
  deriving DecidableEq, Repr

inductive Node
  | leaf (token : Token)
  | missing
  | branch (kind : Kind) (children : List Node)
  deriving Repr

namespace Node

def tokens : Node → List Token
  | .leaf token => [token]
  | .missing => []
  | .branch _ children => listTokens children
where
  listTokens : List Node → List Token
    | [] => []
    | child :: children => child.tokens ++ listTokens children

def source (node : Node) : List Char := node.tokens.flatMap Token.source

def text (node : Node) : List Char :=
  match node.tokens with
  | [] => []
  | token :: tokens => token.lexeme.text ++ tokens.flatMap Token.source

def preorder : Node → List Node
  | .leaf token => [.leaf token]
  | .missing => [.missing]
  | .branch kind children => .branch kind children :: listPreorder children
where
  listPreorder : List Node → List Node
    | [] => []
    | child :: children => child.preorder ++ listPreorder children

def children : Node → List Node
  | .branch _ children => children
  | _ => []

def isKind (kind : Kind) : Node → Bool
  | .branch k _ => k == kind
  | _ => false

def isFault : Node → Bool
  | .missing => true
  | .branch .error _ => true
  | _ => false

mutual

/-- The first fault of a tree that begins at `offset`, with the offset of its first lexeme, or else the offset
at which the tree ends. -/
def findFault (offset : Nat) : Node → (Nat × Node) ⊕ Nat
  | .leaf token => .inr (offset + token.source.length)
  | .missing => .inl (offset, .missing)
  | .branch kind children =>
    if kind = .error then .inl (offset + (leadingGap (.branch kind children)).length, .branch kind children)
    else findFaultIn offset children

def findFaultIn (offset : Nat) : List Node → (Nat × Node) ⊕ Nat
  | [] => .inr offset
  | child :: children =>
    match findFault offset child with
    | .inl fault => .inl fault
    | .inr offset => findFaultIn offset children

def leadingGap : Node → List Char
  | .leaf token => token.gap
  | .missing => []
  | .branch _ children => leadingGapOf children

def leadingGapOf : List Node → List Char
  | [] => []
  | child :: children => if child.tokens.isEmpty then leadingGapOf children else leadingGap child

end

def firstFault? (root : Node) : Option (Nat × Node) :=
  match findFault 0 root with
  | .inl fault => some fault
  | .inr _ => none

end Node

/-- A place in a source: line and column, both counted from one, the column in bytes. -/
structure Place where
  line : Nat
  column : Nat
  deriving DecidableEq, Repr

def Place.after (text : List Char) : Place :=
  let next (place : Place) (c : Char) : Place :=
    if c = '\n' then ⟨place.line + 1, 1⟩ else ⟨place.line, place.column + c.utf8Size⟩
  text.foldl next ⟨1, 1⟩

end Phrasebook.Php
