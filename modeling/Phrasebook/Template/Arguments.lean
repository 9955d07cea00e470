namespace Phrasebook.Template

/-- What is open at a position of an argument list: the depth of parentheses, and the quote of the string
that the position lies in. -/
structure Nesting where
  depth : Nat
  quote : Option Char
  deriving DecidableEq, Repr

/-- The state after one character, `none` when it closes the last parenthesis. A backslash inside a string
is not handled here, since it takes two characters. -/
def Nesting.next? (state : Nesting) (c : Char) : Option Nesting :=
  match state.quote with
  | some q => some (if c = q then { state with quote := none } else state)
  | none =>
    if c = '\'' ∨ c = '"' then some { state with quote := some c }
    else if c = '(' then some { state with depth := state.depth + 1 }
    else if c = ')' then
      if state.depth ≤ 1 then none else some { state with depth := state.depth - 1 }
    else some state

def closing? (state : Nesting) : List Char → Option Nat
  | [] => none
  | c :: rest =>
    if state.quote.isSome ∧ c = '\\' then
      match rest with
      | [] => none
      | _ :: rest => (closing? state rest).map (· + 2)
    else
      match state.next? c with
      | none => some 0
      | some state => (closing? state rest).map (· + 1)

/-- The offset in a text of the parenthesis that matches the one it begins with. -/
def matching? : List Char → Option Nat
  | '(' :: rest => (closing? ⟨1, none⟩ rest).map (· + 1)
  | _ => none

end Phrasebook.Template
