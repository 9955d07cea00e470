import Phrasebook.Text.Blank
import Phrasebook.Php.Literal

namespace Phrasebook.Php

/-- The function that a call names. Backslashes before it and blanks in it do not count. -/
def calleeName? (callee : Node) : Option String :=
  match callee with
  | .branch .name _ => some (String.ofList callee.text)
  | .branch .qualifiedName _ =>
    some (String.ofList ((callee.text.dropWhile (· == '\\')).filter (!isBlank ·)))
  | _ => none

def markupBefore (node : Node) : Nat :=
  match node.tokens with
  | [] => 0
  | token :: _ => token.before.countP (·.kind == .markup)

/-- What takes the places of a call's arguments, with the value of each that is an argument. -/
def argumentValues : List Node → List (Option Node)
  | [] => []
  | node :: nodes =>
    let value :=
      match node with
      | .branch .argument parts => [parts.getLast?]
      | .branch _ _ => [none]
      | _ => []
    List.replicate (markupBefore node) none ++ value ++ argumentValues nodes

def nthArgument? (arguments : Node) (index : Nat) : Option Node :=
  (argumentValues (arguments.children.drop 1))[index]?.join

def callParts? : Node → Option (Node × Node)
  | .branch .call [callee, arguments] => some (callee, arguments)
  | _ => none

end Phrasebook.Php
