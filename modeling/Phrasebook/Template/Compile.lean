import Phrasebook.Text.WordChar
import Phrasebook.Text.Blank
import Phrasebook.Text.Search
import Phrasebook.Template.Arguments
import Phrasebook.Template.Directive

namespace Phrasebook.Template

/-- One step: it takes its first character and `more` characters after it. -/
structure Step where
  more : Nat
  out : List Char
  loops : Loops

def Step.taking (count : Nat) (out : List Char) (loops : Loops) : Step := ⟨count - 1, out, loops⟩

def Step.copy (text : List Char) (loops : Loops) : Step := .taking text.length text loops

def rawSection (loops : Loops) (text : List Char) : Step :=
  match find? "?>".toList text with
  | some n => .copy (text.take (n + 2)) loops
  | none => .copy text loops

def comment (loops : Loops) (text : List Char) : Step :=
  match find? "--\x7d\x7d".toList (text.drop 4) with
  | some n => .taking (4 + n + 4) [] loops
  | none => .copy text loops

/-- The PHP that prints the value of an expression, passed through `e` if it is to be escaped. -/
def echoCode (escaped : Bool) (expr : List Char) : List Char :=
  if escaped then "<?php echo e(".toList ++ expr ++ "); ?>".toList
  else "<?php echo ".toList ++ expr ++ "; ?>".toList

def echo (opener closer : List Char) (escaped : Bool) (loops : Loops) (text : List Char) : Step :=
  let body := text.drop opener.length
  match find? closer body with
  | some n =>
    .taking (opener.length + n + closer.length) (echoCode escaped (trimBlanks (body.take n))) loops
  | none => .copy text loops

/-- A block: the text after `taken` characters up to `terminator`, which is taken too. -/
def block (terminator before after : List Char) (taken : Nat) (loops : Loops) (text : List Char) :
    Step :=
  let body := text.drop taken
  match find? terminator body with
  | some n => .taking (taken + n + terminator.length) (before ++ body.take n ++ after) loops
  | none => .copy text loops

/-- The arguments that follow the name of a directive, with the number of characters up to their closing
parenthesis. Spaces and tabs may stand before the opening one. -/
def arguments? (text : List Char) : Option (List Char × Nat) :=
  let gap := text.takeWhile fun c => c == ' ' || c == '\t'
  let list := text.drop gap.length
  (matching? list).map fun n => ((list.take n).drop 1, gap.length + n + 1)

def atSign (loops : Loops) (text : List Char) : Step :=
  let name := (text.drop 1).takeWhile isAsciiWordChar
  if begins "@@".toList text then .taking 2 "@".toList loops
  else if name.isEmpty then .taking 1 "@".toList loops
  else
    let taken := 1 + name.length
    let args? := arguments? (text.drop taken)
    if name = "verbatim".toList then block "@endverbatim".toList [] [] taken loops text
    else if name = "php".toList ∧ args?.isNone then
      block "@endphp".toList "<?php".toList "?>".toList taken loops text
    else
      match args? with
      | some (args, count) =>
        match directive? loops (String.ofList name) (some args) (trimBlanks args).isEmpty with
        | some (out, loops) => .taking (taken + count) out loops
        | none => .copy (text.take taken) loops
      | none =>
        match directive? loops (String.ofList name) none true with
        | some (out, loops) => .taking taken out loops
        | none => .copy (text.take taken) loops

/-- The step at the beginning of a text, `previous` being the character before it. -/
def step (previous : Option Char) (loops : Loops) (text : List Char) : Step :=
  if begins "<?php".toList text ∨ begins "<?=".toList text then rawSection loops text
  else if begins "\x7b\x7b--".toList text then comment loops text
  else if begins "@\x7b\x7b".toList text then .taking 3 "\x7b\x7b".toList loops
  else if begins "\x7b!!".toList text then echo "\x7b!!".toList "!!\x7d".toList false loops text
  else if begins "\x7b\x7b\x7b".toList text then
    echo "\x7b\x7b\x7b".toList "\x7d\x7d\x7d".toList true loops text
  else if begins "\x7b\x7b".toList text then
    echo "\x7b\x7b".toList "\x7d\x7d".toList true loops text
  else if begins "@".toList text ∧ ¬ previous.any isWordChar then atSign loops text
  else .copy (text.take 1) loops

def compileFrom (previous : Option Char) (loops : Loops) : List Char → List Char
  | [] => []
  | c :: rest =>
    let s := step previous loops (c :: rest)
    s.out ++ compileFrom (c :: rest.take s.more).getLast? s.loops (rest.drop s.more)
termination_by text => text.length
decreasing_by simp only [List.length_cons, List.length_drop]; omega

def compile (template : String) : String :=
  String.ofList (compileFrom none Loops.none template.toList)

end Phrasebook.Template
