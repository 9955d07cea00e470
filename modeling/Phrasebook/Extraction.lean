import Phrasebook.FileKind
import Phrasebook.Source.Found
import Phrasebook.Template.Compile
import Phrasebook.Php.Parse
import Phrasebook.Php.Call

namespace Phrasebook

abbrev TemplateCompiler := String → String

def FileKind.toCode (compiler : TemplateCompiler) (kind : FileKind) (source : String) : String :=
  match kind with
  | .template => compiler source
  | .code => source

open Php

def occurrence? (table : FunctionTable) (node : Node) : Option Occurrence := do
  let (callee, arguments) ← callParts? node
  let name ← calleeName? callee
  let function ← table.get? name
  let value ← nthArgument? arguments function.argument
  let text ← literal? value
  return ⟨name, String.ofList text⟩

def occurrences (table : FunctionTable) (root : Node) : List Occurrence :=
  root.preorder.filterMap (occurrence? table)

inductive ExtractionError
  | malformed
  | unreadable (path reason : String)
  deriving DecidableEq, Repr

def extract (compiler : TemplateCompiler) (table : FunctionTable) (kind : FileKind)
    (source : String) : Except ExtractionError (List Occurrence) :=
  if table.isEmpty then .ok []
  else
    let root := parse (kind.toCode compiler source).toList
    if root.firstFault?.isSome then .error .malformed else .ok (occurrences table root)

end Phrasebook
