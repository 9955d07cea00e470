namespace Phrasebook.Template

def argumentDirectives : List String :=
  ["auth", "aware", "break", "can", "canany", "cannot", "case", "checked", "class", "component",
   "continue", "dd", "disabled", "dump", "each", "env", "error", "extends", "fragment", "guest",
   "hasSection", "include", "includeFirst", "includeIf", "includeUnless", "includeWhen", "inject",
   "js", "json", "method", "once", "prepend", "prependOnce", "props", "push", "pushIf", "pushOnce",
   "readonly", "required", "section", "sectionMissing", "selected", "session", "slot", "stack",
   "style", "switch", "use", "vite", "yield"]

/-- Directives with arguments, and the texts before and after the arguments. -/
def wrappers : List (String × String × String) :=
  [("php", "<?php (", "); ?>"),
   ("if", "<?php if(", "): ?>"),
   ("elseif", "<?php elseif(", "): ?>"),
   ("unless", "<?php if (! (", ")): ?>"),
   ("isset", "<?php if(isset(", ")): ?>"),
   ("empty", "<?php if(empty(", ")): ?>"),
   ("for", "<?php for(", "): ?>"),
   ("foreach", "<?php foreach(", "): ?>"),
   ("while", "<?php while(", "): ?>"),
   ("lang", "<?php echo app('translator')->get(", "); ?>"),
   ("choice", "<?php echo app('translator')->choice(", "); ?>")]

/-- Directives that stand for a fixed text, with or without arguments. -/
def closers : List (String × String) :=
  [("else", "<?php else: ?>"),
   ("endif", "<?php endif; ?>"),
   ("endunless", "<?php endif; ?>"),
   ("endisset", "<?php endif; ?>"),
   ("endempty", "<?php endif; ?>"),
   ("endforelse", "<?php endif; ?>"),
   ("endfor", "<?php endfor; ?>"),
   ("endforeach", "<?php endforeach; ?>"),
   ("endwhile", "<?php endwhile; ?>")]

/-- The `@forelse` loops of a template: how many have been opened, and the numbers of those whose `@empty`
is still to come, the innermost first. -/
structure Loops where
  opened : Nat
  waiting : List Nat
  deriving DecidableEq, Repr

def Loops.none : Loops := ⟨0, []⟩

def flagName (loop : Nat) : List Char := "$__empty_".toList ++ (toString loop).toList

def forelse (loop : Nat) (args : List Char) : List Char :=
  "<?php ".toList ++ flagName loop ++ " = true; foreach(".toList ++ args ++ "): ".toList ++
    flagName loop ++ " = false; ?>".toList

def forelseEmpty (loop : Nat) : List Char :=
  "<?php endforeach; if (".toList ++ flagName loop ++ "): ?>".toList

def directiveCall (name : String) (args : List Char) (blank : Bool) : List Char :=
  "<?php $__env->directive('".toList ++ name.toList ++ "'".toList ++
    (if blank then [] else ", ".toList ++ args) ++ "); ?>".toList

/-- The PHP for a directive and the loops after it; `none` if the name is text. -/
def directive? (loops : Loops) (name : String) (args? : Option (List Char)) (blank : Bool) :
    Option (List Char × Loops) :=
  match closers.lookup name with
  | some text => some (text.toList, loops)
  | none =>
    match args? with
    | none =>
      if name = "empty" then
        match loops.waiting with
        | loop :: waiting => some (forelseEmpty loop, { loops with waiting := waiting })
        | [] => none
      else none
    | some args =>
      match wrappers.lookup name with
      | some (before, after) => some (before.toList ++ args ++ after.toList, loops)
      | none =>
        if name = "forelse" then
          let loop := loops.opened + 1
          some (forelse loop args, ⟨loop, loop :: loops.waiting⟩)
        else if argumentDirectives.contains name then some (directiveCall name args blank, loops)
        else none

end Phrasebook.Template
