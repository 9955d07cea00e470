import Phrasebook.Proofs.Php.LiteralCalls
import Phrasebook.Proofs.Template.Balance

namespace Phrasebook.Template

open Php

theorem inQuotes_escape (quoting : Quoting) (value : List Char) : InQuotes quoting.quote (quoting.escape value) := by
  induction value with
  | nil => exact .nil
  | cons c value ih =>
      rw [Quoting.escape]
      split
      · exact .escaped c ih
      · rename_i special
        have plain : c ≠ quoting.quote ∧ c ≠ '\\' := by
          cases quoting <;> simp_all [Quoting.escapes, Quoting.quote]
        exact .plain plain.1 plain.2 ih

theorem Balanced.literal_append {rest : List Char} (balanced : Balanced rest) (quoting : Quoting)
    (value : List Char) : Balanced (quoting.literal value ++ rest) := by
  have quotes : isQuote quoting.quote = true := by cases quoting <;> rfl
  have split : quoting.literal value ++ rest =
      quoting.quote :: (quoting.escape value ++ quoting.quote :: rest) := by simp [Quoting.literal]
  rw [split]
  exact .string quotes (inQuotes_escape quoting value) balanced

def translation (value : String) (noNul : nul ∉ value.toList) : LiteralCall :=
  ⟨"__", by decide +kernel, ⟨.single, value, noNul⟩, []⟩

inductive Wrapper
  | escaped
  | tripled
  | raw
  | holds
  | fails
  | group
  | block
  | lang
  | directive (name : String) (known : name ∈ argumentDirectives)

namespace Wrapper

def around : Wrapper → String × String
  | escaped => ("\x7b\x7b ", " \x7d\x7d")
  | tripled => ("\x7b\x7b\x7b ", " \x7d\x7d\x7d")
  | raw => ("\x7b!! ", " !!\x7d")
  | holds => ("@if(", ")\n@endif")
  | fails => ("@unless(", ")\n@endunless")
  | group => ("@php(", ")")
  | block => ("@php ", "; @endphp")
  | lang => ("@lang(", ")")
  | directive name _ => ("@" ++ name ++ "('a', ", ")")

def closer? : Wrapper → Option String
  | escaped => some "\x7d\x7d"
  | tripled => some "\x7d\x7d\x7d"
  | raw => some "!!\x7d"
  | block => some "@endphp"
  | _ => none

def written : Wrapper → String × String
  | escaped | tripled => (" echo e(", "); ")
  | raw => (" echo ", "; ")
  | holds => (" if(", "): ?>\n<?php endif; ")
  | fails => (" if (! (", ")): ?>\n<?php endif; ")
  | group => (" (", "); ")
  | block => (" ", "; ")
  | lang => (" echo app('translator')->get(", "); ")
  | directive name _ => (" $__env->directive('" ++ name ++ "', 'a', ", "); ")

end Wrapper

/-- A call in a wrapper that it does not end. -/
structure Usage where
  wrapper : Wrapper
  value : String
  noNul : nul ∉ value.toList
  closed : ∀ closer ∈ wrapper.closer?, ¬ closer.toList <:+: (translation value noNul).source

namespace Usage

def call (self : Usage) : LiteralCall := translation self.value self.noNul

def source (self : Usage) : List Char :=
  self.wrapper.around.1.toList ++ self.call.source ++ self.wrapper.around.2.toList

example : String.ofList (source ⟨.block, "it's", by decide, by decide +kernel⟩) = "@php __('it\\'s'); @endphp" := by
  decide +kernel

def code (self : Usage) : List Char :=
  self.wrapper.written.1.toList ++ self.call.source ++ self.wrapper.written.2.toList

theorem call_source (self : Usage) :
    self.call.source = '_' :: '_' :: '(' :: (Quoting.single.literal self.value.toList ++ [')']) := by
  simp [call, translation, LiteralCall.source, LiteralCall.arguments, Written.source]

theorem balanced_call (self : Usage) : Balanced self.call.source := by
  have inner : Balanced (Quoting.single.literal self.value.toList ++ []) := Balanced.nil.literal_append ..
  rw [List.append_nil] at inner
  rw [self.call_source]
  exact .plain rfl (by decide) (by decide) (.plain rfl (by decide) (by decide) (.list inner .nil))

theorem trimBlanks_call (self : Usage) : trimBlanks (' ' :: (self.call.source ++ [' '])) = self.call.source := by
  have front : (' ' :: (self.call.source ++ [' '])).dropWhile Phrasebook.isBlank = self.call.source ++ [' '] := by
    rw [self.call_source]
    rfl
  have back : (self.call.source ++ [' ']).reverse.dropWhile Phrasebook.isBlank = self.call.source.reverse := by
    rw [self.call_source, List.reverse_append]
    simp only [← List.cons_append, ← List.append_assoc, List.reverse_append]
    rfl
  rw [trimBlanks, front, dropTrailing, back, List.reverse_reverse]

theorem find?_closer (self : Usage) {closer : String} (closes : closer ∈ self.wrapper.closer?) (marks : Marks)
    (same : closer.toList = marks.closer) :
    find? marks.closer (' ' :: (self.call.source ++ [' ']) ++ marks.closer) =
      some (' ' :: (self.call.source ++ [' '])).length := by
  have noBlank : ' ' ∉ marks.closer := by cases marks <;> decide
  have nonempty : marks.closer ≠ [] := by cases marks <;> exact List.cons_ne_nil _ _
  -- It does not begin in the call by the usage's own condition, nor at the blank before it.
  have apart : ¬ marks.closer <:+: ' ' :: self.call.source := by
    rw [List.infix_cons_iff]
    rintro (here | inside)
    · obtain ⟨c, cs, split⟩ := List.exists_cons_of_ne_nil nonempty
      rw [split, List.cons_prefix_cons] at here
      exact noBlank (by rw [split, here.1]; exact List.mem_cons_self ..)
    · exact self.closed closer closes (same ▸ inside)
  have found := find?_of_not_infix [] noBlank apart
  simpa using found

theorem balanced_alone (self : Usage) :
    closing? ⟨1, none⟩ (self.call.source ++ [')']) = some self.call.source.length :=
  closing?_eq_iff.2 self.balanced_call

theorem balanced_second (self : Usage) : closing? ⟨1, none⟩ ("'a', ".toList ++ self.call.source ++ [')']) =
    some ("'a', ".toList ++ self.call.source).length := by
  have separated : Balanced (',' :: ' ' :: self.call.source) :=
    .plain rfl (by decide) (by decide) (.plain rfl (by decide) (by decide) self.balanced_call)
  exact closing?_eq_iff.2 (separated.literal_append .single ['a'])

def alone (self : Usage) : Arguments := ⟨[], self.call.source, noGap, self.balanced_alone⟩

def second (self : Usage) : Arguments := ⟨[], "'a', ".toList ++ self.call.source, noGap, self.balanced_second⟩

end Usage

/-- A text that is taken as a whole wherever it stands between new lines. -/
structure Compiles (source out : List Char) : Prop where
  begins : ∃ c text, source = c :: text ∧ (c = '@' ∨ c = '\x7b')
  compiled : ∀ previous loops rest, previous.any isWordChar = false → (∀ c ∈ rest.head?, c = '\n') →
    compileFrom previous loops (source ++ rest) = out ++ compileFrom source.getLast? loops rest

namespace Compiles

variable {source source' out out' : List Char}

theorem of_step (begins : ∃ c text, source = c :: text ∧ (c = '@' ∨ c = '\x7b'))
    (here : ∀ previous loops rest, previous.any isWordChar = false → (∀ c ∈ rest.head?, c = '\n') →
      step previous loops (source ++ rest) = .taking source.length out loops) : Compiles source out := by
  refine ⟨begins, fun previous loops rest apart ends => ?_⟩
  obtain ⟨c, text, rfl, -⟩ := begins
  exact compileFrom_taking (List.cons_ne_nil c text) (here previous loops rest apart ends)

theorem line (first : Compiles source out) (second : Compiles source' out') :
    Compiles (source ++ '\n' :: source') (out ++ '\n' :: out') := by
  obtain ⟨c, text, rfl, first'⟩ := first.begins
  obtain ⟨d, text', rfl, second'⟩ := second.begins
  refine ⟨⟨c, _, rfl, first'⟩, fun previous loops rest apart ends => ?_⟩
  -- The new line is copied, and what follows it stands behind no word.
  have newline : compileFrom (c :: text).getLast? loops ('\n' :: (d :: text' ++ rest)) =
      '\n' :: compileFrom (some '\n') loops (d :: text' ++ rest) :=
    @compileFrom_plain _ loops ['\n'] (d :: text' ++ rest) rfl fun e here => by
      cases here
      exact second'
  have last : (c :: text ++ '\n' :: d :: text').getLast? = (d :: text').getLast? := by
    simp [List.getLast?_append, List.getLast?_cons]
  have split : c :: text ++ '\n' :: d :: text' ++ rest = c :: text ++ '\n' :: (d :: text' ++ rest) := by simp
  rw [last, split, first.compiled previous loops _ apart (by rintro e ⟨⟩; rfl), newline,
    second.compiled _ loops rest (by decide +kernel) ends, List.append_assoc, List.cons_append]

theorem echo (echo : Echo) : Compiles echo.source (echoCode echo.isEscaped echo.code) := by
  refine .of_step ?_ fun _ _ _ _ _ => step_echo echo
  obtain ⟨marks, content, _, _⟩ := echo
  cases marks <;> exact ⟨_, _, rfl, .inr rfl⟩

theorem directive {name : String} (nonempty : name.toList ≠ []) (names : name.toList.all isAsciiWordChar = true)
    (noVerbatim : name ≠ "verbatim") (arguments : Arguments)
    (output : ∀ loops, directive? loops name (some arguments.code) arguments.isBlank = some (out, loops)) :
    Compiles ('@' :: (name.toList ++ arguments.source)) out := by
  refine .of_step ⟨_, _, rfl, .inl rfl⟩ fun previous loops rest apart _ => ?_
  have compiled : directive? loops name (some arguments.code) (trimBlanks arguments.code).isEmpty = some (out, loops) :=
    output loops
  rw [List.cons_append, List.append_assoc, step_word nonempty names noVerbatim apart (arguments.head_source rest),
    arguments.arguments?_source rest, if_neg (by simp)]
  simp [compiled, Nat.add_comm, Nat.add_assoc]

theorem bare {name : String} (isName : isDirectiveName name = true)
    (output : ∀ loops, directive? loops name none true = some (out, loops)) : Compiles ('@' :: name.toList) out := by
  refine .of_step ⟨_, _, rfl, .inl rfl⟩ fun previous loops rest apart ends => ?_
  have word : rest.head?.any isAsciiWordChar = false := by
    cases rest with
    | nil => rfl
    | cons c rest => rw [ends c rfl]; rfl
  have none : arguments? rest = none := by
    refine arguments?_none ?_
    cases rest with
    | nil => exact nofun
    | cons c rest => rw [ends c rfl]; exact nofun
  rw [List.cons_append, step_name isName apart word, none]
  simp [output, Nat.add_comm]

theorem phpBlock {body : List Char} (noArguments : ∀ rest, arguments? (body ++ rest) = none)
    (found : find? "@endphp".toList (body ++ "@endphp".toList) = some body.length)
    (noWord : ∀ rest, (body ++ rest).head?.any isAsciiWordChar = false) :
    Compiles ("@php".toList ++ body ++ "@endphp".toList) ("<?php".toList ++ body ++ "?>".toList) := by
  refine .of_step ⟨_, _, rfl, .inl rfl⟩ fun previous loops rest apart _ => ?_
  have split : "@php".toList ++ body ++ "@endphp".toList ++ rest =
      "@php".toList ++ (body ++ ("@endphp".toList ++ rest)) := by simp only [List.append_assoc]
  have ends := find?_append rest found
  rw [List.append_assoc] at ends
  rw [split, step_php apart (noWord _) (noArguments _), ← split, block_source rest ends]

end Compiles

theorem trimBlanks_isEmpty {c : Char} (text : List Char) (some : Phrasebook.isBlank c = false) :
    (trimBlanks (c :: text)).isEmpty = false := by
  have front : (c :: text).dropWhile Phrasebook.isBlank = c :: text := List.dropWhile_cons_of_neg (by simp [some])
  rw [trimBlanks, front, dropTrailing, List.reverse_cons, List.dropWhile_append, List.isEmpty_reverse]
  split
  · simp [some]
  · simp

theorem argumentDirectives_names : ∀ name ∈ argumentDirectives, closers.lookup name = none ∧
    wrappers.lookup name = none ∧ name ≠ "forelse" ∧ name ≠ "verbatim" ∧ name.toList ≠ [] ∧
    name.toList.all isAsciiWordChar = true := by
  decide +kernel

namespace Usage

theorem compiles_echo (self : Usage) (marks : Marks) {closer : String} (closes : closer ∈ self.wrapper.closer?)
    (same : closer.toList = marks.closer) :
    Compiles (marks.opener ++ ' ' :: (self.call.source ++ ' ' :: marks.closer))
      (echoCode (marks ≠ .raw) self.call.source) := by
  have echo := Compiles.echo ⟨marks, ' ' :: (self.call.source ++ [' ']), self.find?_closer closes marks same,
    fun _ => by rw [self.call_source]; exact ⟨rfl, rfl⟩⟩
  rw [Echo.code, self.trimBlanks_call] at echo
  simpa [Echo.source, Echo.isEscaped] using echo

theorem compiles_alone (self : Usage) {name : String} {before after : String} (nonempty : name.toList ≠ [])
    (names : name.toList.all isAsciiWordChar = true) (noVerbatim : name ≠ "verbatim")
    (noCloser : closers.lookup name = none) (wraps : wrappers.lookup name = some (before, after)) :
    Compiles ('@' :: (name.toList ++ '(' :: (self.call.source ++ [')'])))
      (before.toList ++ (self.call.source ++ after.toList)) :=
  Compiles.directive nonempty names noVerbatim self.alone fun _ => by
    simp [directive?, noCloser, wraps, alone]

theorem compiles_bare {name after : String} (isName : isDirectiveName name = true)
    (closes : closers.lookup name = some after) : Compiles ('@' :: name.toList) after.toList :=
  .bare isName fun _ => by simp [directive?, closes]

theorem compiles_second (self : Usage) {name : String} (known : name ∈ argumentDirectives) :
    Compiles ('@' :: (name.toList ++ '(' :: ("'a', ".toList ++ self.call.source ++ [')'])))
      ("<?php $__env->directive('".toList ++ (name.toList ++ ("', 'a', ".toList ++
        (self.call.source ++ "); ?>".toList)))) := by
  obtain ⟨noCloser, noWrapper, noLoop, noVerbatim, nonempty, names⟩ := argumentDirectives_names name known
  have some : self.second.isBlank = false := trimBlanks_isEmpty _ (by decide)
  have text : directiveCall name self.second.code false = "<?php $__env->directive('".toList ++ name.toList ++
      "'".toList ++ (", ".toList ++ ("'a', ".toList ++ self.call.source)) ++ "); ?>".toList := rfl
  simp only [List.append_assoc] at text
  exact Compiles.directive nonempty names noVerbatim self.second fun loops => by
    rw [directive?, noCloser, some]
    dsimp only
    rw [noWrapper]
    exact (if_neg noLoop).trans ((if_pos (List.contains_iff_mem.2 known)).trans (by rw [text]; rfl))

theorem compiles_block (self : Usage) (closes : "@endphp" ∈ self.wrapper.closer?) :
    Compiles ("@php".toList ++ (' ' :: (self.call.source ++ [';', ' ']) ++ "@endphp".toList))
      ("<?php".toList ++ (' ' :: (self.call.source ++ [';', ' ']) ++ "?>".toList)) := by
  have apart : ¬ "@endphp".toList <:+: ' ' :: (self.call.source ++ [';']) := by
    rw [List.infix_cons_iff, List.infix_concat_iff]
    rintro (here | there | inside)
    · simp at here
    · obtain ⟨text, same⟩ := there
      have last := congrArg List.getLast? same
      simp at last
    · exact self.closed _ closes inside
  have found : find? "@endphp".toList (' ' :: (self.call.source ++ [';']) ++ ' ' :: ("@endphp".toList ++ [])) =
      some ((' ' :: (self.call.source ++ [';'])).length + 1) := find?_of_not_infix [] (by decide) apart
  rw [← List.append_assoc, ← List.append_assoc]
  refine .phpBlock (fun rest => arguments?_none ?_) (by simpa using found) fun rest => rfl
  rw [self.call_source]
  exact nofun

theorem compiles (self : Usage) : Compiles self.source ("<?php".toList ++ self.code ++ "?>".toList) := by
  unfold source code
  simp only [List.append_assoc]
  cases same : self.wrapper with
  | escaped => exact self.compiles_echo .escaped (show "\x7d\x7d" ∈ self.wrapper.closer? by rw [same]; rfl) rfl
  | tripled => exact self.compiles_echo .tripled (show "\x7d\x7d\x7d" ∈ self.wrapper.closer? by rw [same]; rfl) rfl
  | raw => exact self.compiles_echo .raw (show "!!\x7d" ∈ self.wrapper.closer? by rw [same]; rfl) rfl
  | holds =>
      have opens := @compiles_alone self "if" "<?php if(" "): ?>" (by decide) (by decide) (by decide) (by decide)
        (by decide)
      have lines := opens.line (@compiles_bare "endif" "<?php endif; ?>" (by decide) (by decide))
      simp only [List.append_assoc, List.cons_append] at lines
      exact lines
  | fails =>
      have opens := @compiles_alone self "unless" "<?php if (! (" ")): ?>" (by decide) (by decide) (by decide)
        (by decide) (by decide)
      have lines := opens.line (@compiles_bare "endunless" "<?php endif; ?>" (by decide) (by decide))
      simp only [List.append_assoc, List.cons_append] at lines
      exact lines
  | group =>
      exact @compiles_alone self "php" "<?php (" "); ?>" (by decide) (by decide) (by decide) (by decide) (by decide)
  | block =>
      have block := self.compiles_block (by rw [same]; rfl)
      simp only [List.append_assoc, List.cons_append] at block
      exact block
  | lang =>
      exact @compiles_alone self "lang" "<?php echo app('translator')->get(" "); ?>" (by decide) (by decide) (by decide)
        (by decide) (by decide)
  | directive name known =>
      have directive := self.compiles_second known
      have before : ("@" ++ name ++ "('a', ").toList = '@' :: (name.toList ++ "('a', ".toList) := by
        rw [String.toList_append, String.toList_append]
        rfl
      have written : (" $__env->directive('" ++ name ++ "', 'a', ").toList =
          " $__env->directive('".toList ++ (name.toList ++ "', 'a', ".toList) := by
        rw [String.toList_append, String.toList_append, List.append_assoc]
      change Compiles (("@" ++ name ++ "('a', ").toList ++ (self.call.source ++ ")".toList)) ("<?php".toList ++
        ((" $__env->directive('" ++ name ++ "', 'a', ").toList ++ (self.call.source ++ ("); ".toList ++ "?>".toList))))
      rw [before, written]
      simp only [List.append_assoc, List.cons_append] at directive ⊢
      exact directive

end Usage

theorem compile_usages (usages : List Usage) :
    compile (String.ofList (['\n'].intercalate (usages.map (·.source)))) =
      String.ofList (['\n'].intercalate (usages.map fun usage => "<?php".toList ++ usage.code ++ "?>".toList)) := by
  have lines (first : Usage) (others : List Usage) :
      Compiles (['\n'].intercalate ((first :: others).map (·.source)))
        (['\n'].intercalate ((first :: others).map fun usage => "<?php".toList ++ usage.code ++ "?>".toList)) := by
    induction others generalizing first with
    | nil => simpa using first.compiles
    | cons second others ih => simpa using first.compiles.line (ih second)
  rw [compile, String.toList_ofList]
  cases usages with
  | nil => rw [List.map_nil, List.map_nil, List.intercalate_nil, compileFrom]
  | cons first others =>
      have whole := (lines first others).compiled none Loops.none [] rfl (by simp)
      rw [List.append_nil, compileFrom, List.append_nil] at whole
      rw [whole]

end Phrasebook.Template
