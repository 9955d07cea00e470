import Phrasebook.Proofs.Template.Comments
import Phrasebook.Proofs.Template.RawSections

namespace Phrasebook.Template

open Php

inductive Construct
  | comment
  | raw
  | tripled
  | escaped
  | php
  | verbatim
  | phpBlock
  deriving DecidableEq, Repr

namespace Construct

def opener : Construct → List Char
  | comment => "\x7b\x7b--".toList
  | raw => "\x7b!!".toList
  | tripled => "\x7b\x7b\x7b".toList
  | escaped => "\x7b\x7b".toList
  | php => "<?php".toList
  | verbatim => "@verbatim".toList
  | phpBlock => "@php".toList

def closer : Construct → List Char
  | comment => "--\x7d\x7d".toList
  | raw => "!!\x7d".toList
  | tripled => "\x7d\x7d\x7d".toList
  | escaped => "\x7d\x7d".toList
  | php => "?>".toList
  | verbatim => "@endverbatim".toList
  | phpBlock => "@endphp".toList

/-- The opener opens this construct and no other one if `rest` stands behind it. -/
def Opens (rest : List Char) : Construct → Prop
  | escaped => ¬ "\x7b".toList <+: rest ∧ ¬ "--".toList <+: rest
  | verbatim => rest.head?.any isAsciiWordChar = false
  | phpBlock => rest.head?.any isAsciiWordChar = false ∧
      (rest.dropWhile fun c => c == ' ' || c == '\t').head? ≠ some '('
  | _ => True

end Construct

section Marks

variable {previous : Option Char} {loops : Loops} {rest : List Char}

theorem block_unclosed {opener terminator before after : List Char} (unclosed : ¬ terminator <:+: rest) :
    block terminator before after opener.length loops (opener ++ rest) = .copy (opener ++ rest) loops := by
  simp only [block, List.drop_left, find?_eq_none_iff.2 unclosed]

theorem Construct.step_unclosed (construct : Construct) (opens : construct.Opens rest)
    (unclosed : ¬ construct.closer <:+: rest) (apart : previous.any isWordChar = false) :
    step previous loops (construct.opener ++ rest) = .copy (construct.opener ++ rest) loops := by
  cases construct with
  | comment =>
      have none : find? "--\x7d\x7d".toList (("\x7b\x7b--".toList ++ rest).drop 4) = none :=
        find?_eq_none_iff.2 unclosed
      change Template.comment loops ("\x7b\x7b--".toList ++ rest) = _
      rw [Template.comment, none]
      rfl
  | raw => exact echo_unclosed false unclosed
  | tripled => exact echo_unclosed true unclosed
  | escaped =>
      have opener := @step_braces previous loops _ (begins_eq_false_iff.2 opens.1) (begins_eq_false_iff.2 opens.2)
      exact opener.trans (echo_unclosed true unclosed)
  | php =>
      have none : find? "?>".toList ("<?php".toList ++ rest) = none :=
        find?_eq_none_iff.2 (not_infix_section unclosed)
      change rawSection loops ("<?php".toList ++ rest) = _
      rw [rawSection, none]
      rfl
  | verbatim => exact (step_verbatim apart opens).trans (block_unclosed unclosed)
  | phpBlock => exact (step_php apart opens.1 (arguments?_none opens.2)).trans (block_unclosed unclosed)

end Marks

def bareDirectives : List String := ["verbatim", "php", "empty"] ++ closers.map (·.1)

section Unbalanced

variable {previous : Option Char} {loops : Loops} {gap rest : List Char} {name : String}

theorem directive?_bare (noBare : name ∉ bareDirectives) : directive? loops name none true = none := by
  rw [bareDirectives, List.mem_append, not_or, List.mem_map] at noBare
  have noCloser : closers.lookup name = none := by
    rw [List.lookup_eq_none_iff]
    rintro ⟨other, text⟩ mem
    exact bne_iff_ne.2 fun same => noBare.2 ⟨_, mem, same.symm⟩
  have noEmpty : name ≠ "empty" := fun same => noBare.1 (by simp [same])
  unfold directive?
  rw [noCloser]
  exact if_neg noEmpty

theorem arguments?_unbalanced (blanks : gap.all (fun c => c == ' ' || c == '\t') = true)
    (unbalanced : ¬ ∃ code after, Balanced code ∧ rest = code ++ ')' :: after) :
    arguments? (gap ++ '(' :: rest) = none := by
  have read : (gap ++ '(' :: rest).takeWhile (fun c => c == ' ' || c == '\t') = gap :=
    takeWhile_append_of_head blanks rfl
  have unclosed : matching? ('(' :: rest) = none := by
    rw [matching?, closing?_eq_none_iff.2 unbalanced]
    rfl
  simp only [arguments?, read, List.drop_left, unclosed]
  rfl

theorem compileFrom_unbalanced (isName : isDirectiveName name = true) (noBare : name ∉ bareDirectives)
    (apart : previous.any isWordChar = false) (blanks : gap.all (fun c => c == ' ' || c == '\t') = true)
    (unbalanced : ¬ ∃ code after, Balanced code ∧ rest = code ++ ')' :: after) :
    compileFrom previous loops ('@' :: name.toList ++ (gap ++ '(' :: rest)) =
      '@' :: name.toList ++ (gap ++ '(' :: compileFrom none loops rest) := by
  have behind : (gap ++ '(' :: rest).head?.any isAsciiWordChar = false := by
    cases gap with
    | nil => rfl
    | cons c gap =>
        rw [List.all_cons, Bool.and_eq_true, Bool.or_eq_true, beq_iff_eq, beq_iff_eq] at blanks
        rcases blanks.1 with rfl | rfl <;> rfl
  have copied : step previous loops ('@' :: name.toList ++ (gap ++ '(' :: rest)) =
      .copy ('@' :: name.toList) loops := by
    rw [List.cons_append, step_name isName apart behind, arguments?_unbalanced blanks unbalanced,
      directive?_bare noBare]
  have inert : (gap ++ ['(']).all isInert = true := by
    have blank : gap.all isInert = true := all_isInert (by decide) blanks
    rw [List.all_append, blank]
    rfl
  have passed : compileFrom ('@' :: name.toList).getLast? loops (gap ++ ['('] ++ rest) =
      gap ++ ['('] ++ compileFrom (lastOf ('@' :: name.toList).getLast? (gap ++ ['('])) loops rest :=
    compileFrom_inert inert
  rw [lastOf, List.getLast?_concat, Option.some_or, compileFrom_some (by decide +kernel)] at passed
  simp only [List.append_assoc, List.singleton_append] at passed
  rw [compileFrom_taking (List.cons_ne_nil _ _) copied, passed]

end Unbalanced

/-- Behind plain text that does not end in a word, an opener without its closer is text and so is all that follows it.
A directive that means nothing without arguments and whose arguments do not end is text up to its parenthesis, behind
which the compiler goes on as at the beginning of a template. -/
theorem compile_unterminated {pre rest : String} (inert : pre.toList.all isInert = true)
    (apart : pre.toList.getLast?.any isWordChar = false) :
    (∀ construct : Construct, construct.Opens rest.toList → ¬ construct.closer <:+: rest.toList →
      compile (pre ++ String.ofList construct.opener ++ rest) = pre ++ String.ofList construct.opener ++ rest) ∧
    ∀ name gap : String, isDirectiveName name = true → name ∉ bareDirectives →
      gap.toList.all (fun c => c == ' ' || c == '\t') = true →
      (¬ ∃ code after, Balanced code ∧ rest.toList = code ++ ')' :: after) →
      compile (pre ++ "@" ++ name ++ gap ++ "(" ++ rest) = pre ++ "@" ++ name ++ gap ++ "(" ++ compile rest := by
  have behind (text : List Char) : compileFrom none .none (pre.toList ++ text) =
      pre.toList ++ compileFrom pre.toList.getLast? .none text := by
    rw [compileFrom_inert inert, lastOf, Option.or_none]
  constructor
  · intro construct opens unclosed
    apply String.toList_injective
    simp only [compile, String.toList_append, String.toList_ofList, List.append_assoc]
    rw [behind, compileFrom_rest (construct.step_unclosed opens unclosed apart)]
  · intro name gap isName noBare blanks unbalanced
    have passed := @compileFrom_unbalanced _ .none _ _ _ isName noBare apart blanks unbalanced
    apply String.toList_injective
    simp only [compile, String.toList_append, String.toList_ofList, List.append_assoc]
    rw [behind]
    exact congrArg (pre.toList ++ ·) passed

theorem compile_unterminated_echoes :
    "a ".toList.all isInert = true ∧ "a ".toList.getLast?.any isWordChar = false ∧
    Construct.escaped.Opens " $a @endif".toList ∧ ¬ Construct.escaped.closer <:+: " $a @endif".toList ∧
    compile ("a " ++ String.ofList Construct.escaped.opener ++ " $a @endif") = "a \x7b\x7b $a @endif" ∧
    "if" ∉ bareDirectives ∧
    (¬ ∃ code after, Balanced code ∧ "')' \x7b\x7b $b \x7d\x7d".toList = code ++ ')' :: after) ∧
    compile ("a " ++ "@" ++ "if" ++ " " ++ "(" ++ "')' \x7b\x7b $b \x7d\x7d") =
      "a @if (')' <?php echo e($b); ?>" := by
  have inert : "a ".toList.all isInert = true := by decide
  have apart : "a ".toList.getLast?.any isWordChar = false := by decide +kernel
  have opens : Construct.escaped.Opens " $a @endif".toList := ⟨by decide, by decide⟩
  have unclosed : ¬ Construct.escaped.closer <:+: " $a @endif".toList := by decide
  have noBare : "if" ∉ bareDirectives := by decide
  have unbalanced : ¬ ∃ code after, Balanced code ∧ "')' \x7b\x7b $b \x7d\x7d".toList = code ++ ')' :: after :=
    closing?_eq_none_iff.1 (by decide +kernel)
  refine ⟨inert, apart, opens, unclosed, ?_, noBare, unbalanced, ?_⟩
  · exact (compile_unterminated inert apart).1 .escaped opens unclosed
  · rw [(compile_unterminated inert apart).2 "if" " " (by decide) noBare (by decide) unbalanced]
    decide +kernel

end Phrasebook.Template
