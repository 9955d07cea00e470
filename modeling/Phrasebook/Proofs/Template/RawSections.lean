import Phrasebook.Proofs.Template.Balance

namespace Phrasebook.Template

open Php

def inSection (code post : String) : String := "<?php" ++ code ++ "?>" ++ post

/-- What ends a section or makes the code that follows it no code. -/
def interruptions : List (List Char) := ["?>".toList, "//".toList, "/*".toList, "#".toList, "<<<".toList]

/-- Code without comments and heredocs, in which `?>` stands only inside of strings. -/
inductive Enclosed : List Char → Prop
  | nil : Enclosed []
  | plain {c : Char} {text : List Char} (noQuote : isQuote c = false)
      (goesOn : ∀ mark ∈ interruptions, ¬ mark <+: c :: text) (rest : Enclosed text) : Enclosed (c :: text)
  | string {quote : Char} {inside text : List Char} (quotes : isQuote quote = true) (whole : InQuotes quote inside)
      (rest : Enclosed text) : Enclosed (quote :: (inside ++ quote :: text))

theorem Enclosed.append_plain {front text : List Char}
    (plain : front.all (fun c => !isQuote c && !"?/#<".toList.contains c) = true) (rest : Enclosed text) :
    Enclosed (front ++ text) := by
  have heads : ∀ mark ∈ interruptions, mark.head?.any "?/#<".toList.contains = true := by decide
  induction front with
  | nil => exact rest
  | cons c front ih =>
      simp only [List.all_cons, Bool.and_eq_true, Bool.not_eq_true'] at plain
      have goesOn : ∀ mark ∈ interruptions, ¬ mark <+: c :: (front ++ text) := by
        intro mark interrupts here
        have head := heads mark interrupts
        cases mark with
        | nil => cases head
        | cons d mark =>
            rw [List.cons_prefix_cons] at here
            rw [List.head?_cons, Option.any_some, here.1, plain.1.2] at head
            cases head
      exact .plain plain.1.1 goesOn (ih plain.2)

section Lists

variable {previous : Option Char} {loops : Loops} {text code rest : List Char}

theorem isWordChar_angle : isWordChar '>' = false := by decide +kernel

theorem not_infix_section (whole : ¬ "?>".toList <:+: code) : ¬ "?>".toList <:+: "<?php".toList ++ code := by
  simpa [List.infix_cons_iff] using whole

theorem compileFrom_section (whole : ¬ "?>".toList <:+: code) :
    compileFrom previous loops ("<?php".toList ++ code ++ "?>".toList ++ rest) =
      "<?php".toList ++ code ++ "?>".toList ++ compileFrom none loops rest := by
  have ends : find? "?>".toList ("<?php".toList ++ code ++ "?>".toList ++ rest) =
      some ("<?php".toList ++ code).length := by
    rw [List.append_assoc _ "?>".toList rest]
    exact find?_of_unbordered rest (by decide) (not_infix_section whole)
  have copied : step previous loops ("<?php".toList ++ code ++ "?>".toList ++ rest) =
      .copy ("<?php".toList ++ code ++ "?>".toList) loops := by
    change rawSection loops _ = _
    rw [rawSection, ends]
    exact congrArg (Step.copy · loops) (List.take_left' (by rw [List.length_append]; rfl))
  have last : ("<?php".toList ++ code ++ "?>".toList).getLast? = some '>' := by
    rw [List.getLast?_append]
    rfl
  exact compileFrom_passing last isWordChar_angle copied

theorem compileFrom_text_closing (isText : IsText text) :
    compileFrom previous loops (text ++ ("?>".toList ++ rest)) =
      text ++ ("?>".toList ++ compileFrom none loops rest) := by
  have parts : ∀ opener ∈ openers, ∀ n < 6, opener.take n ≠ [] →
      ¬ opener.take n <:+ "?>".toList ∧ (opener.drop n <+: "?>".toList → opener.drop n = []) ∧
        ¬ "?>".toList <+: opener.drop n := by decide
  have before : ¬ OpensAcross text ("?>".toList ++ rest) := by
    rintro ⟨front, back, opens, some, more, -, begins⟩
    obtain ⟨opener, mem, n, bound, rfl, rfl⟩ := split_opener opens
    obtain ⟨-, ends, goesOn⟩ := parts opener mem n bound some
    rcases List.prefix_or_prefix_of_prefix begins (List.prefix_append "?>".toList rest) with within | beyond
    · exact more (ends within)
    · exact goesOn beyond
  have behind : ¬ OpensAcross "?>".toList rest := by
    rintro ⟨front, back, opens, some, -, within, -⟩
    obtain ⟨opener, mem, n, bound, rfl, rfl⟩ := split_opener opens
    exact (parts opener mem n bound some).1 within
  have closing : IsText "?>".toList := by decide
  have last : lastOf (lastOf previous text) "?>".toList = some '>' := rfl
  rw [compileFrom_text isText before, compileFrom_text closing behind, last, compileFrom_some isWordChar_angle]

end Lists

section Strings

variable {code inner more post : String}

theorem compile_inSection_of_whole (whole : ¬ "?>".toList <:+: code.toList) :
    compile (inSection code post) = inSection code (compile post) := by
  apply String.toList_injective
  simp only [compile, inSection, String.toList_append, String.toList_ofList]
  exact compileFrom_section whole

theorem inSection_split : inSection (inner ++ "?>" ++ more) post = inSection inner (more ++ "?>" ++ post) := by
  simp only [inSection, String.append_assoc]

theorem compile_text_closing (isText : IsText more.toList) :
    compile (more ++ "?>" ++ post) = more ++ "?>" ++ compile post := by
  apply String.toList_injective
  simp only [compile, String.toList_append, String.toList_ofList, List.append_assoc]
  exact compileFrom_text_closing isText

end Strings

/-- The section is copied up to the first `?>` in its code, and the rest is compiled as a template. So it is copied as
a whole if all that follows a `?>` in its code is text, strings or not. -/
theorem compile_inSection (code post : String) :
    (∀ inner more, code = inner ++ "?>" ++ more → ¬ "?>".toList <:+: inner.toList →
      compile (inSection code post) = inSection inner (compile (more ++ "?>" ++ post))) ∧
    ((∀ inner more, code = inner ++ "?>" ++ more → IsText more.toList) →
      compile (inSection code post) = inSection code (compile post)) := by
  constructor
  · rintro inner more rfl whole
    rw [inSection_split, compile_inSection_of_whole whole]
  · intro text
    -- The section ends at the first `?>`; all behind it is text, whose other closing tags open nothing.
    by_cases ends : "?>".toList <:+: code.toList
    · obtain ⟨front, rest, split, whole⟩ := exists_first (by decide) ends
      have split : code = String.ofList front ++ "?>" ++ String.ofList rest := by
        apply String.toList_injective
        simp [split]
      have isText := text _ _ split
      rw [← String.toList_ofList (l := front)] at whole
      rw [split, inSection_split, compile_inSection_of_whole whole, compile_text_closing isText, inSection_split]
    · exact compile_inSection_of_whole ends

theorem isText_of_tails {code : String}
    (texts : ∀ tail ∈ code.toList.tails, "?>".toList <+: tail → IsText (tail.drop 2)) :
    ∀ inner more, code = inner ++ "?>" ++ more → IsText more.toList := by
  rintro inner more rfl
  have tail : "?>".toList ++ more.toList <:+ (inner ++ "?>" ++ more).toList := by
    rw [String.toList_append, String.toList_append, List.append_assoc]
    exact List.suffix_append _ _
  exact texts _ ((List.mem_tails _ _).2 tail) (List.prefix_append _ _)

theorem compile_inSection_texts :
    compile (inSection " echo '?>\x7b\x7b $a \x7d\x7d'; " "@endif") =
      inSection " echo '" "<?php echo e($a); ?>'; ?><?php endif; ?>" ∧
    compile (inSection " f('@if ?> b', \"?>\"); " "@endif") =
      inSection " f('@if ?> b', \"?>\"); " "<?php endif; ?>" := by
  constructor
  · rw [(compile_inSection _ _).1 " echo '" "\x7b\x7b $a \x7d\x7d'; " (by decide +kernel) (by decide +kernel)]
    exact congrArg (inSection " echo '") (by decide +kernel)
  · rw [(compile_inSection _ _).2 (isText_of_tails (by decide +kernel))]
    exact congrArg (inSection _) (by decide +kernel)

/-- PHP reads a string to its end, but the compiler replaces the echo that follows `?>` in it. -/
theorem compile_inSection_quoted :
    Enclosed " echo '?>\x7b\x7b $a \x7d\x7d'; ".toList ∧
    inSection " echo '?>\x7b\x7b $a \x7d\x7d'; " (compile "") = "<?php echo '?>\x7b\x7b $a \x7d\x7d'; ?>" ∧
    ⟨blank, .single, "'?>\x7b\x7b $a \x7d\x7d'".toList⟩ ∈ lex "<?php echo '?>\x7b\x7b $a \x7d\x7d'; ?>".toList ∧
    compile (inSection " echo '?>\x7b\x7b $a \x7d\x7d'; " "") ≠
      inSection " echo '?>\x7b\x7b $a \x7d\x7d'; " (compile "") := by
  refine ⟨?_, by decide +kernel, by decide +kernel, by decide +kernel⟩
  have string : Enclosed ('\'' :: ("?>\x7b\x7b $a \x7d\x7d".toList ++ '\'' :: ("; ".toList ++ []))) :=
    .string rfl (.of_all (by decide +kernel)) (.append_plain (by decide +kernel) .nil)
  exact .append_plain (by decide +kernel : " echo ".toList.all _ = true) string

end Phrasebook.Template
