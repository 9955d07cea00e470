import Phrasebook.Proofs.Template.Tags

namespace Phrasebook.Template

def commented (before body after : String) : String :=
  before ++ "\x7b\x7b--" ++ body ++ "--\x7d\x7d" ++ after

section Marks

variable {previous : Option Char} {loops : Loops} {body code rest : List Char}

theorem isWordChar_brace : isWordChar '\x7d' = false := by decide +kernel

theorem compileFrom_comment (whole : ¬ "--\x7d\x7d".toList <:+: body) :
    compileFrom previous loops ("\x7b\x7b--".toList ++ body ++ "--\x7d\x7d".toList ++ rest) =
      compileFrom none loops rest := by
  have inside : ("\x7b\x7b--".toList ++ body ++ "--\x7d\x7d".toList ++ rest).drop 4 =
      body ++ ("--\x7d\x7d".toList ++ rest) := by
    rw [List.append_assoc, List.append_assoc]
    rfl
  have ends : find? "--\x7d\x7d".toList (body ++ ("--\x7d\x7d".toList ++ rest)) = some body.length :=
    find?_of_unbordered rest (by decide) whole
  have taken : step previous loops ("\x7b\x7b--".toList ++ body ++ "--\x7d\x7d".toList ++ rest) =
      .taking ("\x7b\x7b--".toList ++ body ++ "--\x7d\x7d".toList).length [] loops := by
    change comment loops _ = _
    rw [comment, inside, ends, List.length_append, List.length_append]
    rfl
  have last : ("\x7b\x7b--".toList ++ body ++ "--\x7d\x7d".toList).getLast? = some '\x7d' := by
    rw [List.getLast?_append]
    rfl
  exact compileFrom_passing last isWordChar_brace taken

theorem compileFrom_tripled (first : ¬ "\x7d\x7d\x7d".toList <:+: code ++ "\x7d\x7d".toList) :
    compileFrom previous loops ("\x7b\x7b\x7b".toList ++ code ++ "\x7d\x7d\x7d".toList ++ rest) =
      echoCode true (trimBlanks code) ++ compileFrom none loops rest := by
  have closed : find? Marks.tripled.closer (code ++ Marks.tripled.closer) = some code.length := by
    have found : find? Marks.tripled.closer (code ++ (Marks.tripled.closer ++ [])) = some code.length :=
      find?_of_first [] first
    rwa [List.append_nil] at found
  have taken : step previous loops ("\x7b\x7b\x7b".toList ++ code ++ "\x7d\x7d\x7d".toList ++ rest) =
      .taking ("\x7b\x7b\x7b".toList ++ code ++ "\x7d\x7d\x7d".toList).length (echoCode true (trimBlanks code)) loops :=
    step_echo ⟨.tripled, code, closed, nofun⟩
  have last : ("\x7b\x7b\x7b".toList ++ code ++ "\x7d\x7d\x7d".toList).getLast? = some '\x7d' := by
    rw [List.getLast?_append]
    rfl
  exact compileFrom_passing last isWordChar_brace taken

theorem echo_unclosed {opener closer : List Char} (escaped : Bool) (unclosed : ¬ closer <:+: rest) :
    echo opener closer escaped loops (opener ++ rest) = .copy (opener ++ rest) loops := by
  simp only [echo, List.drop_left, find?_eq_none_iff.2 unclosed]

theorem compileFrom_unclosed (unclosed : ¬ "\x7d\x7d\x7d".toList <:+: rest) :
    compileFrom previous loops ("\x7b\x7b\x7b".toList ++ rest) = "\x7b\x7b\x7b".toList ++ rest := by
  have copied : step previous loops ("\x7b\x7b\x7b".toList ++ rest ++ []) =
      .copy ("\x7b\x7b\x7b".toList ++ rest) loops := by
    rw [List.append_nil]
    exact echo_unclosed true unclosed
  have all := compileFrom_taking (List.cons_ne_nil _ _) copied
  rwa [List.append_nil, compileFrom, List.append_nil] at all

theorem compileFrom_lastBrace {front : List Char} (isText : IsText (front ++ ['\x7b'])) :
    compileFrom previous loops (front ++ '\x7b' :: rest) =
      front ++ compileFrom (lastOf previous front) loops ('\x7b' :: rest) := by
  have alone : IsText front := fun opener opens inside =>
    isText opener opens (inside.trans (List.prefix_append front _).isInfix)
  have ends : front.getLast? ≠ some '\x7b' := by
    intro last
    obtain ⟨start, rfl⟩ := List.getLast?_eq_some_iff.1 last
    refine isText "\x7b\x7b".toList (by simp [openers]) ⟨start, [], ?_⟩
    simp
  exact compileFrom_text alone (not_opensAcross_brace ends (by simp))

end Marks

section Strings

variable {before front body after : String}

theorem compile_commented_of_apart (isText : IsText before.toList) (ends : before.toList.getLast? ≠ some '\x7b')
    (whole : ¬ "--\x7d\x7d".toList <:+: body.toList) :
    compile (commented before body after) = before ++ compile after := by
  have split : (commented before body after).toList = before.toList ++
      ("\x7b\x7b--".toList ++ body.toList ++ "--\x7d\x7d".toList ++ after.toList) := by
    simp only [commented, String.toList_append, List.append_assoc]
  have follows : ∀ d ∈ ("\x7b\x7b--".toList ++ body.toList ++ "--\x7d\x7d".toList ++ after.toList).head?,
      d = '@' ∨ d = '\x7b' := fun d here => by
    cases here
    exact .inr rfl
  rw [compile, split, compileFrom_text isText (not_opensAcross_brace ends follows), compileFrom_comment whole,
    String.ofList_append, String.ofList_toList, compile]

def behindBraces (body after : String) : String := "--" ++ body ++ "--\x7d\x7d" ++ after

theorem toList_commented_brace : (commented (front ++ "\x7b") body after).toList =
    front.toList ++ ("\x7b\x7b\x7b".toList ++ (behindBraces body after).toList) := by
  simp [commented, behindBraces]

theorem compile_commented_brace (isText : IsText (front ++ "\x7b").toList) :
    compile (commented (front ++ "\x7b") body after) = front ++
      String.ofList (compileFrom (lastOf none front.toList) .none
        ("\x7b\x7b\x7b".toList ++ (behindBraces body after).toList)) := by
  rw [String.toList_append] at isText
  have copied : compileFrom none .none
      (front.toList ++ ("\x7b\x7b\x7b".toList ++ (behindBraces body after).toList)) = _ :=
    compileFrom_lastBrace isText
  rw [compile, toList_commented_brace, copied, String.ofList_append, String.ofList_toList]
  rfl

end Strings

/-- A comment leaves nothing behind, whatever it holds, and what follows it is compiled as it would be on its own,
unless the text before it ends in a brace. The three braces then open an echo: the comment is code up to the braces
that close the echo, and text without any. -/
theorem compile_commented {before : String} (body after : String) (isText : IsText before.toList)
    (whole : ¬ "--\x7d\x7d".toList <:+: body.toList) :
    (before.toList.getLast? ≠ some '\x7b' → compile (commented before body after) = before ++ compile after) ∧
    ∀ front, before = front ++ "\x7b" →
      (∀ code rest : String, behindBraces body after = code ++ "\x7d\x7d\x7d" ++ rest →
        ¬ "\x7d\x7d\x7d".toList <:+: code.toList ++ "\x7d\x7d".toList →
        compile (commented before body after) =
          front ++ String.ofList (echoCode true (trimBlanks code.toList)) ++ compile rest) ∧
      (¬ "\x7d\x7d\x7d".toList <:+: (behindBraces body after).toList →
        compile (commented before body after) = commented before body after) := by
  refine ⟨fun ends => compile_commented_of_apart isText ends whole, ?_⟩
  rintro front rfl
  rw [compile_commented_brace isText]
  constructor
  · intro code rest split first
    rw [split, String.toList_append, String.toList_append, ← List.append_assoc, ← List.append_assoc,
      compileFrom_tripled first, String.ofList_append, String.append_assoc, compile]
  · intro unclosed
    apply String.toList_injective
    rw [compileFrom_unclosed unclosed, toList_commented_brace, String.toList_append, String.toList_ofList]

theorem compile_commented_texts :
    compile (commented "a <" " \x7b\x7b __('x') \x7d\x7d @if <?php -" "\x7b\x7b $b \x7d\x7d") =
      "a <<?php echo e($b); ?>" ∧
    compile (commented "\x7b" " __('a') " "\x7b\x7b\x7b $b \x7d\x7d\x7d") =
      "<?php echo e(-- __('a') --\x7d\x7d\x7b\x7b\x7b $b); ?>" ∧
    compile (commented "\x7b" " c " "\x7b\x7b $b \x7d\x7d") = "\x7b\x7b\x7b-- c --\x7d\x7d\x7b\x7b $b \x7d\x7d" := by
  have brace : IsText "\x7b".toList := by decide +kernel
  refine ⟨?_, ?_, ?_⟩
  · have apart : "a <".toList.getLast? ≠ some '\x7b' := by decide +kernel
    rw [(compile_commented _ _ (by decide +kernel) (by decide +kernel)).1 apart]
    decide +kernel
  · have code := ((compile_commented " __('a') " "\x7b\x7b\x7b $b \x7d\x7d\x7d" brace (by decide +kernel)).2 "" rfl).1
      "-- __('a') --\x7d\x7d\x7b\x7b\x7b $b " "" (by decide +kernel) (by decide +kernel)
    exact code.trans (by decide +kernel)
  · exact ((compile_commented " c " "\x7b\x7b $b \x7d\x7d" brace (by decide +kernel)).2 "" rfl).2
      (by decide +kernel)

/-- A comment that is preceded by a brace is copied, with an echo behind it. -/
theorem compile_commented_behindBrace :
    IsText "\x7b".toList ∧ ¬ "--\x7d\x7d".toList <:+: " c ".toList ∧
    commented "\x7b" " c " "\x7b\x7b $a \x7d\x7d" = "\x7b\x7b\x7b-- c --\x7d\x7d\x7b\x7b $a \x7d\x7d" ∧
    "\x7b" ++ compile "\x7b\x7b $a \x7d\x7d" = "\x7b<?php echo e($a); ?>" ∧
    compile (commented "\x7b" " c " "\x7b\x7b $a \x7d\x7d") ≠ "\x7b" ++ compile "\x7b\x7b $a \x7d\x7d" :=
  ⟨by decide +kernel, by decide +kernel, by decide +kernel, by decide +kernel, by decide +kernel⟩

end Phrasebook.Template
