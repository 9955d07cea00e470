import Phrasebook.Template.Directive
import Phrasebook.Proofs.Php.Expressions

namespace Phrasebook.Template

open Php

inductive Test
  | holds
  | fails
  | isset
  | empty
  deriving DecidableEq, Repr

inductive Loop
  | counting
  | iterating
  | repeating
  deriving DecidableEq, Repr

namespace Test

def slot : Test → Slot
  | holds => .condition
  | fails => .negated
  | isset => .arguments
  | empty => .arguments

def around : Test → String × String
  | holds => (" if(", "): ")
  | fails => (" if (! (", ")): ")
  | isset => (" if(isset(", ")): ")
  | empty => (" if(empty(", ")): ")

end Test

namespace Loop

def keyword : Loop → String
  | counting => "for"
  | iterating => "foreach"
  | repeating => "while"

def endKeyword : Loop → String
  | counting => "endfor"
  | iterating => "endforeach"
  | repeating => "endwhile"

def slot : Loop → Slot
  | counting => .counting
  | iterating => .iterating
  | repeating => .condition

end Loop

inductive Section
  | echo (escaped : Bool) (code : List Char)
  | test (test : Test) (code : List Char)
  | elseif (code : List Char)
  | otherwise
  | endif
  | loop (loop : Loop) (code : List Char)
  | endloop (loop : Loop)
  | forelse (number : Nat) (code : List Char)
  | forelseEmpty (number : Nat)
  | directive (name : String) (code : List Char)
  | bareDirective (name : String)
  deriving DecidableEq, Repr

def flagWord (number : Nat) : String := "__empty_" ++ toString number

namespace Section

def text : Section → List Char
  | echo true code => " echo e(".toList ++ code ++ "); ".toList
  | echo false code => " echo ".toList ++ code ++ "; ".toList
  | test kind code => kind.around.1.toList ++ code ++ kind.around.2.toList
  | elseif code => " elseif(".toList ++ code ++ "): ".toList
  | otherwise => " else: ".toList
  | endif => " endif; ".toList
  | loop kind code => ' ' :: kind.keyword.toList ++ '(' :: code ++ "): ".toList
  | endloop kind => ' ' :: kind.endKeyword.toList ++ "; ".toList
  | forelse number code =>
    ' ' :: flagName number ++ " = true; foreach(".toList ++ code ++ "): ".toList ++ flagName number ++
      " = false; ".toList
  | forelseEmpty number => " endforeach; if (".toList ++ flagName number ++ "): ".toList
  | directive name code => " $__env->directive('".toList ++ name.toList ++ "', ".toList ++ code ++ "); ".toList
  | bareDirective name => " $__env->directive('".toList ++ name.toList ++ "'); ".toList

def source (self : Section) : List Char := "<?php".toList ++ self.text ++ "?>".toList

end Section

def blank : List Skipped := [⟨.blank, [' ']⟩]

def slotTokens (slot : Slot) (code : List Char) (rest : List Token) : List Token :=
  slot.tokens code ++ slot.stopAfter code :: rest

def Test.tokens (code : List Char) (rest : List Token) : Test → List Token
  | holds => .symbol [] "(" :: slotTokens .condition code rest
  | fails => .symbol blank "(" :: .symbol [] "!" :: .symbol blank "(" ::
      slotTokens .negated code (.symbol [] ")" :: rest)
  | isset => .symbol [] "(" :: .word [] "isset" :: .symbol [] "(" ::
      slotTokens .arguments code (.symbol [] ")" :: rest)
  | empty => .symbol [] "(" :: .word [] "empty" :: .symbol [] "(" ::
      slotTokens .arguments code (.symbol [] ")" :: rest)

def flagTokens (before : List Skipped) (number : Nat) (flag : Bool) (rest : List Token) : List Token :=
  .symbol before "$" :: .word [] (flagWord number) :: .symbol blank "=" :: .word blank (toString flag) ::
    .symbol [] ";" :: rest

def directiveTokens (before : List Skipped) (name : String) (rest : List Token) : List Token :=
  .symbol before "$" :: .word [] "__env" :: .symbol [] "->" :: .word [] "directive" :: .symbol [] "(" ::
    .single ('\'' :: (name.toList ++ ['\''])) :: rest

namespace Section

/-- The tokens of a section, `before` being what separates the first one from the code before it. -/
def tokens (before : List Skipped) (rest : List Token) : Section → List Token
  | echo true code => .word before "echo" :: .word blank "e" :: .symbol [] "(" ::
      slotTokens .arguments code (.symbol [] ";" :: rest)
  | echo false code => .word before "echo" :: slotTokens .printed code rest
  | test kind code => .word before "if" :: kind.tokens code (.symbol [] ":" :: rest)
  | elseif code => .word before "elseif" :: .symbol [] "(" :: slotTokens .condition code (.symbol [] ":" :: rest)
  | otherwise => .word before "else" :: .symbol [] ":" :: rest
  | endif => .word before "endif" :: .symbol [] ";" :: rest
  | loop kind code => .word before kind.keyword :: .symbol [] "(" ::
      slotTokens kind.slot code (.symbol [] ":" :: rest)
  | endloop kind => .word before kind.endKeyword :: .symbol [] ";" :: rest
  | forelse number code => flagTokens before number true (.word blank "foreach" :: .symbol [] "(" ::
      slotTokens .iterating code (.symbol [] ":" :: flagTokens blank number false rest))
  | forelseEmpty number => .word before "endforeach" :: .symbol [] ";" :: .word blank "if" :: .symbol blank "(" ::
      .symbol [] "$" :: .word [] (flagWord number) :: .symbol [] ")" :: .symbol [] ":" :: rest
  | directive name code => directiveTokens before name (.symbol [] "," ::
      slotTokens .further code (.symbol [] ";" :: rest))
  | bareDirective name => directiveTokens before name (.symbol [] ")" :: .symbol [] ";" :: rest)

def Fits : Section → Prop
  | echo true code => Slot.arguments.Fits code
  | echo false code => Slot.printed.Fits code
  | test kind code => kind.slot.Fits code
  | elseif code => Slot.condition.Fits code
  | loop kind code => kind.slot.Fits code
  | forelse _ code => Slot.iterating.Fits code
  | directive name code => name.toList.all isNameChar = true ∧ Slot.further.Fits code
  | bareDirective name => name.toList.all isNameChar = true
  | _ => True

end Section

section Lexing

variable {before : List Skipped} {code rest : List Char} {slot : Slot}

theorem lexFrom_parenthesis (gap : List Skipped) (rest : List Char) :
    lexFrom [] gap (')' :: rest) = .symbol gap ")" :: lexFrom [] [] rest :=
  lexFrom_symbol ")" gap rest (by decide) rfl rfl

theorem lexFrom_opening (gap : List Skipped) (rest : List Char) :
    lexFrom [] gap ('(' :: rest) = .symbol gap "(" :: lexFrom [] [] rest :=
  lexFrom_symbol "(" gap rest (by decide) rfl rfl

theorem lexFrom_dollar (gap : List Skipped) (rest : List Char) :
    lexFrom [] gap ('$' :: rest) = .symbol gap "$" :: lexFrom [] [] rest :=
  lexFrom_symbol "$" gap rest (by decide) rfl rfl

theorem lexFrom_semicolon (gap : List Skipped) (rest : List Char) :
    lexFrom [] gap (';' :: ' ' :: rest) = .symbol gap ";" :: lexFrom [] blank rest := by
  have semicolon : lexFrom [] gap (';' :: ' ' :: rest) = .symbol gap ";" :: lexFrom [] [] (' ' :: rest) :=
    lexFrom_symbol ";" gap (' ' :: rest) (by decide) rfl rfl
  rw [semicolon, lexFrom_blank]
  rfl

theorem lexFrom_colon (rest : List Char) :
    lexFrom [] [] (':' :: ' ' :: rest) = .symbol [] ":" :: lexFrom [] blank rest := by
  have colon : lexFrom [] [] (':' :: ' ' :: rest) = .symbol [] ":" :: lexFrom [] [] (' ' :: rest) :=
    lexFrom_symbol ":" [] (' ' :: rest) (by decide) rfl rfl
  rw [colon, lexFrom_blank]
  rfl

theorem lexFrom_keyword (keyword : String) (before : List Skipped) (rest : List Char)
    (word : isWord keyword.toList = true) :
    lexFrom [] before (keyword.toList ++ '(' :: rest) =
      .word before keyword :: .symbol [] "(" :: lexFrom [] [] rest := by
  rw [lexFrom_word keyword _ _ word rfl, lexFrom_opening]

theorem lexFrom_slot (fits : slot.Fits code) (stop : slot.stop = ")") :
    lexFrom [] [] (slot.lead ++ (code ++ ')' :: rest)) = slotTokens slot code (lexFrom [] [] rest) := by
  have lexes := fits.lexes rest
  rw [stop] at lexes
  change lexFrom [] [] (slot.lead ++ code ++ [')'] ++ rest) = _ ++ lexFrom [] _ (')' :: rest) at lexes
  rw [lexFrom_parenthesis] at lexes
  rw [slotTokens, Slot.stopAfter, stop, ← lexes]
  simp

namespace Section

theorem lexes_escaped (fits : Slot.arguments.Fits code) :
    lexFrom [] before ((echo true code).text ++ rest) =
      (echo true code).tokens (before ++ blank) (lexFrom [] blank rest) := by
  unfold text
  rw [List.append_assoc, List.append_assoc]
  change lexFrom [] before (' ' :: ("echo".toList ++ ' ' :: ("e".toList ++ '(' ::
    (Slot.arguments.lead ++ (code ++ ')' :: ';' :: ' ' :: rest))))) = _
  rw [lexFrom_blank, lexFrom_word "echo" _ _ rfl rfl, lexFrom_blank,
    lexFrom_keyword "e" _ _ rfl, lexFrom_slot fits rfl, lexFrom_semicolon]
  rfl

theorem lexes_raw (fits : Slot.printed.Fits code) :
    lexFrom [] before ((echo false code).text ++ rest) =
      (echo false code).tokens (before ++ blank) (lexFrom [] blank rest) := by
  have inner : lexFrom [] [] (' ' :: (code ++ ';' :: ' ' :: rest)) =
      slotTokens .printed code (lexFrom [] blank rest) := by
    have lexes := fits.lexes (' ' :: rest)
    change lexFrom [] [] (Slot.printed.lead ++ code ++ [';'] ++ ' ' :: rest) =
      _ ++ lexFrom [] _ (';' :: ' ' :: rest) at lexes
    rw [lexFrom_semicolon] at lexes
    rw [slotTokens, Slot.stopAfter, Slot.stop, ← lexes]
    simp [Slot.lead]
  unfold text
  rw [List.append_assoc, List.append_assoc]
  change lexFrom [] before (' ' :: ("echo".toList ++ ' ' :: (code ++ ';' :: ' ' :: rest))) = _
  rw [lexFrom_blank, lexFrom_word "echo" _ _ rfl rfl, inner]
  rfl

theorem lexes_test (kind : Test) (fits : kind.slot.Fits code) :
    lexFrom [] before ((test kind code).text ++ rest) =
      (test kind code).tokens (before ++ blank) (lexFrom [] blank rest) := by
  unfold text
  rw [List.append_assoc, List.append_assoc]
  have slot (rest : List Char) : lexFrom [] [] (kind.slot.lead ++ (code ++ ')' :: rest)) =
      slotTokens kind.slot code (lexFrom [] [] rest) := lexFrom_slot fits (by cases kind <;> rfl)
  cases kind with
  | holds =>
      change lexFrom [] before (' ' :: ("if".toList ++ '(' ::
        (Test.holds.slot.lead ++ (code ++ ')' :: ':' :: ' ' :: rest)))) = _
      rw [lexFrom_blank, lexFrom_keyword "if" _ _ rfl, slot, lexFrom_colon]
      rfl
  | fails =>
      change lexFrom [] before (' ' :: ("if".toList ++ ' ' :: '(' :: ("!".toList ++ ' ' :: '(' ::
        (Test.fails.slot.lead ++ (code ++ ')' :: ')' :: ':' :: ' ' :: rest))))) = _
      rw [lexFrom_blank, lexFrom_word "if" _ _ rfl rfl, lexFrom_blank, lexFrom_opening,
        lexFrom_symbol "!" _ _ (by decide) rfl rfl, lexFrom_blank, lexFrom_opening, slot, lexFrom_parenthesis,
        lexFrom_colon]
      rfl
  | isset =>
      change lexFrom [] before (' ' :: ("if".toList ++ '(' :: ("isset".toList ++ '(' ::
        (Test.isset.slot.lead ++ (code ++ ')' :: ')' :: ':' :: ' ' :: rest))))) = _
      rw [lexFrom_blank, lexFrom_keyword "if" _ _ rfl,
        lexFrom_keyword "isset" _ _ rfl, slot, lexFrom_parenthesis, lexFrom_colon]
      rfl
  | empty =>
      change lexFrom [] before (' ' :: ("if".toList ++ '(' :: ("empty".toList ++ '(' ::
        (Test.empty.slot.lead ++ (code ++ ')' :: ')' :: ':' :: ' ' :: rest))))) = _
      rw [lexFrom_blank, lexFrom_keyword "if" _ _ rfl,
        lexFrom_keyword "empty" _ _ rfl, slot, lexFrom_parenthesis, lexFrom_colon]
      rfl

theorem lexes_elseif (fits : Slot.condition.Fits code) :
    lexFrom [] before ((elseif code).text ++ rest) =
      (elseif code).tokens (before ++ blank) (lexFrom [] blank rest) := by
  unfold text
  rw [List.append_assoc, List.append_assoc]
  change lexFrom [] before (' ' :: ("elseif".toList ++ '(' ::
    (Slot.condition.lead ++ (code ++ ')' :: ':' :: ' ' :: rest)))) = _
  rw [lexFrom_blank, lexFrom_keyword "elseif" _ _ rfl, lexFrom_slot fits rfl, lexFrom_colon]
  rfl

theorem lexes_otherwise :
    lexFrom [] before (otherwise.text ++ rest) = otherwise.tokens (before ++ blank) (lexFrom [] blank rest) := by
  change lexFrom [] before (' ' :: ("else".toList ++ ':' :: ' ' :: rest)) = _
  rw [lexFrom_blank, lexFrom_word "else" _ _ rfl rfl, lexFrom_colon]
  rfl

theorem lexes_endif :
    lexFrom [] before (endif.text ++ rest) = endif.tokens (before ++ blank) (lexFrom [] blank rest) := by
  change lexFrom [] before (' ' :: ("endif".toList ++ ';' :: ' ' :: rest)) = _
  rw [lexFrom_blank, lexFrom_word "endif" _ _ rfl rfl, lexFrom_semicolon]
  rfl

theorem lexes_loop (kind : Loop) (fits : kind.slot.Fits code) :
    lexFrom [] before ((loop kind code).text ++ rest) =
      (loop kind code).tokens (before ++ blank) (lexFrom [] blank rest) := by
  unfold text
  rw [List.append_assoc, List.append_assoc]
  change lexFrom [] before (' ' :: (kind.keyword.toList ++ '(' :: (code ++ ')' :: ':' :: ' ' :: rest))) = _
  have slot : lexFrom [] [] (kind.slot.lead ++ (code ++ ')' :: ':' :: ' ' :: rest)) =
      slotTokens kind.slot code (lexFrom [] [] (':' :: ' ' :: rest)) := lexFrom_slot fits (by cases kind <;> rfl)
  rw [show kind.slot.lead = [] by cases kind <;> rfl, List.nil_append] at slot
  rw [lexFrom_blank, lexFrom_keyword kind.keyword _ _ (by cases kind <;> rfl), slot, lexFrom_colon]
  rfl

theorem lexes_endloop (kind : Loop) :
    lexFrom [] before ((endloop kind).text ++ rest) =
      (endloop kind).tokens (before ++ blank) (lexFrom [] blank rest) := by
  unfold text
  rw [List.append_assoc]
  change lexFrom [] before (' ' :: (kind.endKeyword.toList ++ ';' :: ' ' :: rest)) = _
  rw [lexFrom_blank, lexFrom_word kind.endKeyword _ _ (by cases kind <;> rfl) rfl, lexFrom_semicolon]
  rfl

end Section

theorem flagWord_names (number : Nat) : (flagWord number).toList.all isNameChar = true := by
  unfold flagWord
  rw [String.toList_append, List.all_append, Nat.toString_eq_ofList_toDigits]
  refine Bool.and_eq_true_iff.2 ⟨rfl, List.all_eq_true.2 fun c mem => ?_⟩
  rw [String.toList_ofList] at mem
  have digit := Nat.isDigit_of_mem_toDigits (Nat.succ_pos 9) (Nat.le_refl 10) mem
  simp [isNameChar, digit]

theorem lexFrom_flag (gap : List Skipped) (number : Nat) (ends : rest.head?.any isNameChar = false) :
    lexFrom [] gap (flagName number ++ rest) =
      .symbol gap "$" :: .word [] (flagWord number) :: lexFrom [] [] rest := by
  have first : (flagWord number).toList = '_' :: ("_empty_".toList ++ (toString number).toList) := by
    unfold flagWord
    rw [String.toList_append]
    rfl
  have split : flagName number ++ rest = '$' :: ((flagWord number).toList ++ rest) := by
    unfold flagName
    rw [first]
    rfl
  have word : isWord (flagWord number).toList = true := by
    rw [isWord, flagWord_names, first]
    rfl
  rw [split, lexFrom_dollar, lexFrom_word (flagWord number) _ _ word ends]

theorem lexFrom_setFlag (gap : List Skipped) (number : Nat) (flag : Bool) :
    lexFrom [] gap (flagName number ++ ' ' :: '=' :: ' ' :: ((toString flag).toList ++ ';' :: ' ' :: rest)) =
      flagTokens gap number flag (lexFrom [] blank rest) := by
  rw [lexFrom_flag gap number rfl, lexFrom_blank]
  change _ :: _ :: lexFrom [] _ ("=".toList ++ ' ' :: ((toString flag).toList ++ ';' :: ' ' :: rest)) = _
  rw [lexFrom_symbol "=" _ _ (by decide) rfl rfl, lexFrom_blank,
    lexFrom_word (toString flag) _ _ (by cases flag <;> rfl) rfl, lexFrom_semicolon]
  rfl

theorem lexFrom_directive (gap : List Skipped) {name : String} (names : name.toList.all isNameChar = true) :
    lexFrom [] gap ("$__env->directive('".toList ++ (name.toList ++ '\'' :: rest)) =
      directiveTokens gap name (lexFrom [] [] rest) := by
  change lexFrom [] gap ('$' :: ("__env".toList ++ ("->".toList ++ ("directive".toList ++ '(' ::
    '\'' :: (name.toList ++ '\'' :: rest))))) = _
  rw [lexFrom_dollar, lexFrom_word "__env" _ _ rfl rfl,
    lexFrom_symbol "->" _ _ (by decide) rfl rfl, lexFrom_keyword "directive" _ _ rfl,
    lexFrom_single _ names]
  rfl

namespace Section

theorem lexes_forelse (number : Nat) (fits : Slot.iterating.Fits code) :
    lexFrom [] before ((forelse number code).text ++ rest) =
      (forelse number code).tokens (before ++ blank) (lexFrom [] blank rest) := by
  unfold text
  simp only [List.append_assoc, List.cons_append]
  change lexFrom [] before (' ' :: (flagName number ++ ' ' :: '=' :: ' ' :: ((toString true).toList ++
    ';' :: ' ' :: ("foreach".toList ++ '(' :: (Slot.iterating.lead ++ (code ++
      ')' :: ':' :: ' ' :: (flagName number ++ ' ' :: '=' :: ' ' :: ((toString false).toList ++
        ';' :: ' ' :: rest)))))))) = _
  rw [lexFrom_blank, lexFrom_setFlag, lexFrom_keyword "foreach" _ _ rfl, lexFrom_slot fits rfl,
    lexFrom_colon, lexFrom_setFlag]
  rfl

theorem lexes_forelseEmpty (number : Nat) :
    lexFrom [] before ((forelseEmpty number).text ++ rest) =
      (forelseEmpty number).tokens (before ++ blank) (lexFrom [] blank rest) := by
  unfold text
  simp only [List.append_assoc]
  change lexFrom [] before (' ' :: ("endforeach".toList ++ ';' :: ' ' :: ("if".toList ++ ' ' :: '(' ::
    (flagName number ++ ')' :: ':' :: ' ' :: rest)))) = _
  rw [lexFrom_blank, lexFrom_word "endforeach" _ _ rfl rfl, lexFrom_semicolon,
    lexFrom_word "if" _ _ rfl rfl, lexFrom_blank, lexFrom_opening, lexFrom_flag _ _ rfl,
    lexFrom_parenthesis, lexFrom_colon]
  rfl

theorem lexes_directive {name : String} (names : name.toList.all isNameChar = true) (fits : Slot.further.Fits code) :
    lexFrom [] before ((directive name code).text ++ rest) =
      (directive name code).tokens (before ++ blank) (lexFrom [] blank rest) := by
  unfold text
  simp only [List.append_assoc]
  change lexFrom [] before (' ' :: ("$__env->directive('".toList ++ (name.toList ++ '\'' :: (",".toList ++
    (Slot.further.lead ++ (code ++ ')' :: ';' :: ' ' :: rest)))))) = _
  rw [lexFrom_blank, lexFrom_directive _ names, lexFrom_symbol "," _ _ (by decide) rfl rfl, lexFrom_slot fits rfl,
    lexFrom_semicolon]
  rfl

theorem lexes_bareDirective {name : String} (names : name.toList.all isNameChar = true) :
    lexFrom [] before ((bareDirective name).text ++ rest) =
      (bareDirective name).tokens (before ++ blank) (lexFrom [] blank rest) := by
  unfold text
  simp only [List.append_assoc]
  change lexFrom [] before (' ' :: ("$__env->directive('".toList ++ (name.toList ++ '\'' ::
    ')' :: ';' :: ' ' :: rest))) = _
  rw [lexFrom_blank, lexFrom_directive _ names, lexFrom_parenthesis, lexFrom_semicolon]
  rfl

theorem lexes (self : Section) (fits : self.Fits) (before : List Skipped) (rest : List Char) :
    lexFrom [] before (self.text ++ rest) = self.tokens (before ++ blank) (lexFrom [] blank rest) := by
  cases self with
  | echo escaped code =>
      cases escaped with
      | true => exact lexes_escaped fits
      | false => exact lexes_raw fits
  | test kind code => exact lexes_test kind fits
  | elseif code => exact lexes_elseif fits
  | otherwise => exact lexes_otherwise
  | endif => exact lexes_endif
  | loop kind code => exact lexes_loop kind fits
  | endloop kind => exact lexes_endloop kind
  | forelse number code => exact lexes_forelse number fits
  | forelseEmpty number => exact lexes_forelseEmpty number
  | directive name code => exact lexes_directive fits.1 fits.2
  | bareDirective name => exact lexes_bareDirective fits

end Section

end Lexing

end Phrasebook.Template
