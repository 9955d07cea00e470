import Phrasebook.Proofs.Php.Whole
import Phrasebook.Proofs.Template.Statements
import Phrasebook.Proofs.Template.Wrappers

namespace Phrasebook.Template

open Php
open FunctionTable (standard)

/-- A text with a blank at each end that is a statement with some calls, wherever it stands in code. -/
def IsStatement (text : List Char) (found : List Occurrence) : Prop :=
  ∃ tokens : List Skipped → List Token → List Token,
    (∀ before rest, lexFrom [] before (text ++ rest) = tokens (before ++ blank) (lexFrom [] blank rest)) ∧
    ∀ before rest, Yields (.call (.statement false)) (tokens before rest) rest found

variable {code : List Char} {frame : List Node} {before gap : List Skipped} {rest : List Token}

namespace IsStatement

theorem of_section (part : Section) {found : List Occurrence} (fits : part.Fits)
    (yields : ∀ before rest, Yields (.call (.statement false)) (part.tokens before rest) rest found) :
    IsStatement part.text found :=
  ⟨fun before rest => part.tokens before rest, part.lexes fits, yields⟩

theorem of_fits {slot : Slot} {text : List Char} {found : List Occurrence}
    (fits : slot.Fits code ∧ slot.calls standard code = found)
    (statement : slot.Fits code → IsStatement text (slot.calls standard code)) : IsStatement text found := by
  rw [← fits.2]
  exact statement fits.1

theorem branch (kind : Test) (fits : kind.slot.Fits code) :
    IsStatement (kind.around.1.toList ++ (code ++ (kind.around.2.toList ++ "?>\n<?php endif; ".toList)))
      (kind.slot.calls standard code) := by
  refine ⟨fun before rest => (Section.test kind code).tokens before
    (Section.endif.tokens (blank ++ [⟨.markup, "?>\n<?php".toList⟩] ++ blank) rest), fun before rest => ?_,
    fun before rest => ?_⟩
  · have markup : lexFrom [] blank ("?>\n<?php".toList ++ (Section.endif.text ++ rest)) =
        lexFrom [] (blank ++ [⟨.markup, "?>\n<?php".toList⟩]) (Section.endif.text ++ rest) :=
      lexFrom_markup blank (Section.endif.text ++ rest) (show isMarkup ['\n'] = true from rfl)
    have split : kind.around.1.toList ++ (code ++ (kind.around.2.toList ++ "?>\n<?php endif; ".toList)) ++ rest =
        (Section.test kind code).text ++ ("?>\n<?php".toList ++ (Section.endif.text ++ rest)) := by
      unfold Section.text
      simp only [List.append_assoc]
      rfl
    rw [split, Section.lexes_test kind fits, markup, Section.lexes_endif]
  · have branch : Yields (.call (.statement false)) ((Section.test kind code).tokens before
        (Section.endif.tokens (blank ++ [⟨.markup, "?>\n<?php".toList⟩] ++ blank) rest)) rest
        (kind.slot.calls standard code ++ []) := yields_branch (yields_parenthesized kind fits) yields_branchEnd
    rw [List.append_nil] at branch
    exact branch

theorem directive {name : String} (names : name.toList.all isNameChar = true) (fits : Slot.further.Fits code) :
    IsStatement (" $__env->directive('".toList ++ name.toList ++ "', ".toList ++ code ++ "); ".toList)
      (Slot.further.calls standard code) :=
  of_section (.directive name code) ⟨names, fits⟩ fun _ _ => yields_directive fits

theorem group (fits : Slot.negated.Fits code) :
    IsStatement (" (".toList ++ code ++ "); ".toList) (Slot.negated.calls standard code) := by
  refine ⟨fun before rest => .symbol before "(" :: slotTokens .negated code (.symbol [] ";" :: rest),
    fun before rest => ?_, fun before rest => yields_expression (.inr rfl) (.group .semicolon fits)⟩
  rw [List.append_assoc, List.append_assoc]
  change lexFrom [] before (' ' :: '(' :: (Slot.negated.lead ++ (code ++ ')' :: ';' :: ' ' :: rest))) = _
  rw [lexFrom_blank, lexFrom_opening, lexFrom_slot fits rfl, lexFrom_semicolon]
  rfl

theorem call (call : LiteralCall) :
    IsStatement (" ".toList ++ call.source ++ "; ".toList) (call.found standard).toList := by
  refine ⟨fun before rest => call.tokens before ++ .symbol [] ";" :: rest, fun before rest => ?_,
    fun before rest => .of_nodes [call.statement before] ?_ fun _ => call.reads_statement before⟩
  · rw [List.append_assoc, List.append_assoc]
    change lexFrom [] before (' ' :: (call.source ++ ';' :: ' ' :: rest)) = _
    rw [lexFrom_blank, call.lexFrom_source, lexFrom_semicolon]
    rfl
  · rw [call.callsIn_statement, callsIn_nil, List.append_nil]

theorem printed (call : LiteralCall) :
    IsStatement (" echo ".toList ++ call.source ++ "; ".toList) (call.found standard).toList := by
  refine ⟨fun before rest => .word before "echo" :: (call.tokens blank ++ .symbol [] ";" :: rest),
    fun before rest => ?_, fun before rest => yields_printed (.of_nodes [call.node blank] (call.callsIn_alone blank)
      fun _ => call.reads_value .semicolon blank)⟩
  rw [List.append_assoc, List.append_assoc]
  change lexFrom [] before (' ' :: ("echo".toList ++ ' ' :: (call.source ++ ';' :: ' ' :: rest))) = _
  rw [lexFrom_blank, lexFrom_word "echo" _ _ rfl rfl, lexFrom_blank, call.lexFrom_source, lexFrom_semicolon]
  rfl

end IsStatement

def translator : LiteralCall := ⟨"app", by decide +kernel, ⟨.single, "translator", by decide⟩, []⟩

theorem reads_get (closer : Closer) (fits : Slot.arguments.Fits code) :
    Reads (value true) frame (translator.tokens before ++ .symbol [] "->" :: .word [] "get" :: .symbol [] "(" ::
        slotTokens .arguments code (.symbol gap closer.text :: rest))
      (.branch .member [translator.node before, .leaf (.symbol [] "->"), .leaf (.word [] "get"),
        argumentList [] code] :: frame) (.symbol gap closer.text :: rest) := by
  have list (frame : List Node) (tokens : List Token) : Reads (.call .arguments) frame
      (.symbol [] "(" :: (translator.first.tokens [] ++ .symbol [] ")" :: tokens))
      (Written.listNode translator.first [] :: frame) tokens := .listNode translator.first []
  exact .value_of_operand closer rfl (.operand_of_primary closer (refuses_prefixed translator.isReserved_name)
    (.primary_function translator.isReserved_name (fun frame => list frame _)
      (.many (.memberSuffix rfl rfl fun _ => .arguments fits) rfl (.noSuffix closer))))

theorem callsIn_get (before : List Skipped) (code : List Char) :
    callsIn standard [.branch .member [translator.node before, .leaf (.symbol [] "->"), .leaf (.word [] "get"),
      argumentList [] code]] = Slot.arguments.calls standard code := by
  have none : translator.found standard = none := by decide
  rw [callsIn_branch (occurrence?_branch (by decide) _), translator.callsIn_node, none, callsIn_leaf, callsIn_leaf,
    callsIn_argumentList, callsIn_nil, List.append_nil]
  rfl

theorem IsStatement.get (fits : Slot.arguments.Fits code) :
    IsStatement (" echo app('translator')->get(".toList ++ code ++ "); ".toList)
      (Slot.arguments.calls standard code) := by
  refine ⟨fun before rest => .word before "echo" :: (translator.tokens blank ++ .symbol [] "->" :: .word [] "get" ::
    .symbol [] "(" :: slotTokens .arguments code (.symbol [] ";" :: rest)), fun before rest => ?_, fun before rest =>
    yields_printed (.of_nodes _ (callsIn_get blank code) fun _ => reads_get .semicolon fits)⟩
  rw [List.append_assoc, List.append_assoc]
  change lexFrom [] before (' ' :: ("echo".toList ++ ' ' :: (translator.source ++ ("->".toList ++ ("get".toList ++
    '(' :: (Slot.arguments.lead ++ (code ++ ')' :: ';' :: ' ' :: rest))))))) = _
  rw [lexFrom_blank, lexFrom_word "echo" _ _ rfl rfl, lexFrom_blank, translator.lexFrom_source,
    lexFrom_symbol "->" _ _ (by decide) rfl rfl, lexFrom_keyword "get" _ _ rfl, lexFrom_slot fits rfl,
    lexFrom_semicolon]
  rfl

namespace Usage

theorem argumentDirectives_isNameChar : ∀ name ∈ argumentDirectives, name.toList.all isNameChar = true := by
  decide +kernel

theorem found_call (self : Usage) : self.call.found standard = some ⟨"__", self.value⟩ := rfl

theorem isStatement (self : Usage) : IsStatement self.code [⟨"__", self.value⟩] := by
  unfold code
  cases self.wrapper with
  | escaped | tripled =>
      exact .of_fits self.call.fits_arguments fun fits => .of_section (.echo true _) fits fun _ _ => yields_escaped fits
  | raw => exact .printed self.call
  | holds =>
      rw [List.append_assoc]
      exact .of_fits self.call.fits_condition fun fits => .branch .holds fits
  | fails =>
      rw [List.append_assoc]
      exact .of_fits self.call.fits_negated fun fits => .branch .fails fits
  | group => exact .of_fits self.call.fits_negated fun fits => .group fits
  | block => exact .call self.call
  | lang => exact .of_fits self.call.fits_arguments fun fits => .get fits
  | directive name known =>
      have text : (" $__env->directive('" ++ name ++ "', 'a', ").toList =
          " $__env->directive('".toList ++ name.toList ++ "', 'a', ".toList := by
        rw [String.toList_append, String.toList_append]
      have first : (⟨.single, "a", by decide⟩ : Written).source = "'a'".toList := rfl
      have kept := IsStatement.of_fits (self.call.fits_further ⟨.single, "a", by decide⟩) fun fits =>
        .directive (argumentDirectives_isNameChar name known) fits
      change IsStatement ((" $__env->directive('" ++ name ++ "', 'a', ").toList ++ self.call.source ++ "); ".toList) _
      rw [text]
      simp only [first, List.append_assoc] at kept ⊢
      exact kept

end Usage

theorem yields_lines (usages : List Usage) (before : List Skipped) :
    Yields (.seq (.many (.call (.statement false))) (Rule.kind .finish))
      (lexFrom [] before ("?>".toList ++ usages.flatMap fun usage => "\n<?php".toList ++ usage.code ++ "?>".toList)) []
      (usages.map fun usage => ⟨"__", usage.value⟩) := by
  induction usages generalizing before with
  | nil =>
      have ends : lexFrom [] before "?>".toList = [⟨before ++ [⟨.markup, "?>".toList⟩], ⟨.finish, []⟩⟩] :=
        lexFrom_markup_end before (show isMarkup [] = true from rfl)
      rw [List.flatMap_nil, List.append_nil, ends]
      exact .nothing_seq (fun _ => .passed rfl) (.lexeme rfl)
  | cons usage usages ih =>
      -- The closing tag and the next opening one are markup before the first token of the next statement.
      obtain ⟨tokens, lexes, yields⟩ := usage.isStatement
      have markup (rest : List Char) : lexFrom [] before ("?>".toList ++ ("\n<?php".toList ++ rest)) =
          lexFrom [] (before ++ [⟨.markup, "?>\n<?php".toList⟩]) rest :=
        lexFrom_markup before rest (show isMarkup ['\n'] = true from rfl)
      rw [List.flatMap_cons, List.append_assoc, List.append_assoc, markup, lexes]
      exact .many_seq rfl ((yields _ _).seq (ih blank))

theorem yields_usages (usages : List Usage) :
    Yields (.seq (.many (.call (.statement false))) (Rule.kind .finish))
      (lex (['\n'].intercalate (usages.map fun usage => "<?php".toList ++ usage.code ++ "?>".toList))) []
      (usages.map fun usage => ⟨"__", usage.value⟩) := by
  cases usages with
  | nil =>
      have ends : lex [] = [⟨[⟨.markup, []⟩], ⟨.finish, []⟩⟩] := lex_markup_end rfl
      rw [List.map_nil, List.intercalate_nil, ends]
      exact .nothing_seq (fun _ => .passed rfl) (.lexeme rfl)
  | cons first others =>
      obtain ⟨tokens, lexes, yields⟩ := first.isStatement
      have markup (rest : List Char) : lex ("<?php".toList ++ rest) = lexFrom [] [⟨.markup, "<?php".toList⟩] rest :=
        lex_markup rest (show isMarkup [] = true from rfl)
      have lines := yields_lines others blank
      rw [List.map_cons, intercalate_eq_flatMap, List.flatMap_map, List.append_assoc, List.append_assoc, markup, lexes]
      exact .many_seq rfl ((yields _ _).seq lines)

/-- From calls in wrappers the same is extracted as from a program of the calls. -/
theorem extract_usages (usages : List Usage) :
    extract compile standard .template ("\n".intercalate (usages.map fun usage => String.ofList usage.source)) =
        .ok (usages.map fun usage => ⟨"__", usage.value⟩) ∧
      extract compile standard .code (String.ofList (programOf (usages.map (·.call)))) =
        .ok (usages.map fun usage => ⟨"__", usage.value⟩) := by
  constructor
  · have source : "\n".intercalate (usages.map fun usage => String.ofList usage.source) =
        String.ofList (['\n'].intercalate (usages.map (·.source))) := by
      rw [← String.toList_inj, String.toList_ofList, String.toList_intercalate, List.map_map]
      simp [Function.comp_def]
    apply extract_of_yields
    rw [FileKind.toCode, source, compile_usages, String.toList_ofList]
    exact yields_usages usages
  · rw [extract_program, List.filterMap_map]
    simp [Function.comp_def, Usage.found_call]

end Phrasebook.Template
