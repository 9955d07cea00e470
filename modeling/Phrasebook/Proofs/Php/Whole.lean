import Phrasebook.Proofs.Php.LiteralCalls

namespace Phrasebook.Php

namespace Slot

variable {slot : Slot} {code : List Char}

theorem lexFrom_stop (slot : Slot) (gap : List Skipped) :
    lexFrom [] gap slot.stop.toList = [.symbol gap slot.stop, ⟨[], ⟨.finish, []⟩⟩] := by
  cases slot with
  | printed =>
      have stop : lexFrom [] gap (";".toList ++ []) = _ := lexFrom_symbol ";" gap [] (by decide) rfl rfl
      rw [lexFrom_nil] at stop
      exact stop
  | _ =>
      have stop : lexFrom [] gap (")".toList ++ []) = _ := lexFrom_symbol ")" gap [] (by decide) rfl rfl
      rw [lexFrom_nil] at stop
      exact stop

theorem fits_of (tokens : List Token) (gap : List Skipped) (nodes : List Node)
    (lexes : ∀ rest, lexFrom [] [] (slot.lead ++ code ++ slot.stop.toList ++ rest) =
      tokens ++ lexFrom [] gap (slot.stop.toList ++ rest))
    (reads : ∀ frame rest, slot.precedes rest → Reads slot.rule frame (tokens ++ .symbol gap slot.stop :: rest)
      (nodes.reverse ++ frame) (.symbol gap slot.stop :: rest)) :
    slot.Fits code ∧ slot.nodes code = nodes := by
  have lexed : slot.lexed code = tokens ++ [.symbol gap slot.stop, ⟨[], ⟨.finish, []⟩⟩] := by
    have alone := lexes []
    rw [List.append_nil, List.append_nil, lexFrom_stop] at alone
    exact alone
  have inner : (slot.lexed code).dropLast = tokens ++ [.symbol gap slot.stop] := by
    rw [lexed]
    exact List.dropLast_append_cons
  have sameTokens : slot.tokens code = tokens := by
    rw [Slot.tokens, inner, List.dropLast_concat]
  have sameGap : slot.gap code = gap := by
    rw [Slot.gap, inner, List.getLast?_concat]
    rfl
  have sameNodes : slot.nodes code = nodes := by
    have ends : slot.precedes [⟨[], ⟨.finish, []⟩⟩] := by
      cases slot <;> first | exact trivial | exact ⟨_, _, rfl, fun last => by cases last <;> rfl⟩
    obtain ⟨moved, derives⟩ := reads [] _ ends
    have below : slot.rule.callsBelow Phrase.moves Phrase.rank phraseCount phraseCount = true := by
      cases slot <;> rfl
    have read := derives.follow grammar_ranked below (Nat.le_refl _) (Nat.le_refl _)
      (Nat.le_of_eq (Nat.mul_succ phraseCount _).symm)
    rw [Slot.nodes, lexed]
    simp only [read, List.append_nil, List.reverse_reverse]
  refine ⟨⟨fun rest => ?_, fun frame rest precedes => ?_⟩, sameNodes⟩
  · rw [sameTokens, sameGap]
    exact lexes rest
  · rw [stopAfter, sameTokens, sameGap, sameNodes]
    exact reads frame rest precedes

end Slot

namespace LiteralCall

open Rule (sym keywords)
open Written (space)

variable {table : FunctionTable} {frame : List Node} {rest : List Token} {gap before : List Skipped}

theorem reads_argument (self : LiteralCall) (closer : Closer) :
    Reads (.call .argument) frame (self.tokens before ++ .symbol gap closer.text :: rest)
      (.branch .argument [self.node before] :: frame) (.symbol gap closer.text :: rest) :=
  .argument_of_value self.isReserved_name (self.reads_value closer before)

theorem fits_slot (self : LiteralCall) {slot : Slot} {node : Node}
    (lead : ∀ text, lexFrom [] [] (slot.lead ++ text) = lexFrom [] before text)
    (reads : ∀ frame rest, Reads slot.rule frame (self.tokens before ++ .symbol [] slot.stop :: rest) (node :: frame)
      (.symbol [] slot.stop :: rest))
    (found : callsIn table [node] = (self.found table).toList) :
    slot.Fits self.source ∧ slot.calls table self.source = (self.found table).toList := by
  obtain ⟨fits, nodes⟩ : slot.Fits self.source ∧ slot.nodes self.source = [node] := by
    apply Slot.fits_of (self.tokens before) []
    · intro rest
      rw [List.append_assoc, List.append_assoc, lead, self.lexFrom_source]
    · intro frame rest _
      exact reads frame rest
  refine ⟨fits, ?_⟩
  rw [Slot.calls, nodes, ← found, callsIn]

theorem callsIn_alone (self : LiteralCall) (before : List Skipped) :
    callsIn table [self.node before] = (self.found table).toList := by
  rw [self.callsIn_node, callsIn_nil, List.append_nil]

theorem callsIn_asArgument (self : LiteralCall) (before : List Skipped) :
    callsIn table [.branch .argument [self.node before]] = (self.found table).toList := by
  rw [callsIn_branch (occurrence?_branch (by decide) _), self.callsIn_alone, callsIn_nil, List.append_nil]

theorem fits_condition (self : LiteralCall) :
    Slot.condition.Fits self.source ∧ Slot.condition.calls table self.source = (self.found table).toList :=
  self.fits_slot (fun _ => rfl) (fun _ _ => self.reads_value .parenthesis []) (self.callsIn_alone [])

theorem fits_negated (self : LiteralCall) :
    Slot.negated.Fits self.source ∧ Slot.negated.calls table self.source = (self.found table).toList := by
  refine self.fits_slot (fun _ => rfl) (fun frame rest => ?_) (self.callsIn_alone [])
  have noCast : Sticks (Rule.sequence [keywords castWords, sym ")",
      .alt (.call (.operand false)) (.call (.operand true))]) frame
      (self.tokens [] ++ .symbol [] ")" :: rest) := .lexeme_seq (.seq (.refused rfl))
  exact .seq (.apart noCast) (self.reads_value .parenthesis [])

theorem fits_arguments (self : LiteralCall) :
    Slot.arguments.Fits self.source ∧ Slot.arguments.calls table self.source = (self.found table).toList := by
  refine self.fits_slot (fun _ => rfl) (fun frame rest => ?_) (self.callsIn_asArgument [])
  exact .right (.refused rfl) (.seq (.option (.seq (self.reads_argument .parenthesis)
    (.seq (.passed rfl) (.passed rfl)))) (.passed rfl))

theorem fits_further (self : LiteralCall) (first : Written) :
    Slot.further.Fits (first.source ++ ", ".toList ++ self.source) ∧
      Slot.further.calls table (first.source ++ ", ".toList ++ self.source) = (self.found table).toList := by
  obtain ⟨fits, nodes⟩ : Slot.further.Fits (first.source ++ ", ".toList ++ self.source) ∧
      Slot.further.nodes (first.source ++ ", ".toList ++ self.source) =
        [first.argument space, .leaf (.symbol [] ","), .branch .argument [self.node space]] := by
    apply Slot.fits_of (first.tokens space ++ .symbol [] "," :: self.tokens space) []
    · intro rest
      have split : Slot.further.lead ++ (first.source ++ ", ".toList ++ self.source) ++ Slot.further.stop.toList ++
          rest = ' ' :: (first.source ++ (",".toList ++ ' ' :: (self.source ++ (")".toList ++ rest)))) := by
        simp [Slot.lead, Slot.stop]
      rw [split, lexFrom_blank, first.lexFrom_source, lexFrom_symbol "," _ _ (by decide) rfl rfl, lexFrom_blank,
        self.lexFrom_source]
      simp [Slot.stop, space]
    · intro frame rest _
      have argument : Reads (.call .argument) frame
          (first.tokens space ++ .symbol [] "," :: (self.tokens space ++ .symbol [] ")" :: rest))
          (first.argument space :: frame) (.symbol [] "," :: (self.tokens space ++ .symbol [] ")" :: rest)) :=
        .literalArgument .comma first space
      have call : Reads Slot.nextArgument (first.argument space :: frame)
          (.symbol [] "," :: (self.tokens space ++ .symbol [] ")" :: rest))
          (.branch .argument [self.node space] :: .leaf (.symbol [] ",") :: first.argument space :: frame)
          (.symbol [] ")" :: rest) :=
        .seq (.attempt (.seq (.lexeme rfl) (.apart (.refused rfl)))) (self.reads_argument .parenthesis)
      have read : Reads Slot.further.rule frame
          (first.tokens space ++ .symbol [] "," :: (self.tokens space ++ .symbol [] ")" :: rest))
          (.branch .argument [self.node space] :: .leaf (.symbol [] ",") :: first.argument space :: frame)
          (.symbol [] ")" :: rest) :=
        .seq (.apart (.literal first space ")" _)) (argument.seq (.seq (.many call rfl (.passed rfl))
          (.seq (.passed rfl) (.passed rfl))))
      simpa [Slot.stop] using read
  refine ⟨fits, ?_⟩
  rw [Slot.calls, nodes]
  exact (callsIn_argument first space _).trans ((callsIn_leaf _ _).trans (self.callsIn_asArgument space))

end LiteralCall

end Phrasebook.Php
