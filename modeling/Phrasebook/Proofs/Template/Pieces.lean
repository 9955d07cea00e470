import Phrasebook.Proofs.Template.Sections

namespace Phrasebook.Template

open Php

def isPlain : List Char → Bool
  | [] => true
  | c :: text =>
    c != '@' && !begins ['\x7b', '\x7b'] (c :: text) && !begins ['\x7b', '!', '!'] (c :: text) &&
      !begins ['<', '?'] (c :: text) && !(c == '\x7b' && text.isEmpty) && isPlain text

def Plain : Type := { text : List Char // isPlain text = true }

def Plain.hasNoNul (text : Plain) : Bool := !text.1.contains nul

/-- What stands in a compiled template between plain texts. -/
inductive Piece
  | bare (name : String)
  | code (part : Section)

namespace Piece

def source : Piece → List Char
  | bare name => '@' :: name.toList
  | code part => part.source

def Fits : Piece → Prop
  | bare name => name.toList.all isNameChar = true
  | code part => part.Fits

end Piece

def AllFit (pieces : List (Piece × Plain)) : Prop :=
  ∀ piece ∈ pieces, piece.1.Fits ∧ piece.2.hasNoNul = true

def sourceOf : List (Piece × Plain) → List Char
  | [] => []
  | (piece, text) :: pieces => piece.source ++ text.1 ++ sourceOf pieces

theorem isMarkup_cons {c : Char} {text : List Char} :
    isMarkup (c :: text) = (!begins ['<', '?'] (c :: text) && c != nul && isMarkup text) := by
  unfold isMarkup
  rw [find?, begins, List.contains_cons]
  cases here : ['<', '?'].isPrefixOf (c :: text) with
  | true => simp
  | false =>
      have same : (nul == c) = (c == nul) := by rw [Bool.eq_iff_iff, beq_iff_eq, beq_iff_eq, eq_comm]
      rw [same, bne]
      cases c == nul <;> simp

theorem Plain.isMarkup {text : Plain} (noNul : text.hasNoNul = true) : isMarkup text.1 = true := by
  obtain ⟨text, plain⟩ := text
  unfold hasNoNul at noNul
  dsimp only at noNul ⊢
  induction text with
  | nil => rfl
  | cons c text ih =>
      simp only [isPlain, Bool.and_eq_true] at plain
      obtain ⟨⟨⟨_, noTag⟩, _⟩, others⟩ := plain
      rw [List.contains_cons, Bool.not_or, Bool.and_eq_true, Bool.not_eq_true', beq_eq_false_iff_ne] at noNul
      rw [isMarkup_cons, noTag, ih others noNul.2, bne_iff_ne.2 noNul.1.symm]
      rfl

end Phrasebook.Template
