import Phrasebook.Proofs.Template.Tags

namespace Phrasebook.Template

open Php

namespace Test

def name : Test → String
  | holds => "if"
  | fails => "unless"
  | isset => "isset"
  | empty => "empty"

def endName : Test → String
  | holds => "endif"
  | fails => "endunless"
  | isset => "endisset"
  | empty => "endempty"

end Test

inductive Conditional
  | auth
  | guest
  | can
  | cannot
  | canany
  | env
  | error
  | session
  | hasSection
  | sectionMissing
  deriving DecidableEq, Repr

namespace Conditional

def name : Conditional → String
  | auth => "auth"
  | guest => "guest"
  | can => "can"
  | cannot => "cannot"
  | canany => "canany"
  | env => "env"
  | error => "error"
  | session => "session"
  | hasSection => "hasSection"
  | sectionMissing => "sectionMissing"

/-- Whether the block has no end of its own but that of a branch. -/
def borrowsEnd : Conditional → Bool
  | hasSection => true
  | sectionMissing => true
  | _ => false

def endName (self : Conditional) : String := if self.borrowsEnd then "endif" else "end" ++ self.name

end Conditional

mutual

inductive Body
  | text (text : Plain)
  | echo (text : Plain) (echo : Echo) (rest : Body)
  | branch (text : Plain) (test : Test) (arguments : Arguments) (body : Body) (others : Others) (rest : Body)
  | loop (text : Plain) (loop : Loop) (arguments : Arguments) (body rest : Body)
  | forelse (text : Plain) (arguments : Arguments) (body empty rest : Body)
  | conditional (text : Plain) (conditional : Conditional) (arguments : Option Arguments) (body rest : Body)
  | splitConditional (text : Plain) (conditional : Conditional) (arguments : Option Arguments)
      (body other rest : Body)

inductive Others
  | none
  | elseif (arguments : Arguments) (body : Body) (others : Others)
  | otherwise (body : Body)

end

def Body.lead : Body → Plain
  | .text lead => lead
  | .echo lead _ _ => lead
  | .branch lead _ _ _ _ _ => lead
  | .loop lead _ _ _ _ => lead
  | .forelse lead _ _ _ _ => lead
  | .conditional lead _ _ _ _ => lead
  | .splitConditional lead _ _ _ _ _ => lead

mutual

def Body.tags : Body → List (Tag × Plain)
  | .text _ => []
  | .echo _ item rest => (.echo item, rest.lead) :: rest.tags
  | .branch _ test arguments body others rest =>
    (.directive test.name arguments, body.lead) :: (body.tags ++ (others.tags ++
      (.directive test.endName none, rest.lead) :: rest.tags))
  | .loop _ kind arguments body rest =>
    (.directive kind.keyword arguments, body.lead) :: (body.tags ++
      (.directive kind.endKeyword none, rest.lead) :: rest.tags)
  | .forelse _ arguments body empty rest =>
    (.directive "forelse" arguments, body.lead) :: (body.tags ++
      (.directive "empty" none, empty.lead) :: (empty.tags ++
        (.directive "endforelse" none, rest.lead) :: rest.tags))
  | .conditional _ kind arguments body rest =>
    (.directive kind.name arguments, body.lead) :: (body.tags ++
      (.directive kind.endName none, rest.lead) :: rest.tags)
  | .splitConditional _ kind arguments body other rest =>
    (.directive kind.name arguments, body.lead) :: (body.tags ++
      (.directive "else" none, other.lead) :: (other.tags ++
        (.directive kind.endName none, rest.lead) :: rest.tags))

def Others.tags : Others → List (Tag × Plain)
  | .none => []
  | .elseif arguments body others =>
    (.directive "elseif" arguments, body.lead) :: (body.tags ++ others.tags)
  | .otherwise body => (.directive "else" none, body.lead) :: body.tags

end

def Body.source (self : Body) : List Char := self.lead.1 ++ tagsSource self.tags

/-- No word runs into a directive, and nothing that could belong to a directive follows one without arguments. -/
def Body.standsApart (self : Body) : Bool := standApart (lastOf none self.lead.1) self.tags

def Conditional.piece (self : Conditional) (arguments : Option Arguments) : Piece :=
  match arguments with
  | none => .bare self.name
  | some arguments =>
    if arguments.isBlank then .code (.bareDirective self.name) else .code (.directive self.name arguments.code)

def Conditional.endPiece (self : Conditional) : Piece :=
  if self.borrowsEnd then .code .endif else .bare self.endName

mutual

def Body.loops : Body → Nat
  | .text _ => 0
  | .echo _ _ rest => rest.loops
  | .branch _ _ _ body others rest => body.loops + others.loops + rest.loops
  | .loop _ _ _ body rest => body.loops + rest.loops
  | .forelse _ _ body empty rest => 1 + body.loops + empty.loops + rest.loops
  | .conditional _ _ _ body rest => body.loops + rest.loops
  | .splitConditional _ _ _ body other rest => body.loops + other.loops + rest.loops

def Others.loops : Others → Nat
  | .none => 0
  | .elseif _ body others => body.loops + others.loops
  | .otherwise body => body.loops

end

mutual

/-- What becomes of the tags of a body, `opened` loops having been numbered before. -/
def Body.pieces (opened : Nat) : Body → List (Piece × Plain)
  | .text _ => []
  | .echo _ item rest => (.code (.echo item.isEscaped item.code), rest.lead) :: rest.pieces opened
  | .branch _ test arguments body others rest =>
    (.code (.test test arguments.code), body.lead) :: (body.pieces opened ++
      (others.pieces (opened + body.loops) ++
        (.code .endif, rest.lead) :: rest.pieces (opened + body.loops + others.loops)))
  | .loop _ kind arguments body rest =>
    (.code (.loop kind arguments.code), body.lead) :: (body.pieces opened ++
      (.code (.endloop kind), rest.lead) :: rest.pieces (opened + body.loops))
  | .forelse _ arguments body empty rest =>
    (.code (.forelse (opened + 1) arguments.code), body.lead) :: (body.pieces (opened + 1) ++
      (.code (.forelseEmpty (opened + 1)), empty.lead) :: (empty.pieces (opened + 1 + body.loops) ++
        (.code .endif, rest.lead) :: rest.pieces (opened + 1 + body.loops + empty.loops)))
  | .conditional _ kind arguments body rest =>
    (kind.piece arguments, body.lead) :: (body.pieces opened ++
      (kind.endPiece, rest.lead) :: rest.pieces (opened + body.loops))
  | .splitConditional _ kind arguments body other rest =>
    (kind.piece arguments, body.lead) :: (body.pieces opened ++
      (.code .otherwise, other.lead) :: (other.pieces (opened + body.loops) ++
        (kind.endPiece, rest.lead) :: rest.pieces (opened + body.loops + other.loops)))

def Others.pieces (opened : Nat) : Others → List (Piece × Plain)
  | .none => []
  | .elseif arguments body others =>
    (.code (.elseif arguments.code), body.lead) :: (body.pieces opened ++ others.pieces (opened + body.loops))
  | .otherwise body => (.code .otherwise, body.lead) :: body.pieces opened

end

section Outputs

variable (loops : Loops) (arguments : Arguments)

theorem output_echo (echo : Echo) : (Tag.echo echo).output loops =
    ((Section.echo echo.isEscaped echo.code).source, loops) := by
  change (echoCode echo.isEscaped echo.code, loops) = _
  congr 1
  unfold Section.source Section.text echoCode
  cases echo.isEscaped <;> (simp only [List.append_assoc]; rfl)

theorem output_test (kind : Test) : (Tag.directive kind.name (some arguments)).output loops =
    ((Section.test kind arguments.code).source, loops) := by
  have source : (Section.test kind arguments.code).source =
      ("<?php".toList ++ kind.around.1.toList) ++ arguments.code ++ (kind.around.2.toList ++ "?>".toList) := by
    unfold Section.source Section.text
    simp only [List.append_assoc]
  rw [source]
  cases kind <;> rfl

theorem output_endTest (kind : Test) : (Tag.directive kind.endName none).output loops =
    (Section.endif.source, loops) := by
  cases kind <;> rfl

theorem output_elseif : (Tag.directive "elseif" (some arguments)).output loops =
    ((Section.elseif arguments.code).source, loops) := by
  have source : (Section.elseif arguments.code).source =
      ("<?php".toList ++ " elseif(".toList) ++ arguments.code ++ ("): ".toList ++ "?>".toList) := by
    unfold Section.source Section.text
    simp only [List.append_assoc]
  rw [source]
  rfl

theorem output_else : (Tag.directive "else" none).output loops = (Section.otherwise.source, loops) := rfl

theorem output_loop (kind : Loop) : (Tag.directive kind.keyword (some arguments)).output loops =
    ((Section.loop kind arguments.code).source, loops) := by
  have source : (Section.loop kind arguments.code).source =
      ("<?php".toList ++ ' ' :: kind.keyword.toList ++ ['(']) ++ arguments.code ++ ("): ".toList ++ "?>".toList) := by
    unfold Section.source Section.text
    simp only [List.append_assoc, List.cons_append, List.nil_append]
  rw [source]
  cases kind <;> rfl

theorem output_endLoop (kind : Loop) : (Tag.directive kind.endKeyword none).output loops =
    ((Section.endloop kind).source, loops) := by
  cases kind <;> rfl

theorem output_forelse : (Tag.directive "forelse" (some arguments)).output loops =
    ((Section.forelse (loops.opened + 1) arguments.code).source,
      ⟨loops.opened + 1, (loops.opened + 1) :: loops.waiting⟩) := by
  have source : (Section.forelse (loops.opened + 1) arguments.code).source =
      "<?php ".toList ++ flagName (loops.opened + 1) ++ " = true; foreach(".toList ++ arguments.code ++ "): ".toList ++
        flagName (loops.opened + 1) ++ " = false; ?>".toList := by
    unfold Section.source Section.text
    simp
  rw [source]
  rfl

theorem output_empty (opened loop : Nat) (waiting : List Nat) :
    (Tag.directive "empty" none).output ⟨opened, loop :: waiting⟩ =
      ((Section.forelseEmpty loop).source, ⟨opened, waiting⟩) := by
  have source : (Section.forelseEmpty loop).source =
      "<?php endforeach; if (".toList ++ flagName loop ++ "): ?>".toList := by
    unfold Section.source Section.text
    simp
  rw [source]
  rfl

theorem output_endforelse : (Tag.directive "endforelse" none).output loops = (Section.endif.source, loops) := rfl

theorem output_conditional (kind : Conditional) (arguments : Option Arguments) :
    (Tag.directive kind.name arguments).output loops = ((kind.piece arguments).source, loops) := by
  cases arguments with
  | none => cases kind <;> rfl
  | some arguments =>
      have compiled : directive? loops kind.name (some arguments.code) arguments.isBlank =
          some (directiveCall kind.name arguments.code arguments.isBlank, loops) := by
        cases kind <;> rfl
      have output : (Tag.directive kind.name (some arguments)).output loops =
          (directiveCall kind.name arguments.code arguments.isBlank, loops) := by
        change (directive? loops kind.name (some arguments.code) arguments.isBlank).getD _ = _
        rw [compiled]
        rfl
      have source : directiveCall kind.name arguments.code arguments.isBlank =
          (kind.piece (some arguments)).source := by
        cases blank : arguments.isBlank with
        | true =>
            have piece : kind.piece (some arguments) = .code (.bareDirective kind.name) := if_pos blank
            rw [piece]
            unfold directiveCall Piece.source Section.source Section.text
            simp
        | false =>
            have piece : kind.piece (some arguments) = .code (.directive kind.name arguments.code) :=
              if_neg (by simp [blank])
            rw [piece]
            unfold directiveCall Piece.source Section.source Section.text
            simp
      rw [output, source]

theorem output_endConditional (kind : Conditional) :
    (Tag.directive kind.endName none).output loops = (kind.endPiece.source, loops) := by
  cases kind <;> rfl

end Outputs

theorem outputOf_cons {loops loops' : Loops} {tag : Tag} (piece : Piece) (text : Plain) (tags : List (Tag × Plain))
    (output : tag.output loops = (piece.source, loops')) :
    outputOf loops ((tag, text) :: tags) = piece.source ++ (text.1 ++ outputOf loops' tags) := by
  rw [outputOf, output]

theorem sourceOf_append (pieces others : List (Piece × Plain)) :
    sourceOf (pieces ++ others) = sourceOf pieces ++ sourceOf others := by
  induction pieces with
  | nil => rfl
  | cons piece pieces ih => simp [sourceOf, ih]

mutual

theorem Body.outputOf_tags (self : Body) (opened : Nat) (waiting : List Nat) (others : List (Tag × Plain)) :
    outputOf ⟨opened, waiting⟩ (self.tags ++ others) =
      sourceOf (self.pieces opened) ++ outputOf ⟨opened + self.loops, waiting⟩ others := by
  -- By recursion on the tree, with any tags behind it, as a part does not know what follows it.
  cases self with
  | text lead => rfl
  | echo lead item rest =>
      rw [Body.tags, List.cons_append, outputOf_cons (.code _) _ _ (output_echo _ _),
        rest.outputOf_tags opened waiting others]
      simp [Body.pieces, Body.loops, sourceOf]
  | branch lead test arguments body branches rest =>
      rw [Body.tags, List.cons_append, outputOf_cons (.code _) _ _ (output_test _ _ _), List.append_assoc,
        body.outputOf_tags, List.append_assoc, branches.outputOf_tags, List.cons_append,
        outputOf_cons (.code _) _ _ (output_endTest _ _), rest.outputOf_tags]
      simp [Body.pieces, Body.loops, sourceOf, sourceOf_append, Nat.add_assoc]
  | loop lead kind arguments body rest =>
      rw [Body.tags, List.cons_append, outputOf_cons (.code _) _ _ (output_loop _ _ _), List.append_assoc,
        body.outputOf_tags, List.cons_append, outputOf_cons (.code _) _ _ (output_endLoop _ _),
        rest.outputOf_tags]
      simp [Body.pieces, Body.loops, sourceOf, sourceOf_append, Nat.add_assoc]
  | forelse lead arguments body empty rest =>
      rw [Body.tags, List.cons_append, outputOf_cons (.code _) _ _ (output_forelse _ _), List.append_assoc,
        body.outputOf_tags, List.cons_append, outputOf_cons (.code _) _ _ (output_empty _ _ _),
        List.append_assoc, empty.outputOf_tags, List.cons_append,
        outputOf_cons (.code _) _ _ (output_endforelse _), rest.outputOf_tags]
      simp [Body.pieces, Body.loops, sourceOf, sourceOf_append, Nat.add_assoc]
  | conditional lead kind arguments body rest =>
      rw [Body.tags, List.cons_append, outputOf_cons _ _ _ (output_conditional _ _ _), List.append_assoc,
        body.outputOf_tags, List.cons_append, outputOf_cons _ _ _ (output_endConditional _ _), rest.outputOf_tags]
      simp [Body.pieces, Body.loops, sourceOf, sourceOf_append, Nat.add_assoc]
  | splitConditional lead kind arguments body other rest =>
      rw [Body.tags, List.cons_append, outputOf_cons _ _ _ (output_conditional _ _ _), List.append_assoc,
        body.outputOf_tags, List.cons_append, outputOf_cons (.code _) _ _ (output_else _),
        List.append_assoc, other.outputOf_tags, List.cons_append, outputOf_cons _ _ _ (output_endConditional _ _),
        rest.outputOf_tags]
      simp [Body.pieces, Body.loops, sourceOf, sourceOf_append, Nat.add_assoc]

theorem Others.outputOf_tags (self : Others) (opened : Nat) (waiting : List Nat) (others : List (Tag × Plain)) :
    outputOf ⟨opened, waiting⟩ (self.tags ++ others) =
      sourceOf (self.pieces opened) ++ outputOf ⟨opened + self.loops, waiting⟩ others := by
  cases self with
  | none => rfl
  | elseif arguments body branches =>
      rw [Others.tags, List.cons_append, outputOf_cons (.code _) _ _ (output_elseif _ _), List.append_assoc,
        body.outputOf_tags, branches.outputOf_tags]
      simp [Others.pieces, Others.loops, sourceOf, sourceOf_append, Nat.add_assoc]
  | otherwise body =>
      rw [Others.tags, List.cons_append, outputOf_cons (.code _) _ _ (output_else _), body.outputOf_tags]
      simp [Others.pieces, Others.loops, sourceOf]

end

theorem Conditional.isKnown_name (self : Conditional) (arguments : Option Arguments) :
    (Tag.directive self.name arguments).isKnown = true := by
  cases self <;> cases arguments <;> rfl

mutual

theorem Body.tags_known (self : Body) : ∀ tag ∈ self.tags, tag.1.isKnown = true := by
  cases self with
  | text lead => exact fun _ mem => nomatch mem
  | echo lead item rest =>
      simp only [Body.tags, List.forall_mem_cons]
      exact ⟨rfl, rest.tags_known⟩
  | branch lead test arguments body others rest =>
      simp only [Body.tags, List.forall_mem_cons, List.forall_mem_append]
      exact ⟨by cases test <;> rfl, body.tags_known, others.tags_known, by cases test <;> rfl, rest.tags_known⟩
  | loop lead kind arguments body rest =>
      simp only [Body.tags, List.forall_mem_cons, List.forall_mem_append]
      exact ⟨by cases kind <;> rfl, body.tags_known, by cases kind <;> rfl, rest.tags_known⟩
  | forelse lead arguments body empty rest =>
      simp only [Body.tags, List.forall_mem_cons, List.forall_mem_append]
      exact ⟨rfl, body.tags_known, rfl, empty.tags_known, rfl, rest.tags_known⟩
  | conditional lead kind arguments body rest =>
      simp only [Body.tags, List.forall_mem_cons, List.forall_mem_append]
      exact ⟨kind.isKnown_name arguments, body.tags_known, by cases kind <;> rfl, rest.tags_known⟩
  | splitConditional lead kind arguments body other rest =>
      simp only [Body.tags, List.forall_mem_cons, List.forall_mem_append]
      exact ⟨kind.isKnown_name arguments, body.tags_known, rfl, other.tags_known, by cases kind <;> rfl,
        rest.tags_known⟩

theorem Others.tags_known (self : Others) : ∀ tag ∈ self.tags, tag.1.isKnown = true := by
  cases self with
  | none => exact fun _ mem => nomatch mem
  | elseif arguments body others =>
      simp only [Others.tags, List.forall_mem_cons, List.forall_mem_append]
      exact ⟨rfl, body.tags_known, others.tags_known⟩
  | otherwise body =>
      simp only [Others.tags, List.forall_mem_cons]
      exact ⟨rfl, body.tags_known⟩

end

theorem compile_body (body : Body) (apart : body.standsApart = true) :
    compile (String.ofList body.source) = String.ofList (body.lead.1 ++ sourceOf (body.pieces 0)) := by
  have output := body.outputOf_tags 0 [] []
  rw [List.append_nil] at output
  rw [Body.source, compile_tags body.tags_known body.lead apart, Loops.none, output, outputOf, List.append_nil]

end Phrasebook.Template
