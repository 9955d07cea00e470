import Phrasebook.Proofs.Php.Whole
import Phrasebook.Proofs.Template.Bodies
import Phrasebook.Proofs.Template.Blocks

/-!
# Extracting from a template

A well-nested template, compiled and read as PHP.
-/

namespace Phrasebook.Template

open Php
open FunctionTable (standard)

/-! ## Code in a template -/

def Echo.slot (self : Echo) : Slot := if self.isEscaped then .arguments else .printed

def keptSlots : Option Arguments → List (Slot × List Char)
  | none => []
  | some arguments => if arguments.isBlank then [] else [(.further, arguments.code)]

mutual

/-- The code of the echoes and directives of a body in the order of the template, with its slots. -/
def Body.slots : Body → List (Slot × List Char)
  | .text _ => []
  | .echo _ item rest => (item.slot, item.code) :: rest.slots
  | .branch _ test arguments body others rest =>
    (test.slot, arguments.code) :: (body.slots ++ (others.slots ++ rest.slots))
  | .loop _ kind arguments body rest => (kind.slot, arguments.code) :: (body.slots ++ rest.slots)
  | .forelse _ arguments body empty rest =>
    (.iterating, arguments.code) :: (body.slots ++ (empty.slots ++ rest.slots))
  | .conditional _ _ arguments body rest => keptSlots arguments ++ (body.slots ++ rest.slots)
  | .splitConditional _ _ arguments body other rest =>
    keptSlots arguments ++ (body.slots ++ (other.slots ++ rest.slots))

def Others.slots : Others → List (Slot × List Char)
  | .none => []
  | .elseif arguments body others => (.condition, arguments.code) :: (body.slots ++ others.slots)
  | .otherwise body => body.slots

end

def Body.hasNoNul (self : Body) : Bool := self.lead.hasNoNul && self.tags.all fun tag => tag.2.hasNoNul

theorem slotsOf_append (pieces others : List (Piece × Plain)) :
    slotsOf (pieces ++ others) = slotsOf pieces ++ slotsOf others := by
  induction pieces with
  | nil => rfl
  | cons piece pieces ih =>
      obtain ⟨_ | part, text⟩ := piece
      · exact ih
      · simp [slotsOf, ih]

theorem slotsOf_echo (echo : Echo) (text : Plain) (pieces : List (Piece × Plain)) :
    slotsOf ((.code (.echo echo.isEscaped echo.code), text) :: pieces) = (echo.slot, echo.code) :: slotsOf pieces := by
  unfold Echo.slot
  cases echo.isEscaped <;> rfl

theorem slotsOf_piece (kind : Conditional) (arguments : Option Arguments) (text : Plain)
    (pieces : List (Piece × Plain)) :
    slotsOf ((kind.piece arguments, text) :: pieces) = keptSlots arguments ++ slotsOf pieces := by
  cases arguments with
  | none => rfl
  | some arguments =>
      unfold Conditional.piece keptSlots
      dsimp only
      split <;> rfl

theorem slotsOf_endPiece (kind : Conditional) (text : Plain) (pieces : List (Piece × Plain)) :
    slotsOf ((kind.endPiece, text) :: pieces) = slotsOf pieces := by
  cases kind <;> rfl

mutual

theorem Body.slotsOf_pieces (self : Body) (opened : Nat) : slotsOf (self.pieces opened) = self.slots := by
  cases self with
  | text lead => rfl
  | echo lead item rest => rw [Body.pieces, slotsOf_echo, rest.slotsOf_pieces, Body.slots]
  | branch lead test arguments body others rest =>
      rw [Body.pieces, slotsOf, slotsOf_append, slotsOf_append, slotsOf, body.slotsOf_pieces, others.slotsOf_pieces,
        rest.slotsOf_pieces]
      rfl
  | loop lead kind arguments body rest =>
      rw [Body.pieces, slotsOf, slotsOf_append, slotsOf, body.slotsOf_pieces, rest.slotsOf_pieces]
      rfl
  | forelse lead arguments body empty rest =>
      rw [Body.pieces, slotsOf, slotsOf_append, slotsOf, slotsOf_append, slotsOf, body.slotsOf_pieces,
        empty.slotsOf_pieces, rest.slotsOf_pieces]
      rfl
  | conditional lead kind arguments body rest =>
      rw [Body.pieces, slotsOf_piece, slotsOf_append, slotsOf_endPiece, body.slotsOf_pieces, rest.slotsOf_pieces,
        Body.slots]
  | splitConditional lead kind arguments body other rest =>
      rw [Body.pieces, slotsOf_piece, slotsOf_append, slotsOf, slotsOf_append, slotsOf_endPiece, body.slotsOf_pieces,
        other.slotsOf_pieces, rest.slotsOf_pieces]
      rfl

theorem Others.slotsOf_pieces (self : Others) (opened : Nat) : slotsOf (self.pieces opened) = self.slots := by
  cases self with
  | none => rfl
  | elseif arguments body others =>
      rw [Others.pieces, slotsOf, slotsOf_append, body.slotsOf_pieces, others.slotsOf_pieces]
      rfl
  | otherwise body =>
      rw [Others.pieces, slotsOf, body.slotsOf_pieces]
      rfl

end

/-! ## Whole pieces -/

theorem allFit_cons {piece : Piece} {text : Plain} {pieces : List (Piece × Plain)} (fits : piece.Fits)
    (noNul : text.hasNoNul = true) (others : AllFit pieces) : AllFit ((piece, text) :: pieces) :=
  List.forall_mem_cons.2 ⟨⟨fits, noNul⟩, others⟩

theorem allFit_append {pieces others : List (Piece × Plain)} (fits : AllFit pieces) (fits' : AllFit others) :
    AllFit (pieces ++ others) :=
  List.forall_mem_append.2 ⟨fits, fits'⟩

theorem Echo.section_fits {echo : Echo} (fits : echo.slot.Fits echo.code) :
    (Section.echo echo.isEscaped echo.code).Fits := by
  unfold slot at fits
  cases escaped : echo.isEscaped <;> simpa [Section.Fits, escaped] using fits

theorem Conditional.piece_fits (self : Conditional) {arguments : Option Arguments}
    (fits : ∀ part ∈ keptSlots arguments, part.1.Fits part.2) : (self.piece arguments).Fits := by
  have names : self.name.toList.all isNameChar = true := by cases self <;> rfl
  cases arguments with
  | none => exact names
  | some arguments =>
      unfold piece
      unfold keptSlots at fits
      dsimp only at fits ⊢
      split
      · exact names
      · rename_i some
        rw [if_neg some] at fits
        exact ⟨names, fits _ (List.mem_singleton_self _)⟩

theorem Conditional.endPiece_fits (self : Conditional) : self.endPiece.Fits := by
  cases self <;> first | exact trivial | rfl

mutual

theorem Body.pieces_fit (self : Body) (fits : ∀ part ∈ self.slots, part.1.Fits part.2)
    (noNul : ∀ tag ∈ self.tags, tag.2.hasNoNul = true) (opened : Nat) : AllFit (self.pieces opened) := by
  cases self with
  | text lead => exact fun _ mem => nomatch mem
  | echo lead item rest =>
      simp only [Body.slots, Body.tags, List.forall_mem_cons] at fits noNul
      exact allFit_cons (Echo.section_fits fits.1) noNul.1 (rest.pieces_fit fits.2 noNul.2 _)
  | branch lead test arguments body others rest =>
      simp only [Body.slots, Body.tags, List.forall_mem_cons, List.forall_mem_append] at fits noNul
      obtain ⟨code, first, branches, last⟩ := fits
      obtain ⟨text, texts, texts', text', texts''⟩ := noNul
      exact allFit_cons code text (allFit_append (body.pieces_fit first texts _)
        (allFit_append (others.pieces_fit branches texts' _)
          (allFit_cons trivial text' (rest.pieces_fit last texts'' _))))
  | loop lead kind arguments body rest =>
      simp only [Body.slots, Body.tags, List.forall_mem_cons, List.forall_mem_append] at fits noNul
      obtain ⟨code, first, last⟩ := fits
      obtain ⟨text, texts, text', texts'⟩ := noNul
      exact allFit_cons code text (allFit_append (body.pieces_fit first texts _)
        (allFit_cons trivial text' (rest.pieces_fit last texts' _)))
  | forelse lead arguments body empty rest =>
      simp only [Body.slots, Body.tags, List.forall_mem_cons, List.forall_mem_append] at fits noNul
      obtain ⟨code, first, second, last⟩ := fits
      obtain ⟨text, texts, text', texts', text'', texts''⟩ := noNul
      exact allFit_cons code text (allFit_append (body.pieces_fit first texts _)
        (allFit_cons trivial text' (allFit_append (empty.pieces_fit second texts' _)
          (allFit_cons trivial text'' (rest.pieces_fit last texts'' _)))))
  | conditional lead kind arguments body rest =>
      simp only [Body.slots, Body.tags, List.forall_mem_cons, List.forall_mem_append] at fits noNul
      obtain ⟨code, first, last⟩ := fits
      obtain ⟨text, texts, text', texts'⟩ := noNul
      exact allFit_cons (kind.piece_fits code) text (allFit_append (body.pieces_fit first texts _)
        (allFit_cons kind.endPiece_fits text' (rest.pieces_fit last texts' _)))
  | splitConditional lead kind arguments body other rest =>
      simp only [Body.slots, Body.tags, List.forall_mem_cons, List.forall_mem_append] at fits noNul
      obtain ⟨code, first, second, last⟩ := fits
      obtain ⟨text, texts, text', texts', text'', texts''⟩ := noNul
      exact allFit_cons (kind.piece_fits code) text (allFit_append (body.pieces_fit first texts _)
        (allFit_cons trivial text' (allFit_append (other.pieces_fit second texts' _)
          (allFit_cons kind.endPiece_fits text'' (rest.pieces_fit last texts'' _)))))

theorem Others.pieces_fit (self : Others) (fits : ∀ part ∈ self.slots, part.1.Fits part.2)
    (noNul : ∀ tag ∈ self.tags, tag.2.hasNoNul = true) (opened : Nat) : AllFit (self.pieces opened) := by
  cases self with
  | none => exact fun _ mem => nomatch mem
  | elseif arguments body others =>
      simp only [Others.slots, Others.tags, List.forall_mem_cons, List.forall_mem_append] at fits noNul
      obtain ⟨code, first, branches⟩ := fits
      obtain ⟨text, texts, texts'⟩ := noNul
      exact allFit_cons code text (allFit_append (body.pieces_fit first texts _)
        (others.pieces_fit branches texts' _))
  | otherwise body =>
      simp only [Others.slots, Others.tags, List.forall_mem_cons] at fits noNul
      exact allFit_cons trivial noNul.1 (body.pieces_fit fits noNul.2 _)

end

/-! ## Nesting -/

mutual

/-- Whether a branch has a second condition. -/
def Body.hasElseif : Body → Bool
  | .text _ => false
  | .echo _ _ rest => rest.hasElseif
  | .branch _ _ _ body others rest => body.hasElseif || (others.hasElseif || rest.hasElseif)
  | .loop _ _ _ body rest => body.hasElseif || rest.hasElseif
  | .forelse _ _ body empty rest => body.hasElseif || (empty.hasElseif || rest.hasElseif)
  | .conditional _ _ _ body rest => body.hasElseif || rest.hasElseif
  | .splitConditional _ _ _ body other rest => body.hasElseif || (other.hasElseif || rest.hasElseif)

def Others.hasElseif : Others → Bool
  | .none => false
  | .elseif _ _ _ => true
  | .otherwise body => body.hasElseif

end

/-- What may become of the open blocks when the `else` and the `endif` of conditionals meet them: branches are split,
or are closed before their own end. -/
inductive Loosened (blocks : List Block) : List Block → Prop
  | refl : Loosened blocks blocks
  | split {rest : List Block} (before : Loosened blocks (.branch false :: rest)) :
      Loosened blocks (.branch true :: rest)
  | close {split : Bool} {rest : List Block} (before : Loosened blocks (.branch split :: rest)) :
      Loosened blocks rest

namespace Loosened

variable {blocks blocks' blocks'' : List Block}

theorem trans (first : Loosened blocks blocks') (second : Loosened blocks' blocks'') : Loosened blocks blocks'' := by
  induction second with
  | refl => exact first
  | split _ ih => exact .split ih
  | close _ ih => exact .close ih

theorem eq_of_outside (loosened : Loosened blocks blocks') (outside : ∀ split, blocks.head? ≠ some (.branch split)) :
    blocks' = blocks := by
  induction loosened with
  | refl => rfl
  | split _ ih => exact absurd (congrArg List.head? ih.symm) (outside _)
  | close _ ih => exact absurd (congrArg List.head? ih.symm) (outside _)

theorem cases_branch {split : Bool} (loosened : Loosened (.branch split :: blocks) blocks') :
    (∃ split', blocks' = .branch split' :: blocks) ∨ Loosened blocks blocks' := by
  induction loosened with
  | refl => exact .inl ⟨split, rfl⟩
  | split _ ih =>
      rcases ih with ⟨_, same⟩ | outer
      · exact .inl ⟨true, congrArg _ (List.cons.inj same).2⟩
      · exact .inr (.split outer)
  | close _ ih =>
      rcases ih with ⟨_, same⟩ | outer
      · exact .inr ((List.cons.inj same).2 ▸ .refl)
      · exact .inr (.close outer)

end Loosened

/-- Pieces that stand anywhere, and only loosen the open blocks. -/
def Loosens (pieces : List (Piece × Plain)) (blocks : List Block) : Prop :=
  ∃ blocks', blocksAfter pieces blocks = some blocks' ∧ Loosened blocks blocks'

namespace Loosens

variable {text : Plain} {whole pieces others : List (Piece × Plain)} {blocks blocks' : List Block}

theorem of_step (step : blocksAfter whole blocks = blocksAfter others blocks') (loosened : Loosened blocks blocks')
    (rest : Loosens others blocks') : Loosens whole blocks := by
  obtain ⟨blocks'', after, further⟩ := rest
  exact ⟨blocks'', step.trans after, loosened.trans further⟩

theorem append (first : Loosens pieces blocks) (second : ∀ blocks, Loosens others blocks) :
    Loosens (pieces ++ others) blocks := by
  obtain ⟨blocks', after, loosened⟩ := first
  exact .of_step (by rw [blocksAfter_append, after, Option.bind_some]) loosened (second blocks')

theorem otherwise (rest : ∀ blocks, Loosens others blocks) :
    Loosens ((.code .otherwise, text) :: others) blocks := by
  match blocks with
  | .branch false :: blocks =>
      have step : blocksAfter ((.code .otherwise, text) :: others) (.branch false :: blocks) =
          blocksAfter others (.branch true :: blocks) := rfl
      exact .of_step step (.split .refl) (rest _)
  | .branch true :: blocks => exact rest _
  | .loop _ :: _ => exact rest _
  | [] => exact rest _

theorem endif (rest : ∀ blocks, Loosens others blocks) : Loosens ((.code .endif, text) :: others) blocks := by
  match blocks with
  | .branch split :: blocks =>
      have step : blocksAfter ((.code .endif, text) :: others) (.branch split :: blocks) =
          blocksAfter others blocks := rfl
      exact .of_step step (.close .refl) (rest _)
  | .loop _ :: _ => exact rest _
  | [] => exact rest _

theorem opener (kind : Conditional) (arguments : Option Arguments) (rest : Loosens others blocks) :
    Loosens ((kind.piece arguments, text) :: others) blocks := by
  cases arguments with
  | none => exact rest
  | some arguments =>
      unfold Conditional.piece
      dsimp only
      split <;> exact rest

theorem closer (kind : Conditional) (rest : ∀ blocks, Loosens others blocks) :
    Loosens ((kind.endPiece, text) :: others) blocks := by
  unfold Conditional.endPiece
  cases kind.borrowsEnd with
  | true => exact endif rest
  | false => exact rest _

theorem branch (opens : blocksAfter whole blocks =
      blocksAfter (pieces ++ (.code .endif, text) :: others) (.branch false :: blocks))
    (inner : ∀ blocks, Loosens pieces blocks) (rest : ∀ blocks, Loosens others blocks) : Loosens whole blocks := by
  obtain ⟨blocks', after, loosened⟩ := inner (.branch false :: blocks)
  rw [blocksAfter_append, after, Option.bind_some] at opens
  rcases loosened.cases_branch with ⟨_, rfl⟩ | outer
  · have closed : blocksAfter whole blocks = blocksAfter others blocks := opens
    exact .of_step closed .refl (rest blocks)
  · exact .of_step opens outer (endif rest)

theorem loop (kind : Loop) (inner : ∀ blocks, Loosens pieces blocks) :
    blocksAfter (pieces ++ others) (.loop kind :: blocks) = blocksAfter others (.loop kind :: blocks) := by
  obtain ⟨blocks', after, loosened⟩ := inner (.loop kind :: blocks)
  rw [blocksAfter_append, after, loosened.eq_of_outside fun _ head => nomatch head]
  rfl

end Loosens

mutual

theorem Body.loosens (self : Body) (plain : self.hasElseif = false) (opened : Nat) (blocks : List Block) :
    Loosens (self.pieces opened) blocks := by
  -- A branch or loop is pushed by its first section; conditionals push nothing, so that their `else` and `endif` meet
  -- the branch that they stand in, and its own `endif` may find it closed.
  cases self with
  | text lead => exact ⟨blocks, rfl, .refl⟩
  | echo lead item rest => exact rest.loosens plain opened blocks
  | branch lead test arguments body branches rest =>
      simp only [Body.hasElseif, Bool.or_eq_false_iff] at plain
      have inner (blocks : List Block) : Loosens (body.pieces opened ++ branches.pieces (opened + body.loops)) blocks :=
        (body.loosens plain.1 _ _).append (branches.loosens plain.2.1 _)
      have opens : blocksAfter ((Body.branch lead test arguments body branches rest).pieces opened) blocks =
          blocksAfter (body.pieces opened ++ branches.pieces (opened + body.loops) ++
            (.code .endif, rest.lead) :: rest.pieces (opened + body.loops + branches.loops))
              (.branch false :: blocks) := by
        rw [List.append_assoc]
        rfl
      exact .branch opens inner (rest.loosens plain.2.2 _)
  | loop lead kind arguments body rest =>
      simp only [Body.hasElseif, Bool.or_eq_false_iff] at plain
      refine .of_step ?_ .refl (rest.loosens plain.2 (opened + body.loops) blocks)
      refine (Loosens.loop kind (body.loosens plain.1 opened)).trans ?_
      change (if kind = kind then some blocks else none).bind _ = _
      rw [if_pos rfl]
      rfl
  | forelse lead arguments body empty rest =>
      simp only [Body.hasElseif, Bool.or_eq_false_iff] at plain
      have opens : blocksAfter ((Body.forelse lead arguments body empty rest).pieces opened) blocks =
          blocksAfter (empty.pieces (opened + 1 + body.loops) ++
            (.code .endif, rest.lead) :: rest.pieces (opened + 1 + body.loops + empty.loops))
              (.branch false :: blocks) :=
        Loosens.loop .iterating (body.loosens plain.1 (opened + 1))
      exact .branch opens (empty.loosens plain.2.1 _) (rest.loosens plain.2.2 _)
  | conditional lead kind arguments body rest =>
      simp only [Body.hasElseif, Bool.or_eq_false_iff] at plain
      exact .opener kind arguments ((body.loosens plain.1 _ _).append fun _ => .closer kind (rest.loosens plain.2 _))
  | splitConditional lead kind arguments body other rest =>
      simp only [Body.hasElseif, Bool.or_eq_false_iff] at plain
      refine .opener kind arguments ((body.loosens plain.1 _ _).append fun _ => .otherwise fun _ => ?_)
      exact (other.loosens plain.2.1 _ _).append fun _ => .closer kind (rest.loosens plain.2.2 _)

theorem Others.loosens (self : Others) (plain : self.hasElseif = false) (opened : Nat) (blocks : List Block) :
    Loosens (self.pieces opened) blocks := by
  cases self with
  | none => exact ⟨blocks, rfl, .refl⟩
  | elseif arguments body branches => cases plain
  | otherwise body => exact .otherwise (body.loosens plain _)

end

def greeting : Body :=
  .branch ⟨[], rfl⟩ .holds ⟨[], "$user".toList, rfl, rfl⟩
    (.echo ⟨[' '], rfl⟩ ⟨.escaped, " __('hello') ".toList, rfl, fun _ => ⟨rfl, rfl⟩⟩ (.text ⟨[' '], rfl⟩)) .none
    (.splitConditional ⟨[' '], rfl⟩ .auth none (.text ⟨" here ".toList, rfl⟩)
      (.echo ⟨[' '], rfl⟩ ⟨.tripled, "__('bye')".toList, rfl, fun same => nomatch same⟩ (.text ⟨[' '], rfl⟩))
      (.text ⟨[], rfl⟩))

section Results

variable {compiler : TemplateCompiler} {table : FunctionTable} {kind : FileKind} {source : String}
  {found : List Occurrence}

end Results

end Phrasebook.Template
