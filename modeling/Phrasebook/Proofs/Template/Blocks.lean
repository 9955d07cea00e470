import Phrasebook.Proofs.Php.Faultless
import Phrasebook.Proofs.Template.Pieces
import Phrasebook.Proofs.Template.Statements

namespace Phrasebook.Template

open Php
open FunctionTable (standard)
open Rule (isWordAmong)

inductive Block
  | branch (split : Bool)
  | loop (kind : Loop)
  deriving DecidableEq, Repr

namespace Section

/-- The open blocks after a section, the innermost first. There are none if the section cannot stand where it does. -/
def blocksAfter : Section → List Block → Option (List Block)
  | test .., blocks => some (.branch false :: blocks)
  | elseif _, .branch false :: blocks => some (.branch false :: blocks)
  | elseif _, _ => none
  | otherwise, .branch false :: blocks => some (.branch true :: blocks)
  | endif, .branch _ :: blocks => some blocks
  | loop kind _, blocks => some (.loop kind :: blocks)
  | endloop kind, .loop kind' :: blocks => if kind = kind' then some blocks else none
  | endloop _, _ => none
  | forelse .., blocks => some (.loop .iterating :: blocks)
  | forelseEmpty _, .loop .iterating :: blocks => some (.branch false :: blocks)
  | forelseEmpty _, _ => none
  | _, blocks => some blocks

def slots : Section → List (Slot × List Char)
  | echo true code => [(.arguments, code)]
  | echo false code => [(.printed, code)]
  | test kind code => [(kind.slot, code)]
  | elseif code => [(.condition, code)]
  | loop kind code => [(kind.slot, code)]
  | forelse _ code => [(.iterating, code)]
  | directive _ code => [(.further, code)]
  | _ => []

end Section

def blocksAfter : List (Piece × Plain) → List Block → Option (List Block)
  | [], blocks => some blocks
  | (.bare _, _) :: pieces, blocks => blocksAfter pieces blocks
  | (.code part, _) :: pieces, blocks => (part.blocksAfter blocks).bind (blocksAfter pieces)

def slotsOf : List (Piece × Plain) → List (Slot × List Char)
  | [] => []
  | (.bare _, _) :: pieces => slotsOf pieces
  | (.code part, _) :: pieces => part.slots ++ slotsOf pieces

def callsOf (table : FunctionTable) (slots : List (Slot × List Char)) : List Occurrence :=
  slots.flatMap fun (slot, code) => slot.calls table code

theorem blocksAfter_append (pieces others : List (Piece × Plain)) (blocks : List Block) :
    blocksAfter (pieces ++ others) blocks = (blocksAfter pieces blocks).bind (blocksAfter others) := by
  induction pieces generalizing blocks with
  | nil => rfl
  | cons piece pieces ih =>
      obtain ⟨_ | part, text⟩ := piece
      · exact ih blocks
      · simp only [List.cons_append, blocksAfter, Option.bind_assoc]
        congr 1
        exact funext ih

namespace Block

def words : Block → List String
  | branch false => branchWords
  | branch true => ["endif"]
  | loop kind => [kind.endKeyword]

def remainder : Block → Rule Phrase
  | branch false => branchBody
  | branch true => blockBody "endif"
  | loop kind => blockBody kind.endKeyword

end Block

/-- The open blocks are read to their ends one after the other, and then the file, with some calls. -/
def Closes : List Block → List Token → List Occurrence → Prop
  | [], tokens, found => Yields (.seq (.many (.call (.statement false))) (Rule.kind .finish)) tokens [] found
  | block :: blocks, tokens, found =>
    ∃ rest first others, found = first ++ others ∧ Yields block.remainder tokens rest first ∧ Closes blocks rest others

section Steps

variable {block : Block} {blocks blocks' : List Block} {before gap : List Skipped} {code : List Char}
  {tokens rest : List Token} {found found' : List Occurrence}

theorem Closes.close (remainder : Yields block.remainder tokens rest found) (closes : Closes blocks rest found') :
    Closes (block :: blocks) tokens (found ++ found') :=
  ⟨rest, found, found', rfl, remainder, closes⟩

theorem Closes.statement (starter : Starter)
    (others : ∀ block ∈ blocks.head?, isWordAmong block.words (starter.token before).lexeme = false)
    (statement : ∀ inside, Yields (.call (.statement inside)) (starter.token before :: tokens) rest found)
    (closes : Closes blocks rest found') : Closes blocks (starter.token before :: tokens) (found ++ found') := by
  cases blocks with
  | nil => exact .many_seq rfl ((statement false).seq closes)
  | cons block blocks =>
      obtain ⟨rest', first, last, rfl, remainder, closes⟩ := closes
      rw [← List.append_assoc]
      have other := others block rfl
      have whole : Yields block.remainder (starter.token before :: tokens) rest' (found ++ first) := by
        match block with
        | .branch false => exact starter.yields_among other (statement true) remainder
        | .branch true => exact starter.yields_among other (statement false) remainder
        | .loop _ => exact starter.yields_among other (statement false) remainder
      exact .close whole closes

theorem Closes.simple (starter : Starter) {part : Section} {tokens' : List Token}
    (begins : part.tokens before rest = starter.token before :: tokens')
    (others : ∀ block ∈ blocks.head?, isWordAmong block.words (starter.token before).lexeme = false)
    (statement : ∀ inside, Yields (.call (.statement inside)) (part.tokens before rest) rest found)
    (closes : Closes blocks rest found') :
    Closes blocks (part.tokens before rest) (found ++ found') := by
  rw [begins] at statement ⊢
  exact .statement starter others statement closes

def Starter.isFree : Starter → Bool
  | otherwise => false
  | endif => false
  | _ => true

theorem Starter.not_among (starter : Starter) (free : starter.isFree = true) :
    ∀ block ∈ blocks.head?, isWordAmong block.words (starter.token before).lexeme = false := by
  intro block _
  cases block with
  | branch split =>
      cases starter with
      | otherwise | endif => cases free
      | loop kind => cases split <;> cases kind <;> rfl
      | _ => cases split <;> rfl
  | loop kind =>
      cases starter with
      | loop other => cases kind <;> cases other <;> rfl
      | _ => cases kind <;> rfl

theorem Closes.branch (condition : Yields parenthesized tokens (.symbol gap ":" :: rest) found)
    (closes : Closes (.branch false :: blocks) rest found') :
    Closes blocks (.word before "if" :: tokens) (found ++ found') := by
  obtain ⟨rest', first, last, rfl, remainder, closes⟩ := closes
  rw [← List.append_assoc]
  exact .statement .branch (Starter.not_among .branch rfl) (fun _ => yields_branch condition remainder) closes

theorem Closes.loop (kind : Loop) (fits : kind.slot.Fits code) (closes : Closes (.loop kind :: blocks) rest found) :
    Closes blocks ((Section.loop kind code).tokens before rest) (kind.slot.calls standard code ++ found) := by
  obtain ⟨rest', first, last, rfl, remainder, closes⟩ := closes
  rw [← List.append_assoc]
  exact .statement (.loop kind) (Starter.not_among (.loop kind) rfl) (fun _ => yields_loop kind fits remainder) closes

theorem Closes.endLoop (kind : Loop) (closes : Closes blocks rest found) :
    Closes (.loop kind :: blocks) ((Section.endloop kind).tokens before rest) found := by
  have ended : Yields (Block.loop kind).remainder ((Section.endloop kind).tokens before rest) rest [] :=
    yields_endloop kind
  exact .close ended closes

theorem Closes.setFlag (number : Nat) (flag : Bool) (closes : Closes blocks rest found) :
    Closes blocks (flagTokens before number flag rest) found :=
  .statement .dollar (Starter.not_among .dollar rfl) (fun _ => yields_setFlag number flag) closes

theorem Closes.otherwise (outside : blocks.head? ≠ some (.branch false)) (closes : Closes blocks rest found) :
    Closes blocks (Section.otherwise.tokens before rest) found := by
  refine .simple .otherwise rfl (fun block head => ?_) (fun _ => yields_otherwise) closes
  match block with
  | .branch false => exact absurd head outside
  | .branch true => rfl
  | .loop kind => cases kind <;> rfl

theorem Closes.endif (outside : ∀ split, blocks.head? ≠ some (.branch split)) (closes : Closes blocks rest found) :
    Closes blocks (Section.endif.tokens before rest) found := by
  refine .simple .endif rfl (fun block head => ?_) (fun _ => yields_endif) closes
  cases block with
  | branch split => exact absurd head (outside split)
  | loop kind => cases kind <;> rfl

theorem Closes.forelseEmpty (number : Nat) (closes : Closes (.branch false :: blocks) rest found) :
    Closes (.loop .iterating :: blocks) ((Section.forelseEmpty number).tokens before rest) found := by
  have condition : Yields parenthesized
      (.symbol blank "(" :: .symbol [] "$" :: .word [] (flagWord number) :: .symbol [] ")" :: .symbol [] ":" :: rest)
      (.symbol [] ":" :: rest) [] :=
    .token_seq rfl ((Yields.flag .parenthesis (flagWord number)).seq (.lexeme rfl))
  exact .endLoop .iterating (.branch condition closes)

end Steps

theorem callsOf_single (slot : Slot) (code : List Char) :
    callsOf standard [(slot, code)] = slot.calls standard code := by
  simp [callsOf]

theorem Section.closes (self : Section) (fits : self.Fits) {blocks blocks' : List Block} {before : List Skipped}
    {rest : List Token} {found : List Occurrence} (after : self.blocksAfter blocks = some blocks')
    (closes : Closes blocks' rest found) :
    Closes blocks (self.tokens before rest) (callsOf standard self.slots ++ found) := by
  -- Each section reads its own statement or the end of the innermost block, and hands the rest to `closes`.
  cases self with
  | echo escaped code =>
      cases after
      cases escaped with
      | true =>
          rw [slots, callsOf_single]
          exact .simple .echo rfl (Starter.not_among .echo rfl) (fun _ => yields_escaped fits) closes
      | false =>
          rw [slots, callsOf_single]
          have echo : ∀ block ∈ blocks.head?, isWordAmong block.words (Starter.echo.token before).lexeme = false :=
            Starter.not_among .echo rfl
          cases marked : (Slot.printed.stopAfter code).afterMarkup with
          | false => exact .simple .echo rfl echo (fun _ => yields_raw fits (yields_semicolon marked)) closes
          | true =>
              have ended : Closes blocks (Slot.printed.stopAfter code :: rest) found :=
                .statement .semicolon (Starter.not_among .semicolon rfl) (fun _ => yields_nothing) closes
              exact .statement .echo echo (fun _ => yields_raw fits (yields_markup marked)) ended
  | test kind code =>
      cases after
      rw [slots, callsOf_single]
      exact .branch (yields_parenthesized kind fits) closes
  | elseif code =>
      match blocks, after with
      | .branch false :: blocks, rfl =>
          obtain ⟨rest', first, last, rfl, remainder, closes⟩ := closes
          rw [slots, callsOf_single, ← List.append_assoc]
          exact .close (yields_elseif fits remainder) closes
  | otherwise =>
      match blocks, after with
      | [], rfl => exact .otherwise (fun head => nomatch head) closes
      | .loop kind :: blocks, rfl => exact .otherwise (fun head => nomatch head) closes
      | .branch true :: blocks, rfl => exact .otherwise (fun head => nomatch head) closes
      | .branch false :: blocks, rfl =>
          obtain ⟨rest', first, last, rfl, remainder, closes⟩ := closes
          have whole : Yields (Block.branch false).remainder (Section.otherwise.tokens before rest) rest' first :=
            yields_branchEnd_else remainder
          change Closes _ _ (first ++ last)
          exact .close whole closes
  | endif =>
      match blocks, after with
      | [], rfl => exact .endif (fun _ head => nomatch head) closes
      | .loop kind :: blocks, rfl => exact .endif (fun _ head => nomatch head) closes
      | .branch split :: blocks, rfl =>
          have ended : Yields (Block.branch split).remainder (Section.endif.tokens before rest) rest [] := by
            cases split with
            | false => exact yields_branchEnd
            | true => exact yields_blockEnd_branch
          exact .close ended closes
  | loop kind code =>
      cases after
      rw [slots, callsOf_single]
      exact .loop kind fits closes
  | endloop kind =>
      match blocks, after with
      | .loop kind' :: blocks, after =>
          obtain ⟨rfl, same⟩ := Option.ite_none_right_eq_some.1 after
          cases same
          exact .endLoop kind closes
  | forelse number code =>
      cases after
      rw [slots, callsOf_single]
      exact .setFlag number true (.loop .iterating fits (.setFlag number false closes))
  | forelseEmpty number =>
      match blocks, after with
      | .loop .iterating :: blocks, rfl => exact .forelseEmpty number closes
  | directive name code =>
      cases after
      rw [slots, callsOf_single]
      exact .simple .dollar rfl (Starter.not_among .dollar rfl) (fun _ => yields_directive fits.2) closes
  | bareDirective name =>
      cases after
      exact .simple .dollar rfl (Starter.not_among .dollar rfl) (fun _ => yields_bareDirective name) closes

end Phrasebook.Template
