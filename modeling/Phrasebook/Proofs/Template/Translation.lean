import Phrasebook.Proofs.Template.Balance
import Phrasebook.Proofs.Template.Bodies

namespace Phrasebook.Template

def Echo.php (self : Echo) : List Char :=
  if self.isEscaped then "<?php echo e(".toList ++ self.code ++ "); ?>".toList
  else "<?php echo ".toList ++ self.code ++ "; ?>".toList

def Test.php (code : List Char) : Test → List Char
  | holds => "<?php if(".toList ++ code ++ "): ?>".toList
  | fails => "<?php if (! (".toList ++ code ++ ")): ?>".toList
  | isset => "<?php if(isset(".toList ++ code ++ ")): ?>".toList
  | empty => "<?php if(empty(".toList ++ code ++ ")): ?>".toList

def elseifPhp (code : List Char) : List Char := "<?php elseif(".toList ++ code ++ "): ?>".toList

def elsePhp : List Char := "<?php else: ?>".toList

def endifPhp : List Char := "<?php endif; ?>".toList

namespace Loop

def php (code : List Char) : Loop → List Char
  | counting => "<?php for(".toList ++ code ++ "): ?>".toList
  | iterating => "<?php foreach(".toList ++ code ++ "): ?>".toList
  | repeating => "<?php while(".toList ++ code ++ "): ?>".toList

def endPhp : Loop → List Char
  | counting => "<?php endfor; ?>".toList
  | iterating => "<?php endforeach; ?>".toList
  | repeating => "<?php endwhile; ?>".toList

end Loop

def forelsePhp (number : Nat) (code : List Char) : List Char :=
  "<?php $__empty_".toList ++ (toString number).toList ++ " = true; foreach(".toList ++ code ++
    "): $__empty_".toList ++ (toString number).toList ++ " = false; ?>".toList

def forelseEmptyPhp (number : Nat) : List Char :=
  "<?php endforeach; if ($__empty_".toList ++ (toString number).toList ++ "): ?>".toList

namespace Conditional

/-- A condition that the compiler does not know is a call with the name of the directive, or text if it has no
arguments. -/
def php (self : Conditional) : Option Arguments → List Char
  | none => '@' :: self.name.toList
  | some arguments =>
    if arguments.isBlank then "<?php $__env->directive('".toList ++ self.name.toList ++ "'); ?>".toList
    else "<?php $__env->directive('".toList ++ self.name.toList ++ "', ".toList ++ arguments.code ++ "); ?>".toList

def endPhp (self : Conditional) : List Char :=
  if self.borrowsEnd then endifPhp else '@' :: self.endName.toList

end Conditional

mutual

def Body.php (opened : Nat) : Body → List Char
  | .text lead => lead.1
  | .echo lead item rest => lead.1 ++ item.php ++ rest.php opened
  | .branch lead test arguments body others rest =>
    lead.1 ++ test.php arguments.code ++ body.php opened ++ others.php (opened + body.loops) ++ endifPhp ++
      rest.php (opened + body.loops + others.loops)
  | .loop lead kind arguments body rest =>
    lead.1 ++ kind.php arguments.code ++ body.php opened ++ kind.endPhp ++ rest.php (opened + body.loops)
  | .forelse lead arguments body empty rest =>
    lead.1 ++ forelsePhp (opened + 1) arguments.code ++ body.php (opened + 1) ++ forelseEmptyPhp (opened + 1) ++
      empty.php (opened + 1 + body.loops) ++ endifPhp ++ rest.php (opened + 1 + body.loops + empty.loops)
  | .conditional lead kind arguments body rest =>
    lead.1 ++ kind.php arguments ++ body.php opened ++ kind.endPhp ++ rest.php (opened + body.loops)
  | .splitConditional lead kind arguments body other rest =>
    lead.1 ++ kind.php arguments ++ body.php opened ++ elsePhp ++ other.php (opened + body.loops) ++ kind.endPhp ++
      rest.php (opened + body.loops + other.loops)

def Others.php (opened : Nat) : Others → List Char
  | .none => []
  | .elseif arguments body others =>
    elseifPhp arguments.code ++ body.php opened ++ others.php (opened + body.loops)
  | .otherwise body => elsePhp ++ body.php opened

end

mutual

def Body.numbers (opened : Nat) : Body → List Nat
  | .text _ => []
  | .echo _ _ rest => rest.numbers opened
  | .branch _ _ _ body others rest =>
    body.numbers opened ++ others.numbers (opened + body.loops) ++ rest.numbers (opened + body.loops + others.loops)
  | .loop _ _ _ body rest => body.numbers opened ++ rest.numbers (opened + body.loops)
  | .forelse _ _ body empty rest =>
    (opened + 1) :: (body.numbers (opened + 1) ++ empty.numbers (opened + 1 + body.loops) ++
      rest.numbers (opened + 1 + body.loops + empty.loops))
  | .conditional _ _ _ body rest => body.numbers opened ++ rest.numbers (opened + body.loops)
  | .splitConditional _ _ _ body other rest =>
    body.numbers opened ++ other.numbers (opened + body.loops) ++ rest.numbers (opened + body.loops + other.loops)

def Others.numbers (opened : Nat) : Others → List Nat
  | .none => []
  | .elseif _ body others => body.numbers opened ++ others.numbers (opened + body.loops)
  | .otherwise body => body.numbers opened

end

def Tag.isForelse : Tag → Bool
  | echo _ => false
  | directive name _ => name == "forelse"

section Sections

variable (number : Nat) (code : List Char)

theorem Echo.source_section (self : Echo) : (Section.echo self.isEscaped self.code).source = self.php := by
  unfold Section.source Section.text Echo.php
  cases self.isEscaped <;> (simp only [List.append_assoc]; rfl)

theorem Test.source_section (self : Test) : (Section.test self code).source = self.php code := by
  have source : (Section.test self code).source =
      ("<?php".toList ++ self.around.1.toList) ++ code ++ (self.around.2.toList ++ "?>".toList) := by
    unfold Section.source Section.text
    simp only [List.append_assoc]
  rw [source]
  cases self <;> rfl

theorem Loop.source_section (self : Loop) : (Section.loop self code).source = self.php code := by
  have source : (Section.loop self code).source =
      ("<?php".toList ++ ' ' :: self.keyword.toList ++ ['(']) ++ code ++ ("): ".toList ++ "?>".toList) := by
    unfold Section.source Section.text
    simp only [List.append_assoc, List.cons_append, List.nil_append]
  rw [source]
  cases self <;> rfl

theorem Loop.source_endSection (self : Loop) : (Section.endloop self).source = self.endPhp := by
  cases self <;> rfl

theorem source_elseif : (Section.elseif code).source = elseifPhp code := by
  unfold Section.source Section.text
  simp only [List.append_assoc]
  rfl

theorem source_otherwise : Section.otherwise.source = elsePhp := rfl

theorem source_endif : Section.endif.source = endifPhp := rfl

theorem source_forelse : (Section.forelse number code).source = forelsePhp number code := by
  unfold Section.source Section.text forelsePhp flagName
  simp

theorem source_forelseEmpty : (Section.forelseEmpty number).source = forelseEmptyPhp number := by
  unfold Section.source Section.text forelseEmptyPhp flagName
  simp

theorem Conditional.source_piece (self : Conditional) (arguments : Option Arguments) :
    (self.piece arguments).source = self.php arguments := by
  cases arguments with
  | none => rfl
  | some arguments =>
      unfold Conditional.piece Conditional.php
      dsimp only
      split <;> (unfold Piece.source Section.source Section.text; simp)

theorem Conditional.source_endPiece (self : Conditional) : self.endPiece.source = self.endPhp := by
  unfold Conditional.endPiece Conditional.endPhp
  split <;> rfl

end Sections

mutual

theorem Body.source_pieces (self : Body) (opened : Nat) :
    self.lead.1 ++ sourceOf (self.pieces opened) = self.php opened := by
  cases self with
  | text lead => exact List.append_nil _
  | echo lead item rest =>
      rw [Body.php, ← rest.source_pieces, ← item.source_section]
      simp [Body.lead, Body.pieces, sourceOf, Piece.source]
  | branch lead test arguments body others rest =>
      rw [Body.php, ← body.source_pieces, ← others.source_pieces, ← rest.source_pieces, ← test.source_section,
        ← source_endif]
      simp [Body.lead, Body.pieces, sourceOf, sourceOf_append, Piece.source]
  | loop lead kind arguments body rest =>
      rw [Body.php, ← body.source_pieces, ← rest.source_pieces, ← kind.source_section, ← kind.source_endSection]
      simp [Body.lead, Body.pieces, sourceOf, sourceOf_append, Piece.source]
  | forelse lead arguments body empty rest =>
      rw [Body.php, ← body.source_pieces, ← empty.source_pieces, ← rest.source_pieces, ← source_forelse,
        ← source_forelseEmpty, ← source_endif]
      simp [Body.lead, Body.pieces, sourceOf, sourceOf_append, Piece.source]
  | conditional lead kind arguments body rest =>
      rw [Body.php, ← body.source_pieces, ← rest.source_pieces, ← kind.source_piece, ← kind.source_endPiece]
      simp [Body.lead, Body.pieces, sourceOf, sourceOf_append]
  | splitConditional lead kind arguments body other rest =>
      rw [Body.php, ← body.source_pieces, ← other.source_pieces, ← rest.source_pieces, ← kind.source_piece,
        ← kind.source_endPiece, ← source_otherwise]
      simp [Body.lead, Body.pieces, sourceOf, sourceOf_append, Piece.source]

theorem Others.source_pieces (self : Others) (opened : Nat) : sourceOf (self.pieces opened) = self.php opened := by
  cases self with
  | none => rfl
  | elseif arguments body others =>
      rw [Others.php, ← body.source_pieces, ← others.source_pieces, ← source_elseif]
      simp [Others.pieces, sourceOf, sourceOf_append, Piece.source]
  | otherwise body =>
      rw [Others.php, ← body.source_pieces, ← source_otherwise]
      simp [Others.pieces, sourceOf, Piece.source]

end

@[simp] theorem Tag.isForelse_echo (item : Echo) : (Tag.echo item).isForelse = false := rfl

@[simp] theorem Tag.isForelse_directive (name : String) (arguments : Option Arguments) :
    (Tag.directive name arguments).isForelse = (name == "forelse") := rfl

@[simp] theorem Conditional.name_ne_forelse (self : Conditional) : self.name ≠ "forelse" := by cases self <;> decide

@[simp] theorem Conditional.endName_ne_forelse (self : Conditional) : self.endName ≠ "forelse" := by
  cases self <;> decide

mutual

theorem Body.countP_tags (self : Body) : self.tags.countP (·.1.isForelse) = self.loops := by
  cases self with
  | text lead => rfl
  | echo lead item rest => simp [Body.tags, Body.loops, rest.countP_tags]
  | branch lead test arguments body others rest =>
      have opening : (test.name == "forelse") = false := by cases test <;> rfl
      have ending : (test.endName == "forelse") = false := by cases test <;> rfl
      simp [Body.tags, Body.loops, body.countP_tags, others.countP_tags, rest.countP_tags, opening, ending,
        Nat.add_assoc]
  | loop lead kind arguments body rest =>
      have opening : (kind.keyword == "forelse") = false := by cases kind <;> rfl
      have ending : (kind.endKeyword == "forelse") = false := by cases kind <;> rfl
      simp [Body.tags, Body.loops, body.countP_tags, rest.countP_tags, opening, ending]
  | forelse lead arguments body empty rest =>
      simp [Body.tags, Body.loops, body.countP_tags, empty.countP_tags, rest.countP_tags]
      omega
  | conditional lead kind arguments body rest =>
      simp [Body.tags, Body.loops, body.countP_tags, rest.countP_tags]
  | splitConditional lead kind arguments body other rest =>
      simp [Body.tags, Body.loops, body.countP_tags, other.countP_tags, rest.countP_tags, Nat.add_assoc]

theorem Others.countP_tags (self : Others) : self.tags.countP (·.1.isForelse) = self.loops := by
  cases self with
  | none => rfl
  | elseif arguments body others => simp [Others.tags, Others.loops, body.countP_tags, others.countP_tags]
  | otherwise body => simp [Others.tags, Others.loops, body.countP_tags]

end

mutual

theorem Body.numbers_eq (self : Body) (opened : Nat) : self.numbers opened = List.range' (opened + 1) self.loops := by
  cases self with
  | text lead => rfl
  | echo lead item rest => exact rest.numbers_eq opened
  | branch lead test arguments body others rest =>
      rw [Body.numbers, body.numbers_eq, others.numbers_eq, rest.numbers_eq, Body.loops]
      simp only [← List.range'_append_1, ← Nat.add_assoc, Nat.add_right_comm _ _ 1, List.append_assoc]
  | loop lead kind arguments body rest =>
      rw [Body.numbers, body.numbers_eq, rest.numbers_eq, Body.loops]
      simp only [← List.range'_append_1, Nat.add_right_comm _ _ 1]
  | forelse lead arguments body empty rest =>
      rw [Body.numbers, body.numbers_eq, empty.numbers_eq, rest.numbers_eq, Body.loops]
      simp only [← List.range'_append_1, ← Nat.add_assoc, Nat.add_right_comm _ _ 1, List.append_assoc,
        List.range'_one, List.cons_append, List.nil_append]
  | conditional lead kind arguments body rest =>
      rw [Body.numbers, body.numbers_eq, rest.numbers_eq, Body.loops]
      simp only [← List.range'_append_1, Nat.add_right_comm _ _ 1]
  | splitConditional lead kind arguments body other rest =>
      rw [Body.numbers, body.numbers_eq, other.numbers_eq, rest.numbers_eq, Body.loops]
      simp only [← List.range'_append_1, ← Nat.add_assoc, Nat.add_right_comm _ _ 1, List.append_assoc]

theorem Others.numbers_eq (self : Others) (opened : Nat) :
    self.numbers opened = List.range' (opened + 1) self.loops := by
  cases self with
  | none => rfl
  | elseif arguments body others =>
      rw [Others.numbers, body.numbers_eq, others.numbers_eq, Others.loops]
      simp only [← List.range'_append_1, Nat.add_right_comm _ _ 1]
  | otherwise body => exact body.numbers_eq opened

end

/-- A body, whose directives have any balanced code as arguments, is compiled as its tree says, and its loops with a
part for no element have the numbers from one in the order in which they open. -/
theorem compile_translation :
    (∀ gap code : List Char, (∃ arguments : Arguments, arguments.gap = gap ∧ arguments.code = code) ↔
      gap.all (fun c => c == ' ' || c == '\t') = true ∧ Balanced code) ∧
    ∀ body : Body, body.standsApart = true →
      compile (String.ofList body.source) = String.ofList (body.php 0) ∧
        body.numbers 0 = List.range' 1 (body.tags.countP (·.1.isForelse)) := by
  refine ⟨fun gap code => Arguments.exists_iff, fun body apart => ⟨?_, ?_⟩⟩
  · rw [compile_body body apart, body.source_pieces]
  · rw [body.numbers_eq, body.countP_tags]

theorem isPlain_nil : isPlain [] = true := rfl

theorem isPlain_blank : isPlain [' '] = true := rfl

theorem balanced_quoted : Balanced "f(')')".toList :=
  .plain rfl (by decide) (by decide)
    (.list (.string rfl (.plain (by decide) (by decide) .nil) .nil : Balanced "')'".toList) .nil)

def nestedLoops : Body :=
  .forelse ⟨[], isPlain_nil⟩ (.ofBalanced (.of_all (by decide +kernel) : Balanced "$a as $x".toList))
    (.branch ⟨[' '], isPlain_blank⟩ .empty (.ofBalanced balanced_quoted) (.text ⟨" - ".toList, by decide +kernel⟩) .none
      (.forelse ⟨[' '], isPlain_blank⟩ (.ofBalanced (.of_all (by decide +kernel) : Balanced "$x as $y".toList))
        (.echo ⟨[' '], isPlain_blank⟩ ⟨.escaped, " $y ".toList, rfl, fun _ => ⟨rfl, rfl⟩⟩
          (.text ⟨[' '], isPlain_blank⟩))
        (.text ⟨" none ".toList, by decide +kernel⟩)
        (.text ⟨[' '], isPlain_blank⟩)))
    (.forelse ⟨[' '], isPlain_blank⟩ (.ofBalanced (.of_all (by decide +kernel) : Balanced "$b as $z".toList))
      (.text ⟨" z ".toList, by decide +kernel⟩) (.text ⟨[' '], isPlain_blank⟩) (.text ⟨[' '], isPlain_blank⟩))
    (.text ⟨[], isPlain_nil⟩)

theorem compile_nestedLoops :
    nestedLoops.standsApart = true ∧
    nestedLoops.source =
      "@forelse($a as $x) @empty(f(')')) - @endempty @forelse($x as $y) \x7b\x7b $y \x7d\x7d @empty none ".toList ++
        "@endforelse @empty @forelse($b as $z) z @empty @endforelse @endforelse".toList ∧
    compile (String.ofList nestedLoops.source) = String.ofList (
      "<?php $__empty_1 = true; foreach($a as $x): $__empty_1 = false; ?> ".toList ++
        "<?php if(empty(f(')'))): ?> - <?php endif; ?> ".toList ++
        "<?php $__empty_2 = true; foreach($x as $y): $__empty_2 = false; ?> <?php echo e($y); ?> ".toList ++
        "<?php endforeach; if ($__empty_2): ?> none <?php endif; ?> ".toList ++
      "<?php endforeach; if ($__empty_1): ?> ".toList ++
        "<?php $__empty_3 = true; foreach($b as $z): $__empty_3 = false; ?> z ".toList ++
        "<?php endforeach; if ($__empty_3): ?> <?php endif; ?> ".toList ++
      "<?php endif; ?>".toList) ∧
    nestedLoops.numbers 0 = [1, 2, 3] := by
  have apart : nestedLoops.standsApart = true := by decide +kernel
  rw [(compile_translation.2 nestedLoops apart).1]
  exact ⟨apart, by decide +kernel, congrArg String.ofList (by decide +kernel), rfl⟩

def runOn : Body :=
  .branch ⟨[], isPlain_nil⟩ .holds (.ofBalanced (.of_all (by decide +kernel) : Balanced "$a".toList))
    (.text ⟨" x ".toList, by decide +kernel⟩) (.otherwise (.text ⟨"y ".toList, by decide +kernel⟩))
    (.text ⟨[], isPlain_nil⟩)

/-- The name of a directive goes on as long as the word does: no directive stands behind a word or before a
parenthesis, and yet the branch has lost its other part. What stands in two braces may be a comment, an echo in three
braces, or an echo that ends too early. -/
theorem compile_runOn :
    (runOn.source = "@if($a) x @elsey @endif".toList ∧
      (∀ pair ∈ runOn.source.zip runOn.source.tail, pair.2 = '@' → isWordChar pair.1 = false) ∧
      runOn.source.count '(' = 1 ∧
      String.ofList (runOn.php 0) = "<?php if($a): ?> x <?php else: ?>y <?php endif; ?>" ∧
      compile (String.ofList runOn.source) = "<?php if($a): ?> x @elsey <?php endif; ?>") ∧
    compile "\x7b\x7b--$i\x7d\x7d" = "\x7b\x7b--$i\x7d\x7d" ∧
    compile "\x7b\x7b\x7b$a\x7d\x7d\x7d" = "<?php echo e($a); ?>" ∧
    compile "\x7b\x7b '\x7d\x7d' \x7d\x7d" = "<?php echo e('); ?>' \x7d\x7d" :=
  ⟨⟨by decide +kernel, by decide +kernel, by decide +kernel, by decide +kernel, by decide +kernel⟩,
    by decide +kernel, by decide +kernel, by decide +kernel⟩

end Phrasebook.Template
