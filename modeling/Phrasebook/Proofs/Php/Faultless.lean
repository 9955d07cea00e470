import Phrasebook.Proofs.Php.Yields

namespace Phrasebook.Php

namespace Node

mutual

def isWhole : Node → Bool
  | .leaf _ => true
  | .missing => false
  | .branch kind children => kind != .error && areWhole children

def areWhole : List Node → Bool
  | [] => true
  | child :: children => child.isWhole && areWhole children

end

theorem areWhole_eq (nodes : List Node) : areWhole nodes = nodes.all isWhole := by
  induction nodes with
  | nil => rfl
  | cons node nodes ih => rw [areWhole, ih, List.all_cons]

mutual

theorem findFault_of_isWhole (node : Node) (whole : node.isWhole = true) (offset : Nat) :
    (findFault offset node).isRight = true := by
  cases node with
  | leaf token => rfl
  | missing => cases whole
  | branch kind children =>
      rw [isWhole, Bool.and_eq_true, bne_iff_ne] at whole
      rw [findFault, if_neg whole.1]
      exact findFaultIn_of_areWhole children whole.2 offset

theorem findFaultIn_of_areWhole (nodes : List Node) (whole : areWhole nodes = true) (offset : Nat) :
    (findFaultIn offset nodes).isRight = true := by
  cases nodes with
  | nil => rfl
  | cons node nodes =>
      rw [areWhole, Bool.and_eq_true] at whole
      have here := findFault_of_isWhole node whole.1 offset
      rw [findFaultIn]
      cases found : findFault offset node with
      | inl fault =>
          rw [found] at here
          cases here
      | inr after => exact findFaultIn_of_areWhole nodes whole.2 after

end

theorem firstFault?_of_isWhole {root : Node} (whole : root.isWhole = true) : root.firstFault? = none := by
  have right := findFault_of_isWhole root whole 0
  rw [firstFault?]
  cases found : findFault 0 root with
  | inl fault =>
      rw [found] at right
      cases right
  | inr after => rfl

end Node

def Rule.buildsWhole {σ : Type} : Rule σ → Bool
  | .seq first second => first.buildsWhole && second.buildsWhole
  | .alt first second => first.buildsWhole && second.buildsWhole
  | .many rule => rule.buildsWhole
  | .option rule => rule.buildsWhole
  | .attempt rule => rule.buildsWhole
  | .node kind rule => kind != .error && rule.buildsWhole
  | .extend kind rule => kind != .error && rule.buildsWhole
  | _ => true

variable {σ : Type} {grammar : σ → Rule σ}

open Node

theorem Derives.whole (symbols : ∀ symbol, (grammar symbol).buildsWhole = true) {rule : Rule σ} {frame : List Node}
    {tokens : List Token} {out : Outcome} (derives : Derives grammar rule frame tokens out)
    (builds : rule.buildsWhole = true) (whole : frame.all isWhole = true) {moved : Bool} {frame' : List Node}
    {rest : List Token} (ends : out = .done moved frame' rest) : frame'.all isWhole = true := by
  -- Only `node` and `extend` make branches, and their kinds are no errors.
  induction derives generalizing moved frame' rest with
  | skip | markup | manyStill | manyEnd | optionNone | given | ahead | apart =>
      cases ends
      exact whole
  | lexeme passes =>
      cases ends
      rw [List.all_cons, whole]
      rfl
  | lexemeStuck | markupStuck | seqStuck | manyStuck | optionStuck | attemptStuck | nodeStuck | extendStuck
  | extendNone | givenStuck | aheadStuck | apartStuck => cases ends
  | @seq _ _ _ _ _ _ _ out one two ih₁ ih₂ =>
      rw [Rule.buildsWhole, Bool.and_eq_true] at builds
      cases out with
      | stuck => cases ends
      | done moved frame rest =>
          cases ends
          exact ih₂ builds.2 (ih₁ builds.1 whole rfl) rfl
  | altFirst one ih =>
      rw [Rule.buildsWhole, Bool.and_eq_true] at builds
      exact ih builds.1 whole ends
  | altSecond one two ih₁ ih₂ =>
      rw [Rule.buildsWhole, Bool.and_eq_true] at builds
      exact ih₂ builds.2 whole (Outcome.done_of_farther ends)
  | @manyStep _ _ _ _ _ out one others ih₁ ih₂ =>
      cases out with
      | stuck => cases ends
      | done moved frame rest =>
          cases ends
          exact ih₂ builds (ih₁ builds whole rfl) rfl
  | option one ih | attempt one ih => exact ih builds whole ends
  | node one ih =>
      cases ends
      rw [Rule.buildsWhole, Bool.and_eq_true] at builds
      have built := ih builds.2 rfl rfl
      rw [List.all_cons, isWhole, areWhole_eq, List.all_reverse, builds.1, built, whole]
      rfl
  | extend one ih =>
      cases ends
      rw [Rule.buildsWhole, Bool.and_eq_true] at builds
      rw [List.all_cons, Bool.and_eq_true] at whole
      have built := ih builds.2 (by rw [List.all_cons, whole.1]; rfl) rfl
      rw [List.all_cons, isWhole, areWhole_eq, List.all_reverse, builds.1, built, whole.2]
      rfl
  | call one ih => exact ih (symbols _) whole ends

theorem firstFault?_of_derives {tokens : List Token} {moved : Bool} {root : Node} {rest : List Token}
    (derives : Derives Php.grammar (.call .program) [] tokens (.done moved [root] rest)) :
    root.firstFault? = none := by
  have whole := derives.whole (Phrase.forall_eq _ true rfl) rfl rfl rfl
  rw [List.all_cons, List.all_nil, Bool.and_true] at whole
  exact firstFault?_of_isWhole whole

theorem parse_of_reads {source : List Char} (nodes : List Node)
    (reads : Reads (.seq (.many (.call (.statement false))) (Rule.kind .finish)) [] (lex source) nodes.reverse []) :
    (parse source).firstFault? = none ∧ ∀ table, occurrences table (parse source) = callsIn table nodes := by
  obtain ⟨_, _, statements, finish⟩ := reads.of_seq
  have program : Reads (.call .program) [] (lex source) [.branch .program nodes] [] := by
    have built : Reads (.call .program) [] (lex source) _ [] := .call (.node (.seq (.call statements) finish))
    rwa [List.reverse_reverse] at built
  obtain ⟨moved, derives⟩ := program
  have root : parse source = .branch .program nodes := by rw [parse, readProgram_of_derives derives]
  rw [root]
  refine ⟨firstFault?_of_derives derives, fun table => ?_⟩
  have found : callsIn table [.branch .program nodes] = callsIn table nodes := by
    rw [callsIn_branch (occurrence?_branch (by decide) nodes), callsIn_nil, List.append_nil]
  simpa [callsIn] using found

theorem extract_of_faultless {compiler : TemplateCompiler} {table : FunctionTable} {kind : FileKind} {source : String}
    (functions : table.isEmpty = false)
    (faultless : (parse (kind.toCode compiler source).toList).firstFault? = none) :
    extract compiler table kind source = .ok (occurrences table (parse (kind.toCode compiler source).toList)) := by
  simp only [extract, functions, faultless]
  rfl

theorem extract_of_reads {compiler : TemplateCompiler} {table : FunctionTable} {kind : FileKind} {source : String}
    (nodes : List Node) (functions : table.isEmpty = false)
    (reads : Reads (.seq (.many (.call (.statement false))) (Rule.kind .finish)) []
      (lex (kind.toCode compiler source).toList) nodes.reverse []) :
    extract compiler table kind source = .ok (callsIn table nodes) := by
  obtain ⟨faultless, found⟩ := parse_of_reads nodes reads
  rw [extract_of_faultless functions faultless, found]

theorem extract_of_yields {compiler : TemplateCompiler} {kind : FileKind} {source : String} {found : List Occurrence}
    (yields : Yields (.seq (.many (.call (.statement false))) (Rule.kind .finish))
      (lex (kind.toCode compiler source).toList) [] found) :
    extract compiler FunctionTable.standard kind source = .ok found := by
  obtain ⟨nodes, same, reads⟩ := yields
  have read := reads []
  rw [List.append_nil] at read
  rw [extract_of_reads nodes rfl read, same]

end Phrasebook.Php
