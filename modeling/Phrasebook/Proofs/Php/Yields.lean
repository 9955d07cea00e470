import Phrasebook.Proofs.Php.Slots

namespace Phrasebook.Php

open FunctionTable (standard)

section Calls

variable {table : FunctionTable}

def callsIn (table : FunctionTable) (nodes : List Node) : List Occurrence := nodes.flatMap (occurrences table)

@[simp]
theorem callsIn_nil : callsIn table [] = [] := rfl

@[simp]
theorem callsIn_append (nodes others : List Node) :
    callsIn table (nodes ++ others) = callsIn table nodes ++ callsIn table others := by
  simp [callsIn]

@[simp]
theorem callsIn_leaf (token : Token) (nodes : List Node) :
    callsIn table (.leaf token :: nodes) = callsIn table nodes := by
  simp [callsIn, occurrences, Node.preorder, occurrence?, callParts?]

theorem occurrences_listPreorder (nodes : List Node) :
    (Node.preorder.listPreorder nodes).filterMap (occurrence? table) = callsIn table nodes := by
  induction nodes with
  | nil => rfl
  | cons node nodes ih =>
      rw [Node.preorder.listPreorder, List.filterMap_append, ih]
      rfl

theorem callsIn_cons (kind : Kind) (children nodes : List Node) :
    callsIn table (.branch kind children :: nodes) =
      (occurrence? table (.branch kind children)).toList ++ callsIn table children ++ callsIn table nodes := by
  rw [callsIn, List.flatMap_cons, occurrences, Node.preorder, List.filterMap_cons, occurrences_listPreorder]
  cases occurrence? table (.branch kind children) <;> rfl

theorem callsIn_branch {kind : Kind} {children nodes : List Node}
    (quiet : occurrence? table (.branch kind children) = none) :
    callsIn table (.branch kind children :: nodes) = callsIn table children ++ callsIn table nodes := by
  rw [callsIn_cons, quiet]
  rfl

theorem occurrence?_branch {kind : Kind} (other : kind ≠ .call) (children : List Node) :
    occurrence? table (.branch kind children) = none := by
  cases kind with
  | call => exact absurd rfl other
  | _ => rfl

end Calls

/-- A rule reads the tokens before `rest` on any frame and builds nodes with the calls `found`. -/
def Yields (rule : Rule Phrase) (tokens rest : List Token) (found : List Occurrence) : Prop :=
  ∃ nodes, callsIn standard nodes = found ∧ ∀ frame, Reads rule frame tokens (nodes.reverse ++ frame) rest

namespace Yields

variable {rule one two item : Rule Phrase} {token : Token} {tokens tokens₁ rest : List Token}
  {found found' : List Occurrence}

theorem of_nodes (nodes : List Node) (same : callsIn standard nodes = found)
    (reads : ∀ frame, Reads rule frame tokens (nodes.reverse ++ frame) rest) : Yields rule tokens rest found :=
  ⟨nodes, same, reads⟩

theorem of_nothing (reads : ∀ frame, Reads rule frame tokens frame rest) : Yields rule tokens rest [] :=
  ⟨[], rfl, reads⟩

theorem imp (all : ∀ {frame frame'}, Reads one frame tokens frame' rest → Reads two frame tokens frame' rest)
    (this : Yields one tokens rest found) : Yields two tokens rest found := by
  obtain ⟨nodes, same, reads⟩ := this
  exact ⟨nodes, same, fun frame => all (reads frame)⟩

theorem lexeme {test : Lexeme → Bool} (passes : test token.lexeme = true) :
    Yields (.lexeme test) (token :: rest) rest [] :=
  .of_nodes [.leaf token] (by simp) fun _ => .lexeme passes

theorem seq (first : Yields one tokens tokens₁ found) (second : Yields two tokens₁ rest found') :
    Yields (.seq one two) tokens rest (found ++ found') := by
  obtain ⟨nodes, same, reads⟩ := first
  obtain ⟨nodes', same', reads'⟩ := second
  refine ⟨nodes ++ nodes', by rw [callsIn_append, same, same'], fun frame => ?_⟩
  rw [List.reverse_append, List.append_assoc]
  exact (reads frame).seq (reads' _)

theorem token_seq {test : Lexeme → Bool} (passes : test token.lexeme = true)
    (second : Yields two tokens rest found) : Yields (.seq (.lexeme test) two) (token :: tokens) rest found :=
  (lexeme passes).seq second

theorem nothing_seq (first : ∀ frame, Reads one frame tokens frame tokens)
    (second : Yields two tokens rest found) : Yields (.seq one two) tokens rest found :=
  (of_nothing first).seq second

theorem node {kind : Kind} (other : kind ≠ .call) (this : Yields rule tokens rest found) :
    Yields (.node kind rule) tokens rest found := by
  obtain ⟨nodes, same, reads⟩ := this
  refine .of_nodes [.branch kind nodes] ?_ fun frame => ?_
  · rw [callsIn_branch (occurrence?_branch other nodes), same, callsIn_nil, List.append_nil]
  · have built : Reads (.node kind rule) frame tokens _ rest := (reads []).node
    rwa [List.append_nil, List.reverse_reverse] at built

theorem assoc {three : Rule Phrase} (this : Yields (.seq one (.seq two three)) tokens rest found) :
    Yields (.seq (.seq one two) three) tokens rest found := by
  refine this.imp fun reads => ?_
  obtain ⟨_, _, first, others⟩ := reads.of_seq
  obtain ⟨_, _, second, third⟩ := others.of_seq
  exact (first.seq second).seq third

theorem many_seq (moves : item.moves Phrase.moves = true)
    (this : Yields (.seq item (.seq (.many item) two)) tokens rest found) :
    Yields (.seq (.many item) two) tokens rest found := by
  refine this.imp fun reads => ?_
  obtain ⟨_, _, first, others⟩ := reads.of_seq
  obtain ⟨_, _, further, last⟩ := others.of_seq
  exact (first.many moves further).seq last

theorem option_seq (this : Yields (.seq one two) tokens rest found) :
    Yields (.seq (.option one) two) tokens rest found := by
  refine this.imp fun reads => ?_
  obtain ⟨_, _, first, second⟩ := reads.of_seq
  exact first.option.seq second

end Yields

theorem Slot.Fits.yields {slot : Slot} {code : List Char} (fits : slot.Fits code) {rest : List Token}
    (precedes : slot.precedes rest) : Yields slot.rule (slot.tokens code ++ slot.stopAfter code :: rest)
      (slot.stopAfter code :: rest) (slot.calls standard code) :=
  .of_nodes (slot.nodes code) rfl fun frame => fits.reads frame rest precedes

end Phrasebook.Php
