import Phrasebook.Proofs.Php.Names
import Phrasebook.Proofs.Php.Yields

namespace Phrasebook.Php

open FunctionTable (standard)
open Rule (sym keywords)

inductive Closer
  | parenthesis
  | semicolon
  | comma

def Closer.text : Closer → String
  | parenthesis => ")"
  | semicolon => ";"
  | comma => ","

inductive PlainName
  | e
  | isset
  | empty
  | endif
  | translate
  deriving DecidableEq, Repr

def PlainName.text : PlainName → String
  | e => "e"
  | isset => "isset"
  | empty => "empty"
  | endif => "endif"
  | translate => "__"

theorem PlainName.free (name : PlainName) : isReserved name.text = false := by cases name <;> decide +kernel

variable {frame : List Node} {tokens rest : List Token} {token : Token} {gap gap' gap'' : List Skipped}
  {code : List Char} {node : Node} {last : Bool}

namespace Reads

theorem value_of_operand (closer : Closer) (closed : isOpen node = false)
    (operand : Reads (.call (.operand last)) frame tokens (node :: frame) (.symbol gap closer.text :: rest)) :
    Reads (value last) frame tokens (node :: frame) (.symbol gap closer.text :: rest) :=
  .call (.seq (.call (.seq operand (.skipped (by cases last <;> cases closer <;> rfl)))) (.given (by simp [closed])))

theorem operand_of_head (closer : Closer)
    (head : Reads (.alt (.call (.prefixed last)) (.call (.primary last))) frame tokens (node :: frame)
      (.symbol gap closer.text :: rest)) :
    Reads (.call (.operand last)) frame tokens (node :: frame) (.symbol gap closer.text :: rest) :=
  .call (.seq head (.skipped (by cases last <;> cases closer <;> rfl)))

theorem operand_of_primary (closer : Closer)
    (bare : (Rule.call (.prefixed last)).refuses grammar token.lexeme token.afterMarkup = true)
    (primary : Reads (.call (.primary last)) frame (token :: tokens) (node :: frame)
      (.symbol gap closer.text :: rest)) :
    Reads (.call (.operand last)) frame (token :: tokens) (node :: frame) (.symbol gap closer.text :: rest) :=
  .operand_of_head closer (.right (.refused bare) primary)

theorem noSuffix (closer : Closer) : Reads (.many (.call (.suffix last))) frame (.symbol gap closer.text :: rest)
    frame (.symbol gap closer.text :: rest) :=
  .skipped (by cases last <;> cases closer <;> rfl)

theorem value_of_base (closer : Closer) (closed : isOpen node = false)
    (bare : (Rule.call (.prefixed last)).refuses grammar token.lexeme token.afterMarkup = true)
    (base : Reads (.call (.base last)) frame (token :: tokens) (node :: frame)
      (.symbol gap closer.text :: rest)) :
    Reads (value last) frame (token :: tokens) (node :: frame) (.symbol gap closer.text :: rest) :=
  .value_of_operand closer closed (.operand_of_primary closer bare (.call (.seq base (.noSuffix closer))))

theorem base_name (name : PlainName)
    (alone : (sym "\\" : Rule Phrase).refuses grammar token.lexeme token.afterMarkup = true) :
    Reads (.call (.base last)) frame (.word gap name.text :: token :: rest)
      (.branch .name [.leaf (.word gap name.text)] :: frame) (token :: rest) :=
  base_word name.free (by cases name <;> rfl) alone

theorem base_variable (name : String) :
    Reads (.call (.base last)) frame (.symbol gap "$" :: .word gap' name :: rest)
      (.branch .variable [.leaf (.symbol gap "$"), .leaf (.word gap' name)] :: frame) rest :=
  .call (.right (.refused rfl) (.right (.refused rfl) (.choice 0 rfl rfl
    (.call (.node (.seq (.lexeme rfl) (.left (.lexeme rfl))))))))

end Reads

def argumentList (gap : List Skipped) (code : List Char) : Node :=
  .branch .arguments (.leaf (.symbol gap "(") ::
    (Slot.arguments.nodes code ++ [.leaf (Slot.arguments.stopAfter code)]))

theorem callsIn_argumentList (gap : List Skipped) (code : List Char) :
    callsIn standard [argumentList gap code] = Slot.arguments.calls standard code := by
  rw [argumentList, callsIn_branch (occurrence?_branch (by decide) _), callsIn_nil, callsIn_leaf, callsIn_append,
    callsIn_leaf, callsIn_nil, List.append_nil, List.append_nil]
  rfl

theorem Reads.arguments (fits : Slot.arguments.Fits code) :
    Reads (.call .arguments) frame
      (.symbol gap "(" :: (Slot.arguments.tokens code ++ Slot.arguments.stopAfter code :: rest))
      (argumentList gap code :: frame) rest := by
  have built : argumentList gap code = .branch .arguments (.leaf (Slot.arguments.stopAfter code) ::
      ((Slot.arguments.nodes code).reverse ++ [.leaf (.symbol gap "(")])).reverse := by simp [argumentList]
  rw [built]
  exact .call (.node (.seq (.lexeme rfl) (.seq (fits.reads _ rest trivial) (.lexeme rfl))))

def callNode (name : PlainName) (gap : List Skipped) (code : List Char) : Node :=
  .branch .call [.branch .name [.leaf (.word gap name.text)], argumentList [] code]

theorem Reads.memberSuffix {object arguments : Node} {method : String} (base : isBase object = true)
    (plain : token.afterMarkup = false)
    (read : ∀ frame, Reads (.call .arguments) frame (token :: tokens) (arguments :: frame) rest) :
    Reads (.call (.suffix last)) (object :: frame) (.symbol [] "->" :: .word [] method :: token :: tokens)
      (.branch .member [object, .leaf (.symbol [] "->"), .leaf (.word [] method), arguments] :: frame) rest :=
  .call (.choice 1 (by cases last <;> rfl) rfl (.extend (.seq (.joined rfl (.given base)) (.seq (.left (.lexeme rfl))
    (.seq (.left (.lexeme rfl)) (.option (.joined plain (read _))))))))

theorem Reads.function {word : String} {arguments : Node} (free : isReserved word = false) (closer : Closer)
    (read : ∀ frame, Reads (.call .arguments) frame (.symbol [] "(" :: tokens) (arguments :: frame)
      (.symbol gap' closer.text :: rest)) :
    Reads (value last) frame (.word gap word :: .symbol [] "(" :: tokens)
      (.branch .call [.branch .name [.leaf (.word gap word)], arguments] :: frame)
      (.symbol gap' closer.text :: rest) :=
  .value_of_operand closer rfl (.operand_of_primary closer (refuses_prefixed free)
    (.primary_function free read (.noSuffix closer)))

theorem Reads.callNode (name : PlainName) (closer : Closer) (fits : Slot.arguments.Fits code) :
    Reads (value last) frame
      (.word gap name.text :: .symbol [] "(" ::
        (Slot.arguments.tokens code ++ Slot.arguments.stopAfter code :: .symbol gap' closer.text :: rest))
      (Php.callNode name gap code :: frame) (.symbol gap' closer.text :: rest) :=
  .function name.free closer fun _ => .arguments fits

theorem callsIn_callNode {name : PlainName} (other : name ≠ .translate) (nodes : List Node) :
    callsIn standard (callNode name gap code :: nodes) =
      Slot.arguments.calls standard code ++ callsIn standard nodes := by
  have quiet : occurrence? standard (callNode name gap code) = none := by
    cases name with
    | translate => exact absurd rfl other
    | _ => rfl
  have inner : callsIn standard [.branch .name [.leaf (.word gap name.text)], argumentList [] code] =
      Slot.arguments.calls standard code := by
    rw [callsIn_branch (occurrence?_branch (by decide) _), callsIn_leaf, callsIn_argumentList]
    rfl
  rw [← inner]
  exact callsIn_branch quiet

theorem Yields.call (name : PlainName) (other : name ≠ .translate) (closer : Closer)
    (fits : Slot.arguments.Fits code) :
    Yields (value last)
      (.word gap name.text :: .symbol [] "(" ::
        (Slot.arguments.tokens code ++ Slot.arguments.stopAfter code :: .symbol gap' closer.text :: rest))
      (.symbol gap' closer.text :: rest) (Slot.arguments.calls standard code) :=
  .of_nodes [callNode name gap code] (by rw [callsIn_callNode other, callsIn_nil, List.append_nil]) fun _ =>
    .callNode name closer fits

theorem Closer.refuses_operand (closer : Closer) (last : Bool) : (Rule.call (.operand last)).refuses grammar
    (Token.symbol gap closer.text).lexeme (Token.symbol gap closer.text).afterMarkup = true := by
  cases last <;> cases closer <;> rfl

/-- Code in parentheses is no cast, as no operand follows. -/
theorem Sticks.prefixed_of_negated (closer : Closer) (fits : Slot.negated.Fits code) :
    Sticks (.call (.prefixed last)) frame (.symbol gap "(" ::
      (Slot.negated.tokens code ++ Slot.negated.stopAfter code :: .symbol gap' closer.text :: rest)) := by
  -- A cast would read the parenthesis, the name of a type, the other parenthesis and an operand.
  obtain ⟨_, _, notCast, _⟩ := (fits.reads [.leaf (.symbol gap "(")] _
    ⟨.symbol gap' closer.text, rest, rfl, closer.refuses_operand⟩).of_seq
  have noCast : Sticks (.seq (.attempt (Rule.sequence [sym "(", keywords castWords, sym ")"]))
      (.seq (.call (.operand last)) (.given fun node => !isOpen node))) []
      (.symbol gap "(" ::
        (Slot.negated.tokens code ++ Slot.negated.stopAfter code :: .symbol gap' closer.text :: rest)) := by
    rcases notCast.of_apart.1.of_seq with word | ⟨_, _, word, others⟩
    · exact .seq (.attempt (.seq_of_reads (.lexeme rfl) word.seq))
    · rcases others.of_seq with close | ⟨frame', tokens', close, operands⟩
      · exact .seq (.attempt (.seq_of_reads (.lexeme rfl) (.seq_of_reads word close)))
      · have operand : Sticks (.call (.operand last)) frame' tokens' := by
          cases last with
          | false => exact operands.of_alt.1
          | true => exact operands.of_alt.2
        exact .seq_of_reads (.attempt (.seq (.lexeme rfl) (.seq word close))) operand.seq
  exact .call (.alt (.refused rfl) (.alt (.node noCast) (.refused rfl)))

def groupNode (gap : List Skipped) (code : List Char) : Node :=
  .branch .parenthesized (.leaf (.symbol gap "(") ::
    (Slot.negated.nodes code ++ [.leaf (Slot.negated.stopAfter code)]))

theorem callsIn_groupNode (gap : List Skipped) (code : List Char) :
    callsIn standard [groupNode gap code] = Slot.negated.calls standard code := by
  rw [groupNode, callsIn_branch (occurrence?_branch (by decide) _), callsIn_leaf, callsIn_append, callsIn_leaf]
  simp [callsIn, Slot.calls]

theorem Reads.group (closer : Closer) (fits : Slot.negated.Fits code) :
    Reads (.call (.operand last)) frame (.symbol gap "(" ::
        (Slot.negated.tokens code ++ Slot.negated.stopAfter code :: .symbol gap' closer.text :: rest))
      (groupNode gap code :: frame) (.symbol gap' closer.text :: rest) := by
  have built : groupNode gap code = .branch .parenthesized (.leaf (Slot.negated.stopAfter code) ::
      ((Slot.negated.nodes code).reverse ++ [.leaf (.symbol gap "(")])).reverse := by simp [groupNode]
  obtain ⟨_, _, notCast, read⟩ := (fits.reads [.leaf (.symbol gap "(")] _
    ⟨.symbol gap' closer.text, rest, rfl, closer.refuses_operand⟩).of_seq
  obtain ⟨_, rfl, rfl⟩ := notCast.of_apart
  have primary : Reads (.call (.primary last)) frame (.symbol gap "(" ::
        (Slot.negated.tokens code ++ Slot.negated.stopAfter code :: .symbol gap' closer.text :: rest))
      (groupNode gap code :: frame) (.symbol gap' closer.text :: rest) := by
    rw [built]
    exact .call (.seq (.call (.right (.refused rfl) (.right (.refused rfl) (.choice 13 rfl rfl
      (.node (.seq (.lexeme rfl) (.seq read (.lexeme rfl)))))))) (.noSuffix closer))
  exact .operand_of_head closer (.right (.prefixed_of_negated closer fits) primary)

theorem Yields.group (closer : Closer) (fits : Slot.negated.Fits code) :
    Yields (value last) (.symbol gap "(" ::
        (Slot.negated.tokens code ++ Slot.negated.stopAfter code :: .symbol gap' closer.text :: rest))
      (.symbol gap' closer.text :: rest) (Slot.negated.calls standard code) :=
  .of_nodes [groupNode gap code] (callsIn_groupNode gap code) fun _ =>
    .value_of_operand closer rfl (.group closer fits)

theorem Yields.negation (fits : Slot.negated.Fits code) :
    Yields (value false)
      (.symbol gap "!" :: .symbol gap' "(" ::
        (Slot.negated.tokens code ++ Slot.negated.stopAfter code :: .symbol gap'' ")" :: rest))
      (.symbol gap'' ")" :: rest) (Slot.negated.calls standard code) := by
  refine .of_nodes [.branch .unary [.leaf (.symbol gap "!"), groupNode gap' code]] ?_ fun frame => ?_
  · rw [callsIn_branch (occurrence?_branch (by decide) _), callsIn_leaf, callsIn_groupNode, callsIn_nil,
      List.append_nil]
  · refine .value_of_operand .parenthesis rfl (.call (.seq (.left (.call (.choice 0 rfl rfl ?_))) (.skipped rfl)))
    exact .node (.seq (.choice 3 rfl rfl (.lexeme rfl)) (.seq (.group .parenthesis fits) (.given rfl)))

theorem Yields.flag (closer : Closer) (name : String) :
    Yields (value last) (.symbol gap "$" :: .word gap' name :: .symbol gap'' closer.text :: rest)
      (.symbol gap'' closer.text :: rest) [] :=
  .of_nodes [.branch .variable [.leaf (.symbol gap "$"), .leaf (.word gap' name)]]
    (by rw [callsIn_branch (occurrence?_branch (by decide) _)]; simp) fun _ =>
    .value_of_base closer rfl (by cases last <;> rfl) (.base_variable name)

theorem Reads.truth (closer : Closer) (flag : Bool) :
    Reads (value last) frame (.word gap (toString flag) :: .symbol gap' closer.text :: rest)
      (.branch .constant [.leaf (.word gap (toString flag))] :: frame) (.symbol gap' closer.text :: rest) := by
  refine .value_of_base closer rfl (by cases last <;> cases flag <;> rfl)
    (.call (.right (.refused ?_) (.right (.refused ?_) (.choice 7 ?_ rfl (.node (.lexeme ?_))))))
  iterate 4 cases last <;> cases flag <;> rfl

theorem Yields.assignment {gap₃ gap₄ : List Skipped} (closer : Closer) (name : String) (flag : Bool)
    (plain : (Token.symbol gap'' "=").afterMarkup = false) :
    Yields (value last)
      (.symbol gap "$" :: .word gap' name :: .symbol gap'' "=" :: .word gap₃ (toString flag) ::
        .symbol gap₄ closer.text :: rest)
      (.symbol gap₄ closer.text :: rest) [] := by
  refine .of_nodes [.branch .assignment
    [.branch .variable [.leaf (.symbol gap "$"), .leaf (.word gap' name)], .leaf (.symbol gap'' "="),
      .branch .constant [.leaf (.word gap₃ (toString flag))]]] ?_ fun frame => ?_
  · rw [callsIn_branch (occurrence?_branch (by decide) _), callsIn_branch (occurrence?_branch (by decide) _),
      callsIn_leaf, callsIn_leaf, callsIn_leaf, callsIn_branch (occurrence?_branch (by decide) _)]
    simp
  · have target : Reads (.call (.primary last)) frame
        (.symbol gap "$" :: .word gap' name :: .symbol gap'' "=" :: .word gap₃ (toString flag) ::
          .symbol gap₄ closer.text :: rest)
        (.branch .variable [.leaf (.symbol gap "$"), .leaf (.word gap' name)] :: frame)
        (.symbol gap'' "=" :: .word gap₃ (toString flag) :: .symbol gap₄ closer.text :: rest) :=
      .call (.seq (.base_variable name) (.skipped (by cases last <;> rfl)))
    refine .value_of_operand closer rfl (.call (.seq (.right (.refused (by cases last <;> rfl)) target)
      (.option (.left (.extend (.left (.seq (.left (.joined plain (.given rfl)))
        (.seq (.lexeme rfl) (.seq (.passed ?_) (.truth closer flag))))))))))
    cases flag <;> rfl

def stringArgument (text : List Char) : Node := .branch .argument [.branch .string [.leaf (.single text)]]

theorem callsIn_stringArgument (text : List Char) (nodes : List Node) :
    callsIn standard (stringArgument text :: nodes) = callsIn standard nodes := by
  rw [stringArgument, callsIn_branch (occurrence?_branch (by decide) _),
    callsIn_branch (occurrence?_branch (by decide) _)]
  simp

theorem Reads.string (closer : Closer) (text : List Char) :
    Reads (value last) frame (⟨gap', ⟨.single, text⟩⟩ :: .symbol gap closer.text :: rest)
      (.branch .string [.leaf ⟨gap', ⟨.single, text⟩⟩] :: frame) (.symbol gap closer.text :: rest) :=
  .value_of_base closer rfl (by cases last <;> rfl)
    (.call (.right (.refused (by cases last <;> rfl)) (.right (.refused (by cases last <;> rfl))
      (.choice 2 (by cases last <;> rfl) rfl (.node (.lexeme rfl))))))

theorem Reads.stringArgument (closer : Closer) (text : List Char) :
    Reads (.call .argument) frame (.single text :: .symbol gap closer.text :: rest)
      (Phrasebook.Php.stringArgument text :: frame) (.symbol gap closer.text :: rest) :=
  .call (.node (.seq (.passed rfl) (.seq (.passed rfl) (.choice 2 rfl rfl (.string closer text)))))

theorem Reads.method (closer : Closer) (plain : token.afterMarkup = false) {object method : String} {arguments : Node}
    (read : ∀ frame,
      Reads (.call .arguments) frame (token :: tokens) (arguments :: frame) (.symbol gap closer.text :: rest)) :
    Reads (value last) frame
      (.symbol gap' "$" :: .word [] object :: .symbol [] "->" :: .word [] method :: token :: tokens)
      (.branch .member [.branch .variable [.leaf (.symbol gap' "$"), .leaf (.word [] object)], .leaf (.symbol [] "->"),
        .leaf (.word [] method), arguments] :: frame) (.symbol gap closer.text :: rest) :=
  .value_of_operand closer rfl (.operand_of_primary closer (by cases last <;> rfl)
    (.call (.seq (.base_variable object) (.many (.memberSuffix rfl plain read) rfl (.noSuffix closer)))))

theorem Yields.method (closer : Closer) (plain : token.afterMarkup = false) {object method : String} {arguments : Node}
    (read : ∀ frame,
      Reads (.call .arguments) frame (token :: tokens) (arguments :: frame) (.symbol gap closer.text :: rest)) :
    Yields (value last) (.symbol gap' "$" :: .word [] object :: .symbol [] "->" :: .word [] method :: token :: tokens)
      (.symbol gap closer.text :: rest) (callsIn standard [arguments]) := by
  refine .of_nodes [.branch .member [.branch .variable [.leaf (.symbol gap' "$"), .leaf (.word [] object)],
    .leaf (.symbol [] "->"), .leaf (.word [] method), arguments]] ?_ fun _ => .method closer plain read
  rw [callsIn_branch (occurrence?_branch (by decide) _), callsIn_branch (occurrence?_branch (by decide) _)]
  simp

theorem Yields.bareDirective (closer : Closer) (name : List Char) :
    Yields (value last)
      (.symbol gap' "$" :: .word [] "__env" :: .symbol [] "->" :: .word [] "directive" :: .symbol [] "(" ::
        .single name :: .symbol [] ")" :: .symbol gap closer.text :: rest)
      (.symbol gap closer.text :: rest) [] := by
  have found : callsIn standard [.branch .arguments
      [.leaf (.symbol [] "("), stringArgument name, .leaf (.symbol [] ")")]] = [] := by
    rw [callsIn_branch (occurrence?_branch (by decide) _), callsIn_leaf, callsIn_stringArgument]
    simp
  rw [← found]
  refine .method closer rfl fun frame => ?_
  have argument : Reads (.call .argument) [.leaf (.symbol [] "(")]
      (.single name :: .symbol [] ")" :: .symbol gap closer.text :: rest)
      [stringArgument name, .leaf (.symbol [] "(")] (.symbol [] ")" :: .symbol gap closer.text :: rest) :=
    .stringArgument .parenthesis name
  change Reads _ _ _ (.branch .arguments
    [.leaf (.symbol [] ")"), stringArgument name, .leaf (.symbol [] "(")].reverse :: frame) _
  exact .call (.node (.seq (.lexeme rfl) (.seq (.right (.refused rfl) (.seq (.option (.seq argument
    (.seq (.passed rfl) (.passed rfl)))) (.passed rfl))) (.lexeme rfl))))

theorem Yields.directive (closer : Closer) (name : List Char) (fits : Slot.further.Fits code) :
    Yields (value last)
      (.symbol gap' "$" :: .word [] "__env" :: .symbol [] "->" :: .word [] "directive" :: .symbol [] "(" ::
        .single name :: .symbol [] "," ::
          (Slot.further.tokens code ++ Slot.further.stopAfter code :: .symbol gap closer.text :: rest))
      (.symbol gap closer.text :: rest) (Slot.further.calls standard code) := by
  have found : callsIn standard [.branch .arguments (.leaf (.symbol [] "(") :: stringArgument name ::
      .leaf (.symbol [] ",") :: (Slot.further.nodes code ++ [.leaf (Slot.further.stopAfter code)]))] =
      Slot.further.calls standard code := by
    rw [callsIn_branch (occurrence?_branch (by decide) _), callsIn_leaf, callsIn_stringArgument, callsIn_leaf,
      callsIn_append, callsIn_leaf, callsIn_nil, List.append_nil, List.append_nil]
    rfl
  rw [← found]
  refine .method closer rfl fun frame => ?_
  have built : (Node.branch .arguments (.leaf (.symbol [] "(") :: stringArgument name :: .leaf (.symbol [] ",") ::
      (Slot.further.nodes code ++ [.leaf (Slot.further.stopAfter code)]))) =
      .branch .arguments (.leaf (Slot.further.stopAfter code) :: ((Slot.further.nodes code).reverse ++
        [.leaf (.symbol [] ","), stringArgument name, .leaf (.symbol [] "(")])).reverse := by simp
  rw [built]
  -- The slot begins after the comma, so what its rule reads is put together anew behind the first argument.
  obtain ⟨_, _, more, others⟩ := (fits.reads [.leaf (.symbol [] ","), stringArgument name, .leaf (.symbol [] "(")]
    (.symbol gap closer.text :: rest) trivial).of_seq
  obtain ⟨noEnd, rfl, rfl⟩ := more.of_apart
  obtain ⟨_, _, argument, others⟩ := others.of_seq
  obtain ⟨_, _, further, others⟩ := others.of_seq
  obtain ⟨_, _, comma, last⟩ := others.of_seq
  have all := Reads.seq (.option (.seq (.stringArgument .comma name) (.seq
    (.many (.seq (.attempt (.seq (.lexeme rfl) (.apart noEnd))) argument) rfl further) comma))) last
  exact .call (.node (.seq (.lexeme rfl) (.seq (.right (.refused rfl) all) (.lexeme rfl))))

end Phrasebook.Php
