import Phrasebook.Proofs.Php.Faultless
import Phrasebook.Proofs.Php.Expressions
import Phrasebook.Proofs.Php.Quoting

namespace Phrasebook.Php

structure Written where
  quoting : Quoting
  value : String
  noNul : nul ∉ value.toList

namespace Written

def source (self : Written) : List Char := self.quoting.literal self.value.toList

def tokens (self : Written) (before : List Skipped) : List Token := self.quoting.tokens before self.value.toList

def node (self : Written) (before : List Skipped) : Node := self.quoting.node before self.value.toList

def argument (self : Written) (before : List Skipped) : Node := .branch .argument [self.node before]

def space : List Skipped := [⟨.blank, [' ']⟩]

def furtherTokens (others : List Written) : List Token :=
  others.flatMap fun written => .symbol [] "," :: written.tokens space

def furtherNodes (others : List Written) : List Node :=
  others.flatMap fun written => [.leaf (.symbol [] ","), written.argument space]

def listNode (first : Written) (others : List Written) : Node :=
  .branch .arguments (.leaf (.symbol [] "(") :: first.argument [] :: (furtherNodes others ++ [.leaf (.symbol [] ")")]))

end Written

open Written

/-- A call of a function by its name, with literals for its arguments. -/
structure LiteralCall where
  name : String
  named : isFunctionName name = true
  first : Written
  others : List Written

namespace LiteralCall

def arguments (self : LiteralCall) : List Written := self.first :: self.others

def source (self : LiteralCall) : List Char :=
  self.name.toList ++ '(' :: (", ".toList.intercalate (self.arguments.map (·.source)) ++ [')'])

def tokens (self : LiteralCall) (before : List Skipped) : List Token :=
  .word before self.name :: .symbol [] "(" ::
    (self.first.tokens [] ++ (furtherTokens self.others ++ [.symbol [] ")"]))

def node (self : LiteralCall) (before : List Skipped) : Node :=
  .branch .call [.branch .name [.leaf (.word before self.name)], listNode self.first self.others]

def found (table : FunctionTable) (self : LiteralCall) : Option Occurrence :=
  (table.get? self.name).bind fun function =>
    self.arguments[function.argument]?.map fun written => ⟨self.name, written.value⟩

theorem isReserved_name (self : LiteralCall) : isReserved self.name = false := by
  have named := self.named
  simp only [isFunctionName, Bool.and_eq_true, Bool.not_eq_true'] at named
  exact named.2

end LiteralCall

section Lexing

theorem intercalate_eq_flatMap (separator first : List Char) (others : List (List Char)) :
    separator.intercalate (first :: others) = first ++ others.flatMap (separator ++ ·) := by
  induction others generalizing first with
  | nil => simp
  | cons second others ih => rw [List.intercalate_cons_cons, ih, List.flatMap_cons]; simp

theorem Written.lexFrom_source (self : Written) (before : List Skipped) (text : List Char) :
    lexFrom [] before (self.source ++ text) = self.tokens before ++ lexFrom [] [] text :=
  self.quoting.lexFrom_literal before text self.noNul

theorem lexFrom_further (others : List Written) (text : List Char) :
    lexFrom [] [] (others.flatMap (fun written => ", ".toList ++ written.source) ++ text) =
      furtherTokens others ++ lexFrom [] [] text := by
  have comma (rest : List Char) : lexFrom [] [] (", ".toList ++ rest) = .symbol [] "," :: lexFrom [] space rest := by
    have symbol : lexFrom [] [] (",".toList ++ ' ' :: rest) = .symbol [] "," :: lexFrom [] [] (' ' :: rest) :=
      lexFrom_symbol "," [] _ (by decide) rfl rfl
    rwa [lexFrom_blank] at symbol
  induction others with
  | nil => rfl
  | cons written others ih =>
      rw [List.flatMap_cons, List.append_assoc, List.append_assoc, comma, written.lexFrom_source, ih]
      simp [furtherTokens]

theorem LiteralCall.lexFrom_source (self : LiteralCall) (before : List Skipped) (text : List Char) :
    lexFrom [] before (self.source ++ text) = self.tokens before ++ lexFrom [] [] text := by
  have named := self.named
  simp only [isFunctionName, Bool.and_eq_true] at named
  have split : self.source ++ text = self.name.toList ++ ("(".toList ++ (self.first.source ++
      (self.others.flatMap (fun written => ", ".toList ++ written.source) ++ (")".toList ++ text)))) := by
    simp [source, arguments, intercalate_eq_flatMap, List.flatMap_map]
  rw [split, lexFrom_name _ _ _ named.1.1 named.1.2 rfl fun _ => rfl, lexFrom_symbol "(" _ _ (by decide) rfl rfl,
    self.first.lexFrom_source, lexFrom_further, lexFrom_symbol ")" _ _ (by decide) rfl rfl]
  simp [tokens]

end Lexing

section Reading

variable {frame : List Node} {rest : List Token} {gap : List Skipped} {last : Bool}

theorem Reads.literal (closer : Closer) (written : Written) (before : List Skipped) :
    Reads (value last) frame (written.tokens before ++ .symbol gap closer.text :: rest) (written.node before :: frame)
      (.symbol gap closer.text :: rest) := by
  obtain ⟨quoting, text⟩ := written
  cases quoting with
  | single => exact .string closer _
  | double =>
      by_cases empty : text.toList = []
      · simp only [Written.tokens, Written.node, Quoting.tokens, Quoting.node, empty, if_true]
        exact .value_of_base closer rfl rfl (.call (.right (.refused rfl) (.right (.refused rfl) (.choice 4 rfl rfl
          (.node (.seq (.lexeme rfl) (.seq (.passed rfl) (.lexeme rfl))))))))
      · simp only [Written.tokens, Written.node, Quoting.tokens, Quoting.node, empty, if_false]
        have chunk (frame : List Node) : Reads (.many (.call .stringPart)) frame
            (⟨[], ⟨.chunk, Quoting.double.escape text.toList⟩⟩ :: ⟨[], ⟨.closer, ['"']⟩⟩ ::
              .symbol gap closer.text :: rest)
            (.leaf ⟨[], ⟨.chunk, Quoting.double.escape text.toList⟩⟩ :: frame)
            (⟨[], ⟨.closer, ['"']⟩⟩ :: .symbol gap closer.text :: rest) :=
          .many (.call (.left (.lexeme rfl))) rfl (.passed rfl)
        exact .value_of_base closer rfl rfl (.call (.right (.refused rfl) (.right (.refused rfl) (.choice 4 rfl rfl
          (.node (.seq (.lexeme rfl) (.seq (chunk _) (.lexeme rfl))))))))

theorem Reads.literalArgument (closer : Closer) (written : Written) (before : List Skipped) :
    Reads (.call .argument) frame (written.tokens before ++ .symbol gap closer.text :: rest)
      (written.argument before :: frame) (.symbol gap closer.text :: rest) := by
  have literal : Reads (value false) [] (written.tokens before ++ .symbol gap closer.text :: rest) [written.node before]
      (.symbol gap closer.text :: rest) := .literal closer written before
  obtain ⟨quoting, text⟩ := written
  cases quoting with
  | single => exact .call (.node (.seq (.passed rfl) (.seq (.passed rfl) (.choice 2 rfl rfl literal))))
  | double => exact .call (.node (.seq (.passed rfl) (.seq (.passed rfl) (.choice 2 rfl rfl literal))))

theorem Sticks.literal (written : Written) (before : List Skipped) (text : String) (tokens : List Token) :
    Sticks (Rule.sym text) frame (written.tokens before ++ tokens) := by
  obtain ⟨quoting, value⟩ := written
  cases quoting with
  | single => exact .refused rfl
  | double => exact .refused rfl

theorem further_closer (others : List Written) (rest : List Token) :
    ∃ (closer : Closer) (after : List Token),
      furtherTokens others ++ .symbol [] ")" :: rest = .symbol [] closer.text :: after := by
  cases others with
  | nil => exact ⟨.parenthesis, rest, rfl⟩
  | cons written others => exact ⟨.comma, _, rfl⟩

theorem Reads.furtherArguments (others : List Written) :
    Reads (.many Slot.nextArgument) frame (furtherTokens others ++ .symbol [] ")" :: rest)
      ((furtherNodes others).reverse ++ frame) (.symbol [] ")" :: rest) := by
  induction others generalizing frame with
  | nil => exact .passed rfl
  | cons written others ih =>
      obtain ⟨closer, after, next⟩ := further_closer others rest
      have tokens : furtherTokens (written :: others) ++ .symbol [] ")" :: rest =
          .symbol [] "," :: (written.tokens space ++ (furtherTokens others ++ .symbol [] ")" :: rest)) := by
        simp [furtherTokens]
      have nodes : (furtherNodes (written :: others)).reverse ++ frame =
          (furtherNodes others).reverse ++ written.argument space :: .leaf (.symbol [] ",") :: frame := by
        simp [furtherNodes]
      have argument : Reads (.call .argument) (.leaf (.symbol [] ",") :: frame)
          (written.tokens space ++ (furtherTokens others ++ .symbol [] ")" :: rest))
          (written.argument space :: .leaf (.symbol [] ",") :: frame)
          (furtherTokens others ++ .symbol [] ")" :: rest) := by
        rw [next]
        exact .literalArgument closer written space
      rw [tokens, nodes]
      exact .many (.seq (.attempt (.seq (.lexeme rfl) (.apart (.literal written space ")" _)))) argument) rfl ih

theorem Reads.listNode (first : Written) (others : List Written) :
    Reads (.call .arguments) frame
      (.symbol [] "(" :: (first.tokens [] ++ (furtherTokens others ++ .symbol [] ")" :: rest)))
      (Written.listNode first others :: frame) rest := by
  obtain ⟨closer, after, next⟩ := further_closer others rest
  have argument : Reads (.call .argument) [.leaf (.symbol [] "(")]
      (first.tokens [] ++ (furtherTokens others ++ .symbol [] ")" :: rest))
      [first.argument [], .leaf (.symbol [] "(")] (furtherTokens others ++ .symbol [] ")" :: rest) := by
    rw [next]
    exact .literalArgument closer first []
  have built : Written.listNode first others = .branch .arguments (.leaf (.symbol [] ")") ::
      ((furtherNodes others).reverse ++ [first.argument [], .leaf (.symbol [] "(")])).reverse := by
    simp [Written.listNode]
  have noPlaceholder : Sticks (.node .placeholder (.attempt (.seq (Rule.sym "...") (.ahead (Rule.sym ")")))))
      [.leaf (.symbol [] "(")] (first.tokens [] ++ (furtherTokens others ++ .symbol [] ")" :: rest)) :=
    .node (.attempt (.seq (.literal first [] "..." _)))
  rw [built]
  exact .call (.node (.seq (.lexeme rfl) (.seq (.right noPlaceholder (.seq (.option (.seq argument
    (.seq (.furtherArguments others) (.passed rfl)))) (.passed rfl))) (.lexeme rfl))))

theorem LiteralCall.reads_value (self : LiteralCall) (closer : Closer) (before : List Skipped) :
    Reads (value last) frame (self.tokens before ++ .symbol gap closer.text :: rest) (self.node before :: frame)
      (.symbol gap closer.text :: rest) := by
  have split : self.tokens before ++ .symbol gap closer.text :: rest = .word before self.name :: .symbol [] "(" ::
      (self.first.tokens [] ++ (furtherTokens self.others ++ .symbol [] ")" :: .symbol gap closer.text :: rest)) := by
    simp [tokens]
  rw [split]
  exact .function self.isReserved_name closer fun _ => .listNode self.first self.others

def LiteralCall.statement (self : LiteralCall) (before : List Skipped) : Node :=
  .branch .statement [self.node before, .leaf (.symbol [] ";")]

theorem LiteralCall.reads_statement (self : LiteralCall) (before : List Skipped) :
    Reads (.call (.statement false)) frame (self.tokens before ++ .symbol [] ";" :: rest)
      (self.statement before :: frame) rest :=
  .statement_of_value self.isReserved_name rfl (self.reads_value .semicolon before)

end Reading

section Values

variable {table : FunctionTable}

theorem callsIn_leaves (tokens : List Token) : callsIn table (tokens.map .leaf) = [] := by
  induction tokens with
  | nil => rfl
  | cons token tokens ih => rw [List.map_cons, callsIn_leaf, ih]

theorem callsIn_argument (written : Written) (before : List Skipped) (nodes : List Node) :
    callsIn table (written.argument before :: nodes) = callsIn table nodes := by
  have literal : callsIn table [written.node before] = [] := by
    have other : written.quoting.kind ≠ .call := by cases written.quoting <;> decide
    rw [Written.node, Quoting.node, callsIn_branch (occurrence?_branch other _), callsIn_leaves, callsIn_nil,
      List.append_nil]
  rw [Written.argument, callsIn_branch (occurrence?_branch (by decide) _), literal, List.nil_append]

theorem callsIn_listNode (first : Written) (others : List Written) :
    callsIn table [listNode first others] = [] := by
  have further : callsIn table (furtherNodes others ++ [.leaf (.symbol [] ")")]) = [] := by
    induction others with
    | nil => rfl
    | cons written others ih =>
        change callsIn table (.leaf (.symbol [] ",") :: written.argument space :: _) = _
        rw [callsIn_leaf, callsIn_argument]
        exact ih
  rw [listNode, callsIn_branch (occurrence?_branch (by decide) _), callsIn_leaf, callsIn_argument, further]
  rfl

theorem argumentValues_argument (written : Written) {before : List Skipped}
    (noMarkup : before.countP (·.kind == .markup) = 0) (nodes : List Node) :
    argumentValues (written.argument before :: nodes) = some (written.node before) :: argumentValues nodes := by
  have first : markupBefore (written.argument before) = 0 := by
    obtain ⟨quoting, text⟩ := written
    cases quoting with
    | single => exact noMarkup
    | double => exact noMarkup
  change List.replicate (markupBefore (written.argument before)) none ++ [some (written.node before)] ++
    argumentValues nodes = _
  rw [first]
  rfl

theorem literal?_nthArgument? (first : Written) (others : List Written) (index : Nat) :
    (nthArgument? (listNode first others) index).bind literal? =
      (first :: others)[index]?.map (·.value.toList) := by
  have further : argumentValues (furtherNodes others ++ [.leaf (.symbol [] ")")]) =
      others.map fun written => some (written.node space) := by
    induction others with
    | nil => rfl
    | cons written others ih =>
        change argumentValues (written.argument space :: _) = _
        rw [argumentValues_argument written rfl]
        exact congrArg (some (written.node space) :: ·) ih
  have values : argumentValues ((listNode first others).children.drop 1) =
      some (first.node []) :: others.map fun written => some (written.node space) := by
    change argumentValues (first.argument [] :: _) = _
    rw [argumentValues_argument first rfl, further]
  rw [nthArgument?, values]
  cases index with
  | zero => exact Quoting.literal?_node first.quoting [] first.value.toList
  | succ index =>
      rw [List.getElem?_cons_succ, List.getElem?_cons_succ, List.getElem?_map]
      cases others[index]? with
      | none => rfl
      | some written => exact Quoting.literal?_node written.quoting space written.value.toList

namespace LiteralCall

theorem occurrence?_node (self : LiteralCall) (before : List Skipped) :
    occurrence? table (self.node before) = self.found table := by
  have callee : calleeName? (.branch .name [.leaf (.word before self.name)]) = some self.name := by
    simp [calleeName?, Node.text, Node.tokens, Node.tokens.listTokens, Token.word]
  simp only [occurrence?, node, callParts?, bind, Option.bind_some, callee, found]
  refine congrArg (Option.bind _) (funext fun function => ?_)
  rw [← Option.bind_assoc, literal?_nthArgument?, arguments]
  cases (self.first :: self.others)[function.argument]? with
  | none => rfl
  | some written => exact congrArg (fun text => some (Occurrence.mk self.name text)) String.ofList_toList

theorem callsIn_node (self : LiteralCall) (before : List Skipped) (nodes : List Node) :
    callsIn table (self.node before :: nodes) = (self.found table).toList ++ callsIn table nodes := by
  have none : callsIn table [.branch .name [.leaf (.word before self.name)], listNode self.first self.others] = [] := by
    rw [callsIn_branch (occurrence?_branch (by decide) _), callsIn_listNode, callsIn_leaf]
    rfl
  have own : occurrence? table (.branch .call [.branch .name [.leaf (.word before self.name)],
      listNode self.first self.others]) = self.found table := self.occurrence?_node before
  rw [node, callsIn_cons, own, none, List.append_nil]

theorem callsIn_statement (self : LiteralCall) (before : List Skipped) (nodes : List Node) :
    callsIn table (self.statement before :: nodes) = (self.found table).toList ++ callsIn table nodes := by
  rw [statement, callsIn_branch (occurrence?_branch (by decide) _), self.callsIn_node, callsIn_leaf, callsIn_nil,
    List.append_nil]

end LiteralCall

end Values

def programOf (calls : List LiteralCall) : List Char :=
  "<?php".toList ++ calls.flatMap fun call => ' ' :: (call.source ++ [';'])

def programTokens (before : List Skipped) : List LiteralCall → List Token
  | [] => [⟨before, ⟨.finish, []⟩⟩]
  | call :: calls => call.tokens (before ++ space) ++ .symbol [] ";" :: programTokens [] calls

theorem lexFrom_calls (calls : List LiteralCall) (before : List Skipped) :
    lexFrom [] before (calls.flatMap fun call => ' ' :: (call.source ++ [';'])) = programTokens before calls := by
  induction calls generalizing before with
  | nil => exact lexFrom_nil before
  | cons call calls ih =>
      rw [List.flatMap_cons, List.cons_append, List.append_assoc, lexFrom_blank, call.lexFrom_source]
      exact congrArg _ ((lexFrom_symbol ";" [] _ (by decide) rfl rfl).trans (congrArg _ (ih [])))

theorem reads_program (calls : List LiteralCall) (before : List Skipped) :
    ∃ nodes, (∀ table, callsIn table nodes = calls.filterMap (·.found table)) ∧
      ∀ frame, Reads (.seq (.many (.call (.statement false))) (Rule.kind .finish)) frame (programTokens before calls)
        (nodes.reverse ++ frame) [] := by
  induction calls generalizing before with
  | nil =>
      refine ⟨[.leaf ⟨before, ⟨.finish, []⟩⟩], fun table => callsIn_leaf _ _, fun frame => ?_⟩
      exact .seq (.passed rfl) (.lexeme rfl)
  | cons call calls ih =>
      obtain ⟨nodes, found, reads⟩ := ih []
      refine ⟨call.statement (before ++ space) :: nodes, fun table => ?_, fun frame => ?_⟩
      · rw [call.callsIn_statement, found, List.filterMap_cons]
        cases call.found table <;> rfl
      · have statement : Reads (.call (.statement false)) frame (programTokens before (call :: calls))
            (call.statement (before ++ space) :: frame) (programTokens [] calls) :=
          call.reads_statement (before ++ space)
        obtain ⟨_, _, others, finish⟩ := (reads _).of_seq
        rw [List.reverse_cons, List.append_assoc]
        exact .seq (.many statement rfl others) finish

theorem extract_program (compiler : TemplateCompiler) (table : FunctionTable) (calls : List LiteralCall) :
    extract compiler table .code (String.ofList (programOf calls)) = .ok (calls.filterMap (·.found table)) := by
  cases functions : table.isEmpty with
  | true =>
      have none : calls.filterMap (·.found table) = [] := by
        rw [FunctionTable.isEmpty, List.isEmpty_iff] at functions
        simp [LiteralCall.found, FunctionTable.get?, functions]
      rw [extract, functions, none]
      rfl
  | false =>
      obtain ⟨nodes, found, reads⟩ := reads_program calls [⟨.markup, "<?php".toList⟩]
      have tokens : lex (FileKind.code.toCode compiler (String.ofList (programOf calls))).toList =
          programTokens [⟨.markup, "<?php".toList⟩] calls := by
        rw [FileKind.toCode, String.toList_ofList, ← lexFrom_calls]
        exact lex_markup (calls.flatMap fun call => ' ' :: (call.source ++ [';'])) (show isMarkup [] = true from rfl)
      have read := reads []
      rw [List.append_nil, ← tokens] at read
      rw [extract_of_reads nodes functions read, found]

/-- The function of the table that is called finds the string at its index. -/
theorem extract_literalCall (compiler : TemplateCompiler) {table : FunctionTable} {function : TranslationFunction}
    (listed : function ∈ table.functions) (named : isFunctionName function.name = true) {arguments : List Written}
    (nonempty : arguments ≠ []) :
    extract compiler table .code ("<?php " ++ function.name ++ "(" ++
        ", ".intercalate (arguments.map fun written => String.ofList written.source) ++ ");") =
      .ok (arguments[function.argument]?.toList.map fun written => ⟨function.name, written.value⟩) := by
  obtain ⟨first, others, rfl⟩ := List.exists_cons_of_ne_nil nonempty
  let call : LiteralCall := ⟨function.name, named, first, others⟩
  have source : "<?php " ++ function.name ++ "(" ++
      ", ".intercalate ((first :: others).map fun written => String.ofList written.source) ++ ");" =
        String.ofList (programOf [call]) := by
    rw [← String.toList_inj, String.toList_ofList]
    simp [programOf, LiteralCall.source, call, LiteralCall.arguments, String.toList_intercalate, Function.comp_def]
  have found : call.found table = (first :: others)[function.argument]?.map fun written =>
      ⟨function.name, written.value⟩ := by
    rw [LiteralCall.found, FunctionTable.get?_name listed]
    rfl
  rw [source, extract_program, List.filterMap_cons, found]
  cases (first :: others)[function.argument]? <;> rfl

theorem extract_price :
    extract Template.compile ⟨[⟨"price", 1, .text⟩], by decide⟩ .code "<?php price('it\\'s', \"\\$5 // ?>\");" =
      .ok [⟨"price", "$5 // ?>"⟩] := by
  let arguments : List Written := [⟨.single, "it's", by decide⟩, ⟨.double, "$5 // ?>", by decide⟩]
  have source : "<?php " ++ "price" ++ "(" ++
      ", ".intercalate (arguments.map fun written => String.ofList written.source) ++ ");" =
        "<?php price('it\\'s', \"\\$5 // ?>\");" := by decide +kernel
  rw [← source]
  exact @extract_literalCall Template.compile ⟨[⟨"price", 1, .text⟩], by decide⟩ ⟨"price", 1, .text⟩
    (List.mem_singleton_self _) (by decide +kernel) arguments (List.cons_ne_nil _ _)

end Phrasebook.Php
