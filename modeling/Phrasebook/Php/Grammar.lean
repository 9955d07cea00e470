import Phrasebook.Php.Rule

/-!
# The grammar of PHP

One rule for each `Phrase`. Which operator binds tighter has no bearing on where calls are, so the
operands of an expression and the operators between them stand side by side in one node. A word is a
keyword where a phrase that begins with it may stand, and a name everywhere else. A bracketed list is
read before it is known whether it is a value or a pattern to assign to; `isPattern` and `isOpen` tell.

Markup ends a statement wherever it may end, and separates tokens everywhere else. A phrase that is `last` is
one behind which a statement may end; what else could go on there goes on only where no markup stands. A
statement is `inside` if behind it an `if` with a colon may go on.
-/

namespace Phrasebook.Php

inductive Phrase
  | program
  | statement (inside : Bool)
  | statements
  | ifTail (inside : Bool)
  | switchCases (colon : Bool)
  | tryTail
  | declaration
  | classBody
  | enumBody
  | member
  | enumMember
  | hooks
  | parameters
  | type (last : Bool)
  | attributes
  | expression (last : Bool)
  | element (last : Bool)
  | operand (last : Bool)
  | prefixed (last : Bool)
  | primary (last : Bool)
  | base (last : Bool)
  | suffix (last : Bool)
  | arguments
  | argument
  | closure (last : Bool)
  | creation (last : Bool)
  | classReference (last : Bool)
  | name (last : Bool)
  | simpleVariable
  | stringPart
  | foreachTarget
  deriving DecidableEq, Repr

/-! ## Words -/

def expressionWords : List String :=
  ["true", "false", "null", "array", "list", "function", "fn", "static", "new", "clone", "print",
   "yield", "include", "include_once", "require", "require_once", "throw", "match", "namespace"]

def statementWords : List String :=
  ["if", "while", "for", "foreach", "do", "switch", "try", "return", "break", "continue", "echo",
   "goto", "const", "global", "use", "class", "abstract", "final", "readonly", "interface", "trait",
   "enum", "declare", "exit"]

def labelExceptions : List String :=
  ["list", "new", "clone", "print", "yield", "include", "include_once", "require", "require_once",
   "throw"]

def castWords : List String :=
  ["array", "binary", "bool", "boolean", "double", "int", "integer", "float", "object", "real",
   "string", "unset"]

def binaryOperators : List String :=
  ["+", "-", "*", "/", "%", ".", "**", "<<", ">>", "<", ">", "<=", ">=", "<=>", "==", "!=", "<>",
   "===", "!==", "&", "|", "^", "&&", "||", "??", "|>"]

def assignmentOperators : List String :=
  ["**=", "*=", "/=", "%=", "+=", "-=", ".=", "<<=", ">>=", "&=", "^=", "|=", "??="]

/-! ## Tests of nodes -/

def isVariable : Node → Bool
  | .branch .variable _ => true
  | .branch .subscript _ => true
  | .branch .member _ => true
  | .branch .staticProperty _ => true
  | .branch .staticCall _ => true
  | .branch .call _ => true
  | .branch .cast children => children.getLast?.any (·.isKind .variable)
  | _ => false

mutual

/-- A bracketed list that is no value: it has an empty place, or an element that is no value. -/
def isOpen : Node → Bool
  | .branch .list _ => true
  | .branch .bracket children => isOpenIn children
  | .branch .element children => isOpenIn children
  | .branch .hole _ => true
  | _ => false

def isOpenIn : List Node → Bool
  | [] => false
  | child :: children => isOpen child || isOpenIn children

end

mutual

def isPatternOf (kind : Kind) : Node → Bool
  | .branch k children => k == kind && isPatternIn kind children
  | _ => false

def isPatternIn (kind : Kind) : List Node → Bool
  | [] => true
  | .branch .element children :: rest => endsInTarget kind false children && isPatternIn kind rest
  | _ :: rest => isPatternIn kind rest

def endsInTarget (kind : Kind) (found : Bool) : List Node → Bool
  | [] => found
  | .leaf token :: rest =>
    if token.lexeme.text == "...".toList then false else endsInTarget kind found rest
  | node :: rest => endsInTarget kind (isVariable node || isPatternOf kind node) rest

end

def isPattern (node : Node) : Bool := isPatternOf .list node || isPatternOf .bracket node

def isEmptyList : Node → Bool
  | .branch .bracket [_, _] => true
  | _ => false

/-- What may be called: a name, a variable, a list, a string, or anything in parentheses. -/
def isCallable : Node → Bool
  | .branch .name _ => true
  | .branch .qualifiedName _ => true
  | .branch .relativeName _ => true
  | .branch .parenthesized _ => true
  | .branch .array _ => true
  | .branch .string _ => true
  | .branch .nowdoc _ => true
  | .branch .encapsed _ => true
  | .branch .heredoc _ => true
  | .branch .creation _ => true
  | .branch .bracket children => !isOpen (.branch .bracket children)
  | node => isVariable node && !node.isKind .cast

def isBase (node : Node) : Bool := isCallable node || node.isKind .classConstant

/-! ## Rules -/

open Rule

/-- What may follow a phrase: in a phrase that is last, only where markup does not end the statement. -/
def joined (last : Bool) (rule : Rule Phrase) : Rule Phrase :=
  if last then .seq (.apart .markup) rule else rule

def semicolon : Rule Phrase := .alt .markup (sym ";")

def value (last : Bool) : Rule Phrase := .call (.expression last)

def parenthesized : Rule Phrase := sequence [sym "(", value false, sym ")"]

def series (last : Bool) (item : Rule Phrase) : Rule Phrase :=
  .seq item (.many (joined last (.seq (sym ",") item)))

def statementsUntil (inside : Bool) (texts : List String) : Rule Phrase :=
  .many (.seq (.apart (keywords texts)) (.call (.statement inside)))

def block : Rule Phrase :=
  .node .block (sequence [sym "\x7b", .call .statements, sym "\x7d"])

def expressions (last : Bool) : Rule Phrase := series last (value last)

def bodyUntil (inside : Bool) (text : String) : Rule Phrase :=
  .alt (sequence [sym ":", statementsUntil false [text], keyword text, semicolon])
    (.call (.statement inside))

def label (last : Bool) (rule : Rule Phrase) : Rule Phrase :=
  .attempt (.seq rule (joined last (sym ":")))

def dollarWord : Rule Phrase := .node .variable (.seq (sym "$") (kind .word))

def segments (last : Bool) : Rule Phrase :=
  .many (joined last (.attempt (.seq (sym "\\") (kind .word))))

def looseName (last : Bool) : Rule Phrase :=
  sequence [.option (sym "\\"), kind .word, segments last]

def looseNames (last : Bool) : Rule Phrase := series last (looseName last)

def returnType (last : Bool) : Rule Phrase :=
  .option (joined last (.seq (sym ":") (.call (.type last))))

def initializer (last : Bool) : Rule Phrase :=
  .option (joined last (.seq (sym "=") (value last)))

def nameWord : Rule Phrase :=
  .lexeme fun l => l.kind == .word && !isWordAmong expressionWords l &&
    l.text != "self".toList && l.text != "parent".toList

def labelWord : Rule Phrase :=
  .lexeme fun l => l.kind == .word && !isWordAmong (expressionWords ++ statementWords) l &&
    l.text != "self".toList && l.text != "parent".toList && l.text != "unset".toList

def visibility (last : Bool) : Rule Phrase :=
  .seq (keywords ["public", "protected", "private"])
    (.option (joined last (.attempt (sequence [sym "(", keyword "set", sym ")"]))))

def modifier : Rule Phrase :=
  .alt (visibility false) (keywords ["var", "static", "final", "abstract", "readonly"])

def constElement : Rule Phrase := sequence [kind .word, sym "=", value true]

def constants : Rule Phrase :=
  sequence [keyword "const", .alt (.ahead (.seq (kind .word) (sym "="))) (.call (.type false)),
    series true constElement, semicolon]

def functionHead (last : Bool) : Rule Phrase :=
  sequence [keyword "function", .option (sym "&"), kind .word, .call .parameters, returnType last]

def base? : Rule Phrase := .option (.seq (keyword "extends") (looseNames false))

def interfaces? : Rule Phrase := .option (.seq (keyword "implements") (looseNames false))

def attributes? : Rule Phrase := .option (.call .attributes)

/-- What follows the condition of an `if`. Where an `if` with a colon goes on with the statement, an alternative
with a colon belongs to that `if`; every other alternative belongs to the nearest one. -/
def ifTail (inside : Bool) : Rule Phrase :=
  let closers := ["elseif", "else", "endif"]
  let own (head : Rule Phrase) := if inside then .attempt (.seq head (.apart (sym ":"))) else head
  .alt
    (sequence [sym ":", statementsUntil true closers,
      .many (sequence [keyword "elseif", parenthesized, sym ":", statementsUntil true closers]),
      .option (sequence [keyword "else", sym ":", statementsUntil false ["endif"]]),
      keyword "endif", semicolon])
    (sequence [.call (.statement inside),
      .many (.seq (own (.seq (keyword "elseif") parenthesized)) (.call (.statement inside))),
      .option (.seq (own (keyword "else")) (.call (.statement inside)))])

def switchCases (colon : Bool) : Rule Phrase :=
  let statements := statementsUntil false (["case", "default"] ++ if colon then ["endswitch"] else [])
  .many (.alt
    (sequence [keyword "case", value false, .alt (sym ":") (sym ";"), statements])
    (sequence [keyword "default", .alt (sym ":") (sym ";"), statements]))

def useClauses : Rule Phrase :=
  let alias? (last : Bool) : Rule Phrase := .option (joined last (.seq (keyword "as") (kind .word)))
  let kind? : Rule Phrase := .option (keywords ["function", "const"])
  let member := sequence [kind?, kind .word, segments false, alias? false]
  let name := sequence [.option (sym "\\"), kind .word, segments true]
  let group := sequence [sym "\\", sym "\x7b", commaList member (sym "\x7d"), sym "\x7d"]
  sequence [kind?, name, .alt (joined true group)
    (.seq (alias? true) (.many (joined true (sequence [sym ",", name, alias? true]))))]

def namespaceTail : Rule Phrase :=
  .alt block (sequence [kind .word, segments true, .alt semicolon block])

def declaration : Rule Phrase :=
  let typeHead (word : String) := .seq (keyword word) (kind .word)
  choice
    [.seq (.ahead (sequence [keyword "function", .option (sym "&"), kind .word]))
        (.seq (functionHead false) block),
     sequence [.many (keywords ["abstract", "final", "readonly"]), typeHead "class", base?,
       interfaces?, .call .classBody],
     sequence [typeHead "interface", base?, .call .classBody],
     sequence [typeHead "trait", .call .classBody],
     sequence [typeHead "enum", returnType false, interfaces?, .call .enumBody]]

def traitRules : Rule Phrase :=
  let method := .seq (looseName false) (.option (.seq (sym "::") (kind .word)))
  let change := .alt (.seq (keyword "insteadof") (looseNames true))
    (.seq (keyword "as") (.alt (.seq (visibility true) (.option (joined true (kind .word)))) (kind .word)))
  sequence [sym "\x7b", .many (sequence [method, change, semicolon]), sym "\x7d"]

def property : Rule Phrase :=
  sequence [.option (.call (.type false)), series true (.seq dollarWord (initializer true)),
    .alt semicolon (.call .hooks)]

def traitUse : Rule Phrase := sequence [keyword "use", looseNames true, .alt semicolon traitRules]

def method : Rule Phrase := .seq (functionHead true) (.alt semicolon block)

def isModifier : Node → Bool
  | .leaf token => token.lexeme.text != [']']
  | _ => false

def member : Rule Phrase :=
  .node .declaration (.seq attributes? (.alt traitUse
    (.seq (.many modifier) (choice [constants, method, .seq (.given isModifier) property]))))

def enumMember : Rule Phrase :=
  let enumCase := sequence [keyword "case", kind .word, initializer true, semicolon]
  .node .declaration (.seq attributes? (choice
    [traitUse, enumCase, .seq (.many modifier) (.alt constants method)]))

def hooks : Rule Phrase :=
  let tail := choice [semicolon, sequence [sym "=>", value true, semicolon], block]
  sequence [sym "\x7b",
    .many (sequence [attributes?, .many modifier, .option (sym "&"), kind .word,
      .option (joined true (.call .parameters)), tail]),
    sym "\x7d"]

def parameters : Rule Phrase :=
  let parameter := sequence [attributes?, .many modifier, .option (.call (.type false)), .option (sym "&"),
    .option (sym "..."), dollarWord, initializer false, .option (.call .hooks)]
  sequence [sym "(", .option (commaList parameter (sym ")")), .option (sym ","), sym ")"]

def type (last : Bool) : Rule Phrase :=
  let name (last : Bool) := .seq (.option (sym "\\")) (.seq (kind .word) (segments last))
  let intersection (last : Bool) := .seq (name last) (.many (joined last
    (.seq (.attempt (.seq (sym "&") (.apart (choice [sym "$", sym "...", sym "&"])))) (name last))))
  let piece := choice
    [sequence [sym "(", intersection false, sym ")"], .seq (sym "?") (name last), intersection last]
  .seq piece (.many (joined last (.seq (sym "|") piece)))

def attributeGroups : Rule Phrase :=
  let group := sequence [sym "#[",
    commaList (.seq (looseName false) (.option (.call .arguments))) (sym "]"), sym "]"]
  .seq group (.many group)

def literal : Rule Phrase :=
  choice
    [kind .number, kind .single, kind .nowdoc, keywords ["true", "false", "null"],
     sequence [kind .opener, .many (kind .chunk), kind .closer]]

def statement (inside : Bool) : Rule Phrase :=
  .node .statement (choice
    [sym ";",
     block,
     label true labelWord,
     sequence [keyword "if", parenthesized, .call (.ifTail inside)],
     sequence [keyword "switch", parenthesized,
       .alt (sequence [sym "\x7b", .call (.switchCases false), sym "\x7d"])
         (sequence [sym ":", .call (.switchCases true), keyword "endswitch", semicolon])],
     sequence [keyword "while", parenthesized, bodyUntil inside "endwhile"],
     sequence [keyword "do", .call (.statement false), keyword "while", parenthesized, semicolon],
     sequence [keyword "for", sym "(", .option (expressions false), sym ";", .option (expressions false),
       sym ";", .option (expressions false), sym ")", .alt .markup (bodyUntil inside "endfor")],
     sequence [keyword "foreach", sym "(", value false, keyword "as", .call .foreachTarget, sym ")",
       .alt .markup (bodyUntil inside "endforeach")],
     sequence [keyword "goto", kind .word, semicolon],
     sequence [keywords ["continue", "break", "return"], .option (joined true (value true)), semicolon],
     sequence [keyword "try", block, .call .tryTail],
     sequence [keyword "declare", sym "(",
       commas (sequence [choice [exactly "ticks", exactly "encoding", exactly "strict_types"],
         sym "=", literal]), sym ")", .alt .markup (bodyUntil inside "enddeclare")],
     sequence [keyword "echo", expressions true, semicolon],
     sequence [keyword "exit",
       .option (joined true (sequence [sym "(", .option (value false), sym ")"])), semicolon],
     sequence [exactly "unset", sym "(",
       commaList (.seq (.call (.operand false)) (.given isVariable)) (sym ")"), sym ")", semicolon],
     .seq (.ahead (.seq (keyword "const") (kind .word))) constants,
     .seq (.ahead (.seq (keyword "namespace") (.apart (sym "\\"))))
       (.seq (keyword "namespace") namespaceTail),
     sequence [keyword "use", useClauses, semicolon],
     sequence [keyword "global", series true (.call .simpleVariable), semicolon],
     sequence [.attempt (.seq (keyword "static") (.ahead (sym "$"))),
       series true (.seq dollarWord (initializer true)), semicolon],
     .seq attributes? (.call .declaration),
     sequence [.apart (.alt (keywords statementWords) (exactly "unset")), value true, semicolon]])

def tryTail : Rule Phrase :=
  let clause := .alt
    (sequence [keyword "catch", sym "(", looseName false, .many (.seq (sym "|") (looseName false)),
      .option dollarWord, sym ")", block])
    (.seq (keyword "finally") block)
  .seq clause (.many clause)

def reference (last : Bool) : Rule Phrase := sequence [sym "&", .call (.operand last), .given isVariable]

def foreachTarget : Rule Phrase :=
  .alt (reference false) (.seq (.call (.element false)) (.option
    (sequence [.given fun n => !isOpen n, sym "=>", .alt (reference false) (.call (.element false))])))

def fraction : Rule Phrase := .lexeme fun l => l.kind == .number && l.text.head? == some '.'

/-- What may follow an operand of an expression: an operator and the next operand. A fraction there is a point
that joins a number to the operand. -/
def continuation (last : Bool) : Rule Phrase :=
  let operand := .seq (.call (.operand last)) (.given fun n => !isOpen n)
  choice
    [fraction,
     .seq (.alt (.lexeme fun l => l.kind == .symbol && binaryOperators.contains (String.ofList l.text))
        (keywords ["and", "or", "xor"])) operand,
     sequence [sym "?", .option (value false), sym ":", operand],
     .seq (keyword "instanceof") (.call (.classReference last))]

/-- Operands and what stands between them; a pattern can stand alone. -/
def element (last : Bool) : Rule Phrase :=
  let more := joined last (continuation last)
  .seq (.call (.operand last))
    (.option (.extend .operation (.seq (.given fun n => !isOpen n) (.seq more (.many more)))))

def listElement (last : Bool) : Rule Phrase :=
  choice
    [.seq (sym "...") (value last),
     reference last,
     .seq (.call (.element last)) (.option (joined last (sequence
       [.given fun n => !isOpen n, sym "=>", .alt (reference last) (.call (.element last))])))]

def valueElement (last : Bool) : Rule Phrase := .seq (listElement last) (.given fun n => !isOpen n)

def elements (holes : Bool) (closer : Rule Phrase) : Rule Phrase :=
  let item := if holes then .alt (.node .element (listElement false)) (.node .hole (.ahead (sym ",")))
    else .node .element (valueElement false)
  .seq (.option (commaList item closer)) (.option (sym ","))

/-- The elements of a list with possible empty places; a single comma leaves nothing empty. -/
def bracketElements : Rule Phrase :=
  .alt (.attempt (.seq (sym ",") (.ahead (sym "]")))) (elements true (sym "]"))

def closureRule (last : Bool) : Rule Phrase :=
  let use? := .option (sequence [keyword "use", sym "(",
    .option (commaList (.seq (.option (sym "&")) dollarWord) (sym ")")), .option (sym ","), sym ")"])
  sequence [.attempt (sequence [attributes?, .option (keyword "static"),
      .ahead (keywords ["function", "fn"])]),
    .alt
      (sequence [keyword "function", .option (sym "&"), .call .parameters, use?, returnType false, block])
      (sequence [keyword "fn", .option (sym "&"), .call .parameters, returnType false, sym "=>",
        value last])]

/-- What begins with an operator or a word and yet may be cloned. -/
def prefixedPrimary (last : Bool) : Rule Phrase :=
  .alt
    (.node .update (sequence [.alt (sym "++") (sym "--"), .call (.operand last), .given isVariable]))
    (.node .expression (.seq (keywords ["print", "throw"]) (value last)))

def prefixed (last : Bool) : Rule Phrase :=
  let closed := .seq (.call (.operand last)) (.given fun n => !isOpen n)
  let arm := sequence [.alt (.seq (keyword "default") (.option (sym ",")))
    (commaList (value false) (sym "=>")), sym "=>", value false]
  choice
    [.node .unary (.seq (choice [sym "+", sym "-", sym "~", sym "!", sym "@"]) closed),
     .node .cast (.seq (.attempt (sequence [sym "(", keywords castWords, sym ")"])) closed),
     prefixedPrimary last,
     .node .expression (.seq (keyword "clone") (.alt (prefixedPrimary last) (.call (.primary last)))),
     .node .expression (.seq (keywords ["include", "include_once", "require", "require_once"])
       (value last)),
     .node .expression (.seq (keyword "yield") (.option (joined last
       (.alt (.seq (keyword "from") (value last)) (valueElement last))))),
     .node .expression (sequence [keyword "match", parenthesized, sym "\x7b",
       .option (commaList arm (sym "\x7d")), sym "\x7d"])]

def scopeWord : Rule Phrase := choice [keyword "static", exactly "self", exactly "parent"]

/-- Where a literal, a name or a bracket begins. A word for a class is nothing by itself. -/
def baseRule (last : Bool) : Rule Phrase :=
  choice
    [.call .simpleVariable,
     .node .number (kind .number),
     .node .string (kind .single),
     .node .nowdoc (kind .nowdoc),
     .node .encapsed (sequence [.lexeme fun l => l.kind == .opener && l.text.getLast? == some '"' &&
         !"<<<".toList.isPrefixOf l.text, .many (.call .stringPart), kind .closer]),
     .node .shell (sequence [.lexeme fun l => l.kind == .opener && l.text == ['\x60'],
       .many (.call .stringPart), kind .closer]),
     .node .heredoc (sequence [.lexeme fun l => l.kind == .opener && "<<<".toList.isPrefixOf l.text,
       .many (.call .stringPart), kind .closer]),
     .node .constant (keywords ["true", "false", "null"]),
     .seq (.node .scope scopeWord) (.ahead (sym "::")),
     .node .call (.seq (.attempt (.seq (.node .name scopeWord) (.ahead (sym "(")))) (.call .arguments)),
     .node .bracket (sequence [sym "[", bracketElements, sym "]"]),
     .node .array (sequence [keyword "array", sym "(", elements false (sym ")"), sym ")"]),
     .node .list (sequence [keyword "list", sym "(", elements true (sym ")"), sym ")"]),
     .node .parenthesized parenthesized,
     .call (.name last)]

def suffix (last : Bool) : Rule Phrase :=
  let memberName := choice
    [kind .word, .call .simpleVariable, sequence [sym "\x7b", value false, sym "\x7d"]]
  let base := joined last (.given isBase)
  let head := .alt (.given (·.isKind .scope)) base
  choice
    [.extend .call (.seq (joined last (.given isCallable)) (.call .arguments)),
     .extend .member (sequence [base, .alt (sym "->") (sym "?->"), memberName,
       .option (joined last (.call .arguments))]),
     .extend .staticCall (sequence [head,
       .attempt (sequence [sym "::", memberName, .ahead (joined last (sym "("))]), .call .arguments]),
     .extend .staticProperty (sequence [head,
       .attempt (.seq (sym "::") (.call .simpleVariable))]),
     .extend .classConstant (sequence [head, sym "::",
       .alt (kind .word) (sequence [sym "\x7b", value false, sym "\x7d"])]),
     .extend .subscript (sequence [base, sym "[", .option (value false), sym "]"]),
     .extend .subscript (sequence [joined last (.given (·.isKind .variable)), sym "\x7b", value false,
       sym "\x7d"])]

/-- An operand: something with a prefix, or a base with suffixes that may be assigned to. A pattern with
something in it is no value, so no statement ends behind it. -/
def operand (last : Bool) : Rule Phrase :=
  let target := .alt (joined last (.given fun n => isVariable n || isEmptyList n))
    (.given fun n => isPattern n && !isEmptyList n)
  let assign := .extend .assignment (.alt
    (sequence [target, sym "=", .option (sym "&"), value last])
    (sequence [joined last (.given isVariable),
      .lexeme fun l => l.kind == .symbol && assignmentOperators.contains (String.ofList l.text),
      value last]))
  let count := .extend .update (.seq (joined last (.given isVariable)) (.alt (sym "++") (sym "--")))
  .seq (.alt (.call (.prefixed last)) (.call (.primary last))) (.option (.alt assign count))

def argumentsRule : Rule Phrase :=
  .node .arguments (sequence [sym "(",
    .alt (.node .placeholder (.attempt (.seq (sym "...") (.ahead (sym ")")))))
      (.seq (.option (commaList (.call .argument) (sym ")"))) (.option (sym ","))),
    sym ")"])

def argument : Rule Phrase :=
  .node .argument (sequence
    [.option (label false (.node .name (wordBut labelExceptions))),
     .option (sym "&"),
     choice
       [.node .unpacking (.seq (sym "...") (value false)),
        .node .name (.attempt (.seq scopeWord (.ahead (.alt (sym ",") (sym ")"))))),
        value false]])

def creation (last : Bool) : Rule Phrase :=
  let anonymous := sequence [attributes?, .many (keyword "readonly"), keyword "class",
    .option (.call .arguments), base?, interfaces?, .call .classBody]
  .seq (.node .bareCreation (.seq (keyword "new") (.alt
      (.node .creation (.seq (.ahead (choice [sym "#[", keywords ["readonly", "class"]])) anonymous))
      (.call (.classReference last)))))
    (.option (.extend .creation (joined last (.call .arguments))))

def classReference (last : Bool) : Rule Phrase :=
  let memberName := choice
    [kind .word, .call .simpleVariable, sequence [sym "\x7b", value false, sym "\x7d"]]
  let step := choice
    [.extend .member (.seq (.alt (sym "->") (sym "?->")) memberName),
     .extend .staticProperty (.seq (sym "::") (.call .simpleVariable)),
     .extend .subscript (sequence [sym "[", .option (value false), sym "]"])]
  .alt (.node .parenthesized parenthesized)
    (.seq (.alt (.call .simpleVariable) (.node .name (looseName last))) (.many (joined last step)))

def nameRule (last : Bool) : Rule Phrase :=
  let tail := .seq (.attempt (.seq (sym "\\") (kind .word))) (segments last)
  choice
    [.node .relativeName (sequence [keyword "namespace", sym "\\", kind .word, segments last]),
     .node .qualifiedName (sequence [sym "\\", kind .word, segments last]),
     .node .qualifiedName (.seq (.attempt (sequence [nameWord, joined last (sym "\\"), kind .word]))
       (segments last)),
     .seq (.node .name nameWord) (.apart (joined last tail))]

def simpleVariable : Rule Phrase :=
  .node .variable (.seq (sym "$") (choice
    [kind .word, .call .simpleVariable, sequence [sym "\x7b", value false, sym "\x7d"]]))

def stringPart : Rule Phrase :=
  let index := sequence [sym "[",
    choice [.seq (.option (sym "-")) (kind .number), kind .word, dollarWord], sym "]"]
  .alt (kind .chunk) (.node .substitution (choice
    [sequence [sym "$", kind .word, .option (.alt index (.seq (sym "->") (kind .word)))],
     sequence [sym "$", sym "\x7b", value false, sym "\x7d"],
     sequence [sym "\x7b", value false, sym "\x7d"]]))

def grammar : Phrase → Rule Phrase
  | .program => .node .program (.seq (.call .statements) (kind .finish))
  | .statement inside => statement inside
  | .statements => .many (.call (.statement false))
  | .ifTail inside => ifTail inside
  | .switchCases colon => switchCases colon
  | .tryTail => tryTail
  | .declaration => declaration
  | .classBody => sequence [sym "\x7b", .many (.call .member), sym "\x7d"]
  | .enumBody => sequence [sym "\x7b", .many (.call .enumMember), sym "\x7d"]
  | .member => member
  | .enumMember => enumMember
  | .hooks => hooks
  | .parameters => parameters
  | .type last => type last
  | .attributes => attributeGroups
  | .expression last => .seq (.call (.element last)) (.given fun n => !isOpen n)
  | .element last => element last
  | .operand last => operand last
  | .prefixed last => prefixed last
  | .primary last => .seq (.call (.base last)) (.many (.call (.suffix last)))
  | .base last => .alt (.node .closure (.call (.closure last))) (.alt (.call (.creation last)) (baseRule last))
  | .suffix last => suffix last
  | .arguments => argumentsRule
  | .argument => argument
  | .closure last => closureRule last
  | .creation last => creation last
  | .classReference last => classReference last
  | .name last => nameRule last
  | .simpleVariable => simpleVariable
  | .stringPart => stringPart
  | .foreachTarget => foreachTarget

end Phrasebook.Php
