import Phrasebook.Proofs.Php.Reads
import Phrasebook.Proofs.Php.Lexing

namespace Phrasebook.Php

open Rule

def reservedWords : List String := statementWords ++ expressionWords

def isReserved (word : String) : Bool := isWordAmong reservedWords ⟨.word, word.toList⟩ || word == "unset"

def isScope (word : String) : Bool := word == "self" || word == "parent"

def isFunctionName (name : String) : Bool :=
  name.toList.head?.any isNameStart && name.toList.all isNameChar && !isReserved name

variable {word : String}

theorem ne_reserved (free : isReserved word = false) :
    ∀ keyword ∈ reservedWords, word.toList.map Char.toLower ≠ keyword.toList := by
  rw [isReserved, Bool.or_eq_false_iff] at free
  simp only [isWordAmong, beq_self_eq_true, Bool.true_and, List.contains_eq_mem, decide_eq_false_iff_not,
    List.mem_map, not_exists, not_and] at free
  exact fun keyword member same => free.1 keyword member same.symm

theorem ne_unset (free : isReserved word = false) : word.toList ≠ "unset".toList := by
  rw [isReserved, Bool.or_eq_false_iff, beq_eq_false_iff_ne] at free
  exact fun same => free.2 (String.toList_inj.1 same)

theorem ne_scope (alone : isScope word = false) :
    word.toList ≠ "self".toList ∧ word.toList ≠ "parent".toList := by
  rw [isScope, Bool.or_eq_false_iff, beq_eq_false_iff_ne, beq_eq_false_iff_ne] at alone
  exact ⟨fun same => alone.1 (String.toList_inj.1 same), fun same => alone.2 (String.toList_inj.1 same)⟩

namespace Verdict

@[congr]
theorem seq_congr {first first' : Verdict} (second : Verdict) (same : first = first') :
    first.seq second = first'.seq second := by rw [same]

@[congr]
theorem alt_congr {first first' : Verdict} (second : Verdict) (same : first = first') :
    first.alt second = first'.alt second := by rw [same]

@[simp]
theorem stuck_seq (second : Verdict) : stuck.seq second = stuck := rfl

@[simp]
theorem still_seq (second : Verdict) : still.seq second = second := rfl

@[simp]
theorem stuck_alt (second : Verdict) : stuck.alt second = second := rfl

@[simp]
theorem optional_stuck : stuck.optional = still := rfl

@[simp]
theorem branch_stuck : stuck.branch = stuck := rfl

end Verdict

theorem symbolVerdict_of_eq {lexeme : Lexeme} {marked : Bool} {depth : Nat} {phrase : Phrase} {rule : Rule Phrase}
    (same : grammar phrase = rule) : symbolVerdict grammar lexeme marked (depth + 1) phrase =
      rule.verdict (symbolVerdict grammar lexeme marked depth) lexeme marked := by
  rw [symbolVerdict, same]

variable {gap gap' : List Skipped} {frame : List Node} {token : Token} {rest tokens : List Token} {node : Node}
  {last : Bool}

theorem refuses_prefixed (free : isReserved word = false) :
    (Rule.call (.prefixed last)).refuses grammar (Token.word gap word).lexeme (Token.word gap word).afterMarkup =
      true := by
  have among := ne_reserved free
  simp [reservedWords, statementWords, expressionWords] at among
  simp [Token.word, refuses, verdict, verdictDepth,
    symbolVerdict_of_eq (show grammar (.prefixed last) = prefixed last from rfl),
    prefixed, prefixedPrimary, Rule.choice, Rule.sequence, sym, keyword, keywords, isWordAmong, among]

namespace Reads

theorem base_word (free : isReserved word = false) (alone : isScope word = false)
    (noSlash : (sym "\\" : Rule Phrase).refuses grammar token.lexeme token.afterMarkup = true) :
    Reads (.call (.base last)) frame (.word gap word :: token :: rest)
      (.branch .name [.leaf (.word gap word)] :: frame) (token :: rest) := by
  have among := ne_reserved free
  simp [reservedWords, statementWords, expressionWords] at among
  have other : ¬ word.toList = ['s', 'e', 'l', 'f'] ∧ ¬ word.toList = ['p', 'a', 'r', 'e', 'n', 't'] :=
    ne_scope alone
  have noClosure : (Rule.node .closure (.call (.closure last))).refuses grammar (Token.word gap word).lexeme
      (Token.word gap word).afterMarkup = true := by
    simp [Token.word, refuses, verdict, verdictDepth,
      symbolVerdict_of_eq (show grammar (.closure last) = closureRule last from rfl),
      symbolVerdict_of_eq (show grammar .attributes = attributeGroups from rfl), closureRule, attributes?,
      attributeGroups, Rule.sequence, sym, keyword, keywords, isWordAmong, among]
  have noCreation : (Rule.call (.creation last)).refuses grammar (Token.word gap word).lexeme
      (Token.word gap word).afterMarkup = true := by
    simp [Token.word, refuses, verdict, verdictDepth,
      symbolVerdict_of_eq (show grammar (.creation last) = creation last from rfl), creation, keyword, isWordAmong,
      among]
  have passes : (fun l : Lexeme => l.kind == .word && !isWordAmong expressionWords l && l.text != "self".toList &&
      l.text != "parent".toList) (Token.word gap word).lexeme = true := by
    simp [Token.word, isWordAmong, expressionWords, among, other]
  refine .call (.right (.refused noClosure) (.right (.refused noCreation) (.choice 14 ?_ rfl (.call
    (.right (.refused ?_) (.right (.refused rfl) (.right ?_ ?_)))))))
  · simp [Token.word, refuses, verdict, verdictDepth,
      symbolVerdict_of_eq (show grammar .simpleVariable = simpleVariable from rfl), simpleVariable, scopeWord,
      parenthesized, Rule.choice, Rule.sequence, sym, kind, exactly, keyword, keywords, isWordAmong, among, other]
  · simp [Token.word, refuses, verdict, Rule.sequence, keyword, isWordAmong, among]
  · exact .node (.seq (.attempt (.seq_of_reads (.lexeme passes) (.seq (.joined (.refused noSlash))))))
  · exact .seq (.node (.lexeme passes)) (.apart (.joined (.seq (.attempt (.seq (.refused noSlash))))))

theorem scopeWord (scope : isScope word = true) :
    Reads Php.scopeWord frame (.word gap word :: rest) (.leaf (.word gap word) :: frame) rest := by
  rw [isScope, Bool.or_eq_true, beq_iff_eq, beq_iff_eq] at scope
  rcases scope with rfl | rfl
  · exact .choice 1 rfl rfl (.lexeme rfl)
  · exact .choice 2 rfl rfl (.lexeme rfl)

theorem base_scope (scope : isScope word = true) {arguments : Node}
    (read : ∀ frame, Reads (.call .arguments) frame (.symbol gap' "(" :: tokens) (arguments :: frame) rest) :
    Reads (.call (.base last)) frame (.word gap word :: .symbol gap' "(" :: tokens)
      (.branch .call [.branch .name [.leaf (.word gap word)], arguments] :: frame) rest := by
  have named : Reads Php.scopeWord [] (.word gap word :: .symbol gap' "(" :: tokens) [.leaf (.word gap word)]
      (.symbol gap' "(" :: tokens) := .scopeWord scope
  rw [isScope, Bool.or_eq_true, beq_iff_eq, beq_iff_eq] at scope
  have noClosure : (Rule.node .closure (.call (.closure last))).refuses grammar (Token.word gap word).lexeme
      (Token.word gap word).afterMarkup = true := by rcases scope with rfl | rfl <;> rfl
  have noCreation : (Rule.call (.creation last)).refuses grammar (Token.word gap word).lexeme
      (Token.word gap word).afterMarkup = true := by rcases scope with rfl | rfl <;> rfl
  refine .call (.right (.refused noClosure) (.right (.refused noCreation) ?_))
  iterate 8 refine .right (.refused (by rcases scope with rfl | rfl <;> rfl)) ?_
  exact .right (.seq_of_reads (.node named) (.refused rfl))
    (.left (.node (.seq (.attempt (.seq (.node named) (.ahead (.lexeme rfl)))) (read _))))

theorem callSuffix {callee arguments : Node} (callable : isCallable callee = true)
    (plain : token.afterMarkup = false)
    (read : ∀ frame, Reads (.call .arguments) frame (token :: tokens) (arguments :: frame) rest) :
    Reads (.call (.suffix last)) (callee :: frame) (token :: tokens) (.branch .call [callee, arguments] :: frame)
      rest :=
  .call (.left (.extend (.seq (.joined plain (.given callable)) (read _))))

theorem primary_function (free : isReserved word = false) {arguments : Node} {frame' : List Node}
    {rest' : List Token}
    (read : ∀ frame, Reads (.call .arguments) frame (.symbol [] "(" :: tokens) (arguments :: frame) rest)
    (others : Reads (.many (.call (.suffix last)))
      (.branch .call [.branch .name [.leaf (.word gap word)], arguments] :: frame) rest frame' rest') :
    Reads (.call (.primary last)) frame (.word gap word :: .symbol [] "(" :: tokens) frame' rest' := by
  cases scope : isScope word with
  | false => exact .call (.seq (base_word free scope rfl) (.many (.callSuffix rfl rfl read) rfl others))
  | true => exact .call (.seq (base_scope scope read) others)

theorem argument_of_value (free : isReserved word = false)
    (value : Reads (value false) [] (.word gap word :: .symbol gap' "(" :: tokens) [node] rest) :
    Reads (.call .argument) frame (.word gap word :: .symbol gap' "(" :: tokens)
      (.branch .argument [node] :: frame) rest := by
  have among := ne_reserved free
  simp [reservedWords, statementWords, expressionWords] at among
  have noLabel : Reads (.option (label false (.node .name (Rule.wordBut labelExceptions)))) []
      (.word gap word :: .symbol gap' "(" :: tokens) [] (.word gap word :: .symbol gap' "(" :: tokens) := by
    refine .attempt_passed ?_
    by_cases other : isWordAmong labelExceptions (Token.word gap word).lexeme = true
    · exact .seq (.node (.refused (by simp [refuses, verdict, wordBut, other])))
    · exact .seq_of_reads (.node (.lexeme (by simp [Token.word] at other ⊢; exact other))) (.refused rfl)
  have noScope : Sticks (.node .name (.attempt (.seq Php.scopeWord (.ahead (.alt (sym ",") (sym ")")))))) []
      (.word gap word :: .symbol gap' "(" :: tokens) := by
    cases scope : isScope word with
    | true => exact .node (.attempt (.seq_of_reads (.scopeWord scope) (.refused rfl)))
    | false =>
        have other : ¬ word.toList = ['s', 'e', 'l', 'f'] ∧ ¬ word.toList = ['p', 'a', 'r', 'e', 'n', 't'] :=
          ne_scope scope
        refine .node (.attempt (.seq (.refused ?_)))
        simp [Token.word, refuses, verdict, Php.scopeWord, Rule.choice, keyword, exactly, isWordAmong, among, other]
  exact .call (.node (.seq noLabel (.seq (.passed rfl) (.right (.refused rfl) (.right noScope value)))))

theorem statement_of_value {inside : Bool} (free : isReserved word = false)
    (noColon : (sym ":" : Rule Phrase).refuses grammar token.lexeme token.afterMarkup = true)
    (value : Reads (value true) [] (.word gap word :: token :: tokens) [node] (.symbol [] ";" :: rest)) :
    Reads (.call (.statement inside)) frame (.word gap word :: token :: tokens)
      (.branch .statement [node, .leaf (.symbol [] ";")] :: frame) rest := by
  have among := ne_reserved free
  simp [reservedWords, statementWords, expressionWords] at among
  have unset : ¬ word.toList = ['u', 'n', 's', 'e', 't'] := ne_unset free
  have noLabel : Sticks (label true labelWord) [] (.word gap word :: token :: tokens) :=
    .attempt (.lexeme_seq (.joined (.refused noColon)))
  have noKeyword : (Rule.alt (keywords statementWords) (exactly "unset")).refuses grammar (Token.word gap word).lexeme
      (Token.word gap word).afterMarkup = true := by
    simp [Token.word, refuses, verdict, statementWords, keywords, exactly, isWordAmong, among, unset]
  refine .call (.node (.right (.refused rfl) (.right (.refused rfl) (.right noLabel (.choice 19 ?_ rfl
    (.seq (.apart (.refused noKeyword)) (.seq value (.right (.refused rfl) (.lexeme rfl)))))))))
  simp [Token.word, refuses, verdict, verdictDepth,
    symbolVerdict_of_eq (show grammar .declaration = declaration from rfl),
    symbolVerdict_of_eq (show grammar .attributes = attributeGroups from rfl), declaration, attributes?,
    attributeGroups, constants, functionHead, base?, interfaces?, Rule.choice, Rule.sequence, sym, kind, exactly,
    keyword, keywords, isWordAmong, among, unset]

end Reads

end Phrasebook.Php
