import Phrasebook.Proofs.Template.Sections

namespace Phrasebook.Template

open Php
open FunctionTable (standard)
open Rule (sym keyword keywords sequence isWordAmong)

variable {before gap : List Skipped} {code : List Char} {tokens rest rest' : List Token}
  {found found' : List Occurrence} {after : Rule Phrase} {inside : Bool}

theorem yields_semicolon (plain : (Token.symbol gap ";").afterMarkup = false) :
    Yields semicolon (.symbol gap ";" :: rest) rest [] :=
  .imp (.right (Reads.of_apart (.not_markup plain)).1) (.lexeme rfl)

theorem yields_markup (marked : (Token.symbol gap ";").afterMarkup = true) :
    Yields semicolon (.symbol gap ";" :: rest) (.symbol gap ";" :: rest) [] :=
  .of_nothing fun _ => .left ⟨false, .markup marked⟩

theorem yields_echo (printed : Yields (expressions true) tokens rest found) (ends : Yields semicolon rest rest' []) :
    Yields (.call (.statement inside)) (.word before "echo" :: tokens) rest' found := by
  have statement : Yields (.seq (keyword "echo") (.seq (expressions true) semicolon)) (.word before "echo" :: tokens)
      rest' (found ++ []) := .token_seq rfl (printed.seq ends)
  rw [List.append_nil] at statement
  exact .imp .call (.node (by decide) (.imp (.choice 13 rfl rfl) statement))

theorem yields_printed (printed : Yields (value true) tokens (.symbol [] ";" :: rest) found) :
    Yields (.call (.statement inside)) (.word before "echo" :: tokens) rest found := by
  have values : Yields (expressions true) tokens (.symbol [] ";" :: rest) (found ++ []) :=
    printed.seq (.of_nothing fun _ => .passed rfl)
  rw [List.append_nil] at values
  exact yields_echo values (yields_semicolon rfl)

theorem yields_escaped (fits : Slot.arguments.Fits code) :
    Yields (.call (.statement inside)) ((Section.echo true code).tokens before rest) rest
      (Slot.arguments.calls standard code) :=
  yields_printed (.call .e (by decide) .semicolon fits)

theorem yields_raw (fits : Slot.printed.Fits code)
    (ends : Yields semicolon (Slot.printed.stopAfter code :: rest) rest' []) :
    Yields (.call (.statement inside)) ((Section.echo false code).tokens before rest) rest'
      (Slot.printed.calls standard code) :=
  yields_echo (fits.yields trivial) ends

theorem yields_nothing : Yields (.call (.statement inside)) (.symbol before ";" :: rest) rest [] :=
  .imp .call (.node (by decide) (.imp (.choice 0 rfl rfl) (.lexeme rfl)))

theorem yields_expression {symbol : String} (starts : symbol = "$" ∨ symbol = "(")
    (value : Yields (value true) (.symbol before symbol :: tokens) (.symbol [] ";" :: rest) found) :
    Yields (.call (.statement inside)) (.symbol before symbol :: tokens) rest found := by
  have statement : Yields (.seq (Php.value true) semicolon) (.symbol before symbol :: tokens) rest (found ++ []) :=
    value.seq (yields_semicolon rfl)
  rw [List.append_nil] at statement
  rcases starts with rfl | rfl
  · exact .imp .call (.node (by decide) (.imp (.choice 22 rfl rfl)
      (.nothing_seq (fun _ => .apart (.refused rfl)) statement)))
  · exact .imp .call (.node (by decide) (.imp (.choice 22 rfl rfl)
      (.nothing_seq (fun _ => .apart (.refused rfl)) statement)))

theorem yields_setFlag (number : Nat) (flag : Bool) :
    Yields (.call (.statement inside)) (flagTokens before number flag rest) rest [] :=
  yields_expression (.inl rfl) (.assignment .semicolon (flagWord number) flag rfl)

theorem yields_directive {name : String} (fits : Slot.further.Fits code) :
    Yields (.call (.statement inside)) ((Section.directive name code).tokens before rest) rest
      (Slot.further.calls standard code) :=
  yields_expression (.inl rfl) (.directive .semicolon _ fits)

theorem yields_bareDirective (name : String) :
    Yields (.call (.statement inside)) ((Section.bareDirective name).tokens before rest) rest [] :=
  yields_expression (.inl rfl) (.bareDirective .semicolon _)

theorem yields_otherwise : Yields (.call (.statement inside)) (Section.otherwise.tokens before rest) rest [] :=
  .imp .call (.node (by decide) (.imp (.choice 2 rfl rfl)
    (.imp .attempt ((Yields.lexeme rfl).seq (.imp (.joined rfl) (.lexeme rfl))))))

theorem yields_endif : Yields (.call (.statement inside)) (Section.endif.tokens before rest) rest [] := by
  have constant : Yields (value true) (.word before "endif" :: .symbol [] ";" :: rest) (.symbol [] ";" :: rest) [] :=
    .of_nodes [.branch .name [.leaf (.word before "endif")]]
      (by rw [callsIn_branch (occurrence?_branch (by decide) _)]; simp) fun frame =>
      .value_of_base .semicolon rfl rfl (.base_name .endif rfl)
  have noLabel (frame : List Node) : Sticks (label true labelWord) frame
      (.word before "endif" :: .symbol [] ";" :: rest) :=
    .attempt (.seq_of_reads (.lexeme rfl) (.joined (.refused rfl)))
  have allowed (frame : List Node) : Reads (.apart (.alt (keywords statementWords) (Rule.exactly "unset"))) frame
      (.word before "endif" :: .symbol [] ";" :: rest) frame (.word before "endif" :: .symbol [] ";" :: rest) :=
    .apart (.refused rfl)
  have statement := Yields.nothing_seq allowed (constant.seq (yields_semicolon rfl))
  refine .imp .call (.node (by decide) (statement.imp fun reads => ?_))
  exact .right (.refused rfl) (.right (.refused rfl) (.right (noLabel _) (.choice 19 rfl rfl reads)))

inductive Starter
  | echo
  | branch
  | loop (loop : Loop)
  | dollar
  | semicolon
  | otherwise
  | endif

def Starter.token (before : List Skipped) : Starter → Token
  | echo => .word before "echo"
  | branch => .word before "if"
  | loop kind => .word before kind.keyword
  | dollar => .symbol before "$"
  | semicolon => .symbol before ";"
  | otherwise => .word before "else"
  | endif => .word before "endif"

def unlessAmong (inside : Bool) (words : List String) : Rule Phrase :=
  .seq (.apart (keywords words)) (.call (.statement inside))

/-- A body up to some words goes on with a statement. -/
theorem Starter.yields_among (starter : Starter) {words : List String}
    (other : isWordAmong words (starter.token before).lexeme = false)
    (statement : Yields (.call (.statement inside)) (starter.token before :: tokens) rest found)
    (others : Yields (.seq (.many (unlessAmong inside words)) after) rest rest' found') :
    Yields (.seq (.many (unlessAmong inside words)) after) (starter.token before :: tokens) rest' (found ++ found') := by
  have noWord (frame : List Node) : Sticks (keywords words) frame (starter.token before :: tokens) := by
    refine ⟨false, starter.token before :: tokens, .lexemeStuck fun token here => ?_⟩
    cases here
    exact other
  have item : Yields (unlessAmong inside words) (starter.token before :: tokens) rest found :=
    .nothing_seq (fun frame => .apart (noWord frame)) statement
  exact .many_seq rfl (item.seq others)

theorem yields_end {words : List String} {token : Token} (among : isWordAmong words token.lexeme = true)
    (this : Yields after (token :: tokens) rest found) :
    Yields (.seq (.many (unlessAmong inside words)) after) (token :: tokens) rest found :=
  .nothing_seq (fun _ => ⟨false, .manyEnd (.seqStuck (.apartStuck (.lexeme among)))⟩) this

def branchWords : List String := ["elseif", "else", "endif"]

def elseifRule : Rule Phrase := sequence [keyword "elseif", parenthesized, sym ":", statementsUntil true branchWords]

def elseRule : Rule Phrase := sequence [keyword "else", sym ":", statementsUntil false ["endif"]]

def blockEnd (word : String) : Rule Phrase := .seq (keyword word) semicolon

def branchEnd : Rule Phrase := .seq (.many elseifRule) (.seq (.option elseRule) (blockEnd "endif"))

def branchBody : Rule Phrase := .seq (.many (unlessAmong true branchWords)) branchEnd

def blockBody (word : String) : Rule Phrase := .seq (.many (unlessAmong false [word])) (blockEnd word)

theorem yields_parenthesized (kind : Test) (fits : kind.slot.Fits code) :
    Yields parenthesized (kind.tokens code rest) rest (kind.slot.calls standard code) := by
  have parentheses {tokens : List Token} {before gap : List Skipped} {found : List Occurrence}
      (inner : Yields (value false) tokens (.symbol gap ")" :: rest) found) :
      Yields parenthesized (.symbol before "(" :: tokens) rest found := by
    have all : Yields (sequence [sym "(", value false, sym ")"]) (.symbol before "(" :: tokens) rest (found ++ []) :=
      .token_seq rfl (inner.seq (.lexeme rfl))
    rwa [List.append_nil] at all
  cases kind with
  | holds => exact parentheses (fits.yields trivial)
  | fails => exact parentheses (.negation fits)
  | isset => exact parentheses (.call .isset (by decide) .parenthesis fits)
  | empty => exact parentheses (.call .empty (by decide) .parenthesis fits)

theorem yields_branch (condition : Yields parenthesized tokens (.symbol gap ":" :: rest) found)
    (body : Yields branchBody rest rest' found') :
    Yields (.call (.statement inside)) (.word before "if" :: tokens) rest' (found ++ found') := by
  have tail : Yields (.call (.ifTail inside)) (.symbol gap ":" :: rest) rest' found' :=
    .imp .call (.imp .left (.token_seq rfl body))
  exact .imp .call (.node (by decide) (.imp (.choice 3 rfl rfl)
    (.token_seq rfl (condition.seq tail))))

theorem yields_elseif (fits : Slot.condition.Fits code) (body : Yields branchBody tokens rest found) :
    Yields branchBody ((Section.elseif code).tokens before tokens) rest
      (Slot.condition.calls standard code ++ found) := by
  have condition : Yields parenthesized _ (.symbol [] ":" :: tokens) _ :=
    yields_parenthesized .holds fits
  have clause : Yields (.seq elseifRule branchEnd) ((Section.elseif code).tokens before tokens) rest
      (Slot.condition.calls standard code ++ found) :=
    .assoc (.token_seq rfl (.assoc (condition.seq (.assoc (.token_seq rfl body)))))
  exact yields_end rfl (.many_seq rfl clause)

theorem yields_blockEnd_branch : Yields (blockBody "endif") (Section.endif.tokens before rest) rest [] :=
  yields_end rfl (.token_seq rfl (yields_semicolon rfl))

theorem yields_branchEnd_else (body : Yields (blockBody "endif") tokens rest found) :
    Yields branchBody (Section.otherwise.tokens before tokens) rest found :=
  yields_end rfl (.nothing_seq (fun _ => .passed rfl)
    (.option_seq (.assoc (.token_seq rfl (.assoc (.token_seq rfl body))))))

theorem yields_branchEnd : Yields branchBody (Section.endif.tokens before rest) rest [] :=
  yields_end rfl (.nothing_seq (fun _ => .passed rfl) (.nothing_seq (fun _ => .passed rfl)
    (.token_seq rfl (yields_semicolon rfl))))

theorem yields_bodyUntil (kind : Loop) (body : Yields (blockBody kind.endKeyword) tokens rest found) :
    Yields (bodyUntil inside kind.endKeyword) (.symbol [] ":" :: tokens) rest found :=
  .imp .left (.token_seq rfl body)

theorem yields_loop (kind : Loop) (fits : kind.slot.Fits code)
    (body : Yields (blockBody kind.endKeyword) tokens rest found) :
    Yields (.call (.statement inside)) ((Section.loop kind code).tokens before tokens) rest
      (kind.slot.calls standard code ++ found) := by
  have tail : Yields (bodyUntil inside kind.endKeyword) (.symbol [] ":" :: tokens) rest found :=
    yields_bodyUntil kind body
  have closed (gap : List Skipped) : Yields (.seq (sym ")") (.alt .markup (bodyUntil inside kind.endKeyword)))
      (.symbol gap ")" :: .symbol [] ":" :: tokens) rest found := .token_seq rfl (tail.imp (.right (.refused rfl)))
  cases kind with
  | repeating =>
      have condition : Yields parenthesized _ (.symbol [] ":" :: tokens) _ :=
        yields_parenthesized .holds fits
      exact .imp .call (.node (by decide) (.imp (.choice 5 rfl rfl) (.token_seq rfl (condition.seq tail))))
  | counting =>
      have head := (fits.yields trivial).seq (closed _)
      refine .imp .call (.node (by decide) (.imp (.choice 7 rfl rfl) (.token_seq rfl (.token_seq rfl
        (head.imp fun reads => ?_)))))
      obtain ⟨_, _, slot, tail⟩ := reads.of_seq
      obtain ⟨_, _, start, slot⟩ := slot.of_seq
      obtain ⟨_, _, first, slot⟩ := slot.of_seq
      obtain ⟨_, _, test, slot⟩ := slot.of_seq
      obtain ⟨_, _, second, advance⟩ := slot.of_seq
      exact start.seq (first.seq (test.seq (second.seq (advance.seq tail))))
  | iterating =>
      have head := (fits.yields trivial).seq (closed _)
      refine .imp .call (.node (by decide) (.imp (.choice 8 rfl rfl) (.token_seq rfl (.token_seq rfl
        (head.imp fun reads => ?_)))))
      obtain ⟨_, _, slot, tail⟩ := reads.of_seq
      obtain ⟨_, _, subject, slot⟩ := slot.of_seq
      obtain ⟨_, _, word, target⟩ := slot.of_seq
      exact subject.seq (word.seq (target.seq tail))

theorem yields_endloop (kind : Loop) :
    Yields (blockBody kind.endKeyword) ((Section.endloop kind).tokens before rest) rest [] :=
  yields_end (by cases kind <;> rfl) (.token_seq (by cases kind <;> rfl) (yields_semicolon rfl))

end Phrasebook.Template
