import Phrasebook.Proofs.Php.Insertion
import Phrasebook.Proofs.Php.Differences
import Phrasebook.Proofs.Php.Faults

/-!
# Comments are invisible

A comment that is put between two tokens of a source changes nothing of what is extracted.
-/

namespace Phrasebook.Php

open Node

/-! ## Faults -/

mutual

theorem preorder_strip (node : Node) : node.strip.preorder = node.preorder.map strip := by
  cases node with
  | leaf | missing => rfl
  | branch kind children =>
      rw [preorder, List.map_cons, ← listPreorder_strip children, strip_branch, preorder]

theorem listPreorder_strip (nodes : List Node) :
    preorder.listPreorder (nodes.map strip) = (preorder.listPreorder nodes).map strip := by
  cases nodes with
  | nil => rfl
  | cons node nodes =>
      rw [List.map_cons, preorder.listPreorder, preorder.listPreorder, List.map_append, preorder_strip node,
        listPreorder_strip nodes]

end

theorem isFault_strip (node : Node) : node.strip.isFault = node.isFault := by
  cases node with
  | leaf | missing => rfl
  | branch kind children => rw [strip_branch, isFault_branch, isFault_branch]

theorem isFaulty_strip (node : Node) : node.strip.IsFaulty ↔ node.IsFaulty := by
  simp only [IsFaulty, preorder_strip, List.mem_map, exists_exists_and_eq_and, isFault_strip]

theorem faultless_of_strip {root other : Node} (same : other.strip = root.strip) (faultless : root.firstFault? = none) :
    other.firstFault? = none := by
  rw [← Option.not_isSome_iff_eq_none, isSome_firstFault?] at faultless ⊢
  rwa [← isFaulty_strip, same, isFaulty_strip]

/-! ## Places between tokens -/

def isName : Node → Bool
  | .branch .name _ => true
  | .branch .qualifiedName _ => true
  | _ => false

/-- A place between two tokens of a source: behind the opening tag and before the end, in no string and in no name. It
divides what separates the tokens. -/
structure Gap (front back : List Char) where
  left : List Token
  near : List Skipped
  far : List Skipped
  lexeme : Lexeme
  right : List Token
  tokens : lex (front ++ back) = left ++ ⟨near ++ far, lexeme⟩ :: right
  before : front = left.flatMap Token.source ++ near.flatMap (·.text)
  begun : front ≠ []
  ends : back ≠ []
  noString : closers (left.map (·.lexeme)) = openers (left.map (·.lexeme))
  noName : Outside isName left.length (parse (front ++ back))

/-! ## Literals -/

def IsOneToken : Node → Prop
  | .branch .nowdoc parts => ∃ token, parts = [.leaf token]
  | _ => True

theorem isOneToken_of_kind {kind : Kind} {children : List Node} (other : [Kind.nowdoc].contains kind = false) :
    IsOneToken (.branch kind children) := by
  cases kind <;> trivial

theorem builds_nowdoc (phrase : Phrase) : (grammar phrase).Builds grammar IsOneToken := by
  cases phrase with
  | base last =>
      refine ⟨.of_avoids (fun _ _ => isOneToken_of_kind) (by cases last <;> rfl), trivial, .choice fun rule mem => ?_⟩
      simp only [List.mem_cons, List.not_mem_nil, or_false] at mem
      rcases mem with rfl | rfl | rfl | rfl | rfl | rfl | rfl | rfl | rfl | rfl | rfl | rfl | rfl | rfl | rfl
      all_goals try exact .of_avoids (fun _ _ => isOneToken_of_kind) rfl
      refine ⟨trivial, fun _ moved _ _ derives => ?_⟩
      obtain ⟨token, _, _, rfl⟩ := Reads.of_lexeme ⟨moved, derives⟩
      exact ⟨token, rfl⟩
  | statement last | ifTail last | switchCases last | type last | expression last | element last | operand last
  | prefixed last | primary last | suffix last | closure last | creation last | classReference last | name last =>
      exact .of_avoids (fun _ _ => isOneToken_of_kind) (by cases last <;> rfl)
  | _ => exact .of_avoids (fun _ _ => isOneToken_of_kind) rfl

theorem isOneToken_parse (source : List Char) : (parse source).All IsOneToken := by
  rcases parse_cases source with ⟨moved, derives⟩ | ⟨rest, _, same⟩
  · exact derives.builds (fun _ => trivial) builds_nowdoc trivial (fun _ mem => by cases mem) rfl _ List.mem_cons_self
  · rw [same]
    exact all_faultyTree (fun _ => trivial) trivial (fun _ => trivial) (fun _ => trivial) _ _

section Places

variable {source : List Char} {left right : List Token}

theorem outside_of_chunks {front back parts : List Token} {opener closer : Token}
    (split : lex source = left ++ right) (slice : lex source = front ++ (opener :: (parts ++ [closer])) ++ back)
    (opens : opener.lexeme.kind = .opener) (chunks : ∀ part ∈ parts, part.lexeme.kind = .chunk)
    (balanced : closers (left.map (·.lexeme)) = openers (left.map (·.lexeme))) :
    left.length ≤ front.length ∨ front.length + (opener :: (parts ++ [closer])).length ≤ left.length := by
  by_contra inside
  simp only [List.length_cons, List.length_append, List.length_nil, not_or, not_le] at inside
  -- If the place were inside, the text before it would have the opener of the string and none of its closers.
  have reached : front ++ [opener] <+: left := by
    have start : front ++ [opener] <+: lex source := ⟨parts ++ [closer] ++ back, by rw [slice]; simp⟩
    refine List.prefix_of_prefix_length_le start ⟨right, split.symm⟩ ?_
    simp only [List.length_append, List.length_singleton]
    omega
  obtain ⟨within, rfl⟩ := reached
  have inner : within <+: parts := by
    have whole : front ++ [opener] ++ within <+: front ++ [opener] ++ parts := by
      have chunks : front ++ [opener] ++ parts <+: lex source := ⟨closer :: back, by rw [slice]; simp⟩
      refine List.prefix_of_prefix_length_le ⟨right, split.symm⟩ chunks ?_
      simp only [List.length_append, List.length_singleton] at inside ⊢
      omega
    exact (List.prefix_append_right_inj _).1 whole
  have outer := @closers_le_lex source front
    ⟨opener :: (parts ++ [closer]) ++ back, by rw [slice, List.append_assoc]⟩
  have plain (lexeme : Lexeme) (mem : lexeme ∈ within.map (·.lexeme)) : lexeme.kind = .chunk := by
    obtain ⟨token, there, rfl⟩ := List.mem_map.1 mem
    exact chunks token (inner.subset there)
  have noCloser : closers (within.map (·.lexeme)) = 0 := closers_eq_zero fun lexeme mem closes => by
    rw [plain lexeme mem] at closes
    cases closes
  rw [closers, openers, List.map_append, List.countP_append, List.countP_append, List.map_append, List.countP_append,
    List.countP_append, List.map_singleton, List.countP_cons_of_neg (by simp [opens]),
    List.countP_cons_of_pos (by simp [opens])] at balanced
  simp only [closers, openers, List.countP_nil] at balanced outer noCloser
  omega

theorem tokens_of_isInterpolated {opens : Lexeme → Prop} {kind : Kind} {nodes : List Node}
    (between : IsInterpolated opens nodes) (plain : nodes.all isPlainPart = true) :
    ∃ opener parts closer, (Node.branch kind nodes).tokens = opener :: (parts ++ [closer]) ∧ opens opener.lexeme ∧
      ∀ part ∈ parts, part.lexeme.kind = .chunk := by
  obtain ⟨opener, inner, closer, rfl, opened, -, all⟩ := between
  simp only [List.all_cons, List.all_append, Bool.and_eq_true] at plain
  obtain ⟨chunks, rfl, isChunk⟩ := exists_chunks all plain.2.1
  exact ⟨opener, chunks, closer, by simp [listTokens_map_leaf, Node.tokens], opened, isChunk⟩

theorem kind_of_openQuote? {lexeme : Lexeme} {quote : Char} (opens : lexeme.openQuote? = some quote) :
    lexeme.kind = .opener := by
  by_contra other
  rw [openQuote?_of_kind other] at opens
  cases opens

theorem outside_isSolid (split : lex source = left ++ right)
    (balanced : closers (left.map (·.lexeme)) = openers (left.map (·.lexeme)))
    (names : Outside isName left.length (parse source)) : Outside isSolid left.length (parse source) := by
  intro address node node? solid
  obtain ⟨front, back, whole, length⟩ := slice node?
  rw [tokens_parse] at whole
  have shaped := ((shaped_parse source).at node?).here
  have alone := ((isOneToken_parse source).at node?).here
  have interpolated {opener closer : Token} {parts : List Token} (tokens : node.tokens = opener :: (parts ++ [closer]))
      (opens : opener.lexeme.kind = .opener) (chunks : ∀ part ∈ parts, part.lexeme.kind = .chunk) :
      left.length ≤ (parse source).tokensBefore address ∨
        (parse source).tokensBefore address + node.tokens.length ≤ left.length := by
    rw [tokens] at whole ⊢
    rw [← length]
    exact outside_of_chunks split whole opens chunks balanced
  -- A node of one token has no place inside; a string has one, but not where all strings are closed.
  cases node with
  | leaf | missing => cases solid
  | branch kind parts =>
      cases kind
      case name => exact names address _ node? rfl
      case qualifiedName => exact names address _ node? rfl
      case string =>
        obtain ⟨token, rfl, -⟩ := shaped
        have one : (Node.branch .string [.leaf token]).tokens.length = 1 := by simp [Node.tokens]
        omega
      case nowdoc =>
        obtain ⟨token, rfl⟩ := alone
        have one : (Node.branch .nowdoc [.leaf token]).tokens.length = 1 := by simp [Node.tokens]
        omega
      case encapsed =>
        have between : IsInterpolated (·.openQuote? = some '"') parts := shaped
        obtain ⟨opener, inner, closer, tokens, opens, chunks⟩ := tokens_of_isInterpolated between solid
        exact interpolated tokens (kind_of_openQuote? opens) chunks
      case heredoc =>
        have between : IsInterpolated (·.kind = .opener) parts := shaped
        obtain ⟨opener, inner, closer, tokens, opens, chunks⟩ := tokens_of_isInterpolated between solid
        exact interpolated tokens opens chunks
      all_goals cases solid

end Places

/-! ## Extraction -/

/-- A comment between two tokens of a source changes nothing of what is extracted, unless it would join with what stands
before it. -/
theorem extract_remark (compiler : TemplateCompiler) (table : FunctionTable) {front back : List Char}
    (gap : Gap front back) (remark : Remark) (admits : Admits remark gap.left gap.near gap.far)
    {found : List Occurrence} (extracted : extract compiler table .code (String.ofList (front ++ back)) = .ok found) :
    extract compiler table .code (String.ofList (front ++ (remark.source ++ back))) = .ok found := by
  cases functions : table.isEmpty with
  | true =>
      rw [extract, if_pos functions] at extracted ⊢
      exact extracted
  | false =>
      have root (text : List Char) : parse (FileKind.code.toCode compiler (String.ofList text)).toList = parse text := by
        rw [FileKind.toCode, String.toList_ofList]
      have faultless : (parse (front ++ back)).firstFault? = none := by
        rw [extract, if_neg (by simp [functions])] at extracted
        dsimp only at extracted
        rw [root] at extracted
        split at extracted
        · cases extracted
        · rename_i sound
          simpa using sound
      -- The comment changes the gap of one token. Without gaps the trees are the same, and the nodes that are read
      -- with theirs do not hold the place.
      obtain ⟨joined, markup, lexed⟩ := lex_remark remark gap.tokens gap.before (tidy_of_faultless faultless) admits
        gap.noString gap.begun gap.ends
      have stripped : (lex (front ++ back)).map Token.strip =
          (lex (front ++ (remark.source ++ back))).map Token.strip := by
        rw [gap.tokens, lexed, List.map_append, List.map_append, List.map_cons, List.map_cons, Token.strip, Token.strip,
          markup]
      have strip := strip_parse stripped faultless
      have differ : Differ ⟨gap.near ++ gap.far, gap.lexeme⟩ ⟨joined, gap.lexeme⟩ gap.left (parse (front ++ back))
          (parse (front ++ (remark.source ++ back))) :=
        ⟨strip.symm, gap.right, (tokens_parse _).trans gap.tokens, (tokens_parse _).trans lexed⟩
      have same := occurrences_differ table differ rfl
        (outside_isSolid gap.tokens gap.noString gap.noName) (shaped_parse _)
      have faultless' := faultless_of_strip strip faultless
      rw [extract_of_faultless functions (by rw [root, faultless]), root] at extracted
      rw [extract_of_faultless functions (by rw [root, faultless']), root, ← same, extracted]

/-! ## Two places -/

section Examples

theorem outside_of_addressed {test : Node → Bool} {place : Nat} {root : Node}
    (all : (root.addressed.all fun (address, node) => !test node || decide (place ≤ root.tokensBefore address) ||
      decide (root.tokensBefore address + node.tokens.length ≤ place)) = true) : Outside test place root := by
  intro address node node? passes
  have here := List.all_eq_true.1 all (address, node) (mem_addressed.2 node?)
  simpa [passes] using here

def bracketRemark : Remark := .block " ) ".toList (by decide) (by decide)

theorem lex_labelled : lex "<?php __(k:'a');".toList = [.word opening "__", .symbol [] "(", .word [] "k", .symbol [] ":",
    .single "'a'".toList, .symbol [] ")", .symbol [] ";", ⟨[], ⟨.finish, []⟩⟩] := by
  calc lex "<?php __(k:'a');".toList
    _ = .word opening "__" :: .symbol [] "(" :: lexFrom [] [] ("k".toList ++ (":".toList ++ '\'' :: ("a".toList ++
          '\'' :: ");".toList))) := lex_call _
    _ = _ := by
      rw [lexFrom_word "k" _ _ rfl rfl, lexFrom_symbol ":" _ _ (by decide) rfl rfl, lexFrom_single _ rfl, lexFrom_stop]
      rfl

theorem parse_labelled : parse "<?php __(k:'a');".toList = callTree [.branch .argument
    [.branch .name [.leaf (.word [] "k")], .leaf (.symbol [] ":"), .branch .string [.leaf (.single "'a'".toList)]]] := by
  rw [parse, lex_labelled]
  rfl

def labelGap : Gap "<?php __(k".toList ":'a');".toList where
  left := [.word opening "__", .symbol [] "(", .word [] "k"]
  near := []
  far := []
  lexeme := ⟨.symbol, ":".toList⟩
  right := [.single "'a'".toList, .symbol [] ")", .symbol [] ";", ⟨[], ⟨.finish, []⟩⟩]
  tokens := lex_labelled
  before := by decide
  begun := by decide
  ends := by decide
  noString := rfl
  noName := by
    refine outside_of_addressed ?_
    rw [show "<?php __(k".toList ++ ":'a');".toList = "<?php __(k:'a');".toList from rfl, parse_labelled]
    decide

theorem extract_remark_label :
    Admits bracketRemark labelGap.left labelGap.near labelGap.far ∧
      extract Template.compile .standard .code (String.ofList ("<?php __(k".toList ++ ":'a');".toList)) =
        .ok [⟨"__", "a"⟩] ∧
      extract Template.compile .standard .code
        (String.ofList ("<?php __(k".toList ++ (bracketRemark.source ++ ":'a');".toList))) = .ok [⟨"__", "a"⟩] := by
  have admits : Admits bracketRemark labelGap.left labelGap.near labelGap.far :=
    ⟨(fun _ mem => by cases mem), by decide, by decide⟩
  have root : parse (FileKind.code.toCode Template.compile
      (String.ofList ("<?php __(k".toList ++ ":'a');".toList))).toList = _ := parse_labelled
  have extracted : extract Template.compile .standard .code (String.ofList ("<?php __(k".toList ++ ":'a');".toList)) =
      .ok [⟨"__", "a"⟩] := by
    rw [extract_of_faultless rfl (by rw [root]; rfl), root]
    exact congrArg _ (by decide +kernel)
  exact ⟨admits, extracted, extract_remark _ _ labelGap bracketRemark admits extracted⟩

theorem lex_divided : lex "<?php __('a')/1;".toList = [.word opening "__", .symbol [] "(", .single "'a'".toList,
    .symbol [] ")", .symbol [] "/", ⟨[], ⟨.number, ['1']⟩⟩, .symbol [] ";", ⟨[], ⟨.finish, []⟩⟩] := by
  have number : lexFrom [] [] "1;".toList = [⟨[], ⟨.number, ['1']⟩⟩, .symbol [] ";", ⟨[], ⟨.finish, []⟩⟩] := by
    have first : lexFrom [] [] ('1' :: ";".toList) = ⟨[], ⟨.number, ['1']⟩⟩ :: lexFrom [] [] (";".toList.drop 0) :=
      lexFrom_lexeme [] rfl rfl
    have last : lexFrom [] [] (";".toList ++ []) = [.symbol [] ";", ⟨[], ⟨.finish, []⟩⟩] := by
      rw [lexFrom_symbol ";" _ _ (by decide) rfl rfl, lexFrom_nil]
    exact first.trans (congrArg _ last)
  calc lex "<?php __('a')/1;".toList
    _ = .word opening "__" :: .symbol [] "(" :: lexFrom [] [] ('\'' :: ("a".toList ++ '\'' :: (")".toList ++
          ("/".toList ++ "1;".toList)))) := lex_call _
    _ = _ := by
      rw [lexFrom_single _ rfl, lexFrom_symbol ")" _ _ (by decide) rfl rfl, lexFrom_symbol "/" _ _ (by decide) rfl rfl,
        number]
      rfl

theorem parse_divided : parse "<?php __('a')/1;".toList = .branch .program [.branch .statement [.branch .operation
    [.branch .call [.branch .name [.leaf (.word opening "__")], .branch .arguments [.leaf (.symbol [] "("),
      stringArgument "'a'".toList, .leaf (.symbol [] ")")]], .leaf (.symbol [] "/"),
      .branch .number [.leaf ⟨[], ⟨.number, ['1']⟩⟩]], .leaf (.symbol [] ";")], .leaf ⟨[], ⟨.finish, []⟩⟩] := by
  rw [parse, lex_divided]
  rfl

def divisionGap : Gap "<?php __('a')/".toList "1;".toList where
  left := [.word opening "__", .symbol [] "(", .single "'a'".toList, .symbol [] ")", .symbol [] "/"]
  near := []
  far := []
  lexeme := ⟨.number, ['1']⟩
  right := [.symbol [] ";", ⟨[], ⟨.finish, []⟩⟩]
  tokens := lex_divided
  before := by decide
  begun := by decide
  ends := by decide
  noString := rfl
  noName := by
    refine outside_of_addressed ?_
    rw [show "<?php __('a')/".toList ++ "1;".toList = "<?php __('a')/1;".toList from rfl, parse_divided]
    decide

/-- Behind a division sign a comment becomes a one-line comment. -/
theorem not_extract_remark_division : ¬ ∀ (front back : List Char) (_ : Gap front back) (remark : Remark)
    (found : List Occurrence),
    extract Template.compile .standard .code (String.ofList (front ++ back)) = .ok found →
      extract Template.compile .standard .code (String.ofList (front ++ (remark.source ++ back))) = .ok found := by
  intro all
  have root : parse (FileKind.code.toCode Template.compile
      (String.ofList ("<?php __('a')/".toList ++ "1;".toList))).toList = _ := parse_divided
  have extracted : extract Template.compile .standard .code (String.ofList ("<?php __('a')/".toList ++ "1;".toList)) =
      .ok [⟨"__", "a"⟩] := by
    rw [extract_of_faultless rfl (by rw [root]; rfl), root]
    exact congrArg _ (by decide +kernel)
  have swallowed : lexFrom [] [] ('/' :: "/* ) */1;".toList) = [⟨[⟨.comment, "//* ) */1;".toList⟩], ⟨.finish, []⟩⟩] :=
    (lexFrom_separator [] rfl (Nat.le_refl _)).trans (lexFrom_nil _)
  have lexed : lex "<?php __('a')//* ) */1;".toList = [.word opening "__", .symbol [] "(", .single "'a'".toList,
      .symbol [] ")", ⟨[⟨.comment, "//* ) */1;".toList⟩], ⟨.finish, []⟩⟩] := by
    calc lex "<?php __('a')//* ) */1;".toList
      _ = .word opening "__" :: .symbol [] "(" :: lexFrom [] [] ('\'' :: ("a".toList ++ '\'' :: (")".toList ++
            '/' :: "/* ) */1;".toList))) := lex_call _
      _ = _ := by
        rw [lexFrom_single _ rfl, lexFrom_symbol ")" _ _ (by decide) rfl rfl, swallowed]
        rfl
  have faulty : (parse "<?php __('a')//* ) */1;".toList).firstFault?.isSome = true := by
    rw [parse, lexed]
    rfl
  have refused : extract Template.compile .standard .code
      (String.ofList ("<?php __('a')/".toList ++ (bracketRemark.source ++ "1;".toList))) = .error .malformed := by
    rw [extract, if_neg (by decide)]
    exact if_pos faulty
  rw [all _ _ divisionGap bracketRemark _ extracted] at refused
  cases refused

end Examples

end Phrasebook.Php
