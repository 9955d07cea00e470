import Phrasebook.Php.Literal
import Phrasebook.Proofs.Php.Lexing

/-!
# What the lexer reads

Each reading takes its lexemes from the text, so no part of a source is lost. A string between single quotes is one
lexeme; one between other quotes is an opener, its parts, and a closer with the same quote.
-/

namespace Phrasebook.Php

/-- To show something of all tokens it suffices to go from one reading to the next. -/
theorem lexFrom_induction {motive : List Frame → List Skipped → List Char → List Token → Prop}
    (ends : ∀ frames before text, text.drop (lengthOf (separatorsIn frames text)) = [] →
      motive frames before text [⟨before ++ separatorsIn frames text, ⟨.finish, []⟩⟩])
    (step : ∀ frames before text c rest others, text.drop (lengthOf (separatorsIn frames text)) = c :: rest →
      motive (read frames (c :: rest)).frames [] (rest.drop (read frames (c :: rest)).more) others →
      motive frames before text
        ((read frames (c :: rest)).tokens (before ++ separatorsIn frames text) ++ others))
    (frames : List Frame) (before : List Skipped) (text : List Char) :
    motive frames before text (lexFrom frames before text) := by
  induction size : text.length using Nat.strong_induction_on generalizing frames before text with
  | h size ih =>
      subst size
      rw [lexFrom_eq]
      cases here : text.drop (lengthOf (separatorsIn frames text)) with
      | nil => exact ends frames before text here
      | cons c rest =>
          refine step frames before text c rest _ here (ih _ ?_ _ _ _ rfl)
          have shorter := congrArg List.length here
          simp only [List.length_drop, List.length_cons] at shorter ⊢
          omega

/-! ## Nothing is lost -/

theorem separators_prefix (text : List Char) : (separators text).flatMap (·.text) <+: text := by
  fun_induction separators text with
  | case1 => exact List.nil_prefix
  | case2 => exact List.nil_prefix
  | case3 c rest kind more here ih =>
      obtain ⟨others, split⟩ := ih
      refine ⟨others, ?_⟩
      simp only [List.flatMap_cons, List.cons_append, List.append_assoc, split]
      rw [List.take_append_drop]

theorem separatorsIn_append (frames : List Frame) (text : List Char) :
    (separatorsIn frames text).flatMap (·.text) ++ text.drop (lengthOf (separatorsIn frames text)) = text := by
  have front : (separatorsIn frames text).flatMap (·.text) <+: text := by
    rw [separatorsIn]
    split
    · exact separators_prefix text
    · exact List.nil_prefix
  exact List.prefix_iff_eq_append.1 front

def Reading.Takes (reading : Reading) (text : List Char) : Prop :=
  reading.lexemes ≠ [] ∧ reading.lexemes.flatMap (·.text) = text.take (reading.more + 1)

section Takes

variable {frames : List Frame} {text : List Char}

theorem takes_one {kind : LexemeKind} {count : Nat} (some : 0 < count) :
    (Reading.one kind frames count text).Takes text := by
  refine ⟨List.cons_ne_nil _ _, ?_⟩
  simp only [Reading.one, List.flatMap_cons, List.flatMap_nil, List.append_nil]
  rw [Nat.sub_add_cancel some]

theorem takes_readSymbol : (readSymbol frames text).Takes text := by
  rw [readSymbol]
  cases found : symbols.find? (begins · text) with
  | none => exact takes_one Nat.one_pos
  | some symbol =>
      obtain ⟨rest, split⟩ := begins_iff.1 (by simpa using List.find?_some found)
      have some : 0 < symbol.length := by
        have all : ∀ symbol ∈ symbols, 0 < symbol.length := by decide
        exact all symbol (List.mem_of_find?_eq_some found)
      refine ⟨List.cons_ne_nil _ _, ?_⟩
      simp only [List.flatMap_cons, List.flatMap_nil, List.append_nil]
      rw [Nat.sub_add_cancel some, split, List.take_left]

theorem takes_readQuote {mark : Nat} : (readQuote frames mark text).Takes text := by
  rw [readQuote]
  split
  · split <;> exact takes_one (by omega)
  · exact takes_one (by omega)
  · exact takes_one Nat.one_pos

theorem takes_readCode {c : Char} : (readCode frames (c :: text)).Takes (c :: text) := by
  rw [readCode]
  split
  · rename_i starts
    have named : isNameChar c = true := by
      rw [isNameChar, Bool.or_eq_true]
      exact .inl (by simpa using starts)
    split
    · exact takes_readQuote
    · exact takes_one (by simp [named])
  · split
    · rename_i some
      exact takes_one some
    · split
      · exact takes_readQuote
      · split
        · split
          · exact takes_one (by omega)
          · split <;> exact takes_one (by omega)
          · exact takes_readSymbol
        · exact takes_readSymbol

theorem substitution_cases (begun : substitution text = true) :
    (∃ rest, text = '{' :: '$' :: rest) ∨ (∃ rest, text = '$' :: '{' :: rest) ∨
      ∃ c rest, text = '$' :: c :: rest ∧ c ≠ '{' ∧ isLabelStart c = true := by
  unfold substitution at begun
  split at begun
  · rename_i c rest
    by_cases brace : c = '{'
    · exact .inr (.inl ⟨rest, by rw [brace]⟩)
    · exact .inr (.inr ⟨c, rest, rfl, brace, by simpa [brace] using begun⟩)
  · exact .inl ⟨_, rfl⟩
  · cases begun

theorem readSubstitution_variable {c : Char} (rest : List Char) (other : c ≠ '{') :
    readSubstitution frames ('$' :: c :: rest) = readVariable frames (nameAt (c :: rest))
      ((c :: rest).drop (nameAt (c :: rest)).text.length) := by
  unfold readSubstitution
  split
  · rename_i same
    exact absurd (List.cons.inj (List.cons.inj same).2).1 other
  · rename_i same
    exact absurd (List.cons.inj same).1 (by decide)
  · simp only [Nat.add_comm 1, List.drop_succ_cons, List.drop_zero]

theorem takeWhile_append_drop {α : Type} (p : α → Bool) (items : List α) :
    items.takeWhile p ++ items.drop (items.takeWhile p).length = items :=
  List.prefix_iff_eq_append.1 (List.takeWhile_prefix p)

theorem nameAt_append_drop (text : List Char) : (nameAt text).text ++ text.drop (nameAt text).text.length = text := by
  rw [nameAt]
  split
  · exact takeWhile_append_drop isNameChar text
  · cases text <;> rfl

theorem nameAt_ne_nil (c : Char) (text : List Char) : (nameAt (c :: text)).text ≠ [] := by
  rw [nameAt]
  split
  · rename_i starts
    have name : isNameChar c = true := Bool.or_eq_true_iff.2 (.inl (by simpa using starts))
    rw [List.takeWhile_cons_of_pos name]
    exact List.cons_ne_nil _ _
  · exact List.cons_ne_nil _ _

theorem takes_of_append {reading : Reading} {back : List Char} (some : reading.lexemes ≠ [])
    (split : text = reading.lexemes.flatMap (·.text) ++ back)
    (length : (reading.lexemes.flatMap (·.text)).length = reading.more + 1) : reading.Takes text := by
  refine ⟨some, ?_⟩
  rw [split, ← length, List.take_left]

theorem takes_readVariable (name : Lexeme) (tail : List Char) :
    (readVariable frames name tail).Takes ('$' :: (name.text ++ tail)) := by
  rw [readVariable]
  split
  · rename_i index
    obtain ⟨rest, rfl⟩ := begins_iff.1 index
    exact @takes_of_append _ _ rest (List.cons_ne_nil _ _) (by simp) (by simp)
  · split
    · rename_i arrow
      obtain ⟨rest, rfl⟩ := begins_iff.1 arrow.1
      have split := nameAt_append_drop rest
      refine @takes_of_append _ _ (rest.drop (nameAt rest).text.length) (List.cons_ne_nil _ _) ?_ ?_
      · simpa using split.symm
      · simp
        omega
    · exact @takes_of_append _ _ tail (List.cons_ne_nil _ _) (by simp) (by simp)

theorem takes_readSubstitution (begun : substitution text = true) : (readSubstitution frames text).Takes text := by
  rcases substitution_cases begun with ⟨rest, rfl⟩ | ⟨rest, rfl⟩ | ⟨c, rest, rfl, other, _⟩
  · exact ⟨List.cons_ne_nil _ _, rfl⟩
  · exact ⟨List.cons_ne_nil _ _, rfl⟩
  · rw [readSubstitution_variable rest other]
    conv => arg 2; rw [← nameAt_append_drop (c :: rest)]
    exact takes_readVariable _ _

theorem heredocLength_pos {label : List Char} {c : Char} (apart : substitution (c :: text) = false) :
    0 < (heredocLength label (c :: text)).1 := by
  unfold heredocLength
  rw [if_neg (by simp [apart])]
  dsimp only
  split
  · omega
  · split
    · split
      · exact Nat.one_pos
      · split <;> simp
    · exact Nat.succ_pos _

theorem begins_of_heredocLength {label : List Char} {n : Nat} (ends : heredocLength label text = (n, true)) :
    begins label (text.drop n) = true := by
  fun_induction heredocLength label text generalizing n with
  | case1 | case2 | case4 => cases ends
  | case3 =>
      rename_i closes
      cases ends
      rw [Nat.add_comm, List.drop_succ_cons]
      rw [closesHeredoc, Bool.and_eq_true] at closes
      exact closes.2.1
  | case5 x rest _ _ inner =>
      rename_i ih
      cases ends
      by_cases lineEnd : x = '\n' ∨ x = '\r'
      · rw [dif_pos lineEnd] at ih
        simpa [lineEnd] using ih (by simpa [lineEnd] using inner)
      · rw [dif_neg lineEnd] at ih
        simpa [lineEnd] using ih (by simpa [lineEnd] using inner)
  | case6 =>
      rename_i inner ih
      cases ends
      exact ih inner

theorem quotedLength_pos {quote c : Char} (opens : begins [quote] (c :: text) = false)
    (apart : substitution (c :: text) = false) : 0 < quotedLength quote (c :: text) := by
  have other : c ≠ quote := by
    rintro rfl
    rw [begins_eq_false_iff] at opens
    exact opens ⟨text, rfl⟩
  unfold quotedLength
  rw [if_neg (by simp [other, apart])]
  split
  · split <;> omega
  · omega

theorem takes_read {c : Char} : (read frames (c :: text)).Takes (c :: text) := by
  unfold read
  split
  · split
    · exact takes_one Nat.one_pos
    · rename_i opens
      split
      · rename_i begun
        exact takes_readSubstitution begun
      · rename_i apart
        exact takes_one (quotedLength_pos (by simpa using opens) (by simpa using apart))
  · split
    · rename_i begun
      exact takes_readSubstitution begun
    · rename_i label _ apart
      have some := @heredocLength_pos text label c (by simpa using apart)
      split
      · rename_i n ends
        rw [ends] at some
        obtain ⟨rest, split⟩ := begins_iff.1 (begins_of_heredocLength ends)
        refine ⟨List.cons_ne_nil _ _, ?_⟩
        have size : n + label.length - 1 + 1 = n + label.length := by
          simp only at some
          omega
        simp only [List.flatMap_cons, List.flatMap_nil, List.append_nil]
        rw [size, List.take_add, split, List.take_left]
      · rename_i n ends
        rw [ends] at some
        exact takes_one some
  · exact takes_readCode

end Takes

theorem flatMap_tokens {reading : Reading} (some : reading.lexemes ≠ []) (before : List Skipped) :
    (reading.tokens before).flatMap Token.source =
      before.flatMap (·.text) ++ reading.lexemes.flatMap (·.text) := by
  rw [Reading.tokens]
  cases same : reading.lexemes with
  | nil => exact absurd same some
  | cons first others =>
      simp only [List.flatMap_cons, Token.source, Token.gap, List.flatMap_map, List.append_assoc,
        List.flatMap_nil, List.nil_append]

/-! ## Quotes -/

def Lexeme.openQuote? (lexeme : Lexeme) : Option Char :=
  if lexeme.kind = .opener ∧ begins "<<<".toList lexeme.text = false then lexeme.text.getLast? else none

structure Lexeme.Quoted (lexeme : Lexeme) : Prop where
  single : lexeme.kind = .single → (unquote? '\'' lexeme.text).isSome = true
  opener : ∀ quote, lexeme.openQuote? = some quote →
    ∀ inner, (unquote? quote (lexeme.text ++ inner ++ [quote])).isSome = true

def closesQuotes : Option Char → List Token → Bool
  | _, [] => true
  | quote?, token :: tokens =>
    match token.lexeme.kind with
    | .chunk => closesQuotes quote? tokens
    | .closer => quote?.all (fun quote => token.lexeme.text == [quote]) && closesQuotes none tokens
    | _ => closesQuotes token.lexeme.openQuote? tokens

theorem openQuote?_of_kind {lexeme : Lexeme} (other : lexeme.kind ≠ .opener) : lexeme.openQuote? = none :=
  if_neg fun both => other both.1

theorem quoted_of_kind {lexeme : Lexeme} (noSingle : lexeme.kind ≠ .single) (noOpener : lexeme.kind ≠ .opener) :
    lexeme.Quoted where
  single same := absurd same noSingle
  opener quote same := by
    rw [openQuote?_of_kind noOpener] at same
    cases same

structure Reading.OfCode (reading : Reading) (frames : List Frame) (lexeme : Lexeme) : Prop where
  one : reading.lexemes = [lexeme]
  kind : [.chunk, .closer, .finish].contains lexeme.kind = false
  quoted : lexeme.Quoted
  opened : ∀ quote, lexeme.openQuote? = some quote → reading.frames = .quoted quote :: frames

section Quotes

variable {frames : List Frame} {text : List Char}

theorem ofCode_of_kind {reading : Reading} {lexeme : Lexeme} (one : reading.lexemes = [lexeme])
    (other : [.single, .opener, .chunk, .closer, .finish].contains lexeme.kind = false) :
    reading.OfCode frames lexeme := by
  simp only [List.contains_eq_mem, List.mem_cons, List.not_mem_nil, or_false, decide_eq_false_iff_not,
    not_or] at other
  refine ⟨one, by simp [other], quoted_of_kind other.1 other.2.1, fun quote same => ?_⟩
  rw [openQuote?_of_kind other.2.1] at same
  cases same

theorem exists_ofCode_readSymbol : ∃ lexeme, (readSymbol frames text).OfCode frames lexeme := by
  rw [readSymbol]
  split <;> exact ⟨_, ofCode_of_kind rfl rfl⟩

def IsBinaryMark (mark : List Char) : Prop := mark = [] ∨ mark = ['b'] ∨ mark = ['B']

theorem unquote?_mark {mark : List Char} (binary : IsBinaryMark mark) {quote : Char} (other : quote ≠ 'b' ∧ quote ≠ 'B')
    (inner : List Char) : (unquote? quote (mark ++ quote :: (inner ++ [quote]))).isSome = true := by
  rcases binary with rfl | rfl | rfl
  · simp [unquote?, begins, List.isPrefixOf, Ne.symm other.1, Ne.symm other.2]
  · simp [unquote?, begins, List.isPrefixOf]
  · simp [unquote?, begins, List.isPrefixOf]

theorem take_singleLength {n : Nat} (length : singleLength text = some n) :
    ∃ inner, text.take n = inner ++ ['\''] := by
  fun_induction singleLength text generalizing n with
  | case1 | case3 | case4 | case5 => cases length
  | case2 =>
      cases length
      exact ⟨[], rfl⟩
  | case6 x rest =>
      rename_i ih
      obtain ⟨m, further, rfl⟩ := Option.map_eq_some_iff.1 length
      obtain ⟨inner, taken⟩ := ih further
      exact ⟨_ :: x :: inner, by rw [List.take_succ_cons, List.take_succ_cons, taken]; rfl⟩
  | case7 c rest _ _ _ ih =>
      obtain ⟨m, further, rfl⟩ := Option.map_eq_some_iff.1 length
      obtain ⟨inner, taken⟩ := ih further
      exact ⟨c :: inner, by rw [List.take_succ_cons, taken]; rfl⟩

theorem ofCode_opener {mark : List Char} (binary : IsBinaryMark mark) {quote : Char}
    (isQuote : quote = '"' ∨ quote = '\x60') (rest : List Char) :
    (Reading.one .opener (.quoted quote :: frames) (mark.length + 1) (mark ++ quote :: rest)).OfCode frames
      ⟨.opener, mark ++ [quote]⟩ where
  one := by simp [Reading.one, List.take_length_add_append]
  kind := rfl
  quoted := by
    refine ⟨fun same => LexemeKind.noConfusion same, fun other same inner => ?_⟩
    rw [Lexeme.openQuote?] at same
    split at same
    · rw [List.getLast?_concat] at same
      cases same
      have letters : quote ≠ 'b' ∧ quote ≠ 'B' := by rcases isQuote with rfl | rfl <;> decide
      simpa using unquote?_mark binary letters inner
    · cases same
  opened := by
    intro other same
    rw [Lexeme.openQuote?] at same
    split at same
    · rw [List.getLast?_concat] at same
      cases same
      rfl
    · cases same

theorem exists_ofCode_readQuote (mark : List Char) (binary : IsBinaryMark mark) {quote : Char} (rest : List Char)
    (isQuote : quote = '\'' ∨ quote = '"' ∨ quote = '\x60') :
    ∃ lexeme, (readQuote frames mark.length (mark ++ quote :: rest)).OfCode frames lexeme := by
  rw [readQuote, List.drop_left]
  split
  · rename_i rest same
    cases same
    split
    · rename_i n length
      obtain ⟨inner, taken⟩ := take_singleLength length
      refine ⟨⟨.single, mark ++ '\'' :: (inner ++ ['\''])⟩, ?_, rfl, ?_, ?_⟩
      · simp [Reading.one, Nat.add_assoc, Nat.add_comm 1, List.take_length_add_append, taken]
      · exact ⟨fun _ => unquote?_mark binary (by decide) inner, fun quote same => by
          rw [openQuote?_of_kind (fun kind => by cases kind)] at same
          cases same⟩
      · intro quote same
        rw [openQuote?_of_kind (fun kind => by cases kind)] at same
        cases same
    · exact ⟨_, ofCode_of_kind rfl rfl⟩
  · rename_i other _ noSingle same
    cases same
    rcases isQuote with rfl | isQuote
    · exact (noSingle rfl).elim
    · exact ⟨_, ofCode_opener binary isQuote rest⟩
  · rename_i same
    cases same

theorem exists_ofCode_readCode (frames : List Frame) (c : Char) (text : List Char) :
    ∃ lexeme, (readCode frames (c :: text)).OfCode frames lexeme := by
  -- The tests of the lexer in their order; only quotes and headers open a string.
  rw [readCode]
  split
  · split
    · rename_i letter
      obtain ⟨named, quoted⟩ := letter
      have mark : [c] = ['b'] ∨ [c] = ['B'] := by
        rw [List.takeWhile_cons] at named
        split at named
        · exact named.imp (fun same => by simp [(List.cons.inj same).1]) fun same => by simp [(List.cons.inj same).1]
        · rcases named with same | same <;> cases same
      obtain ⟨quote, rest, rfl⟩ : ∃ quote rest, text = quote :: rest := by
        cases text with
        | nil => cases quoted
        | cons quote rest => exact ⟨quote, rest, rfl⟩
      have isQuote : quote = '\'' ∨ quote = '"' := by simpa using quoted
      exact exists_ofCode_readQuote [c] (.inr mark) rest (isQuote.imp_right .inl)
    · exact ⟨_, ofCode_of_kind rfl rfl⟩
  · split
    · exact ⟨_, ofCode_of_kind rfl rfl⟩
    · split
      · rename_i quoted
        have isQuote : c = '\'' ∨ c = '"' ∨ c = '\x60' := by
          have head {quote : Char} (begun : begins [quote] (c :: text) = true) : c = quote := by
            obtain ⟨rest, split⟩ := begins_iff.1 begun
            exact (List.cons.inj split).1
          exact quoted.imp head (Or.imp head head)
        exact exists_ofCode_readQuote [] (.inl rfl) text isQuote
      · split
        · rename_i heredoc
          obtain ⟨rest, split⟩ := begins_iff.1 heredoc
          rw [split]
          split
          · rename_i n label _
            have none : (⟨.opener, ("<<<".toList ++ rest).take (3 + n)⟩ : Lexeme).openQuote? = Option.none := by
              refine if_neg fun both => ?_
              have begun : ("<<<".toList ++ rest).take (3 + n) = "<<<".toList ++ rest.take n :=
                @List.take_length_add_append _ "<<<".toList rest n
              rw [begun] at both
              exact absurd (begins_iff.2 ⟨_, rfl⟩) (Bool.eq_false_iff.1 both.2)
            refine ⟨_, rfl, rfl, ⟨fun same => LexemeKind.noConfusion same, fun quote same => ?_⟩, fun quote same => ?_⟩
            all_goals
              rw [none] at same
              cases same
          · split <;> exact ⟨_, ofCode_of_kind rfl rfl⟩
          · exact exists_ofCode_readSymbol
        · exact exists_ofCode_readSymbol

def Lexeme.isPlain (lexeme : Lexeme) : Bool := [.word, .symbol, .stray].contains lexeme.kind

theorem Lexeme.isPlain_iff {lexeme : Lexeme} :
    lexeme.isPlain = true ↔ lexeme.kind = .word ∨ lexeme.kind = .symbol ∨ lexeme.kind = .stray := by
  simp [isPlain]

theorem Lexeme.Quoted.of_isPlain {lexeme : Lexeme} (plain : lexeme.isPlain = true) : lexeme.Quoted := by
  rcases isPlain_iff.1 plain with kind | kind | kind <;> exact quoted_of_kind (by simp [kind]) (by simp [kind])

theorem isPlain_nameAt (text : List Char) : (nameAt text).isPlain = true := by
  rw [nameAt]
  split <;> rfl

theorem isPlain_readSubstitution (begun : substitution text = true) :
    ∀ lexeme ∈ (readSubstitution frames text).lexemes, lexeme.isPlain = true := by
  rw [← List.all_eq_true]
  rcases substitution_cases begun with ⟨rest, rfl⟩ | ⟨rest, rfl⟩ | ⟨c, rest, rfl, other, _⟩
  · rfl
  · rfl
  · have symbol (text : List Char) : Lexeme.isPlain ⟨.symbol, text⟩ = true := rfl
    rw [readSubstitution_variable rest other, readVariable]
    split
    · simp [isPlain_nameAt, symbol]
    · split <;> simp [isPlain_nameAt, symbol]

/-- The ways in which a reading may go, with the frames before and after it. -/
inductive Reading.Form (frames : List Frame) : Reading → Prop
  | code {reading : Reading} {lexeme : Lexeme} (inside : inCode frames = true) (ofCode : reading.OfCode frames lexeme) :
      Form frames reading
  | substitution {reading : Reading} (inside : inCode frames = false) (some : reading.lexemes ≠ [])
      (plain : ∀ lexeme ∈ reading.lexemes, lexeme.isPlain = true) : Form frames reading
  | chunk {text : List Char} {more : Nat} (inside : inCode frames = false) :
      Form frames ⟨[⟨.chunk, text⟩], frames, more⟩
  | quote {quote : Char} {outer : List Frame} {more : Nat} (top : frames = .quoted quote :: outer) :
      Form frames ⟨[⟨.closer, [quote]⟩], outer, more⟩
  | label {label text : List Char} {outer : List Frame} {more : Nat} (top : frames = .heredoc label :: outer) :
      Form frames ⟨[⟨.chunk, text⟩, ⟨.closer, label⟩], outer, more⟩

theorem read_form (frames : List Frame) (c : Char) (text : List Char) :
    (read frames (c :: text)).Form frames := by
  unfold read
  split
  · rename_i quote outer
    split
    · rename_i closes
      obtain ⟨rest, split⟩ := begins_iff.1 closes
      rw [split]
      exact .quote rfl
    · split
      · rename_i begun
        exact .substitution rfl (takes_readSubstitution begun).1 (isPlain_readSubstitution begun)
      · exact .chunk rfl
  · split
    · rename_i begun
      exact .substitution rfl (takes_readSubstitution begun).1 (isPlain_readSubstitution begun)
    · split
      · exact .label rfl
      · exact .chunk rfl
  · rename_i noQuote noHeredoc
    obtain ⟨lexeme, ofCode⟩ := exists_ofCode_readCode frames c text
    refine .code ?_ ofCode
    unfold inCode
    split
    · exact (noQuote _ _ rfl).elim
    · exact (noHeredoc _ _ rfl).elim
    · rfl

end Quotes

theorem Reading.tokens_one {reading : Reading} {lexeme : Lexeme} (one : reading.lexemes = [lexeme])
    (before : List Skipped) : reading.tokens before = [⟨before, lexeme⟩] := by
  rw [Reading.tokens, one]
  rfl

theorem mem_tokens {reading : Reading} {before : List Skipped} {token : Token} (mem : token ∈ reading.tokens before) :
    token.lexeme ∈ reading.lexemes := by
  rw [Reading.tokens] at mem
  cases same : reading.lexemes with
  | nil => simp [same] at mem
  | cons first others =>
      rw [same] at mem
      rcases List.mem_cons.1 mem with rfl | mem
      · exact List.mem_cons_self
      · obtain ⟨lexeme, other, rfl⟩ := List.mem_map.1 mem
        exact List.mem_cons_of_mem _ other

theorem closesQuotes_cons_of_isPlain {token : Token} (plain : token.lexeme.isPlain = true) (quote? : Option Char)
    (tokens : List Token) : closesQuotes quote? (token :: tokens) = closesQuotes none tokens := by
  have none : token.lexeme.openQuote? = Option.none := openQuote?_of_kind fun kind => by
    simp [Lexeme.isPlain, kind] at plain
  rcases Lexeme.isPlain_iff.1 plain with kind | kind | kind <;> simp [closesQuotes, kind, none]

theorem closesQuotes_append_of_isPlain {tokens : List Token} (some : tokens ≠ [])
    (plain : ∀ token ∈ tokens, token.lexeme.isPlain = true) (quote? : Option Char) (others : List Token) :
    closesQuotes quote? (tokens ++ others) = closesQuotes none others := by
  induction tokens generalizing quote? with
  | nil => exact absurd rfl some
  | cons token tokens ih =>
      obtain ⟨here, there⟩ := List.forall_mem_cons.1 plain
      rw [List.cons_append, closesQuotes_cons_of_isPlain here]
      by_cases more : tokens = []
      · rw [more, List.nil_append]
      · exact ih more there none

/-- Frames on which a string between quotes is open. -/
def OpenIn (quote? : Option Char) (frames : List Frame) : Prop :=
  ∀ quote, quote? = some quote → ∃ outer, frames = .quoted quote :: outer

theorem openIn_none (frames : List Frame) : OpenIn none frames := fun _ same => by cases same

theorem closesQuotes_reading {frames : List Frame} {reading : Reading} (form : reading.Form frames)
    (before : List Skipped) {others : List Token}
    (further : ∀ quote?, OpenIn quote? reading.frames → closesQuotes quote? others = true) {quote? : Option Char}
    (open? : OpenIn quote? frames) : closesQuotes quote? (reading.tokens before ++ others) = true := by
  -- What is left open by the reading is what the tokens behind it have to close.
  cases form with
  | @code _ lexeme inside ofCode =>
      have next : closesQuotes lexeme.openQuote? others = true :=
        further _ fun quote same => ⟨frames, ofCode.opened quote same⟩
      have kind := ofCode.kind
      rw [Reading.tokens_one ofCode.one, List.cons_append, List.nil_append, closesQuotes]
      split
      · rename_i same
        rw [show lexeme.kind = .chunk from same] at kind
        cases kind
      · rename_i same
        rw [show lexeme.kind = .closer from same] at kind
        cases kind
      · exact next
  | substitution inside some plain =>
      have nonempty : reading.tokens before ≠ [] := by
        rw [Reading.tokens]
        split
        · rename_i none
          exact absurd none some
        · exact List.cons_ne_nil _ _
      rw [closesQuotes_append_of_isPlain nonempty fun token mem => plain _ (mem_tokens mem)]
      exact further none (openIn_none _)
  | chunk inside => exact further quote? open?
  | @quote quote outer more top =>
      have same : quote?.all (quote == ·) = true := by
        cases quote? with
        | none => rfl
        | some other =>
            obtain ⟨_, top'⟩ := open? other rfl
            rw [top] at top'
            cases top'
            simp
      have next := further none (openIn_none _)
      simpa [Reading.tokens, closesQuotes, same] using next
  | @label label text outer more top =>
      have none : quote? = Option.none := by
        cases quote? with
        | none => rfl
        | some other =>
            obtain ⟨_, top'⟩ := open? other rfl
            rw [top] at top'
            cases top'
      have next := further Option.none (openIn_none _)
      simpa [Reading.tokens, closesQuotes, none] using next

theorem closesQuotes_lexFrom (frames : List Frame) (before : List Skipped) (text : List Char) {quote? : Option Char}
    (open? : OpenIn quote? frames) : closesQuotes quote? (lexFrom frames before text) = true :=
  lexFrom_induction (motive := fun frames _ _ tokens => ∀ quote?, OpenIn quote? frames →
      closesQuotes quote? tokens = true)
    (fun _ _ _ _ _ _ => rfl)
    (fun frames _ _ c rest _ _ ih _ open? => closesQuotes_reading (read_form frames c rest) _ ih open?)
    frames before text quote? open?

theorem closesQuotes_lex (source : List Char) : closesQuotes none (lex source) = true := by
  rw [lex]
  split
  · exact closesQuotes_lexFrom _ _ _ (openIn_none _)
  · rfl

theorem Reading.Form.quoted {frames : List Frame} {reading : Reading} (form : reading.Form frames) :
    ∀ lexeme ∈ reading.lexemes, lexeme.Quoted := by
  have other {kind : LexemeKind} {text : List Char} (other : kind = .chunk ∨ kind = .closer) :
      (⟨kind, text⟩ : Lexeme).Quoted := by
    rcases other with rfl | rfl <;>
      exact quoted_of_kind (fun same => LexemeKind.noConfusion same) fun same => LexemeKind.noConfusion same
  cases form with
  | code inside ofCode => simpa [ofCode.one] using ofCode.quoted
  | substitution inside some plain => exact fun lexeme mem => .of_isPlain (plain lexeme mem)
  | chunk inside => simpa using other (.inl rfl)
  | quote top => simpa using other (.inr rfl)
  | label top => simpa using ⟨other (.inl rfl), other (.inr rfl)⟩

theorem Reading.Form.unfinished {frames : List Frame} {reading : Reading} (form : reading.Form frames) :
    ∀ lexeme ∈ reading.lexemes, lexeme.kind ≠ .finish := by
  cases form with
  | code inside ofCode =>
      have kind := ofCode.kind
      intro lexeme mem finish
      rw [ofCode.one, List.mem_singleton] at mem
      rw [← mem, finish] at kind
      cases kind
  | substitution inside some plain =>
      intro lexeme mem finish
      have kind := plain lexeme mem
      rw [Lexeme.isPlain, finish] at kind
      cases kind
  | chunk inside | quote top | label top => simp

theorem quoted_lexFrom (frames : List Frame) (before : List Skipped) (text : List Char) :
    ∀ token ∈ lexFrom frames before text, token.lexeme.Quoted := by
  refine lexFrom_induction (motive := fun _ _ _ tokens => ∀ token ∈ tokens, token.lexeme.Quoted) ?_ ?_
    frames before text
  · intro frames before text _ token mem
    rw [List.mem_singleton.1 mem]
    exact quoted_of_kind (fun kind => LexemeKind.noConfusion kind) fun kind => LexemeKind.noConfusion kind
  · intro frames before text c rest others _ ih token mem
    rcases List.mem_append.1 mem with here | there
    · exact (read_form frames c rest).quoted _ (mem_tokens here)
    · exact ih token there

theorem quoted_lex (source : List Char) : ∀ token ∈ lex source, token.lexeme.Quoted := by
  rw [lex]
  split
  · exact quoted_lexFrom _ _ _
  · intro token mem
    have kind : token.lexeme.kind = .stray ∨ token.lexeme.kind = .finish := by
      rcases List.mem_cons.1 mem with rfl | mem
      · exact .inl rfl
      · rw [List.mem_singleton.1 mem]
        exact .inr rfl
    rcases kind with kind | kind <;> exact quoted_of_kind (by simp [kind]) (by simp [kind])

theorem lexFrom_finish (frames : List Frame) (before : List Skipped) (text : List Char) :
    ∃ front last, lexFrom frames before text = front ++ [last] ∧ last.lexeme = ⟨.finish, []⟩ ∧
      ∀ token ∈ front, token.lexeme.kind ≠ .finish := by
  refine lexFrom_induction (motive := fun _ _ _ tokens => ∃ front last, tokens = front ++ [last] ∧
    last.lexeme = ⟨.finish, []⟩ ∧ ∀ token ∈ front, token.lexeme.kind ≠ .finish) ?_ ?_ frames before text
  · intro frames before text _
    exact ⟨[], _, rfl, rfl, fun _ mem => absurd mem List.not_mem_nil⟩
  · rintro frames before text c rest _ _ ⟨front, last, rfl, finish, others⟩
    refine ⟨_ ++ front, last, (List.append_assoc _ _ _).symm, finish, fun token mem => ?_⟩
    rcases List.mem_append.1 mem with here | there
    · exact (read_form frames c rest).unfinished _ (mem_tokens here)
    · exact others token there

theorem lex_finish (source : List Char) :
    ∃ front last, lex source = front ++ [last] ∧ last.lexeme = ⟨.finish, []⟩ ∧
      ∀ token ∈ front, token.lexeme.kind ≠ .finish := by
  rw [lex]
  split
  · exact lexFrom_finish _ _ _
  · exact ⟨[⟨[], ⟨.stray, source⟩⟩], _, rfl, rfl, fun token mem => by
      rw [List.mem_singleton.1 mem]
      exact fun kind => LexemeKind.noConfusion kind⟩

end Phrasebook.Php
