import Phrasebook.Proofs.Php.Neighbours
import Phrasebook.Proofs.Php.Nesting
import Phrasebook.Proofs.Php.Remarks

/-!
# Comments between tokens

A comment that is put into code changes what separates the tokens on its two sides, and nothing else.

* `Admits`: the places at which a comment does not join with what stands before it.
* `lexFrom_remark`: the tokens of a text with a comment in it, where no further string is open at its place.
* `lex_remark`: the tokens of a source with a comment in it.
-/

namespace Phrasebook.Php

section Lexing

variable {frames : List Frame} {text : List Char}

/-! ## Tokens have characters -/

theorem text_of_mem_substitution (begun : substitution text = true) :
    ∀ lexeme ∈ (readSubstitution frames text).lexemes, lexeme.text ≠ [] := by
  rcases substitution_cases begun with ⟨rest, rfl⟩ | ⟨rest, rfl⟩ | ⟨c, rest, rfl, other, starts⟩
  · simp [readSubstitution]
  · simp [readSubstitution]
  · rw [readSubstitution_variable rest other, readVariable]
    split
    · simp [nameAt_ne_nil]
    · split
      · rename_i arrow
        cases same : ((c :: rest).drop (nameAt (c :: rest)).text.length).drop 2 with
        | nil =>
            rw [same] at arrow
            cases arrow.2
        | cons d tail => simp [nameAt_ne_nil]
      · simp [nameAt_ne_nil]

theorem text_of_mem_read {c : Char} (labelled : Labelled frames) :
    ∀ lexeme ∈ (read frames (c :: text)).lexemes, lexeme.text ≠ [] := by
  intro lexeme mem
  have alone (one : (read frames (c :: text)).lexemes = [lexeme]) : lexeme.text ≠ [] := by
    have takes := (@takes_read frames text c).2
    rw [one, List.flatMap_singleton, List.take_succ_cons] at takes
    rw [takes]
    exact List.cons_ne_nil _ _
  -- In code a reading is one lexeme, and it takes at least one character; in a string only the label may come with a
  -- text before it.
  cases inside : inCode frames with
  | true =>
      obtain ⟨other, ofCode⟩ := exists_ofCode_readCode frames c text
      rw [read_code inside] at mem alone
      rw [ofCode.one, List.mem_singleton] at mem
      exact alone (mem ▸ ofCode.one)
  | false =>
      revert mem alone
      unfold read
      split
      · split
        · exact fun mem alone => alone (by rw [List.mem_singleton.1 mem]; rfl)
        · split
          · rename_i begun
            exact fun mem _ => text_of_mem_substitution begun lexeme mem
          · exact fun mem alone => alone (by rw [List.mem_singleton.1 mem]; rfl)
      · split
        · rename_i begun
          exact fun mem _ => text_of_mem_substitution begun lexeme mem
        · rename_i label _ apart
          split
          · rename_i n length
            rintro mem -
            have some := @heredocLength_pos _ label _ (Bool.eq_false_iff.2 apart)
            rw [length] at some
            obtain ⟨n, rfl⟩ := Nat.exists_eq_succ_of_ne_zero (Nat.pos_iff_ne_zero.1 some)
            rcases List.mem_cons.1 mem with rfl | mem
            · exact List.cons_ne_nil _ _
            · rw [List.mem_singleton.1 mem]
              exact (labelled label List.mem_cons_self).1
          · exact fun mem alone => alone (by rw [List.mem_singleton.1 mem]; rfl)
      · rename_i noQuote noHeredoc
        exfalso
        unfold inCode at inside
        split at inside
        · exact noQuote _ _ rfl
        · exact noHeredoc _ _ rfl
        · cases inside

theorem text_of_mem_lexFrom {before : List Skipped} (labelled : Labelled frames) {token : Token}
    (mem : token ∈ lexFrom frames before text) (unfinished : token.lexeme.kind ≠ .finish) : token.lexeme.text ≠ [] := by
  refine lexFrom_induction (motive := fun frames _ _ tokens => Labelled frames → ∀ token ∈ tokens,
    token.lexeme.kind ≠ .finish → token.lexeme.text ≠ []) ?_ ?_ frames before text labelled token mem unfinished
  · intro frames before text _ _ token mem unfinished
    rw [List.mem_singleton.1 mem] at unfinished
    exact absurd rfl unfinished
  · intro frames before text c rest others _ ih labelled token mem unfinished
    rcases List.mem_append.1 mem with here | there
    · exact text_of_mem_read labelled _ (mem_tokens here)
    · exact ih (proper_read.labelled labelled) token there unfinished

/-! ## Strings that go on -/

theorem Reading.Form.open_of_split {reading : Reading} (form : reading.Form frames) {front back : List Lexeme}
    (split : reading.lexemes = front ++ back) (some : front ≠ []) (more : back ≠ []) :
    closers front < openers front + depth frames := by
  have single {lexeme : Lexeme} (one : [lexeme] = front ++ back) : False := by
    rcases List.append_eq_singleton_iff.1 one.symm with ⟨none, _⟩ | ⟨_, none⟩
    · exact some none
    · exact more none
  -- Only substitutions and the end of a heredoc have several lexemes, and a heredoc is closed by the last of them.
  cases form with
  | code inside ofCode => exact (single (ofCode.one ▸ split)).elim
  | substitution inside _ plain =>
      rw [closers_eq_zero]
      · have := depth_pos inside
        omega
      · intro lexeme mem closes
        have kind := plain lexeme (split ▸ List.mem_append_left _ mem)
        rw [Lexeme.isPlain, closes] at kind
        cases kind
  | chunk inside => exact (single split).elim
  | quote top => exact (single split).elim
  | @label label text outer _ top =>
      obtain ⟨lexeme, others, rfl⟩ := List.exists_cons_of_ne_nil some
      obtain ⟨rfl, behind⟩ := List.cons.inj split
      rcases List.append_eq_singleton_iff.1 behind.symm with ⟨rfl, _⟩ | ⟨_, none⟩
      · have inside : 0 < depth frames := by
          rw [top, depth_string rfl]
          exact Nat.succ_pos _
        change 0 < 0 + depth frames
        omega
      · exact absurd none more

theorem Reading.Form.plain_of_string {reading : Reading} (form : reading.Form frames) (inside : inCode frames = false) :
    ∀ lexeme ∈ reading.lexemes, lexeme.isPlain = true ∨ lexeme.kind = .chunk ∨ lexeme.kind = .closer := by
  cases form with
  | code code =>
      rw [inside] at code
      cases code
  | substitution _ _ plain => exact fun lexeme mem => .inl (plain lexeme mem)
  | chunk | quote | label => simp

theorem Reading.Form.closer_first {reading : Reading} (form : reading.Form frames) {lexeme : Lexeme}
    (first : reading.lexemes.head? = some lexeme) (closes : lexeme.kind = .closer) :
    ∃ quote, topQuote frames = some quote ∧ lexeme.text = [quote] := by
  cases form with
  | code _ ofCode =>
      have kind := ofCode.kind
      rw [ofCode.one] at first
      cases first
      rw [closes] at kind
      cases kind
  | substitution _ _ plain =>
      have kind := plain _ (List.mem_of_mem_head? first)
      rw [Lexeme.isPlain, closes] at kind
      cases kind
  | chunk =>
      cases first
      cases closes
  | quote top =>
      cases first
      exact ⟨_, by rw [top]; rfl, rfl⟩
  | label =>
      cases first
      cases closes

theorem unfinished_of_split {before : List Skipped} {left right : List Token}
    (split : lexFrom frames before text = left ++ right) (more : right ≠ []) :
    ∀ token ∈ left, token.lexeme.kind ≠ .finish := by
  obtain ⟨tokens, last, whole, _, others⟩ := lexFrom_finish frames before text
  rw [split] at whole
  obtain ⟨front, last, rfl⟩ := List.eq_nil_or_concat' right |>.resolve_left more
  rw [← List.append_assoc] at whole
  obtain ⟨rfl, _⟩ := List.append_inj' whole rfl
  exact fun token mem => others token (List.mem_append_left _ mem)

theorem continues_of_closed {front back : List Char} {left right : List Token} (labelled : Labelled frames)
    (inside : inCode frames = false) (split : lexFrom frames [] (front ++ back) = left ++ right) (more : right ≠ [])
    (within : left.flatMap Token.source <+: front)
    (closed : closers (left.map (·.lexeme)) = openers (left.map (·.lexeme)) + depth frames) :
    Continues (topQuote frames) front := by
  have texts (token : Token) (mem : token ∈ left) : 0 < token.source.length := by
    have text := text_of_mem_lexFrom labelled (split ▸ List.mem_append_left right mem)
      (unfinished_of_split split more token mem)
    rw [Token.source, List.length_append]
    exact Nat.add_pos_right _ (List.length_pos_iff.2 text)
  obtain ⟨token, mem, closes⟩ : ∃ token ∈ left, token.lexeme.kind = .closer := by
    have some : 0 < closers (left.map (·.lexeme)) := by
      have := depth_pos inside
      omega
    obtain ⟨lexeme, mem, closes⟩ := List.countP_pos_iff.1 some
    obtain ⟨token, there, rfl⟩ := List.mem_map.1 mem
    exact ⟨token, there, by simpa using closes⟩
  obtain ⟨front', back', rfl⟩ := List.append_of_mem mem
  -- A closer that is not the first token has two characters before it.
  cases front' with
  | cons first others =>
      refine .inl (Nat.le_trans ?_ within.length_le)
      have one := texts first (by simp)
      have two := texts token (by simp)
      simp only [List.cons_append, List.flatMap_cons, List.flatMap_append, List.length_append]
      omega
  | nil =>
      -- The first token is a closer, so it is the quote that ends the string.
      have gap : separatorsIn frames (front ++ back) = [] := by
        rw [separatorsIn, inside]
        rfl
      rw [lexFrom_eq, gap] at split
      split at split
      · obtain rfl : _ = token := (List.cons.inj split).1
        cases closes
      · rename_i c rest _
        obtain ⟨lexeme, others, same⟩ := List.exists_cons_of_ne_nil (@takes_read frames rest c).1
        rw [Reading.tokens, same] at split
        obtain rfl : _ = token := (List.cons.inj split).1
        obtain ⟨quote, top, text⟩ := (read_form frames c rest).closer_first (by rw [same]; rfl) closes
        have text : lexeme.text = [quote] := text
        obtain ⟨tail, rfl⟩ := within
        exact .inr (by simp [Token.source, Token.gap, text, top])

theorem heredocLength_opening {label indent rest : List Char} {c : Char} (indents : indent.all isIndent = true)
    (breaks : c = '\n' ∨ c = '\r') : indent.length < (heredocLength label (indent ++ c :: rest)).1 := by
  induction indent with
  | nil =>
      have apart : substitution (c :: rest) = false := by
        rw [substitution_cons]
        rcases breaks with rfl | rfl <;> rfl
      exact heredocLength_pos apart
  | cons d indent ih =>
      rw [List.all_cons, Bool.and_eq_true] at indents
      have blank : d = ' ' ∨ d = '\t' := by simpa [isIndent] using indents.1
      have apart : substitution (d :: (indent ++ c :: rest)) = false := by
        rw [substitution_cons]
        rcases blank with rfl | rfl <;> rfl
      have inLine : ¬ (endsLine d (indent ++ c :: rest) = true ∧ endsAt label (indent ++ c :: rest) = true) := by
        rcases blank with rfl | rfl <;> exact fun ends => absurd ends.1 (by simp [endsLine])
      have plain : ¬ (d = '\\' ∧ ((indent ++ c :: rest).head?.any fun x => x ≠ '\n' ∧ x ≠ '\r') = true) := by
        rcases blank with rfl | rfl <;> exact fun escape => absurd escape.1 (by decide)
      rw [List.cons_append, heredocLength_cons, if_neg (by simp [apart]), if_neg inLine, if_neg plain, List.length_cons]
      exact Nat.succ_lt_succ (ih indents.2)

theorem length_first_of_heredoc {label indent rest : List Char} {c : Char} {first : Token} {others : List Token}
    (indents : indent.all isIndent = true) (breaks : c = '\n' ∨ c = '\r')
    (split : lexFrom (.heredoc label :: frames) [] (indent ++ c :: rest) = first :: others) :
    indent.length < first.source.length := by
  have opening := @heredocLength_opening label indent rest c indents breaks
  have apart : substitution (indent ++ c :: rest) = false := by
    by_contra begun
    rw [Bool.not_eq_false] at begun
    have none : (heredocLength label (indent ++ c :: rest)).1 = 0 := by
      cases same : indent ++ c :: rest with
      | nil => simp at same
      | cons d text =>
          rw [same] at begun
          rw [heredocLength_cons, if_pos begun]
    omega
  rw [lexFrom_eq] at split
  split at split
  · rename_i none
    simp [separatorsIn, inCode, lengthOf] at none
  · rename_i d text whole
    have whole : indent ++ c :: rest = d :: text := whole
    -- A label cannot stand before the line break, so the first text goes on at least to there.
    have chunk : ∃ n, indent.length < n ∧
        (read (.heredoc label :: frames) (d :: text)).lexemes.head? = some ⟨.chunk, (d :: text).take n⟩ := by
      rw [← whole]
      rcases length : heredocLength label (indent ++ c :: rest) with ⟨n, _ | _⟩
      · rw [length] at opening
        rw [read_line apart length]
        exact ⟨n, opening, rfl⟩
      · rw [length] at opening
        rw [read_label apart length]
        exact ⟨n, opening, rfl⟩
    obtain ⟨n, inside, head⟩ := chunk
    obtain ⟨lexeme, more, same⟩ := List.exists_cons_of_ne_nil (@takes_read (.heredoc label :: frames) text d).1
    rw [same] at head
    cases head
    rw [Reading.tokens, same] at split
    obtain rfl := (List.cons.inj split).1
    have size := congrArg List.length whole
    simp only [List.length_append, List.length_cons] at size
    simp only [Token.source, Token.gap, separatorsIn, inCode, List.append_nil, List.flatMap_nil, List.nil_append,
      List.length_take, List.length_cons, Bool.false_eq_true, if_false]
    omega

theorem inCode_of_heredoc {label : List Char} {c : Char}
    (opened : (read frames (c :: text)).frames = .heredoc label :: frames) : inCode frames = true := by
  cases inside : inCode frames with
  | true => rfl
  | false =>
      have count := (@proper_read frames (c :: text)).count
      rw [opened, depth_string rfl] at count
      obtain ⟨lexeme, mem, opens⟩ : ∃ lexeme ∈ (read frames (c :: text)).lexemes, lexeme.kind = .opener := by
        have some : 0 < openers (read frames (c :: text)).lexemes := by omega
        obtain ⟨lexeme, mem, opens⟩ := List.countP_pos_iff.1 some
        exact ⟨lexeme, mem, by simpa using opens⟩
      have plain := (read_form frames c text).plain_of_string inside lexeme mem
      rcases plain with plain | kind | kind
      · rw [Lexeme.isPlain, opens] at plain
        cases plain
      · rw [opens] at kind
        cases kind
      · rw [opens] at kind
        cases kind

theorem header_within {front behind back : List Char} {left right : List Token} {header : Header} {c : Char}
    (split : c :: text = front ++ back) (rest : text.drop (read frames (c :: text)).more = behind ++ back)
    (opened : (read frames (c :: text)).frames = .heredoc header.label :: frames)
    (begun : "<<<".toList ++ header.text <+: front ++ back)
    (tokens : lexFrom (read frames (c :: text)).frames [] (behind ++ back) = left ++ right)
    (within : left.flatMap Token.source <+: behind) (some : left ≠ []) : "<<<".toList ++ header.text <+: front := by
  have inside := inCode_of_heredoc opened
  obtain ⟨tail, whole⟩ := begun
  rw [← split, List.append_assoc] at whole
  have found := header?_text header tail
  have body : (header.text ++ tail).drop header.opening.length = header.indent ++ header.lineBreak :: tail := by
    simp only [Header.text, List.append_assoc, List.drop_left, List.cons_append, List.nil_append]
  have other : decide (header.quote ≠ ['\'']) = true := by
    by_contra quoted
    rw [Bool.eq_false_iff.2 quoted] at found
    rw [read_code inside, ← whole] at opened
    cases length : nowdocLength header.label ((header.text ++ tail).drop header.opening.length) with
    | none =>
        rw [readCode_unclosed found length] at opened
        exact absurd (congrArg List.length opened) (by simp [Reading.one])
    | some m =>
        rw [readCode_nowdoc found length] at opened
        exact absurd (congrArg List.length opened) (by simp [Reading.one])
  rw [other] at found
  have size : (read frames (c :: text)).more = 2 + header.opening.length := by
    rw [read_code inside, ← whole, readCode_heredoc found]
    change 3 + header.opening.length - 1 = _
    omega
  have behind? : behind ++ back = header.indent ++ header.lineBreak :: tail := by
    rw [← body, ← drop_angles (header.text ++ tail), whole,
      show 3 + header.opening.length = 2 + header.opening.length + 1 by omega, List.drop_succ_cons, ← size, rest]
  obtain ⟨first, others, rfl⟩ := List.exists_cons_of_ne_nil some
  rw [opened, behind?] at tokens
  have reaches := length_first_of_heredoc header.indent_indents header.breaks tokens
  have inner := within.length_le
  have length := congrArg List.length behind?
  have length' := congrArg List.length (split.symm.trans whole.symm)
  simp only [List.length_append, List.length_cons, List.flatMap_cons, Header.text, String.reduceToList, List.length_nil]
    at inner length length'
  refine List.prefix_of_prefix_length_le ⟨tail, ?_⟩ (List.prefix_append front back) ?_
  · rw [List.append_assoc, whole, split]
  · simp only [Header.text, List.length_append, String.reduceToList, List.length_cons, List.length_nil]
    omega

/-! ## Signs -/

def signs : List Char := ['/', '*', '?', '>', '#']

theorem readCode_sign {c : Char} (sign : c ∈ signs) : readCode frames (c :: text) = readSymbol frames (c :: text) := by
  have other : c ≠ '<' := by
    rintro rfl
    exact absurd sign (by decide)
  have bare : Bare (c :: text) := by
    refine ⟨?_, ?_, ?_⟩
    · revert sign
      simp only [signs, List.mem_cons, List.not_mem_nil, or_false]
      rintro (rfl | rfl | rfl | rfl | rfl) <;> nofun
    · revert sign
      simp only [signs, List.mem_cons, List.not_mem_nil, or_false]
      rintro (rfl | rfl | rfl | rfl | rfl) <;> rfl
    · revert sign
      simp only [signs, List.mem_cons, List.not_mem_nil, or_false, BeginsQuote]
      rintro (rfl | rfl | rfl | rfl | rfl) (quote | quote | quote) <;> cases quote
  refine bare.readCode_symbol fun angles => ?_
  obtain ⟨rest, same⟩ := begins_iff.1 angles
  exact absurd (List.cons.inj same).1 other

theorem readSymbol_sign {c : Char} (sign : c ∈ signs) (bracket : c = '#' → text.head? = some '[') :
    ∃ symbol ∈ symbols, symbol <+: c :: text ∧
      readSymbol frames (c :: text) = ⟨[⟨.symbol, symbol⟩], framesAfter symbol frames, symbol.length - 1⟩ := by
  cases found : symbols.find? (begins · (c :: text)) with
  | some symbol =>
      have begun : begins symbol (c :: text) = true := List.find?_some (p := (begins · (c :: text))) found
      obtain ⟨rest, split⟩ := begins_iff.1 begun
      exact ⟨symbol, List.mem_of_find?_eq_some found, ⟨rest, split.symm⟩, by rw [readSymbol, found]⟩
  | none =>
      have apart := List.find?_eq_none.1 found
      by_cases hash : c = '#'
      · subst hash
        obtain ⟨rest, rfl⟩ := List.head?_eq_some_iff.1 (bracket rfl)
        exact absurd (begins_iff.2 ⟨rest, rfl⟩) (apart "#[".toList (by decide))
      · refine absurd (begins_iff.2 ⟨text, rfl⟩) (apart [c] ?_)
        revert sign hash
        simp only [signs, List.mem_cons, List.not_mem_nil, or_false]
        rintro (rfl | rfl | rfl | rfl | rfl) other <;> first | decide | exact absurd rfl other

theorem framesAfter_sign {c : Char} (sign : c ∈ signs) (frames : List Frame) : framesAfter [c] frames = frames := by
  have other : [c] ≠ ['{'] ∧ [c] ≠ ['}'] ∧ [c] ≠ [']'] := by
    refine ⟨?_, ?_, ?_⟩ <;> (rintro same; cases same; exact absurd sign (by decide))
  unfold framesAfter
  rw [if_neg other.1]
  split
  · exact if_neg other.2.1
  · exact if_neg other.2.2
  · rfl

theorem head_of_symbol {symbol : List Char} {c : Char} (mem : symbol ∈ symbols) (begun : symbol <+: c :: text) :
    ∃ tail, symbol = c :: tail ∧ tail <+: text := by
  have some : ∀ symbol ∈ symbols, symbol ≠ [] := by decide
  obtain ⟨d, tail, rfl⟩ := List.exists_cons_of_ne_nil (some symbol mem)
  obtain ⟨rfl, inside⟩ := List.cons_prefix_cons.1 begun
  exact ⟨tail, rfl, inside⟩

theorem not_chain_of_signs {c d : Char} {others : List Lexeme} {before : List Skipped} (sign : c ∈ signs)
    (follows : d ∈ ['*', '>']) (inside : inCode frames = true)
    (alone : ∀ symbol ∈ symbols, symbol.head? = some c → symbol = [c] ∨ symbol[1]? ≠ some d) (other : c ≠ '#')
    (next : ∀ symbol ∈ symbols, symbol.head? = some d → ⟨.symbol, symbol⟩ ∈ others) :
    ¬ ((read frames (c :: d :: text)).tokens before ++
        lexFrom (read frames (c :: d :: text)).frames [] ((d :: text).drop (read frames (c :: d :: text)).more)).IsChain
      fun token next => token.lexeme = ⟨.symbol, [c]⟩ → next.lexeme ∉ others := by
  intro chain
  have sign' : d ∈ signs ∧ d ≠ '#' ∧ separators (d :: text) = [] := by
    revert follows
    simp only [List.mem_cons, List.not_mem_nil, or_false]
    rintro (rfl | rfl) <;> exact ⟨by decide, by decide, separators_of_none rfl⟩
  have first : read frames (c :: d :: text) = ⟨[⟨.symbol, [c]⟩], frames, 0⟩ := by
    obtain ⟨symbol, mem, begun, here⟩ := @readSymbol_sign frames (d :: text) c sign (absurd · other)
    obtain ⟨tail, rfl, more⟩ := head_of_symbol mem begun
    have single : c :: tail = [c] := by
      cases tail with
      | nil => rfl
      | cons e tail =>
          exact (alone _ mem rfl).resolve_right fun apart => apart (congrArg some (List.cons_prefix_cons.1 more).1)
    rw [read_code inside, readCode_sign sign, here, single, framesAfter_sign sign]
    rfl
  rw [first, List.drop_zero, lexFrom_eq, separatorsIn, if_pos inside, sign'.2.2] at chain
  obtain ⟨symbol, mem, begun, here⟩ := @readSymbol_sign frames text d sign'.1 (absurd · sign'.2.1)
  obtain ⟨tail, rfl, more⟩ := head_of_symbol mem begun
  have second : read frames (d :: text) = ⟨[⟨.symbol, d :: tail⟩], framesAfter (d :: tail) frames, tail.length⟩ := by
    rw [read_code inside, readCode_sign sign'.1, here]
    rfl
  simp only [lengthOf, List.flatMap_nil, List.length_nil, List.drop_zero, second] at chain
  exact (List.isChain_cons_cons.1 chain).1 rfl (next _ mem rfl)

/-! ## A comment between two tokens -/

/-- Whether a comment does not join with what stands before it: some tokens, and some separators behind them. A question
mark right before it does not stop a one-line comment any more. -/
structure Admits (remark : Remark) (left : List Token) (near far : List Skipped) : Prop where
  fits : remark.Fits near far
  slash : near = [] → ∀ last ∈ left.getLast?, last.lexeme ≠ ⟨.symbol, ['/']⟩
  question : near = [] → ∀ last ∈ left.getLast?, last.lexeme = ⟨.symbol, ['?']⟩ →
    ∀ item ∈ last.before.getLast?, item.isClosed = true ∨ item.text = ['#']

theorem Admits.right {remark : Remark} {front left : List Token} {near far : List Skipped}
    (admits : Admits remark (front ++ left) near far) : Admits remark left near far where
  fits := admits.fits
  slash none last mem := admits.slash none last (by rw [List.getLast?_append, mem]; rfl)
  question none last mem := admits.question none last (by rw [List.getLast?_append, mem]; rfl)

theorem separator?_slash_of_reading {front back rest : List Char} {c : Char} {left right : List Token}
    {before near far : List Skipped} {remark : Remark} (inside : inCode frames = true)
    (none : separator? (c :: (front ++ back)) = none)
    (split : (read frames (c :: (front ++ back))).tokens before ++
      lexFrom (read frames (c :: (front ++ back))).frames []
        ((front ++ back).drop (read frames (c :: (front ++ back))).more) = left ++ right)
    (fits : (read frames (c :: (front ++ back))).more ≤ front.length) (tidy : Tidy (left ++ right))
    (admits : Admits remark left near far)
    (only : front = [] → left = (read frames (c :: (front ++ back))).tokens before ∧ near = []) :
    separator? (c :: (front ++ '/' :: rest)) = Option.none := by
  -- Three characters begin a separator together with the next one. As tokens they would be followed by what no such
  -- token is followed by.
  refine separator?_slash_of_none none (fun slash => ?_) (fun question head => ?_) fun hash => ?_
  · subst slash
    refine ⟨fun empty => ?_, fun head => ?_⟩
    · obtain ⟨rfl, alone⟩ := only empty
      subst empty
      obtain ⟨symbol, mem, begun, here⟩ := @readSymbol_sign frames back '/' (by decide) nofun
      rw [List.nil_append, read_code inside, readCode_sign (by decide), here] at fits
      obtain ⟨tail, rfl, _⟩ := head_of_symbol mem begun
      obtain rfl : tail = [] := List.length_eq_zero_iff.1 (Nat.le_zero.1 fits)
      refine admits.slash alone ⟨before, ⟨.symbol, ['/']⟩⟩ ?_ rfl
      rw [List.nil_append, read_code inside, readCode_sign (by decide), here]
      rfl
    · obtain ⟨tail, rfl⟩ := List.head?_eq_some_iff.1 head
      rw [← split] at tidy
      exact not_chain_of_signs (by decide) (by decide) inside (by decide) (by decide) (by decide) tidy.slash
  · subst question
    obtain ⟨tail, rfl⟩ := List.head?_eq_some_iff.1 head
    rw [← split] at tidy
    exact not_chain_of_signs (by decide) (by decide) inside (by decide) (by decide) (by decide) tidy.question
  · subst hash
    rintro rfl
    have bracket : back.head? = some '[' := by
      rw [List.nil_append, separator?_cons (by decide), if_neg (by simp), Option.map_eq_none_iff] at none
      cases back with
      | nil => cases none
      | cons d back =>
          rw [comment?_hash] at none
          split at none
          · rename_i same
            rw [same, List.head?_cons]
          · split at none <;> cases none
    obtain ⟨symbol, mem, begun, here⟩ := @readSymbol_sign frames back '#' (by decide) fun _ => bracket
    rw [List.nil_append, read_code inside, readCode_sign (by decide), here] at fits
    have long : ∀ symbol ∈ symbols, symbol.head? = some '#' → 1 < symbol.length := by decide
    obtain ⟨tail, rfl, _⟩ := head_of_symbol mem begun
    have := long _ mem rfl
    simp only [List.length_cons, List.length_nil] at fits this
    omega

theorem lexFrom_of_gap {text' : List Char} {before : List Skipped} (before' : List Skipped) {lexeme : Lexeme}
    {gap : List Skipped} {right : List Token}
    (same : text.drop (lengthOf (separatorsIn frames text)) = text'.drop (lengthOf (separatorsIn frames text')))
    (split : lexFrom frames before text = ⟨gap, lexeme⟩ :: right) :
    gap = before ++ separatorsIn frames text ∧
      lexFrom frames before' text' = ⟨before' ++ separatorsIn frames text', lexeme⟩ :: right := by
  rw [lexFrom_eq] at split ⊢
  rw [← same]
  cases after : text.drop (lengthOf (separatorsIn frames text)) with
  | nil =>
      rw [after] at split
      cases split
      exact ⟨rfl, rfl⟩
  | cons c rest =>
      rw [after] at split
      dsimp only at split ⊢
      obtain ⟨first, others, lexemes⟩ := List.exists_cons_of_ne_nil (@takes_read frames rest c).1
      rw [Reading.tokens, lexemes] at split ⊢
      cases split
      exact ⟨rfl, rfl⟩

theorem drop_separators (text : List Char) (inside : inCode frames = true) :
    text.drop (lengthOf (separatorsIn frames text)) = text.drop ((separators text).flatMap (·.text)).length := by
  rw [separatorsIn, if_pos inside]
  rfl

theorem lexFrom_remark_first (remark : Remark) {before near far : List Skipped} {lexeme : Lexeme} {right : List Token}
    (inside : inCode frames = true)
    (split : lexFrom frames before (near.flatMap (·.text) ++ text) = ⟨before ++ (near ++ far), lexeme⟩ :: right)
    (fits : remark.Fits near far) (more : text ≠ []) :
    ∃ gap, gap.filter (·.kind == .markup) = (near ++ far).filter (·.kind == .markup) ∧
      lexFrom frames before (near.flatMap (·.text) ++ (remark.source ++ text)) = ⟨before ++ gap, lexeme⟩ :: right := by
  have whole : separators (near.flatMap (·.text) ++ text) = near ++ far := by
    have := (lexFrom_of_gap before rfl split).1
    rw [separatorsIn, if_pos inside] at this
    exact (List.append_cancel_left this).symm
  obtain ⟨gap, markup, texts, joined⟩ := separators_remark remark more whole fits
  have same : (near.flatMap (·.text) ++ text).drop (lengthOf (separatorsIn frames (near.flatMap (·.text) ++ text))) =
      (near.flatMap (·.text) ++ (remark.source ++ text)).drop
        (lengthOf (separatorsIn frames (near.flatMap (·.text) ++ (remark.source ++ text)))) := by
    rw [drop_separators _ inside, drop_separators _ inside, whole, joined, texts, List.flatMap_append, List.drop_append,
      List.drop_append]
    simp
  refine ⟨gap, markup, ?_⟩
  have lexed := (lexFrom_of_gap before same split).2
  rwa [separatorsIn, if_pos inside, joined] at lexed

theorem exists_left_of_closed {reading : Reading} {before : List Skipped} {others left right : List Token}
    (form : reading.Form frames) (split : reading.tokens before ++ others = left ++ right) (some : left ≠ [])
    (balanced : closers (left.map (·.lexeme)) = openers (left.map (·.lexeme)) + depth frames) :
    ∃ left', left = reading.tokens before ++ left' ∧ others = left' ++ right := by
  rcases List.append_eq_append_iff.1 split with found | ⟨within, whole, same⟩
  · exact found
  -- A place inside of the reading would lie in an open string.
  · rcases List.eq_nil_or_concat' within with rfl | ⟨front, last, rfl⟩
    · exact ⟨[], by simpa using whole.symm, by simpa using same.symm⟩
    · have lexemes := congrArg (List.map (·.lexeme)) whole
      rw [lexemes_tokens, List.map_append] at lexemes
      have opened := form.open_of_split lexemes (by simpa using some) (by simp)
      omega

theorem exists_behind {before gap near : List Skipped} {front back rest : List Char} {left : List Token} {c : Char}
    (more : back ≠ []) (whole : gap.flatMap (·.text) ++ c :: rest = front ++ back)
    (place : before.flatMap (·.text) ++ front =
      ((read frames (c :: rest)).tokens (before ++ gap) ++ left).flatMap Token.source ++ near.flatMap (·.text)) :
    ∃ head behind, rest = head ++ (behind ++ back) ∧ head.length = (read frames (c :: rest)).more ∧
      front = gap.flatMap (·.text) ++ c :: (head ++ behind) ∧
      behind = left.flatMap Token.source ++ near.flatMap (·.text) := by
  obtain ⟨some, takes⟩ := @takes_read frames rest c
  rw [List.flatMap_append, flatMap_tokens some, takes, List.flatMap_append, List.take_succ_cons] at place
  simp only [List.append_assoc] at place
  have front? := List.append_cancel_left place
  rw [front?] at whole
  simp only [List.append_assoc, List.cons_append] at whole
  have rest? := (List.cons.inj (List.append_cancel_left whole)).2
  refine ⟨rest.take (read frames (c :: rest)).more, _, ?_, ?_, front?, rfl⟩
  · rw [List.append_assoc]
    exact rest?
  · have size := congrArg List.length rest?
    have pos := List.length_pos_iff.2 more
    simp only [List.length_append, List.length_take] at size ⊢
    omega

theorem read_slash_of_closed {head behind back : List Char} (rest : List Char) {c : Char} {left right : List Token}
    (labelled : Labelled frames) (sound : (read frames (c :: (head ++ (behind ++ back)))).Sound)
    (length : head.length = (read frames (c :: (head ++ (behind ++ back)))).more)
    (further : lexFrom (read frames (c :: (head ++ (behind ++ back)))).frames [] (behind ++ back) = left ++ right)
    (more : right ≠ []) (within : left.flatMap Token.source <+: behind)
    (balanced : closers (left.map (·.lexeme)) =
      openers (left.map (·.lexeme)) + depth (read frames (c :: (head ++ (behind ++ back)))).frames)
    (here : inCode frames = false → Continues (topQuote frames) (c :: (head ++ behind))) :
    read frames (c :: (head ++ (behind ++ '/' :: rest))) = read frames (c :: (head ++ (behind ++ back))) := by
  have join (text : List Char) : c :: (head ++ (behind ++ text)) = c :: (head ++ behind) ++ text := by simp
  have proper := @proper_read frames (c :: (head ++ (behind ++ back)))
  have slash := @read_slash (c :: (head ++ behind)) back rest frames (List.cons_ne_nil _ _) labelled
  rw [← join, ← join] at slash
  refine slash sound ?_ here (fun inside => ?_) fun header opened begun => ?_
  · rw [← length, List.length_cons, List.length_append]
    omega
  · rw [← length, List.drop_succ_cons, List.drop_left]
    exact continues_of_closed (proper.labelled labelled) inside further more within balanced
  · refine header_within (join back) (by rw [← length, List.drop_left]) opened (join back ▸ begun) further within ?_
    rintro rfl
    rw [opened, depth_string rfl] at balanced
    cases balanced

theorem nil_of_source {near far : List Skipped} {left right : List Token} {lexeme : Lexeme} (labelled : Labelled frames)
    (split : lexFrom frames [] text = left ++ ⟨near ++ far, lexeme⟩ :: right)
    (none : left.flatMap Token.source ++ near.flatMap (·.text) = []) : left = [] ∧ near = [] := by
  obtain ⟨noLeft, noNear⟩ := List.append_eq_nil_iff.1 none
  cases left with
  | cons token left =>
      have unfinished := unfinished_of_split split (List.cons_ne_nil _ _) token List.mem_cons_self
      have text := text_of_mem_lexFrom labelled (split ▸ List.mem_append_left _ List.mem_cons_self) unfinished
      simp [Token.source, text] at noLeft
  | nil =>
      refine ⟨rfl, List.eq_nil_iff_forall_not_mem.2 fun item mem => ?_⟩
      have gap := (lexFrom_of_gap [] rfl split).1
      rw [List.nil_append, separatorsIn] at gap
      split at gap
      · have text := (text_of_mem_separators (gap ▸ List.mem_append_left far mem)).1
        exact text (List.flatMap_eq_nil_iff.1 noNear item mem)
      · rw [(List.append_eq_nil_iff.1 gap).1] at mem
        cases mem

theorem Tidy.right {front tokens : List Token} (tidy : Tidy (front ++ tokens)) : Tidy tokens where
  noStray token mem := tidy.noStray token (List.mem_append_right front mem)
  slash := tidy.slash.right_of_append
  question := tidy.question.right_of_append

theorem separators_slash_of_reading {head behind back rest : List Char} {c : Char} {before gap near far : List Skipped}
    {left right : List Token} {remark : Remark} (inside : inCode frames = true)
    (gap? : separators (gap.flatMap (·.text) ++ c :: (head ++ behind) ++ back) = gap)
    (split : (read frames (c :: (head ++ (behind ++ back)))).tokens (before ++ gap) ++
      lexFrom (read frames (c :: (head ++ (behind ++ back)))).frames []
        ((head ++ (behind ++ back)).drop (read frames (c :: (head ++ (behind ++ back)))).more) =
      (read frames (c :: (head ++ (behind ++ back)))).tokens (before ++ gap) ++ left ++ right)
    (length : head.length = (read frames (c :: (head ++ (behind ++ back)))).more)
    (tidy : Tidy ((read frames (c :: (head ++ (behind ++ back)))).tokens (before ++ gap) ++ left ++ right))
    (admits : Admits remark ((read frames (c :: (head ++ (behind ++ back)))).tokens (before ++ gap) ++ left) near far)
    (last : behind = [] → left = [] ∧ near = []) :
    separators (gap.flatMap (·.text) ++ c :: (head ++ behind) ++ '/' :: rest) = gap := by
  have join : head ++ (behind ++ back) = head ++ behind ++ back := by simp
  rw [join] at split length tidy admits
  rw [List.append_assoc] at gap? ⊢
  have none : separator? (c :: (head ++ behind ++ back)) = Option.none := by
    have behind? : separators (c :: (head ++ behind) ++ back) = [] := separators_of_append (by rw [gap?, List.append_nil])
    cases here : separator? (c :: (head ++ behind ++ back)) with
    | none => rfl
    | some found =>
        rw [List.cons_append, separators_cons here] at behind?
        cases behind?
  have alone (empty : head ++ behind = []) : left = [] ∧ near = [] := last (List.append_eq_nil_iff.1 empty).2
  have still : separator? (c :: (head ++ behind ++ '/' :: rest)) = Option.none := by
    refine separator?_slash_of_reading inside none split ?_ tidy admits fun empty => ⟨?_, (alone empty).2⟩
    · rw [← length, List.length_append]
      exact Nat.le_add_right _ _
    · rw [(alone empty).1, List.append_nil]
  have kept := @separators_slash _ _ _ gap [] [] (by rw [gap?, List.append_nil]) (fun item mem => ?_)
    (fun _ _ _ empty => by cases empty) (separators_of_none still)
  · rwa [List.append_nil] at kept
  · by_cases question : c :: (head ++ behind) = ['?']
    · obtain ⟨rfl, empty⟩ := List.cons.inj question
      obtain ⟨rfl, rfl⟩ := alone empty
      obtain ⟨rfl, rfl⟩ := List.append_eq_nil_iff.1 empty
      simp only [List.append_nil, List.nil_append] at admits length
      obtain ⟨symbol, known, begun, here⟩ := @readSymbol_sign frames back '?' (by decide) nofun
      rw [read_code inside, readCode_sign (by decide), here] at length admits
      obtain ⟨tail, rfl, _⟩ := head_of_symbol known begun
      obtain rfl : tail = [] := List.length_eq_zero_iff.1 length.symm
      have last : item ∈ (before ++ gap).getLast? := by
        rw [List.getLast?_append, mem]
        rfl
      exact (admits.question rfl ⟨before ++ gap, ⟨.symbol, ['?']⟩⟩ rfl rfl item last).imp_right fun bare =>
        ⟨List.cons_ne_nil _ _, .inl bare⟩
    · exact .inr ⟨List.cons_ne_nil _ _, .inr question⟩

/-- A comment between two tokens in code changes what separates them, and not the markup there. -/
theorem lexFrom_remark (remark : Remark) {frames : List Frame} {before near far : List Skipped} {front back : List Char}
    {left right : List Token} {lexeme : Lexeme} (labelled : Labelled frames) (more : back ≠ [])
    (split : lexFrom frames before (front ++ back) = left ++ ⟨near ++ far, lexeme⟩ :: right)
    (place : before.flatMap (·.text) ++ front = left.flatMap Token.source ++ near.flatMap (·.text))
    (tidy : Tidy (left ++ ⟨near ++ far, lexeme⟩ :: right)) (admits : Admits remark left near far)
    (start : left = [] → before <+: near) (code : inCode frames = false → before = [])
    (balanced : closers (left.map (·.lexeme)) = openers (left.map (·.lexeme)) + depth frames) :
    ∃ joined, joined.filter (·.kind == .markup) = (near ++ far).filter (·.kind == .markup) ∧
      lexFrom frames before (front ++ (remark.source ++ back)) = left ++ ⟨joined, lexeme⟩ :: right := by
  -- By induction on what stands before the place, reading after reading. Strings are closed at the place, and this is
  -- passed on to the shorter text.
  induction size : front.length using Nat.strong_induction_on generalizing frames before front left with
  | h size ih =>
  subst size
  by_cases first : left = []
  · subst first
    have inside : inCode frames = true := inCode_of_depth (by simpa [closers, openers] using balanced.symm)
    obtain ⟨near, rfl⟩ := start rfl
    obtain rfl : front = near.flatMap (·.text) := by simpa using place
    rw [List.append_assoc] at split
    have fits : remark.Fits near far := fun item mem => admits.fits item (by rw [List.getLast?_append, mem]; rfl)
    obtain ⟨joined, markup, lexed⟩ := lexFrom_remark_first remark inside split fits more
    refine ⟨before ++ joined, ?_, lexed⟩
    rw [List.filter_append, markup, List.append_assoc, List.filter_append before]
  have whole := separatorsIn_append frames (front ++ back)
  have lexed := split
  rw [lexFrom_eq] at split
  generalize gap? : separatorsIn frames (front ++ back) = gap at split whole
  cases after : (front ++ back).drop (lengthOf gap) with
  | nil =>
      rw [after] at split
      obtain ⟨token, others, rfl⟩ := List.exists_cons_of_ne_nil first
      simp at split
  | cons c rest =>
  rw [after] at split whole
  dsimp only at split
  obtain ⟨left', rfl, next⟩ := exists_left_of_closed (read_form frames c rest) split first balanced
  -- What stands before the place: the gap, what is read, and what is behind.
  obtain ⟨head, behind, rfl, length, rfl, source⟩ : ∃ head behind, rest = head ++ (behind ++ back) ∧
      head.length = (read frames (c :: rest)).more ∧ front = gap.flatMap (·.text) ++ c :: (head ++ behind) ∧
      behind = left'.flatMap Token.source ++ near.flatMap (·.text) :=
    exists_behind more whole place
  have further : lexFrom (read frames (c :: (head ++ (behind ++ back)))).frames [] (behind ++ back) =
      left' ++ ⟨near ++ far, lexeme⟩ :: right := by
    rw [← next, ← length, List.drop_left]
  have proper := @proper_read frames (c :: (head ++ (behind ++ back)))
  have balanced' : closers (left'.map (·.lexeme)) =
      openers (left'.map (·.lexeme)) + depth (read frames (c :: (head ++ (behind ++ back)))).frames := by
    have count := proper.count
    rw [List.map_append, lexemes_tokens, closers, openers, List.countP_append, List.countP_append] at balanced
    simp only [closers, openers] at count ⊢
    omega
  have inner : left'.flatMap Token.source <+: behind := source ▸ List.prefix_append _ _
  have join (text : List Char) : c :: (head ++ (behind ++ text)) = c :: (head ++ behind) ++ text := by simp
  have sound : (read frames (c :: (head ++ (behind ++ back)))).Sound := by
    intro lexeme mem
    rw [← lexemes_tokens _ (before ++ gap)] at mem
    obtain ⟨token, there, rfl⟩ := List.mem_map.1 mem
    exact tidy.noStray token (List.mem_append_left _ (List.mem_append_left _ there))
  -- The first reading and the gap before it are the same with the comment behind them.
  have reading : read frames (c :: (head ++ (behind ++ (remark.source ++ back)))) =
      read frames (c :: (head ++ (behind ++ back))) := by
    refine read_slash_of_closed (remark.tail ++ back) labelled sound length further (List.cons_ne_nil _ _) inner
      balanced' fun inside => ?_
    rw [separatorsIn, inside, if_neg (by simp)] at gap?
    rw [code inside] at lexed place balanced
    rw [← gap?] at lexed place balanced
    exact continues_of_closed labelled inside lexed (List.cons_ne_nil _ _) ⟨_, place.symm⟩ balanced
  have gap' : separatorsIn frames (gap.flatMap (·.text) ++ c :: (head ++ behind) ++ (remark.source ++ back)) = gap := by
    cases inside : inCode frames with
    | false =>
        rw [separatorsIn, inside, if_neg (by simp)] at gap? ⊢
        exact gap?
    | true =>
        rw [separatorsIn, if_pos inside] at gap? ⊢
        exact separators_slash_of_reading inside gap? split length tidy admits fun none =>
          nil_of_source (proper.labelled labelled) further (by rw [← source, none])
  have shorter : behind.length < (gap.flatMap (·.text) ++ c :: (head ++ behind)).length := by
    simp only [List.length_append, List.length_cons]
    omega
  obtain ⟨joined, markup, others⟩ := ih behind.length shorter (proper.labelled labelled) further
    (by simpa using source) (List.append_assoc _ _ _ ▸ tidy).right admits.right (fun _ => List.nil_prefix) (fun _ => rfl)
    balanced' rfl
  refine ⟨joined, markup, ?_⟩
  rw [lexFrom_eq, gap', lengthOf, List.append_assoc, List.drop_left, ← join]
  dsimp only
  rw [reading, ← length, List.drop_left, others, List.append_assoc]

end Lexing

theorem lex_remark (remark : Remark) {near far : List Skipped} {front back : List Char} {left right : List Token}
    {lexeme : Lexeme} (split : lex (front ++ back) = left ++ ⟨near ++ far, lexeme⟩ :: right)
    (place : front = left.flatMap Token.source ++ near.flatMap (·.text)) (tidy : Tidy (lex (front ++ back)))
    (admits : Admits remark left near far)
    (balanced : closers (left.map (·.lexeme)) = openers (left.map (·.lexeme))) (begun : front ≠ []) (more : back ≠ []) :
    ∃ joined, joined.filter (·.kind == .markup) = (near ++ far).filter (·.kind == .markup) ∧
      lex (front ++ (remark.source ++ back)) = left ++ ⟨joined, lexeme⟩ :: right := by
  rw [lex] at split tidy
  cases length : markupLength? (front ++ back) with
  | none =>
      rw [length] at tidy
      exact absurd rfl (tidy.noStray _ List.mem_cons_self)
  | some n =>
      rw [length] at split tidy
      dsimp only at split tidy
      have size : ((front ++ back).take n).length = n := by
        rw [List.length_take, Nat.min_eq_left (markupLength?_le length)]
      have whole : (front ++ back).take n ++ (front ++ back).drop n = front ++ back := List.take_append_drop n _
      generalize (front ++ back).take n = markup at *
      generalize (front ++ back).drop n = text at *
      -- The first token has the markup before it, so the markup ends before the place.
      obtain ⟨start, inside⟩ : (left = [] → [⟨.markup, markup⟩] <+: near) ∧ markup <+: front := by
        cases left with
        | nil =>
            have gap := (lexFrom_of_gap [] rfl split).1
            cases near with
            | nil => exact absurd place begun
            | cons item near =>
                obtain ⟨rfl, _⟩ := List.cons.inj gap
                exact ⟨fun _ => ⟨near, rfl⟩, place ▸ ⟨near.flatMap (·.text), by simp⟩⟩
        | cons token left =>
            have gap := (@lexFrom_of_gap _ _ _ _ [] token.lexeme token.before _ rfl split).1
            exact ⟨fun none => absurd none (List.cons_ne_nil _ _), by simp [place, Token.source, Token.gap, gap]⟩
      obtain ⟨front, rfl⟩ := inside
      obtain rfl : text = front ++ back := List.append_cancel_left (by rw [whole, List.append_assoc])
      have length' : markupLength? (markup ++ front ++ '/' :: (remark.tail ++ back)) = some n := by
        refine markupLength?_slash length ?_ fun _ => more
        rw [List.length_append]
        omega
      have split' : markup ++ front ++ (remark.source ++ back) = markup ++ (front ++ (remark.source ++ back)) :=
        List.append_assoc _ _ _
      have code : inCode [] = false → [⟨.markup, markup⟩] = ([] : List Skipped) := fun inside => by cases inside
      obtain ⟨joined, kept, lexed⟩ := lexFrom_remark remark (fun label mem => by cases mem) more split
        (by simpa using place) (split ▸ tidy) admits start code balanced
      refine ⟨joined, kept, ?_⟩
      have length' : markupLength? (markup ++ front ++ (remark.source ++ back)) = some n := length'
      rw [lex, length']
      dsimp only
      rw [split', ← size, List.take_left, List.drop_left, lexed]

end Phrasebook.Php
